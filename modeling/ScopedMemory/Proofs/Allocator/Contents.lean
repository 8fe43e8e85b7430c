import ScopedMemory.Proofs.Allocator
import ScopedMemory.Proofs.Region.Row

namespace ScopedMemory

open Operation

/-! ### Requests that bring data along -/

namespace DatumType

def size : DatumType → Nat
  | scalar t => t.size
  | address => 8

def carrier : DatumType → Carrier
  | scalar t => t.carrier
  | address => .address

/-- The layout is that of a value as wide as those of the type. -/
def Suits (t : DatumType) (l : Layout) : Prop := l.IsValue ∧ l.size.toNat = t.size

instance (t : DatumType) (l : Layout) : Decidable (t.Suits l) :=
  inferInstanceAs (Decidable (_ ∧ _))

theorem check_eq_ok_iff {t : DatumType} {l : Layout} :
    t.carrier.check l .native = .ok () ↔ t.Suits l := by
  cases t with
  | scalar t => exact ScalarType.check_eq_ok_iff
  | address =>
    have hwidth : Carrier.address.valueSize? .native = some 8 := rfl
    have hsize : l.size = 8 ↔ l.size.toNat = 8 := UInt64.toNat_inj.symm
    exact (Carrier.check_eq_ok_iff hwidth).trans (and_congr_right fun _ => hsize)

theorem size_pos (t : DatumType) : 0 < t.size := by
  cases t with
  | scalar t => cases t <;> decide
  | address => decide

/-- As many values as there is memory for take less than the address space. -/
theorem Suits.mul_size_lt {t : DatumType} {l : Layout} {n : Nat} (h : t.Suits l)
    (hn : n * t.size ≤ 0x7fffffffffffffff) : n * l.size.toNat < 0x10000000000000000 := by
  rw [h.2]
  omega

theorem Suits.fits {d : Datum} {l : Layout} (h : d.type.Suits l) : d.Fits l := by
  obtain ⟨hv, hsize⟩ := h
  cases d with
  | scalar x => exact ⟨hv, hsize⟩
  | address a => exact ⟨hv, .inl hsize⟩

end DatumType

theorem Layout.ofSequence_ofNat {n : Nat} {l : Layout} (hn : n < 0x10000000000000000)
    (h : n * l.size.toNat < 0x10000000000000000) :
    Layout.ofSequence (.ofNat n) l =
      .ok (.sequence ⟨.ofNat (n * l.size.toNat), l.align, l.order⟩ (.ofNat n) l) := by
  have hmul : Word.mul? l.size (.ofNat n) = some (.ofNat (n * l.size.toNat)) := by
    rw [Word.mul?_eq_some_iff, UInt64.toNat_ofNat_of_lt' h, UInt64.toNat_ofNat_of_lt' hn,
      Nat.mul_comm]
  unfold Layout.ofSequence
  rw [hmul]

theorem Operation.flatMapM_require_ok {α β : Type} (f : α → List β) (xs : List α) :
    (xs.flatMapM fun a => require (.ok (f a)) : Operation (List β)) = pure (xs.flatMap f) := by
  induction xs with
  | nil => rfl
  | cons x xs ih =>
    rw [List.flatMapM_cons, ih]
    rfl

namespace AllocationRequest

/-- What the request is to put into its region, in which layout. -/
inductive Brings : AllocationRequest → Layout → DatumType → List Datum → Prop
  | value (l : Layout) (x : Scalar) : Brings (.value l x) l (.scalar x.type) [.scalar x]
  | address (l : Layout) (a : Word) : Brings (.address l a) l .address [.address a]
  | array (t : ScalarType) (l : Layout) (xs : List (BitVec (8 * t.size))) :
      Brings (.array t l xs) l (.scalar t) (xs.map fun x => .scalar ⟨t, x⟩)
  | addressArray (l : Layout) (xs : List Word) :
      Brings (.addressArray l xs) l .address (xs.map .address)

variable {q : AllocationRequest} {l : Layout} {t : DatumType} {data : List Datum}

namespace Brings

theorem type_eq (h : q.Brings l t data) : ∀ d ∈ data, d.type = t := by
  intro d hd
  cases h with
  | value | address =>
    obtain rfl := List.mem_singleton.mp hd
    rfl
  | array | addressArray =>
    obtain ⟨x, _, rfl⟩ := List.mem_map.mp hd
    rfl

/-- The layout of the data is looked at before anything else. -/
theorem checked_of_error (h : q.Brings l t data) {e : MemoryError}
    (hc : t.carrier.check l .native = .error e) : q.checked = .error e := by
  unfold DatumType.carrier at hc
  unfold checked
  cases h with
  | value | address | array | addressArray =>
    dsimp only at hc ⊢
    rw [hc]
    rfl

/-- Data that suit their layout take as many bytes as they have between them. -/
theorem checked_of_suits (h : q.Brings l t data) (ht : t.Suits l)
    (hfew : data.length * l.size.toNat < 0x10000000000000000) :
    q.checked = .ok (.ofNat (data.length * l.size.toNat), l.align) := by
  have hc := DatumType.check_eq_ok_iff.mpr ht
  unfold DatumType.carrier at hc
  unfold checked
  cases h with
  | value l x | address l x =>
    have hone : UInt64.ofNat (1 * l.size.toNat) = l.size := by
      rw [Nat.one_mul, UInt64.ofNat_toNat]
    dsimp only at hc ⊢
    rw [hc, List.length_singleton, hone]
    rfl
  | array t l xs | addressArray l xs =>
    have hpos : 0 < l.size.toNat := by
      rw [ht.2]
      exact DatumType.size_pos _
    rw [List.length_map] at hfew ⊢
    have hn : xs.length < 0x10000000000000000 :=
      Nat.lt_of_le_of_lt (Nat.le_mul_of_pos_right _ hpos) hfew
    dsimp only [dimensions] at hc ⊢
    rw [hc, Layout.ofSequence_ofNat hn hfew]
    rfl

/-- However the data are written, they come to lie one behind the other. -/
theorem fill_of_suits (h : q.Brings l t data) (ht : t.Suits l) (r : Region) :
    q.fill r = (do
      r.write 0 (Datum.row l data)
      return r) := by
  have hc := DatumType.check_eq_ok_iff.mpr ht
  have hsize := ht.2
  cases h with
  | value l x =>
    have hset : r.set l 0 x = r.write 0 (x.encode l.order) := by
      change (do require (x.type.carrier.check l .native); r.write 0 (x.encode l.order)) = _
      rw [show x.type.carrier.check l .native = .ok () from hc]
      rfl
    have hrow : Datum.row l [.scalar x] = x.encode l.order := by
      unfold Datum.row
      rw [List.flatMap_singleton, hsize]
      rfl
    rw [hrow, ← hset]
    rfl
  | address l a =>
    have hset : r.setAddress l 0 a = r.write 0 (l.order.encode 8 a.toNat) := by
      unfold Region.setAddress
      rw [Region.addressWidth_eq_ok (w := .bits64) ht.1 hsize]
      rfl
    have hrow : Datum.row l [.address a] = l.order.encode 8 a.toNat := by
      unfold Datum.row
      rw [List.flatMap_singleton, hsize]
      rfl
    rw [hrow, ← hset]
    rfl
  | array t l xs =>
    have hrow : Datum.row l (xs.map fun x => .scalar ⟨t, x⟩) =
        xs.flatMap fun x => Scalar.encode ⟨t, x⟩ l.order := by
      unfold Datum.row
      rw [List.flatMap_map, hsize]
      rfl
    rw [hrow]
    rfl
  | addressArray l xs =>
    have hencode : (xs.flatMapM fun a => require (Address.encode .native l.order a) :
        Operation Bytes) = pure (xs.flatMap fun a => l.order.encode 8 a.toNat) :=
      Operation.flatMapM_require_ok _ xs
    have hrow : Datum.row l (xs.map .address) = xs.flatMap fun a => l.order.encode 8 a.toNat := by
      unfold Datum.row
      rw [List.flatMap_map, hsize]
      rfl
    unfold fill
    dsimp only
    rw [hencode, hrow]
    rfl

end Brings
end AllocationRequest

namespace Allocator

variable {q : AllocationRequest} {l : Layout} {t : DatumType} {data : List Datum}

/-- A layout that does not suit is refused in the same way by all allocators, which are not asked
for memory. -/
theorem serve_of_not_suits (hq : q.Brings l t data) (h : ¬ t.Suits l) :
    ∃ e, ∀ w : Allocator, w.serve q = throw e := by
  cases hc : t.carrier.check l .native with
  | ok u => exact absurd (DatumType.check_eq_ok_iff.mp hc) h
  | error e =>
    refine ⟨e, fun w => ?_⟩
    rw [serve_eq, hq.checked_of_error hc]
    rfl

/-- To serve the request is to allocate as many bytes as the data have and to write them. -/
theorem serve_of_suits (hq : q.Brings l t data) (h : t.Suits l)
    (hfew : data.length * l.size.toNat < 0x10000000000000000) (w : Allocator) :
    w.serve q = (do
      let r ← w.allocate (.ofNat (data.length * l.size.toNat)) l.align
      r.write 0 (Datum.row l data)
      return r) := by
  rw [serve_eq, hq.checked_of_suits h hfew]
  exact bind_congr fun r => hq.fill_of_suits h r

/-! ### What the allocators do -/

section

variable {system : SystemAllocator} {strict : Prop} {waiting : List Block} {G : List Region}
  {ctx : Context} {σ ρ τ : Store} {w : Allocator} {r : Region} {size align : Word}

theorem leads_allocateNative_outside (s : ScopeId) (size align : Word) :
    (ScopeId.allocateNative s size align).Leads ctx σ
      (fun r τ => ∀ x, ¬ r.Has x → τ.memory.byte x = σ.memory.byte x) fun _ => True := by
  refine (ScopeId.leads_allocateNative s size align).imp (fun r τ h x hx => ?_) fun _ _ => trivial
  obtain ⟨_, _, _, hr, rfl⟩ := h
  have hsize : r.size = size := congrArg Region.size hr
  refine Memory.byte_fill_of_not fun hin => hx ⟨hin.1, ?_⟩
  rw [hsize]
  exact hin.2

/-- Only arenas take more memory into use than they hand out. -/
theorem leads_allocate_outside (hw : ∀ a, w ≠ arena a) (size align : Word) :
    (w.allocate size align).Leads ctx σ
      (fun r τ => ∀ x, ¬ r.Has x → τ.memory.byte x = σ.memory.byte x) fun _ => True := by
  cases w with
  | direct s =>
    refine (leads_require (P := fun _ τ => σ = τ) (fun _ _ => rfl) trivial).bind ?_
    rintro _ _ rfl
    exact leads_allocateNative_outside s size align
  | perRequest kind =>
    refine (leads_require (P := fun _ τ => σ = τ) (fun _ _ => rfl) trivial).bind ?_
    rintro _ _ rfl
    refine (ScopeId.leads_create _).chain (fun _ _ => trivial) fun s τ h => ?_
    have hsame : τ.memory = σ.memory := by
      rcases h with ⟨_, _, rfl⟩ | ⟨_, _, rfl⟩
      · rfl
      · rfl
    rw [← hsame]
    exact leads_allocateNative_outside s size align
  | arena a => exact absurd rfl (hw a)
  | recycling r₀ =>
    refine (leads_recycling r₀ size align).imp (fun r τ h x _ => ?_) fun _ _ => trivial
    obtain ⟨_, _, _, rfl⟩ := h
    rfl

/-- Once there is a region, it has room for all that the request brings. -/
theorem run_serve_of_suits (hq : q.Brings l t data) (h : t.Suits l)
    (hfew : data.length * l.size.toNat < 0x10000000000000000)
    (hr : (w.allocate (.ofNat (data.length * l.size.toNat)) l.align).run ctx σ = .ok r ρ)
    (hu : ρ.checkUsable ctx.caller r.scope = .ok ())
    (hspan : r.Spans 0 (.ofNat (data.length * l.size.toNat))) :
    (w.serve q).run ctx σ =
      .ok r (ρ.setMemory (ρ.memory.write r.start.toNat (Datum.row l data))) := by
  have hroom : r.Takes 0 (Datum.row l data).length := by
    rw [Datum.length_row]
    have htake := Region.takes_toNat.mpr hspan
    rwa [UInt64.toNat_ofNat_of_lt' hfew] at htake
  have hc : ρ.checkWrite ctx.caller r 0 (Datum.row l data).length = .ok () :=
    Store.checkWrite_eq_ok_iff.mpr ⟨hu, hroom⟩
  rw [serve_of_suits hq h hfew, run_bind, hr]
  dsimp only
  rw [run_bind, Region.run_write, hc, UInt64.add_zero]
  rfl

end

end Allocator

/-- Of the region that the store `ρ` has just handed out, the data take up every byte, one behind
the other. -/
structure Region.Filled (r : Region) (l : Layout) (t : DatumType) (data : List Datum)
    (ctx : Context) (ρ τ : Store) : Prop where
  size : r.size.toNat = data.length * l.size.toNat
  usable : τ.checkUsable ctx.caller r.scope = .ok ()
  element : ∀ i (hi : i < data.length) (reader : Context),
    τ.checkUsable reader.caller r.scope = .ok () →
      (r.fetch t l (.ofNat (i * l.size.toNat))).run reader τ = .ok data[i] τ
  bytes : ∀ i (hi : i < data.length), ∀ j < l.size.toNat,
    τ.memory.byte (r.start.toNat + i * l.size.toNat + j) =
      data[i].byte (l.order.place l.size.toNat j)
  still : τ = ρ.setMemory τ.memory
  aside : ∀ x, ¬ r.Has x → τ.memory.byte x = ρ.memory.byte x

theorem Region.filled {r : Region} {l : Layout} {t : DatumType} {data : List Datum}
    {ctx : Context} {ρ : Store} (ht : t.Suits l) (hdata : ∀ d ∈ data, d.type = t)
    (hsize : r.size.toNat = data.length * l.size.toNat)
    (hend : r.start.toNat + r.size.toNat < 0x10000000000000000)
    (hu : ρ.checkUsable ctx.caller r.scope = .ok ()) :
    r.Filled l t data ctx ρ (ρ.setMemory (ρ.memory.write r.start.toNat (Datum.row l data))) where
  size := hsize
  usable := hu
  element i hi reader hreader := by
    have hti : data[i].type = t := hdata _ (List.getElem_mem hi)
    have hfit : i * l.size.toNat + l.size.toNat ≤ r.size.toNat := by
      rw [hsize, ← Nat.succ_mul]
      exact Nat.mul_le_mul_right _ hi
    have hlt : i * l.size.toNat < 0x10000000000000000 := by omega
    have hoffset : (UInt64.ofNat (i * l.size.toNat)).toNat = i * l.size.toNat :=
      UInt64.toNat_ofNat_of_lt' hlt
    have hspan : r.Spans (.ofNat (i * l.size.toNat)) l.size := by
      unfold Spans
      rw [hoffset]
      omega
    have hstart := toNat_start_narrow hspan
    rw [hoffset] at hstart
    have hstands := Datum.standsAt_row (l := l) ρ.memory r.start.toNat hi
    rw [← hstart] at hstands
    rw [← hti] at ht ⊢
    exact run_fetch_of_standsAt ht.fits (Store.checkAccess_eq_ok_iff.mpr ⟨hreader, hspan⟩) hstands
  bytes i hi j hj := Datum.byte_write_row ρ.memory r.start.toNat hi hj
  still := rfl
  aside x hx := by
    refine Memory.byte_write_of_not fun hin => hx ?_
    rwa [Datum.length_row, ← hsize] at hin

end ScopedMemory
