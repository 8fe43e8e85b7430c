import ScopedMemory.Proofs.Variadic.Slots
import ScopedMemory.Proofs.Variadic.Touch

namespace ScopedMemory

open Operation

variable {system : SystemAllocator} {strict : Prop} {waiting : List Block} {G : List Region}
  {ctx : Context} {σ τ ρ : Store} {c : Convention} {s : ScopeId} {buffer : Region}

theorem Argument.Accepted.length_contents {arg : Argument} (hacc : arg.Accepted c) {r : Region}
    (hv : arg.value = .segment r) (m : Memory) :
    (arg.contents m).length = arg.layout.size.toNat := by
  rw [← (hacc.segment r hv).1, Argument.contents_of_segment hv, Memory.length_read]

namespace VariadicList

/-- The list when that many slots have been read. -/
def after (v : VariadicList) (i : Nat) : VariadicList :=
  { v with
    cursor := v.cursor.map fun cur =>
      { cur with
        remaining := cur.remaining.narrow (.ofNat i * v.convention.slotSize)
          (cur.remaining.size - .ofNat i * v.convention.slotSize) } }

def slotAt (c : Convention) (buffer : Region) (i : Nat) : Region :=
  buffer.narrow (.ofNat i * c.slotSize) c.slotSize

theorem ofNat_succ_mul (i : Nat) (n : Word) :
    UInt64.ofNat (i + 1) * n = .ofNat i * n + n := by
  rw [UInt64.ofNat_add, UInt64.add_mul]
  exact congrArg (_ + ·) (UInt64.one_mul n)

/-- The buffer has the slot, and its end is below that of the address space. -/
structure HasSlot (c : Convention) (buffer : Region) (i : Nat) : Prop where
  pos : 0 < c.slotSize.toNat
  fits : (i + 1) * c.slotSize.toNat ≤ buffer.size.toNat
  finish : buffer.start.toNat + buffer.size.toNat < 0x10000000000000000

theorem HasSlot.toNat {i : Nat} (h : HasSlot c buffer i) :
    (UInt64.ofNat i * c.slotSize).toNat = i * c.slotSize.toNat := by
  have hfit := h.fits
  rw [Nat.succ_mul] at hfit
  exact VariadicBuilder.toNat_slot (by omega) buffer.size.toNat_lt h.pos

theorem HasSlot.spans {i : Nat} (h : HasSlot c buffer i) :
    buffer.Spans (.ofNat i * c.slotSize) c.slotSize := by
  have hfit := h.fits
  have hend := h.finish
  rw [Nat.succ_mul] at hfit
  unfold Region.Spans
  rw [h.toNat]
  omega

theorem HasSlot.start {i : Nat} (h : HasSlot c buffer i) :
    (slotAt c buffer i).start.toNat = buffer.start.toNat + i * c.slotSize.toNat := by
  rw [slotAt, Region.toNat_start_narrow h.spans, h.toNat]

/-- Reading the next slot decodes it and moves over it. -/
theorem run_readSlot {α : Type} {carrier : Carrier} {l : Layout}
    {decode : Cursor → Region → Operation α} {i : Nat} {x : α} (h : HasSlot c buffer i)
    (hcheck : carrier.check l c.width = .ok ())
    (hu : σ.checkUsable ctx.caller buffer.scope = .ok ())
    (hτ : τ.checkUsable ctx.caller buffer.scope = .ok ())
    (hd : ∀ cur, (decode cur (slotAt c buffer i)).run ctx σ = .ok x τ) :
    (((ofBuffer c buffer s).after i).readSlot carrier l decode).run ctx σ =
      .ok (x, (ofBuffer c buffer s).after (i + 1)) τ := by
  have hfit := h.fits
  have hend := h.finish
  have hoff := h.toNat
  rw [Nat.succ_mul] at hfit
  have hle : UInt64.ofNat i * c.slotSize ≤ buffer.size := by
    rw [UInt64.le_iff_toNat_le, hoff]
    omega
  have hrest : (buffer.size - UInt64.ofNat i * c.slotSize).toNat =
      buffer.size.toNat - i * c.slotSize.toNat := by
    rw [UInt64.toNat_sub_of_le _ _ hle, hoff]
  have hstart : (buffer.start + UInt64.ofNat i * c.slotSize).toNat =
      buffer.start.toNat + i * c.slotSize.toNat := h.start
  have hzero : buffer.start + UInt64.ofNat i * c.slotSize + 0 =
      buffer.start + UInt64.ofNat i * c.slotSize := UInt64.add_zero _
  -- The slot is at the beginning of what remains.
  have hslice : σ.checkAccess ctx.caller (buffer.narrow (.ofNat i * c.slotSize)
      (buffer.size - .ofNat i * c.slotSize)) 0 c.slotSize = .ok () := by
    refine Store.checkAccess_eq_ok_iff.mpr ⟨hu, ?_⟩
    unfold Region.Spans Region.narrow
    rw [hrest, hstart, UInt64.toNat_zero]
    omega
  have hsub : Word.sub? (buffer.size - .ofNat i * c.slotSize) c.slotSize =
      some (buffer.size - .ofNat i * c.slotSize - c.slotSize) := by
    unfold Word.sub?
    rw [if_pos (by rw [hrest]; omega)]
  have hadvance : τ.checkAccess ctx.caller (buffer.narrow (.ofNat i * c.slotSize)
      (buffer.size - .ofNat i * c.slotSize)) c.slotSize
        (buffer.size - .ofNat i * c.slotSize - c.slotSize) = .ok () := by
    refine Store.checkAccess_eq_ok_iff.mpr ⟨hτ, ?_⟩
    unfold Region.Spans Region.narrow
    have hle' : c.slotSize ≤ buffer.size - UInt64.ofNat i * c.slotSize := by
      rw [UInt64.le_iff_toNat_le, hrest]
      omega
    rw [UInt64.toNat_sub_of_le _ _ hle', hrest, hstart]
    omega
  have hnext : buffer.size - UInt64.ofNat i * c.slotSize - c.slotSize =
      buffer.size - UInt64.ofNat (i + 1) * c.slotSize := by
    rw [ofNat_succ_mul]
    grind
  unfold readSlot requireCursor after ofBuffer advance
  simp only [Option.map_some, run_bind, run_pure, hcheck, run_require_ok, Region.run_slice, hslice]
  have hslot : (buffer.narrow (.ofNat i * c.slotSize)
      (buffer.size - .ofNat i * c.slotSize)).narrow 0 c.slotSize = slotAt c buffer i := by
    simp only [Region.narrow, slotAt, hzero]
  have hmoved : (buffer.narrow (.ofNat i * c.slotSize)
      (buffer.size - .ofNat i * c.slotSize)).narrow c.slotSize
        (buffer.size - .ofNat i * c.slotSize - c.slotSize) =
      buffer.narrow (.ofNat (i + 1) * c.slotSize)
        (buffer.size - .ofNat (i + 1) * c.slotSize) := by
    simp only [Region.narrow, hnext, ofNat_succ_mul, UInt64.add_assoc]
  rw [hslot, hd]
  have hsize : (buffer.narrow (.ofNat i * c.slotSize)
      (buffer.size - .ofNat i * c.slotSize)).size = buffer.size - .ofNat i * c.slotSize := rfl
  simp only [Region.run_sliceFrom, hsize, hsub, Region.run_slice, hadvance, hmoved]

/-! ### What a slot is read as -/

theorem checkAccess_slotAt {i : Nat} {n : Word} (h : HasSlot c buffer i)
    (hu : σ.checkUsable ctx.caller buffer.scope = .ok ()) (hn : n.toNat ≤ c.slotSize.toNat) :
    σ.checkAccess ctx.caller (slotAt c buffer i) 0 n = .ok () := by
  have hfit := h.fits
  have hend := h.finish
  rw [Nat.succ_mul] at hfit
  refine Store.checkAccess_eq_ok_iff.mpr ⟨hu, ?_⟩
  unfold Region.Spans
  rw [h.start, UInt64.toNat_zero]
  change 0 + n.toNat ≤ c.slotSize.toNat ∧ _
  omega

theorem read_slotAt {i : Nat} {bytes : Bytes} (h : HasSlot c buffer i)
    (hm : σ.memory.Shows (buffer.start.toNat + i * c.slotSize.toNat) bytes) :
    σ.memory.read ((slotAt c buffer i).start + 0).toNat bytes.length = bytes := by
  rw [UInt64.add_zero, h.start]
  exact hm

theorem run_get_slotAt {i : Nat} {l : Layout} (x : Scalar) (h : HasSlot c buffer i)
    (hu : σ.checkUsable ctx.caller buffer.scope = .ok ())
    (hcheck : x.type.carrier.check l .native = .ok ())
    (hlen : (x.encode l.order).length ≤ c.slotSize.toNat)
    (hm : σ.memory.Shows (buffer.start.toNat + i * c.slotSize.toNat) (x.encode l.order)) :
    ((slotAt c buffer i).get x.type l 0).run ctx σ = .ok x σ := by
  have hn : (UInt64.ofNat x.type.size).toNat = (x.encode l.order).length := by
    rw [Scalar.length_encode]
    cases x.type <;> rfl
  have ha := checkAccess_slotAt (n := .ofNat x.type.size) h hu (by rwa [hn])
  rw [Region.run_get, hcheck]
  dsimp only
  rw [ha, hn, read_slotAt h hm, Scalar.decode_encode]

theorem decode_addressBytes {l : Layout} {a : Word} {bytes : Bytes}
    (h : Region.addressBytes l a = .ok bytes) :
    ∃ w, Region.addressWidth l = .ok w ∧ bytes.length = w.bytes ∧
      Address.decode l.order bytes = a := by
  unfold Region.addressBytes at h
  split at h
  next w hw =>
    refine ⟨w, hw, ?_⟩
    have ha := a.toNat_lt
    unfold Address.encode at h
    split at h
    next =>
      cases h
      refine ⟨ByteOrder.length_encode .., ?_⟩
      rw [Address.decode, ByteOrder.decode_encode, BitVec.toNat_ofNat, Nat.mod_eq_of_lt ha,
        UInt64.ofNat_toNat]
    next =>
      split at h
      next hs =>
        cases h
        refine ⟨ByteOrder.length_encode .., ?_⟩
        rw [Address.decode, ByteOrder.decode_encode, BitVec.toNat_ofNat, Nat.mod_eq_of_lt hs,
          UInt64.ofNat_toNat]
      next => cases h
  next => cases h

theorem run_getAddress_slotAt {i : Nat} {l : Layout} {a : Word} {bytes : Bytes}
    (h : HasSlot c buffer i) (hu : σ.checkUsable ctx.caller buffer.scope = .ok ())
    (hb : Region.addressBytes l a = .ok bytes) (hlen : bytes.length ≤ c.slotSize.toNat)
    (hm : σ.memory.Shows (buffer.start.toNat + i * c.slotSize.toNat) bytes) :
    ((slotAt c buffer i).getAddress l 0).run ctx σ = .ok a σ := by
  obtain ⟨w, hw, hbytes, ha⟩ := decode_addressBytes hb
  have hn : (UInt64.ofNat w.bytes).toNat = bytes.length := by
    rw [hbytes]
    cases w <;> rfl
  have hac := checkAccess_slotAt (n := .ofNat w.bytes) h hu (by rwa [hn])
  rw [Region.run_getAddress, hw]
  dsimp only
  rw [hac, hn, read_slotAt h hm, ha]

/-! ### Structs -/

/-- A region of the scope that lies in a block of it and shows the contents of a struct. -/
structure Source (σ : Store) (s : ScopeId) (l : Layout) (contents : Bytes) (src : Region) :
    Prop where
  scope : src.scope = s
  size : src.size = l.size
  spans : src.Spans 0 src.size
  inside : src.Inside σ
  shows : σ.memory.Shows src.start.toNat contents

theorem run_structSource (hsep : system.Separate) (hs : σ.Sound system strict waiting) {i : Nat}
    (h : HasSlot c buffer i) (hscope : buffer.scope = s) (hin : buffer.Inside σ)
    (hu : σ.checkUsable ctx.caller s = .ok ()) {arg : Argument} {contents : Bytes}
    {copy? : Option Region}
    (hlies : arg.Lies c s contents σ (buffer.start.toNat + i * c.slotSize.toNat) copy?)
    (hlen : contents.length = arg.layout.size.toNat) {r : Region} (hv : arg.value = .segment r) :
    ∃ src, Source σ s arg.layout contents src ∧ ∀ cur,
      (((ofBuffer c buffer s).after i).structSource arg.layout cur (slotAt c buffer i)).run ctx σ =
        .ok src σ := by
  obtain ⟨bytes, ht, hle, hm, _⟩ := hlies.slot
  have hub : σ.checkUsable ctx.caller buffer.scope = .ok () := by rwa [hscope]
  have hconv : ((ofBuffer c buffer s).after i).convention = c := rfl
  have hlist : ((ofBuffer c buffer s).after i).scope = s := rfl
  cases ht with
  | @register _ found hv' hc hn =>
    have hac := checkAccess_slotAt (n := arg.layout.size) h hub (by rwa [← hlen])
    have hsp := (Store.checkAccess_eq_ok_iff.mp hac).2
    have hstart := Region.toNat_start_narrow hsp
    rw [h.start, UInt64.toNat_zero, Nat.add_zero] at hstart
    refine ⟨(slotAt c buffer i).narrow 0 arg.layout.size, ⟨hscope, rfl, ?_, ?_, ?_⟩, fun cur => ?_⟩
    · unfold Region.Spans at hsp ⊢
      rw [hstart, ← h.start]
      refine ⟨?_, hsp.2⟩
      rw [UInt64.toNat_zero]
      exact Nat.le_of_eq (Nat.zero_add _)
    · exact (hin.narrow h.spans).narrow hsp
    · rwa [hstart]
    · unfold structSource
      rw [hconv, hc]
      cases found with
      | structReference => exact absurd rfl hn
      | _ => simp only [run_bind, run_require_ok, Region.run_slice, hac]
  | @reference _ copy _ hv' hc hb =>
    obtain ⟨hcs, hsize, hsp, hci, hcm⟩ := hlies.copy copy rfl
    have hsize' : copy.size = arg.layout.size := by
      rw [← UInt64.toNat_inj, hsize, hlen]
    refine ⟨copy, ⟨hcs, hsize', hsp, hci, hcm⟩, fun cur => ?_⟩
    have hget := run_getAddress_slotAt h hub hb hle hm
    have halive : σ.IsAlive copy.scope := by
      rw [hcs]
      exact (Store.checkUsable_eq_ok_iff.mp hu).2
    have howns := hci.owns hsep hs halive
    rw [hcs, hsize'] at howns
    have hcopy : (⟨copy.start, arg.layout.size, s⟩ : Region) = copy := by
      rw [← hsize', ← hcs]
    unfold structSource referenced ScopeId.resolve
    rw [hconv, hlist, hc]
    simp only [run_bind, run_require_ok, hget, run_checkUsable, hu, run_get, if_pos howns,
      run_pure, hcopy]
  | int hv' | long hv' | double hv' | address hv' => cases hv.symm.trans hv'

theorem run_readSegment (hlaw : system.Lawful) (hs : σ.Sound system strict waiting)
    (hl : σ.Ledger G) (hw : ctx.system.Within system) {i : Nat} (h : HasSlot c buffer i)
    (hscope : buffer.scope = s) (hin : buffer.Inside σ)
    (hu : σ.checkUsable ctx.caller s = .ok ()) {arg : Argument} {contents : Bytes}
    {copy? : Option Region}
    (hlies : arg.Lies c s contents σ (buffer.start.toNat + i * c.slotSize.toNat) copy?)
    (hcheck : arg.value.carrier.check arg.layout c.width = .ok ())
    (hlen : contents.length = arg.layout.size.toNat) {src₀ : Region}
    (hv : arg.value = .segment src₀) {w : Allocator} (hk : w.Known σ) {r : Region}
    (hr : (w.allocateLayout arg.layout).run ctx σ = .ok r ρ) :
    ∃ τ, (((ofBuffer c buffer s).after i).readSegment arg.layout w).run ctx σ =
        .ok (r, (ofBuffer c buffer s).after (i + 1)) τ ∧
      τ.memory.read r.start.toNat r.size.toNat = contents ∧
      (w.IsFresh → ∀ g ∈ G, σ.IsAlive g.scope → ∀ x, g.Has x →
        τ.memory.byte x = σ.memory.byte x) := by
  obtain ⟨src, hsrc, hrun⟩ :=
    run_structSource hlaw.separate hs h hscope hin hu hlies hlen hv
  have hg := (Allocator.leads_allocate hs hw hk arg.layout.size arg.layout.align).ok hr
  have hx := hg.changes.extends
  have hlt : s < σ.scopes.length := Store.lt_length_of_isAlive (Store.checkUsable_eq_ok_iff.mp hu).2
  have huρ : ρ.checkUsable ctx.caller s = .ok () := by rwa [hx.checkUsable hlt]
  have hsize : contents.length = src.size.toNat := by rw [hlen, hsrc.size]
  have hread : ρ.memory.read src.start.toNat src.size.toNat = contents := by
    have halive : σ.IsAlive src.scope := by
      rw [hsrc.scope]
      exact (Store.checkUsable_eq_ok_iff.mp hu).2
    rw [← hsize]
    refine hsrc.shows.congr fun x h₁ h₂ => ?_
    exact hg.changes.byte hlaw.separate hs (hs.inUse hsrc.inside halive ⟨h₁, by omega⟩)
  have hfrom : ρ.checkAccess ctx.caller src 0 src.size = .ok () :=
    Store.checkAccess_eq_ok_iff.mpr ⟨by rwa [hsrc.scope], hsrc.spans⟩
  have hto : ρ.checkAccess ctx.caller r 0 src.size = .ok () := by
    refine Store.checkAccess_eq_ok_iff.mpr ⟨hg.usable, ?_⟩
    rw [hsrc.size]
    exact hg.spans hlaw hs hl
  have hrs : r.size.toNat = contents.length := by rw [hg.size, hlen]
  refine ⟨ρ.setMemory (ρ.memory.write r.start.toNat contents), ?_, ?_, fun hf g hmem hga x hx => ?_⟩
  · refine run_readSlot h ?_ (by rwa [hscope]) (by rw [hscope]; exact huρ) fun cur => ?_
    · rw [hv] at hcheck
      exact hcheck
    · simp only [run_bind, hrun, hr, Region.run_copyFrom, hfrom, hto, hread, run_pure]
  · rw [hrs]
    exact Memory.read_write _ _ _
  · have hnot := hg.apart hlaw.separate hs hl hf hmem hga hx
    rw [← hg.changes.byte hlaw.separate hs (hs.inUse (hl.inside g hmem) hga hx)]
    exact Memory.byte_write_of_not fun hw => hnot ⟨hw.1, by rw [hrs]; exact hw.2⟩

/-! ### Lists of arguments -/

/-- Reading with the layout of the argument gives what the argument was, and `rest` is left. A
struct has these contents, wherever an allocator has room for it, and one that hands out new memory
leaves what is kept as it is. -/
def Yields (v : VariadicList) (ctx : Context) (σ : Store) (arg : Argument) (contents : Bytes)
    (keeps : Nat → Prop) (rest : VariadicList) : Prop :=
  match arg.value with
  | .int x => (v.readAs arg.layout .int).run ctx σ = .ok (.scalar ⟨.i32, x⟩, rest) σ
  | .long x => (v.readAs arg.layout .long).run ctx σ = .ok (.scalar ⟨.i64, x⟩, rest) σ
  | .double x =>
    (v.readAs arg.layout .double).run ctx σ = .ok (.scalar ⟨.f64, x⟩, rest) σ
  | .address a => (v.readAs arg.layout .address).run ctx σ = .ok (.address a, rest) σ
  | .segment _ => ∀ w : Allocator, w.Known σ → ∀ r ρ,
    (w.allocateLayout arg.layout).run ctx σ = .ok r ρ →
      ∃ τ, (v.readSegment arg.layout w).run ctx σ = .ok (r, rest) τ ∧
        τ.memory.read r.start.toNat r.size.toNat = contents ∧
        (w.IsFresh → ∀ x, keeps x → τ.memory.byte x = σ.memory.byte x)

theorem yields_after (hlaw : system.Lawful) (hs : σ.Sound system strict waiting) (hl : σ.Ledger G)
    (hw : ctx.system.Within system) {i : Nat} (h : HasSlot c buffer i) (hscope : buffer.scope = s)
    (hin : buffer.Inside σ) (hu : σ.checkUsable ctx.caller s = .ok ())
    {arg : Argument} {m : Memory} {copy? : Option Region}
    (hlies : arg.Lies c s (arg.contents m) σ
      (buffer.start.toNat + i * c.slotSize.toNat) copy?) (hacc : arg.Accepted c)
    {keeps : Nat → Prop} (hkeeps : ∀ x, keeps x → ∃ g ∈ G, σ.IsAlive g.scope ∧ g.Has x) :
    ((ofBuffer c buffer s).after i).Yields ctx σ arg (arg.contents m) keeps
      ((ofBuffer c buffer s).after (i + 1)) := by
  have hub : σ.checkUsable ctx.caller buffer.scope = .ok () := by rwa [hscope]
  have hcheck := hacc.carrier
  obtain ⟨bytes, ht, hle, hm, _⟩ := hlies.slot
  -- Numbers are read from their slots.
  have hscalar : ∀ x : Scalar, x.type.carrier.check arg.layout c.width = .ok () →
      x.type.carrier.check arg.layout .native = .ok () → bytes = x.encode arg.layout.order →
      (((ofBuffer c buffer s).after i).readScalar x.type arg.layout).run ctx σ =
        .ok (x, (ofBuffer c buffer s).after (i + 1)) σ := by
    intro x hwidth hnative hx
    rw [hx] at hle hm
    exact run_readSlot h hwidth hub hub fun _ => run_get_slotAt x h hub hnative hle hm
  have hsegment : ∀ {r : Region}, arg.value = .segment r → ∀ w : Allocator, w.Known σ → ∀ r' ρ,
      (w.allocateLayout arg.layout).run ctx σ = .ok r' ρ →
        ∃ τ, (((ofBuffer c buffer s).after i).readSegment arg.layout w).run ctx σ =
            .ok (r', (ofBuffer c buffer s).after (i + 1)) τ ∧
          τ.memory.read r'.start.toNat r'.size.toNat = arg.contents m ∧
          (w.IsFresh → ∀ x, keeps x → τ.memory.byte x = σ.memory.byte x) := by
    intro r hv w hk r' ρ hr
    obtain ⟨τ, hrun, hread, hsame⟩ := run_readSegment hlaw hs hl hw h hscope hin hu hlies hcheck
      (hacc.length_contents hv m) hv hk hr
    refine ⟨τ, hrun, hread, fun hf x hx => ?_⟩
    obtain ⟨g, hg, ha, hgx⟩ := hkeeps x hx
    exact hsame hf g hg ha x hgx
  unfold Yields
  cases ht with
  | @int x hv =>
    rw [hv] at hcheck ⊢
    have hr := hscalar ⟨.i32, x⟩ hcheck hcheck rfl
    simp only [readAs, run_bind, hr, run_pure]
  | @long x hv =>
    rw [hv] at hcheck ⊢
    have hr := hscalar ⟨.i64, x⟩ hcheck hcheck rfl
    simp only [readAs, run_bind, hr, run_pure]
  | @double x hv =>
    rw [hv] at hcheck ⊢
    have hr := hscalar ⟨.f64, x⟩ hcheck hcheck rfl
    simp only [readAs, run_bind, hr, run_pure]
  | @address x _ hv hb =>
    rw [hv] at hcheck ⊢
    have hr : (((ofBuffer c buffer s).after i).readAddress arg.layout).run ctx σ =
        .ok (x, (ofBuffer c buffer s).after (i + 1)) σ :=
      run_readSlot h hcheck hub hub fun _ => run_getAddress_slotAt h hub hb hle hm
    simp only [readAs, run_bind, hr, run_pure]
  | @register r _ hv =>
    rw [hv]
    exact fun w hk r' ρ hr => hsegment hv w hk r' ρ hr
  | @reference r _ _ hv =>
    rw [hv]
    exact fun w hk r' ρ hr => hsegment hv w hk r' ρ hr

end VariadicList

def ArgumentType.carrier : ArgumentType → Carrier
  | int => .int
  | long => .long
  | double => .double
  | address => .address

namespace VariadicList

/-- Whatever is read next with a layout that is accepted is out of bounds. -/
def Exhausted (v : VariadicList) (ctx : Context) (σ : Store) : Prop :=
  (∀ (type : ArgumentType) (l : Layout), type.carrier.check l v.convention.width = .ok () →
    (v.readAs l type).run ctx σ = .error (.outOfBounds 0 v.convention.slotSize 0) σ) ∧
  ∀ (w : Allocator) (l : Layout), Carrier.segment.check l v.convention.width = .ok () →
    (v.readSegment l w).run ctx σ = .error (.outOfBounds 0 v.convention.slotSize 0) σ

theorem after_zero (v : VariadicList) : v.after 0 = v := by
  have hz : ∀ (r : Region) (n : Word),
      r.narrow (UInt64.ofNat 0 * n) (r.size - UInt64.ofNat 0 * n) = r := by
    intro r n
    have h0 : UInt64.ofNat 0 * n = 0 := UInt64.zero_mul
    rw [h0, Region.narrow, UInt64.add_zero, UInt64.sub_zero]
  obtain ⟨c, s, cursor⟩ := v
  cases cursor with
  | none => rfl
  | some cur => simp only [after, Option.map_some, hz]

theorem exhausted_after {n : Nat} (hpos : 0 < c.slotSize.toNat)
    (hsize : buffer.size.toNat = n * c.slotSize.toNat)
    (hu : σ.checkUsable ctx.caller buffer.scope = .ok ()) :
    ((ofBuffer c buffer s).after n).Exhausted ctx σ := by
  have hn : UInt64.ofNat n * c.slotSize = buffer.size := by
    have ht := VariadicBuilder.toNat_slot (Nat.le_of_eq hsize.symm) buffer.size.toNat_lt hpos
    rw [← UInt64.toNat_inj, ht, hsize]
  have hslice : σ.checkAccess ctx.caller (buffer.narrow (.ofNat n * c.slotSize)
      (buffer.size - .ofNat n * c.slotSize)) 0 c.slotSize =
        .error (.outOfBounds 0 c.slotSize 0) := by
    have hz : buffer.size - UInt64.ofNat n * c.slotSize = 0 := by
      rw [hn]
      exact UInt64.sub_self _
    have hno : ¬ (buffer.narrow (.ofNat n * c.slotSize) 0).Spans 0 c.slotSize := by
      intro h
      have hle := h.1
      rw [UInt64.toNat_zero, Nat.zero_add] at hle
      exact Nat.not_lt.mpr hle hpos
    have hu' : σ.checkUsable ctx.caller (buffer.narrow (.ofNat n * c.slotSize) 0).scope =
      .ok () := hu
    rw [hz, Store.checkAccess_eq, hu']
    dsimp only
    rw [Region.checkSpan_eq, if_neg hno]
    rfl
  have hread : ∀ {α : Type} (carrier : Carrier) (l : Layout)
      (decode : Cursor → Region → Operation α), carrier.check l c.width = .ok () →
      (((ofBuffer c buffer s).after n).readSlot carrier l decode).run ctx σ =
        .error (.outOfBounds 0 c.slotSize 0) σ := by
    intro α carrier l decode hcheck
    unfold readSlot requireCursor after ofBuffer
    simp only [Option.map_some, run_bind, run_pure, hcheck, run_require_ok, Region.run_slice,
      hslice]
  have hscalar : ∀ (t : ScalarType) (l : Layout), t.carrier.check l c.width = .ok () →
      (((ofBuffer c buffer s).after n).readScalar t l).run ctx σ =
        .error (.outOfBounds 0 c.slotSize 0) σ := fun t l hcheck => hread t.carrier l _ hcheck
  have haddress : ∀ l : Layout, Carrier.address.check l c.width = .ok () →
      (((ofBuffer c buffer s).after n).readAddress l).run ctx σ =
        .error (.outOfBounds 0 c.slotSize 0) σ := fun l hcheck => hread .address l _ hcheck
  refine ⟨fun type l hcheck => ?_, fun w l hcheck => hread _ l _ hcheck⟩
  cases type with
  | int =>
    simp only [readAs, run_bind, hscalar .i32 l hcheck]
    rfl
  | long =>
    simp only [readAs, run_bind, hscalar .i64 l hcheck]
    rfl
  | double =>
    simp only [readAs, run_bind, hscalar .f64 l hcheck]
    rfl
  | address =>
    simp only [readAs, run_bind, haddress l hcheck]
    rfl

theorem position_after {n : Nat} (h : n * c.slotSize.toNat ≤ buffer.size.toNat)
    (hpos : 0 < c.slotSize.toNat) :
    ((ofBuffer c buffer s).after n).position.toNat = n * c.slotSize.toNat := by
  have ht := VariadicBuilder.toNat_slot h buffer.size.toNat_lt hpos
  have hp : ((ofBuffer c buffer s).after n).position = UInt64.ofNat n * c.slotSize := by
    change buffer.start + UInt64.ofNat n * c.slotSize - buffer.start = _
    grind
  rw [hp, ht]

/-! ### The memory of a list -/

/-- Where the copy of a struct lies, as a slot of the list says. -/
def copyAt (v : VariadicList) (m : Memory) (l : Layout) (slot : Nat) : Option Region :=
  match v.convention.classifyStruct l, Region.addressWidth v.convention.addressLayout with
  | .ok .structReference, .ok w =>
    some ⟨Address.decode v.convention.addressLayout.order (m.read slot w.bytes), l.size, v.scope⟩
  | _, _ => none

/-- The bytes of the slots and of the copies of structs. -/
def Uses (v : VariadicList) (m : Memory) (args : List Argument) (x : Nat) : Prop :=
  ∃ cur, v.cursor = some cur ∧ (cur.remaining.Has x ∨
    ∃ (i : Nat) (arg : Argument) (r copy : Region), args[i]? = some arg ∧
      arg.value = .segment r ∧ v.copyAt m arg.layout
        (cur.remaining.start.toNat + i * v.convention.slotSize.toNat) = some copy ∧ copy.Has x)

theorem copyAt_of_lies {arg : Argument} {contents : Bytes} {start : Nat} {copy? : Option Region}
    (h : arg.Lies c s contents σ start copy?) (hlen : contents.length = arg.layout.size.toNat)
    {r : Region} (hv : arg.value = .segment r) :
    (ofBuffer c buffer s).copyAt σ.memory arg.layout start = copy? := by
  obtain ⟨bytes, ht, _, hm, _⟩ := h.slot
  have hconv : (ofBuffer c buffer s).convention = c := rfl
  unfold copyAt
  rw [hconv]
  cases ht with
  | @register _ found hv' hc hn =>
    rw [hc]
    cases found with
    | structReference => exact absurd rfl hn
    | _ => rfl
  | @reference _ copy _ hv' hc hb =>
    obtain ⟨w, hw, hbytes, ha⟩ := decode_addressBytes hb
    obtain ⟨hscope, hsize, _⟩ := h.copy copy rfl
    have hsize' : copy.size = arg.layout.size := by rw [← UInt64.toNat_inj, hsize, hlen]
    rw [hc, hw]
    dsimp only
    rw [← hbytes, hm, ha, ← hsize', ← hscope]
    rfl
  | int hv' | long hv' | double hv' | address hv' => cases hv.symm.trans hv'

/-- While the memory of the list is as it was in `m`, each read yields the next argument, with
structs as `old` has them, and does not write there itself if new memory is given to it. Behind the
last there is nothing to read. -/
structure ReadsBack (v : VariadicList) (args : List Argument) (old m : Memory) (ctx : Context)
    (σ : Store) : Prop where
  yields : (∀ x, v.Uses m args x → σ.memory.byte x = m.byte x) →
    ∀ (i : Nat) (arg : Argument), args[i]? = some arg →
      (v.after i).Yields ctx σ arg (arg.contents old) (v.Uses m args) (v.after (i + 1))
  exhausted : (v.after args.length).Exhausted ctx σ

end VariadicList

namespace VariadicBuilder

variable {b : VariadicBuilder} {copies : List Region}

theorem Built.of_uses (h : b.Built system σ buffer copies τ)
    (hacc : ∀ arg ∈ b.arguments, arg.Accepted b.convention) {x : Nat}
    (hx : (VariadicList.ofBuffer b.convention buffer b.scope).Uses τ.memory b.arguments x) :
    ∃ g ∈ buffer :: copies, g.scope = b.scope ∧ g.Has x ∧ ¬ σ.InUse x := by
  obtain ⟨cur, hcur, hx⟩ := hx
  cases hcur
  rcases hx with hx | ⟨i, arg, r, copy, hi, hv, hcopy, hx⟩
  · exact ⟨buffer, List.mem_cons_self, h.scope, hx, h.new x hx⟩
  · obtain ⟨copy?, hlies, hnew⟩ := h.lies hi
    have hlen := (hacc arg (List.mem_of_getElem? hi)).length_contents hv σ.memory
    have hat := (VariadicList.copyAt_of_lies hlies hlen hv).symm.trans hcopy
    obtain ⟨hmem, hnew⟩ := hnew copy hat
    exact ⟨copy, List.mem_cons_of_mem _ hmem, (hlies.copy copy hat).1, hx, hnew x hx⟩

theorem Built.readsBack (h : b.Built system σ buffer copies τ) (hlaw : system.Lawful)
    (hacc : ∀ arg ∈ b.arguments, arg.Accepted b.convention) (hl : τ.Later ρ)
    (hs : ρ.Sound system strict waiting) (hg : ρ.Ledger G) (hsub : buffer :: copies ⊆ G)
    (hw : ctx.system.Within system) (hu : ρ.checkUsable ctx.caller b.scope = .ok ()) :
    (VariadicList.ofBuffer b.convention buffer b.scope).ReadsBack b.arguments σ.memory τ.memory
      ctx ρ := by
  have halive : ρ.IsAlive b.scope := (Store.checkUsable_eq_ok_iff.mp hu).2
  refine ⟨fun hsame i arg hi => ?_, VariadicList.exhausted_after h.slot h.size ?_⟩
  · have harg := hacc arg (List.mem_of_getElem? hi)
    obtain ⟨copy?, hlies, _⟩ := h.lies hi
    have hle : (i + 1) * b.convention.slotSize.toNat ≤ buffer.size.toNat := by
      rw [h.size]
      exact Nat.mul_le_mul_right _ (List.getElem?_eq_some_iff.mp hi).1
    have hslot : VariadicList.HasSlot b.convention buffer i := ⟨h.slot, hle, h.finish⟩
    have hin : buffer.Inside ρ := hg.inside buffer (hsub List.mem_cons_self)
    have hlies' := hlies.later hl (fun x h₁ h₂ => ?_) fun r hr x hx => ?_
    · refine VariadicList.yields_after hlaw hs hg hw hslot h.scope hin hu hlies' harg fun x hx => ?_
      obtain ⟨g, hmem, hscope, hgx, _⟩ := h.of_uses hacc hx
      exact ⟨g, hsub hmem, by rwa [hscope], hgx⟩
    · rw [Nat.succ_mul] at hle
      have hx : buffer.Has x := ⟨by omega, by omega⟩
      exact hsame x ⟨_, rfl, Or.inl hx⟩
    · -- Only structs have copies.
      subst hr
      obtain ⟨bytes, ht, _⟩ := hlies.slot
      cases ht with
      | @reference src _ _ hv =>
        have hlen := harg.length_contents hv σ.memory
        exact hsame x ⟨_, rfl, Or.inr ⟨i, arg, src, r, hi, hv,
          VariadicList.copyAt_of_lies hlies hlen hv, hx⟩⟩
  · rwa [h.scope]

end VariadicBuilder
end ScopedMemory
