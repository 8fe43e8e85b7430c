import ScopedMemory.Proofs.Session.Variadics
import ScopedMemory.Proofs.Variadic.Copying

namespace ScopedMemory

open Operation

variable {system : SystemAllocator} {strict : Prop} {waiting waiting' : List Block}
  {G G' : List Region} {ctx ctx' : Context} {σ τ ρ : Store}

theorem Operation.of_run_bind {α β : Type} {x : Operation α} {f : α → Operation β} {b : β}
    (h : (x >>= f).run ctx σ = .ok b τ) :
    ∃ a ρ, x.run ctx σ = .ok a ρ ∧ (f a).run ctx ρ = .ok b τ := by
  rw [run_bind] at h
  cases hx : x.run ctx σ with
  | ok a ρ =>
    rw [hx] at h
    exact ⟨a, ρ, rfl, h⟩
  | error e ρ =>
    rw [hx] at h
    cases h

theorem Operation.of_run_require {α : Type} {c : Except MemoryError α} {a : α}
    (h : (require c).run ctx σ = .ok a τ) : c = .ok a ∧ τ = σ := by
  cases c with
  | ok b =>
    cases h
    exact ⟨rfl, rfl⟩
  | error e => cases h

namespace Region

variable {r : Region} {s : ScopeId} {l : Layout}

/-- The same range of memory under the rules of another scope. -/
def under (r : Region) (s : ScopeId) : Region := { r with scope := s }

theorem of_run_read {offset length : Word} {bytes : Bytes}
    (h : (r.read offset length).run ctx σ = .ok bytes ρ) :
    r.Spans offset length ∧ bytes = σ.memory.read (r.start + offset).toNat length.toNat ∧
      ρ = σ := by
  obtain ⟨ha, hbytes, hρ⟩ := Leads.ok leads_read h
  exact ⟨(Store.checkAccess_eq_ok_iff.mp ha).2, hbytes, hρ⟩

/-- Bytes that are the same at another time can be read then by way of any scope. -/
theorem run_read_under {offset length : Word} {bytes : Bytes}
    (h : (r.read offset length).run ctx σ = .ok bytes ρ)
    (hu : τ.checkUsable ctx'.caller s = .ok ())
    (hm : ∀ x, r.Has x → τ.memory.byte x = σ.memory.byte x) :
    ((r.under s).read offset length).run ctx' τ = .ok bytes τ := by
  obtain ⟨hsp, rfl, _⟩ := of_run_read h
  have ha : τ.checkAccess ctx'.caller (r.under s) offset length = .ok () :=
    Store.checkAccess_eq_ok_iff.mpr ⟨hu, hsp⟩
  have hstart := toNat_start_narrow hsp
  have hread : τ.memory.read (r.start + offset).toNat length.toNat =
      σ.memory.read (r.start + offset).toNat length.toNat := by
    refine Memory.read_congr fun x h₁ h₂ => hm x (has_narrow hsp ?_)
    exact ⟨h₁, h₂⟩
  rw [run_read, ha]
  exact congrArg (EStateM.Result.ok · τ) hread

theorem run_get_under {t : ScalarType} {offset : Word} {x : Scalar}
    (h : (r.get t l offset).run ctx σ = .ok x ρ) (hu : τ.checkUsable ctx'.caller s = .ok ())
    (hm : ∀ x, r.Has x → τ.memory.byte x = σ.memory.byte x) :
    ((r.under s).get t l offset).run ctx' τ = .ok x τ := by
  unfold get at h ⊢
  obtain ⟨_, _, hcheck, hrest⟩ := of_run_bind h
  obtain ⟨hok, rfl⟩ := of_run_require hcheck
  obtain ⟨bytes, _, hread, hx⟩ := of_run_bind hrest
  cases hx
  simp only [run_bind, hok, run_require_ok, run_read_under hread hu hm, run_pure]

theorem run_getAddress_under {offset a : Word}
    (h : (r.getAddress l offset).run ctx σ = .ok a ρ) (hu : τ.checkUsable ctx'.caller s = .ok ())
    (hm : ∀ x, r.Has x → τ.memory.byte x = σ.memory.byte x) :
    ((r.under s).getAddress l offset).run ctx' τ = .ok a τ := by
  unfold getAddress at h ⊢
  obtain ⟨w, _, hwidth, hrest⟩ := of_run_bind h
  obtain ⟨hok, rfl⟩ := of_run_require hwidth
  obtain ⟨bytes, _, hread, ha⟩ := of_run_bind hrest
  cases ha
  simp only [run_bind, hok, run_require_ok, run_read_under hread hu hm, run_pure]

end Region

namespace VariadicList

variable {v v' : VariadicList} {c : Cursor} {l : Layout} {s : ScopeId} {a : Word}
  {w w' : Allocator}

/-! ### What a reading that succeeds has done -/

theorem of_run_advance {n : Word} (h : (v.advance c n).run ctx σ = .ok v' ρ) :
    c.remaining.Spans 0 n ∧ v' = v.moved c n ∧ ρ = σ := by
  obtain ⟨r, _, hr, hv⟩ := of_run_bind h
  cases hv
  obtain ⟨length, hlength, ha, rfl, rfl⟩ := Region.leads_sliceFrom.ok hr
  have hsp := (Store.checkAccess_eq_ok_iff.mp ha).2
  unfold Word.sub? at hlength
  split at hlength
  next hle =>
    cases hlength
    refine ⟨?_, rfl, rfl⟩
    unfold Region.Spans at hsp ⊢
    rw [UInt64.toNat_zero]
    omega
  next => cases hlength

theorem of_run_readSlot {α : Type} {carrier : Carrier} {decode : Cursor → Region → Operation α}
    {x : α} (hc : v.cursor = some c)
    (h : (v.readSlot carrier l decode).run ctx σ = .ok (x, v') ρ) :
    carrier.check l v.convention.width = .ok () ∧
      σ.checkUsable ctx.caller c.remaining.scope = .ok () ∧
      c.remaining.Spans 0 v.convention.slotSize ∧ (decode c (v.slot c)).run ctx σ = .ok x ρ ∧
      v' = v.moved c v.convention.slotSize := by
  unfold readSlot requireCursor at h
  rw [hc] at h
  obtain ⟨_, _, hcursor, h₁⟩ := of_run_bind h
  cases hcursor
  obtain ⟨_, _, hcheck, h₂⟩ := of_run_bind h₁
  obtain ⟨hok, rfl⟩ := of_run_require hcheck
  obtain ⟨_, _, hslice, h₃⟩ := of_run_bind h₂
  obtain ⟨ha, rfl, rfl⟩ := Region.leads_slice.ok hslice
  obtain ⟨hu, hsp⟩ := Store.checkAccess_eq_ok_iff.mp ha
  obtain ⟨_, _, hd, h₄⟩ := of_run_bind h₃
  obtain ⟨_, _, hadvance, h₅⟩ := of_run_bind h₄
  cases h₅
  obtain ⟨_, rfl, rfl⟩ := of_run_advance hadvance
  exact ⟨hok, hu, hsp, hd, rfl⟩

/-- A slot that can be decoded is read. -/
theorem run_readSlot_next {α : Type} {carrier : Carrier} {decode : Cursor → Region → Operation α}
    {x : α} (hc : v.cursor = some c) (hcheck : carrier.check l v.convention.width = .ok ())
    (hf : c.remaining.Fits) (hn : c.remaining.Spans 0 v.convention.slotSize)
    (hu : σ.checkUsable ctx.caller c.remaining.scope = .ok ())
    (hu' : ρ.checkUsable ctx.caller c.remaining.scope = .ok ())
    (hd : (decode c (v.slot c)).run ctx σ = .ok x ρ) :
    (v.readSlot carrier l decode).run ctx σ = .ok (x, v.moved c v.convention.slotSize) ρ := by
  have ha := Store.checkAccess_eq_ok_iff.mpr ⟨hu, hn⟩
  have hslot : c.remaining.narrow 0 v.convention.slotSize = v.slot c := rfl
  unfold readSlot requireCursor
  simp only [hc, run_bind, run_pure, hcheck, run_require_ok, Region.run_slice, ha, hslot, hd,
    run_advance hf hn hu']

/-- A struct whose bytes are found in memory in use is read if there is room for it. -/
theorem run_readSegment_next (hlaw : system.Lawful) (hs : σ.Sound system strict waiting)
    (hl : σ.Ledger G) (hw : ctx.system.Within system) (hk : w.Known σ) (hc : v.cursor = some c)
    (hcheck : Carrier.segment.check l v.convention.width = .ok ()) (hf : c.remaining.Fits)
    (hn : c.remaining.Spans 0 v.convention.slotSize)
    (hu : σ.checkUsable ctx.caller c.remaining.scope = .ok ()) {src r : Region}
    (hsrc : (v.structSource l c (v.slot c)).run ctx σ = .ok src σ) (hsize : src.size = l.size)
    (husrc : σ.checkUsable ctx.caller src.scope = .ok ()) (hfits : src.Fits)
    (hin : ∀ x, src.Has x → σ.InUse x) (hr : (w.allocateLayout l).run ctx σ = .ok r ρ) :
    ∃ τ, (v.readSegment l w).run ctx σ = .ok (r, v.moved c v.convention.slotSize) τ ∧
      τ.memory.read r.start.toNat r.size.toNat =
        σ.memory.read src.start.toNat l.size.toNat := by
  have hg := (Allocator.leads_allocate hs hw hk l.size l.align).ok hr
  have hrsize : r.size = l.size := hg.size
  rw [← hsize] at hg
  have hcopy := Allocator.run_copyFrom hlaw hs hl hg husrc hfits hin
  have hlt : c.remaining.scope < σ.scopes.length :=
    Store.lt_length_of_isAlive (Store.checkUsable_eq_ok_iff.mp hu).2
  refine ⟨ρ.setMemory (ρ.memory.write r.start.toNat
    (σ.memory.read src.start.toNat src.size.toNat)),
      run_readSlot_next hc hcheck hf hn hu ?_ ?_, ?_⟩
  · exact (hg.changes.extends.checkUsable hlt _).trans hu
  · simp only [run_bind, hsrc, hr, hcopy, run_pure]
  · rw [hsize, hrsize]
    exact Memory.read_write_read _ _ _ _ _

/-! ### A list by way of its address -/

/-- An address that is not null can be adopted, and the list goes on to the last address. -/
theorem run_ofAddress {k : Convention} (ha : a ≠ 0)
    (hu : σ.checkUsable ctx.caller s = .ok ()) :
    ∃ length : Word, a.toNat + length.toNat = 0xffffffffffffffff ∧
      (ofAddress k a s).run ctx σ = .ok ⟨k, s, some ⟨a, ⟨a, length, s⟩, true⟩⟩ σ := by
  have hlast : (0xffffffffffffffff : Word).toNat = 0xffffffffffffffff := by decide
  have hlt := a.toNat_lt
  have hle : a ≤ 0xffffffffffffffff := by
    rw [UInt64.le_iff_toNat_le, hlast]
    omega
  refine ⟨0xffffffffffffffff - a, ?_, ?_⟩
  · rw [UInt64.toNat_sub_of_le _ _ hle, hlast]
    omega
  · unfold ofAddress
    simp only [if_neg ha, run_bind, run_pure, Region.run_ofAddress, hu]

/-- The list `f` was adopted for the scope when `v` stood `base` bytes from its beginning, and it
stands where `v` stands. -/
structure Mirrors (s : ScopeId) (base : Nat) (v : VariadicList) (c : Cursor) (f : VariadicList)
    (d : Cursor) : Prop where
  cursor : f.cursor = some d
  convention : f.convention = v.convention
  scope : f.scope = s
  foreign : d.foreign = true
  home : d.remaining.scope = s
  here : d.remaining.start = c.remaining.start
  finish : d.remaining.start.toNat + d.remaining.size.toNat = 0xffffffffffffffff
  start : d.start.toNat = c.start.toNat + base
  started : d.start.toNat ≤ d.remaining.start.toNat

variable {f : VariadicList} {d : Cursor} {base : Nat}

theorem Mirrors.fits (h : Mirrors s base v c f d) : d.remaining.Fits := by
  rw [Region.fits_iff, h.finish]
  decide

/-- The adopted list reaches at least as far. -/
theorem Mirrors.spans (h : Mirrors s base v c f d) {n : Word} (hn : c.remaining.Spans 0 n) :
    d.remaining.Spans 0 n := by
  have hfinish := h.finish
  obtain ⟨_, hend⟩ := hn
  unfold Region.Spans
  rw [h.here] at hfinish ⊢
  rw [UInt64.toNat_zero] at hend ⊢
  omega

theorem Mirrors.slot (h : Mirrors s base v c f d) : f.slot d = (v.slot c).under s := by
  unfold VariadicList.slot Region.narrow Region.under
  rw [h.here, h.home, h.convention]

theorem Mirrors.moved (h : Mirrors s base v c f d) {n : Word} (hn : c.remaining.Spans 0 n) :
    Mirrors s base (v.moved c n) (c.moved n) (f.moved d n) (d.moved n) := by
  have hfinish := h.finish
  have hstarted := h.started
  obtain ⟨_, hsp⟩ := spans_rest h.fits (h.spans hn)
  have hhere := Region.toNat_start_narrow hsp
  have hsize : (d.remaining.size - n).toNat = d.remaining.size.toNat - n.toNat := by
    refine UInt64.toNat_sub_of_le _ _ (UInt64.le_iff_toNat_le.mpr ?_)
    have hle := hsp.1
    omega
  have hle := hsp.1
  refine ⟨rfl, h.convention, h.scope, h.foreign, h.home, ?_, ?_, h.start, ?_⟩
  · exact congrArg (· + n) h.here
  · change (d.remaining.narrow n (d.remaining.size - n)).start.toNat +
      (d.remaining.size - n).toNat = _
    rw [hhere, hsize]
    omega
  · exact Nat.le_trans hstarted (hhere ▸ Nat.le_add_right _ _)

theorem Mirrors.address (h : Mirrors s base v c f d) (hc : v.cursor = some c) :
    f.address = v.address := by
  unfold VariadicList.address
  rw [h.cursor, hc]
  exact h.here

theorem toNat_position (hc : v.cursor = some c) (hle : c.start.toNat ≤ c.remaining.start.toNat) :
    v.position.toNat = c.remaining.start.toNat - c.start.toNat := by
  unfold position
  rw [hc]
  exact UInt64.toNat_sub_of_le _ _ (UInt64.le_iff_toNat_le.mpr hle)

theorem Mirrors.position (h : Mirrors s base v c f d) (hc : v.cursor = some c) :
    v.position.toNat = base + f.position.toNat := by
  have hstart := h.start
  have hstarted := h.started
  have hhere := congrArg UInt64.toNat h.here
  rw [toNat_position hc (by omega), toNat_position h.cursor hstarted]
  omega

theorem leads_referenced_at (c : Cursor) (start length : Word) :
    (v.referenced c start length).Leads ctx σ
      (fun r τ => r = ⟨start, length, v.scope⟩ ∧ τ = σ) (· = σ) := by
  refine (leads_resolve _ _ _).bind fun r? τ h => ?_
  obtain ⟨rfl, hr⟩ := h
  split
  next r => exact leads_pure ⟨(hr r rfl).2.1, rfl⟩
  next =>
    split
    next => exact Region.leads_ofAddress.imp (fun _ _ h => h.2) fun _ h => h
    next => exact leads_throw rfl

/-- A pointer in an adopted list is followed wherever it leads. -/
theorem run_referenced_foreign (hf : d.foreign = true)
    (hu : σ.checkUsable ctx.caller f.scope = .ok ()) (start length : Word) :
    (f.referenced d start length).run ctx σ = .ok ⟨start, length, f.scope⟩ σ := by
  unfold referenced ScopeId.resolve
  by_cases ho : (σ.scope f.scope).Owns start length
  · simp only [run_bind, run_checkUsable, hu, run_require_ok, run_get, if_pos ho, run_pure]
  · simp only [run_bind, run_checkUsable, hu, run_require_ok, run_get, if_neg ho, run_pure, hf,
      if_true, Region.run_ofAddress]

/-- The struct is looked for where the list itself found it. -/
theorem Mirrors.run_structSource (h : Mirrors s base v c f d) {src : Region}
    (hr : (v.structSource l c (v.slot c)).run ctx σ = .ok src ρ)
    (hu : τ.checkUsable ctx'.caller s = .ok ())
    (hm : ∀ x, (v.slot c).Has x → τ.memory.byte x = σ.memory.byte x) :
    (f.structSource l d (f.slot d)).run ctx' τ = .ok (src.under s) τ := by
  unfold structSource at hr ⊢
  rw [h.convention, h.slot]
  obtain ⟨found, _, hfound, hrest⟩ := of_run_bind hr
  obtain ⟨hclass, rfl⟩ := of_run_require hfound
  rw [run_bind, hclass, run_require_ok]
  dsimp only
  split at hrest
  next =>
    obtain ⟨a, _, ha, hreferenced⟩ := of_run_bind hrest
    obtain ⟨rfl, rfl⟩ := (leads_referenced_at _ _ _).ok hreferenced
    rw [run_bind, Region.run_getAddress_under ha hu hm]
    have huf : τ.checkUsable ctx'.caller f.scope = .ok () := by rwa [h.scope]
    have hrun := run_referenced_foreign h.foreign huf a l.size
    rw [h.scope] at hrun
    exact hrun
  next =>
    obtain ⟨ha, rfl, _⟩ := Region.leads_slice.ok hrest
    have ha' : τ.checkAccess ctx'.caller ((v.slot c).under s) 0 l.size = .ok () :=
      Store.checkAccess_eq_ok_iff.mpr ⟨hu, (Store.checkAccess_eq_ok_iff.mp ha).2⟩
    rw [Region.run_slice, ha']
    rfl

theorem Mirrors.run_readSlot (h : Mirrors s base v c f d) (hc : v.cursor = some c) {α : Type}
    {carrier : Carrier} {decode decode' : Cursor → Region → Operation α} {x x' : α} {τ' : Store}
    (hr : (v.readSlot carrier l decode).run ctx σ = .ok (x, v') ρ)
    (hu : τ.checkUsable ctx'.caller s = .ok ()) (hu' : τ'.checkUsable ctx'.caller s = .ok ())
    (hd : (decode c (v.slot c)).run ctx σ = .ok x ρ →
      (decode' d (f.slot d)).run ctx' τ = .ok x' τ') :
    (f.readSlot carrier l decode').run ctx' τ =
        .ok (x', f.moved d v.convention.slotSize) τ' ∧
      v' = v.moved c v.convention.slotSize ∧ c.remaining.Spans 0 v.convention.slotSize := by
  obtain ⟨hcheck, _, hn, hdecode, rfl⟩ := of_run_readSlot hc hr
  rw [← h.home] at hu hu'
  refine ⟨?_, rfl, hn⟩
  rw [← h.convention] at hcheck hn ⊢
  exact run_readSlot_next h.cursor hcheck h.fits (h.spans hn) hu hu' (hd hdecode)

theorem run_reply {α : Type} {x x' : Operation (α × VariadicList)} {g : α → Reply} {p : Prop}
    {reply : Reply}
    (hr : (do let (a, rest) ← x; return (g a, rest) : Operation (Reply × VariadicList)).run ctx σ =
      .ok (reply, v') ρ)
    (hx : ∀ a, x.run ctx σ = .ok (a, v') ρ → x'.run ctx' τ = .ok (a, f) τ ∧ p) :
    (do let (a, rest) ← x'; return (g a, rest) : Operation (Reply × VariadicList)).run ctx' τ =
      .ok (reply, f) τ ∧ p := by
  obtain ⟨⟨a, rest⟩, _, hfirst, hreply⟩ := of_run_bind hr
  cases hreply
  obtain ⟨hrun, hp⟩ := hx a hfirst
  refine ⟨?_, hp⟩
  simp only [run_bind, hrun, run_pure]

/-- Numbers and addresses are read as the list itself reads them. -/
theorem Mirrors.run_readAs (h : Mirrors s base v c f d) (hc : v.cursor = some c)
    {type : ArgumentType} {reply : Reply}
    (hr : (v.readAs l type).run ctx σ = .ok (reply, v') ρ)
    (hu : τ.checkUsable ctx'.caller s = .ok ())
    (hm : ∀ x, (v.slot c).Has x → τ.memory.byte x = σ.memory.byte x) :
    (f.readAs l type).run ctx' τ = .ok (reply, f.moved d v.convention.slotSize) τ ∧
      v' = v.moved c v.convention.slotSize ∧ c.remaining.Spans 0 v.convention.slotSize := by
  have hscalar : ∀ (t : ScalarType) (x : Scalar) (rest : VariadicList) (ρ : Store),
      (v.readScalar t l).run ctx σ = .ok (x, rest) ρ →
        (f.readScalar t l).run ctx' τ = .ok (x, f.moved d v.convention.slotSize) τ ∧
          rest = v.moved c v.convention.slotSize ∧
            c.remaining.Spans 0 v.convention.slotSize := fun t x rest ρ hx =>
    h.run_readSlot hc hx hu hu fun hd => by
      rw [h.slot]
      exact Region.run_get_under hd hu hm
  have haddress : ∀ (a : Word) (rest : VariadicList) (ρ : Store),
      (v.readAddress l).run ctx σ = .ok (a, rest) ρ →
        (f.readAddress l).run ctx' τ = .ok (a, f.moved d v.convention.slotSize) τ ∧
          rest = v.moved c v.convention.slotSize ∧
            c.remaining.Spans 0 v.convention.slotSize := fun a rest ρ hx =>
    h.run_readSlot hc hx hu hu fun hd => by
      rw [h.slot]
      exact Region.run_getAddress_under hd hu hm
  cases type with
  | int => exact run_reply hr fun x => hscalar .i32 x v' ρ
  | long => exact run_reply hr fun x => hscalar .i64 x v' ρ
  | double => exact run_reply hr fun x => hscalar .f64 x v' ρ
  | address => exact run_reply hr fun a => haddress a v' ρ

theorem Mirrors.run_skip (h : Mirrors s base v c f d) (hc : v.cursor = some c)
    {ls : List Layout} (hr : (v.skip ls).run ctx σ = .ok v' ρ)
    (hu : τ.checkUsable ctx'.caller s = .ok ()) :
    ∃ n, (f.skip ls).run ctx' τ = .ok (f.moved d n) τ ∧ v' = v.moved c n ∧
      c.remaining.Spans 0 n := by
  unfold skip requireCursor at hr ⊢
  rw [hc] at hr
  rw [h.cursor, h.convention]
  obtain ⟨_, _, hcursor, hrest⟩ := of_run_bind hr
  cases hcursor
  dsimp only at hrest ⊢
  split at hrest
  next n hn =>
    obtain ⟨hsp, rfl, _⟩ := of_run_advance hrest
    refine ⟨n, ?_, rfl, hsp⟩
    rw [← h.home] at hu
    rw [run_bind, run_pure]
    exact run_advance h.fits (h.spans hsp) hu
  next => cases hrest

/-- The struct lies where the slot says, or else in the slot. -/
theorem of_run_structSource {src : Region}
    (hr : (v.structSource l c (v.slot c)).run ctx σ = .ok src ρ) :
    v.copyAt σ.memory l (v.slot c).start.toNat = some src ∨
      v.copyAt σ.memory l (v.slot c).start.toNat = none ∧ ∀ x, src.Has x → (v.slot c).Has x := by
  unfold structSource at hr
  unfold copyAt
  obtain ⟨found, _, hfound, hrest⟩ := of_run_bind hr
  obtain ⟨hclass, rfl⟩ := of_run_require hfound
  rw [hclass]
  split at hrest
  next =>
    obtain ⟨a, _, ha, hreferenced⟩ := of_run_bind hrest
    obtain ⟨rfl, rfl⟩ := (leads_referenced_at _ _ _).ok hreferenced
    obtain ⟨w, hw, _, rfl, rfl⟩ := Region.leads_getAddress.ok ha
    have hbytes : (UInt64.ofNat w.bytes).toNat = w.bytes := by cases w <;> rfl
    rw [hw, hbytes, UInt64.add_zero]
    exact Or.inl rfl
  next hn =>
    obtain ⟨ha, rfl, _⟩ := Region.leads_slice.ok hrest
    have hsp := (Store.checkAccess_eq_ok_iff.mp ha).2
    refine Or.inr ⟨?_, fun x => Region.has_narrow hsp⟩
    cases found with
    | structReference => exact absurd rfl hn
    | _ => rfl

/-- The bytes that a struct is read from are those of its slot and of the copy that the slot
refers to. -/
def LooksFor (v : VariadicList) (m : Memory) (l : Layout) (c : Cursor) (x : Nat) : Prop :=
  (v.slot c).Has x ∨ ∃ copy, v.copyAt m l (v.slot c).start.toNat = some copy ∧ copy.Has x

theorem Mirrors.run_readSegment (h : Mirrors s base v c f d) (hv : v.AtHome c σ)
    (hlaw : system.Lawful) (hs : σ.Sound system strict waiting) (hl : σ.Ledger G)
    (hw : ctx.system.Within system) (hk : w.Known σ) (hs' : τ.Sound system strict waiting')
    (hl' : τ.Ledger G') (hw' : ctx'.system.Within system) (hk' : w'.Known τ) {r : Region}
    (hr : (v.readSegment l w).run ctx σ = .ok (r, v') ρ)
    (hu : τ.checkUsable ctx'.caller s = .ok ())
    (hserved : ((w'.allocateLayout l).value? ctx' τ).isSome)
    (hin : ∀ x, v.LooksFor σ.memory l c x → τ.InUse x)
    (hm : ∀ x, v.LooksFor σ.memory l c x → τ.memory.byte x = σ.memory.byte x) :
    ∃ r' ρ', (f.readSegment l w').run ctx' τ = .ok (r', f.moved d v.convention.slotSize) ρ' ∧
      ρ'.memory.read r'.start.toNat r'.size.toNat = ρ.memory.read r.start.toNat r.size.toNat ∧
      v' = v.moved c v.convention.slotSize ∧ c.remaining.Spans 0 v.convention.slotSize := by
  obtain ⟨hcheck, hu₀, hn, hdecode, rfl⟩ := of_run_readSlot hv.cursor hr
  obtain ⟨src, σ, hsrc, hrest⟩ := of_run_bind hdecode
  obtain ⟨rfl, hscope, hsize, hinside, husrc⟩ := (hv.leads_structSource hn).ok hsrc
  obtain ⟨r₀, _, hgiven, hcopy⟩ := of_run_bind hrest
  have halive : σ.IsAlive src.scope := hscope ▸ (Store.checkUsable_eq_ok_iff.mp husrc).2
  have hfits := hinside.fits hlaw hs halive
  rw [← hscope] at husrc
  -- The list itself has copied the struct from there.
  obtain ⟨ρ₁, hrun, hread⟩ := run_readSegment_next hlaw hs hl hw hk hv.cursor hcheck
    (hv.fits hlaw hs (hscope ▸ halive)) hn hu₀ hsrc hsize husrc hfits
    (fun x hx => hs.inUse hinside halive hx) hgiven
  cases hr.symm.trans hrun
  -- And so does the adopted list.
  have hlook : ∀ x, src.Has x → v.LooksFor σ.memory l c x := fun x hx => by
    rcases of_run_structSource hsrc with hcopy | ⟨_, hslot⟩
    · exact Or.inr ⟨src, hcopy, hx⟩
    · exact Or.inl (hslot x hx)
  have hsrc' := h.run_structSource hsrc hu fun x hx => hm x (Or.inl hx)
  obtain ⟨r', ρ', hgiven', _⟩ := (leads_run (x := w'.allocateLayout l)).of_isSome hserved
  have hcheck' : Carrier.segment.check l f.convention.width = .ok () := by rwa [h.convention]
  have hn' : d.remaining.Spans 0 f.convention.slotSize := by
    rw [h.convention]
    exact h.spans hn
  have hhome : τ.checkUsable ctx'.caller d.remaining.scope = .ok () := by rwa [h.home]
  obtain ⟨ρ'', hrun', hread'⟩ := run_readSegment_next hlaw hs' hl' hw' hk' h.cursor hcheck' h.fits
    hn' hhome hsrc' hsize hu hfits (fun x hx => hin x (hlook x hx)) hgiven'
  rw [h.convention] at hrun'
  refine ⟨r', ρ'', hrun', ?_, rfl, hn⟩
  rw [hread, hread']
  refine Memory.read_congr fun x h₁ h₂ => hm x (hlook x ⟨h₁, ?_⟩)
  rwa [hsize]

end VariadicList

/-! ### Readings -/

/-- A way to read on in a list. -/
inductive Reading where
  | value (layout : Layout) (type : ArgumentType)
  | segment (layout : Layout)
  | skip (layouts : List Layout)

/-- What a reader gets to see: a number or an address, or the bytes of a struct. -/
inductive Reading.Shown where
  | value (reply : Reply)
  | bytes (contents : Bytes)
  | nothing

namespace Reading

variable {v v' f : VariadicList} {c d : Cursor} {s : ScopeId} {base : Nat} {w w' : Allocator}

/-- A struct is read into what the allocator gives. -/
def perform (v : VariadicList) (w : Allocator) : Reading → Operation (Shown × VariadicList)
  | value l type => do
    let (reply, rest) ← v.readAs l type
    return (.value reply, rest)
  | segment l => do
    let (r, rest) ← v.readSegment l w
    return (.bytes ((← get).memory.read r.start.toNat r.size.toNat), rest)
  | skip ls => return (.nothing, ← v.skip ls)

/-- The byte is one of those that decide what is read. -/
def LooksAt (v : VariadicList) (m : Memory) (c : Cursor) (x : Nat) : Reading → Prop
  | value .. => (v.slot c).Has x
  | segment l => v.LooksFor m l c x
  | skip _ => False

/-- A list that was not adopted looks only at blocks of its scope. -/
theorem block_of_looksAt {q : Reading} (hv : v.AtHome c σ) {shown : Shown}
    (hr : (q.perform v w).run ctx σ = .ok (shown, v') ρ) {x : Nat}
    (hx : q.LooksAt v σ.memory c x) : ∃ b ∈ (σ.scope v.scope).blocks, b.Has x := by
  have hslot : ∀ {α : Type} {carrier : Carrier} {l : Layout} {y : α} {rest : VariadicList}
      {decode : Cursor → Region → Operation α} {ρ : Store},
      (v.readSlot carrier l decode).run ctx σ = .ok (y, rest) ρ → (v.slot c).Has x →
        ∃ b ∈ (σ.scope v.scope).blocks, b.Has x := fun hread hx => by
    obtain ⟨_, hu, hn, _⟩ := VariadicList.of_run_readSlot hv.cursor hread
    have hin := hv.inside.narrow hn
    obtain ⟨b, hb, he⟩ := hin.2 (Store.checkUsable_eq_ok_iff.mp hu).2
    have hscope : c.remaining.scope = v.scope := hv.scope
    exact ⟨b, hscope ▸ hb, he.has hx⟩
  cases q with
  | value l type =>
    obtain ⟨⟨reply, rest⟩, _, hread, _⟩ := of_run_bind hr
    cases type with
    | int | long | double | address =>
      obtain ⟨_, _, hfirst, _⟩ := of_run_bind hread
      exact hslot hfirst hx
  | segment l =>
    obtain ⟨⟨r, rest⟩, _, hread, _⟩ := of_run_bind hr
    rcases hx with hx | ⟨copy, hcopy, hx⟩
    · exact hslot hread hx
    obtain ⟨_, _, hn, hdecode, _⟩ := VariadicList.of_run_readSlot hv.cursor hread
    obtain ⟨src, _, hsrc, _⟩ := of_run_bind hdecode
    obtain ⟨_, hscope, _, hin, hu⟩ := (hv.leads_structSource hn).ok hsrc
    rcases VariadicList.of_run_structSource hsrc with hsome | ⟨hnone, _⟩
    · cases hcopy.symm.trans hsome
      obtain ⟨b, hb, he⟩ := hin.2 (hscope ▸ (Store.checkUsable_eq_ok_iff.mp hu).2)
      exact ⟨b, hscope ▸ hb, he.has hx⟩
    · cases hcopy.symm.trans hnone
  | skip ls => exact hx.elim

/-- What a list shows, it shows by way of its address as well, and both move on alike. -/
theorem run_adopted {q : Reading} (h : VariadicList.Mirrors s base v c f d) (hv : v.AtHome c σ)
    (hlaw : system.Lawful) (hs : σ.Sound system strict waiting) (hl : σ.Ledger G)
    (hw : ctx.system.Within system) (hk : w.Known σ) (hs' : τ.Sound system strict waiting')
    (hl' : τ.Ledger G') (hw' : ctx'.system.Within system) (hk' : w'.Known τ) {x : Shown}
    (hr : (q.perform v w).run ctx σ = .ok (x, v') ρ)
    (hu : τ.checkUsable ctx'.caller s = .ok ())
    (hserved : ∀ l, q = segment l → ((w'.allocateLayout l).value? ctx' τ).isSome)
    (hin : ∀ x, q.LooksAt v σ.memory c x → τ.InUse x)
    (hm : ∀ x, q.LooksAt v σ.memory c x → τ.memory.byte x = σ.memory.byte x) :
    ∃ n ρ', (q.perform f w').run ctx' τ = .ok (x, f.moved d n) ρ' ∧ v' = v.moved c n ∧
      c.remaining.Spans 0 n := by
  cases q with
  | value l type =>
    obtain ⟨⟨reply, rest⟩, _, hread, hx⟩ := of_run_bind hr
    cases hx
    obtain ⟨hrun, hmoved⟩ := h.run_readAs hv.cursor hread hu hm
    refine ⟨_, τ, ?_, hmoved⟩
    simp only [perform, run_bind, hrun, run_pure]
  | segment l =>
    obtain ⟨⟨r, rest⟩, _, hread, hx⟩ := of_run_bind hr
    cases hx
    obtain ⟨r', ρ', hrun, hbytes, hmoved⟩ := h.run_readSegment hv hlaw hs hl hw hk hs' hl' hw' hk'
      hread hu (hserved l rfl) hin hm
    refine ⟨_, ρ', ?_, hmoved⟩
    simp only [perform, run_bind, hrun, run_get, hbytes, run_pure]
  | skip ls =>
    obtain ⟨rest, _, hread, hx⟩ := of_run_bind hr
    cases hx
    obtain ⟨n, hrun, hmoved⟩ := h.run_skip hv.cursor hread hu
    refine ⟨n, τ, ?_, hmoved⟩
    simp only [perform, run_bind, hrun, run_pure]

end Reading
end ScopedMemory
