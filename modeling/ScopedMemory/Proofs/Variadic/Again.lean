import ScopedMemory.Proofs.Arena.Blind
import ScopedMemory.Proofs.Variadic.Adopted

namespace ScopedMemory

open Operation

variable {system : SystemAllocator} {strict : Prop} {waiting waiting' : List Block}
  {G G' : List Region} {ctx ctx' : Context} {σ τ ρ : Store}

namespace VariadicList

variable {v v' : VariadicList} {c : Cursor} {l : Layout} {w w' : Allocator}

/-- What is left of the list ends before the address space does. If the list was not adopted, it
lies in a block of its scope. -/
structure Sits (v : VariadicList) (c : Cursor) (σ : Store) : Prop where
  cursor : v.cursor = some c
  scope : c.remaining.scope = v.scope
  fits : c.remaining.Fits
  started : c.start.toNat ≤ c.remaining.start.toNat
  inside : c.foreign = false → c.remaining.Inside σ

theorem Sits.atHome (h : v.Sits c σ) (hf : c.foreign = false) : v.AtHome c σ :=
  ⟨h.cursor, h.scope, hf, h.inside hf, h.started⟩

theorem Sits.later (h : v.Sits c σ) (hl : σ.Later τ) : v.Sits c τ :=
  { h with inside := fun hf => (h.inside hf).later hl }

theorem Sits.moved (h : v.Sits c σ) {n : Word} (hn : c.remaining.Spans 0 n) :
    (v.moved c n).Sits (c.moved n) σ := by
  obtain ⟨_, hsp⟩ := spans_rest h.fits hn
  have hstart : (c.moved n).remaining.start.toNat = c.remaining.start.toNat + n.toNat :=
    Region.toNat_start_narrow hsp
  refine ⟨rfl, h.scope, ?_, ?_, fun hf => (h.inside hf).narrow hsp⟩
  · have hend := hsp.2
    rw [Region.fits_iff, hstart]
    exact hend
  · rw [hstart]
    exact Nat.le_trans h.started (Nat.le_add_right _ _)

/-- A struct is looked for under the scope of the list, with the size of its layout. -/
theorem leads_structSource_shape (hscope : c.remaining.scope = v.scope) :
    (v.structSource l c (v.slot c)).Leads ctx σ
      (fun src τ => src.scope = v.scope ∧ src.size = l.size ∧ τ = σ) (· = σ) := by
  refine (leads_require (P := fun _ τ => σ = τ) (Q := (· = σ)) (fun _ _ => rfl) rfl).bind ?_
  rintro found _ rfl
  split
  next =>
    refine Region.leads_getAddress.bind fun start τ h => ?_
    obtain ⟨_, _, _, _, rfl⟩ := h
    refine (leads_referenced_at c start l.size).imp ?_ fun _ h => h
    rintro _ _ ⟨rfl, rfl⟩
    exact ⟨rfl, rfl, rfl⟩
  next =>
    refine Region.leads_slice.imp ?_ fun _ h => h
    rintro _ _ ⟨_, rfl, rfl⟩
    exact ⟨hscope, rfl, rfl⟩

/-- The struct is looked for at the same place again. -/
theorem Sits.run_structSource (h : v.Sits c σ) (hsep : system.Separate)
    (hs : τ.Sound system strict waiting) {src : Region}
    (hr : (v.structSource l c (v.slot c)).run ctx σ = .ok src ρ)
    (hu : τ.checkUsable ctx'.caller v.scope = .ok ())
    (hm : ∀ x, (v.slot c).Has x → τ.memory.byte x = σ.memory.byte x)
    (hin : c.foreign = false → src.Inside τ) :
    (v.structSource l c (v.slot c)).run ctx' τ = .ok src τ := by
  have hslot : τ.checkUsable ctx'.caller (v.slot c).scope = .ok () := by
    have hscope : (v.slot c).scope = v.scope := h.scope
    rwa [hscope]
  unfold structSource at hr ⊢
  obtain ⟨found, _, hfound, hrest⟩ := of_run_bind hr
  obtain ⟨hclass, rfl⟩ := of_run_require hfound
  rw [run_bind, hclass, run_require_ok]
  dsimp only
  split at hrest
  next =>
    obtain ⟨a, _, ha, hreferenced⟩ := of_run_bind hrest
    obtain ⟨rfl, rfl⟩ := (leads_referenced_at _ _ _).ok hreferenced
    have hget := Region.run_getAddress_under ha hslot hm
    have hself : (v.slot c).under (v.slot c).scope = v.slot c := rfl
    rw [hself] at hget
    rw [run_bind, hget]
    cases hf : c.foreign with
    | true => exact run_referenced_foreign hf hu a l.size
    | false =>
      have howns := (hin hf).owns hsep hs (Store.checkUsable_eq_ok_iff.mp hu).2
      unfold referenced ScopeId.resolve
      simp only [run_bind, run_checkUsable, hu, run_require_ok, run_get, if_pos howns, run_pure]
  next =>
    obtain ⟨ha, rfl, _⟩ := Region.leads_slice.ok hrest
    have ha' : τ.checkAccess ctx'.caller (v.slot c) 0 l.size = .ok () :=
      Store.checkAccess_eq_ok_iff.mpr ⟨hslot, (Store.checkAccess_eq_ok_iff.mp ha).2⟩
    rw [Region.run_slice, ha']

theorem Sits.run_readSlot (h : v.Sits c σ) {α : Type} {carrier : Carrier}
    {decode decode' : Cursor → Region → Operation α} {x x' : α} {τ' : Store}
    (hr : (v.readSlot carrier l decode).run ctx σ = .ok (x, v') ρ)
    (hu : τ.checkUsable ctx'.caller v.scope = .ok ())
    (hu' : τ'.checkUsable ctx'.caller v.scope = .ok ())
    (hd : (decode c (v.slot c)).run ctx σ = .ok x ρ →
      (decode' c (v.slot c)).run ctx' τ = .ok x' τ') :
    (v.readSlot carrier l decode').run ctx' τ = .ok (x', v') τ' := by
  obtain ⟨hcheck, _, hn, hdecode, rfl⟩ := of_run_readSlot h.cursor hr
  rw [← h.scope] at hu hu'
  exact run_readSlot_next h.cursor hcheck h.fits hn hu hu' (hd hdecode)

/-- Numbers and addresses are read again as they were. -/
theorem Sits.run_readAs (h : v.Sits c σ) {type : ArgumentType} {reply : Reply}
    (hr : (v.readAs l type).run ctx σ = .ok (reply, v') ρ)
    (hu : τ.checkUsable ctx'.caller v.scope = .ok ())
    (hm : ∀ x, (v.slot c).Has x → τ.memory.byte x = σ.memory.byte x) :
    (v.readAs l type).run ctx' τ = .ok (reply, v') τ := by
  have hself : (v.slot c).under v.scope = v.slot c := by
    rw [← h.scope]
    rfl
  have hscalar : ∀ (t : ScalarType) (x : Scalar) (ρ : Store),
      (v.readScalar t l).run ctx σ = .ok (x, v') ρ →
        (v.readScalar t l).run ctx' τ = .ok (x, v') τ ∧ True := fun t x ρ hx =>
    ⟨h.run_readSlot hx hu hu fun hd => hself ▸ Region.run_get_under hd hu hm, trivial⟩
  have haddress : ∀ (a : Word) (ρ : Store),
      (v.readAddress l).run ctx σ = .ok (a, v') ρ →
        (v.readAddress l).run ctx' τ = .ok (a, v') τ ∧ True := fun a ρ hx =>
    ⟨h.run_readSlot hx hu hu fun hd => hself ▸ Region.run_getAddress_under hd hu hm, trivial⟩
  cases type with
  | int => exact (run_reply hr fun x => hscalar .i32 x ρ).1
  | long => exact (run_reply hr fun x => hscalar .i64 x ρ).1
  | double => exact (run_reply hr fun x => hscalar .f64 x ρ).1
  | address => exact (run_reply hr fun a => haddress a ρ).1

/-- A struct is copied again as it was, to wherever there is room for it. -/
theorem Sits.run_readSegment (h : v.Sits c σ) (hlaw : system.Lawful)
    (hs : σ.Sound system strict waiting) (hw : ctx.system.Within system) (hk : w.Known σ)
    (hs' : τ.Sound system strict waiting') (hl' : τ.Ledger G') (hw' : ctx'.system.Within system)
    (hk' : w'.Known τ) {r : Region} (hr : (v.readSegment l w).run ctx σ = .ok (r, v') ρ)
    (hu : τ.checkUsable ctx'.caller v.scope = .ok ())
    (hm : ∀ x, (v.slot c).Has x → τ.memory.byte x = σ.memory.byte x)
    (hin : ∀ src, (v.structSource l c (v.slot c)).run ctx σ = .ok src σ → c.foreign = false →
      src.Inside τ)
    (hroom : ∀ r₀ ρ₀, (w.allocateLayout l).run ctx σ = .ok r₀ ρ₀ →
      ∃ r' τ', (w'.allocateLayout l).run ctx' τ = .ok r' τ' ∧
        ∀ x, v.LooksFor σ.memory l c x → τ'.memory.byte x = ρ₀.memory.byte x) :
    ∃ r' ρ', (v.readSegment l w').run ctx' τ = .ok (r', v') ρ' ∧
      ρ'.memory.read r'.start.toNat r'.size.toNat = ρ.memory.read r.start.toNat r.size.toNat := by
  obtain ⟨_, _, _, hdecode, _⟩ := of_run_readSlot h.cursor hr
  obtain ⟨src, σ₀, hsrc, hrest⟩ := of_run_bind hdecode
  obtain ⟨hscope, hsize, rfl⟩ := (leads_structSource_shape h.scope).ok hsrc
  obtain ⟨r₀, ρ₀, hgiven, hcopied⟩ := of_run_bind hrest
  obtain ⟨_, ρ₁, hcopy, hdone⟩ := of_run_bind hcopied
  cases hdone
  obtain ⟨hfrom, _, hρ⟩ := Region.leads_copyFrom.ok hcopy
  obtain ⟨r', τ', hgiven', hspared⟩ := hroom r ρ₀ hgiven
  have hg := (Allocator.leads_allocate hs hw hk l.size l.align).ok hgiven
  have hg' := (Allocator.leads_allocate hs' hw' hk' l.size l.align).ok hgiven'
  have hlt : v.scope < τ.scopes.length :=
    Store.lt_length_of_isAlive (Store.checkUsable_eq_ok_iff.mp hu).2
  have hu' : τ'.checkUsable ctx'.caller v.scope = .ok () :=
    (hg'.changes.extends.checkUsable hlt _).trans hu
  have hsrc' := h.run_structSource hlaw.separate hs' hsrc hu hm (hin src hsrc)
  have hfrom' : τ'.checkAccess ctx'.caller src 0 src.size = .ok () :=
    Store.checkAccess_eq_ok_iff.mpr ⟨hscope ▸ hu', (Store.checkAccess_eq_ok_iff.mp hfrom).2⟩
  have hto' : τ'.checkAccess ctx'.caller r' 0 src.size = .ok () := by
    refine Store.checkAccess_eq_ok_iff.mpr ⟨hg'.usable, ?_⟩
    rw [hsize]
    exact hg'.spans hlaw hs' hl'
  have hread : τ'.memory.read src.start.toNat src.size.toNat =
      ρ₀.memory.read src.start.toNat src.size.toNat := by
    refine Memory.read_congr fun x h₁ h₂ => hspared x ?_
    rcases of_run_structSource hsrc with hcopyAt | ⟨_, hslot⟩
    · exact Or.inr ⟨src, hcopyAt, h₁, h₂⟩
    · exact Or.inl (hslot x ⟨h₁, h₂⟩)
  refine ⟨r', τ'.setMemory (τ'.memory.write r'.start.toNat
    (τ'.memory.read src.start.toNat src.size.toNat)), ?_, ?_⟩
  · refine h.run_readSlot hr hu hu' fun _ => ?_
    simp only [run_bind, hsrc', hgiven', Region.run_copyFrom, hfrom', hto', run_pure]
  · -- Both regions are as long as what was copied to them.
    have hcontents : ∀ (m : Memory) (r : Region), r.size = l.size →
        (m.write r.start.toNat (ρ₀.memory.read src.start.toNat src.size.toNat)).read
          r.start.toNat r.size.toNat = ρ₀.memory.read src.start.toNat src.size.toNat := by
      intro m r hr
      rw [hsize, hr]
      exact Memory.read_write_read _ _ _ _ _
    have hleft := hcontents τ'.memory r' hg'.size
    have hright := hcontents ρ₀.memory r hg.size
    rw [← hread] at hleft
    rw [hρ]
    exact (hleft.trans hread).trans hright.symm

/-! ### Skipping -/

theorem after_of_mul (hc : v.cursor = some c) {k : Nat} {n : Word}
    (hn : Word.mul? v.convention.slotSize (.ofNat k) = some n) : v.after k = v.moved c n := by
  have hprod : UInt64.ofNat k * v.convention.slotSize = n := by
    rw [Word.mul?_eq_some_iff] at hn
    have hlt := n.toNat_lt
    rw [← UInt64.toNat_inj, UInt64.toNat_mul, Nat.mul_comm, ← hn, Nat.mod_eq_of_lt hlt]
  unfold after
  rw [hc, hprod]
  rfl

/-- A list that was skipped had a slot for each layout. -/
theorem of_run_skip (hc : v.cursor = some c) {ls : List Layout}
    (hr : (v.skip ls).run ctx σ = .ok v' ρ) :
    ∃ n, Word.mul? v.convention.slotSize (.ofNat ls.length) = some n ∧ c.remaining.Spans 0 n ∧
      σ.checkUsable ctx.caller c.remaining.scope = .ok () ∧ v' = v.moved c n ∧ ρ = σ := by
  unfold skip requireCursor at hr
  rw [hc] at hr
  obtain ⟨_, _, hcursor, hrest⟩ := of_run_bind hr
  cases hcursor
  dsimp only at hrest
  split at hrest
  next n hn =>
    obtain ⟨hsp, rfl, rfl⟩ := of_run_advance hrest
    obtain ⟨r, _, hslice, _⟩ := of_run_bind hrest
    obtain ⟨_, _, ha, _, _⟩ := Region.leads_sliceFrom.ok hslice
    exact ⟨n, hn, hsp, (Store.checkAccess_eq_ok_iff.mp ha).1, rfl, rfl⟩
  next => cases hrest

/-- Nothing else is asked of the list. -/
theorem Sits.run_skip (h : v.Sits c σ) {ls : List Layout} {n : Word}
    (hn : Word.mul? v.convention.slotSize (.ofNat ls.length) = some n)
    (hsp : c.remaining.Spans 0 n) (hu : τ.checkUsable ctx.caller v.scope = .ok ()) :
    (v.skip ls).run ctx τ = .ok (v.moved c n) τ := by
  rw [← h.scope] at hu
  unfold skip requireCursor
  rw [h.cursor, run_bind, run_pure]
  dsimp only
  rw [hn]
  exact run_advance h.fits hsp hu

end VariadicList

namespace Reading

variable {v v' : VariadicList} {c : Cursor} {w w' : Allocator} {q : Reading}

def slots : Reading → Nat
  | value .. | segment _ => 1
  | skip ls => ls.length

theorem run_value {l : Layout} {type : ArgumentType} {reply : Reply}
    (h : (v.readAs l type).run ctx σ = .ok (reply, v') ρ) :
    ((value l type).perform v w).run ctx σ = .ok (.value reply, v') ρ := by
  simp only [perform, run_bind, h, run_pure]

theorem run_segment {l : Layout} {r : Region}
    (h : (v.readSegment l w).run ctx σ = .ok (r, v') ρ) :
    ((segment l).perform v w).run ctx σ =
      .ok (.bytes (ρ.memory.read r.start.toNat r.size.toNat), v') ρ := by
  simp only [perform, run_bind, h, run_get, run_pure]

theorem run_skip {ls : List Layout} (h : (v.skip ls).run ctx σ = .ok v' ρ) :
    ((skip ls).perform v w).run ctx σ = .ok (.nothing, v') ρ := by
  simp only [perform, run_bind, h, run_pure]

/-- Nothing can be read of an empty list. -/
theorem cursor_of_run {x : Shown} (hr : (q.perform v w).run ctx σ = .ok (x, v') ρ) :
    ∃ c, v.cursor = some c := by
  have hcursor : ∀ {c : Cursor} {τ : Store}, v.requireCursor.run ctx σ = .ok c τ →
      ∃ c, v.cursor = some c := fun h => by
    unfold VariadicList.requireCursor at h
    split at h
    next c hc => exact ⟨c, hc⟩
    next => cases h
  cases q with
  | value l type =>
    obtain ⟨_, _, hread, _⟩ := of_run_bind hr
    cases type with
    | int | long | double | address =>
      obtain ⟨_, _, hfirst, _⟩ := of_run_bind hread
      obtain ⟨_, _, hc, _⟩ := of_run_bind hfirst
      exact hcursor hc
  | segment l | skip ls =>
    obtain ⟨_, _, hread, _⟩ := of_run_bind hr
    obtain ⟨_, _, hc, _⟩ := of_run_bind hread
    exact hcursor hc

/-- A reading that succeeds moves over its slots. -/
theorem of_run (hc : v.cursor = some c) {x : Shown}
    (hr : (q.perform v w).run ctx σ = .ok (x, v') ρ) :
    ∃ n, Word.mul? v.convention.slotSize (.ofNat q.slots) = some n ∧ c.remaining.Spans 0 n ∧
      σ.checkUsable ctx.caller c.remaining.scope = .ok () ∧ v' = v.moved c n := by
  have hone : Word.mul? v.convention.slotSize (.ofNat 1) = some v.convention.slotSize :=
    Word.mul?_eq_some_iff.mpr (Nat.mul_one _).symm
  cases q with
  | value l type =>
    obtain ⟨⟨reply, rest⟩, _, hread, hx⟩ := of_run_bind hr
    cases hx
    cases type with
    | int | long | double | address =>
      obtain ⟨_, _, hfirst, hrest⟩ := of_run_bind hread
      cases hrest
      obtain ⟨_, hu, hn, _, hmoved⟩ := VariadicList.of_run_readSlot hc hfirst
      exact ⟨_, hone, hn, hu, hmoved⟩
  | segment l =>
    obtain ⟨⟨r, rest⟩, _, hread, hx⟩ := of_run_bind hr
    cases hx
    obtain ⟨_, hu, hn, _, rfl⟩ := VariadicList.of_run_readSlot hc hread
    exact ⟨_, hone, hn, hu, rfl⟩
  | skip ls =>
    obtain ⟨rest, _, hread, hx⟩ := of_run_bind hr
    cases hx
    obtain ⟨n, hn, hsp, hu, rfl, _⟩ := VariadicList.of_run_skip hc hread
    exact ⟨n, hn, hsp, hu, rfl⟩

/-- The reading can be made at `τ` as it was at `σ`: what it looks at is there, with the same bytes,
and there is room for a struct that takes none of them. -/
structure Again (q : Reading) (v : VariadicList) (w : Allocator) (ctx : Context) (σ : Store)
    (w' : Allocator) (ctx' : Context) (τ : Store) : Prop where
  usable : τ.checkUsable ctx'.caller v.scope = .ok ()
  same : ∀ c x, v.cursor = some c → q.LooksAt v σ.memory c x →
    τ.memory.byte x = σ.memory.byte x
  there : ∀ l c src, q = segment l → v.cursor = some c → c.foreign = false →
    (v.structSource l c (v.slot c)).run ctx σ = .ok src σ → src.Inside τ
  room : ∀ l r ρ, q = segment l → (w.allocateLayout l).run ctx σ = .ok r ρ →
    ∃ r' ρ', (w'.allocateLayout l).run ctx' τ = .ok r' ρ' ∧
      ∀ c x, v.cursor = some c → q.LooksAt v σ.memory c x → ρ'.memory.byte x = ρ.memory.byte x

/-- What was read at one time is read at another, and the same list is left. -/
theorem run_again (h : v.Sits c σ) (hlaw : system.Lawful) (hs : σ.Sound system strict waiting)
    (hw : ctx.system.Within system) (hk : w.Known σ) (hs' : τ.Sound system strict waiting')
    (hl' : τ.Ledger G') (hw' : ctx'.system.Within system) (hk' : w'.Known τ) {x : Shown}
    (hr : (q.perform v w).run ctx σ = .ok (x, v') ρ) (ha : q.Again v w ctx σ w' ctx' τ) :
    ∃ ρ', (q.perform v w').run ctx' τ = .ok (x, v') ρ' := by
  cases q with
  | value l type =>
    obtain ⟨⟨reply, rest⟩, _, hread, hx⟩ := of_run_bind hr
    cases hx
    exact ⟨τ, run_value (h.run_readAs hread ha.usable fun x hx => ha.same c x h.cursor hx)⟩
  | segment l =>
    obtain ⟨⟨r, rest⟩, _, hread, hx⟩ := of_run_bind hr
    cases hx
    obtain ⟨r', ρ', hrun, hbytes⟩ := h.run_readSegment hlaw hs hw hk hs' hl' hw' hk' hread
      ha.usable (fun x hx => ha.same c x h.cursor (Or.inl hx))
      (fun src hsrc hf => ha.there l c src rfl h.cursor hf hsrc) fun r₀ ρ₀ hgiven => by
        obtain ⟨r', τ', hgiven', hspared⟩ := ha.room l r₀ ρ₀ rfl hgiven
        exact ⟨r', τ', hgiven', fun x hx => hspared c x h.cursor hx⟩
    exact ⟨ρ', hbytes ▸ run_segment hrun⟩
  | skip ls =>
    obtain ⟨rest, _, hread, hx⟩ := of_run_bind hr
    cases hx
    obtain ⟨n, hn, hsp, _, rfl, _⟩ := VariadicList.of_run_skip h.cursor hread
    exact ⟨τ, run_skip (h.run_skip hn hsp ha.usable)⟩

/-- A struct of a list that was not adopted is taken from a block of the list's scope. -/
theorem inside_of_run {l : Layout} (h : v.Sits c σ) (hf : c.foreign = false) {x : Shown}
    (hr : ((segment l).perform v w).run ctx σ = .ok (x, v') ρ) {src : Region}
    (hsrc : (v.structSource l c (v.slot c)).run ctx σ = .ok src σ) : src.Inside σ := by
  obtain ⟨_, _, hread, _⟩ := of_run_bind hr
  obtain ⟨_, _, hn, _⟩ := VariadicList.of_run_readSlot h.cursor hread
  exact ((h.atHome hf).leads_structSource hn |>.ok hsrc).2.2.2.1

/-- What the list looks at in `σ` is in `τ` as `ρ` left it. The reader may use the scope of the list,
and there is room for a struct. What was adopted looks at memory in use only. -/
structure Undisturbed (q : Reading) (v : VariadicList) (σ ρ τ : Store) (ctx : Context)
    (w : Allocator) : Prop where
  usable : τ.checkUsable ctx.caller v.scope = .ok ()
  same : ∀ c x, v.cursor = some c → q.LooksAt v σ.memory c x →
    τ.memory.byte x = ρ.memory.byte x
  held : ∀ c x, v.cursor = some c → c.foreign = true → q.LooksAt v σ.memory c x →
    σ.InUse x ∧ τ.InUse x
  room : ∀ l, q = segment l → ((w.allocateLayout l).value? ctx τ).isSome

/-- A list that was not adopted looks at memory in use, also later on. -/
theorem inUse_of_looksAt (h : v.Sits c σ) (h' : v.Sits c τ) (hf : c.foreign = false)
    (hs' : τ.Sound system strict waiting') {x : Shown}
    (hr : (q.perform v w).run ctx σ = .ok (x, v') ρ)
    (hu : τ.checkUsable ctx'.caller v.scope = .ok ())
    (hin : ∀ l src, q = segment l → (v.structSource l c (v.slot c)).run ctx σ = .ok src σ →
      src.Inside τ) {y : Nat} (hy : q.LooksAt v σ.memory c y) : τ.InUse y := by
  have halive := (Store.checkUsable_eq_ok_iff.mp hu).2
  have hslot : c.remaining.Spans 0 v.convention.slotSize → (v.slot c).Has y → τ.InUse y :=
    fun hn hy => hs'.inUse ((h'.inside hf).narrow hn) (h.scope.symm ▸ halive) hy
  cases q with
  | value l type =>
    obtain ⟨_, _, hread, _⟩ := of_run_bind hr
    cases type with
    | int | long | double | address =>
      obtain ⟨_, _, hfirst, _⟩ := of_run_bind hread
      exact hslot (VariadicList.of_run_readSlot h.cursor hfirst).2.2.1 hy
  | segment l =>
    obtain ⟨_, _, hread, _⟩ := of_run_bind hr
    obtain ⟨_, _, hn, hdecode, _⟩ := VariadicList.of_run_readSlot h.cursor hread
    rcases hy with hy | ⟨copy, hcopy, hy⟩
    · exact hslot hn hy
    obtain ⟨src, _, hsrc, _⟩ := of_run_bind hdecode
    obtain ⟨hscope, _, rfl⟩ := (VariadicList.leads_structSource_shape h.scope).ok hsrc
    rcases VariadicList.of_run_structSource hsrc with hsome | ⟨hnone, _⟩
    · cases hcopy.symm.trans hsome
      exact hs'.inUse (hin l _ rfl hsrc) (hscope.symm ▸ halive) hy
    · cases hcopy.symm.trans hnone
  | skip ls => exact hy.elim

/-- Nothing that is in use is taken for a struct. -/
theorem Undisturbed.again (hq : q.Undisturbed v σ ρ τ ctx' w') (h : v.Sits c σ) (h' : v.Sits c τ)
    (hlaw : system.Lawful) (hs : σ.Sound system strict waiting) (hw : ctx.system.Within system)
    (hk : w.Known σ) (hs' : τ.Sound system strict waiting') (hw' : ctx'.system.Within system)
    (hk' : w'.Known τ) {x : Shown} {ρ₀ : Store}
    (hr : (q.perform v w).run ctx σ = .ok (x, v') ρ₀)
    (hbytes : ∀ x, σ.InUse x → ρ.memory.byte x = σ.memory.byte x)
    (hin : c.foreign = false → ∀ l src, q = segment l →
      (v.structSource l c (v.slot c)).run ctx σ = .ok src σ → src.Inside τ) :
    q.Again v w ctx σ w' ctx' τ := by
  have hlook : ∀ y, q.LooksAt v σ.memory c y → σ.InUse y ∧ τ.InUse y := fun y hy => by
    cases hf : c.foreign with
    | true => exact hq.held c y h.cursor hf hy
    | false =>
      obtain ⟨b, hb, hby⟩ := block_of_looksAt (h.atHome hf) hr hy
      exact ⟨⟨b, hs.mem_unfreed hb, hby⟩,
        inUse_of_looksAt h h' hf hs' hr hq.usable (hin hf) hy⟩
  have hsame : ∀ d y, v.cursor = some d → q.LooksAt v σ.memory d y →
      τ.memory.byte y = σ.memory.byte y := fun d y hd hy => by
    obtain rfl := Option.some.inj (h.cursor.symm.trans hd)
    exact (hq.same c y hd hy).trans (hbytes y (hlook y hy).1)
  refine ⟨hq.usable, hsame, fun l d src hl hd hf hsrc => ?_, fun l r ρ₁ hl hgiven => ?_⟩
  · obtain rfl := Option.some.inj (h.cursor.symm.trans hd)
    exact hin hf l src hl hsrc
  · obtain ⟨r', hvalue⟩ := Option.isSome_iff_exists.mp (hq.room l hl)
    obtain ⟨τ', hrun⟩ := run_of_value? hvalue
    have hg := (Allocator.leads_allocate hs hw hk l.size l.align).ok hgiven
    have hg' := (Allocator.leads_allocate hs' hw' hk' l.size l.align).ok hrun
    refine ⟨r', τ', hrun, fun d y hd hy => ?_⟩
    obtain rfl := Option.some.inj (h.cursor.symm.trans hd)
    rw [hg'.changes.byte hlaw.separate hs' (hlook y hy).2,
      hg.changes.byte hlaw.separate hs (hlook y hy).1]
    exact hsame c y hd hy

/-- A reading looks at no byte but those of the slot and of the struct that the slot refers to. -/
theorem run_setMemory (h : v.Sits c σ) (hlaw : system.Lawful) (hs : σ.Sound system strict waiting)
    (hl : σ.Ledger G) (hw : ctx.system.Within system) (hk : w.Known σ) {x : Shown}
    (hr : (q.perform v w).run ctx σ = .ok (x, v') ρ) {m : Memory}
    (hm : ∀ x, q.LooksAt v σ.memory c x → m.byte x = σ.memory.byte x) :
    ∃ ρ', (q.perform v w).run ctx (σ.setMemory m) = .ok (x, v') ρ' := by
  have hsame : ∀ d x, v.cursor = some d → q.LooksAt v σ.memory d x →
      m.byte x = σ.memory.byte x := fun d x hd hx => by
    obtain rfl := Option.some.inj (h.cursor.symm.trans hd)
    exact hm x hx
  obtain ⟨_, _, _, hu, _⟩ := of_run h.cursor hr
  rw [h.scope] at hu
  refine run_again h hlaw hs hw hk (hs.setMemory m) (hl.setMemory m) hw hk hr
    ⟨hu, hsame, fun l d src hq hd hf hsrc => ?_, fun l r ρ₀ hq hgiven => ?_⟩
  · obtain rfl := Option.some.inj (h.cursor.symm.trans hd)
    subst hq
    exact (inside_of_run h hf hr hsrc).later (Store.extends_setMemory σ m).toLater
  · obtain ⟨m', hrun, hm'⟩ := w.blind_allocate l.size l.align m r ρ₀ hgiven
    exact ⟨r, _, hrun, fun d x hd hx => hm' x (hsame d x hd hx)⟩

end Reading

end ScopedMemory
