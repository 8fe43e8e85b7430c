import ScopedMemory.Proofs.Variadic.Reading

namespace ScopedMemory

open Operation

variable {system : SystemAllocator} {strict : Prop} {waiting : List Block} {G rs : List Region}
  {ctx : Context} {σ τ ρ : Store}

/-- The whole region can be read. -/
abbrev Region.Fits (r : Region) : Prop := r.Spans 0 r.size

theorem Region.fits_iff {r : Region} :
    r.Fits ↔ r.start.toNat + r.size.toNat < 0x10000000000000000 := by
  unfold Fits Spans
  rw [UInt64.toNat_zero]
  omega

theorem Region.Inside.fits {r : Region} (h : r.Inside σ) (hlaw : system.Lawful)
    (hs : σ.Sound system strict waiting) (ha : σ.IsAlive r.scope) : r.Fits :=
  fits_iff.mpr (h.finish_lt hlaw hs ha)

/-- What was in use when a region was asked for can be copied to it as it was, and nothing fails
any more. -/
theorem Allocator.run_copyFrom (hlaw : system.Lawful) (hs : σ.Sound system strict waiting)
    (hl : σ.Ledger G) {w : Allocator} {src r : Region} {align : Word}
    (hg : w.Gives system ctx σ src.size align r ρ)
    (hu : σ.checkUsable ctx.caller src.scope = .ok ()) (hf : src.Fits)
    (hin : ∀ x, src.Has x → σ.InUse x) :
    (r.copyFrom src).run ctx ρ = .ok ⟨⟩ (ρ.setMemory (ρ.memory.write r.start.toNat
      (σ.memory.read src.start.toNat src.size.toNat))) := by
  have hlt : src.scope < σ.scopes.length :=
    Store.lt_length_of_isAlive (Store.checkUsable_eq_ok_iff.mp hu).2
  have hfrom : ρ.checkAccess ctx.caller src 0 src.size = .ok () :=
    Store.checkAccess_eq_ok_iff.mpr ⟨by rwa [hg.changes.extends.checkUsable hlt], hf⟩
  have hto : ρ.checkAccess ctx.caller r 0 src.size = .ok () :=
    Store.checkAccess_eq_ok_iff.mpr ⟨hg.usable, hg.spans hlaw hs hl⟩
  have hsame : ρ.memory.read src.start.toNat src.size.toNat =
      σ.memory.read src.start.toNat src.size.toNat :=
    Memory.read_congr fun x h₁ h₂ => hg.changes.byte hlaw.separate hs (hin x ⟨h₁, h₂⟩)
  simp only [Region.run_copyFrom, hfrom, hto, hsame]

def Cursor.moved (c : Cursor) (n : Word) : Cursor :=
  { c with remaining := c.remaining.narrow n (c.remaining.size - n) }

namespace VariadicList

variable {v : VariadicList} {c : Cursor} {l : Layout} {w : Allocator}

/-- The list was not adopted, so what is left of it lies in a block of its scope. -/
structure AtHome (v : VariadicList) (c : Cursor) (σ : Store) : Prop where
  cursor : v.cursor = some c
  scope : c.remaining.scope = v.scope
  own : c.foreign = false
  inside : c.remaining.Inside σ
  started : c.start.toNat ≤ c.remaining.start.toNat

theorem AtHome.later (h : v.AtHome c σ) (hl : σ.Later τ) : v.AtHome c τ :=
  { h with inside := h.inside.later hl }

theorem AtHome.setMemory (h : v.AtHome c σ) (m : Memory) : v.AtHome c (σ.setMemory m) :=
  h.later (Store.extends_setMemory σ m).toLater

theorem AtHome.advanced (h : v.AtHome c σ) {v' : VariadicList} (ha : v.Advanced v') :
    ∃ c', v'.AtHome c' σ := by
  obtain ⟨d, offset, length, hd, hsp, rfl⟩ := ha
  obtain rfl := Option.some.inj (h.cursor.symm.trans hd)
  refine ⟨_, rfl, h.scope, h.own, h.inside.narrow hsp, ?_⟩
  rw [Region.toNat_start_narrow hsp]
  exact Nat.le_trans h.started (Nat.le_add_right _ _)

theorem AtHome.fits (h : v.AtHome c σ) (hlaw : system.Lawful) (hs : σ.Sound system strict waiting)
    (ha : σ.IsAlive v.scope) : c.remaining.Fits :=
  h.inside.fits hlaw hs (h.scope ▸ ha)

def slot (v : VariadicList) (c : Cursor) : Region := c.remaining.narrow 0 v.convention.slotSize

theorem spans_rest {r : Region} {n : Word} (hf : r.Fits) (hn : r.Spans 0 n) :
    Word.sub? r.size n = some (r.size - n) ∧ r.Spans n (r.size - n) := by
  have hend := Region.fits_iff.mp hf
  have hle := hn.1
  rw [UInt64.toNat_zero, Nat.zero_add] at hle
  have hsub : (r.size - n).toNat = r.size.toNat - n.toNat :=
    UInt64.toNat_sub_of_le _ _ (UInt64.le_iff_toNat_le.mpr hle)
  refine ⟨if_pos hle, ?_, ?_⟩ <;> omega

/-- The list with so many bytes less to read. -/
def moved (v : VariadicList) (c : Cursor) (n : Word) : VariadicList :=
  { v with cursor := some (c.moved n) }

theorem after_one (hc : v.cursor = some c) : v.after 1 = v.moved c v.convention.slotSize := by
  have hone : UInt64.ofNat 1 * v.convention.slotSize = v.convention.slotSize :=
    UInt64.one_mul _
  unfold after
  rw [hc, hone]
  rfl

/-- Moving over bytes that are there does not fail. -/
theorem run_advance {n : Word} (hf : c.remaining.Fits) (hn : c.remaining.Spans 0 n)
    (hu : σ.checkUsable ctx.caller c.remaining.scope = .ok ()) :
    (v.advance c n).run ctx σ = .ok (v.moved c n) σ := by
  obtain ⟨hsub, hsp⟩ := spans_rest hf hn
  have ha := Store.checkAccess_eq_ok_iff.mpr ⟨hu, hsp⟩
  simp only [advance, run_bind, Region.run_sliceFrom, hsub, Region.run_slice, ha, run_pure, moved,
    Cursor.moved]

/-- Once the next slot has been decoded the reading succeeds. -/
theorem leads_readSlot_next {α : Type} {carrier : Carrier} {decode : Cursor → Region → Operation α}
    {P : α → Store → Prop} {Q : Store → Prop} (hc : v.cursor = some c)
    (hf : σ.checkUsable ctx.caller c.remaining.scope = .ok () → c.remaining.Fits) (hQ : Q σ)
    (hd : σ.checkUsable ctx.caller c.remaining.scope = .ok () →
      c.remaining.Spans 0 v.convention.slotSize → (decode c (v.slot c)).Leads ctx σ
        (fun x τ => τ.checkUsable ctx.caller c.remaining.scope = .ok () ∧ P x τ) Q) :
    (v.readSlot carrier l decode).Leads ctx σ (fun p τ => P p.1 τ ∧ p.2 = v.after 1) Q := by
  unfold readSlot requireCursor
  rw [hc]
  refine (leads_pure (P := fun c' τ => c = c' ∧ σ = τ) ⟨rfl, rfl⟩).bind ?_
  rintro _ _ ⟨rfl, rfl⟩
  refine (leads_require (P := fun _ τ => σ = τ) (fun _ _ => rfl) hQ).bind ?_
  rintro _ _ rfl
  refine Region.leads_slice.chain (fun _ h => h ▸ hQ) ?_
  rintro _ σ ⟨ha, rfl, rfl⟩
  obtain ⟨hu, hn⟩ := Store.checkAccess_eq_ok_iff.mp ha
  refine (hd hu hn).bind fun x τ h => ?_
  have hadvance : (v.advance c v.convention.slotSize).Leads ctx τ
      (fun v' ρ => v' = v.after 1 ∧ ρ = τ) Q := by
    unfold Leads
    rw [run_advance (hf hu) hn h.1, after_one hc]
    exact ⟨rfl, rfl⟩
  refine hadvance.bind ?_
  rintro _ _ ⟨rfl, rfl⟩
  exact leads_pure ⟨h.2, rfl⟩

/-- The struct of a list that was not adopted lies in a block of its scope. -/
theorem AtHome.leads_structSource (h : v.AtHome c σ)
    (hn : c.remaining.Spans 0 v.convention.slotSize) :
    (v.structSource l c (v.slot c)).Leads ctx σ
      (fun src τ => τ = σ ∧ src.scope = v.scope ∧ src.size = l.size ∧ src.Inside σ ∧
        σ.checkUsable ctx.caller v.scope = .ok ())
      (· = σ) := by
  have hslot : (v.slot c).Inside σ := h.inside.narrow hn
  refine (leads_require (P := fun _ τ => σ = τ) (Q := (· = σ)) (fun _ _ => rfl) rfl).bind ?_
  rintro found _ rfl
  split
  next =>
    refine Region.leads_getAddress.bind fun start σ hσ => ?_
    obtain ⟨_, _, _, _, rfl⟩ := hσ
    refine (leads_resolve _ _ _).bind ?_
    rintro r? σ ⟨rfl, hr⟩
    split
    next r =>
      obtain ⟨hu, rfl, howns⟩ := hr r rfl
      exact leads_pure ⟨rfl, rfl, rfl, howns.inside (Store.checkUsable_eq_ok_iff.mp hu).2, hu⟩
    next =>
      rw [h.own]
      exact leads_throw rfl
  next =>
    refine Region.leads_slice.imp ?_ fun _ hτ => hτ
    rintro _ σ ⟨ha, rfl, rfl⟩
    obtain ⟨hu, hsp⟩ := Store.checkAccess_eq_ok_iff.mp ha
    have hscope : (v.slot c).scope = v.scope := h.scope
    exact ⟨rfl, hscope, rfl, hslot.narrow hsp, hscope ▸ hu⟩

/-- A struct has been read: the allocator gave a region for it, which holds what a range of its
size in one block of the list's scope held before, and the list has moved over one slot. -/
structure Copies (v : VariadicList) (l : Layout) (w : Allocator) (ctx : Context) (σ : Store)
    (r : Region) (rest : VariadicList) (τ : Store) : Prop where
  given : ∃ ρ, (w.allocateLayout l).run ctx σ = .ok r ρ
  size : r.size = l.size
  contents : ∃ b ∈ (σ.scope v.scope).blocks, ∃ start, b.Encloses ⟨start, l.size, v.scope⟩ ∧
    τ.memory.read r.start.toNat l.size.toNat = σ.memory.read start.toNat l.size.toNat
  moved : rest = v.after 1
  position : rest.position.toNat = v.position.toNat + v.convention.slotSize.toNat

theorem AtHome.position_after_one (h : v.AtHome c σ)
    (hn : c.remaining.Spans 0 v.convention.slotSize) :
    (v.after 1).position.toNat = v.position.toNat + v.convention.slotSize.toNat := by
  obtain ⟨hle, hend⟩ := hn
  rw [UInt64.toNat_zero] at hle hend
  have hstart := h.started
  have hle' : c.start ≤ c.remaining.start := UInt64.le_iff_toNat_le.mpr hstart
  have hsum : (c.remaining.start + v.convention.slotSize).toNat =
      c.remaining.start.toNat + v.convention.slotSize.toNat := by
    rw [UInt64.toNat_add, Nat.mod_eq_of_lt (by omega)]
  have hle'' : c.start ≤ c.remaining.start + v.convention.slotSize := by
    rw [UInt64.le_iff_toNat_le, hsum]
    omega
  rw [after_one h.cursor]
  unfold position
  rw [h.cursor]
  change (c.remaining.start + v.convention.slotSize - c.start).toNat = _
  rw [UInt64.toNat_sub_of_le _ _ hle'', UInt64.toNat_sub_of_le _ _ hle', hsum]
  omega

/-- However the slot was written, a struct is copied from a block of the list's scope or nothing
happens but that an allocator took memory into use that nobody had. -/
theorem AtHome.leads_readSegment (h : v.AtHome c σ) (hlaw : system.Lawful)
    (hs : σ.Sound system strict waiting) (hl : σ.Ledger G) (hw : ctx.system.Within system)
    (hk : w.Known σ) (l : Layout) :
    (v.readSegment l w).Leads ctx σ (fun p τ => v.Copies l w ctx σ p.1 p.2 τ)
      fun τ => ∀ x, τ.memory.byte x ≠ σ.memory.byte x → ¬ σ.InUse x ∧ τ.InUse x := by
  have hsame : ∀ τ, τ = σ → ∀ x, τ.memory.byte x ≠ σ.memory.byte x → ¬ σ.InUse x ∧ τ.InUse x :=
    fun τ hτ x hx => absurd (by rw [hτ]) hx
  have halive : σ.checkUsable ctx.caller c.remaining.scope = .ok () → σ.IsAlive v.scope :=
    fun hu => h.scope ▸ (Store.checkUsable_eq_ok_iff.mp hu).2
  refine (leads_readSlot_next (P := fun r τ => (∃ ρ, (w.allocateLayout l).run ctx σ = .ok r ρ) ∧
      r.size = l.size ∧ c.remaining.Spans 0 v.convention.slotSize ∧
      ∃ b ∈ (σ.scope v.scope).blocks, ∃ start, b.Encloses ⟨start, l.size, v.scope⟩ ∧
        τ.memory.read r.start.toNat l.size.toNat = σ.memory.read start.toNat l.size.toNat)
    h.cursor (fun hu => h.fits hlaw hs (halive hu)) (hsame σ rfl) fun hu hn => ?_).imp
      (fun p τ hp => ?_) fun _ hτ => hτ
  · refine (h.leads_structSource hn).chain hsame ?_
    rintro src σ ⟨rfl, hscope, hsize, hin, husrc⟩
    have hasrc : σ.IsAlive src.scope := hscope ▸ halive hu
    have hgive := (Allocator.leads_allocate hs hw hk l.size l.align).and leads_run
    refine hgive.chain (fun τ hτ x hx => hτ.1.taken hlaw.separate hs hx) fun r ρ hr => ?_
    obtain ⟨hg, hrun⟩ := hr
    rw [← hsize] at hg
    have hcopy := Allocator.run_copyFrom hlaw hs hl hg (hscope ▸ husrc) (hin.fits hlaw hs hasrc)
      fun x hx => hs.inUse hin hasrc hx
    have hlt : v.scope < σ.scopes.length := Store.lt_length_of_isAlive (halive hu)
    have hdone : (r.copyFrom src).Leads ctx ρ (fun _ τ => τ = ρ.setMemory
        (ρ.memory.write r.start.toNat (σ.memory.read src.start.toNat src.size.toNat)))
        fun τ => ∀ x, τ.memory.byte x ≠ σ.memory.byte x → ¬ σ.InUse x ∧ τ.InUse x := by
      unfold Leads
      rw [hcopy]
    refine hdone.bind ?_
    rintro _ _ rfl
    obtain ⟨b, hb, hencl⟩ := hin.2 hasrc
    rw [hscope] at hb
    refine leads_pure ⟨?_, ⟨ρ, hrun⟩, hg.size.trans hsize, hn, b, hb, src.start, ?_, ?_⟩
    · rw [h.scope]
      exact (hg.changes.extends.checkUsable hlt _).trans husrc
    · rw [← hsize]
      exact hencl
    · rw [← hsize]
      exact Memory.read_write_read _ _ _ _ _
  · obtain ⟨⟨hgiven, hsize, hn, hcontents⟩, hrest⟩ := hp
    exact ⟨hgiven, hsize, hcontents, hrest, hrest ▸ h.position_after_one hn⟩

/-- An address that no block of the scope has a struct of the size at is refused. -/
theorem AtHome.run_readSegment_stray (h : v.AtHome c σ)
    (hu : σ.checkUsable ctx.caller v.scope = .ok ())
    (hcheck : Carrier.segment.check l v.convention.width = .ok ())
    (hclass : v.convention.classifyStruct l = .ok .structReference)
    (hn : c.remaining.Spans 0 v.convention.slotSize) {a : Word}
    (ha : ((v.slot c).getAddress v.convention.addressLayout 0).run ctx σ = .ok a σ)
    (hstray : ∀ b ∈ (σ.scope v.scope).blocks, ¬ b.Encloses ⟨a, l.size, v.scope⟩) :
    let address := a.hex
    let scope := v.scope
    let text := s!"struct argument at {address} is not owned by scope {scope}"
    (v.readSegment l w).run ctx σ = .error (.invalidArgument text) σ := by
  have howns : ¬ (σ.scope v.scope).Owns a l.size := fun ho => by
    obtain ⟨b, hb, he⟩ := ho.encloses v.scope
    exact hstray b hb he
  have hslice : σ.checkAccess ctx.caller c.remaining 0 v.convention.slotSize = .ok () :=
    Store.checkAccess_eq_ok_iff.mpr ⟨by rwa [h.scope], hn⟩
  unfold slot at ha
  unfold readSegment readSlot requireCursor structSource referenced ScopeId.resolve
  simp only [h.cursor, run_bind, run_pure, hcheck, run_require_ok, Region.run_slice, hslice,
    hclass, ha, run_checkUsable, hu, run_get, if_neg howns, h.own, Bool.false_eq_true, ite_false,
    run_throw]

end VariadicList
end ScopedMemory
