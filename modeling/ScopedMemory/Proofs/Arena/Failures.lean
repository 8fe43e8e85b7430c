import ScopedMemory.Proofs.Allocator
import ScopedMemory.Proofs.Arena.Answers

namespace ScopedMemory

open Operation

variable {α β : Type} {R : Store → Store → Prop} {ctx : Context} {σ τ ρ : Store} {a : ArenaId}
  {B : ArenaId → Prop} {s : ScopeId} {size align : Word}

namespace Operation

variable {x : Operation α} {f : α → Operation β}

/-- However the operation ends, it leaves a store that the first is related to. -/
def Through (x : Operation α) (R : Store → Store → Prop) (ctx : Context) (σ : Store) : Prop :=
  x.Leads ctx σ (fun _ τ => R σ τ) (R σ)

theorem Through.bind [Trans R R R] (hx : x.Through R ctx σ) (hf : ∀ a τ, (f a).Through R ctx τ) :
    (x >>= f).Through R ctx σ :=
  Leads.bind hx fun a τ h =>
    (hf a τ).imp (fun _ _ h' => Trans.trans h h') fun _ h' => Trans.trans h h'

theorem Through.imp {R' : Store → Store → Prop} (hx : x.Through R ctx σ)
    (h : ∀ τ, R σ τ → R' σ τ) : x.Through R' ctx σ :=
  Leads.imp hx (fun _ τ => h τ) h

theorem Through.attempt (hx : x.Through R ctx σ) : (attempt x).Through R ctx σ :=
  leads_attempt (Leads.imp hx (fun _ _ h => h) fun _ h _ => h)

variable [Std.Refl R]

theorem through_pure (a : α) : (pure a : Operation α).Through R ctx σ :=
  leads_pure (Std.Refl.refl σ)

theorem through_throw (e : MemoryError) : (throw e : Operation α).Through R ctx σ :=
  leads_throw (Std.Refl.refl σ)

theorem through_require (c : Except MemoryError α) : (require c).Through R ctx σ :=
  leads_require (fun _ _ => Std.Refl.refl σ) (Std.Refl.refl σ)

theorem through_mapM [Trans R R R] {g : β → Operation α} (hg : ∀ b τ, (g b).Through R ctx τ)
    (bs : List β) : (bs.mapM g).Through R ctx σ := by
  induction bs generalizing σ with
  | nil => exact through_pure []
  | cons b bs ih =>
    rw [List.mapM_cons]
    exact (hg b σ).bind fun _ _ => ih.bind fun _ _ => through_pure _

end Operation

namespace Store

/-- No arena has counted a request as failed. -/
structure Even (σ τ : Store) : Prop where
  arenas : σ.arenas.length ≤ τ.arenas.length
  failed : ∀ a, (τ.arena a).stats.failed = (σ.arena a).stats.failed

instance : Std.Refl Even := ⟨fun _ => ⟨Nat.le_refl _, fun _ => rfl⟩⟩

instance : Trans Even Even Even :=
  ⟨fun h h' => ⟨Nat.le_trans h.arenas h'.arenas, fun a => (h'.failed a).trans (h.failed a)⟩⟩

theorem even_of_arenas (h : τ.arenas = σ.arenas) : σ.Even τ := by
  refine ⟨Nat.le_of_eq (congrArg List.length h.symm), fun a => ?_⟩
  unfold arena
  rw [h]

theorem even_modifyArena (σ : Store) (a : ArenaId) {f : Arena → Arena}
    (hf : ∀ ar, (f ar).stats.failed = ar.stats.failed) : σ.Even (σ.modifyArena a f) := by
  refine ⟨Nat.le_of_eq (length_arenas_modifyArena σ a f).symm, fun b => ?_⟩
  rw [arena_modifyArena]
  split
  next h => rw [hf, h.1]
  next => rfl

/-- An arena that is new has counted nothing, and neither has one that is not there. -/
theorem even_addArena (σ : Store) {ar : Arena} (h : ar.stats.failed = 0) :
    σ.Even (σ.addArena ar) := by
  refine ⟨by rw [length_arenas_addArena]; exact Nat.le_succ _, fun b => ?_⟩
  rw [arena_addArena]
  split
  next he =>
    rw [h, he, arena_of_length_le (Nat.le_refl _)]
  next => rfl

/-- At most one of these arenas has counted a request as failed, and only as the last thing. -/
def Blames (B : ArenaId → Prop) (σ τ : Store) : Prop :=
  σ.Even τ ∨ ∃ ρ a, B a ∧ σ.Even ρ ∧ τ = ρ.failed a

theorem blames_refl (σ : Store) : σ.Blames B σ := Or.inl (Std.Refl.refl σ)

theorem Even.blames (h : σ.Even τ) (h' : τ.Blames B ρ) : σ.Blames B ρ := by
  rcases h' with h' | ⟨ν, a, ha, h', rfl⟩
  · exact Or.inl (Trans.trans h h')
  · exact Or.inr ⟨ν, a, ha, Trans.trans h h', rfl⟩

/-- What a request is checked for before the arena looks for room. -/
def checkAdmission (σ : Store) (t : Thread) (a : ArenaId) (size align : Word) :
    Except MemoryError Unit := do
  checkRequest size align
  σ.checkUsable t (σ.arena a).scope

theorem checkAdmission_eq_ok_iff {t : Thread} : σ.checkAdmission t a size align = .ok () ↔
    checkRequest size align = .ok () ∧ σ.checkUsable t (σ.arena a).scope = .ok () := by
  unfold checkAdmission
  cases checkRequest size align with
  | ok _ => exact ⟨fun h => ⟨rfl, h⟩, And.right⟩
  | error e => exact ⟨nofun, fun h => nomatch h.1⟩

end Store

namespace Operation

variable {x : Operation α} {f : α → Operation β}

/-- If the operation fails, it may be that one of these arenas counts it. -/
def Blames (x : Operation α) (B : ArenaId → Prop) (ctx : Context) (σ : Store) : Prop :=
  x.Leads ctx σ (fun _ τ => σ.Even τ) (σ.Blames B)

theorem Through.blames (h : x.Through Store.Even ctx σ) : x.Blames B ctx σ :=
  Leads.imp h (fun _ _ h => h) fun _ h => Or.inl h

theorem Blames.bind (hx : x.Blames B ctx σ) (hf : ∀ a τ, (f a).Blames B ctx τ) :
    (x >>= f).Blames B ctx σ :=
  Leads.bind hx fun a τ h =>
    (hf a τ).imp (fun _ _ h' => Trans.trans h h') fun _ h' => h.blames h'

theorem even_modify {f : Arena → Arena} (hf : ∀ ar, (f ar).stats.failed = ar.stats.failed) :
    (modify (·.modifyArena a f) : Operation PUnit).Through Store.Even ctx σ :=
  leads_modify (σ.even_modifyArena a hf)

/-- An operation that leaves the arenas alone. -/
theorem even_aside {P : α → Store → Prop} (hx : x.Leads ctx σ P (· = σ))
    (hP : ∀ a τ, P a τ → τ.arenas = σ.arenas) : x.Through Store.Even ctx σ :=
  hx.imp (fun a τ h => Store.even_of_arenas (hP a τ h)) fun _ h =>
    Store.even_of_arenas (congrArg Store.arenas h)

end Operation

theorem Region.even_slice (r : Region) {offset length : Word} :
    (r.slice offset length).Through Store.Even ctx σ :=
  even_aside leads_slice fun _ _ h => congrArg Store.arenas h.2.2

theorem Region.even_copyFrom (r src : Region) : (r.copyFrom src).Through Store.Even ctx σ := by
  refine even_aside leads_copyFrom fun _ τ h => ?_
  rw [h.2.2]
  rfl

theorem ScopeId.even_allocateNative : (s.allocateNative size align).Through Store.Even ctx σ := by
  refine even_aside (leads_allocateNative s size align) fun r τ h => ?_
  obtain ⟨_, _, _, _, rfl⟩ := h
  rfl

/-! ### What an arena does before the outcome is counted -/

namespace ArenaId

theorem even_create (capacity : ArenaCapacity) (config : ArenaConfig) (s : ScopeId) :
    (create capacity config s).Through Store.Even ctx σ := by
  refine (leads_create capacity config s).imp (fun _ τ h => ?_) fun τ h => ?_
  · rw [h.2.2.2]
    exact σ.even_addArena rfl
  · exact Store.even_of_arenas (congrArg Store.arenas h)

theorem even_install (block : Region) : (a.install block).Through Store.Even ctx σ := by
  refine (even_modify ?_).bind fun _ _ => through_pure _
  exact fun _ => rfl

theorem even_carve (f : Frontier) (start : Word) :
    (a.carve f start size).Through Store.Even ctx σ := by
  refine f.block.even_slice.bind fun _ _ => (even_modify ?_).bind fun _ _ => through_pure _
  exact fun _ => rfl

theorem even_fit (f : Frontier) (fault : MemoryError) :
    (match f.fit? size align with
      | some start => a.carve f start size
      | none => throw fault : Operation Region).Through Store.Even ctx σ := by
  split
  next => exact even_carve f _
  next => exact through_throw _

theorem even_allocateBounded (ar : Arena) (bytes : Word) :
    (a.allocateBounded ar bytes size align).Through Store.Even ctx σ := by
  unfold allocateBounded
  cases ar.frontier with
  | some f => exact even_fit f _
  | none =>
    exact ScopeId.even_allocateNative.bind fun r _ => (even_install r).bind fun f _ => even_fit f _

theorem even_allocateUnbounded (ar : Arena) (blockSize : Word) :
    (a.allocateUnbounded ar blockSize size align).Through Store.Even ctx σ := by
  unfold allocateUnbounded
  split
  next => exact even_carve _ _
  next =>
    split
    next =>
      refine ScopeId.even_allocateNative.bind fun r _ =>
        (even_modify ?_).bind fun _ _ => through_pure r
      exact fun _ => rfl
    next =>
      exact ScopeId.even_allocateNative.bind fun r _ =>
        (even_install r).bind fun f _ => even_fit f _

/-- A request that is found in order and then fails is counted, and no other is. -/
theorem leads_allocate_admitted (ctx : Context)
    (h : σ.checkAdmission ctx.caller a size align = .ok ()) :
    (a.allocate size align).Leads ctx σ (fun _ τ => σ.Even τ)
      fun τ => ∃ ρ, σ.Even ρ ∧ τ = ρ.failed a := by
  obtain ⟨hq, hu⟩ := Store.checkAdmission_eq_ok_iff.mp h
  refine leads_require_bind hq ((leads_get (P := fun ρ τ => σ = ρ ∧ σ = τ) ⟨rfl, rfl⟩).bind ?_)
  rintro _ _ ⟨rfl, rfl⟩
  refine leads_checkUsable_bind hu (leads_counting ?_ fun ρ h => ⟨ρ, h, rfl⟩)
  split
  next bytes _ => exact even_allocateBounded _ bytes
  next blockSize _ => exact even_allocateUnbounded _ blockSize

theorem run_allocate_of_turnedAway (ctx : Context) {e : MemoryError}
    (h : σ.checkAdmission ctx.caller a size align = .error e) :
    (a.allocate size align).run ctx σ = .error e σ := by
  unfold Store.checkAdmission at h
  cases hq : checkRequest size align with
  | error fault =>
    rw [hq] at h
    cases h
    simp [allocate, hq]
  | ok _ =>
    rw [hq] at h
    simp [allocate, hq, show σ.checkUsable ctx.caller (σ.arena a).scope = .error e from h]

theorem blames_allocate (ha : B a) : (a.allocate size align).Blames B ctx σ := by
  cases h : σ.checkAdmission ctx.caller a size align with
  | error e =>
    unfold Operation.Blames Leads
    rw [run_allocate_of_turnedAway ctx h]
    exact σ.blames_refl
  | ok _ =>
    refine (leads_allocate_admitted ctx h).imp (fun _ _ h => h) fun τ h => ?_
    obtain ⟨ρ, hρ, rfl⟩ := h
    exact Or.inr ⟨ρ, a, ha, hρ, rfl⟩

end ArenaId

namespace Allocator

variable {w : Allocator}

theorem blames_allocate (hB : ∀ a, w = arena a → B a) :
    (w.allocate size align).Blames B ctx σ := by
  cases w with
  | direct s =>
    exact Through.blames ((through_require _).bind fun _ _ => ScopeId.even_allocateNative)
  | perRequest kind =>
    refine Through.blames ((through_require _).bind fun _ τ => Through.bind (even_aside
      ((ScopeId.leads_create _).imp (fun _ _ h => h) fun _ h => h.elim) fun s ρ h => ?_) fun _ _ =>
        ScopeId.even_allocateNative)
    obtain ⟨_, _, rfl⟩ | ⟨_, _, rfl⟩ := h
    · rfl
    · rfl
  | arena a => exact ArenaId.blames_allocate (hB a rfl)
  | recycling r =>
    exact (even_aside (leads_recycling r size align) fun _ _ h =>
      congrArg Store.arenas h.2.2.2).blames

theorem blames_serve (q : AllocationRequest) (hB : ∀ a, w = arena a → B a) :
    (w.serve q).Blames B ctx σ :=
  leads_serve_of_allocate σ.blames_refl (fun _ _ h => Or.inl h)
    (fun _ _ _ h => Trans.trans h (Store.even_of_arenas rfl)) fun _ _ _ => blames_allocate hB

end Allocator
end ScopedMemory
