import ScopedMemory.Operation

namespace ScopedMemory.Operation

variable {α β : Type} {x : Operation α} {f : α → Operation β} {ctx : Context} {σ τ : Store}
  {P P' : α → Store → Prop} {Q Q' : Store → Prop} {R : β → Store → Prop}

/-- From `σ` the operation gives a value and a store with `P`, or fails and leaves one with `Q`. -/
def Leads (x : Operation α) (ctx : Context) (σ : Store) (P : α → Store → Prop)
    (Q : Store → Prop) : Prop :=
  match x.run ctx σ with
  | .ok a τ => P a τ
  | .error _ τ => Q τ

theorem Leads.ok (h : x.Leads ctx σ P Q) {a : α} (hr : x.run ctx σ = .ok a τ) : P a τ := by
  rwa [Leads, hr] at h

theorem Leads.error (h : x.Leads ctx σ P Q) {e : MemoryError}
    (hr : x.run ctx σ = .error e τ) : Q τ := by
  rwa [Leads, hr] at h

/-- The value that the operation gives, if it does not fail. -/
def value? (x : Operation α) (ctx : Context) (σ : Store) : Option α :=
  match x.run ctx σ with
  | .ok a _ => some a
  | .error _ _ => none

theorem Leads.value (h : x.Leads ctx σ P Q) :
    x.Leads ctx σ (fun a τ => x.value? ctx σ = some a ∧ P a τ)
      fun τ => x.value? ctx σ = none ∧ Q τ := by
  unfold Leads value? at *
  cases hr : x.run ctx σ with
  | ok a τ =>
    rw [hr] at h
    exact ⟨rfl, h⟩
  | error e τ =>
    rw [hr] at h
    exact ⟨rfl, h⟩

theorem run_of_value? {a : α}
    (h : x.value? ctx σ = some a) : ∃ τ, x.run ctx σ = .ok a τ := by
  unfold value? at h
  cases hr : x.run ctx σ with
  | ok b τ =>
    rw [hr] at h
    exact ⟨τ, congrArg (EStateM.Result.ok · τ) (Option.some.inj h)⟩
  | error e τ =>
    rw [hr] at h
    cases h

theorem Leads.of_isSome (h : x.Leads ctx σ P Q) (hs : (x.value? ctx σ).isSome) :
    ∃ a τ, x.run ctx σ = .ok a τ ∧ P a τ := by
  obtain ⟨a, ha⟩ := Option.isSome_iff_exists.mp hs
  obtain ⟨τ, hr⟩ := run_of_value? ha
  exact ⟨a, τ, hr, h.ok hr⟩

/-- The operation gives a value. -/
def Succeeds (x : Operation α) (ctx : Context) (σ : Store) : Prop := ∃ a τ, x.run ctx σ = .ok a τ

/-- An operation that does no more than a check succeeds where the check does. -/
theorem succeeds_iff_of_check {c : Except MemoryError Unit} {a : α}
    (h : x.run ctx σ = match c with | .ok _ => .ok a τ | .error e => .error e σ) :
    x.Succeeds ctx σ ↔ c = .ok () := by
  unfold Succeeds
  rw [h]
  cases c with
  | ok u => exact ⟨fun _ => rfl, fun _ => ⟨a, τ, rfl⟩⟩
  | error e =>
    constructor
    · rintro ⟨b, ρ, hr⟩
      cases hr
    · intro hc
      cases hc

theorem leads_iff : x.Leads ctx σ P Q ↔
    (∀ a τ, x.run ctx σ = .ok a τ → P a τ) ∧ ∀ e τ, x.run ctx σ = .error e τ → Q τ := by
  unfold Leads
  cases x.run ctx σ with
  | ok a τ => simp
  | error e τ => simp

theorem Leads.imp (h : x.Leads ctx σ P Q) (hP : ∀ a τ, P a τ → P' a τ) (hQ : ∀ τ, Q τ → Q' τ) :
    x.Leads ctx σ P' Q' := by
  unfold Leads at h ⊢
  split
  next hr => rw [hr] at h; exact hP _ _ h
  next hr => rw [hr] at h; exact hQ _ h

theorem Leads.and (h : x.Leads ctx σ P Q) (h' : x.Leads ctx σ P' Q') :
    x.Leads ctx σ (fun a τ => P a τ ∧ P' a τ) fun τ => Q τ ∧ Q' τ := by
  unfold Leads at *
  cases hr : x.run ctx σ with
  | ok a τ =>
    rw [hr] at h h'
    exact ⟨h, h'⟩
  | error e τ =>
    rw [hr] at h h'
    exact ⟨h, h'⟩

theorem Leads.bind (hx : x.Leads ctx σ P Q) (hf : ∀ a τ, P a τ → (f a).Leads ctx τ R Q) :
    (x >>= f).Leads ctx σ R Q := by
  unfold Leads at hx
  rw [Leads, run_bind]
  cases hr : x.run ctx σ with
  | ok a τ =>
    rw [hr] at hx
    exact hf a τ hx
  | error e τ =>
    rw [hr] at hx
    exact hx

/-- As `Leads.bind`, where the first part fails in a way of its own. -/
theorem Leads.chain (hx : x.Leads ctx σ P Q') (hQ : ∀ τ, Q' τ → Q τ)
    (hf : ∀ a τ, P a τ → (f a).Leads ctx τ R Q) : (x >>= f).Leads ctx σ R Q :=
  (hx.imp (fun _ _ h => h) hQ).bind hf

theorem leads_run : x.Leads ctx σ (fun a τ => x.run ctx σ = .ok a τ) fun _ => True := by
  unfold Leads
  cases x.run ctx σ with
  | ok a τ => rfl
  | error e τ => trivial

theorem leads_of {p : Prop} (h : p) : x.Leads ctx σ (fun _ _ => p) fun _ => True := by
  unfold Leads
  cases x.run ctx σ with
  | ok a τ => exact h
  | error e τ => trivial

theorem leads_pure {a : α} (h : P a σ) : (pure a : Operation α).Leads ctx σ P Q := h

theorem leads_throw {e : MemoryError} (h : Q σ) : (throw e : Operation α).Leads ctx σ P Q := h

theorem leads_require {c : Except MemoryError α} (h : ∀ a, c = .ok a → P a σ) (hQ : Q σ) :
    (require c).Leads ctx σ P Q := by
  cases c with
  | ok a => exact h a rfl
  | error e => exact hQ

theorem leads_checkUsable {s : ScopeId} {P : Unit → Store → Prop}
    (h : σ.checkUsable ctx.caller s = .ok () → P () σ) (hQ : Q σ) :
    (checkUsable s).Leads ctx σ P Q :=
  leads_require (fun _ => h) hQ

/-- A check that succeeds can be left out. -/
theorem leads_require_bind {c : Except MemoryError α} {a : α} (hc : c = .ok a)
    (h : (f a).Leads ctx σ R Q) : (require c >>= f).Leads ctx σ R Q := by
  rw [hc]
  exact h

theorem leads_checkUsable_bind {s : ScopeId} {g : Unit → Operation β}
    (hu : σ.checkUsable ctx.caller s = .ok ()) (h : (g ()).Leads ctx σ R Q) :
    (checkUsable s >>= g).Leads ctx σ R Q := by
  unfold Leads at h ⊢
  rw [run_bind, run_checkUsable, hu]
  exact h

theorem leads_get {P : Store → Store → Prop} (h : P σ σ) :
    (get : Operation Store).Leads ctx σ P Q := h

theorem leads_set {P : PUnit → Store → Prop} (h : P ⟨⟩ τ) :
    (set τ : Operation PUnit).Leads ctx σ P Q := h

theorem leads_modify {g : Store → Store} {P : PUnit → Store → Prop} (h : P ⟨⟩ (g σ)) :
    (modify g : Operation PUnit).Leads ctx σ P Q := h

theorem leads_attempt {P : Except MemoryError α → Store → Prop}
    (h : x.Leads ctx σ (fun a τ => P (.ok a) τ) fun τ => ∀ e, P (.error e) τ) :
    (attempt x).Leads ctx σ P Q := by
  unfold Leads run attempt at *
  cases hr : x ctx σ with
  | ok a τ =>
    rw [hr] at h
    exact h
  | error e τ =>
    rw [hr] at h
    exact h e

/-- What was attempted did what the attempt tells. -/
theorem run_of_attempt {o : Except MemoryError α} (h : (attempt x).run ctx σ = .ok o τ) :
    x.run ctx σ = match o with | .ok a => .ok a τ | .error e => .error e τ := by
  unfold run attempt at h
  unfold run
  cases hr : x ctx σ with
  | ok a ρ =>
    rw [hr] at h
    cases h
    rfl
  | error e ρ =>
    rw [hr] at h
    cases h
    rfl

theorem leads_asThread {t : Thread} (h : x.Leads { ctx with caller := t } σ P Q) :
    (asThread t x).Leads ctx σ P Q := h

end ScopedMemory.Operation
