import ScopedMemory.Proofs.Lifetime.Keep

namespace ScopedMemory

/-- Whether a check finds something wrong, without its value. -/
def MemoryError.verdict {α : Type} : Except MemoryError α → Except MemoryError Unit
  | .ok _ => .ok ()
  | .error e => .error e

theorem MemoryError.verdict_eq_error_iff {α : Type} {c : Except MemoryError α} {e : MemoryError} :
    verdict c = .error e ↔ c = .error e := by
  cases c <;> simp [verdict]

namespace Store

/-- The answer is that the thread may not use some scope, and this is so. -/
def Bars (σ : Store) (t : Thread) {α : Type} (answer : Except MemoryError α) : Prop :=
  ∃ s, answer = .error (.wrongThread s) ∧ σ.checkOwner t s = .error (.wrongThread s)

/-- All threads get the same answer, but for those that may not use some scope. -/
def Fair (σ : Store) {α : Type} (f : Thread → Except MemoryError α) : Prop :=
  ∀ t u, f t = f u ∨ σ.Bars t (f t) ∨ σ.Bars u (f u)

variable {α β : Type} {σ : Store} {f : Thread → Except MemoryError α}
  {g : α → Thread → Except MemoryError β} {t : Thread} {s : ScopeId} {e : MemoryError}

theorem fair_const (c : Except MemoryError α) : σ.Fair fun _ => c := fun _ _ => Or.inl rfl

theorem Bars.bind {x : Except MemoryError α} (h : σ.Bars t x) (k : α → Except MemoryError β) :
    σ.Bars t (x >>= k) := by
  obtain ⟨s, rfl, ho⟩ := h
  exact ⟨s, rfl, ho⟩

theorem Fair.bind (hf : σ.Fair f) (hg : ∀ a, σ.Fair (g a)) : σ.Fair fun t => f t >>= (g · t) := by
  intro t u
  rcases hf t u with he | hb | hb
  · dsimp only
    rw [he]
    cases f u with
    | error e => exact Or.inl rfl
    | ok a => exact hg a t u
  · exact Or.inr (Or.inl (hb.bind _))
  · exact Or.inr (Or.inr (hb.bind _))

theorem Fair.verdict (hf : σ.Fair f) : σ.Fair fun t => MemoryError.verdict (f t) := by
  intro t u
  rcases hf t u with he | ⟨s, he, ho⟩ | ⟨s, he, ho⟩
  · exact Or.inl (congrArg _ he)
  · exact Or.inr (Or.inl ⟨s, MemoryError.verdict_eq_error_iff.mpr he, ho⟩)
  · exact Or.inr (Or.inr ⟨s, MemoryError.verdict_eq_error_iff.mpr he, ho⟩)

theorem checkOwner_cases (σ : Store) (t : Thread) (s : ScopeId) :
    σ.checkOwner t s = .ok () ∨ σ.checkOwner t s = .error (.wrongThread s) := by
  unfold checkOwner
  split
  next =>
    split
    next => exact Or.inl rfl
    next => exact Or.inr rfl
  next => exact Or.inl rfl

/-- A scope that a thread cannot use is not its own or has ended, in this order. -/
theorem checkUsable_cases (σ : Store) (t : Thread) (s : ScopeId) :
    σ.checkOwner t s = .error (.wrongThread s) ∧ σ.checkUsable t s = .error (.wrongThread s) ∨
      σ.checkOwner t s = .ok () ∧ ¬ σ.IsAlive s ∧ σ.checkUsable t s = .error (.alreadyClosed s) ∨
        σ.checkOwner t s = .ok () ∧ σ.IsAlive s ∧ σ.checkUsable t s = .ok () := by
  unfold checkUsable
  rcases σ.checkOwner_cases t s with ho | ho
  · right
    rw [ho]
    by_cases ha : (σ.scope s).isAlive = true
    · exact Or.inr ⟨rfl, ha, if_pos ha⟩
    · exact Or.inl ⟨rfl, ha, if_neg ha⟩
  · left
    rw [ho]
    exact ⟨rfl, rfl⟩

theorem fair_checkUsable (σ : Store) (s : ScopeId) : σ.Fair fun t => σ.checkUsable t s := by
  intro t u
  rcases σ.checkUsable_cases t s with ⟨ho, hu⟩ | ht
  · exact Or.inr (Or.inl ⟨s, hu, ho⟩)
  rcases σ.checkUsable_cases u s with ⟨ho, hu⟩ | hu
  · exact Or.inr (Or.inr ⟨s, hu, ho⟩)
  left
  dsimp only
  rcases ht with ⟨_, ha, ht⟩ | ⟨_, ha, ht⟩ <;> rcases hu with ⟨_, ha', hu⟩ | ⟨_, ha', hu⟩
  · rw [ht, hu]
  · exact absurd ha' ha
  · exact absurd ha ha'
  · rw [ht, hu]

theorem checkAccess_error {r : Region} {offset length : Word}
    (h : σ.checkUsable t r.scope = .error e) : σ.checkAccess t r offset length = .error e := by
  rw [checkAccess_eq, h]

theorem fair_checkAccess (σ : Store) (r : Region) (offset length : Word) :
    σ.Fair fun t => σ.checkAccess t r offset length :=
  (σ.fair_checkUsable r.scope).bind fun _ => fair_const (r.checkSpan offset length)

end Store

namespace Operation

variable {α β : Type} {x : Operation α} {k : α → Operation β} {σ : Store}
  {f : Thread → Except MemoryError α} {g : α → Thread → Except MemoryError β}

/-- The operation only looks at the store, and what it finds depends on the caller in no other way
than by the scopes that the caller may not use. -/
structure Inspects (x : Operation α) (σ : Store) (f : Thread → Except MemoryError α) : Prop where
  run : ∀ ctx, x.run ctx σ = (require (f ctx.caller)).run ctx σ
  fair : σ.Fair f

theorem inspects_require (c : Except MemoryError α) : (require c).Inspects σ fun _ => c :=
  ⟨fun _ => rfl, Store.fair_const c⟩

theorem inspects_pure (a : α) : (pure a : Operation α).Inspects σ fun _ => .ok a :=
  ⟨fun _ => rfl, Store.fair_const _⟩

theorem inspects_checkUsable (s : ScopeId) :
    (checkUsable s).Inspects σ fun t => σ.checkUsable t s :=
  ⟨fun _ => rfl, σ.fair_checkUsable s⟩

theorem Inspects.bind (hx : x.Inspects σ f) (hk : ∀ a, (k a).Inspects σ (g a)) :
    (x >>= k).Inspects σ fun t => f t >>= (g · t) where
  run ctx := by
    rw [run_bind, hx.run]
    cases f ctx.caller with
    | error e => rfl
    | ok a => exact (hk a).run ctx
  fair := hx.fair.bind fun a => (hk a).fair

/-- What the operation comes to for the thread, if the system has no memory to give. -/
def finding (x : Operation α) (σ : Store) (t : Thread) : Except MemoryError α :=
  match x.run ⟨t, ⟨fun _ _ _ _ => none⟩⟩ σ with
  | .ok a _ => .ok a
  | .error e _ => .error e

theorem Inspects.finding_eq (hx : x.Inspects σ f) : x.finding σ = f := by
  funext t
  unfold finding
  rw [hx.run]
  cases f t <;> rfl

/-- The operation does no more than to look at the store. -/
def Looks (x : Operation α) (σ : Store) : Prop := x.Inspects σ (x.finding σ)

theorem Inspects.looks (hx : x.Inspects σ f) : x.Looks σ := by
  unfold Looks
  rw [hx.finding_eq]
  exact hx

theorem Looks.bind (hx : x.Looks σ) (hk : ∀ a, (k a).Looks σ) : (x >>= k).Looks σ :=
  (Inspects.bind hx hk).looks

theorem looks_pure (a : α) : (pure a : Operation α).Looks σ := (inspects_pure a).looks

theorem looks_throw (e : MemoryError) : (throw e : Operation α).Looks σ :=
  Inspects.looks (f := fun _ => .error e) ⟨fun _ => rfl, Store.fair_const _⟩

theorem looks_require (c : Except MemoryError α) : (require c).Looks σ := (inspects_require c).looks

theorem looks_checkUsable (s : ScopeId) : (checkUsable s).Looks σ := (inspects_checkUsable s).looks

/-- The operation fails as the check does for its caller, and has done nothing until then. -/
def Checks (x : Operation α) (σ : Store) (check : Thread → Except MemoryError Unit) : Prop :=
  ∀ ctx e, check ctx.caller = .error e → x.run ctx σ = .error e σ

variable {check : Thread → Except MemoryError Unit}

theorem Checks.bind (hx : x.Checks σ check) : (x >>= k).Checks σ check := by
  intro ctx e he
  rw [run_bind, hx ctx e he]

theorem checks_checkUsable (s : ScopeId) : (checkUsable s).Checks σ fun t => σ.checkUsable t s := by
  intro ctx e he
  replace he : σ.checkUsable ctx.caller s = .error e := he
  rw [run_checkUsable, he]
  rfl

theorem checks_pinned {s : ScopeId} {body : Operation α} :
    (pinned s body).Checks σ fun t => σ.checkUsable t s := by
  intro ctx e he
  replace he : σ.checkUsable ctx.caller s = .error e := he
  rw [run_pinned, he]

theorem Looks.checks_bind (hx : x.Looks σ)
    (hk : ∀ a t, x.finding σ t = .ok a → (k a).Checks σ check) :
    (x >>= k).Checks σ fun t => MemoryError.verdict (x.finding σ t) >>= fun _ => check t := by
  intro ctx e he
  dsimp only at he
  rw [run_bind, hx.run]
  cases hf : x.finding σ ctx.caller with
  | error e' =>
    rw [hf] at he
    cases he
    rfl
  | ok a =>
    rw [hf] at he
    exact hk a ctx.caller hf ctx e he

theorem checks_require_bind {c : Except MemoryError α}
    (hk : ∀ a, c = .ok a → (k a).Checks σ check) :
    (require c >>= k).Checks σ fun t => MemoryError.verdict c >>= fun _ => check t := by
  intro ctx e he
  cases c with
  | error e' =>
    cases he
    rfl
  | ok a => exact hk a rfl ctx e he

theorem checks_test_bind {c : Except MemoryError Unit} {k : Unit → Operation β}
    (hk : c = .ok () → (k ()).Checks σ check) :
    (require c >>= k).Checks σ fun t => c >>= fun _ => check t := by
  intro ctx e he
  cases c with
  | error e' =>
    cases he
    rfl
  | ok _ => exact hk rfl ctx e he

theorem checks_get_bind {k : Store → Operation β} (hk : (k σ).Checks σ check) :
    ((get : Operation Store) >>= k).Checks σ check := fun ctx e he => hk ctx e he

theorem Checks.imp (h : x.Checks σ check) {check' : Thread → Except MemoryError Unit}
    (hc : ∀ t e, check' t = .error e → check t = .error e) : x.Checks σ check' :=
  fun ctx e he => h ctx e (hc _ e he)

end Operation

/-- What is checked before anything is done: the form of the arguments, then what comes before a
look at the scope, and then whether the caller can use the scope. -/
structure Inquiry where
  form : Except MemoryError Unit := .ok ()
  first : Thread → Except MemoryError Unit := fun _ => .ok ()
  scope : ScopeId

def Inquiry.check (q : Inquiry) (σ : Store) (caller : Thread) : Except MemoryError Unit := do
  q.form
  q.first caller
  σ.checkUsable caller q.scope

namespace Inquiry

variable {q : Inquiry} {σ : Store} {t : Thread} {e : MemoryError}

theorem check_of_first (hform : q.form = .ok ()) (hfirst : q.first t = .error e) :
    q.check σ t = .error e := by
  unfold check
  rw [hform, hfirst]
  rfl

theorem check_of_scope (hform : q.form = .ok ()) (hfirst : q.first t = .ok ())
    (hscope : σ.checkUsable t q.scope = .error e) : q.check σ t = .error e := by
  unfold check
  rw [hform, hfirst]
  exact hscope

theorem check_eq_ok_iff :
    q.check σ t = .ok () ↔
      q.form = .ok () ∧ q.first t = .ok () ∧ σ.checkUsable t q.scope = .ok () := by
  unfold check
  cases q.form with
  | error e => simp [bind, Except.bind]
  | ok _ => cases q.first t <;> simp [bind, Except.bind]

/-- A scope that cannot be used is found out, if nothing else is. -/
theorem exists_error (hscope : σ.checkUsable t q.scope = .error e) :
    ∃ e, q.check σ t = .error e := by
  cases hc : q.check σ t with
  | error e => exact ⟨e, rfl⟩
  | ok _ => cases hscope.symm.trans (check_eq_ok_iff.mp hc).2.2

end Inquiry
end ScopedMemory
