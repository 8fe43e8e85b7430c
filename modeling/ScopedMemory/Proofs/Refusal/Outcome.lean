import ScopedMemory.Proofs.Session.Play

namespace ScopedMemory

namespace Turn

variable {α β : Type} {x : Turn α} {f : α → Turn β} {ctx : Context} {S T : Session}
  {P P' : α → Session → Prop} {E E' : Refusal → Session → Prop} {R : β → Session → Prop}

/-- As `Leads`, where it is known of a refusal what it was for too. -/
def Ends (x : Turn α) (ctx : Context) (S : Session) (P : α → Session → Prop)
    (E : Refusal → Session → Prop) : Prop :=
  match x.run ctx S with
  | .ok a T => P a T
  | .error r T => E r T

theorem Ends.ok (h : x.Ends ctx S P E) {a : α} (hr : x.run ctx S = .ok a T) : P a T := by
  rwa [Ends, hr] at h

theorem Ends.error (h : x.Ends ctx S P E) {r : Refusal} (hr : x.run ctx S = .error r T) :
    E r T := by
  rwa [Ends, hr] at h

theorem ends_iff : x.Ends ctx S P E ↔
    (∀ a T, x.run ctx S = .ok a T → P a T) ∧ ∀ r T, x.run ctx S = .error r T → E r T := by
  unfold Ends
  cases x.run ctx S with
  | ok a T => simp
  | error r T => simp

theorem Ends.imp (h : x.Ends ctx S P E) (hP : ∀ a T, P a T → P' a T)
    (hE : ∀ r T, E r T → E' r T) : x.Ends ctx S P' E' :=
  ends_iff.mpr ⟨fun _ _ hr => hP _ _ (h.ok hr), fun _ _ hr => hE _ _ (h.error hr)⟩

theorem Ends.bind (hx : x.Ends ctx S P E) (hf : ∀ a T, P a T → (f a).Ends ctx T R E) :
    (x >>= f).Ends ctx S R E := by
  unfold Ends at hx
  rw [Ends, run_bind]
  cases hr : x.run ctx S with
  | ok a T =>
    rw [hr] at hx
    exact hf a T hx
  | error r T =>
    rw [hr] at hx
    exact hx

/-- A turn that is never refused. -/
theorem Leads.ends (h : x.Leads ctx S P fun _ => False) : x.Ends ctx S P E :=
  ends_iff.mpr ⟨fun _ _ hr => h.ok hr, fun _ _ hr => (h.error hr).elim⟩

theorem ends_pure {a : α} (h : P a S) : (pure a : Turn α).Ends ctx S P E := h

theorem ends_throw {r : Refusal} (h : E r S) : (throw r : Turn α).Ends ctx S P E := h

theorem ends_get {P : Session → Session → Prop} (h : P S S) :
    (get : Turn Session).Ends ctx S P E := h

theorem ends_bind_find {lookup : Session → Name → Option α} {name : Name}
    (hE : E .noHandle S) (hf : ∀ a, lookup S name = some a → (f a).Ends ctx S R E) :
    (find lookup name >>= f).Ends ctx S R E := by
  refine Ends.bind (P := fun a T => lookup S name = some a ∧ T = S) ?_ fun a T h => ?_
  · unfold Ends find
    cases h : lookup S name <;> simp [h, hE]
  · rw [h.2]
    exact hf a h.1

theorem ends_bind_claim {lookup : Session → Name → Option α} {name : Name}
    (hE : lookup S name = none → E .noHandle (S.lost name))
    (hf : ∀ a, lookup S name = some a → (f a).Ends ctx S R E) :
    (claim lookup name >>= f).Ends ctx S R E := by
  refine Ends.bind (P := fun a T => lookup S name = some a ∧ T = S) ?_ fun a T h => ?_
  · have hl : (claim lookup name).Leads ctx S _ _ := leads_claim
    refine ends_iff.mpr ⟨fun a T hr => hl.ok hr, fun r T hr => ?_⟩
    obtain ⟨hn, rfl⟩ := hl.error hr
    have hlose : (lose name).run ctx S = .ok () (S.lost name) := by
      unfold lose Session.lost
      cases h : S.handles.find? name <;> simp [h, forget, discard, leave]
    simp only [claim, run_bind, run_get, hn, hlose, run_throw] at hr
    cases hr
    exact hE hn
  · rw [h.2]
    exact hf a h.1

theorem ends_lift {x : Operation α}
    (hP : ∀ a τ, x.run ctx S.store = .ok a τ → P a { S with store := τ })
    (hE : ∀ e τ, x.run ctx S.store = .error e τ → E (.memory e) { S with store := τ }) :
    (lift x).Ends ctx S P E := by
  unfold Ends
  rw [run_lift]
  cases hr : x.run ctx S.store with
  | ok a τ => exact hP a τ hr
  | error e τ => exact hE e τ hr

/-- An attempt never fails. -/
theorem ends_lift_attempt {x : Operation α} :
    (lift (Operation.attempt x)).Ends ctx S (fun _ T => ∃ τ, T = { S with store := τ }) E := by
  unfold Ends
  rw [run_lift]
  unfold Operation.run Operation.attempt
  cases x ctx S.store with
  | ok a τ => exact ⟨τ, rfl⟩
  | error e τ => exact ⟨τ, rfl⟩

end Turn

end ScopedMemory
