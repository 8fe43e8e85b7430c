import ScopedMemory.Proofs.Region.Touch
import ScopedMemory.Proofs.Session.Turn

namespace ScopedMemory

variable {ctx : Context} {S : Session}

def Session.setMemory (S : Session) (m : Memory) : Session :=
  { S with store := S.store.setMemory m }

namespace Turn

variable {α β : Type} {x : Turn α} {f : α → Turn β}

/-- As `Operation.Touches`, for a turn. -/
structure Touches (x : Turn α) (ctx : Context) (S : Session) : Prop where
  ok : ∀ m, S.store.Agrees m → ∀ a T, x.run ctx S = .ok a T →
    ∃ m', x.run ctx (S.setMemory m) = .ok a (T.setMemory m') ∧ S.store.Touched T.store m m'
  error : ∀ m, S.store.Agrees m → ∀ e T, x.run ctx S = .error e T →
    ∃ m', x.run ctx (S.setMemory m) = .error e (T.setMemory m') ∧ S.store.Touched T.store m m'

theorem Touches.bind {P : α → Session → Prop} {Q : Session → Prop} (hx : x.Touches ctx S)
    (hl : x.Leads ctx S P Q) (hf : ∀ a T, P a T → (f a).Touches ctx T) :
    (x >>= f).Touches ctx S := by
  constructor
  · intro m hm b U hr
    rw [run_bind] at hr ⊢
    cases hx' : x.run ctx S with
    | error e T =>
      rw [hx'] at hr
      cases hr
    | ok a T =>
      rw [hx'] at hr
      obtain ⟨m₁, h₁, ht₁⟩ := hx.ok m hm a T hx'
      obtain ⟨m₂, h₂, ht₂⟩ := (hf a T (hl.ok hx')).ok m₁ ht₁.agrees b U hr
      refine ⟨m₂, ?_, ht₁.trans ht₂⟩
      rw [h₁]
      exact h₂
  · intro m hm e U hr
    rw [run_bind] at hr ⊢
    cases hx' : x.run ctx S with
    | error e' T =>
      rw [hx'] at hr
      cases hr
      obtain ⟨m₁, h₁, ht₁⟩ := hx.error m hm e U hx'
      refine ⟨m₁, ?_, ht₁⟩
      rw [h₁]
    | ok a T =>
      rw [hx'] at hr
      obtain ⟨m₁, h₁, ht₁⟩ := hx.ok m hm a T hx'
      obtain ⟨m₂, h₂, ht₂⟩ := (hf a T (hl.ok hx')).error m₁ ht₁.agrees e U hr
      refine ⟨m₂, ?_, ht₁.trans ht₂⟩
      rw [h₁]
      exact h₂

/-- As `Touches.bind`, where what follows needs no more to be known. -/
theorem Touches.seq (hx : x.Touches ctx S) (hf : ∀ a T, (f a).Touches ctx T) :
    (x >>= f).Touches ctx S := by
  refine hx.bind (P := fun _ _ => True) (Q := fun _ => True) ?_ fun a T _ => hf a T
  unfold Leads
  split <;> trivial

theorem touches_ok {a : α} {T : Session} (hr : ∀ m, x.run ctx (S.setMemory m) =
    .ok a (T.setMemory m)) (ht : T.store = S.store) : x.Touches ctx S := by
  have hown : x.run ctx S = .ok a (T.setMemory S.store.memory) := hr S.store.memory
  constructor
  · intro m hm b U hb
    rw [hown] at hb
    cases hb
    refine ⟨m, hr m, ?_⟩
    rw [show (T.setMemory S.store.memory).store = S.store by
      rw [Session.setMemory, ht]
      rfl]
    exact .refl hm
  · intro m hm e U he
    rw [hown] at he
    cases he

theorem touches_error {e : Refusal} {T : Session} (hr : ∀ m, x.run ctx (S.setMemory m) =
    .error e (T.setMemory m)) (ht : T.store = S.store) : x.Touches ctx S := by
  have hown : x.run ctx S = .error e (T.setMemory S.store.memory) := hr S.store.memory
  constructor
  · intro m hm b U hb
    rw [hown] at hb
    cases hb
  · intro m hm e' U he
    rw [hown] at he
    cases he
    refine ⟨m, hr m, ?_⟩
    rw [show (T.setMemory S.store.memory).store = S.store by
      rw [Session.setMemory, ht]
      rfl]
    exact .refl hm

theorem touches_pure (a : α) : (pure a : Turn α).Touches ctx S :=
  touches_ok (T := S) (fun _ => rfl) rfl

theorem touches_throw (e : Refusal) : (throw e : Turn α).Touches ctx S :=
  touches_error (T := S) (fun _ => rfl) rfl

theorem touches_lift {x : Operation α} (h : x.Touches ctx S.store) :
    (lift x).Touches ctx S := by
  constructor
  · intro m hm a T hr
    rw [run_lift] at hr ⊢
    cases hx : x.run ctx S.store with
    | error e τ =>
      rw [hx] at hr
      cases hr
    | ok b τ =>
      rw [hx] at hr
      cases hr
      obtain ⟨m', hm', ht⟩ := h.ok m hm a τ hx
      refine ⟨m', ?_, ht⟩
      rw [show (S.setMemory m).store = S.store.setMemory m from rfl, hm']
      rfl
  · intro m hm e T hr
    rw [run_lift] at hr ⊢
    cases hx : x.run ctx S.store with
    | ok b τ =>
      rw [hx] at hr
      cases hr
    | error e' τ =>
      rw [hx] at hr
      cases hr
      obtain ⟨m', hm', ht⟩ := h.error m hm e' τ hx
      refine ⟨m', ?_, ht⟩
      rw [show (S.setMemory m).store = S.store.setMemory m from rfl, hm']
      rfl

/-- A name is looked up, and what it stands for does not depend on memory. -/
theorem touches_find {lookup : Session → Name → Option α} {name : Name}
    (hl : ∀ m, lookup (S.setMemory m) name = lookup S name)
    (hf : ∀ a, lookup S name = some a → (f a).Touches ctx S) :
    (find lookup name >>= f).Touches ctx S := by
  refine Touches.bind (P := fun a T => lookup S name = some a ∧ T = S) ?_ leads_find
    fun a T h => h.2 ▸ hf a h.1
  cases h : lookup S name with
  | some a =>
    refine touches_ok (a := a) (T := S) (fun m => ?_) rfl
    simp [find, hl, h]
  | none =>
    refine touches_error (e := .noHandle) (T := S) (fun m => ?_) rfl
    simp [find, hl, h]

theorem setMemory_lost (S : Session) (name : Name) (m : Memory) :
    (S.setMemory m).lost name = (S.lost name).setMemory m := by
  have hf : (S.setMemory m).handles.find? name = S.handles.find? name := rfl
  unfold Session.lost
  rw [hf]
  cases S.handles.find? name with
  | none => rfl
  | some old => rfl

theorem touches_claim {lookup : Session → Name → Option α} {name : Name}
    (hl : ∀ m, lookup (S.setMemory m) name = lookup S name)
    (hf : ∀ a, lookup S name = some a → (f a).Touches ctx S) :
    (claim lookup name >>= f).Touches ctx S := by
  refine Touches.bind (P := fun a T => lookup S name = some a ∧ T = S) ?_
    (leads_claim.imp (fun _ _ h => h) fun _ _ => trivial) fun a T h => h.2 ▸ hf a h.1
  cases h : lookup S name with
  | some a =>
    refine touches_ok (a := a) (T := S) (fun m => ?_) rfl
    simp [claim, hl, h]
  | none =>
    have hst : (S.lost name).store = S.store := by
      unfold Session.lost
      split <;> rfl
    refine touches_error (e := .noHandle) (T := S.lost name) (fun m => ?_) hst
    rw [← setMemory_lost]
    have hlose : ∀ U : Session, (lose name).run ctx U = .ok () (U.lost name) := fun U => by
      unfold lose Session.lost
      cases h : U.handles.find? name <;> simp [h, forget, discard, leave]
    simp [claim, hl, h, hlose]

theorem touches_update (name : Name) (h : Handle) : (update name h).Touches ctx S :=
  touches_ok (T := { S with handles := S.handles.put name h }) (fun _ => rfl) rfl

theorem setMemory_kept (S : Session) (name? : Option Name) (h : Handle) (m : Memory) :
    (S.setMemory m).kept name? h = (S.kept name? h).setMemory m := by
  cases name? with
  | none => rfl
  | some name =>
    have hf : (S.setMemory m).handles.find? name = S.handles.find? name := rfl
    unfold Session.kept Session.renamed
    dsimp only
    rw [hf]
    cases S.handles.find? name with
    | none => rfl
    | some old => rfl

theorem touches_keep (name? : Option Name) (h : Handle) : (keep name? h).Touches ctx S := by
  have hkeep : ∀ U : Session, (keep name? h).run ctx U = .ok () (U.kept name? h) := fun U => by
    have hl : (keep name? h).Leads ctx U (fun _ T => T = U.kept name? h) fun _ => False :=
      leads_keep
    cases hr : (keep name? h).run ctx U with
    | ok u T =>
      rw [hl.ok hr]
    | error e T => exact (hl.error hr).elim
  have hst : (S.kept name? h).store = S.store := by cases name? <;> rfl
  refine touches_ok (a := ()) (T := S.kept name? h) (fun m => ?_) hst
  rw [hkeep, setMemory_kept]

/-- What goes on in the same way with any memory. -/
theorem touches_get {f : Session → Turn β} (hf : ∀ m, f (S.setMemory m) = f S)
    (h : (f S).Touches ctx S) : ((get : Turn Session) >>= f).Touches ctx S := by
  have hrun : ∀ m, ((get : Turn Session) >>= f).run ctx (S.setMemory m) =
      (f S).run ctx (S.setMemory m) := fun m => by
    rw [run_bind, run_get]
    simp only [hf]
  constructor
  · intro m hm a T hr
    rw [hrun]
    exact h.ok m hm a T ((hrun S.store.memory).symm.trans hr)
  · intro m hm e T hr
    rw [hrun]
    exact h.error m hm e T ((hrun S.store.memory).symm.trans hr)

end Turn
end ScopedMemory
