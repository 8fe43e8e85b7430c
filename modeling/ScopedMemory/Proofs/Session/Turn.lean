import ScopedMemory.Proofs.Operation
import ScopedMemory.Session.Reply

namespace ScopedMemory

def Session.renamed (S : Session) (name : Name) (h : Handle) : Session :=
  { S with
    handles := S.handles.put name h
    chores := S.chores ++ (match S.handles.find? name with
      | some old => old.dropChores S.store
      | none => []) }

/-- The session after the handle has been kept under the name, or has gone. -/
def Session.kept (S : Session) (name? : Option Name) (h : Handle) : Session :=
  match name? with
  | some name => S.renamed name h
  | none => { S with chores := S.chores ++ h.dropChores S.store }

def Session.lost (S : Session) (name : Name) : Session :=
  match S.handles.find? name with
  | some h =>
    { S with handles := S.handles.erase name, chores := S.chores ++ h.dropChores S.store }
  | none => S

namespace Turn

variable {α β : Type} {x : Turn α} {f : α → Turn β} {ctx : Context} {S T : Session}
  {P P' : α → Session → Prop} {Q Q' : Session → Prop} {R : β → Session → Prop}

/-- From `S` the turn gives a value and a session with `P`, or is refused and leaves one
with `Q`. -/
def Leads (x : Turn α) (ctx : Context) (S : Session) (P : α → Session → Prop)
    (Q : Session → Prop) : Prop :=
  match x.run ctx S with
  | .ok a S' => P a S'
  | .error _ S' => Q S'

theorem Leads.ok (h : x.Leads ctx S P Q) {a : α} (hr : x.run ctx S = .ok a T) : P a T := by
  rwa [Leads, hr] at h

theorem Leads.error (h : x.Leads ctx S P Q) {e : Refusal} (hr : x.run ctx S = .error e T) :
    Q T := by
  rwa [Leads, hr] at h

theorem Leads.imp (h : x.Leads ctx S P Q) (hP : ∀ a T, P a T → P' a T) (hQ : ∀ T, Q T → Q' T) :
    x.Leads ctx S P' Q' := by
  unfold Leads at h ⊢
  split
  next hr => rw [hr] at h; exact hP _ _ h
  next hr => rw [hr] at h; exact hQ _ h

theorem Leads.bind (hx : x.Leads ctx S P Q) (hf : ∀ a T, P a T → (f a).Leads ctx T R Q) :
    (x >>= f).Leads ctx S R Q := by
  unfold Leads at hx
  rw [Leads, run_bind]
  cases hr : x.run ctx S with
  | ok a T =>
    rw [hr] at hx
    exact hf a T hx
  | error e T =>
    rw [hr] at hx
    exact hx

/-- As `Leads.bind`, where the first part is refused in a way of its own. -/
theorem Leads.chain (hx : x.Leads ctx S P Q') (hQ : ∀ T, Q' T → Q T)
    (hf : ∀ a T, P a T → (f a).Leads ctx T R Q) : (x >>= f).Leads ctx S R Q :=
  (hx.imp (fun _ _ h => h) hQ).bind hf

theorem leads_pure {a : α} (h : P a S) : (pure a : Turn α).Leads ctx S P Q := h

theorem leads_throw {e : Refusal} (h : Q S) : (throw e : Turn α).Leads ctx S P Q := h

theorem leads_get {P : Session → Session → Prop} (h : P S S) :
    (get : Turn Session).Leads ctx S P Q := h

theorem leads_read {P : Context → Session → Prop} (h : P ctx S) :
    (read : Turn Context).Leads ctx S P Q := h

theorem leads_lift {x : Operation α} {P : α → Store → Prop} {Q : Store → Prop}
    (h : x.Leads ctx S.store P Q) :
    (lift x).Leads ctx S (fun a T => ∃ τ, P a τ ∧ T = { S with store := τ })
      fun T => ∃ τ, Q τ ∧ T = { S with store := τ } := by
  unfold Leads
  rw [run_lift]
  unfold Operation.Leads at h
  cases hr : x.run ctx S.store with
  | ok a τ =>
    rw [hr] at h
    exact ⟨τ, h, rfl⟩
  | error e τ =>
    rw [hr] at h
    exact ⟨τ, h, rfl⟩

theorem leads_lookup {lookup : Session → Name → Option α} {name : Name} :
    (find lookup name).Leads ctx S (fun a T => lookup S name = some a ∧ T = S)
      fun T => lookup S name = none ∧ T = S := by
  unfold Leads find
  cases h : lookup S name <;> simp [h]

theorem leads_find {lookup : Session → Name → Option α} {name : Name} :
    (find lookup name).Leads ctx S (fun a T => lookup S name = some a ∧ T = S) (· = S) :=
  leads_lookup.imp (fun _ _ h => h) fun _ h => h.2

/-- What a name stands for is known from then on. -/
theorem leads_bind_find {lookup : Session → Name → Option α} {name : Name} {f : α → Turn β}
    {P : β → Session → Prop} {Q : Session → Prop} (hQ : Q S)
    (hf : ∀ a, lookup S name = some a → (f a).Leads ctx S P Q) :
    (find lookup name >>= f).Leads ctx S P Q := by
  refine leads_find.chain (fun T hT => ?_) fun a T hT => ?_
  · rw [hT]
    exact hQ
  · rw [hT.2]
    exact hf a hT.1

theorem leads_leave {chores : List Chore} :
    (leave chores).Leads ctx S (fun _ T => T = { S with chores := S.chores ++ chores })
      fun _ => False := rfl

theorem leads_discard {h : Handle} :
    (discard h).Leads ctx S
      (fun _ T => T = { S with chores := S.chores ++ h.dropChores S.store }) fun _ => False := rfl

theorem leads_forget {name : Name} :
    (forget name).Leads ctx S (fun _ T => T = { S with handles := S.handles.erase name })
      fun _ => False := rfl

theorem leads_lose {name : Name} :
    (lose name).Leads ctx S (fun _ T => T = S.lost name) fun _ => False := by
  unfold Leads lose Session.lost
  cases h : S.handles.find? name with
  | none => simp [h]
  | some old => simp [h, forget, discard, leave]

theorem leads_claim {lookup : Session → Name → Option α} {name : Name} :
    (claim lookup name).Leads ctx S (fun a T => lookup S name = some a ∧ T = S)
      fun T => lookup S name = none ∧ T = S.lost name := by
  unfold claim
  refine (leads_get (P := fun S' T => S' = S ∧ T = S) ⟨rfl, rfl⟩).bind ?_
  intro S' T h
  obtain ⟨rfl, rfl⟩ := h
  split
  next a ha => exact leads_pure ⟨ha, rfl⟩
  next hn =>
    exact leads_lose.chain (fun _ h => h.elim) fun _ T h => leads_throw ⟨hn, h⟩

theorem leads_rename {name : Name} {h : Handle} :
    (rename name h).Leads ctx S (fun _ T => T = S.renamed name h) fun _ => False := by
  unfold Leads rename Session.renamed
  cases hf : S.handles.find? name with
  | none => simp [hf]
  | some old => simp [hf, discard, leave]

theorem leads_update {name : Name} {h : Handle} :
    (update name h).Leads ctx S (fun _ T => T = { S with handles := S.handles.put name h })
      fun _ => False := rfl

theorem leads_keep {name? : Option Name} {h : Handle} :
    (keep name? h).Leads ctx S (fun _ T => T = S.kept name? h) fun _ => False := by
  cases name? with
  | none => rfl
  | some name => exact leads_rename

theorem leads_keepRegion {name? : Option Name} {adopted : Bool} {r : Region} :
    (keepRegion name? adopted r).Leads ctx S
      (fun reply T => reply = .region (S.store.viewRegion r) ∧ T = S.kept name? (.region r adopted))
      fun _ => False := by
  refine (leads_get (P := fun S' T => S' = S ∧ T = S) ⟨rfl, rfl⟩).bind ?_
  intro S' T h
  obtain ⟨rfl, rfl⟩ := h
  exact leads_keep.bind fun _ T h => leads_pure ⟨rfl, h⟩

theorem leads_keepHandle {name : Name} {h : Handle} :
    (keepHandle name h).Leads ctx S
      (fun reply T => reply = .handle (h.view S.store ctx.caller) ∧ T = S.renamed name h)
      fun _ => False := by
  refine (leads_get (P := fun S' T => S' = S ∧ T = S) ⟨rfl, rfl⟩).bind ?_
  intro S' T h
  obtain ⟨rfl, rfl⟩ := h
  refine (leads_read (P := fun c T => c = ctx ∧ T = _) ⟨rfl, rfl⟩).bind ?_
  intro c T h
  obtain ⟨rfl, rfl⟩ := h
  exact leads_rename.bind fun _ T h => leads_pure ⟨rfl, h⟩

theorem leads_keepList {name : Name} {v : VariadicList} :
    (keepList name v).Leads ctx S
      (fun reply T => reply = .list v.view ∧ T = S.renamed name (.list v)) fun _ => False :=
  leads_rename.bind fun _ _ h => leads_pure ⟨rfl, h⟩

end Turn
end ScopedMemory
