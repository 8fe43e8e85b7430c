import Mathlib.Logic.Relation
import ScopedMemory.Proofs.Lifetime.Keep
import ScopedMemory.Proofs.Lifetime.Table

namespace ScopedMemory

namespace Handle

def IsGuard : Handle → Prop
  | guard _ => True
  | _ => False

/-- What the handle refers to can be reached. -/
structure Rooted (h : Handle) (σ : Store) : Prop where
  scopes : ∀ s ∈ h.scopes σ, σ.Holds s
  arena : ∀ a, h.arena? = some a → a < σ.arenas.length

/-- A handle that holds no scope open. -/
structure Plain (h : Handle) (σ : Store) : Prop extends h.Rooted σ where
  unguarded : ¬ h.IsGuard

variable {σ τ : Store} {h : Handle}

theorem scopes_keeps (ha : ∀ a, h.arena? = some a → a < σ.arenas.length) (hk : σ.Keeps τ) :
    h.scopes τ = h.scopes σ := by
  cases h with
  | arena a _ => simp only [scopes, hk.arenaScope a (ha a rfl)]
  | allocator w =>
    cases w with
    | arena a => simp only [scopes, allocatorScopes, hk.arenaScope a (ha a rfl)]
    | _ => rfl
  | _ => rfl

/-- A handle of one scope and of no arena. -/
theorem plain_of_scope {s : ScopeId} (hs : h.scopes σ = [s]) (ha : h.arena? = none)
    (hg : ¬ h.IsGuard) (hh : σ.Holds s) : h.Plain σ where
  scopes t ht := by
    rw [hs] at ht
    obtain rfl := List.mem_singleton.mp ht
    exact hh
  arena a he := by
    rw [ha] at he
    cases he
  unguarded := hg

end Handle

namespace Session

/-- One thing that a call does to a session. Only calls that govern how long scopes live put a guard
on one or close one. -/
inductive Edit (governs : Prop) : Session → Session → Prop
  | store {S τ} (h : S.store.Keeps τ) : Edit governs S { S with store := τ }
  | renamed {S} (name : Name) {h : Handle} (hp : h.Plain S.store) :
    Edit governs S (S.renamed name h)
  | discarded {S} {h : Handle} (hp : h.Plain S.store) :
    Edit governs S { S with chores := S.chores ++ h.dropChores S.store }
  | lost {S} (name : Name) : Edit governs S (S.lost name)
  /-- The handle refers to more scopes from now on. -/
  | updated {S name old h} (hf : S.handles.find? name = some old) (ho : ¬ old.IsGuard)
    (hp : h.Plain S.store) (hs : ∀ s ∈ old.scopes S.store, s ∈ h.scopes S.store) :
    Edit governs S { S with handles := S.handles.put name h }
  | acquired {S s} (hg : governs) (name : Name) (ha : S.store.IsAlive s) :
    Edit governs S ({ S with store := S.store.pin s }.renamed name (.guard s))
  /-- What a scope leaves to be done comes at some place among the other chores. -/
  | closed {S s before after} (hg : governs) (hc : S.chores = before ++ after)
    (hl : (S.store.scope s).lifetime = .live 0) (hk : (S.store.scope s).kind ≠ .global) :
    Edit governs S
      { S with
        store := S.store.endScope s .closed
        chores := before ++ (S.store.holdings s).chores ++ after }
  | accepted {S s a} (ha : S.store.IsAlive s) (ht : ∀ u, a.target? = some u → S.store.Holds u) :
    Edit governs S { S with store := S.store.addAction s a }

def Edits (governs : Prop) : Session → Session → Prop := Relation.ReflTransGen (Edit governs)

variable {governs : Prop} {S T U : Session}

theorem Edits.refl (S : Session) : S.Edits governs S := Relation.ReflTransGen.refl

theorem Edits.trans (h : S.Edits governs T) (h' : T.Edits governs U) : S.Edits governs U :=
  Relation.ReflTransGen.trans h h'

theorem Edit.edits (h : S.Edit governs T) : S.Edits governs T := Relation.ReflTransGen.single h

/-- All that names stand for can be reached, and so can the global scope. -/
structure Rooted (S : Session) : Prop where
  handles : ∀ p ∈ S.handles, p.2.Rooted S.store
  global : S.store.Holds 0

theorem Rooted.find (hS : S.Rooted) {name : Name} {h : Handle}
    (hf : S.handles.find? name = some h) : h.Rooted S.store :=
  hS.handles _ (HandleTable.mem_of_find? hf)

theorem Rooted.of_scope? (hS : S.Rooted) {name : Name} {s : ScopeId}
    (hf : S.scope? name = some s) : S.store.Holds s := by
  unfold scope? at hf
  split at hf
  next hn =>
    cases hf
    exact (hS.find hn).scopes s (List.mem_singleton.mpr rfl)
  next => cases hf

theorem Rooted.of_region? (hS : S.Rooted) {name : Name} {p : Region × Bool}
    (hf : S.region? name = some p) : S.store.Holds p.1.scope := by
  unfold region? at hf
  split at hf
  next hn =>
    cases hf
    exact (hS.find hn).scopes _ (List.mem_singleton.mpr rfl)
  next => cases hf

theorem find?_of_builder? {name : Name} {b : VariadicBuilder} (hf : S.builder? name = some b) :
    S.handles.find? name = some (.builder b) := by
  unfold builder? at hf
  split at hf
  next hn =>
    cases hf
    exact hn
  next => cases hf

theorem find?_of_list? {name : Name} {v : VariadicList} (hf : S.list? name = some v) :
    S.handles.find? name = some (.list v) := by
  unfold list? at hf
  split at hf
  next hn =>
    cases hf
    exact hn
  next => cases hf

theorem Rooted.of_list? (hS : S.Rooted) {name : Name} {v : VariadicList}
    (hf : S.list? name = some v) : S.store.Holds v.scope :=
  (hS.find (find?_of_list? hf)).scopes _ (List.mem_singleton.mpr rfl)

end Session

/-! ### Turns that edit a session -/

namespace Turn

variable {α β : Type} {x : Turn α} {f : α → Turn β} {ctx : Context} {governs : Prop}
  {S : Session} {P P' : α → Session → Prop} {R : β → Session → Prop}

/-- However the turn ends, it has done such edits. If it is not refused, `P` holds as well. -/
def Edits (x : Turn α) (governs : Prop) (ctx : Context) (S : Session) (P : α → Session → Prop) :
    Prop :=
  x.Leads ctx S (fun a T => S.Edits governs T ∧ P a T) (S.Edits governs)

theorem Edits.bind (hx : x.Edits governs ctx S P)
    (hf : ∀ a T, P a T → (f a).Edits governs ctx T R) : (x >>= f).Edits governs ctx S R := by
  refine Leads.bind hx fun a T h => ?_
  obtain ⟨he, hp⟩ := h
  exact (hf a T hp).imp (fun b U h => ⟨he.trans h.1, h.2⟩) fun U h => he.trans h

theorem edits_pure {a : α} (h : P a S) : (pure a : Turn α).Edits governs ctx S P :=
  leads_pure ⟨.refl S, h⟩

theorem edits_throw (e : Refusal) : (throw e : Turn α).Edits governs ctx S P :=
  leads_throw (.refl S)

theorem edits_bind_find {lookup : Session → Name → Option α} {name : Name}
    (hf : ∀ a, lookup S name = some a → (f a).Edits governs ctx S R) :
    (find lookup name >>= f).Edits governs ctx S R :=
  leads_bind_find (.refl S) hf

theorem edits_bind_get {f : Session → Turn β} (hf : (f S).Edits governs ctx S R) :
    ((get : Turn Session) >>= f).Edits governs ctx S R :=
  (leads_get (P := fun S' T => S' = S ∧ T = S) ⟨rfl, rfl⟩).bind fun S' T h => by
    obtain ⟨rfl, rfl⟩ := h
    exact hf

theorem edits_bind_read {f : Context → Turn β} (hf : (f ctx).Edits governs ctx S R) :
    ((read : Turn Context) >>= f).Edits governs ctx S R :=
  (leads_read (P := fun c T => c = ctx ∧ T = S) ⟨rfl, rfl⟩).bind fun c T h => by
    obtain ⟨rfl, rfl⟩ := h
    exact hf

/-- An operation that keeps the store is one edit. -/
theorem edits_lift {x : Operation α} {P : α → Store → Prop} (hx : x.Keeps ctx S.store P) :
    (lift x).Edits governs ctx S fun a T =>
      ∃ τ, S.store.Keeps τ ∧ P a τ ∧ T = { S with store := τ } := by
  refine (leads_lift hx).imp (fun a T h => ?_) fun T h => ?_
  · obtain ⟨τ, ⟨hk, hp⟩, rfl⟩ := h
    exact ⟨(Session.Edit.store hk).edits, τ, hk, hp, rfl⟩
  · obtain ⟨τ, hk, rfl⟩ := h
    exact (Session.Edit.store hk).edits

theorem edits_lose (name : Name) : (lose name).Edits governs ctx S fun _ T => T = S.lost name :=
  leads_lose.imp (fun _ _ h => ⟨h ▸ (Session.Edit.lost name).edits, h⟩) fun _ h => h.elim

theorem edits_bind_claim {lookup : Session → Name → Option α} {name : Name}
    (hf : ∀ a, lookup S name = some a → (f a).Edits governs ctx S R) :
    (claim lookup name >>= f).Edits governs ctx S R := by
  refine leads_claim.chain (fun T hT => ?_) fun a T hT => ?_
  · rw [hT.2]
    exact (Session.Edit.lost name).edits
  · rw [hT.2]
    exact hf a hT.1

theorem edits_rename (name : Name) {h : Handle} (hp : h.Plain S.store) :
    (rename name h).Edits governs ctx S fun _ _ => True :=
  leads_rename.imp (fun _ _ hT => ⟨hT ▸ (Session.Edit.renamed name hp).edits, trivial⟩)
    fun _ h => h.elim

theorem edits_update {name : Name} {old h : Handle} (hf : S.handles.find? name = some old)
    (ho : ¬ old.IsGuard) (hp : h.Plain S.store)
    (hs : ∀ s ∈ old.scopes S.store, s ∈ h.scopes S.store) :
    (update name h).Edits governs ctx S fun _ T =>
      T = { S with handles := S.handles.put name h } :=
  leads_update.imp (fun _ _ hT => ⟨hT ▸ (Session.Edit.updated hf ho hp hs).edits, hT⟩)
    fun _ h => h.elim

theorem edits_keep (name? : Option Name) {h : Handle} (hp : h.Plain S.store) :
    (keep name? h).Edits governs ctx S fun _ _ => True := by
  cases name? with
  | none =>
    refine leads_discard.imp (fun _ T hT => ⟨?_, trivial⟩) fun _ h => h.elim
    rw [hT]
    exact (Session.Edit.discarded hp).edits
  | some name => exact edits_rename name hp

theorem edits_keepRegion (name? : Option Name) (adopted : Bool) {r : Region}
    (hr : S.store.Holds r.scope) :
    (keepRegion name? adopted r).Edits governs ctx S fun _ _ => True := by
  refine edits_bind_get ?_
  have hp : (Handle.region r adopted).Plain S.store := Handle.plain_of_scope rfl rfl id hr
  exact (edits_keep name? hp).bind fun _ _ _ => edits_pure trivial

theorem edits_keepHandle (name : Name) {h : Handle} (hp : h.Plain S.store) :
    (keepHandle name h).Edits governs ctx S fun _ _ => True :=
  leads_keepHandle.imp (fun _ _ hT => ⟨hT.2 ▸ (Session.Edit.renamed name hp).edits, trivial⟩)
    fun _ h => h.elim

theorem edits_keepList (name : Name) {v : VariadicList} (hv : S.store.Holds v.scope) :
    (keepList name v).Edits governs ctx S fun _ _ => True :=
  (edits_rename name (Handle.plain_of_scope rfl rfl id hv)).bind fun _ _ _ => edits_pure trivial

/-- An allocation, and the region that it hands out kept. -/
theorem edits_provide (name? : Option Name) {x : Operation Region} (hx : x.Provides ctx S.store) :
    (do keepRegion name? false (← lift x) : Turn Reply).Edits governs ctx S fun _ _ => True := by
  refine (edits_lift hx).bind fun r T hT => ?_
  obtain ⟨τ, _, hr, rfl⟩ := hT
  exact edits_keepRegion name? false hr.holds

/-- A look at memory or a change of it. -/
theorem edits_access {x : Operation α} (reply : α → Reply)
    (hx : x.Leads ctx S.store (fun _ τ => ∃ m, τ = S.store.setMemory m) (· = S.store)) :
    (do return reply (← lift x) : Turn Reply).Edits governs ctx S fun _ _ => True := by
  have hk : x.Keeps ctx S.store fun _ _ => True :=
    Operation.keeps_of_memory (hx.imp (fun _ _ h => ⟨trivial, h⟩) fun _ h => h)
  exact (edits_lift hk).bind fun _ _ _ => edits_pure trivial

end Turn
end ScopedMemory
