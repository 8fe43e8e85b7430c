import ScopedMemory.Store

namespace ScopedMemory

structure Context where
  caller : Thread
  system : SystemAllocator

/-- A computation on the store. What it did before it failed stays done. -/
abbrev Operation := ReaderT Context (EStateM MemoryError Store)

namespace Operation

def run {α : Type} (x : Operation α) (ctx : Context) (σ : Store) :
    EStateM.Result MemoryError Store α :=
  x ctx σ

@[simp] theorem run_pure {α : Type} (a : α) (ctx : Context) (σ : Store) :
    (pure a : Operation α).run ctx σ = .ok a σ := rfl

@[simp] theorem run_bind {α β : Type} (x : Operation α) (f : α → Operation β) (ctx : Context)
    (σ : Store) :
    (x >>= f).run ctx σ =
      match x.run ctx σ with
      | .ok a σ' => (f a).run ctx σ'
      | .error e σ' => .error e σ' := by
  simp only [run, bind, ReaderT.bind, EStateM.bind]
  cases x ctx σ <;> rfl

@[simp] theorem run_map {α β : Type} (g : α → β) (x : Operation α) (ctx : Context) (σ : Store) :
    (g <$> x).run ctx σ =
      match x.run ctx σ with
      | .ok a σ' => .ok (g a) σ'
      | .error e σ' => .error e σ' := by
  simp only [run, Functor.map, EStateM.map]
  cases x ctx σ <;> rfl

@[simp] theorem run_throw {α : Type} (e : MemoryError) (ctx : Context) (σ : Store) :
    (throw e : Operation α).run ctx σ = .error e σ := rfl

@[simp] theorem run_get (ctx : Context) (σ : Store) :
    (get : Operation Store).run ctx σ = .ok σ σ := rfl

@[simp] theorem run_set (ctx : Context) (σ τ : Store) :
    (set τ : Operation PUnit).run ctx σ = .ok ⟨⟩ τ := rfl

@[simp] theorem run_modify (f : Store → Store) (ctx : Context) (σ : Store) :
    (modify f : Operation PUnit).run ctx σ = .ok ⟨⟩ (f σ) := rfl

@[simp] theorem run_read (ctx : Context) (σ : Store) :
    (read : Operation Context).run ctx σ = .ok ctx σ := rfl

@[simp] theorem run_ite {α : Type} (c : Prop) [Decidable c] (x y : Operation α) (ctx : Context)
    (σ : Store) : (if c then x else y).run ctx σ = if c then x.run ctx σ else y.run ctx σ := by
  split <;> rfl

/-- Goes on with the value of a check, or fails as it did. -/
def require {α : Type} : Except MemoryError α → Operation α
  | .ok a => fun _ σ => .ok a σ
  | .error e => fun _ σ => .error e σ

@[simp] theorem run_require_ok {α : Type} (a : α) (ctx : Context) (σ : Store) :
    (require (.ok a)).run ctx σ = .ok a σ := rfl

@[simp] theorem run_require_error {α : Type} (e : MemoryError) (ctx : Context) (σ : Store) :
    (require (.error e) : Operation α).run ctx σ = .error e σ := rfl

def caller : Operation Thread := do return (← read).caller

@[simp] theorem run_caller (ctx : Context) (σ : Store) :
    caller.run ctx σ = .ok ctx.caller σ := rfl

def checkOwner (s : ScopeId) : Operation Unit := do
  require ((← get).checkOwner (← caller) s)

def checkUsable (s : ScopeId) : Operation Unit := do
  require ((← get).checkUsable (← caller) s)

@[simp] theorem run_checkOwner (s : ScopeId) (ctx : Context) (σ : Store) :
    (checkOwner s).run ctx σ = (require (σ.checkOwner ctx.caller s)).run ctx σ := rfl

@[simp] theorem run_checkUsable (s : ScopeId) (ctx : Context) (σ : Store) :
    (checkUsable s).run ctx σ = (require (σ.checkUsable ctx.caller s)).run ctx σ := rfl

/-- Holds the scope open while `body` runs, however it ends. -/
def pinned {α : Type} (s : ScopeId) (body : Operation α) : Operation α := fun ctx σ =>
  match σ.checkUsable ctx.caller s with
  | .error e => .error e σ
  | .ok _ =>
    match body ctx (σ.pin s) with
    | .ok a σ' => .ok a (σ'.unpin s)
    | .error e σ' => .error e (σ'.unpin s)

theorem run_pinned {α : Type} (s : ScopeId) (body : Operation α) (ctx : Context) (σ : Store) :
    (pinned s body).run ctx σ =
      match σ.checkUsable ctx.caller s with
      | .error e => .error e σ
      | .ok _ =>
        match body.run ctx (σ.pin s) with
        | .ok a σ' => .ok a (σ'.unpin s)
        | .error e σ' => .error e (σ'.unpin s) := rfl

def attempt {α : Type} (x : Operation α) : Operation (Except MemoryError α) := fun ctx σ =>
  match x ctx σ with
  | .ok a σ' => .ok (.ok a) σ'
  | .error e σ' => .ok (.error e) σ'

def asThread {α : Type} (t : Thread) (x : Operation α) : Operation α := fun ctx σ =>
  x { ctx with caller := t } σ

end Operation
end ScopedMemory
