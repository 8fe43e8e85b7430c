import ScopedMemory.Session.Handle

namespace ScopedMemory

/-- A store and the names for what is in use of it. The chores are what a call leaves to be done at
its end. -/
structure Session where
  store : Store
  handles : HandleTable
  chores : List Chore := []

inductive Refusal where
  | memory (error : MemoryError)
  /-- The name stands for nothing, or for something of another sort. -/
  | noHandle
  /-- No buffer holds so many bytes. -/
  | tooLong
deriving DecidableEq, Repr

namespace Session

def initial : Session := { store := .initial, handles := [] }

def roots (S : Session) : List ScopeId := S.handles.flatMap (·.2.scopes S.store)

def scope? (S : Session) (name : Name) : Option ScopeId :=
  match S.handles.find? name with
  | some (.scope s) => some s
  | _ => none

/-- The region, and whether it is adopted. -/
def region? (S : Session) (name : Name) : Option (Region × Bool) :=
  match S.handles.find? name with
  | some (.region r adopted) => some (r, adopted)
  | _ => none

def allocator? (S : Session) (name : Name) : Option Allocator :=
  (S.handles.find? name).bind Handle.asAllocator?

/-- An arena that several threads may call at the same time. -/
def sharedArena? (S : Session) (name : Name) : Option ArenaId :=
  match S.handles.find? name with
  | some (.arena a .shared) => some a
  | _ => none

def builder? (S : Session) (name : Name) : Option VariadicBuilder :=
  match S.handles.find? name with
  | some (.builder b) => some b
  | _ => none

def list? (S : Session) (name : Name) : Option VariadicList :=
  match S.handles.find? name with
  | some (.list v) => some v
  | _ => none

def addressOf? (S : Session) (name : Name) : Option Word :=
  match S.handles.find? name with
  | some (.region r _) => some r.start
  | some (.list v) => some v.address
  | _ => none

end Session

/-- A computation on a session. What it did before it was refused stays done. -/
abbrev Turn := ReaderT Context (EStateM Refusal Session)

namespace Turn

def run {α : Type} (x : Turn α) (ctx : Context) (S : Session) :
    EStateM.Result Refusal Session α :=
  x ctx S

@[simp] theorem run_pure {α : Type} (a : α) (ctx : Context) (S : Session) :
    (pure a : Turn α).run ctx S = .ok a S := rfl

@[simp] theorem run_bind {α β : Type} (x : Turn α) (f : α → Turn β) (ctx : Context)
    (S : Session) :
    (x >>= f).run ctx S =
      match x.run ctx S with
      | .ok a S' => (f a).run ctx S'
      | .error e S' => .error e S' := by
  simp only [run, bind, ReaderT.bind, EStateM.bind]
  cases x ctx S <;> rfl

@[simp] theorem run_throw {α : Type} (e : Refusal) (ctx : Context) (S : Session) :
    (throw e : Turn α).run ctx S = .error e S := rfl

@[simp] theorem run_get (ctx : Context) (S : Session) :
    (get : Turn Session).run ctx S = .ok S S := rfl

@[simp] theorem run_modify (f : Session → Session) (ctx : Context) (S : Session) :
    (modify f : Turn PUnit).run ctx S = .ok ⟨⟩ (f S) := rfl

@[simp] theorem run_read (ctx : Context) (S : Session) :
    (read : Turn Context).run ctx S = .ok ctx S := rfl

def lift {α : Type} (x : Operation α) : Turn α := fun ctx S =>
  match x.run ctx S.store with
  | .ok a σ => .ok a { S with store := σ }
  | .error e σ => .error (.memory e) { S with store := σ }

@[simp] theorem run_lift {α : Type} (x : Operation α) (ctx : Context) (S : Session) :
    (lift x).run ctx S =
      match x.run ctx S.store with
      | .ok a σ => .ok a { S with store := σ }
      | .error e σ => .error (.memory e) { S with store := σ } := rfl

/-- What the name stands for, if it is of the right sort. -/
def find {α : Type} (lookup : Session → Name → Option α) (name : Name) : Turn α := do
  match lookup (← get) name with
  | some a => return a
  | none => throw .noHandle

def leave (chores : List Chore) : Turn Unit :=
  modify fun S => { S with chores := S.chores ++ chores }

def discard (h : Handle) : Turn Unit := do leave (h.dropChores (← get).store)

/-- Takes the name away from what it stands for. -/
def forget (name : Name) : Turn Unit :=
  modify fun S => { S with handles := S.handles.erase name }

/-- What the name stands for is not used any more, if it stands for anything. -/
def lose (name : Name) : Turn Unit := do
  match (← get).handles.find? name with
  | some h =>
    forget name
    discard h
  | none => return ()

/-- As `find`, for a call that takes the handle out of the table before it looks at its sort. A
handle of another sort is lost. -/
def claim {α : Type} (lookup : Session → Name → Option α) (name : Name) : Turn α := do
  match lookup (← get) name with
  | some a => return a
  | none =>
    lose name
    throw .noHandle

/-- Gives the name a new meaning. Its old one is not used any more. -/
def rename (name : Name) (h : Handle) : Turn Unit := do
  let old := (← get).handles.find? name
  modify fun S => { S with handles := S.handles.put name h }
  match old with
  | some old => discard old
  | none => return ()

def update (name : Name) (h : Handle) : Turn Unit :=
  modify fun S => { S with handles := S.handles.put name h }

/-- A result without a name is not used any more. -/
def keep (name? : Option Name) (h : Handle) : Turn Unit :=
  match name? with
  | some name => rename name h
  | none => discard h

end Turn
end ScopedMemory
