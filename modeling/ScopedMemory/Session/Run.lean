import ScopedMemory.Session.Allocations
import ScopedMemory.Session.Regions
import ScopedMemory.Session.Scopes
import ScopedMemory.Session.Variadics

namespace ScopedMemory

inductive HandleCall where
  | info (name : Name)
  | drop (name : Name)
  | clone (name copy : Name)
  | describe (name : Name)
  /-- Claims the name for something that it does not stand for. -/
  | misuse (name : Name)
deriving DecidableEq, Repr

inductive Call where
  | handle (c : HandleCall)
  | scope (c : ScopeCall)
  | region (c : RegionCall)
  | allocation (c : AllocationCall)
  | variadic (c : VariadicCall)

namespace Session

def handle? (S : Session) (name : Name) : Option Handle := S.handles.find? name

def clonable? (S : Session) (name : Name) : Option Handle :=
  (S.handles.find? name).filter Handle.isClonable

def description? (S : Session) (name : Name) : Option String :=
  (S.handles.find? name).bind (·.describe? S.store)

end Session

open Turn in
def HandleCall.perform : HandleCall → Turn Reply
  | info name => do
    let h ← find Session.handle? name
    return .handle (h.view (← get).store (← read).caller)
  | drop name => do
    let h ← find Session.handle? name
    forget name
    discard h
    return .done
  | clone name copy => do
    rename copy (← find Session.clonable? name)
    return .done
  | describe name => return .text (← find Session.description? name)
  | misuse name => do
    lose name
    throw .noHandle

def Call.perform : Call → Turn Reply
  | handle c => c.perform
  | scope c => c.perform
  | region c => c.perform
  | allocation c => c.perform
  | variadic c => c.perform

/-- What a call answers and what the actions that it made run wrote. -/
structure Answer where
  outcome : Except Refusal Reply
  log : List String

/-- What can be seen of a handle at the end of a session. The contents of a short region that was
allocated here are shown too. -/
structure Closing where
  name : Name
  view : HandleView
  contents? : Option (Except MemoryError Bytes)

namespace Session

/-- The lines of the newest `count` entries, oldest first. -/
def linesOf (journal : List JournalEntry) (count : Nat) : List String :=
  (journal.take count).reverse.filterMap fun
    | .line text => some text
    | _ => none

/-- Does what the call left to be done. A new scope that nothing came to refer to ends with it. -/
def settle (S : Session) (ctx : Context) (firstNew : ScopeId) : Session :=
  let fresh := (List.range' firstNew (S.store.scopes.length - firstNew)).map Chore.letGo
  { S with
    store := S.store.unwind ctx S.roots (S.chores ++ fresh)
    chores := [] }

def step (system : SystemAllocator) (S : Session) (t : Thread) (c : Call) : Answer × Session :=
  let ctx : Context := ⟨t, system⟩
  let finish (outcome : Except Refusal Reply) (S' : Session) :=
    let done := S'.settle ctx S.store.scopes.length
    let written := done.store.journal.length - S.store.journal.length
    (⟨outcome, linesOf done.store.journal written⟩, done)
  match c.perform.run ctx S with
  | .ok reply S' => finish (.ok reply) S'
  | .error refusal S' => finish (.error refusal) S'

def run (system : SystemAllocator) (S : Session) : List (Thread × Call) → List Answer × Session
  | [] => ([], S)
  | (t, c) :: rest =>
    let (answer, S') := S.step system t c
    let (answers, final) := S'.run system rest
    (answer :: answers, final)

/-- The longest region whose contents are shown at the end. -/
def shownLimit : Word := 64

def closing (system : SystemAllocator) (S : Session) : List Closing :=
  S.handles.map fun (name, h) =>
    let shown : Option (Except MemoryError Bytes) :=
      match h with
      | .region r false =>
        if r.size ≤ shownLimit then
          match (r.read 0 r.size).run ⟨0, system⟩ S.store with
          | .ok bytes _ => some (.ok bytes)
          | .error e _ => some (.error e)
        else none
      | _ => none
    ⟨name, h.view S.store 0, shown⟩

/-- Drops all handles in the order of their names, and says what this made the actions write. -/
def finish (system : SystemAllocator) (S : Session) : List String × Session :=
  let (answers, final) := S.run system (S.handles.map fun (name, _) => (0, .handle (.drop name)))
  (answers.flatMap (·.log), final)

end Session
end ScopedMemory
