import ScopedMemory.Operation

namespace ScopedMemory

/-- What a scope gives back at its end. -/
structure Holdings where
  actions : List PendingAction
  blocks : List Block
deriving DecidableEq, Repr

namespace Store

/-- The scope ends and keeps nothing. -/
def endScope (σ : Store) (s : ScopeId) (l : Lifetime) : Store :=
  σ.modifyScope s fun sc => { sc with lifetime := l, blocks := [], actions := [] }

def holdings (σ : Store) (s : ScopeId) : Holdings := ⟨(σ.scope s).actions, (σ.scope s).blocks⟩

def addScope (σ : Store) (kind : ScopeKind) (creator : Thread) : Store :=
  { σ with scopes := σ.scopes ++ [⟨kind, creator, .live 0, [], []⟩] }

/-- The action becomes the newest of the scope, under a number of its own. -/
def addAction (σ : Store) (s : ScopeId) (a : CloseAction) : Store :=
  let σ' := σ.modifyScope s fun sc => { sc with actions := ⟨σ.tickets, a⟩ :: sc.actions }
  { σ' with
    journal := .accepted s σ.tickets :: σ'.journal
    tickets := σ.tickets + 1 }

def poolOf (σ : Store) (s : ScopeId) : Pool :=
  if (σ.scope s).kind = .global then .global else .native

/-- A block for the scope, all zero. -/
def addBlock (σ : Store) (s : ScopeId) (b : Block) : Store :=
  let σ' := σ.modifyScope s fun sc => { sc with blocks := b :: sc.blocks }
  { σ' with
    memory := σ.memory.fill b.base.toNat b.size.toNat 0
    events := .placed (σ.poolOf s) b :: σ.events }

def freeBlocks (σ : Store) (bs : List Block) : Store :=
  { σ with events := bs.map .freed ++ σ.events }

end Store

namespace ScopeId

open Operation

/-- There is only one global scope; any other kind makes a new scope for the caller. -/
def create (kind : ScopeKind) : Operation ScopeId := do
  if kind = .global then return 0
  let σ ← get
  set (σ.addScope kind (← caller))
  return σ.scopes.length

/-- Ends a scope that no guard holds open. The actions have yet to be run, newest first, and then
the blocks freed. -/
def close (s : ScopeId) : Operation Holdings := do
  checkOwner s
  let σ ← get
  match (σ.scope s).kind, (σ.scope s).lifetime with
  | .implicit, _ | .global, _ => throw (.scopeNotClosable s)
  | _, .live 0 =>
    set (σ.endScope s .closed)
    return σ.holdings s
  | _, .live guards => throw (.scopeAcquired s guards)
  | _, _ => throw (.alreadyClosed s)

def addAction (s : ScopeId) (a : CloseAction) : Operation Unit := do
  checkUsable s
  modify (·.addAction s a)

/-- Puts a guard on the scope. -/
def acquire (s : ScopeId) : Operation Unit := do
  checkUsable s
  modify (·.pin s)

/-- A block of its own in the scope. -/
def allocateNative (s : ScopeId) (size align : Word) : Operation Region := do
  checkUsable s
  if ¬ align.IsPowerOfTwo then throw (.badAlignment align)
  let σ ← get
  match (← read).system.request σ.events (σ.poolOf s) size align with
  | none => throw (.outOfMemory size 0)
  | some base =>
    set (σ.addBlock s ⟨base, size⟩)
    return ⟨base, size, s⟩

/-- The range as a region, if it lies inside a block of the scope. -/
def resolve (s : ScopeId) (start length : Word) : Operation (Option Region) := do
  checkUsable s
  if ((← get).scope s).Owns start length then return some ⟨start, length, s⟩ else return none

end ScopeId
end ScopedMemory
