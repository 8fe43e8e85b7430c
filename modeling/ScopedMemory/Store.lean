import ScopedMemory.Arena.Basic
import ScopedMemory.Memory
import ScopedMemory.Scope.Basic

namespace ScopedMemory

/-- What is known about the actions left for the ends of scopes. -/
inductive JournalEntry where
  | accepted (scope : ScopeId) (ticket : Nat)
  | began (ticket : Nat)
  | line (text : String)
  | ended (ticket : Nat)
deriving DecidableEq, Repr

/-- All scopes and arenas by their numbers, and all memory. The lists of events and of journal
entries are newest first. -/
structure Store where
  scopes : List Scope
  arenas : List Arena
  memory : Memory
  events : List HeapEvent
  journal : List JournalEntry
  tickets : Nat

namespace Store

def initial : Store where
  scopes := [⟨.global, 0, .live 0, [], []⟩]
  arenas := []
  memory := .blank
  events := []
  journal := []
  tickets := 0

/-- A number that no scope has reads as a scope that is closed. -/
def scope (σ : Store) (s : ScopeId) : Scope :=
  σ.scopes.getD s ⟨.shared, 0, .closed, [], []⟩

def modifyScope (σ : Store) (s : ScopeId) (f : Scope → Scope) : Store :=
  { σ with scopes := σ.scopes.modify s f }

def setLifetime (σ : Store) (s : ScopeId) (l : Lifetime) : Store :=
  σ.modifyScope s fun sc => { sc with lifetime := l }

def note (σ : Store) (e : JournalEntry) : Store := { σ with journal := e :: σ.journal }

def setMemory (σ : Store) (m : Memory) : Store := { σ with memory := m }

/-- A confined scope refuses every thread but its owner. -/
def checkOwner (σ : Store) (caller : Thread) (s : ScopeId) : Except MemoryError Unit :=
  match (σ.scope s).owner? with
  | some owner => if owner = caller then .ok () else .error (.wrongThread s)
  | none => .ok ()

/-- Ownership comes before liveness. -/
def checkUsable (σ : Store) (caller : Thread) (s : ScopeId) : Except MemoryError Unit := do
  σ.checkOwner caller s
  if (σ.scope s).isAlive then .ok () else .error (.alreadyClosed s)

def guards (σ : Store) (s : ScopeId) : Nat :=
  match (σ.scope s).lifetime with
  | .live n => n
  | _ => 0

def pin (σ : Store) (s : ScopeId) : Store := σ.setLifetime s (.live (σ.guards s + 1))

def unpin (σ : Store) (s : ScopeId) : Store :=
  if (σ.scope s).isAlive then σ.setLifetime s (.live (σ.guards s - 1)) else σ

end Store

end ScopedMemory
