import ScopedMemory.Heap.Basic
import ScopedMemory.Region.Basic

namespace ScopedMemory

/-- Threads are numbered. -/
abbrev Thread := Nat

/-- Who may use a scope, and when it ends. -/
inductive ScopeKind where
  /-- Used and closed by the thread that created it. -/
  | confined
  /-- Used and closed by any thread. -/
  | shared
  /-- Used by any thread, ends when nothing refers to it. -/
  | implicit
  /-- Used by any thread, never ends. -/
  | global
deriving DecidableEq, Repr

def ScopeKind.name : ScopeKind → String
  | confined => "Confined"
  | shared => "Shared"
  | implicit => "Implicit"
  | global => "Global"

inductive Lifetime where
  /-- In use, and held open by so many guards. -/
  | live (guards : Nat)
  | closed
  /-- Never closed, but nothing refers to it any more. -/
  | reclaimed
deriving DecidableEq, Repr

/-- What can be left for the end of a scope. Every target is kept from ending until the action has
run. -/
inductive CloseAction where
  | say (label : String)
  /-- Reports on the target. -/
  | probe (label : String) (target : ScopeId)
  | close (label : String) (target : ScopeId)
  /-- Leaves a saying for the end of the target. -/
  | extend (label : String) (target : ScopeId)
  | fill (label : String) (target : Region)
  /-- Lets go of the target. -/
  | hold (label : String) (target : ScopeId)
deriving DecidableEq, Repr

/-- The scope that the action refers to. -/
def CloseAction.target? : CloseAction → Option ScopeId
  | say _ => none
  | probe _ s | close _ s | extend _ s | hold _ s => some s
  | fill _ r => some r.scope

/-- An accepted action under the number it was accepted with. -/
structure PendingAction where
  ticket : Nat
  action : CloseAction
deriving DecidableEq, Repr

/-- Blocks and actions are listed newest first. -/
structure Scope where
  kind : ScopeKind
  creator : Thread
  lifetime : Lifetime := .live 0
  blocks : List Block := []
  actions : List PendingAction := []
deriving DecidableEq, Repr

namespace Scope

/-- The one thread that may use the scope, if it is confined. -/
def owner? (sc : Scope) : Option Thread :=
  if sc.kind = .confined then some sc.creator else none

def isAlive (sc : Scope) : Bool := sc.lifetime matches .live _

def blockCount (sc : Scope) : Nat := sc.blocks.length

/-- The bytes of all blocks. -/
def memoryBytes (sc : Scope) : Word := sc.blocks.foldr (fun b n => b.size + n) 0

/-- The block with the greatest base that is not above `start`. -/
def blockBelow (sc : Scope) (start : Word) : Option Block :=
  (sc.blocks.filter (·.base ≤ start)).foldl (fun best b =>
    match best with
    | some a => if a.base ≤ b.base then some b else some a
    | none => some b) none

/-- Looks at one block only: two blocks never share a byte. -/
def Owns (sc : Scope) (start length : Word) : Prop :=
  ∃ b, sc.blockBelow start = some b ∧ b.Contains start length

instance (sc : Scope) (start length : Word) : Decidable (sc.Owns start length) :=
  match h : sc.blockBelow start with
  | none => isFalse fun ⟨_, hb, _⟩ => by rw [h] at hb; cases hb
  | some b =>
    if hc : b.Contains start length then isTrue ⟨b, h, hc⟩
    else isFalse fun ⟨_, hb, hc'⟩ => by rw [h] at hb; cases hb; exact hc hc'

end Scope
end ScopedMemory
