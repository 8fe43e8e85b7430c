import ScopedMemory.Region.Access
import ScopedMemory.Scope.Operations
import ScopedMemory.Total

namespace ScopedMemory

/-- One thing that is left to do while scopes end. -/
inductive Chore where
  | perform (pending : PendingAction)
  | finish (ticket : Nat)
  | write (line : String)
  /-- Gives up one reference to a scope. -/
  | letGo (scope : ScopeId)
  /-- Takes one guard off a scope. -/
  | unguard (scope : ScopeId)
  | free (blocks : List Block)
deriving DecidableEq, Repr

/-- A chore that is not done yet still refers to its scope. -/
def Chore.target? : Chore → Option ScopeId
  | perform p => p.action.target?
  | letGo s => some s
  | finish _ | write _ | unguard _ | free _ => none

/-- The actions run newest first, and only then the blocks are freed. -/
def Holdings.chores (h : Holdings) : List Chore := h.actions.map .perform ++ [.free h.blocks]

/-- The scopes that some action left for the end of a scope refers to. -/
def Store.actionTargets (σ : Store) : List ScopeId :=
  σ.scopes.flatMap fun sc => sc.actions.filterMap (·.action.target?)

/-- The scope is kept by one of the `roots`, by a chore, by an action or by being global. -/
def Store.IsReferred (σ : Store) (roots : List ScopeId) (chores : List Chore) (s : ScopeId) :
    Prop :=
  s ∈ roots ∨ s ∈ chores.filterMap Chore.target? ∨ s ∈ σ.actionTargets ∨
    (σ.scope s).kind = .global

instance (σ : Store) (roots : List ScopeId) (chores : List Chore) (s : ScopeId) :
    Decidable (σ.IsReferred roots chores s) := inferInstanceAs (Decidable (_ ∨ _ ∨ _ ∨ _))

/-- Runs the action up to its first effect on other scopes. What it still has to do comes back as
chores, and its own reference is the last but one of them to go. -/
def CloseAction.unfold (ctx : Context) (σ : Store) : CloseAction → Store × List Chore
  | say label => (σ, [.write label])
  | probe label s =>
    let alive := (σ.scope s).isAlive
    let blocks := (σ.scope s).blockCount
    (σ, [.write s!"{label} alive={alive} blocks={blocks}", .letGo s])
  | close label s =>
    match (ScopeId.close s).run ctx σ with
    | .ok held σ' => (σ', held.chores ++ [.write s!"{label} close=ok", .letGo s])
    | .error e σ' =>
      let fault := e.name
      (σ', [.write s!"{label} close={fault}", .letGo s])
  | extend label s =>
    match (ScopeId.addAction s (.say (label ++ "\x27"))).run ctx σ with
    | .ok _ σ' => (σ', [.write s!"{label} add=ok", .letGo s])
    | .error e σ' =>
      let fault := e.name
      (σ', [.write s!"{label} add={fault}", .letGo s])
  | fill label r =>
    match (r.fill 0xee).run ctx σ with
    | .ok _ σ' => (σ', [.write s!"{label} fill=ok", .letGo r.scope])
    | .error e σ' =>
      let fault := e.name
      (σ', [.write s!"{label} fill={fault}", .letGo r.scope])
  | hold label s => (σ, [.write label, .letGo s, .write s!"{label} released"])

namespace Chore

/-- Does one chore before the `rest`, and says what is left then. -/
def step (ctx : Context) (roots : List ScopeId) (σ : Store) (rest : List Chore) :
    Chore → Store × List Chore
  | perform p =>
    let (σ', more) := p.action.unfold ctx (σ.note (.began p.ticket))
    (σ', more ++ finish p.ticket :: rest)
  | finish ticket => (σ.note (.ended ticket), rest)
  | write text => (σ.note (.line text), rest)
  | letGo s =>
    if (σ.scope s).isAlive ∧ ¬ σ.IsReferred roots rest s then
      (σ.endScope s .reclaimed, (σ.holdings s).chores ++ rest)
    else (σ, rest)
  | unguard s => (σ.unpin s, rest)
  | free blocks => (σ.freeBlocks blocks, rest)

end Chore

/-- More than the weights of all that the action turns into. -/
def CloseAction.weight : CloseAction → Nat
  | say _ => 3
  | probe .. | close .. | fill .. => 4
  | hold .. => 5
  | extend .. => 7

def Chore.weight : Chore → Nat
  | perform p => p.action.weight
  | finish _ | write _ | letGo _ | unguard _ | free _ => 1

def Scope.weight (sc : Scope) : Nat :=
  (if sc.isAlive then 1 else 0) + total (·.action.weight) sc.actions

/-- Every step makes the weight of scopes and chores together smaller. -/
def Store.weight (σ : Store) (chores : List Chore) : Nat :=
  total Scope.weight σ.scopes + total Chore.weight chores

namespace Store

def doChores (ctx : Context) (roots : List ScopeId) : Nat → Store → List Chore → Store × List Chore
  | 0, σ, ts => (σ, ts)
  | _, σ, [] => (σ, [])
  | n + 1, σ, t :: ts =>
    let (σ', ts') := t.step ctx roots σ ts
    doChores ctx roots n σ' ts'

/-- Does all chores and all that come of them, while the `roots` stay referred to. The weight of the
store bounds the number of steps. -/
def unwind (ctx : Context) (roots : List ScopeId) (σ : Store) (chores : List Chore) : Store :=
  (doChores ctx roots (σ.weight chores) σ chores).1

end Store
end ScopedMemory
