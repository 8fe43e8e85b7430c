import ScopedMemory.Session.Reply

namespace ScopedMemory

/-- What an action does besides its label, with its target by name. -/
inductive ActionPlan where
  | say
  | probe (scope : Name)
  | close (scope : Name)
  | extend (scope : Name)
  | fill (region : Name)
  | hold (target : Name)
deriving DecidableEq, Repr

/-- Calls on scopes by name. A result has a name to be kept under. -/
inductive ScopeCall where
  | create (kind : ScopeKind) (name : Name)
  | close (scope : Name)
  | addAction (scope : Name) (label : String) (plan : ActionPlan)
  | acquire (scope name : Name)
  | same (first second : Name)
  | allocateNative (size align : Word) (scope : Name) (name? : Option Name)
  | resolve (start length : Word) (scope : Name) (name? : Option Name)
deriving DecidableEq, Repr

/-- The scope that a scope or a region refers to. -/
def Session.holdable? (S : Session) (name : Name) : Option ScopeId :=
  (S.scope? name).or ((S.region? name).map (·.1.scope))

def ActionPlan.resolve (label : String) : ActionPlan → Turn CloseAction
  | say => return .say label
  | probe target => return .probe label (← Turn.find Session.scope? target)
  | close target => return .close label (← Turn.find Session.scope? target)
  | extend target => return .extend label (← Turn.find Session.scope? target)
  | fill target => return .fill label (← Turn.find Session.region? target).1
  | hold target => return .hold label (← Turn.find Session.holdable? target)

namespace ScopeCall

open Turn

def perform : ScopeCall → Turn Reply
  | create kind name => do
    let s ← lift (ScopeId.create kind)
    let view := (← get).store.viewScope (← read).caller s
    rename name (.scope s)
    return .scope view
  | close scope => do
    let s ← find Session.scope? scope
    let held ← lift (ScopeId.close s)
    leave held.chores
    return .done
  | addAction scope label plan => do
    let s ← find Session.scope? scope
    let action ← plan.resolve label
    lift (ScopeId.addAction s action)
    return .done
  | acquire scope name => do
    let s ← find Session.scope? scope
    lift (ScopeId.acquire s)
    rename name (.guard s)
    return .guard s
  | same first second => do
    let s ← find Session.scope? first
    let t ← find Session.scope? second
    return .truth (s = t)
  | allocateNative size align scope name? => do
    let s ← find Session.scope? scope
    keepRegion name? false (← lift (ScopeId.allocateNative s size align))
  | resolve start length scope name? => do
    let s ← find Session.scope? scope
    match ← lift (ScopeId.resolve s start length) with
    | some r => keepRegion name? false r
    | none => return .noRegion

end ScopeCall
end ScopedMemory
