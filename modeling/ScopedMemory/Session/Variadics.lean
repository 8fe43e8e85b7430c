import ScopedMemory.Session.Reply

namespace ScopedMemory

/-- The value of an argument, a struct by the name of its region. -/
inductive ArgumentSource where
  | int (bits : BitVec 32)
  | long (bits : BitVec 64)
  | double (bits : BitVec 64)
  | address (a : Word)
  | segment (region : Name)
deriving DecidableEq, Repr

inductive ArgumentType where
  | int
  | long
  | double
  | address
deriving DecidableEq, Repr

inductive VariadicCall where
  | builder (scope : Name) (convention : Convention) (name : Name)
  | push (layout : Layout) (value : ArgumentSource) (builder : Name)
  /-- The builder is used up, also when building fails. -/
  | build (builder name : Name)
  | make (arguments : List (Layout × ArgumentSource)) (scope : Name) (convention : Convention)
      (name : Name)
  | empty (convention : Convention) (name : Name)
  | adopt (start : Word) (scope : Name) (convention : Convention) (name : Name)
  | read (layout : Layout) (type : ArgumentType) (list : Name)
  | readSegment (layout : Layout) (list allocator : Name) (name? : Option Name)
  | skip (layouts : List Layout) (list : Name)
  | copy (list name : Name)

def ArgumentSource.resolve : ArgumentSource → Turn ArgumentValue
  | int bits => return .int bits
  | long bits => return .long bits
  | double bits => return .double bits
  | address a => return .address a
  | segment region => return .segment (← Turn.find Session.region? region).1

def VariadicList.readAs (v : VariadicList) (l : Layout) :
    ArgumentType → Operation (Reply × VariadicList)
  | .int => do
    let (x, rest) ← v.readScalar .i32 l
    return (.scalar x, rest)
  | .long => do
    let (x, rest) ← v.readScalar .i64 l
    return (.scalar x, rest)
  | .double => do
    let (x, rest) ← v.readScalar .f64 l
    return (.scalar x, rest)
  | .address => do
    let (a, rest) ← v.readAddress l
    return (.address a, rest)

namespace VariadicCall

open Turn

def perform : VariadicCall → Turn Reply
  | builder scope convention name => do
    let s ← find Session.scope? scope
    keepHandle name (.builder (← lift (VariadicBuilder.create convention s)))
  | push layout value target => do
    let v ← value.resolve
    let b ← find Session.builder? target
    update target (.builder (← lift (b.push layout v)))
    return .done
  | build source name => do
    let b ← find Session.builder? source
    forget source
    discard (.builder b)
    keepList name (← lift b.build)
  | make arguments scope convention name => do
    let args ← arguments.mapM fun arg => return (arg.1, ← arg.2.resolve)
    let s ← find Session.scope? scope
    keepList name (← lift (VariadicList.make convention s args))
  | empty convention name => keepList name (.empty convention)
  | adopt start scope convention name => do
    let s ← find Session.scope? scope
    keepList name (← lift (VariadicList.ofAddress convention start s))
  | read layout type list => do
    let v ← find Session.list? list
    let (reply, rest) ← lift (v.readAs layout type)
    update list (.list rest)
    return reply
  | readSegment layout list allocator name? => do
    let v ← claim Session.list? list
    let w ← find Session.allocator? allocator
    let (r, rest) ← lift (v.readSegment layout w)
    update list (.list rest)
    let view := (← get).store.viewRegion r
    let contents ← lift (Operation.attempt r.contents)
    keep name? (.region r false)
    match contents with
    | .ok (some bytes) => return .copied view (.ok bytes)
    | .ok none => throw .tooLong
    | .error e => return .copied view (.error e)
  | skip layouts list => do
    let v ← find Session.list? list
    let rest ← lift (v.skip layouts)
    update list (.list rest)
    return .list rest.view
  | copy list name => do
    let v ← find Session.list? list
    keepList name (← lift v.copy)

end VariadicCall
end ScopedMemory
