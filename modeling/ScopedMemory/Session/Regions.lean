import ScopedMemory.Session.Reply

namespace ScopedMemory

inductive RegionCall where
  | adopt (start length : Word) (scope : Name) (name? : Option Name)
  | slice (region : Name) (offset length : Word) (name? : Option Name)
  | sliceFrom (region : Name) (offset : Word) (name? : Option Name)
  | belongs (region scope : Name)
  | read (length : Word) (region : Name) (offset : Word)
  | write (region : Name) (offset : Word) (bytes : Bytes)
  | get (layout : Layout) (offset : Word) (type : ScalarType) (region : Name)
  | set (layout : Layout) (offset : Word) (region : Name) (value : Scalar)
  | getAddress (region : Name) (layout : Layout) (offset : Word)
  | setAddress (value : Word) (region : Name) (layout : Layout) (offset : Word)
  | copyFrom (region source : Name)
  | fill (region : Name) (value : UInt8)
  | contents (region : Name)
deriving DecidableEq, Repr

namespace RegionCall

open Turn

def perform : RegionCall → Turn Reply
  | adopt start length scope name? => do
    let s ← find Session.scope? scope
    keepRegion name? true (← lift (Region.ofAddress start length s))
  | slice region offset length name? => do
    let (r, adopted) ← find Session.region? region
    keepRegion name? adopted (← lift (r.slice offset length))
  | sliceFrom region offset name? => do
    let (r, adopted) ← find Session.region? region
    keepRegion name? adopted (← lift (r.sliceFrom offset))
  | belongs region scope => do
    let (r, _) ← find Session.region? region
    let s ← find Session.scope? scope
    return .truth (r.scope = s)
  | read length region offset => do
    let (r, _) ← find Session.region? region
    return .bytes (← lift (r.read offset length))
  | write region offset bytes => do
    let (r, _) ← find Session.region? region
    lift (r.write offset bytes)
    return .done
  | get layout offset type region => do
    let (r, _) ← find Session.region? region
    return .scalar (← lift (r.get type layout offset))
  | set layout offset region value => do
    let (r, _) ← find Session.region? region
    lift (r.set layout offset value)
    return .done
  | getAddress region layout offset => do
    let (r, _) ← find Session.region? region
    return .address (← lift (r.getAddress layout offset))
  | setAddress value region layout offset => do
    let (r, _) ← find Session.region? region
    lift (r.setAddress layout offset value)
    return .done
  | copyFrom region source => do
    let (r, _) ← find Session.region? region
    let (src, _) ← find Session.region? source
    lift (r.copyFrom src)
    return .done
  | fill region value => do
    let (r, _) ← find Session.region? region
    lift (r.fill value)
    return .done
  | contents region => do
    let (r, _) ← find Session.region? region
    match ← lift r.contents with
    | some bytes => return .bytes bytes
    | none => throw .tooLong

end RegionCall
end ScopedMemory
