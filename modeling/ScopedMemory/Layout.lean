import ScopedMemory.Bytes
import ScopedMemory.Error

namespace ScopedMemory

/-- What every layout declares about itself. -/
structure LayoutHeader where
  size : Word
  align : Word
  order : ByteOrder
deriving DecidableEq, Repr

/-- A description of a piece of memory. Groups add no padding between their members. -/
inductive Layout where
  | value (header : LayoutHeader)
  | padding (header : LayoutHeader)
  | sequence (header : LayoutHeader) (count : Word) (element : Layout)
  | struct (header : LayoutHeader) (members : List Layout)
  /-- Members that all begin at offset zero. -/
  | union (header : LayoutHeader) (members : List Layout)
deriving Repr

namespace Layout

def header : Layout → LayoutHeader
  | value h | padding h | sequence h _ _ | struct h _ | union h _ => h

def size (l : Layout) : Word := l.header.size

def align (l : Layout) : Word := l.header.align

def order (l : Layout) : ByteOrder := l.header.order

def IsValue : Layout → Prop
  | value _ => True
  | _ => False

instance : DecidablePred IsValue := fun l => by
  cases l <;> unfold IsValue <;> infer_instance

def IsGroup : Layout → Prop
  | struct .. | union .. => True
  | _ => False

instance : DecidablePred IsGroup := fun l => by
  cases l <;> unfold IsGroup <;> infer_instance

mutual
/-- Equal layouts agree in every header and in their shapes. -/
def decEq : (a b : Layout) → Decidable (a = b)
  | value g, value h | padding g, padding h =>
    if e : g = h then isTrue (e ▸ rfl) else isFalse fun he => by cases he; exact e rfl
  | sequence g m a, sequence h n b =>
    if e : g = h ∧ m = n then
      match decEq a b with
      | isTrue hab => isTrue (by rw [e.1, e.2, hab])
      | isFalse hab => isFalse fun he => by cases he; exact hab rfl
    else isFalse fun he => by cases he; exact e ⟨rfl, rfl⟩
  | struct g as, struct h bs | union g as, union h bs =>
    if e : g = h then
      match decEqAll as bs with
      | isTrue hab => isTrue (by rw [e, hab])
      | isFalse hab => isFalse fun he => by cases he; exact hab rfl
    else isFalse fun he => by cases he; exact e rfl
  | value _, padding _ | value _, sequence .. | value _, struct .. | value _, union ..
  | padding _, value _ | padding _, sequence .. | padding _, struct .. | padding _, union ..
  | sequence .., value _ | sequence .., padding _ | sequence .., struct .. | sequence .., union ..
  | struct .., value _ | struct .., padding _ | struct .., sequence .. | struct .., union ..
  | union .., value _ | union .., padding _ | union .., sequence .. | union .., struct .. =>
    isFalse fun he => by cases he

def decEqAll : (as bs : List Layout) → Decidable (as = bs)
  | [], [] => isTrue rfl
  | [], _ :: _ | _ :: _, [] => isFalse fun he => by cases he
  | a :: as, b :: bs =>
    match decEq a b with
    | isFalse h => isFalse fun he => by cases he; exact h rfl
    | isTrue h =>
      match decEqAll as bs with
      | isTrue hs => isTrue (by rw [h, hs])
      | isFalse hs => isFalse fun he => by cases he; exact hs rfl
end

instance : DecidableEq Layout := decEq

def setHeader (h : LayoutHeader) : Layout → Layout
  | value _ => value h
  | padding _ => padding h
  | sequence _ n e => sequence h n e
  | struct _ ms => struct h ms
  | union _ ms => union h ms

/-- A value aligned to its own size, which is a power of two. -/
def ofValue (size : Word) (order : ByteOrder) : Except MemoryError Layout :=
  if size.IsPowerOfTwo then
    .ok (value ⟨size, size, order⟩)
  else
    .error (.invalidArgument s!"value layout size must be a power of two (got {size})")

/-- A value of one of the four sizes that a machine register has, else nothing. -/
def scalar? (size : Word) (order : ByteOrder) : Option Layout :=
  if size ∈ [1, 2, 4, 8] then some (value ⟨size, size, order⟩) else none

/-- Filler with no alignment of its own. -/
def ofPadding (size : Word) : Layout := padding ⟨size, 1, .native⟩

/-- `count` elements; alignment and order are those of one element. -/
def ofSequence (count : Word) (element : Layout) : Except MemoryError Layout :=
  match Word.mul? element.size count with
  | some total => .ok (sequence ⟨total, element.align, element.order⟩ count element)
  | none =>
    let unit := element.size
    .error (.invalidArgument s!"sequence of {count} x {unit} bytes overflows")

/-- The sum of the sizes, where it is a word. -/
def totalSize? : List Layout → Option Word
  | [] => some 0
  | m :: ms => (totalSize? ms).bind (Word.add? m.size)

def largestSize (members : List Layout) : Word :=
  members.foldr (fun m n => max m.size n) 0

def largestAlign (members : List Layout) : Word :=
  members.foldr (fun m n => max m.align n) 1

/-- A group with no member has alignment 1. -/
def ofStruct (members : List Layout) : Except MemoryError Layout :=
  match totalSize? members with
  | some total => .ok (struct ⟨total, largestAlign members, .native⟩ members)
  | none => .error (.invalidArgument "struct layout size overflows")

def ofUnion (members : List Layout) : Layout :=
  union ⟨largestSize members, largestAlign members, .native⟩ members

/-- Size, order and shape stay as they are. -/
def withAlign (align : Word) (l : Layout) : Except MemoryError Layout :=
  if align.IsPowerOfTwo then
    .ok (l.setHeader { l.header with align })
  else
    .error (.badAlignment align)

def withOrder (order : ByteOrder) (l : Layout) : Layout :=
  l.setHeader { l.header with order }

mutual
/-- The number of bytes that the shape spans, counted without a bound. -/
def extent : Layout → Nat
  | value h | padding h => h.size.toNat
  | sequence _ n e => n.toNat * extent e
  | struct _ ms => totalExtent ms
  | union _ ms => largestExtent ms

def totalExtent : List Layout → Nat
  | [] => 0
  | m :: ms => extent m + totalExtent ms

def largestExtent : List Layout → Nat
  | [] => 0
  | m :: ms => max (extent m) (largestExtent ms)
end

def bits8 : Layout := value ⟨1, 1, .native⟩
def bits16 : Layout := value ⟨2, 2, .native⟩
def bits32 : Layout := value ⟨4, 4, .native⟩
def bits64 : Layout := value ⟨8, 8, .native⟩

end Layout
end ScopedMemory
