import ScopedMemory.Error

namespace ScopedMemory

/-- A range of memory under the rules of a scope. -/
structure Region where
  start : Word
  size : Word
  scope : ScopeId
deriving DecidableEq, Repr

namespace Region

/-- The range of `length` bytes at `offset` stays in the region and below the end of the address
space. -/
def checkSpan (r : Region) (offset length : Word) : Except MemoryError Unit :=
  let fault : MemoryError := .outOfBounds offset length r.size
  if offset ≤ r.size ∧ length ≤ r.size - offset then
    match (Word.add? r.start offset).bind (Word.add? · length) with
    | some _ => .ok ()
    | none => .error fault
  else .error fault

/-- As `checkSpan`, for the bytes of a buffer. One that has more than a word can tell is longer than
every region. -/
def checkBuffer (r : Region) (offset : Word) (length : Nat) : Except MemoryError Unit :=
  if length < 0x10000000000000000 then r.checkSpan offset (.ofNat length)
  else .error (.outOfBounds offset (.ofNat length) r.size)

/-- The view of such a range. -/
def narrow (r : Region) (offset length : Word) : Region := ⟨r.start + offset, length, r.scope⟩

/-- Some byte belongs to both. -/
def Overlaps (r s : Region) : Prop :=
  r.start.toNat < s.start.toNat + s.size.toNat ∧ s.start.toNat < r.start.toNat + r.size.toNat

instance (r s : Region) : Decidable (r.Overlaps s) := inferInstanceAs (Decidable (_ ∧ _))

end Region
end ScopedMemory
