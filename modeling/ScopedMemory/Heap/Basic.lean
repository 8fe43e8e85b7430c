import ScopedMemory.Error

namespace ScopedMemory

structure Block where
  base : Word
  size : Word
deriving DecidableEq, Repr

namespace Block

/-- Where the block ends; a block without bytes still takes up one. -/
def finish (b : Block) : Nat := b.base.toNat + max b.size.toNat 1

/-- The range of `length` bytes from `start` on lies inside the block. -/
def Contains (b : Block) (start length : Word) : Prop :=
  b.base ≤ start ∧ length ≤ b.size ∧ start - b.base ≤ b.size - length

instance (b : Block) (start length : Word) : Decidable (b.Contains start length) :=
  inferInstanceAs (Decidable (_ ∧ _ ∧ _))

end Block

/-- Blocks of the global scope come from a pool of their own. -/
inductive Pool where
  | native
  | global
deriving DecidableEq, Repr

inductive HeapEvent where
  | placed (pool : Pool) (block : Block)
  | freed (block : Block)
deriving DecidableEq, Repr

/-- An allocator of the system, which chooses from the events so far, newest first, where a block of
some size and alignment goes, or refuses it. -/
structure SystemAllocator where
  place : List HeapEvent → Pool → (size align : Word) → Option Word

/-- No block is asked for that would take half of the address space with its alignment. -/
def SystemAllocator.request (system : SystemAllocator) (past : List HeapEvent) (pool : Pool)
    (size align : Word) : Option Word :=
  if max size.toNat 1 + align.toNat ≤ 0x8000000000000000 then system.place past pool size align
  else none

def unfreed : List HeapEvent → List Block
  | [] => []
  | .placed _ b :: past => b :: unfreed past
  | .freed b :: past => (unfreed past).erase b

/-- The pasts that the allocator's own answers lead to. -/
inductive SystemAllocator.History (system : SystemAllocator) : List HeapEvent → Prop
  | nil : History system []
  | placed {past pool size align base} (h : History system past) (ha : Word.IsPowerOfTwo align)
      (hb : system.place past pool size align = some base) :
      History system (.placed pool ⟨base, size⟩ :: past)
  | freed {past} (h : History system past) (b : Block) : History system (.freed b :: past)

/-- What is relied on: blocks are aligned, end inside the address space and keep clear of every
block that is not freed. -/
structure SystemAllocator.Lawful (system : SystemAllocator) : Prop where
  aligned {past pool size align base} (h : system.History past) (ha : Word.IsPowerOfTwo align)
    (hb : system.place past pool size align = some base) : align.toNat ∣ base.toNat
  bounded {past pool size align base} (h : system.History past) (ha : Word.IsPowerOfTwo align)
    (hb : system.place past pool size align = some base) :
    (Block.mk base size).finish < 0x10000000000000000
  apart {past pool size align base} (h : system.History past) (ha : Word.IsPowerOfTwo align)
    (hb : system.place past pool size align = some base) :
    ∀ b ∈ unfreed past, b.finish ≤ base.toNat ∨ (Block.mk base size).finish ≤ b.base.toNat

end ScopedMemory
