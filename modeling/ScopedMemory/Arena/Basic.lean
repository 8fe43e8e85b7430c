import ScopedMemory.Region.Basic

namespace ScopedMemory

/-- How an arena asks for its blocks. -/
structure ArenaConfig where
  /-- What an arena without a bound gets at a time. -/
  blockSize : Word := 4096
  blockAlign : Word := 16
deriving DecidableEq, Repr

def ArenaConfig.validate (c : ArenaConfig) : Except MemoryError Unit :=
  if c.blockSize = 0 then
    .error (.invalidArgument "block_size must be non-zero")
  else if c.blockAlign.IsPowerOfTwo then
    .ok ()
  else
    let align := c.blockAlign
    .error (.invalidArgument s!"block_alignment must be a power of two (got {align})")

structure ArenaStats where
  /-- Blocks that requests are carved from. -/
  blocks : Word := 0
  /-- Blocks obtained for one large request each. -/
  dedicated : Word := 0
  /-- Bytes handed out, without the gaps between them. -/
  served : Word := 0
  reserved : Word := 0
  failed : Word := 0
deriving DecidableEq, Repr

namespace ArenaStats

def addBlock (st : ArenaStats) (size : Word) : ArenaStats :=
  { st with blocks := st.blocks + 1, reserved := st.reserved + size }

def addDedicated (st : ArenaStats) (size : Word) : ArenaStats :=
  { st with
    dedicated := st.dedicated + 1
    reserved := st.reserved + size
    served := st.served + size }

def addServed (st : ArenaStats) (size : Word) : ArenaStats :=
  { st with served := st.served + size }

def addFailed (st : ArenaStats) : ArenaStats := { st with failed := st.failed + 1 }

end ArenaStats

inductive ArenaCapacity where
  | bounded (bytes : Word)
  | unbounded (blockSize : Word)
deriving DecidableEq, Repr

/-- The block that an arena carves from and the first offset that is free in it. -/
structure Frontier where
  block : Region
  cursor : Word
deriving DecidableEq, Repr

/-- The offset of the first `align`-aligned address at or after the cursor, if `size` bytes fit
there. -/
def Frontier.fit? (f : Frontier) (size align : Word) : Option Word := do
  let next ← Word.add? f.block.start f.cursor
  let padded ← Word.add? next (align - 1)
  let start := padded.roundDown align - f.block.start
  let finish ← Word.add? start size
  if finish ≤ f.block.size then some start else none

structure Arena where
  scope : ScopeId
  capacity : ArenaCapacity
  blockAlign : Word
  frontier : Option Frontier := none
  stats : ArenaStats := {}
deriving DecidableEq, Repr

/-- Arenas are numbered in the order of their creation. -/
abbrev ArenaId := Nat

namespace Arena

def IsBounded (a : Arena) : Prop := ∃ n, a.capacity = .bounded n

instance (a : Arena) : Decidable a.IsBounded :=
  match h : a.capacity with
  | .bounded n => isTrue ⟨n, h⟩
  | .unbounded _ => isFalse fun ⟨_, e⟩ => by rw [h] at e; cases e

def remaining (a : Arena) : Word :=
  match a.frontier with
  | some f => f.block.size - f.cursor
  | none => 0

end Arena
end ScopedMemory
