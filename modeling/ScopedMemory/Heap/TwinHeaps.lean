import ScopedMemory.Heap.Basic

namespace ScopedMemory

namespace TwinHeaps

/-- Each pool is a heap of one mebibyte that grows upwards and never uses a byte again. -/
def start : Pool → Nat
  | .native => 0x20000000
  | .global => 0x10000000000

def limit (pool : Pool) : Nat := start pool + 0x100000

def next (pool : Pool) : List HeapEvent → Nat
  | [] => start pool
  | .placed p b :: past => if p = pool then b.finish else next pool past
  | .freed _ :: past => next pool past

/-- The smallest odd multiple of `align` at or after `n`, so that no block is aligned better than
it was asked to be. -/
def oddMultiple (n align : Nat) : Nat :=
  let k := (n + align - 1) / align
  (if k % 2 = 1 then k else k + 1) * align

def place (past : List HeapEvent) (pool : Pool) (size align : Word) : Option Word :=
  let base := oddMultiple (next pool past) align.toNat
  if base + max size.toNat 1 ≤ limit pool then some (.ofNat base) else none

def system : SystemAllocator := ⟨place⟩

theorem le_oddMultiple (n : Nat) {align : Nat} (ha : 0 < align) : n ≤ oddMultiple n align := by
  have hk : n ≤ (n + align - 1) / align * align := by
    have hd := Nat.div_add_mod (n + align - 1) align
    have hm := Nat.mod_lt (n + align - 1) ha
    rw [Nat.mul_comm] at hd
    omega
  unfold oddMultiple
  dsimp only
  split
  next => exact hk
  next => exact Nat.le_trans hk (Nat.mul_le_mul_right align (Nat.le_succ _))

theorem dvd_oddMultiple (n align : Nat) : align ∣ oddMultiple n align := by
  unfold oddMultiple
  dsimp only
  split <;> exact Nat.dvd_mul_left ..

theorem limit_lt (pool : Pool) : limit pool < 0x10000000000000000 := by
  cases pool <;> decide

theorem toNat_of_place {past : List HeapEvent} {pool : Pool} {size align base : Word}
    (hb : place past pool size align = some base) :
    base.toNat = oddMultiple (next pool past) align.toNat ∧
      (Block.mk base size).finish ≤ limit pool := by
  unfold place at hb
  simp only at hb
  split at hb
  next h =>
    cases hb
    have hl := limit_lt pool
    have ht : (UInt64.ofNat (oddMultiple (next pool past) align.toNat)).toNat =
        oddMultiple (next pool past) align.toNat := by
      rw [UInt64.toNat_ofNat']
      exact Nat.mod_eq_of_lt (by omega)
    exact ⟨ht, by rw [Block.finish, ht]; exact h⟩
  next => cases hb

theorem align_pos {align : Word} (ha : align.IsPowerOfTwo) : 0 < align.toNat := by
  obtain ⟨k, hk⟩ := ha
  rw [hk]
  exact Nat.two_pow_pos k

theorem next_le_base {past : List HeapEvent} {pool : Pool} {size align base : Word}
    (ha : align.IsPowerOfTwo) (hb : place past pool size align = some base) :
    next pool past ≤ base.toNat := by
  rw [(toNat_of_place hb).1]
  exact le_oddMultiple _ (align_pos ha)

theorem start_le_next {past : List HeapEvent} (h : system.History past) (pool : Pool) :
    start pool ≤ next pool past := by
  induction h with
  | nil => exact Nat.le_refl _
  | @placed past pool' size align base _ ha hb ih =>
    have hn := next_le_base ha hb
    simp only [next]
    split
    next he =>
      subst he
      simp only [Block.finish]
      omega
    next => exact ih
  | freed _ b ih => exact ih

/-- Every block in use lies in its heap, below the place where the next one goes. -/
theorem mem_unfreed {past : List HeapEvent} (h : system.History past) :
    ∀ b ∈ unfreed past, ∃ pool, start pool ≤ b.base.toNat ∧ b.finish ≤ limit pool ∧
      b.finish ≤ next pool past := by
  induction h with
  | nil => simp [unfreed]
  | @placed past pool size align base h ha hb ih =>
    have hn := next_le_base ha hb
    have hs := start_le_next h pool
    have hl := (toNat_of_place hb).2
    intro b hm
    rcases List.mem_cons.mp hm with rfl | hm
    · exact ⟨pool, by simp only; omega, hl, by simp [next]⟩
    · obtain ⟨pool', h₁, h₂, h₃⟩ := ih b hm
      refine ⟨pool', h₁, h₂, ?_⟩
      simp only [next]
      split
      next he =>
        subst he
        simp only [Block.finish] at h₃ ⊢
        omega
      next => exact h₃
  | freed _ c ih => exact fun b hm => ih b (List.mem_of_mem_erase hm)

/-- The two heaps keep clear of each other, and so do the blocks in each. -/
theorem lawful : system.Lawful where
  aligned _ _ hb := (toNat_of_place hb).1 ▸ dvd_oddMultiple _ _
  bounded _ _ hb := Nat.lt_of_le_of_lt (toNat_of_place hb).2 (limit_lt _)
  apart {past pool size align base} h ha hb := by
    intro b hm
    obtain ⟨pool', h₁, h₂, h₃⟩ := mem_unfreed h b hm
    have hn := next_le_base ha hb
    have hs := start_le_next h pool
    have hl := (toNat_of_place hb).2
    cases pool with
    | native =>
      cases pool' with
      | native => exact Or.inl (Nat.le_trans h₃ hn)
      | global => exact Or.inr (by simp only [start, limit] at h₁ hl; omega)
    | global =>
      cases pool' with
      | native => exact Or.inl (by simp only [start, limit] at h₂ hs; omega)
      | global => exact Or.inl (Nat.le_trans h₃ hn)

end TwinHeaps
end ScopedMemory
