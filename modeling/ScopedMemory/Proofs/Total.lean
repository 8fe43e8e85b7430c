import Mathlib.Algebra.Order.BigOperators.Group.List
import Mathlib.Algebra.Order.Ring.Nat
import ScopedMemory.Total

namespace ScopedMemory

variable {α : Type} {f : α → Nat} {xs : List α}

/-- The sums that weights and accounts are made of are the sums of lists. -/
theorem total_eq_sum (f : α → Nat) (xs : List α) : total f xs = (xs.map f).sum := by
  induction xs with
  | nil => rfl
  | cons x xs ih => rw [total_cons, ih, List.map_cons, List.sum_cons]

@[simp] theorem total_append (f : α → Nat) (xs ys : List α) :
    total f (xs ++ ys) = total f xs + total f ys := by
  simp only [total_eq_sum, List.map_append, List.sum_append]

@[simp] theorem total_map {β : Type} (f : β → Nat) (g : α → β) (xs : List α) :
    total f (xs.map g) = total (fun x => f (g x)) xs := by
  simp only [total_eq_sum, List.map_map, Function.comp_def]

theorem total_perm (f : α → Nat) {ys : List α} (h : xs.Perm ys) : total f xs = total f ys := by
  simp only [total_eq_sum]
  exact (h.map f).sum_eq

theorem total_eq_zero (h : ∀ x ∈ xs, f x = 0) : total f xs = 0 := by
  rw [total_eq_sum]
  apply List.sum_eq_zero
  simpa using h

theorem le_total_of_mem (f : α → Nat) {x : α} (h : x ∈ xs) : f x ≤ total f xs := by
  rw [total_eq_sum]
  exact List.le_sum_of_mem (List.mem_map_of_mem h)

/-- One entry of a list is changed. -/
theorem total_modify (f : α → Nat) (g : α → α) (default : α) {i : Nat} (hi : i < xs.length) :
    total f (xs.modify i g) + f (xs.getD i default) =
      total f xs + f (g (xs.getD i default)) := by
  induction xs generalizing i with
  | nil => simp at hi
  | cons x xs ih =>
    cases i with
    | zero =>
      simp only [List.modify_zero_cons, total_cons, List.getD_cons_zero]
      omega
    | succ i =>
      have h := ih (Nat.lt_of_succ_lt_succ hi)
      simp only [List.modify_succ_cons, total_cons, List.getD_cons_succ]
      omega

end ScopedMemory
