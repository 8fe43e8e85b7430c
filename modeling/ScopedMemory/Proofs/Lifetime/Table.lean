import ScopedMemory.Proofs.Session.Sound

namespace ScopedMemory.HandleTable

variable {hs : HandleTable} {name : Name} {h : Handle} {p : Name × Handle}

/-- Tables are kept in the order of their names, so a name stands for one handle. -/
def Sorted (hs : HandleTable) : Prop := hs.Pairwise fun p q => p.1 < q.1

theorem lt_of_ne_of_not_lt {m n : Name} (hne : m ≠ n) (hlt : ¬ m < n) : n < m := by
  by_cases h : n < m
  · exact h
  · exact absurd (String.le_antisymm (String.not_lt.mp h) (String.not_lt.mp hlt)) hne

theorem Sorted.put (hs' : hs.Sorted) (name : Name) (h : Handle) : (put name h hs).Sorted := by
  induction hs with
  | nil => exact List.pairwise_singleton _ _
  | cons q hs ih =>
    obtain ⟨n, old⟩ := q
    obtain ⟨hq, hrest⟩ := List.pairwise_cons.mp hs'
    unfold HandleTable.put
    split
    next he =>
      subst he
      exact List.pairwise_cons.mpr ⟨hq, hrest⟩
    next hne =>
      split
      next hlt =>
        refine List.pairwise_cons.mpr ⟨fun p hp => ?_, hs'⟩
        rcases List.mem_cons.mp hp with rfl | hp
        · exact hlt
        · exact String.lt_trans hlt (hq p hp)
      next hlt =>
        refine List.pairwise_cons.mpr ⟨fun p hp => ?_, ih hrest⟩
        rcases HandleTable.mem_put hp with rfl | hp
        · exact lt_of_ne_of_not_lt hne hlt
        · exact hq p hp

theorem Sorted.erase (hs' : hs.Sorted) (name : Name) : (hs.erase name).Sorted :=
  List.Pairwise.filter _ hs'

theorem mem_erase : p ∈ hs.erase name ↔ p ∈ hs ∧ p.1 ≠ name := by
  unfold HandleTable.erase
  rw [List.mem_filter, decide_eq_true_iff]

theorem Sorted.find? (hs' : hs.Sorted) (hp : p ∈ hs) : hs.find? p.1 = some p.2 := by
  induction hs with
  | nil => cases hp
  | cons q hs ih =>
    obtain ⟨n, old⟩ := q
    obtain ⟨hq, hrest⟩ := List.pairwise_cons.mp hs'
    unfold HandleTable.find?
    rw [List.lookup_cons]
    rcases List.mem_cons.mp hp with rfl | hp
    · simp
    · have hlt := hq p hp
      have hne : p.1 ≠ n := by
        intro he
        rw [he] at hlt
        exact String.lt_irrefl n hlt
      rw [beq_eq_false_iff_ne.mpr hne]
      exact ih hrest hp

theorem Sorted.mem_put (hs' : hs.Sorted) :
    p ∈ HandleTable.put name h hs ↔ p = (name, h) ∨ p ∈ hs ∧ p.1 ≠ name := by
  have hput := hs'.put name h
  constructor
  · intro hp
    have hf := hput.find? hp
    rw [find?_put] at hf
    split at hf
    next he =>
      left
      cases hf
      exact Prod.ext he rfl
    next hne => exact Or.inr ⟨mem_of_find? hf, hne⟩
  · intro hp
    apply mem_of_find?
    rw [find?_put]
    rcases hp with rfl | ⟨hp, hne⟩
    · rw [if_pos rfl]
    · rw [if_neg hne]
      exact hs'.find? hp

/-- What is counted over the handles of a table, when one of them takes the place of another. -/
theorem Sorted.total_put (hs' : hs.Sorted) (name : Name) (h : Handle) (f : Handle → Nat) :
    total (fun p => f p.2) (HandleTable.put name h hs) + (hs.find? name).elim 0 f =
      total (fun p => f p.2) hs + f h := by
  induction hs with
  | nil => simp [HandleTable.put, HandleTable.find?]
  | cons q hs ih =>
    obtain ⟨n, old⟩ := q
    obtain ⟨hq, hrest⟩ := List.pairwise_cons.mp hs'
    unfold HandleTable.put
    split
    next he =>
      subst he
      simp only [HandleTable.find?, List.lookup_cons, beq_self_eq_true, Option.elim_some,
        total_cons]
      omega
    next hne =>
      have hfind : HandleTable.find? ((n, old) :: hs) name = HandleTable.find? hs name := by
        unfold HandleTable.find?
        rw [List.lookup_cons, beq_eq_false_iff_ne.mpr hne]
      rw [hfind]
      split
      next hlt =>
        have hnone : HandleTable.find? hs name = none := by
          cases hf : HandleTable.find? hs name with
          | none => rfl
          | some x =>
            have hlt' := hq _ (mem_of_find? hf)
            exact absurd (String.lt_trans hlt hlt') (String.lt_irrefl name)
        rw [hnone]
        simp only [Option.elim_none, total_cons]
        omega
      next =>
        have hrec := ih hrest
        simp only [total_cons]
        omega

theorem Sorted.total_erase (hs' : hs.Sorted) (hf : hs.find? name = some h) (f : Handle → Nat) :
    total (fun p => f p.2) (hs.erase name) + f h = total (fun p => f p.2) hs := by
  induction hs with
  | nil => cases hf
  | cons q hs ih =>
    obtain ⟨n, old⟩ := q
    obtain ⟨hq, hrest⟩ := List.pairwise_cons.mp hs'
    unfold HandleTable.find? at hf
    rw [List.lookup_cons] at hf
    unfold HandleTable.erase
    rw [List.filter_cons]
    by_cases hn : n = name
    · subst hn
      rw [beq_self_eq_true] at hf
      cases hf
      have hall : hs.filter (fun p => decide (p.1 ≠ n)) = hs := by
        refine List.filter_eq_self.mpr fun p hp => decide_eq_true fun he => ?_
        have hlt := hq p hp
        rw [he] at hlt
        exact String.lt_irrefl n hlt
      have hd : decide ((n, h).1 ≠ n) = false := by simp
      rw [hd, if_neg Bool.false_ne_true, hall, total_cons]
      exact Nat.add_comm _ _
    · have hd : decide ((n, old).1 ≠ name) = true := by simp [hn]
      rw [beq_eq_false_iff_ne.mpr (Ne.symm hn)] at hf
      rw [hd, if_pos rfl, total_cons, total_cons]
      have hrec := ih hrest hf
      unfold HandleTable.erase at hrec
      omega

end ScopedMemory.HandleTable
