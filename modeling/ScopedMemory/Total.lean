namespace ScopedMemory

def total {α : Type} (f : α → Nat) : List α → Nat
  | [] => 0
  | x :: xs => f x + total f xs

@[simp] theorem total_nil {α : Type} (f : α → Nat) : total f [] = 0 := rfl

@[simp] theorem total_cons {α : Type} (f : α → Nat) (x : α) (xs : List α) :
    total f (x :: xs) = f x + total f xs := rfl

end ScopedMemory
