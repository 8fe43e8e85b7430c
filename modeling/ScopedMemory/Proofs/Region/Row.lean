import ScopedMemory.Proofs.Region.RoundTrip

namespace ScopedMemory.Datum

variable {l : Layout} {data : List Datum} {i j : Nat}

/-- The bytes of the data one behind the other. -/
def row (l : Layout) (data : List Datum) : Bytes :=
  data.flatMap fun d => l.order.encode l.size.toNat d.number

@[simp] theorem length_row (l : Layout) (data : List Datum) :
    (row l data).length = data.length * l.size.toNat := by
  induction data with
  | nil => exact (Nat.zero_mul _).symm
  | cons d ds ih =>
    unfold row at ih ⊢
    rw [List.flatMap_cons, List.length_append, ByteOrder.length_encode, ih, List.length_cons,
      Nat.succ_mul, Nat.add_comm]

theorem getElem?_row (hi : i < data.length) (hj : j < l.size.toNat) :
    (row l data)[i * l.size.toNat + j]? = some (data[i].byte (l.order.place l.size.toNat j)) := by
  unfold row
  induction data generalizing i with
  | nil => exact absurd hi (Nat.not_lt_zero i)
  | cons d ds ih =>
    rw [List.flatMap_cons]
    cases i with
    | zero =>
      have hin : 0 * l.size.toNat + j < (l.order.encode l.size.toNat d.number).length := by
        rwa [ByteOrder.length_encode, Nat.zero_mul, Nat.zero_add]
      rw [List.getElem?_append_left hin, Nat.zero_mul, Nat.zero_add, ByteOrder.getElem?_encode,
        if_pos hj]
      rfl
    | succ i =>
      have hskip : (i + 1) * l.size.toNat + j = l.size.toNat + (i * l.size.toNat + j) := by
        rw [Nat.succ_mul]
        omega
      have hrest := ih (Nat.lt_of_succ_lt_succ hi)
      rw [List.getElem?_append_right (by rw [ByteOrder.length_encode]; omega),
        ByteOrder.length_encode, hskip, Nat.add_sub_cancel_left, hrest]
      rfl

theorem byte_write_row (m : Memory) (x : Nat) (hi : i < data.length) (hj : j < l.size.toNat) :
    (m.write x (row l data)).byte (x + i * l.size.toNat + j) =
      data[i].byte (l.order.place l.size.toNat j) := by
  have hcell : x + i * l.size.toNat + j - x = i * l.size.toNat + j := by omega
  rw [Memory.byte_write, if_pos (by omega), hcell, getElem?_row hi hj, Option.getD_some]

theorem standsAt_row (m : Memory) (x : Nat) (hi : i < data.length) :
    data[i].StandsAt (x + i * l.size.toNat) l (m.write x (row l data)) :=
  fun _ hj => byte_write_row m x hi hj

end ScopedMemory.Datum
