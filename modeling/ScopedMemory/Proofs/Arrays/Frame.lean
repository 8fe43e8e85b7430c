import ScopedMemory.Proofs.Arrays.Basic

namespace ScopedMemory

variable {A : ArrayStore} {S : Session} {ctx : Context}

theorem Bytes.splice_nil (cells : Bytes) (start : Nat) : cells.splice start [] = cells := by
  simp [Bytes.splice]

theorem ArrayStore.arrays_write_nil (A : ArrayStore) (v : View) (offset : Nat) :
    (A.write v offset []).arrays = A.arrays := by
  have hid : (fun cells : Bytes => cells.splice (v.offset + offset) []) = id :=
    funext fun cells => Bytes.splice_nil cells _
  unfold write
  rw [hid]
  exact List.modify_id _ _

theorem ArrayStore.arrays_keep (A : ArrayStore) (name? : Option Name) (v? : Option View) :
    (A.keep name? v?).arrays = A.arrays := by
  cases name? <;> rfl

theorem ArrayStore.arrays_allocate_nil (A : ArrayStore) (size : Nat) (name? : Option Name) :
    (A.allocate size [] name?).arrays = A.arrays ++ [.zeros size] := by
  unfold allocate
  rw [arrays_keep, arrays_write_nil]
  rfl

def RegionCall.target? : RegionCall → Option Name
  | write region .. | set _ _ region _ | setAddress _ region _ _ | copyFrom region _
  | fill region _ => some region
  | _ => none

def Move.target? (S : Session) (A : ArrayStore) : Move → Option View
  | .call _ (.region c) => c.target?.bind A.named
  | .call _ (.allocation (.allocate _ allocator _)) => A.named allocator
  | .call _ _ => none
  | .chore _ =>
    match S.chores with
    | .perform p :: _ => A.targets p.ticket
    | _ => none

namespace ArrayStore

variable {w : View}

theorem contents_of_arrays {A B : ArrayStore} (h : B.arrays = A.arrays) (w : View) :
    B.contents w = A.contents w := by
  unfold contents
  rw [h]

theorem contents_of_append {A B : ArrayStore} {more : List Bytes}
    (h : B.arrays = A.arrays ++ more) (hw : w.array < A.arrays.length) :
    B.contents w = A.contents w := by
  unfold contents
  rw [h, List.getElem?_append_left hw]

theorem contents_writeTo {A : ArrayStore} {name : Name}
    (h : ∀ v, A.named name = some v → v.array ≠ w.array) (offset : Nat) (bytes : Bytes) :
    (A.writeTo name offset bytes).contents w = A.contents w := by
  unfold writeTo
  split
  next v hv => exact contents_write_of_ne A (h v hv) _ _
  next => rfl

theorem contents_allocate {A : ArrayStore} (hw : w.array < A.arrays.length) (size : Nat)
    (bytes : Bytes) (name? : Option Name) :
    (A.allocate size bytes name?).contents w = A.contents w := by
  unfold allocate
  rw [contents_of_arrays (arrays_keep _ _ _),
    contents_write_of_ne _ (Nat.ne_of_gt hw), contents_of_append rfl hw]

end ArrayStore

theorem RegionCall.contents_replay {w : View} (c : RegionCall)
    (h : ∀ v, c.target?.bind A.named = some v → v.array ≠ w.array) :
    (c.replay A).contents w = A.contents w := by
  cases c with
  | slice | sliceFrom => exact ArrayStore.contents_of_arrays (ArrayStore.arrays_keep _ _ _) w
  | write | set => exact ArrayStore.contents_writeTo h _ _
  | setAddress value region layout offset =>
    simp only [replay]
    split
    next => exact ArrayStore.contents_writeTo h _ _
    next => rfl
  | copyFrom region source =>
    simp only [replay]
    split
    next => exact ArrayStore.contents_writeTo h _ _
    next => rfl
  | fill region value =>
    simp only [replay]
    split
    next v hv => exact ArrayStore.contents_write_of_ne A (h v hv) _ _
    next => rfl
  | _ => rfl

theorem Call.contents_replay {w : View} (hw : w.array < A.arrays.length) (c : Call)
    (h : ∀ v, (Move.call ctx c).target? S A = some v → v.array ≠ w.array) (ticket : Nat)
    (outcome : Except Refusal Reply) :
    (c.replay ticket A outcome).contents w = A.contents w := by
  cases outcome with
  | error e =>
    cases c with
    | handle c => cases c <;> rfl
    | _ => rfl
  | ok reply =>
    cases c with
    | handle c => cases c <;> rfl
    | scope c =>
      cases c with
      | addAction scope label plan => cases plan <;> rfl
      | allocateNative size align scope name? => exact ArrayStore.contents_allocate hw _ _ _
      | _ => rfl
    | region c => exact c.contents_replay h
    | allocation c =>
      cases c with
      | allocate q allocator name? =>
        simp only [replay, AllocationCall.replay]
        split
        next =>
          split
          next v hv =>
            rw [ArrayStore.contents_of_arrays (ArrayStore.arrays_keep _ _ _)]
            exact ArrayStore.contents_write_of_ne A (h v hv) _ _
          next => exact ArrayStore.contents_allocate hw _ _ _
        next => rfl
      | allocateParallel target size align threads count =>
        simp only [replay, AllocationCall.replay]
        split
        next => exact ArrayStore.contents_of_append rfl hw
        next => rfl
      | _ => rfl
    | variadic c => rfl

/-- A move is seen in no array but the one that it may write to. -/
theorem ArrayStore.contents_move {w : View} (hw : w.array < A.arrays.length) (m : Move)
    (h : ∀ v, m.target? S A = some v → v.array ≠ w.array) :
    (A.move S m).contents w = A.contents w := by
  cases m with
  | call ctx c => exact c.contents_replay hw h _ _
  | chore ctx =>
    unfold move
    dsimp only
    split
    next c rest hc =>
      unfold Move.target? at h
      rw [hc] at h
      unfold Chore.replay
      split
      next =>
        split
        next v _ hv => exact contents_write_of_ne A (h _ hv) _ _
        next => rfl
      next => rfl
    next => rfl

end ScopedMemory
