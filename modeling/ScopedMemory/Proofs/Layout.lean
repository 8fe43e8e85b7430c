import ScopedMemory.Proofs.Arena.Supply

namespace ScopedMemory.Layout

/-- The layouts that can be made: values and filler, and what is put together of them. -/
inductive Made : Layout → Prop
  | value (size order) {l} (h : ofValue size order = .ok l) : Made l
  | scalar (size order) {l} (h : scalar? size order = some l) : Made l
  | padding (size : Word) : Made (ofPadding size)
  | sequence {count element l} (he : Made element) (h : ofSequence count element = .ok l) : Made l
  | struct {members l} (hm : ∀ m ∈ members, Made m) (h : ofStruct members = .ok l) : Made l
  | union {members} (hm : ∀ m ∈ members, Made m) : Made (ofUnion members)
  | withAlign {align l l'} (hl : Made l) (h : withAlign align l = .ok l') : Made l'
  | withOrder {l} (hl : Made l) (order : ByteOrder) : Made (withOrder order l)

theorem align_setHeader (h : LayoutHeader) (l : Layout) : (l.setHeader h).align = h.align := by
  cases l <;> rfl

theorem isPowerOfTwo_largestAlign {members : List Layout}
    (h : ∀ m ∈ members, m.align.IsPowerOfTwo) : (largestAlign members).IsPowerOfTwo := by
  induction members with
  | nil => exact ⟨0, rfl⟩
  | cons m ms ih =>
    have hrest := ih fun m' hm => h m' (List.mem_cons_of_mem m hm)
    exact (h m List.mem_cons_self).max hrest

/-- Every alignment is one that memory can be asked for. -/
theorem Made.isPowerOfTwo_align {l : Layout} (h : l.Made) : l.align.IsPowerOfTwo := by
  induction h with
  | value _ _ h =>
    unfold ofValue at h
    split at h
    next hp =>
      cases h
      exact hp
    next => cases h
  | scalar size _ h =>
    unfold scalar? at h
    split at h
    next hm =>
      cases h
      have hall : ∀ n ∈ ([1, 2, 4, 8] : List Word), n.IsPowerOfTwo := by
        simp only [List.forall_mem_cons, List.not_mem_nil, false_implies, implies_true]
        decide
      exact hall size hm
    next => cases h
  | padding => exact ⟨0, rfl⟩
  | sequence _ h ih =>
    unfold ofSequence at h
    split at h
    next =>
      cases h
      exact ih
    next => cases h
  | struct _ h ih =>
    unfold ofStruct at h
    split at h
    next =>
      cases h
      exact isPowerOfTwo_largestAlign ih
    next => cases h
  | union _ ih => exact isPowerOfTwo_largestAlign ih
  | withAlign _ h =>
    unfold Layout.withAlign at h
    split at h
    next hp =>
      cases h
      rw [align_setHeader]
      exact hp
    next => cases h
  | @withOrder l _ order ih =>
    show (l.setHeader { l.header with order }).align.IsPowerOfTwo
    rw [align_setHeader]
    exact ih

end ScopedMemory.Layout
