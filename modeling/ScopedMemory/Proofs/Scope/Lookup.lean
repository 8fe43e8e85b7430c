import ScopedMemory.Proofs.Store.Sound

namespace ScopedMemory

namespace Scope

abbrev better (best : Option Block) (b : Block) : Option Block :=
  match best with
  | some a => if a.base ≤ b.base then some b else some a
  | none => some b

/-- The choice is among the blocks seen so far, and none of them begins further on. -/
theorem foldl_better (bs : List Block) (best : Option Block) :
    ∀ b, bs.foldl better best = some b →
      (b ∈ bs ∨ best = some b) ∧ (∀ c ∈ bs, c.base ≤ b.base) ∧
        ∀ a, best = some a → a.base ≤ b.base := by
  induction bs generalizing best with
  | nil =>
    intro b hb
    refine ⟨Or.inr hb, fun _ hc => absurd hc List.not_mem_nil, fun a ha => ?_⟩
    obtain rfl := Option.some.inj (ha.symm.trans hb)
    exact UInt64.le_refl _
  | cons c bs ih =>
    intro b hb
    obtain ⟨hm, hbs, hbest⟩ := ih (better best c) b hb
    have hc : ∃ a, better best c = some a ∧ c.base ≤ a.base ∧ (a = c ∨ best = some a) ∧
        ∀ a', best = some a' → a'.base ≤ a.base := by
      cases best with
      | none => exact ⟨c, rfl, UInt64.le_refl _, Or.inl rfl, fun _ h => by cases h⟩
      | some a =>
        unfold better
        by_cases hle : a.base ≤ c.base
        · refine ⟨c, if_pos hle, UInt64.le_refl _, Or.inl rfl, fun a' h => ?_⟩
          cases h
          exact hle
        · refine ⟨a, if_neg hle, ?_, Or.inr rfl, fun a' h => ?_⟩
          · rw [UInt64.le_iff_toNat_le] at hle ⊢
            omega
          · cases h
            exact UInt64.le_refl _
    obtain ⟨a, ha, hca, hmem, hold⟩ := hc
    have hab := hbest a ha
    refine ⟨?_, fun c' hc' => ?_, fun a' ha' => UInt64.le_trans (hold a' ha') hab⟩
    · rcases hm with hm | hm
      · exact Or.inl (List.mem_cons_of_mem _ hm)
      · obtain rfl := Option.some.inj (ha.symm.trans hm)
        rcases hmem with rfl | hmem
        · exact Or.inl List.mem_cons_self
        · exact Or.inr hmem
    · rcases List.mem_cons.mp hc' with rfl | hc'
      · exact UInt64.le_trans hca hab
      · exact hbs c' hc'

/-- The block found is one of the scope, begins at the address or before it, and no other that does
begins further on. -/
theorem of_blockBelow {sc : Scope} {start : Word} {b : Block} (h : sc.blockBelow start = some b) :
    b ∈ sc.blocks ∧ b.base ≤ start ∧ ∀ c ∈ sc.blocks, c.base ≤ start → c.base ≤ b.base := by
  obtain ⟨hm, hle, _⟩ := foldl_better (sc.blocks.filter (·.base ≤ start)) none b h
  rcases hm with hm | hm
  · obtain ⟨hb, hs⟩ := List.mem_filter.mp hm
    refine ⟨hb, of_decide_eq_true hs, fun c hc hcs => ?_⟩
    exact hle c (List.mem_filter.mpr ⟨hc, decide_eq_true hcs⟩)
  · cases hm

theorem blockBelow_exists {sc : Scope} {start : Word} {c : Block} (hc : c ∈ sc.blocks)
    (hs : c.base ≤ start) : ∃ b, sc.blockBelow start = some b := by
  have hm : c ∈ sc.blocks.filter (·.base ≤ start) :=
    List.mem_filter.mpr ⟨hc, decide_eq_true hs⟩
  have hsome : ∀ (bs : List Block) (best : Option Block), (best ≠ none ∨ bs ≠ []) →
      bs.foldl better best ≠ none := by
    intro bs
    induction bs with
    | nil => exact fun best h => h.elim id fun h => absurd rfl h
    | cons d bs ih =>
      intro best _
      refine ih _ (Or.inl ?_)
      cases best with
      | none => exact Option.some_ne_none d
      | some a =>
        unfold better
        by_cases hle : a.base ≤ d.base <;> simp [hle]
  exact Option.ne_none_iff_exists'.mp (hsome _ none (Or.inr (List.ne_nil_of_mem hm)))

end Scope

theorem Scope.Owns.encloses {sc : Scope} {start length : Word} (h : sc.Owns start length)
    (s : ScopeId) : ∃ b ∈ sc.blocks, b.Encloses ⟨start, length, s⟩ := by
  obtain ⟨b, hb, hc⟩ := h
  exact ⟨b, (of_blockBelow hb).1, hc.encloses⟩

theorem Scope.Owns.inside {σ : Store} {s : ScopeId} {start length : Word} (hs : σ.IsAlive s)
    (h : (σ.scope s).Owns start length) : (Region.mk start length s).Inside σ :=
  ⟨Store.lt_length_of_isAlive hs, fun _ => h.encloses s⟩

theorem Store.Sound.apart_blocks {system : SystemAllocator} {strict : Prop} {waiting : List Block}
    {σ : Store} (hsep : system.Separate) (hs : σ.Sound system strict waiting) {s : ScopeId}
    {b c : Block} (hb : b ∈ (σ.scope s).blocks) (hc : c ∈ (σ.scope s).blocks) (hne : b ≠ c) :
    b.Apart c := by
  have hp := SystemAllocator.unfreed_pairwise_apart hsep hs.history
  obtain ⟨i, hi, rfl⟩ := List.mem_iff_getElem.mp (hs.mem_unfreed hb)
  obtain ⟨j, hj, rfl⟩ := List.mem_iff_getElem.mp (hs.mem_unfreed hc)
  rcases Nat.lt_trichotomy i j with h | h | h
  · exact List.pairwise_iff_getElem.mp hp i j hi hj h
  · subst h
    exact absurd rfl hne
  · exact (List.pairwise_iff_getElem.mp hp j i hj hi h).symm

/-- What lies in a scope is found there: the block with the greatest base is the right one, or the
region is empty and stands where that block begins. -/
theorem Region.Inside.owns {system : SystemAllocator} {strict : Prop} {waiting : List Block}
    {σ : Store} {r : Region} (h : r.Inside σ) (hsep : system.Separate)
    (hs : σ.Sound system strict waiting) (ha : σ.IsAlive r.scope) :
    (σ.scope r.scope).Owns r.start r.size := by
  obtain ⟨c, hc, he⟩ := h.2 ha
  have hle : c.base ≤ r.start := UInt64.le_iff_toNat_le.mpr he.1
  obtain ⟨b, hb⟩ := Scope.blockBelow_exists hc hle
  obtain ⟨hm, hbs, hmax⟩ := Scope.of_blockBelow hb
  have hcb := hmax c hc hle
  refine ⟨b, hb, ?_⟩
  by_cases hbc : b = c
  · rw [hbc]
    exact Block.contains_of_encloses he
  · have hap := hs.apart_blocks hsep hc hm fun h => hbc h.symm
    rw [UInt64.le_iff_toNat_le] at hbs hcb
    have hhigh := he.2
    unfold Block.Apart Block.finish at hap
    exact Block.contains_of_encloses ⟨hbs, by omega⟩

end ScopedMemory
