import ScopedMemory.Proofs.Scope.Lookup
import ScopedMemory.Proofs.Session.Run

namespace ScopedMemory

variable {system : SystemAllocator} {strict : Prop} {waiting : List Block} {σ : Store}

instance (b : Block) (r : Region) : Decidable (b.Encloses r) := inferInstanceAs (Decidable (_ ∧ _))

theorem Block.contains_iff_encloses {b : Block} {start length : Word} (s : ScopeId) :
    b.Contains start length ↔ b.Encloses ⟨start, length, s⟩ := by
  constructor
  · intro h
    exact h.encloses
  · intro h
    exact Block.contains_of_encloses h

theorem Store.Sound.owns_iff_encloses (hs : σ.Sound system strict waiting)
    (hsep : system.Separate) {s : ScopeId} (ha : σ.IsAlive s) (start length : Word) :
    (σ.scope s).Owns start length ↔
      ∃ b ∈ (σ.scope s).blocks, b.Encloses ⟨start, length, s⟩ := by
  constructor
  · intro h
    exact h.encloses s
  · intro h
    have hi : (Region.mk start length s).Inside σ := ⟨Store.lt_length_of_isAlive ha, fun _ => h⟩
    exact hi.owns hsep hs ha

/-- Whether a range is resolved depends on the block with the greatest base alone, which is as good
as looking at every block. -/
theorem Store.Sound.owns_iff_contains (hs : σ.Sound system strict waiting)
    (hsep : system.Separate) {s : ScopeId} (ha : σ.IsAlive s) (start length : Word) :
    (σ.scope s).Owns start length ↔ ∃ b ∈ (σ.scope s).blocks, b.Contains start length := by
  rw [hs.owns_iff_encloses hsep ha]
  constructor
  · rintro ⟨b, hb, he⟩
    exact ⟨b, hb, (Block.contains_iff_encloses s).mpr he⟩
  · rintro ⟨b, hb, hc⟩
    exact ⟨b, hb, (Block.contains_iff_encloses s).mp hc⟩

namespace ScopeId

variable {ctx : Context} {s : ScopeId} {start length : Word}

theorem run_resolve (hu : σ.checkUsable ctx.caller s = .ok ()) :
    (s.resolve start length).run ctx σ =
      .ok (if (σ.scope s).Owns start length then some ⟨start, length, s⟩ else none) σ := by
  unfold resolve
  simp only [Operation.run_bind, Operation.run_checkUsable, hu, Operation.run_require_ok,
    Operation.run_get, Operation.run_ite]
  by_cases ho : (σ.scope s).Owns start length
  · simp only [if_pos ho, Operation.run_pure]
  · simp only [if_neg ho, Operation.run_pure]

/-- The range is resolved where it lies inside one block, as exactly that range of the scope. -/
theorem run_resolve_encloses (hs : σ.Sound system strict waiting) (hsep : system.Separate)
    (hu : σ.checkUsable ctx.caller s = .ok ()) :
    (s.resolve start length).run ctx σ =
      .ok (if ∃ b ∈ (σ.scope s).blocks, b.Encloses ⟨start, length, s⟩
        then some ⟨start, length, s⟩ else none) σ := by
  have ha : σ.IsAlive s := (Store.checkUsable_eq_ok_iff.mp hu).2
  have ho := hs.owns_iff_encloses hsep ha start length
  rw [run_resolve hu]
  simp only [ho]

theorem resolve_eq_some {r : Region} {τ : Store}
    (h : (s.resolve start length).run ctx σ = .ok (some r) τ) :
    σ.IsAlive s ∧ r = ⟨start, length, s⟩ ∧ (σ.scope s).Owns start length := by
  cases hu : σ.checkUsable ctx.caller s with
  | error e =>
    unfold resolve at h
    simp [hu] at h
  | ok u =>
    rw [run_resolve hu] at h
    have hv : (if (σ.scope s).Owns start length then some ⟨start, length, s⟩ else none) =
        some r := (EStateM.Result.ok.inj h).1
    by_cases ho : (σ.scope s).Owns start length
    · rw [if_pos ho] at hv
      exact ⟨(Store.checkUsable_eq_ok_iff.mp hu).2, (Option.some.inj hv).symm, ho⟩
    · rw [if_neg ho] at hv
      cases hv

end ScopeId

/-- A range that lies inside one block has no byte of another. -/
theorem Store.Sound.eq_of_encloses (hs : σ.Sound system strict waiting) (hsep : system.Separate)
    {s : ScopeId} {b c : Block} {r : Region} (hb : b ∈ (σ.scope s).blocks)
    (hc : c ∈ (σ.scope s).blocks) (he : b.Encloses r) {x : Nat} (hx : r.Has x) (hcx : c.Has x) :
    c = b := by
  by_cases hne : c = b
  · exact hne
  · exact absurd (he.has hx) ((hs.apart_blocks hsep hc hb hne).not_has hcx)

/-- The blocks of different scopes are apart. -/
theorem Store.Sound.apart_scopes (hs : σ.Sound system strict waiting) (hsep : system.Separate)
    {s t : ScopeId} (hne : s ≠ t) {b c : Block} (hb : b ∈ (σ.scope s).blocks)
    (hc : c ∈ (σ.scope t).blocks) : b.Apart c := by
  have hlt : ∀ {u : ScopeId} {d : Block}, d ∈ (σ.scope u).blocks → u < σ.scopes.length := by
    intro u d hd
    by_cases hu : u < σ.scopes.length
    · exact hu
    · rw [Store.scope_of_length_le (Nat.le_of_not_lt hu)] at hd
      cases hd
  have hp := SystemAllocator.unfreed_pairwise_apart hsep hs.history
  rw [hs.accounted.pairwise_iff fun h => Block.Apart.symm h] at hp
  have hall := (List.pairwise_flatMap.mp (List.pairwise_append.mp hp).1).2
  have hat : ∀ {u : ScopeId} (hu : u < σ.scopes.length), σ.scopes[u] = σ.scope u := by
    intro u hu
    simp [Store.scope, hu]
  have hsl := hlt hb
  have htl := hlt hc
  rw [← hat hsl] at hb
  rw [← hat htl] at hc
  rcases Nat.lt_or_gt_of_ne hne with h | h
  · exact List.pairwise_iff_getElem.mp hall s t hsl htl h b hb c hc
  · exact (List.pairwise_iff_getElem.mp hall t s htl hsl h c hc b hb).symm

/-- What ranges are resolved to. -/
structure Store.Resolves (σ : Store) : Prop where
  /-- A caller who may use the scope is given the range itself where it lies inside one of the
  blocks, as numbers without bound, and nothing otherwise. -/
  inside : ∀ (ctx : Context) (s : ScopeId), σ.checkUsable ctx.caller s = .ok () →
    ∀ start length : Word, (s.resolve start length).run ctx σ =
      .ok (if ∃ b ∈ (σ.scope s).blocks, b.Encloses ⟨start, length, s⟩
        then some ⟨start, length, s⟩ else none) σ
  /-- One look at the block with the greatest base is as good as looking at every block. -/
  searched : ∀ s, σ.IsAlive s → ∀ start length : Word,
    (σ.scope s).Owns start length ↔ ∃ b ∈ (σ.scope s).blocks, b.Contains start length
  /-- A range that has bytes of two blocks lies in neither. -/
  undivided : ∀ s, ∀ b ∈ (σ.scope s).blocks, ∀ c ∈ (σ.scope s).blocks, b ≠ c →
    ∀ start length : Word, (∃ x, (Region.mk start length s).Has x ∧ b.Has x) →
      (∃ x, (Region.mk start length s).Has x ∧ c.Has x) →
      ∀ ctx : Context, σ.checkUsable ctx.caller s = .ok () →
        (s.resolve start length).run ctx σ = .ok none σ
  /-- No byte is resolved by two scopes. -/
  single : ∀ (ctx ctx' : Context) (s s' : ScopeId) (start length : Word) (r r' : Region)
    (τ τ' : Store), 0 < length → (s.resolve start length).run ctx σ = .ok (some r) τ →
      (s'.resolve start length).run ctx' σ = .ok (some r') τ' → s = s'

theorem Store.Sound.resolves (hs : σ.Sound system strict waiting) (hsep : system.Separate) :
    σ.Resolves where
  inside ctx s hu start length := ScopeId.run_resolve_encloses hs hsep hu
  searched s ha start length := hs.owns_iff_contains hsep ha start length
  undivided s b hb c hc hne start length := by
    rintro ⟨x, hx, hbx⟩ ⟨y, hy, hcy⟩ ctx hu
    rw [ScopeId.run_resolve_encloses hs hsep hu, if_neg]
    rintro ⟨d, hd, he⟩
    have hbd : b = d := hs.eq_of_encloses hsep hd hb he hx hbx
    have hcd : c = d := hs.eq_of_encloses hsep hd hc he hy hcy
    exact hne (hbd.trans hcd.symm)
  single ctx ctx' s s' start length r r' τ τ' hpos h h' := by
    obtain ⟨b, hb, he⟩ := (ScopeId.resolve_eq_some h).2.2.encloses s
    obtain ⟨c, hc, hf⟩ := (ScopeId.resolve_eq_some h').2.2.encloses s
    have hfirst : (Region.mk start length s).Has start.toNat := by
      have hlen := UInt64.lt_iff_toNat_lt.mp hpos
      exact ⟨Nat.le_refl _, Nat.lt_add_of_pos_right hlen⟩
    by_cases hne : s = s'
    · exact hne
    · exact absurd (hf.has hfirst) ((hs.apart_scopes hsep hne hb hc).not_has (he.has hfirst))

/-- In every state of a run a range is resolved by a scope where it lies inside a block that the
scope owns, and a range that has a byte by one scope at most. -/
theorem play_resolves (hsep : system.Separate) {past : List Move}
    (hw : ∀ m ∈ past, m.Within system) : (play past).store.Resolves := by
  have hs : (play past).Sound system False ((handedOut past).map (·.region)) :=
    play_sound hsep hw False.elim
  exact hs.store.resolves hsep

/-- Two blocks side by side, and one without a byte where the second ends. -/
def adjoiningCalls : List (Thread × Call) :=
  [(0, .scope (.create .shared "s")),
    (0, .scope (.allocateNative 4 1 "s" (some "low"))),
    (1, .scope (.allocateNative 4 1 "s" (some "high"))),
    (0, .scope (.allocateNative 0 1 "s" (some "none")))]

theorem adjoiningCalls_resolves :
    (∀ m ∈ movesOf TwinHeaps.system adjoiningCalls, m.Within TwinHeaps.system) ∧
    ((play (movesOf TwinHeaps.system adjoiningCalls)).store.scope 1).blocks =
      [⟨0x20000009, 0⟩, ⟨0x20000005, 4⟩, ⟨0x20000001, 4⟩] ∧
    (∀ q ∈ ([(0x20000005, 0, true), (0x20000004, 2, false), (0x20000009, 0, true),
        (0x20000009, 1, false), (0x20000005, 4, true), (0x20000002, 0xffffffffffffffff, false)] :
        List (Word × Word × Bool)),
      (ScopeId.resolve 1 q.1 q.2.1).run ⟨2, TwinHeaps.system⟩
          (play (movesOf TwinHeaps.system adjoiningCalls)).store =
        .ok (if q.2.2 then some ⟨q.1, q.2.1, 1⟩ else none)
          (play (movesOf TwinHeaps.system adjoiningCalls)).store) := by
  have hw := within_movesOf TwinHeaps.system adjoiningCalls
  have hr := play_resolves TwinHeaps.lawful.separate hw
  have hb : ((play (movesOf TwinHeaps.system adjoiningCalls)).store.scope 1).blocks =
      [⟨0x20000009, 0⟩, ⟨0x20000005, 4⟩, ⟨0x20000001, 4⟩] := by decide
  refine ⟨hw, hb, fun q hq => ?_⟩
  rw [hr.inside ⟨2, TwinHeaps.system⟩ 1 rfl q.1 q.2.1, hb]
  have hsame : (∃ b ∈ [⟨0x20000009, 0⟩, ⟨0x20000005, 4⟩, (⟨0x20000001, 4⟩ : Block)],
      b.Encloses ⟨q.1, q.2.1, 1⟩) ↔ q.2.2 = true := by
    simp only [List.mem_cons, List.not_mem_nil, or_false] at hq ⊢
    simp only [or_and_right, exists_or, exists_eq_left]
    rcases hq with rfl | rfl | rfl | rfl | rfl | rfl <;> decide
  simp only [hsame]

end ScopedMemory
