import ScopedMemory.Proofs.Lifetime.References

namespace ScopedMemory.Session

variable {governs : Prop} {S T : Session} {n : Nat} {s : ScopeId}

/-! ### Edits -/

theorem Tidy.keeps (h : S.Tidy n) {τ : Store} (hk : S.store.Keeps τ) :
    Tidy n { S with store := τ } := by
  have hnames : ∀ s, Names { S with store := τ } s ↔ S.Names s := fun s =>
    names_store fun p hp => Handle.scopes_keeps (h.arenas p hp) hk
  have h0 : 0 < S.store.scopes.length := (h.eternal 0 h.global).holds.1
  have hkind : ∀ s, (τ.scope s).kind = .global → (S.store.scope s).kind = .global := by
    intro s hs
    by_cases hl : s < S.store.scopes.length
    · rw [← hk.kind hl]
      exact hs
    · by_cases hl' : s < τ.scopes.length
      · obtain ⟨kind, creator, hne, hb⟩ := hk.new s (Nat.le_of_not_lt hl) hl'
        have he : (τ.scope s).kind = kind := by
          show (τ.scope s).bare.kind = kind
          rw [hb]
        exact absurd (he.symm.trans hs) hne
      · rw [Store.scope_of_length_le (Nat.le_of_not_lt hl')] at hs
        cases hs
  refine ⟨h.sorted, fun p hp a ha => ?_, ?_, fun s hs => ?_, fun s hs => ?_, fun s hs ha => ?_, ?_,
    fun s hs => ?_, fun s hs => ?_⟩
  · exact Nat.lt_of_lt_of_le (h.arenas p hp a ha) hk.arenas
  · exact (hk.kind h0).trans h.global
  · exact hk.isAlive (h.eternal s (hkind s hs))
  · rcases refers_iff.mp hs with hs | ⟨t, p, hp, hs⟩ | hs
    · exact hk.holds (h.held s (refers_iff.mpr (Or.inl ((hnames s).mp hs))))
    · rw [hk.actions] at hp
      exact hk.holds (h.held s (refers_iff.mpr (Or.inr (Or.inl ⟨t, p, hp, hs⟩))))
    · exact hk.holds (h.held s (refers_iff.mpr (Or.inr (Or.inr (hkind s hs)))))
  · have hl := Nat.lt_of_lt_of_le hs h.bound
    rcases refers_iff.mp (h.kept s hs ((hk.isAlive_iff hl).mp ha)) with hn | ⟨t, p, hp, hn⟩ | hn
    · exact refers_iff.mpr (Or.inl ((hnames s).mpr hn))
    · rw [← hk.actions] at hp
      exact refers_iff.mpr (Or.inr (Or.inl ⟨t, p, hp, hn⟩))
    · rw [← hk.kind hl] at hn
      exact refers_iff.mpr (Or.inr (Or.inr hn))
  · exact Nat.le_trans h.bound hk.scopes
  · by_cases hl : s < S.store.scopes.length
    · rw [hk.lifetime hl]
      exact h.fresh s hs
    · intro hr
      have hdead : ¬ τ.IsAlive s := fun ha => (Store.IsAlive.holds ha).2 hr
      by_cases hl' : s < τ.scopes.length
      · obtain ⟨_, _, _, hb⟩ := hk.new s (Nat.le_of_not_lt hl) hl'
        have he : (τ.scope s).lifetime = .live 0 := by
          show (τ.scope s).bare.lifetime = _
          rw [hb]
        rw [he] at hr
        cases hr
      · rw [Store.scope_of_length_le (Nat.le_of_not_lt hl')] at hr
        cases hr
  · rw [hk.actions]
    by_cases hl : s < S.store.scopes.length
    · exact h.emptied s fun ha => hs ((hk.isAlive_iff hl).mpr ha)
    · rw [Store.scope_of_length_le (Nat.le_of_not_lt hl)]

/-- A scope ends. Its actions come to be done, and refer to what they referred to. -/
theorem Tidy.ends (h : S.Tidy n) {l : Lifetime} (hl : ∀ k, l ≠ .live k)
    (ha : S.store.IsAlive s) (hg : (S.store.scope s).kind ≠ .global)
    (hT : T.store = S.store.endScope s l) (hh : T.handles = S.handles)
    (hnew : ∀ u, T.Names u → (S.Refers u ∧ (u = s → l ≠ .reclaimed)))
    (hact : ∀ t, ∀ p ∈ (S.store.scope t).actions, p.action.target? = some s → l ≠ .reclaimed)
    (hfresh : n ≤ s → l ≠ .reclaimed)
    (hold : ∀ u ≠ s, S.Names u → T.Names u)
    (hown : ∀ u, ∀ p ∈ (S.store.scope s).actions, p.action.target? = some u → T.Names u) :
    T.Tidy n := by
  have hscope := Store.scope_endScope_of_isAlive ha l
  have hholds : ∀ u, S.store.Holds u → (u = s → l ≠ .reclaimed) → T.store.Holds u := by
    intro u hu hr
    rw [hT]
    refine ⟨by simpa using hu.1, ?_⟩
    rw [hscope]
    by_cases hus : u = s
    · rw [if_pos hus]
      exact hr hus
    · rw [if_neg hus]
      exact hu.2
  have hkind : ∀ u, (T.store.scope u).kind = (S.store.scope u).kind := fun u => by
    rw [hT]
    exact Store.kind_endScope ha
  have halive : ∀ u, T.store.IsAlive u ↔ u ≠ s ∧ S.store.IsAlive u := fun u => by
    rw [hT]
    exact Store.isAlive_endScope ha hl
  have hactions : ∀ t p, p ∈ (T.store.scope t).actions ↔
      t ≠ s ∧ p ∈ (S.store.scope t).actions := fun t p => by
    rw [hT]
    exact Store.mem_actions_endScope ha
  have hne : ∀ u, (S.store.scope u).kind = .global → u ≠ s := by
    rintro u hu rfl
    exact hg hu
  refine ⟨by rw [hh]; exact h.sorted, ?_, (hkind 0).trans h.global, fun u hu => ?_,
    fun u hu => ?_, fun u hu hu' => ?_, ?_, fun u hu => ?_, fun u hu => ?_⟩
  · rw [hh, hT]
    exact h.arenas
  · rw [hkind] at hu
    exact (halive u).mpr ⟨hne u hu, h.eternal u hu⟩
  · rcases refers_iff.mp hu with hu | ⟨t, p, hp, hu⟩ | hu
    · obtain ⟨hu, hr⟩ := hnew u hu
      exact hholds u (h.held u hu) hr
    · obtain ⟨_, hp⟩ := (hactions t p).mp hp
      refine hholds u (h.held u (refers_iff.mpr (Or.inr (Or.inl ⟨t, p, hp, hu⟩)))) fun he => ?_
      exact hact t p hp (he ▸ hu)
    · rw [hkind] at hu
      exact ((halive u).mpr ⟨hne u hu, h.eternal u hu⟩).holds
  · obtain ⟨hus, hua⟩ := (halive u).mp hu'
    rcases refers_iff.mp (h.kept u hu hua) with hn | ⟨t, p, hp, hn⟩ | hk
    · exact refers_iff.mpr (Or.inl (hold u hus hn))
    · by_cases ht : t = s
      · subst ht
        exact refers_iff.mpr (Or.inl (hown u p hp hn))
      · exact refers_iff.mpr (Or.inr (Or.inl ⟨t, p, (hactions t p).mpr ⟨ht, hp⟩, hn⟩))
    · rw [← hkind] at hk
      exact refers_iff.mpr (Or.inr (Or.inr hk))
  · rw [hT, Store.length_scopes_endScope]
    exact h.bound
  · rw [hT, hscope]
    by_cases hus : u = s
    · rw [if_pos hus]
      exact hfresh (hus ▸ hu)
    · rw [if_neg hus]
      exact h.fresh u hu
  · by_cases hus : u = s
    · rw [hT, hscope, if_pos hus]
    · have hdead : ¬ S.store.IsAlive u := fun ha' => hu ((halive u).mpr ⟨hus, ha'⟩)
      rw [hT, hscope, if_neg hus]
      exact h.emptied u hdead

theorem Tidy.accepted (h : S.Tidy n) {a : CloseAction} (ha : S.store.IsAlive s)
    (ht : ∀ u, a.target? = some u → S.store.Holds u) :
    Tidy n { S with store := S.store.addAction s a } := by
  have hkind := S.store.kind_addAction s a
  have halive : ∀ u, (S.store.addAction s a).IsAlive u ↔ S.store.IsAlive u := fun _ =>
    S.store.isAlive_addAction s a
  have hnames : ∀ u, Names { S with store := S.store.addAction s a } u ↔ S.Names u := fun u =>
    names_store fun p _ => Handle.scopes_of_arenas rfl
  refine ⟨h.sorted, h.arenas, (hkind 0).trans h.global, fun u hu => ?_, fun u hu => ?_,
    fun u hu hu' => ?_, ?_, fun u hu => ?_, fun u hu => ?_⟩
  · exact (halive u).mpr (h.eternal u ((hkind u).symm.trans hu))
  · refine (S.store.holds_addAction s a).mpr ?_
    rcases refers_iff.mp hu with hu | ⟨t, p, hp, hu⟩ | hu
    · exact h.held u (refers_iff.mpr (Or.inl ((hnames u).mp hu)))
    · rcases (Store.mem_actions_addAction ha).mp hp with ⟨_, rfl⟩ | hp
      · exact ht u hu
      · exact h.held u (refers_iff.mpr (Or.inr (Or.inl ⟨t, p, hp, hu⟩)))
    · exact (h.eternal u ((hkind u).symm.trans hu)).holds
  · rcases refers_iff.mp (h.kept u hu ((halive u).mp hu')) with hn | ⟨t, p, hp, hn⟩ | hn
    · exact refers_iff.mpr (Or.inl ((hnames u).mpr hn))
    · have hp := (Store.mem_actions_addAction (a := a) ha).mpr (Or.inr hp)
      exact refers_iff.mpr (Or.inr (Or.inl ⟨t, p, hp, hn⟩))
    · exact refers_iff.mpr (Or.inr (Or.inr ((hkind u).trans hn)))
  · rw [Store.length_scopes_addAction]
    exact h.bound
  · rw [Store.lifetime_addAction]
    exact h.fresh u hu
  · have hdead : ¬ S.store.IsAlive u := fun ha' => hu ((halive u).mpr ha')
    have hus : u ≠ s := by
      rintro rfl
      exact hdead ha
    rw [Store.actions_addAction ha, if_neg hus]
    exact h.emptied u hdead

theorem Tidy.renamed (h : S.Tidy n) (name : Name) {hd : Handle} (hr : hd.Rooted S.store) :
    (S.renamed name hd).Tidy n := by
  have hnames : ∀ s, (S.renamed name hd).Names s ↔ S.Names s ∨ s ∈ hd.scopes S.store := fun s =>
    names_renamed h.sorted name hd
  refine h.resembles (.of_scopes rfl rfl) (h.sorted.put name hd) (fun p hp => ?_)
    (fun s hs => ?_) fun s _ hs => ?_
  · rcases HandleTable.mem_put hp with rfl | hp
    · exact hr.arena
    · exact h.arenas p hp
  · exact ((hnames s).mp hs).imp id (hr.scopes s)
  · exact refers_iff.mpr (Or.inl ((hnames s).mpr (Or.inl hs)))

theorem Tidy.closed (h : S.Tidy n) {before after : List Chore} (hc : S.chores = before ++ after)
    (ha : S.store.IsAlive s) (hg : (S.store.scope s).kind ≠ .global) :
    Tidy n { S with
      store := S.store.endScope s .closed
      chores := before ++ (S.store.holdings s).chores ++ after } := by
  have hnames : ∀ u, Names { S with
      store := S.store.endScope s .closed
      chores := before ++ (S.store.holdings s).chores ++ after } u ↔
        S.Names u ∨ ∃ p ∈ (S.store.scope s).actions, p.action.target? = some u := by
    intro u
    rw [names_endScope, ← hc]
  refine h.ends (l := .closed) (by simp) ha hg rfl rfl (fun u hu => ⟨?_, by simp⟩)
    (fun _ _ _ _ => by simp) (fun _ => by simp) (fun u _ hu => ?_) fun u p hp hu => ?_
  · rcases (hnames u).mp hu with hu | ⟨p, hp, hu⟩
    · exact refers_iff.mpr (Or.inl hu)
    · exact refers_iff.mpr (Or.inr (Or.inl ⟨s, p, hp, hu⟩))
  · exact (hnames u).mpr (Or.inl hu)
  · exact (hnames u).mpr (Or.inr ⟨p, hp, hu⟩)

theorem Tidy.edit (h : S.Tidy n) (he : S.Edit governs T) : T.Tidy n := by
  cases he with
  | store hk => exact h.keeps hk
  | renamed name hp => exact h.renamed name hp.toRooted
  | discarded hp =>
    refine h.resembles (.of_scopes rfl rfl) h.sorted h.arenas (fun s hs => ?_) fun s _ hs => ?_
    · rw [names_leave, Handle.mem_targets_dropChores] at hs
      exact hs.imp id (hp.scopes s)
    · exact refers_iff.mpr (Or.inl (names_leave.mpr (Or.inl hs)))
  | lost name =>
    have hstore : (S.lost name).store = S.store := S.store_lost name
    have hmem : ∀ p ∈ (S.lost name).handles, p ∈ S.handles := by
      unfold Session.lost
      split
      next => exact fun p hp => HandleTable.mem_of_mem_erase hp
      next => exact fun p hp => hp
    have hsorted : HandleTable.Sorted (S.lost name).handles := by
      unfold Session.lost
      split
      next => exact h.sorted.erase name
      next => exact h.sorted
    refine h.resembles ?_ hsorted (fun p hp => h.arenas p (hmem p hp)) (fun s hs => ?_)
      fun s _ hs => ?_
    · exact .of_scopes (by rw [hstore]) (by rw [hstore])
    · exact Or.inl ((names_lost h.sorted name).mp hs)
    · exact refers_iff.mpr (Or.inl ((names_lost h.sorted name).mpr hs))
  | @updated name _ hd hf _ hp hs =>
    refine h.resembles (.of_scopes rfl rfl) (h.sorted.put name hd) (fun p hp' => ?_)
      (fun s hn => ?_) fun s _ hn => ?_
    · rcases HandleTable.mem_put hp' with rfl | hp'
      · exact hp.arena
      · exact h.arenas p hp'
    · exact ((names_updated h.sorted hf hs).mp hn).imp id (hp.scopes s)
    · exact refers_iff.mpr (Or.inl ((names_updated h.sorted hf hs).mpr (Or.inl hn)))
  | @acquired s _ name ha =>
    have hpin : Tidy n { S with store := S.store.pin s } := by
      have hr := Store.resembles_pin ha
      have hnames : ∀ u, Names { S with store := S.store.pin s } u ↔ S.Names u := fun u =>
        names_store fun p _ => Handle.scopes_of_arenas hr.arenas
      refine h.resembles hr h.sorted h.arenas (fun u hu => Or.inl ((hnames u).mp hu))
        fun u _ hu => refers_iff.mpr (Or.inl ((hnames u).mpr hu))
    refine hpin.renamed name ⟨fun t ht => ?_, fun _ ha => by cases ha⟩
    obtain rfl := List.mem_singleton.mp ht
    exact (Store.resembles_pin ha).holds.mpr ha.holds
  | @closed s before after _ hc hl hk =>
    have ha : S.store.IsAlive s := by
      rw [Store.IsAlive, Scope.isAlive, hl]
    exact h.closed hc ha hk
  | accepted ha ht => exact h.accepted ha ht

theorem Tidy.edits (h : S.Tidy n) (he : S.Edits governs T) : T.Tidy n := by
  induction he with
  | refl => exact h
  | tail _ he ih => exact ih.edit he

/-! ### Chores -/

/-- A scope that nothing refers to ends. -/
theorem Tidy.reclaimed (h : S.Tidy n) (hn : S.store.scopes.length ≤ n) {rest : List Chore}
    (hc : S.chores = .letGo s :: rest) (ha : S.store.IsAlive s)
    (hr : ¬ S.store.IsReferred S.roots rest s) :
    Tidy n { S with
      store := S.store.endScope s .reclaimed
      chores := (S.store.holdings s).chores ++ rest } := by
  have htarget : S.chores.filterMap Chore.target? = s :: rest.filterMap Chore.target? := by
    rw [hc]
    exact List.filterMap_cons_some rfl
  have hrefers : ∀ u, Refers { S with chores := rest } u → u ≠ s := by
    rintro u hu rfl
    exact hr hu
  have hnames : ∀ u, Names { S with
      store := S.store.endScope s .reclaimed
      chores := (S.store.holdings s).chores ++ rest } u ↔
        Names { S with chores := rest } u ∨
          ∃ p ∈ (S.store.scope s).actions, p.action.target? = some u := fun u =>
    names_endScope [] rest
  have hback : ∀ u, Names { S with chores := rest } u → S.Names u := by
    intro u hu
    refine hu.imp id fun hu => ?_
    rw [htarget]
    exact List.mem_cons_of_mem _ hu
  have hg : (S.store.scope s).kind ≠ .global := fun hk =>
    hr (refers_iff (S := { S with chores := rest }).mpr (Or.inr (Or.inr hk)))
  have hown : ∀ t, ∀ p ∈ (S.store.scope t).actions, ∀ u, p.action.target? = some u →
      Refers { S with chores := rest } u := fun t p hp u hu =>
    refers_iff.mpr (Or.inr (Or.inl ⟨t, p, hp, hu⟩))
  refine h.ends (l := .reclaimed) (by simp) ha hg rfl rfl (fun u hu => ?_)
    (fun t p hp hu => absurd rfl (hrefers s (hown t p hp s hu))) (fun hns => ?_)
    (fun u hne hu => ?_) fun u p hp hu => (hnames u).mpr (Or.inr ⟨p, hp, hu⟩)
  · have hu' : Refers { S with chores := rest } u := by
      rcases (hnames u).mp hu with hu | ⟨p, hp, hu⟩
      · exact refers_iff.mpr (Or.inl hu)
      · exact hown s p hp u hu
    refine ⟨?_, fun he => absurd he (hrefers u hu')⟩
    rcases refers_iff.mp hu' with hu | hu
    · exact refers_iff.mpr (Or.inl (hback u hu))
    · exact refers_iff.mpr (Or.inr hu)
  · have hlt := Store.lt_length_of_isAlive ha
    exact absurd (Nat.le_trans hn hns) (Nat.not_le.mpr hlt)
  · refine (hnames u).mpr (Or.inl (hu.imp id fun hu => ?_))
    rw [htarget] at hu
    exact (List.mem_cons.mp hu).resolve_left hne

theorem Tidy.work (h : S.Tidy n) (hn : S.store.scopes.length ≤ n) (hw : S.Work T) : T.Tidy n := by
  have hsame : ∀ {τ : Store} {c : Chore} {rest : List Chore}, S.chores = c :: rest →
      S.store.Resembles τ → c.target? = none → Tidy n { S with store := τ, chores := rest } := by
    intro τ c rest hc hr ht
    have hrest : S.chores.filterMap Chore.target? = rest.filterMap Chore.target? := by
      rw [hc, List.filterMap_cons_none ht]
    refine h.resembles_chores hr (fun s hs => Or.inr (hrest ▸ hs)) fun s hs _ => ?_
    rw [hrest] at hs
    exact refers_iff.mpr (Or.inl (Or.inr hs))
  cases hw with
  | @begun p more rest hc hm =>
    have htarget : ∀ s, s ∈ (more ++ .finish p.ticket :: rest).filterMap Chore.target? ↔
        s ∈ S.chores.filterMap Chore.target? := by
      intro s
      have hfinish : (Chore.finish p.ticket :: rest).filterMap Chore.target? =
          rest.filterMap Chore.target? := List.filterMap_cons_none rfl
      rw [List.filterMap_append, List.mem_append, hm.mem_targets, hfinish, hc,
        Chore.mem_targets_cons]
      exact Iff.rfl
    refine h.resembles_chores (.of_scopes rfl rfl) (fun s hs => Or.inr ((htarget s).mp hs))
      fun s hs _ => refers_iff.mpr (Or.inl (Or.inr ((htarget s).mpr hs)))
  | ended hc => exact hsame hc (.of_scopes rfl rfl) rfl
  | written hc => exact hsame hc (.of_scopes rfl rfl) rfl
  | freed hc => exact hsame hc (.of_scopes rfl rfl) rfl
  | @unguarded s rest hc => exact hsame hc (Store.resembles_unpin _ s) rfl
  | @spared s rest hc hs =>
    have htarget : S.chores.filterMap Chore.target? = s :: rest.filterMap Chore.target? := by
      rw [hc]
      exact List.filterMap_cons_some rfl
    refine h.resembles_chores (τ := S.store) (.of_scopes rfl rfl)
      (fun u hu => Or.inr (htarget ▸ List.mem_cons_of_mem _ hu)) fun u hu ha => ?_
    rw [htarget] at hu
    rcases List.mem_cons.mp hu with rfl | hu
    · exact hs.elim (fun hd => absurd ha hd) id
    · exact refers_iff.mpr (Or.inl (Or.inr hu))
  | @reclaimed s rest hc ha hr =>
    exact h.reclaimed hn hc ha hr

/-- No chore makes a scope. -/
theorem length_scopes_advance (S : Session) (ctx : Context) :
    (S.advance ctx).store.scopes.length = S.store.scopes.length := by
  obtain ⟨σ, handles, chores⟩ := S
  cases chores with
  | nil => rfl
  | cons c rest =>
    show (c.step ctx _ σ rest).1.scopes.length = σ.scopes.length
    cases c with
    | perform p =>
      obtain ⟨more, _, hu⟩ := p.action.unfold_cases ctx (σ.note (.began p.ticket))
      show (p.action.unfold ctx (σ.note (.began p.ticket))).1.scopes.length = _
      rcases hu with hu | ⟨_, s, _, _, _, hu⟩ | ⟨_, s, _, _, hu⟩ | ⟨m, hu⟩
      · rw [hu]
        rfl
      · rw [hu]
        exact Store.length_scopes_endScope _ s _
      · rw [hu]
        exact Store.length_scopes_addAction _ s _
      · rw [hu]
        rfl
    | letGo s =>
      unfold Chore.step
      dsimp only
      split
      next => exact Store.length_scopes_endScope σ s _
      next => rfl
    | unguard s => exact (Store.resembles_unpin σ s).length
    | _ => rfl

/-- The references of the whole session are in order. -/
abbrev Tidied (S : Session) : Prop := S.Tidy S.store.scopes.length

theorem Tidy.advance (h : S.Tidied) (ctx : Context) : (S.advance ctx).Tidied := by
  have hl := length_scopes_advance S ctx
  cases hc : S.chores with
  | nil =>
    rw [advance_nil ctx hc]
    exact h
  | cons c rest =>
    obtain ⟨T, hw, he⟩ := advance_cases ctx hc
    have hT : T.Tidy S.store.scopes.length := h.work (Nat.le_refl _) hw
    unfold Tidied
    rw [hl]
    exact hT.edits he

/-- The scopes that are new are let go of, and that refers to them. -/
theorem Tidy.release (h : T.Tidy n) : (T.release n).Tidied := by
  have hfresh : ∀ s, s ∈ ((List.range' n (T.store.scopes.length - n)).map
      Chore.letGo).filterMap Chore.target? ↔ n ≤ s ∧ s < T.store.scopes.length := by
    intro s
    have hb := h.bound
    rw [List.filterMap_map, List.mem_filterMap]
    simp only [List.mem_range'_1, Function.comp, Chore.target?, Option.some.injEq,
      Nat.add_sub_of_le hb]
    constructor
    · rintro ⟨t, ht, rfl⟩
      exact ht
    · intro hs
      exact ⟨s, hs, rfl⟩
  have hnames : ∀ s, (T.release n).Names s ↔ T.Names s ∨ (n ≤ s ∧ s < T.store.scopes.length) :=
    fun s => by
      rw [← hfresh]
      exact names_leave
  have hrest : (T.release n).Tidy n := by
    refine h.resembles (.of_scopes rfl rfl) h.sorted h.arenas (fun s hs => ?_) fun s _ hs => ?_
    · exact ((hnames s).mp hs).imp id fun hs => ⟨hs.2, h.fresh s hs.1⟩
    · exact refers_iff.mpr (Or.inl ((hnames s).mpr (Or.inl hs)))
  refine { hrest with
    kept := fun s hs ha => ?_
    bound := Nat.le_refl _
    fresh := fun s hs => ?_ }
  · by_cases hn : s < n
    · exact hrest.kept s hn ha
    · exact refers_iff.mpr (Or.inl ((hnames s).mpr (Or.inr ⟨Nat.le_of_not_lt hn, hs⟩)))
  · rw [Store.scope_of_length_le hs]
    simp

/-- All that making a call can do to a session. -/
theorem begin_cases (hS : S.Rooted) (ctx : Context) (c : Call) :
    ∃ T, S.Edits c.Governs T ∧ (S.begin ctx c).2 = T.release S.store.scopes.length := by
  have hc : c.perform.Edits c.Governs ctx S fun _ _ => True := c.edits hS id
  unfold Session.begin
  cases hr : c.perform.run ctx S with
  | ok reply T => exact ⟨T, (hc.ok hr).1, rfl⟩
  | error refusal T => exact ⟨T, hc.error hr, rfl⟩

theorem Tidy.begin (h : S.Tidied) (ctx : Context) (c : Call) : (S.begin ctx c).2.Tidied := by
  obtain ⟨T, he, hT⟩ := begin_cases h.rooted ctx c
  rw [hT]
  exact (Tidy.edits h he).release

theorem tidy_initial : Session.initial.Tidied where
  sorted := .nil
  arenas p hp := by cases hp
  global := rfl
  eternal s hs := by
    by_cases h0 : s = 0
    · rw [h0]
      rfl
    · rw [Store.scope_of_length_le (Nat.one_le_iff_ne_zero.mpr h0)] at hs
      cases hs
  held s hs := by
    rcases refers_iff.mp hs with (hs | hs) | ⟨t, p, hp, _⟩ | hs
    · cases hs
    · cases hs
    · by_cases h0 : t = 0
      · subst h0
        cases hp
      · rw [Store.scope_of_length_le (Nat.one_le_iff_ne_zero.mpr h0)] at hp
        cases hp
    · by_cases h0 : s = 0
      · subst h0
        exact Store.IsAlive.holds rfl
      · rw [Store.scope_of_length_le (Nat.one_le_iff_ne_zero.mpr h0)] at hs
        cases hs
  kept s hs _ := by
    obtain rfl : s = 0 := Nat.lt_one_iff.mp hs
    exact refers_iff.mpr (Or.inr (Or.inr rfl))
  bound := Nat.le_refl _
  fresh s hs := by
    rw [Store.scope_of_length_le hs]
    simp
  emptied s hs := by
    by_cases h0 : s = 0
    · rw [h0]
      rfl
    · rw [Store.scope_of_length_le (Nat.one_le_iff_ne_zero.mpr h0)]

end ScopedMemory.Session

namespace ScopedMemory

/-- In every session that a run leads to the references are in order. -/
theorem play_tidied (past : List Move) : (play past).Tidied := by
  induction past with
  | nil => exact Session.tidy_initial
  | cons m past ih =>
    cases m with
    | call ctx c => exact Session.Tidy.begin ih ctx c
    | chore ctx => exact Session.Tidy.advance ih ctx

end ScopedMemory
