import ScopedMemory.Proofs.Lifetime.Tidy

namespace ScopedMemory

/-- The word that stands for the state of a scope: `-1` once it is closed, else the number of guards
on it. None is on a scope that has been reclaimed. -/
def Lifetime.word : Lifetime → Int
  | live guards => guards
  | closed => -1
  | reclaimed => 0

/-- Whether the handle is a guard on the scope. -/
def Handle.guards (s : ScopeId) : Handle → Nat
  | guard t => if t = s then 1 else 0
  | _ => 0

/-- A guard is on its scope until it has been taken off. -/
def Chore.guards (s : ScopeId) : Chore → Nat
  | unguard t => if t = s then 1 else 0
  | _ => 0

theorem Handle.guards_of_not_isGuard {h : Handle} (hg : ¬ h.IsGuard) (s : ScopeId) :
    h.guards s = 0 := by
  cases h with
  | guard t => exact absurd trivial hg
  | _ => rfl

theorem Chore.guards_map_letGo (ss : List ScopeId) (s : ScopeId) :
    total (Chore.guards s) (ss.map .letGo) = 0 := by
  rw [total_map]
  exact total_eq_zero fun _ _ => rfl

theorem Handle.guards_dropChores (h : Handle) (σ : Store) (s : ScopeId) :
    total (Chore.guards s) (h.dropChores σ) = h.guards s := by
  cases h with
  | guard t => rfl
  | _ => exact Chore.guards_map_letGo _ s

theorem CloseAction.Leaves.guards {a : CloseAction} {more : List Chore} (h : a.Leaves more)
    (s : ScopeId) : total (Chore.guards s) more = 0 := by
  refine total_eq_zero fun c hc => ?_
  rcases h.only c hc with ⟨text, rfl⟩ | ⟨u, _, rfl⟩
  · rfl
  · rfl

theorem Chore.guards_holdings (held : Holdings) (s : ScopeId) :
    total (Chore.guards s) held.chores = 0 := by
  have hactions : total (Chore.guards s) (held.actions.map .perform) = 0 := by
    rw [total_map]
    exact total_eq_zero fun _ _ => rfl
  unfold Holdings.chores
  rw [total_append, hactions]
  rfl

/-- A guard that goes still refers to its scope until it has been taken off. -/
def Chore.Followed : List Chore → Prop
  | [] => True
  | unguard s :: rest => letGo s ∈ rest ∧ Followed rest
  | _ :: rest => Followed rest

namespace Chore

variable {s : ScopeId} {xs ys : List Chore}

theorem Followed.append (hx : Followed xs) (hy : Followed ys) : Followed (xs ++ ys) := by
  induction xs with
  | nil => exact hy
  | cons c xs ih =>
    cases c with
    | unguard s => exact ⟨List.mem_append_left _ hx.1, ih hx.2⟩
    | _ => exact ih hx

theorem Followed.tail {c : Chore} (h : Followed (c :: xs)) : Followed xs := by
  cases c with
  | unguard s => exact h.2
  | _ => exact h

/-- A list without guards to be taken off. -/
theorem followed_of_guards (h : ∀ s, total (Chore.guards s) xs = 0) : Followed xs := by
  induction xs with
  | nil => trivial
  | cons c xs ih =>
    have hc : ∀ s, c.guards s = 0 ∧ total (Chore.guards s) xs = 0 := fun s => by
      have hs := h s
      rw [total_cons] at hs
      omega
    cases c with
    | unguard s =>
      have hone : (if s = s then 1 else 0) = 0 := (hc s).1
      rw [if_pos rfl] at hone
      cases hone
    | _ => exact ih fun s => (hc s).2

theorem Followed.insert {before after : List Chore} (h : Followed (before ++ after))
    (hx : ∀ s, total (Chore.guards s) xs = 0) : Followed (before ++ xs ++ after) := by
  induction before with
  | nil => exact (followed_of_guards hx).append h
  | cons c before ih =>
    cases c with
    | unguard s =>
      refine ⟨?_, ih h.2⟩
      rcases List.mem_append.mp h.1 with hm | hm
      · exact List.mem_append_left _ (List.mem_append_left _ hm)
      · exact List.mem_append_right _ hm
    | _ => exact ih h

theorem Followed.letGo_mem (h : Followed xs) (hs : total (Chore.guards s) xs ≠ 0) :
    letGo s ∈ xs := by
  induction xs with
  | nil => exact absurd rfl hs
  | cons c xs ih =>
    cases c with
    | unguard t =>
      by_cases ht : t = s
      · subst ht
        exact List.mem_cons_of_mem _ h.1
      · refine List.mem_cons_of_mem _ (ih h.2 fun h0 => hs ?_)
        have hone : Chore.guards s (unguard t) = 0 := if_neg ht
        rw [total_cons, hone, h0]
    | _ =>
      refine List.mem_cons_of_mem _ (ih h fun h0 => hs ?_)
      exact (Nat.zero_add _).trans h0

theorem followed_dropChores (h : Handle) (σ : Store) : Followed (h.dropChores σ) := by
  have hmap : ∀ ss : List ScopeId, Followed (ss.map .letGo) := fun ss =>
    followed_of_guards (guards_map_letGo ss)
  cases h with
  | guard t => exact ⟨List.mem_cons_self, trivial⟩
  | _ => exact hmap _

end Chore

namespace Store

variable {σ τ : Store} {s : ScopeId}

theorem guards_eq_zero (h : ¬ σ.IsAlive s) : σ.guards s = 0 := by
  unfold guards
  split
  next n hl =>
    unfold IsAlive Scope.isAlive at h
    rw [hl] at h
    exact absurd rfl h
  next => rfl

theorem guards_of_lifetime (h : (τ.scope s).lifetime = (σ.scope s).lifetime) :
    τ.guards s = σ.guards s := by
  unfold guards
  rw [h]

/-- Scopes that are new have no guard. -/
theorem Keeps.guards (h : σ.Keeps τ) (s : ScopeId) : τ.guards s = σ.guards s := by
  by_cases hs : s < σ.scopes.length
  · exact guards_of_lifetime (h.lifetime hs)
  · have hle := Nat.le_of_not_lt hs
    have hσ : σ.guards s = 0 := by
      unfold Store.guards
      rw [scope_of_length_le hle]
    rw [hσ]
    unfold Store.guards
    by_cases hs' : s < τ.scopes.length
    · obtain ⟨_, _, _, hb⟩ := h.new s hle hs'
      have he : (τ.scope s).lifetime = .live 0 := by
        show (τ.scope s).bare.lifetime = _
        rw [hb]
      rw [he]
    · rw [scope_of_length_le (Nat.le_of_not_lt hs')]

theorem guards_setLive (n : Nat) (ha : σ.IsAlive s) (t : ScopeId) :
    (σ.setLifetime s (.live n)).guards t = if t = s then n else σ.guards t := by
  have hs := lt_length_of_isAlive ha
  unfold guards
  rw [scope_setLifetime]
  simp only [hs, and_true]
  by_cases ht : t = s
  · rw [if_pos ht, if_pos ht]
  · rw [if_neg ht, if_neg ht]

theorem guards_endScope {l : Lifetime} (ha : σ.IsAlive s) (hl : ∀ n, l ≠ .live n)
    (h0 : σ.guards s = 0) (t : ScopeId) : (σ.endScope s l).guards t = σ.guards t := by
  by_cases ht : t = s
  · subst ht
    rw [h0]
    exact guards_eq_zero fun h => ((isAlive_endScope ha hl).mp h).1 rfl
  · refine guards_of_lifetime ?_
    rw [scope_endScope_of_isAlive ha, if_neg ht]

end Store

namespace Session

variable {governs : Prop} {S T : Session} {n : Nat} {s : ScopeId}

/-- How many guards are on the scope: those that have a name and those yet to be taken off. -/
def guardsOn (S : Session) (s : ScopeId) : Nat :=
  total (fun p => p.2.guards s) S.handles + total (Chore.guards s) S.chores

theorem guardsOn_renamed (hS : HandleTable.Sorted S.handles) (name : Name) (h : Handle)
    (s : ScopeId) : (S.renamed name h).guardsOn s = S.guardsOn s + h.guards s := by
  have ht := hS.total_put name h (Handle.guards s)
  unfold guardsOn Session.renamed
  rw [total_append]
  cases hf : S.handles.find? name with
  | none =>
    rw [hf] at ht
    simp only [Option.elim_none, total_nil] at ht ⊢
    omega
  | some old =>
    rw [hf] at ht
    simp only [Option.elim_some, Handle.guards_dropChores] at ht ⊢
    omega

theorem guardsOn_lost (hS : HandleTable.Sorted S.handles) (name : Name) (s : ScopeId) :
    (S.lost name).guardsOn s = S.guardsOn s := by
  unfold Session.lost
  cases hf : S.handles.find? name with
  | none => rfl
  | some old =>
    have ht := hS.total_erase hf (Handle.guards s)
    unfold guardsOn
    rw [total_append, Handle.guards_dropChores]
    show total _ (S.handles.erase name) + _ = _
    omega

/-- The numbers that scopes hold are those of the guards on them. -/
structure Counted (S : Session) : Prop where
  followed : Chore.Followed S.chores
  guards : ∀ s, S.store.guards s = S.guardsOn s

theorem followed_renamed (h : Chore.Followed S.chores) (name : Name) (hd : Handle) :
    Chore.Followed (S.renamed name hd).chores := by
  unfold Session.renamed
  refine h.append ?_
  cases S.handles.find? name with
  | none => trivial
  | some old => exact Chore.followed_dropChores old _

theorem Counted.renamed (h : S.Counted) (hS : HandleTable.Sorted S.handles) (name : Name)
    {hd : Handle} (hg : ¬ hd.IsGuard) : (S.renamed name hd).Counted where
  followed := followed_renamed h.followed name hd
  guards s := by
    rw [guardsOn_renamed hS, Handle.guards_of_not_isGuard hg]
    exact h.guards s

theorem Counted.acquired (h : S.Counted) (hS : HandleTable.Sorted S.handles) (name : Name)
    (ha : S.store.IsAlive s) :
    (Session.renamed { S with store := S.store.pin s } name (.guard s)).Counted := by
  refine ⟨followed_renamed (S := { S with store := S.store.pin s }) h.followed name _,
    fun t => ?_⟩
  have hr := guardsOn_renamed (S := { S with store := S.store.pin s }) hS name (.guard s) t
  have hp : (S.store.pin s).guards t = if t = s then S.store.guards s + 1 else
      S.store.guards t := Store.guards_setLive _ ha t
  have hg := h.guards t
  have hsame : guardsOn { S with store := S.store.pin s } t = S.guardsOn t := rfl
  have hone : (Handle.guard s).guards t = if s = t then 1 else 0 := rfl
  show (S.store.pin s).guards t = _
  rw [hr, hp, hsame, hone]
  by_cases ht : t = s
  · subst ht
    rw [if_pos rfl, if_pos rfl]
    omega
  · rw [if_neg ht, if_neg (Ne.symm ht)]
    exact hg

theorem Counted.closed (h : S.Counted) {before after : List Chore} (hc : S.chores = before ++ after)
    (ha : S.store.IsAlive s) (hl : (S.store.scope s).lifetime = .live 0) :
    Counted { S with
      store := S.store.endScope s .closed
      chores := before ++ (S.store.holdings s).chores ++ after } := by
  have h0 : S.store.guards s = 0 := by
    unfold Store.guards
    rw [hl]
  have hnone : ∀ t, total (Chore.guards t) (S.store.holdings s).chores = 0 :=
    Chore.guards_holdings _
  refine ⟨(hc ▸ h.followed).insert hnone, fun t => ?_⟩
  have hg := h.guards t
  have hend := Store.guards_endScope (l := .closed) ha (by simp) h0 t
  unfold guardsOn at hg ⊢
  rw [hc, total_append] at hg
  rw [total_append, total_append, hnone t]
  show (S.store.endScope s .closed).guards t = total _ S.handles + _
  omega

theorem Counted.edit (h : S.Counted) (hS : HandleTable.Sorted S.handles)
    (he : S.Edit governs T) : T.Counted := by
  cases he with
  | store hk => exact ⟨h.followed, fun s => (hk.guards s).trans (h.guards s)⟩
  | renamed name hp => exact h.renamed hS name hp.unguarded
  | @discarded hd hp =>
    refine ⟨h.followed.append (Chore.followed_dropChores hd _), fun s => ?_⟩
    have h0 := Handle.guards_of_not_isGuard hp.unguarded s
    have hg := h.guards s
    unfold guardsOn at hg ⊢
    rw [total_append, Handle.guards_dropChores]
    show S.store.guards s = total _ S.handles + _
    omega
  | lost name =>
    refine ⟨?_, fun s => ?_⟩
    · unfold Session.lost
      split
      next old _ => exact h.followed.append (Chore.followed_dropChores old _)
      next => exact h.followed
    · rw [guardsOn_lost hS, S.store_lost]
      exact h.guards s
  | @updated name old hd hf ho hp hs =>
    refine ⟨h.followed, fun s => ?_⟩
    have ht := hS.total_put name hd (Handle.guards s)
    rw [hf, Option.elim_some, Handle.guards_of_not_isGuard ho,
      Handle.guards_of_not_isGuard hp.unguarded] at ht
    have hg := h.guards s
    unfold guardsOn at hg ⊢
    show S.store.guards s = total _ (HandleTable.put name hd S.handles) +
      total (Chore.guards s) S.chores
    omega
  | @acquired s _ name ha =>
    exact h.acquired hS name ha
  | @closed s before after _ hc hl hk =>
    have ha : S.store.IsAlive s := by
      rw [Store.IsAlive, Scope.isAlive, hl]
    exact h.closed hc ha hl
  | @accepted s a ha ht =>
    refine ⟨h.followed, fun t => ?_⟩
    exact (Store.guards_of_lifetime (Store.lifetime_addAction _ s a t)).trans (h.guards t)

theorem Counted.edits (h : S.Counted) (hS : S.Tidy n) (he : S.Edits governs T) : T.Counted := by
  induction he with
  | refl => exact h
  | tail he' he ih => exact ih.edit (hS.edits he').sorted he

/-- A scope that nothing refers to has no guard. -/
theorem guardsOn_eq_zero (hf : Chore.Followed S.chores) (hr : ¬ S.Refers s) : S.guardsOn s = 0 := by
  have hhandles : total (fun p => p.2.guards s) S.handles = 0 := by
    refine total_eq_zero fun p hp => ?_
    have hs : s ∉ p.2.scopes S.store := fun hs =>
      hr (refers_iff.mpr (Or.inl (Or.inl (mem_roots.mpr ⟨p, hp, hs⟩))))
    obtain ⟨name, hd⟩ := p
    cases hd with
    | guard t => exact if_neg fun he => hs (List.mem_singleton.mpr he.symm)
    | _ => rfl
  have hchores : total (Chore.guards s) S.chores = 0 := by
    by_cases h0 : total (Chore.guards s) S.chores = 0
    · exact h0
    · have hm := hf.letGo_mem h0
      exact absurd (refers_iff.mpr (Or.inl (Or.inr (List.mem_filterMap.mpr ⟨_, hm, rfl⟩)))) hr
  unfold guardsOn
  omega

theorem Counted.unguarded (h : S.Counted) {rest : List Chore} (hc : S.chores = .unguard s :: rest) :
    Counted { S with store := S.store.unpin s, chores := rest } := by
  have hfollowed : Chore.Followed (.unguard s :: rest) := hc ▸ h.followed
  refine ⟨hfollowed.2, fun t => ?_⟩
  have hg : ∀ t, S.store.guards t =
      (if s = t then 1 else 0) + guardsOn { S with chores := rest } t := by
    intro t
    rw [h.guards]
    unfold guardsOn
    rw [hc, total_cons]
    show _ + ((if s = t then 1 else 0) + _) = _
    exact Nat.add_left_comm _ _ _
  have ha : S.store.IsAlive s := by
    by_cases ha : S.store.IsAlive s
    · exact ha
    · have h0 := hg s
      rw [Store.guards_eq_zero ha, if_pos rfl] at h0
      omega
  have hu : (S.store.unpin s).guards t =
      if t = s then S.store.guards s - 1 else S.store.guards t := by
    unfold Store.unpin
    rw [if_pos ha]
    exact Store.guards_setLive _ ha t
  show (S.store.unpin s).guards t = guardsOn { S with chores := rest } t
  rw [hu]
  have ht := hg t
  by_cases hts : t = s
  · subst hts
    rw [if_pos rfl] at ht ⊢
    omega
  · rw [if_neg (Ne.symm hts), Nat.zero_add] at ht
    rw [if_neg hts]
    exact ht

theorem Counted.reclaimed {rest : List Chore} (h : Counted { S with chores := rest })
    (ha : S.store.IsAlive s) (hr : ¬ S.store.IsReferred S.roots rest s) :
    Counted { S with
      store := S.store.endScope s .reclaimed
      chores := (S.store.holdings s).chores ++ rest } := by
  have h0 : S.store.guards s = 0 :=
    (h.guards s).trans (guardsOn_eq_zero (S := { S with chores := rest }) h.followed hr)
  have hnone : ∀ t, total (Chore.guards t) (S.store.holdings s).chores = 0 :=
    Chore.guards_holdings _
  refine ⟨(Chore.followed_of_guards hnone).append h.followed, fun t => ?_⟩
  have hend := Store.guards_endScope (l := .reclaimed) ha (by simp) h0 t
  have hg := h.guards t
  unfold guardsOn at hg ⊢
  rw [total_append, hnone t]
  show (S.store.endScope s .reclaimed).guards t = _
  rw [hend, Nat.zero_add]
  exact hg

theorem Counted.work (h : S.Counted) (hw : S.Work T) : T.Counted := by
  have hsame : ∀ {τ : Store} {c : Chore} {rest : List Chore}, S.chores = c :: rest →
      (∀ s, c.guards s = 0) → (∀ s, τ.guards s = S.store.guards s) →
      Counted { S with store := τ, chores := rest } := by
    intro τ c rest hc h0 hg
    refine ⟨(hc ▸ h.followed : Chore.Followed (c :: rest)).tail, fun s => ?_⟩
    have hs := h.guards s
    have hcs := h0 s
    unfold guardsOn at hs ⊢
    rw [hc, total_cons] at hs
    show τ.guards s = total _ S.handles + total _ rest
    rw [hg]
    omega
  cases hw with
  | @begun p more rest hc hm =>
    have hrest : Chore.Followed rest := (hc ▸ h.followed : Chore.Followed (.perform p :: rest))
    refine ⟨(Chore.followed_of_guards hm.guards).append hrest, fun s => ?_⟩
    have hs := h.guards s
    unfold guardsOn at hs ⊢
    rw [hc, total_cons] at hs
    rw [total_append, total_cons, hm.guards]
    show S.store.guards s = total _ S.handles + (0 + (0 + total _ rest))
    rw [hs]
    show _ + (0 + _) = _
    omega
  | ended hc => exact hsame hc (fun _ => rfl) fun _ => rfl
  | written hc => exact hsame hc (fun _ => rfl) fun _ => rfl
  | freed hc => exact hsame hc (fun _ => rfl) fun _ => rfl
  | spared hc hs => exact hsame (τ := S.store) hc (fun _ => rfl) fun _ => rfl
  | @reclaimed s rest hc ha hr =>
    have hT : Counted { S with chores := rest } := hsame hc (fun _ => rfl) fun _ => rfl
    exact hT.reclaimed ha hr
  | @unguarded s rest hc =>
    exact h.unguarded hc

theorem Counted.advance (h : S.Counted) (hS : S.Tidied) (ctx : Context) :
    (S.advance ctx).Counted := by
  cases hc : S.chores with
  | nil =>
    rw [advance_nil ctx hc]
    exact h
  | cons c rest =>
    obtain ⟨T, hw, he⟩ := advance_cases ctx hc
    exact (h.work hw).edits (hS.work (Nat.le_refl _) hw) he

theorem Counted.begin (h : S.Counted) (hS : S.Tidied) (ctx : Context) (c : Call) :
    (S.begin ctx c).2.Counted := by
  obtain ⟨T, he, hT⟩ := begin_cases hS.rooted ctx c
  have hc := h.edits hS he
  rw [hT]
  refine ⟨hc.followed.append (Chore.followed_of_guards (Chore.guards_map_letGo _)), fun s => ?_⟩
  have hg := hc.guards s
  unfold guardsOn Session.release at *
  rw [total_append, Chore.guards_map_letGo]
  exact hg

/-- No scope is taken away. -/
theorem Edit.length_scopes (he : S.Edit governs T) :
    S.store.scopes.length ≤ T.store.scopes.length := by
  cases he with
  | store hk => exact hk.scopes
  | lost name => simp [S.store_lost name]
  | acquired => simp [Session.renamed, Store.pin]
  | closed => simp
  | accepted => simp
  | _ => exact Nat.le_refl _

theorem Edits.length_scopes (he : S.Edits governs T) :
    S.store.scopes.length ≤ T.store.scopes.length := by
  induction he with
  | refl => exact Nat.le_refl _
  | tail _ he ih => exact Nat.le_trans ih he.length_scopes

theorem Edit.lifetime (he : S.Edit False T) (hs : s < S.store.scopes.length) :
    (T.store.scope s).lifetime = (S.store.scope s).lifetime := by
  cases he with
  | store hk => exact hk.lifetime hs
  | lost name => rw [S.store_lost name]
  | acquired hg => exact hg.elim
  | closed hg => exact hg.elim
  | accepted => exact Store.lifetime_addAction _ _ _ s
  | _ => rfl

/-- What governs no scope leaves every scope that there was in its state. -/
theorem Edits.lifetime (he : S.Edits False T) (hs : s < S.store.scopes.length) :
    (T.store.scope s).lifetime = (S.store.scope s).lifetime := by
  induction he with
  | refl => rfl
  | @tail U V hU he ih =>
    have hknown := Nat.lt_of_lt_of_le hs (Edits.length_scopes hU)
    exact (he.lifetime hknown).trans ih

end Session

theorem play_counted (past : List Move) : (play past).Counted := by
  induction past with
  | nil =>
    refine ⟨trivial, fun s => ?_⟩
    by_cases h0 : s = 0
    · rw [h0]
      rfl
    · show Store.guards .initial s = 0
      unfold Store.guards
      rw [Store.scope_of_length_le (Nat.one_le_iff_ne_zero.mpr h0)]
  | cons m past ih =>
    cases m with
    | call ctx c => exact ih.begin (play_tidied past) ctx c
    | chore ctx => exact ih.advance (play_tidied past) ctx

namespace Session

variable {S : Session} {s : ScopeId} {ctx : Context}

/-- The word of a scope that is not closed is the number of guards on it, and a closed one has
none. -/
theorem Counted.word (h : S.Counted) (s : ScopeId) :
    ((S.store.scope s).lifetime ≠ .closed → (S.store.scope s).lifetime.word = S.guardsOn s) ∧
      ((S.store.scope s).lifetime = .closed →
        (S.store.scope s).lifetime.word = -1 ∧ S.guardsOn s = 0) := by
  have hg := h.guards s
  unfold Store.guards at hg
  cases hl : (S.store.scope s).lifetime with
  | live n =>
    rw [hl] at hg
    exact ⟨fun _ => congrArg Int.ofNat hg, fun h => by cases h⟩
  | closed =>
    rw [hl] at hg
    exact ⟨fun h => absurd rfl h, fun _ => ⟨rfl, hg.symm⟩⟩
  | reclaimed =>
    rw [hl] at hg
    exact ⟨fun _ => congrArg Int.ofNat hg, fun h => by cases h⟩

/-- The scope is one that can be closed, and the caller is allowed to. -/
structure Closable (S : Session) (ctx : Context) (s : ScopeId) : Prop where
  refers : S.Refers s
  kind : (S.store.scope s).kind = .confined ∨ (S.store.scope s).kind = .shared
  owner : S.store.checkOwner ctx.caller s = .ok ()

/-- What closing a scope answers, by its guards. -/
theorem Counted.run_close (h : S.Counted) (hS : S.Tidied) (hc : S.Closable ctx s) :
    (ScopeId.close s).run ctx S.store =
      if (S.store.scope s).lifetime = .closed then .error (.alreadyClosed s) S.store
      else if S.guardsOn s = 0 then .ok (S.store.holdings s) (S.store.endScope s .closed)
      else .error (.scopeAcquired s (S.guardsOn s)) S.store := by
  have hg := h.guards s
  have hheld : (S.store.scope s).lifetime ≠ .reclaimed := (hS.held s hc.refers).2
  unfold Store.guards at hg
  simp only [ScopeId.close, Operation.run_bind, Operation.run_checkOwner, hc.owner,
    Operation.run_require_ok, Operation.run_get]
  rcases hc.kind with hk | hk <;> rw [hk]
  all_goals
    cases hl : (S.store.scope s).lifetime with
    | live n =>
      rw [hl] at hg
      cases n with
      | zero =>
        rw [if_neg (by simp), if_pos hg.symm]
        rfl
      | succ n =>
        have hg : n + 1 = S.guardsOn s := hg
        rw [if_neg (by simp), if_neg (by omega), ← hg]
        rfl
    | closed => rfl
    | reclaimed => exact absurd hl hheld

/-- A call that neither acquires nor closes a scope leaves the scopes that there are in their
states. -/
theorem lifetime_begin (hS : S.Rooted) (ctx : Context) {c : Call} (hc : ¬ c.Governs)
    (hs : s < S.store.scopes.length) :
    ((S.begin ctx c).2.store.scope s).lifetime = (S.store.scope s).lifetime := by
  obtain ⟨T, he, hT⟩ := begin_cases hS ctx c
  have hedits : S.Edits False T := eq_false hc ▸ he
  rw [hT]
  exact hedits.lifetime hs

/-- So does an action, unless it closes a scope. -/
theorem lifetime_perform (ctx : Context) {p : PendingAction} {rest : List Chore}
    (hc : S.chores = .perform p :: rest) (hp : ¬ (Chore.perform p).Governs) (s : ScopeId) :
    ((S.advance ctx).store.scope s).lifetime = (S.store.scope s).lifetime := by
  have hlen := length_scopes_advance S ctx
  obtain ⟨T, hw, he⟩ := perform_cases ctx hc
  have hsame : T.store.scopes = S.store.scopes := by
    cases hw with
    | begun => rfl
    | _ hc' => cases hc.symm.trans hc'
  have hscope : ∀ s, T.store.scope s = S.store.scope s := fun s => by
    unfold Store.scope
    rw [hsame]
  have hedits : T.Edits False (S.advance ctx) := eq_false hp ▸ he
  by_cases hs : s < S.store.scopes.length
  · rw [hedits.lifetime (hsame ▸ hs), hscope]
  · have hle := Nat.le_of_not_lt hs
    rw [Store.scope_of_length_le hle, Store.scope_of_length_le (hlen ▸ hle)]

end Session

end ScopedMemory
