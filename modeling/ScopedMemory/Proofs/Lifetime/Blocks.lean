import ScopedMemory.Proofs.Lifetime.Fate
import ScopedMemory.Proofs.Lifetime.Private

namespace ScopedMemory

namespace Session

variable {S T : Session} {s : ScopeId}

/-! ### What a move does to the heap -/

/-- A call that neither acquires nor closes a scope places blocks for scopes that keep them. -/
theorem Edits.placed (he : S.Edits False T) :
    (∀ s, ∀ b ∈ (S.store.scope s).blocks, b ∈ (T.store.scope s).blocks) ∧
      ∃ news, T.store.events = news ++ S.store.events ∧ T.store.Placed news := by
  induction he with
  | refl => exact ⟨fun _ _ hb => hb, [], rfl, Store.placed_nil _⟩
  | @tail T U _ he ih =>
    obtain ⟨hheld, news, hev, hn⟩ := ih
    have hstep : (∀ s, ∀ b ∈ (T.store.scope s).blocks, b ∈ (U.store.scope s).blocks) ∧
        ∃ news, U.store.events = news ++ T.store.events ∧ U.store.Placed news := by
      cases he with
      | store hk => exact ⟨hk.held, hk.placed⟩
      | lost name =>
        rw [T.store_lost]
        exact ⟨fun _ _ hb => hb, [], rfl, Store.placed_nil _⟩
      | acquired hg => exact hg.elim
      | closed hg => exact hg.elim
      | @accepted u a _ _ =>
        refine ⟨fun s b hb => ?_, [], rfl, Store.placed_nil _⟩
        exact (T.store.blocks_addAction u a s).symm ▸ hb
      | _ => exact ⟨fun _ _ hb => hb, [], rfl, Store.placed_nil _⟩
    obtain ⟨hheld', news', hev', hn'⟩ := hstep
    refine ⟨fun s b hb => hheld' s b (hheld s b hb), news' ++ news,
      by rw [hev', hev, List.append_assoc], fun e hm => ?_⟩
    rcases List.mem_append.mp hm with hm | hm
    · exact hn' e hm
    · obtain ⟨pool, b, u, rfl, hb⟩ := hn e hm
      exact ⟨pool, b, u, rfl, hheld' u b hb⟩

/-- A move places blocks for scopes that have them then, or it frees what is first to be freed. -/
inductive Serves (S : Session) : Move → Session → Prop
  | placed {m T news} (he : T.store.events = news ++ S.store.events) (hn : T.store.Placed news) :
    Serves S m T
  | freed {ctx T bs rest} (hc : S.chores = .free bs :: rest)
    (he : T.store.events = bs.map .freed ++ S.store.events) : Serves S (.chore ctx) T

theorem serves_of_events {m : Move} (he : T.store.events = S.store.events) : S.Serves m T :=
  .placed (he.trans (List.nil_append _).symm) (Store.placed_nil _)

theorem serves_begin (hS : S.Rooted) (ctx : Context) (c : Call) :
    S.Serves (.call ctx c) (S.begin ctx c).2 := by
  by_cases hg : c.Governs
  · refine serves_of_events ?_
    rcases S.begin_governs ctx hg with ⟨_, _, _, _, _, he⟩ | ⟨_, _, he⟩ | he
    · rw [he]
      rfl
    · rw [he]
      rfl
    · rw [he]
  · obtain ⟨T, he, hT⟩ := begin_cases hS ctx c
    have hedits : S.Edits False T := eq_false hg ▸ he
    obtain ⟨_, news, hev, hn⟩ := hedits.placed
    rw [hT]
    exact .placed hev hn

theorem events_unfold (a : CloseAction) (ctx : Context) (σ : Store) :
    (a.unfold ctx σ).1.events = σ.events := by
  obtain ⟨_, _, hu⟩ := a.unfold_cases ctx σ
  rcases hu with hu | ⟨_, _, _, _, _, hu⟩ | ⟨_, _, _, _, hu⟩ | ⟨_, hu⟩ <;> rw [hu] <;> rfl

theorem serves_advance (S : Session) (ctx : Context) :
    S.Serves (.chore ctx) (S.advance ctx) := by
  cases hc : S.chores with
  | nil =>
    rw [advance_nil ctx hc]
    exact serves_of_events rfl
  | cons c rest =>
    have hstep := advance_cons ctx hc
    cases c with
    | free bs => exact .freed hc (by rw [hstep]; rfl)
    | perform p => exact serves_of_events (by rw [hstep]; exact events_unfold _ _ _)
    | letGo s =>
      refine serves_of_events ?_
      rw [hstep]
      simp only [Chore.step]
      split <;> rfl
    | unguard s =>
      refine serves_of_events ?_
      rw [hstep]
      simp only [Chore.step]
      unfold Store.unpin
      split <;> rfl
    | _ => exact serves_of_events (by rw [hstep]; rfl)

theorem serves_move (hS : S.Rooted) (m : Move) : S.Serves m (S.move m) := by
  cases m with
  | call ctx c => exact serves_begin hS ctx c
  | chore ctx => exact S.serves_advance ctx

theorem Sound.nodup {system : SystemAllocator} {strict : Prop} {G : List Region}
    (h : S.Sound system strict G) (hsep : system.Separate) :
    (S.store.blocks ++ S.waiting).Nodup :=
  h.store.accounted.nodup_iff.mp (SystemAllocator.nodup_unfreed hsep h.store.history)

/-- What is freed is in use. -/
theorem Sound.orderly {system : SystemAllocator} {strict : Prop} {G : List Region} {m : Move}
    (h : S.Sound system strict G) (hsep : system.Separate)
    (ho : HeapEvent.Orderly S.store.events) (hT : system.History T.store.events)
    (hm : S.Serves m T) : HeapEvent.Orderly T.store.events := by
  cases hm with
  | placed he hn =>
    rw [he] at hT ⊢
    exact ho.placed hsep hn.places hT
  | @freed _ _ bs rest hc he =>
    have hw : S.waiting = bs ++ rest.flatMap Chore.blocks := by
      unfold waiting
      rw [hc]
      rfl
    have hperm := h.store.accounted
    rw [hw] at hperm
    rw [he]
    exact ho.freed (hperm.trans (List.perm_append_comm_assoc _ _ _))

end Session

/-! ### Runs -/

variable {system : SystemAllocator} {past later : List Move} {s : ScopeId} {b : Block}

theorem play_orderly (hsep : system.Separate) (hw : ∀ m ∈ past, m.Within system) :
    HeapEvent.Orderly (play past).store.events := by
  induction past with
  | nil => trivial
  | cons m past ih =>
    have hpast := fun m' hm => hw m' (List.mem_cons_of_mem m hm)
    exact (play_sound hsep hpast False.elim).orderly hsep (ih hpast)
      (play_sound hsep hw False.elim).store.history
      (Session.serves_move (play_tidied past).rooted m)

/-- A block is freed once the actions of its scope have run, and not before its scope ends. -/
theorem play_fate (hsep : system.Separate) (hw : ∀ m ∈ later ++ past, m.Within system)
    (hb : b ∈ ((play past).store.scope s).blocks) :
    (play (later ++ past)).Fate (play past).store.events s b := by
  induction later with
  | nil =>
    have ha : (play past).store.IsAlive s := by
      by_contra hd
      have hempty : ((play past).store.scope s).blocks = [] :=
        ((play_sound hsep hw False.elim).store.ended s hd).1
      rw [hempty] at hb
      cases hb
    exact .kept ha hb ⟨[], rfl, List.not_mem_nil⟩
  | cons m later ih =>
    have hlater := fun m' hm => hw m' (List.mem_cons_of_mem m hm)
    have hrecorded := play_recorded (later ++ past)
    cases m with
    | call ctx c => exact (ih hlater).begin hrecorded (play_tidied (later ++ past)).rooted ctx c
    | chore ctx =>
      exact (ih hlater).advance hrecorded ((play_sound hsep hlater False.elim).nodup hsep) ctx

/-- A scope stays open until it is closed or nothing refers to it. -/
theorem play_isAlive_iff (ha : (play past).store.IsAlive s) :
    (play (later ++ past)).store.IsAlive s ↔
      (play (later ++ past)).Refers s ∧ ¬ Move.Closed past later s := by
  have hT := play_tidied (later ++ past)
  constructor
  · intro ho
    exact ⟨hT.kept s (Store.lt_length_of_isAlive ho) ho, fun hc => hc.ended.not_isAlive ho⟩
  · rintro ⟨hr, hc⟩
    obtain ⟨hknown, hheld⟩ := hT.held s hr
    unfold Store.IsAlive Scope.isAlive
    cases hl : ((play (later ++ past)).store.scope s).lifetime with
    | live n => rfl
    | closed => exact absurd (Move.closed_of_lifetime (fun _ => ha) hknown hl) hc
    | reclaimed => exact absurd hl hheld

/-- How blocks live from one point of a run to a later one. -/
structure BlocksLive (past later : List Move) : Prop where
  /-- Nothing is placed over a block in use, and nothing but a block in use is freed. -/
  orderly : HeapEvent.Orderly (play (later ++ past)).store.events
  once : ∀ b newer between older,
    (play (later ++ past)).store.events = newer ++ .freed b :: (between ++ .freed b :: older) →
      ∃ pool, .placed pool b ∈ between
  /-- Every block is that of a scope from the move on with which it is placed. -/
  serves : ∀ m, (play past).Serves m (play (m :: past))
  alive : ∀ s, (play past).store.IsAlive s →
    ((play (later ++ past)).store.IsAlive s ↔
      (play (later ++ past)).Refers s ∧ ¬ Move.Closed past later s)
  fate : ∀ s, ∀ b ∈ ((play past).store.scope s).blocks,
    (play (later ++ past)).Fate (play past).store.events s b
  /-- With nothing left to be done, those blocks are freed whose scopes were closed or that nothing
  refers to, and no others. -/
  settled : (play (later ++ past)).chores = [] →
    ∀ s, ∀ b ∈ ((play past).store.scope s).blocks,
      ((play (later ++ past)).store.Returned (play past).store.events b ↔
        Move.Closed past later s ∨ ¬ (play (later ++ past)).Refers s)
  settles : ∀ ctx, ∃ n, (play (List.replicate n (.chore ctx) ++ (later ++ past))).chores = []
  /-- A region that is allocated under a scope of its own shares it with parts of it only, and none
  can close it. -/
  mallocs : ∀ m older r size, past = m :: older → m.Mallocs (play older) r size →
    r.scope = (play older).store.scopes.length ∧ r.size = size ∧
      (play (later ++ past)).Private r.scope ⟨r.start, size⟩ ∧ ¬ Move.Closed past later r.scope

theorem Session.Fate.returned_iff {S : Session} {events : List HeapEvent}
    (h : S.Fate events s b) (hc : S.chores = []) :
    S.store.Returned events b ↔ ¬ S.store.IsAlive s := by
  cases h with
  | kept ha _ hr => exact iff_of_false hr.not_returned fun hd => hd ha
  | waiting _ hc' =>
    rw [hc] at hc'
    cases List.append_eq_nil_iff.mp hc'.symm |>.2
  | freed hd hr _ => exact iff_of_true hr hd.not_isAlive

/-- A block is freed at most once. It is freed once its scope is closed or nothing refers to that
any more, after all actions of the scope, and never before. -/
theorem play_blocks (hsep : system.Separate) (hw : ∀ m ∈ later ++ past, m.Within system) :
    BlocksLive past later where
  orderly := play_orderly hsep hw
  once b newer between older he := by
    have horderly := play_orderly hsep hw
    have hhistory := (play_sound hsep hw False.elim).store.history
    rw [he] at horderly hhistory
    exact horderly.once hsep hhistory
  serves m := Session.serves_move (play_tidied past).rooted m
  alive s ha := play_isAlive_iff ha
  fate s b hb := play_fate hsep hw hb
  settled hc s b hb := by
    have hfate := play_fate hsep hw hb
    have ha : (play past).store.IsAlive s := by
      by_contra hd
      have hempty := (play_aside past).emptied s hd
      rw [hempty] at hb
      cases hb
    rw [hfate.returned_iff hc, play_isAlive_iff ha, not_and_or, not_not, or_comm]
  settles ctx := by
    refine ⟨(play (later ++ past)).store.weight (play (later ++ past)).chores, ?_⟩
    rw [play_doChores ctx (later ++ past) _ rfl]
    exact doChores_eq_nil _ _ (Nat.le_refl _)
  mallocs m older r size he hm := by
    subst he
    obtain ⟨hs, hsize, haside, kind, creator, hk, hscope⟩ := hm.born
    have hlonely : (play (m :: older)).Lonely r.scope ⟨r.start, size⟩ :=
      ⟨haside, kind, creator, hk, Or.inl hscope⟩
    have hprivate := (play_lonely hlonely later).private (play_tidied (later ++ m :: older))
    exact ⟨hs, hsize, hprivate, fun hc => hprivate.unclosed hc.ended.lifetime⟩

/-- A region under a scope to be closed, and one under a scope of its own. -/
def freeingCalls : List (Thread × Call) :=
  [(0, .scope (.create .shared "s")),
    (0, .scope (.allocateNative 8 8 "s" (some "r"))),
    (0, .scope (.addAction "s" "bye" (.hold "r"))),
    (0, .allocation (.perRequest .shared "m")),
    (0, .allocation (.allocate (.raw 16 8) "m" (some "q")))]

/-- The scope is closed, and then all that is left to be done is done. -/
def freeingMoves : List Move :=
  List.replicate 8 (.chore ⟨0, TwinHeaps.system⟩) ++
    [.call ⟨0, TwinHeaps.system⟩ (.scope (.close "s"))]

/-- The block of the scope that is closed is freed, and the other is not. -/
theorem freeingCalls_blocks :
    (∀ m ∈ freeingMoves ++ movesOf TwinHeaps.system freeingCalls,
      m.Within TwinHeaps.system) ∧
    (play (freeingMoves ++ movesOf TwinHeaps.system freeingCalls)).store.Returned
      (play (movesOf TwinHeaps.system freeingCalls)).store.events ⟨0x20000008, 8⟩ ∧
    (play (freeingMoves ++ movesOf TwinHeaps.system freeingCalls)).Private 2 ⟨0x20000018, 16⟩ ∧
    ¬ (play (freeingMoves ++ movesOf TwinHeaps.system freeingCalls)).store.Returned
      (play (movesOf TwinHeaps.system freeingCalls)).store.events ⟨0x20000018, 16⟩ := by
  have hw : ∀ m ∈ freeingMoves ++ movesOf TwinHeaps.system freeingCalls,
      m.Within TwinHeaps.system := by
    intro m hm
    rcases List.mem_append.mp hm with hm | hm
    · rcases List.mem_append.mp hm with hm | hm
      · rw [List.eq_of_mem_replicate hm]
        trivial
      · rw [List.mem_singleton.mp hm]
        exact .refl TwinHeaps.system
    · exact within_movesOf TwinHeaps.system freeingCalls m hm
  have h := play_blocks TwinHeaps.lawful.separate hw
  have hclosed : Move.Closed (movesOf TwinHeaps.system freeingCalls) freeingMoves 1 :=
    ⟨List.replicate 8 (.chore ⟨0, TwinHeaps.system⟩), _, [], rfl, .call rfl rfl⟩
  obtain ⟨_, _, hprivate, hopen⟩ := h.mallocs
    (.call ⟨0, TwinHeaps.system⟩ (.allocation (.allocate (.raw 16 8) "m" (some "q"))))
    (movesOf TwinHeaps.system (freeingCalls.take 4)) _ 16 rfl (.allocate rfl rfl rfl)
  refine ⟨hw, (h.settled rfl 1 _ (by decide)).mpr (Or.inl hclosed), hprivate, fun hr => ?_⟩
  rcases (h.settled rfl 2 _ (by decide)).mp hr with hc | hn
  · exact hopen hc
  · exact hn (hprivate.alive.mp rfl)

end ScopedMemory
