import ScopedMemory.Proofs.Session.Regions
import ScopedMemory.Proofs.Session.Variadics

namespace ScopedMemory

variable {system : SystemAllocator} {strict : Prop} {G : List Region} {gs : List Grant}
  {S T : Session} {ctx : Context}

/-! ### Moves keep a session sound -/

theorem Call.safe (hsep : system.Separate) (h : S.Sound system strict G)
    (hw : ctx.system.Within system) (c : Call) (hstrict : strict → ¬ c.Adopts) :
    c.perform.Safe system strict G (c.grants ctx S) ctx S := by
  cases c with
  | handle c => exact c.safe h
  | scope c => exact c.safe hsep h hw
  | region c => exact c.safe hsep h hstrict
  | allocation c => exact c.safe hsep h hw
  | variadic c => exact c.safe hsep h hw hstrict

theorem Session.Comes.release (h : S.Comes system strict G gs T) :
    S.Comes system strict G gs (T.release S.store.scopes.length) := by
  refine h.handles rfl (h.sound.leave (fun c hc => ?_) ?_)
  · obtain ⟨s, hs, rfl⟩ := List.mem_map.mp hc
    obtain ⟨hge, hlt⟩ := List.mem_range'_1.mp hs
    rw [Nat.add_sub_of_le h.later.scopes] at hlt
    refine ⟨hlt, fun hr => ?_⟩
    have hold := h.spares s hr
    rw [Store.scope_of_length_le hge] at hold
    cases hold
  · simp [List.flatMap_map, Chore.blocks]

theorem Session.comes_begin (hsep : system.Separate) (h : S.Sound system strict G)
    (hw : ctx.system.Within system) (c : Call) (hstrict : strict → ¬ c.Adopts) :
    S.Comes system strict G (c.grants ctx S) (S.begin ctx c).2 := by
  have hc := c.safe hsep h hw hstrict
  exact Turn.Leads.begin (hc.imp (fun _ _ hT => hT) fun _ hT => hT) fun _ hT => hT.release

def Move.grants (S : Session) : Move → List Grant
  | call ctx c => c.grants ctx S
  | chore _ => []

/-- All regions handed out in a run, from the first to the last. -/
def handedOut : List Move → List Grant
  | [] => []
  | m :: past => handedOut past ++ m.grants (play past)

theorem Session.follows_move (hsep : system.Separate) (h : S.Sound system strict G) {m : Move}
    (hw : m.Within system) (hstrict : strict → ¬ m.Adopts) :
    S.Follows system strict (G ++ (m.grants S).map (·.region)) (S.move m) := by
  cases m with
  | call ctx c => exact (Session.comes_begin hsep h hw c hstrict).toFollows
  | chore ctx =>
    have hf := h.advance ctx
    refine ⟨?_, hf.later⟩
    simp only [Move.grants, List.map_nil, List.append_nil]
    exact hf.sound

theorem Session.sound_initial : Session.initial.Sound system strict [] where
  store :=
    { history := .nil
      accounted := .refl _
      ended := fun s hs => by
        by_cases h0 : s = 0
        · subst h0
          exact absurd rfl hs
        · rw [Store.scope_of_length_le (Nat.one_le_iff_ne_zero.mpr h0)]
          exact ⟨rfl, rfl⟩
      eternal := ⟨rfl, rfl⟩
      arenas := fun a ha => absurd ha (Nat.not_lt_zero a)
      actions := fun s p hp => by
        by_cases h0 : s = 0
        · subst h0
          cases hp
        · rw [Store.scope_of_length_le (Nat.one_le_iff_ne_zero.mpr h0)] at hp
          cases hp }
  ledger :=
    { inside := fun _ hr => by cases hr
      apart := .nil
      free := fun _ hr => by cases hr
      arenas := fun a b _ _ _ x hx => absurd (Store.lt_length_of_free hx) (Nat.not_lt_zero a) }
  handles _ hp := by cases hp
  chores _ hc := by cases hc

/-- The sessions that a run leads to are sound with what was handed out on the way. -/
theorem play_sound (hsep : system.Separate) {past : List Move}
    (hw : ∀ m ∈ past, m.Within system) (hs : strict → ∀ m ∈ past, ¬ m.Adopts) :
    (play past).Sound system strict ((handedOut past).map (·.region)) := by
  induction past with
  | nil => exact Session.sound_initial
  | cons m past ih =>
    have hpast := ih (fun m' hm => hw m' (List.mem_cons_of_mem m hm))
      fun hst m' hm => hs hst m' (List.mem_cons_of_mem m hm)
    have hf := Session.follows_move hsep hpast (hw m List.mem_cons_self)
      fun hst => hs hst m List.mem_cons_self
    rw [handedOut, List.map_append]
    exact hf.sound

/-- What was handed out before a point of a run is joined by what is handed out from there on. -/
theorem play_follows (hsep : system.Separate) {past : List Move}
    (h : (play past).Sound system strict G) (moves : List Move)
    (hw : ∀ m ∈ moves, m.Within system) (hs : strict → ∀ m ∈ moves, ¬ m.Adopts) :
    ∃ G', (play past).Follows system strict (G ++ G') (play (moves ++ past)) := by
  induction moves with
  | nil =>
    refine ⟨[], ?_, .refl _⟩
    rw [List.append_nil]
    exact h
  | cons m moves ih =>
    obtain ⟨G', hsound, hlater⟩ := ih (fun m' hm => hw m' (List.mem_cons_of_mem m hm))
      fun hst m' hm => hs hst m' (List.mem_cons_of_mem m hm)
    have hf := Session.follows_move hsep hsound (hw m List.mem_cons_self)
      fun hst => hs hst m List.mem_cons_self
    rw [List.append_assoc] at hf
    exact ⟨_, hf.sound, hlater.trans hf.later⟩

/-! ### Sessions that are run call by call -/

theorem CloseAction.arenas_unfold (ctx : Context) (σ : Store) (a : CloseAction) :
    (a.unfold ctx σ).1.arenas = σ.arenas := by
  cases a with
  | close label s =>
    have hc : (ScopeId.close s).Leads ctx σ _ _ := ScopeId.leads_close s
    simp only [CloseAction.unfold]
    cases hr : (ScopeId.close s).run ctx σ with
    | error e τ =>
      obtain rfl := hc.error hr
      rfl
    | ok held τ =>
      obtain ⟨_, _, _, _, rfl⟩ := hc.ok hr
      rfl
  | extend label s =>
    have hc : (ScopeId.addAction s (.say (label ++ "\x27"))).Leads ctx σ _ _ :=
      ScopeId.leads_addAction s _
    simp only [CloseAction.unfold]
    cases hr : (ScopeId.addAction s (.say (label ++ "\x27"))).run ctx σ with
    | error e τ =>
      obtain rfl := hc.error hr
      rfl
    | ok u τ =>
      obtain ⟨_, rfl⟩ := hc.ok hr
      rfl
  | fill label r =>
    have hc : (r.fill 0xee).Leads ctx σ _ _ := Region.leads_fill
    simp only [CloseAction.unfold]
    cases hr : (r.fill 0xee).run ctx σ with
    | error e τ =>
      obtain rfl := hc.error hr
      rfl
    | ok u τ =>
      obtain ⟨_, rfl⟩ := hc.ok hr
      rfl
  | _ => rfl

theorem Chore.arenas_step (ctx : Context) (roots : List ScopeId) (σ : Store) (rest : List Chore)
    (c : Chore) : (c.step ctx roots σ rest).1.arenas = σ.arenas := by
  cases c with
  | perform p => exact CloseAction.arenas_unfold ctx _ p.action
  | letGo s =>
    unfold step
    dsimp only
    split <;> rfl
  | unguard s =>
    unfold step Store.unpin
    dsimp only
    split <;> rfl
  | _ => rfl

/-- Chores done one by one are done with the same roots throughout. -/
theorem play_doChores (ctx : Context) (past : List Move) (n : Nat) {S : Session}
    (hS : play past = S) :
    play (List.replicate n (.chore ctx) ++ past) =
      { S with
        store := (Store.doChores ctx S.roots n S.store S.chores).1
        chores := (Store.doChores ctx S.roots n S.store S.chores).2 } := by
  induction n generalizing past S with
  | zero => exact hS
  | succ n ih =>
    have hnext : play (.chore ctx :: past) = S.advance ctx := by
      rw [← hS]
      rfl
    have hn := ih (.chore ctx :: past) hnext
    have hsplit : List.replicate (n + 1) (Move.chore ctx) ++ past =
        List.replicate n (.chore ctx) ++ .chore ctx :: past := by
      rw [List.replicate_succ', List.append_assoc]
      rfl
    rw [hsplit, hn]
    obtain ⟨σ, handles, chores⟩ := S
    cases chores with
    | nil => cases n <;> rfl
    | cons c rest =>
      have hroots : ∀ τ : Store, ∀ cs, τ.arenas = σ.arenas →
          Session.roots ⟨τ, handles, cs⟩ = Session.roots ⟨σ, handles, c :: rest⟩ := by
        intro τ cs ha
        have harena : ∀ a, τ.arena a = σ.arena a := fun a => by
          unfold Store.arena
          rw [ha]
        unfold Session.roots
        congr 1
        funext p
        obtain ⟨_, hd⟩ := p
        cases hd with
        | arena a _ => simp only [Handle.scopes, harena]
        | allocator w => cases w <;> simp only [Handle.scopes, Handle.allocatorScopes, harena]
        | _ => rfl
      have ha := Chore.arenas_step ctx (Session.roots ⟨σ, handles, c :: rest⟩) σ rest c
      unfold Session.advance
      simp only [Store.doChores]
      rw [hroots _ _ ha]

/-- A call with all that it leaves to be done is a call and so many chores. -/
theorem Session.step_isPlayed (system : SystemAllocator) {past : List Move} {S : Session}
    (hS : play past = S) (t : Thread) (c : Call) :
    ∃ n, play (List.replicate n (.chore ⟨t, system⟩) ++ .call ⟨t, system⟩ c :: past) =
      (S.step system t c).2 := by
  have hcall : play (.call ⟨t, system⟩ c :: past) = (S.begin ⟨t, system⟩ c).2 := by
    rw [← hS]
    rfl
  have hsettle : ∀ T : Session, play (.call ⟨t, system⟩ c :: past) =
      T.release S.store.scopes.length → ∃ n,
        play (List.replicate n (.chore ⟨t, system⟩) ++ .call ⟨t, system⟩ c :: past) =
          T.settle ⟨t, system⟩ S.store.scopes.length := by
    intro T hT
    refine ⟨(T.release S.store.scopes.length).store.weight
      (T.release S.store.scopes.length).chores, ?_⟩
    rw [play_doChores _ _ _ hT, doChores_eq_nil _ _ (Nat.le_refl _)]
    rfl
  unfold Session.begin at hcall
  simp only [Session.step]
  cases hr : c.perform.run ⟨t, system⟩ S with
  | ok reply T =>
    rw [hr] at hcall
    obtain ⟨n, hn⟩ := hsettle T hcall
    exact ⟨n, hn⟩
  | error refusal T =>
    rw [hr] at hcall
    obtain ⟨n, hn⟩ := hsettle T hcall
    exact ⟨n, hn⟩

theorem Session.run_isPlayed (calls : List (Thread × Call)) {past : List Move} {S : Session}
    (hS : play past = S) :
    ∃ moves, play (moves ++ past) = (S.run system calls).2 ∧
      (∀ m ∈ moves, m.Within system) ∧
      ((∀ p ∈ calls, ¬ p.2.Adopts) → ∀ m ∈ moves, ¬ m.Adopts) := by
  induction calls generalizing past S with
  | nil =>
    refine ⟨[], hS, fun m hm => ?_, fun _ m hm => ?_⟩
    · cases hm
    · cases hm
  | cons p calls ih =>
    obtain ⟨t, c⟩ := p
    obtain ⟨n, hn⟩ := Session.step_isPlayed system hS t c
    obtain ⟨moves, hm, hw, ha⟩ := ih hn
    refine ⟨moves ++ (List.replicate n (.chore ⟨t, system⟩) ++ [.call ⟨t, system⟩ c]), ?_, ?_, ?_⟩
    · rw [List.append_assoc, List.append_assoc]
      exact hm
    · intro m hmem
      rcases List.mem_append.mp hmem with hmem | hmem
      · exact hw m hmem
      · rcases List.mem_append.mp hmem with hmem | hmem
        · rw [List.eq_of_mem_replicate hmem]
          trivial
        · rw [List.mem_singleton.mp hmem]
          exact .refl system
    · intro hcalls m hmem
      rcases List.mem_append.mp hmem with hmem | hmem
      · exact ha (fun p hp => hcalls p (List.mem_cons_of_mem _ hp)) m hmem
      · rcases List.mem_append.mp hmem with hmem | hmem
        · rw [List.eq_of_mem_replicate hmem]
          exact id
        · rw [List.mem_singleton.mp hmem]
          exact hcalls _ List.mem_cons_self

end ScopedMemory
