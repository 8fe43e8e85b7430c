import ScopedMemory.Heap.TwinHeaps
import ScopedMemory.Proofs.Session.Submissions

namespace ScopedMemory

variable {system : SystemAllocator} {strict : Prop} {G : List Region} {past : List Move}
  {ctx : Context} {S : Session} {a : ArenaId}

/-! ### Arenas that are not there yet -/

theorem AllocationCall.requests_eq_nil (hS : S.Sound system strict G)
    (ha : S.store.arenas.length ≤ a) (c : AllocationCall) : c.requests ctx S a = [] := by
  cases c with
  | allocate q allocator name? =>
    simp only [requests]
    split
    next w _ _ hn _ =>
      exact if_neg fun hw => Nat.not_lt.mpr ha ((hS.of_allocator? hn).1 a hw)
    next => rfl
  | allocateParallel target size align threads count =>
    exact if_neg fun hn => Nat.not_lt.mpr ha (hS.of_sharedArena? hn)
  | _ => rfl

theorem VariadicCall.requests_eq_nil (hS : S.Sound system strict G)
    (ha : S.store.arenas.length ≤ a) (c : VariadicCall) : c.requests ctx S a = [] := by
  cases c with
  | readSegment l list allocator name? =>
    simp only [requests]
    split
    next w _ hn =>
      exact if_neg fun hw => Nat.not_lt.mpr ha ((hS.of_allocator? hn).1 a hw)
    next => rfl
  | _ => rfl

theorem Call.submissions_eq_nil (hS : S.Sound system strict G)
    (ha : S.store.arenas.length ≤ a) (c : Call) : c.submissions ctx S a = [] := by
  have hr : c.requests ctx S a = [] := by
    cases c with
    | allocation c => exact c.requests_eq_nil hS ha
    | variadic c => exact c.requests_eq_nil hS ha
    | _ => rfl
  unfold submissions
  rw [hr]
  rfl

/-! ### What a run has asked of an arena -/

namespace Move

def submissions (S : Session) (a : ArenaId) : Move → List Submission
  | call ctx c => c.submissions ctx S a
  | chore _ => []

theorem counts (m : Move) :
    S.store.Counts a (Submission.counted (m.submissions S a)) (S.move m).store := by
  cases m with
  | call ctx c => exact c.counts S
  | chore ctx => exact Session.counts_of_arenas (S.quiet_advance ctx).arenas

theorem submissions_consistent (m : Move) : ∀ e ∈ m.submissions S a, e.Consistent := by
  cases m with
  | call ctx c => exact ArenaId.submissions_consistent
  | chore ctx => nofun

theorem servedSizes_submissions (m : Move) :
    Submission.servedSizes (m.submissions S a) = (m.errand? S).elim [] (·.sizes (.arena a)) := by
  cases m with
  | call ctx c => exact c.servedSizes_submissions
  | chore ctx => rfl

end Move

/-- The requests that a run has made to an arena, oldest first. -/
def submittedTo : List Move → ArenaId → List Submission
  | [], _ => []
  | m :: past, a => submittedTo past a ++ m.submissions (play past) a

theorem submittedTo_consistent (past : List Move) (a : ArenaId) :
    ∀ e ∈ submittedTo past a, e.Consistent := by
  induction past with
  | nil => nofun
  | cons m past ih => exact List.forall_mem_append.mpr ⟨ih, m.submissions_consistent⟩

theorem Errand.reverse_sizes (e : Errand) (w : Allocator) : (e.sizes w).reverse = e.sizes w := by
  unfold sizes
  split
  · exact List.reverse_replicate
  · rfl

theorem servedSizes_submittedTo (past : List Move) (a : ArenaId) :
    Submission.servedSizes (submittedTo past a) = (servedBy past (.arena a)).reverse := by
  induction past with
  | nil => rfl
  | cons m past ih =>
    have hm : ((m.errand? (play past)).elim [] (·.sizes (.arena a))).reverse =
        (m.errand? (play past)).elim [] (·.sizes (.arena a)) := by
      cases m.errand? (play past) with
      | none => rfl
      | some e => exact e.reverse_sizes (.arena a)
    rw [submittedTo, Submission.servedSizes_append, ih, m.servedSizes_submissions, servedBy,
      List.reverse_append, hm]

theorem submittedTo_eq_nil (hsep : system.Separate) (hw : ∀ m ∈ past, m.Within system)
    (ha : (play past).store.arenas.length ≤ a) : submittedTo past a = [] := by
  induction past with
  | nil => rfl
  | cons m past ih =>
    have hpast : ∀ m ∈ past, m.Within system := fun m' hm => hw m' (List.mem_cons_of_mem m hm)
    have hS : (play past).Sound system False _ := play_sound hsep hpast False.elim
    have hf := Session.follows_move hsep hS (hw m List.mem_cons_self) False.elim
    have ha' := Nat.le_trans hf.later.arenas ha
    rw [submittedTo, ih hpast ha', List.nil_append]
    cases m with
    | call ctx c => exact c.submissions_eq_nil hS ha'
    | chore ctx => rfl

/-- The number of failed requests is that of the requests that were admitted in vain. -/
theorem play_failed (hsep : system.Separate) (hw : ∀ m ∈ past, m.Within system) :
    ∀ a ∈ arenasMade past, ((play past).store.arena a).stats.failed =
      .ofNat (Submission.counted (submittedTo past a)) := by
  induction past with
  | nil => nofun
  | cons m past ih =>
    have hpast : ∀ m ∈ past, m.Within system := fun m' hm => hw m' (List.mem_cons_of_mem m hm)
    intro a ha
    rw [submittedTo, Submission.counted_append]
    rcases List.mem_append.mp ha with ha | ha
    · -- A new arena has counted nothing, and nobody could ask it before.
      cases m with
      | chore ctx => cases ha
      | call ctx c =>
        have hS : (play past).Sound system False _ := play_sound hsep hpast False.elim
        obtain ⟨rfl, s, capacity, config, _, hτ⟩ := Call.makes_of_arenasMade ha
        have hfailed : ((play (.call ctx c :: past)).store.arena
            (play past).store.arenas.length).stats.failed = 0 := by
          show (((play past).begin ctx c).2.store.arena _).stats.failed = 0
          rw [hτ, Store.arena_addArena, if_pos rfl]
        rw [hfailed, submittedTo_eq_nil hsep hpast (Nat.le_refl _), Move.submissions,
          c.submissions_eq_nil hS (Nat.le_refl _)]
        rfl
    · have hcounts := m.counts (play_arenasMade hsep hpast a ha)
      rw [play, hcounts.2, ih hpast a ha, UInt64.ofNat_add]

/-- What the number of failed requests tells about the requests that a run has made to an arena. -/
structure Tallied (past : List Move) (a : ArenaId) : Prop where
  failed : ((play past).store.arena a).stats.failed =
    .ofNat (Submission.counted (submittedTo past a))
  served : Submission.servedSizes (submittedTo past a) = (servedBy past (.arena a)).reverse
  /-- A request that is malformed, or whose caller cannot use the scope, fails all the same. -/
  turnedAway : ∀ e ∈ submittedTo past a, ∀ fault, e.check = .error fault →
    e.outcome = .error fault
  calls : (submittedTo past a).length = (servedBy past (.arena a)).length +
    Submission.counted (submittedTo past a) + (submittedTo past a).countP (·.isTurnedAway)
  /-- The number is that of the calls that failed exactly if none was turned away. -/
  complete : (submittedTo past a).length < 0x10000000000000000 →
    ((submittedTo past a).length = (servedBy past (.arena a)).length +
        ((play past).store.arena a).stats.failed.toNat ↔
      ∀ e ∈ submittedTo past a, e.check = .ok ())

/-- After every move of a run the number of failed requests is that of the requests that were
admitted in vain. The requests that were turned away are missing from it. -/
theorem play_tallied (hsep : system.Separate) (hw : ∀ m ∈ past, m.Within system) :
    ∀ a ∈ arenasMade past, Tallied past a := by
  intro a ha
  have hfailed := play_failed hsep hw a ha
  have hserved := servedSizes_submittedTo past a
  have hcalls := Submission.length_eq (submittedTo_consistent past a)
  rw [hserved, List.length_reverse] at hcalls
  refine ⟨hfailed, hserved, submittedTo_consistent past a, hcalls, fun hlt => ?_⟩
  have hcounted : ((play past).store.arena a).stats.failed.toNat =
      Submission.counted (submittedTo past a) := by
    rw [hfailed]
    exact UInt64.toNat_ofNat_of_lt' (Nat.lt_of_le_of_lt (by omega) hlt)
  have hnone : (submittedTo past a).countP (·.isTurnedAway) = 0 ↔
      ∀ e ∈ submittedTo past a, e.check = .ok () :=
    List.countP_eq_zero.trans (forall₂_congr fun e _ => e.not_isTurnedAway_iff)
  rw [hcounted, ← hnone]
  omega

/-- One request is served, one finds no room, and three are turned away: for their alignment, for
their thread, and because the scope has ended. -/
def refusedCalls : List (Thread × Call) :=
  [(0, .scope (.create .confined "s")),
    (0, .allocation (.arena "s" (.bounded 16) {} .shared "a")),
    (0, .allocation (.allocate (.raw 8 8) "a" none)),
    (0, .allocation (.allocate (.raw 16 8) "a" none)),
    (0, .allocation (.allocate (.raw 8 3) "a" none)),
    (1, .allocation (.allocate (.raw 8 8) "a" none)),
    (0, .scope (.close "s")),
    (0, .allocation (.allocate (.raw 8 8) "a" none))]

theorem refusedCalls_tallied :
    (∀ m ∈ movesOf TwinHeaps.system refusedCalls, m.Within TwinHeaps.system) ∧
    (submittedTo (movesOf TwinHeaps.system refusedCalls) 0).length = 5 ∧
    servedBy (movesOf TwinHeaps.system refusedCalls) (.arena 0) = [8] ∧
    ((play (movesOf TwinHeaps.system refusedCalls)).store.arena 0).stats.failed = 1 ∧
    ¬ ∀ e ∈ submittedTo (movesOf TwinHeaps.system refusedCalls) 0, e.check = .ok () := by
  have hw := within_movesOf TwinHeaps.system refusedCalls
  have hmade : arenasMade (movesOf TwinHeaps.system refusedCalls) = [0] := by decide +kernel
  have hcalls : (submittedTo (movesOf TwinHeaps.system refusedCalls) 0).length = 5 := by
    decide +kernel
  have hserved : servedBy (movesOf TwinHeaps.system refusedCalls) (.arena 0) = [8] := by
    decide +kernel
  have hcounted :
      Submission.counted (submittedTo (movesOf TwinHeaps.system refusedCalls) 0) = 1 := by
    decide +kernel
  have h := play_tallied TwinHeaps.lawful.separate hw 0 (by rw [hmade]; decide)
  have hfailed := h.failed
  rw [hcounted] at hfailed
  refine ⟨hw, hcalls, hserved, hfailed, fun hall => ?_⟩
  have hcomplete := (h.complete (by rw [hcalls]; decide)).mpr hall
  rw [hcalls, hserved, hfailed] at hcomplete
  exact absurd hcomplete (by decide)

end ScopedMemory
