import ScopedMemory.Proofs.Arena.Capacity
import ScopedMemory.Proofs.Variadic.Failures

namespace ScopedMemory

open Operation

variable {B : ArenaId → Prop} {ctx : Context} {σ τ ρ : Store} {m n : Nat} {a : ArenaId}
  {size align : Word}

/-- A request that a thread made to an arena, and what the arena found before it looked for room. -/
structure Submission extends Asked where
  caller : Thread
  check : Except MemoryError Unit

namespace Submission

def isServed (e : Submission) : Bool := e.outcome.isOk

/-- The request was malformed, or its caller could not use the scope. -/
def isTurnedAway (e : Submission) : Bool := !e.check.isOk

theorem not_isTurnedAway_iff (e : Submission) : ¬ e.isTurnedAway ↔ e.check = .ok () := by
  unfold isTurnedAway
  cases e.check with
  | error fault => exact ⟨fun h => absurd rfl h, nofun⟩
  | ok _ => exact ⟨fun _ => rfl, fun _ => nofun⟩

/-- The request was admitted, and came to nothing. -/
def isCounted (e : Submission) : Bool := e.check.isOk && !e.outcome.isOk

/-- What is turned away comes to what was found. -/
def Consistent (e : Submission) : Prop := ∀ fault, e.check = .error fault → e.outcome = .error fault

/-- How many of the requests were admitted and came to nothing. -/
def counted (es : List Submission) : Nat := es.countP (·.isCounted)

/-- The sizes of the requests that were served. -/
def servedSizes (es : List Submission) : List Word := (es.filter (·.isServed)).map (·.request.size)

theorem counted_append (es es' : List Submission) :
    counted (es ++ es') = counted es + counted es' := List.countP_append

theorem servedSizes_append (es es' : List Submission) :
    servedSizes (es ++ es') = servedSizes es ++ servedSizes es' := by
  unfold servedSizes
  rw [List.filter_append, List.map_append]

theorem counted_cons (e : Submission) (es : List Submission) :
    counted (e :: es) = (if e.isCounted then 1 else 0) + counted es := by
  unfold counted
  rw [List.countP_cons, Nat.add_comm]

theorem servedSizes_eq_replicate {es : List Submission} (h : ∀ e ∈ es, e.request.size = size) :
    servedSizes es =
      List.replicate ((es.map (·.outcome)).filterMap Except.toOption).length size := by
  induction es with
  | nil => rfl
  | cons e es ih =>
    have hes := ih fun e' he => h e' (List.mem_cons_of_mem e he)
    have he := h e List.mem_cons_self
    unfold servedSizes isServed at hes ⊢
    rw [List.filter_cons, List.map_cons, List.filterMap_cons]
    cases ho : e.outcome with
    | error fault => exact hes
    | ok r => exact congrArg₂ List.cons he hes

/-- Each request is served, counted as failed or turned away. -/
theorem length_eq {es : List Submission} (h : ∀ e ∈ es, e.Consistent) :
    es.length = (servedSizes es).length + counted es + es.countP (·.isTurnedAway) := by
  induction es with
  | nil => rfl
  | cons e es ih =>
    have hes := ih fun e' he => h e' (List.mem_cons_of_mem e he)
    have he := h e List.mem_cons_self
    have hserved : (servedSizes (e :: es)).length =
        (servedSizes es).length + if e.isServed then 1 else 0 := by
      unfold servedSizes
      rw [List.filter_cons]
      split <;> rfl
    have hone : (if e.isServed then 1 else 0) + (if e.isCounted then 1 else 0) +
        (if e.isTurnedAway then 1 else 0) = 1 := by
      unfold isServed isCounted isTurnedAway
      unfold Consistent at he
      cases hc : e.check with
      | error fault => rw [he fault hc]; rfl
      | ok _ => cases e.outcome <;> rfl
    rw [List.length_cons, hserved, counted_cons, List.countP_cons]
    omega

end Submission

/-! ### What is counted on the way from one store to another -/

namespace Store

/-- The arena, if it was there, has counted `n` requests more as failed. -/
def Counts (a : ArenaId) (n : Nat) (σ τ : Store) : Prop :=
  a < σ.arenas.length → a < τ.arenas.length ∧
    (τ.arena a).stats.failed = (σ.arena a).stats.failed + .ofNat n

theorem Even.counts (h : σ.Even τ) : σ.Counts a 0 τ := fun ha =>
  ⟨Nat.lt_of_lt_of_le ha h.arenas, (h.failed a).trans (UInt64.add_zero _).symm⟩

theorem Counts.trans (h : σ.Counts a m τ) (h' : τ.Counts a n ρ) : σ.Counts a (m + n) ρ := by
  intro ha
  obtain ⟨ha', hm⟩ := h ha
  obtain ⟨ha'', hn⟩ := h' ha'
  refine ⟨ha'', ?_⟩
  rw [hn, hm, UInt64.ofNat_add, UInt64.add_assoc]

theorem Counts.even (h : σ.Counts a n τ) (h' : τ.Even ρ) : σ.Counts a n ρ := h.trans h'.counts

theorem counts_failed (σ : Store) (a : ArenaId) : σ.Counts a 1 (σ.failed a) := fun ha =>
  ⟨(length_arenas_modifyArena σ a _).symm ▸ ha, congrArg (·.stats.failed) (arena_failed ha)⟩

instance : Std.Refl (Counts a 0) := ⟨fun _ => Even.counts (Std.Refl.refl _)⟩

instance : Trans (Counts a 0) (Counts a 0) (Counts a 0) := ⟨Counts.trans⟩

/-- Other arenas, and arenas that are new, may count what they like. -/
theorem Blames.counts (h : σ.Blames B τ) (ha : a < σ.arenas.length → ¬ B a) :
    σ.Counts a 0 τ := by
  intro hl
  rcases h with h | ⟨ρ, b, hb, h, rfl⟩
  · exact h.counts hl
  · have hne : a ≠ b := fun he => ha hl (he ▸ hb)
    have harena : (ρ.failed b).arena a = ρ.arena a := by
      unfold failed
      rw [arena_modifyArena, if_neg fun hc => hne hc.1]
    rw [harena]
    exact ⟨(length_arenas_modifyArena ρ b _).symm ▸ (h.counts hl).1, (h.counts hl).2⟩

end Store

theorem Operation.Blames.counts {α : Type} {x : Operation α} (h : x.Blames B ctx σ)
    (ha : a < σ.arenas.length → ¬ B a) : x.Through (Store.Counts a 0) ctx σ :=
  Leads.imp h (fun _ _ h => h.counts) fun _ h => h.counts ha

/-! ### Requests as they are made -/

namespace ArenaId

/-- A thread makes a request. -/
def submit (a : ArenaId) (ctx : Context) (p : Thread × Request) (σ : Store) : Submission × Store :=
  let check := σ.checkAdmission p.1 a p.2.size p.2.align
  match (a.allocate p.2.size p.2.align).run { ctx with caller := p.1 } σ with
  | .ok r τ => (⟨⟨p.2, .ok r⟩, p.1, check⟩, τ)
  | .error e τ => (⟨⟨p.2, .error e⟩, p.1, check⟩, τ)

/-- The requests of the trace are made one after another. -/
def submissions (a : ArenaId) (ctx : Context) : List (Thread × Request) → Store → List Submission
  | [], _ => []
  | p :: trace, σ => (a.submit ctx p σ).1 :: a.submissions ctx trace (a.submit ctx p σ).2

theorem run_submit (a : ArenaId) (ctx : Context) (p : Thread × Request) (σ : Store) :
    (attempt (asThread p.1 (a.allocate p.2.size p.2.align))).run ctx σ =
      .ok (a.submit ctx p σ).1.outcome (a.submit ctx p σ).2 := by
  unfold submit run attempt asThread
  dsimp only
  cases a.allocate p.2.size p.2.align { ctx with caller := p.1 } σ <;> rfl

theorem request_submit (a : ArenaId) (ctx : Context) (p : Thread × Request) (σ : Store) :
    (a.submit ctx p σ).1.request = p.2 := by
  unfold submit
  dsimp only
  split <;> rfl

/-- What is turned away leaves no trace, and of the rest what fails is counted. -/
theorem submit_spec (a : ArenaId) (ctx : Context) (p : Thread × Request) (σ : Store) :
    (a.submit ctx p σ).1.Consistent ∧
      σ.Counts a (if (a.submit ctx p σ).1.isCounted then 1 else 0) (a.submit ctx p σ).2 := by
  have hrefl : σ.Counts a 0 σ := Store.Even.counts (Std.Refl.refl σ)
  unfold submit
  cases hc : σ.checkAdmission p.1 a p.2.size p.2.align with
  | error fault =>
    rw [run_allocate_of_turnedAway { ctx with caller := p.1 } hc]
    refine ⟨fun _ he => ?_, hrefl⟩
    cases he
    rfl
  | ok _ =>
    have h := leads_allocate_admitted { ctx with caller := p.1 } hc
    refine ⟨?_, ?_⟩
    · split <;> exact nofun
    · split
      next r τ hrun => exact (h.ok hrun).counts
      next e τ hrun =>
        obtain ⟨ρ, hρ, rfl⟩ := h.error hrun
        exact hρ.counts.trans (ρ.counts_failed a)

theorem submissions_consistent {trace : List (Thread × Request)} :
    ∀ e ∈ a.submissions ctx trace σ, e.Consistent := by
  induction trace generalizing σ with
  | nil => nofun
  | cons p trace ih => exact List.forall_mem_cons.mpr ⟨(a.submit_spec ctx p σ).1, ih⟩

theorem request_of_submissions {trace : List (Thread × Request)} {r : Request}
    (h : ∀ p ∈ trace, p.2 = r) : ∀ e ∈ a.submissions ctx trace σ, e.request = r := by
  induction trace generalizing σ with
  | nil => nofun
  | cons p trace ih =>
    have hp := (a.request_submit ctx p σ).trans (h p List.mem_cons_self)
    exact List.forall_mem_cons.mpr ⟨hp, ih fun p' hp' => h p' (List.mem_cons_of_mem p hp')⟩

/-- Requests at the same time come to what they would one after another. -/
theorem run_serveEach (a : ArenaId) (ctx : Context) (trace : List (Thread × Request)) (σ : Store) :
    ∃ τ, (a.serveEach trace).run ctx σ =
        .ok ((a.submissions ctx trace σ).map (·.outcome)) τ ∧
      σ.Counts a (Submission.counted (a.submissions ctx trace σ)) τ := by
  induction trace generalizing σ with
  | nil => exact ⟨σ, rfl, Store.Even.counts (Std.Refl.refl σ)⟩
  | cons p trace ih =>
    obtain ⟨τ, hrest, hc⟩ := ih (a.submit ctx p σ).2
    refine ⟨τ, run_serveEach_cons (a.run_submit ctx p σ) hrest, ?_⟩
    unfold submissions
    rw [Submission.counted_cons]
    exact (a.submit_spec ctx p σ).2.trans hc

theorem counts_allocateEach (a : ArenaId) (ctx : Context) (σ : Store) (size align : Word)
    (threads : List Thread) :
    ((Allocator.arena a).allocateEach size align threads).Through (Store.Counts a
      (Submission.counted (a.submissions ctx (threads.map (·, ⟨size, align⟩)) σ))) ctx σ := by
  obtain ⟨τ, hrun, hc⟩ := a.run_serveEach ctx (threads.map (·, ⟨size, align⟩)) σ
  rw [serveEach_map] at hrun
  unfold Operation.Through Leads
  rw [hrun]
  exact hc

theorem counts_allocate (a : ArenaId) (ctx : Context) (σ : Store) (size align : Word) :
    (a.allocate size align).Through (Store.Counts a
      (Submission.counted (a.submissions ctx [(ctx.caller, ⟨size, align⟩)] σ))) ctx σ := by
  have hrun : (a.allocate size align).Through
      (fun _ τ => τ = (a.submit ctx (ctx.caller, ⟨size, align⟩) σ).2) ctx σ := by
    unfold Operation.Through Leads submit
    dsimp only
    cases (a.allocate size align).run ctx σ <;> rfl
  refine hrun.imp fun τ hτ => ?_
  unfold submissions
  rw [Submission.counted_cons, hτ]
  exact (a.submit_spec ctx (ctx.caller, ⟨size, align⟩) σ).2

/-! ### The sizes that are served -/

theorem servedSizes_single (a : ArenaId) (ctx : Context) (σ : Store) (size align : Word) :
    Submission.servedSizes (a.submissions ctx [(ctx.caller, ⟨size, align⟩)] σ) =
      List.replicate ((a.allocate size align).successes ctx σ) size := by
  unfold submissions submit submissions Operation.successes value?
  dsimp only
  cases (a.allocate size align).run ctx σ <;> rfl

theorem servedSizes_parallel (a : ArenaId) (ctx : Context) (σ : Store) (size align : Word)
    (threads : List Thread) :
    Submission.servedSizes (a.submissions ctx (threads.map (·, ⟨size, align⟩)) σ) =
      List.replicate (((((Allocator.arena a).allocateEach size align threads).value? ctx σ).getD
        []).filterMap Except.toOption).length size := by
  obtain ⟨τ, hrun, _⟩ := a.run_serveEach ctx (threads.map (·, ⟨size, align⟩)) σ
  rw [serveEach_map] at hrun
  have hsize : ∀ e ∈ a.submissions ctx (threads.map (·, ⟨size, align⟩)) σ,
      e.request.size = size := fun e he =>
    congrArg Request.size (request_of_submissions (r := ⟨size, align⟩)
      (List.forall_mem_map.mpr fun _ _ => rfl) e he)
  rw [Submission.servedSizes_eq_replicate hsize, value?, hrun]
  rfl

end ArenaId
end ScopedMemory
