import ScopedMemory.Heap.TwinHeaps
import ScopedMemory.Proofs.Truth.Calls

namespace ScopedMemory

open Turn

variable {system : SystemAllocator} {G : List Region} {ctx : Context} {σ : Store} {S : Session}
  {rs : List Region} {t : Thread} {e : MemoryError}

/-! ### Calls that actions make -/

/-- What the operation fails with, if it does. -/
def Operation.fault? {α : Type} (x : Operation α) (ctx : Context) (σ : Store) :
    Option MemoryError :=
  match x.run ctx σ with
  | .ok .. => none
  | .error e _ => some e

theorem Operation.run_of_fault? {α : Type} {x : Operation α} (h : x.fault? ctx σ = some e) :
    ∃ τ, x.run ctx σ = .error e τ := by
  unfold fault? at h
  split at h
  next => cases h
  next τ hr =>
    cases h
    exact ⟨τ, hr⟩

theorem Operation.Tells.of_fault? {α : Type} {x : Operation α} {E : MemoryError → Prop}
    (h : x.Tells ctx σ E) (he : x.fault? ctx σ = some e) : E e := by
  obtain ⟨τ, hr⟩ := run_of_fault? he
  exact h e τ hr

/-- What the call that the action makes fails with. -/
def CloseAction.fault? (ctx : Context) (σ : Store) : CloseAction → Option MemoryError
  | say _ | probe .. | hold .. => none
  | close _ s => (ScopeId.close s).fault? ctx σ
  | extend label s => (ScopeId.addAction s (.say (label ++ "\x27"))).fault? ctx σ
  | fill _ r => (r.fill 0xee).fault? ctx σ

/-- An action writes down what its call failed with. -/
theorem CloseAction.writes_fault {a : CloseAction} (h : a.fault? ctx σ = some e) :
    ∃ text : String, Chore.write (text ++ e.name) ∈ (a.unfold ctx σ).2 := by
  cases a with
  | say | probe | hold => cases h
  | close | extend | fill =>
    obtain ⟨τ, hr⟩ := Operation.run_of_fault? h
    simp only [unfold, hr]
    exact ⟨_, List.mem_cons_self ..⟩

/-- A call that an action makes fails with what is true of its target. -/
theorem CloseAction.Sound.isTrue {a : CloseAction} (h : a.Sound S.store False) (hg : S.Counted)
    {j : JournalEntry} (he : a.fault? ctx (S.store.note j) = some e)
    (hrs : ∀ r, a.region? = some r → r ∈ rs) : e.IsTrue S ctx.caller rs := by
  cases a with
  | say | probe | hold => cases he
  | close label s =>
    exact (ScopeId.tells_close_isTrue (σ := S.store.note j) hg rfl (h.target s rfl)).of_fault? he
  | extend label s =>
    exact (ScopeId.tells_addAction (σ := S.store.note j)
      ((h.target s rfl).tells_of_scopes rfl) _).of_fault? he
  | fill label r =>
    have hr : r.Told (S.store.note j) ctx.caller (MemoryError.IsTrue S ctx.caller rs) :=
      ⟨(h.target _ rfl).1, (h.target _ rfl).tells_of_scopes rfl, Region.tells_isTrue (hrs r rfl)⟩
    exact (Region.tells_fill MemoryError.plain_isTrue hr 0xee).of_fault? he

/-! ### Moves -/

/-- The regions that the move works on. -/
def Move.regions (S : Session) : Move → List Region
  | call ctx c => c.regions ctx S
  | chore _ =>
    match S.chores with
    | .perform p :: _ => p.action.region?.toList
    | _ => []

def Move.Countable : Move → Prop
  | call _ c => c.Countable
  | chore _ => True

/-- The thread is told of the error when the move is made. -/
inductive Session.Reports (S : Session) : Move → Thread → MemoryError → Prop
  | refused {ctx c e} (h : (S.begin ctx c).1 = .error (.memory e)) :
    Reports S (.call ctx c) ctx.caller e
  | answered {ctx c reply e} (h : (S.begin ctx c).1 = .ok reply) (he : e ∈ reply.errors) :
    Reports S (.call ctx c) ctx.caller e
  /-- One of several requests at the same time, that of a thread of its own. -/
  | requested {ctx target a size align threads count outcomes τ t e}
    (ha : S.sharedArena? target = some a)
    (hr : ((Allocator.arena a).allocateEach size align
      (AllocationCall.callers threads count)).run ctx S.store = .ok outcomes τ)
    (he : (t, .error e) ∈ (AllocationCall.callers threads count).zip outcomes) :
    Reports S (.call ctx (.allocation (.allocateParallel target size align threads count))) t e
  /-- A call that an action makes. -/
  | performed {ctx p rest e} (hc : S.chores = .perform p :: rest)
    (he : p.action.fault? ctx (S.store.note (.began p.ticket)) = some e) :
    Reports S (.chore ctx) ctx.caller e

theorem Session.Reports.isTrue {m : Move} (h : S.Reports m t e) (hS : S.Sound system False G)
    (hg : S.Counted) (hlaw : system.Lawful) (hm : m.Within system) (hc : m.Countable) :
    e.IsTrue S t (m.regions S) := by
  cases h with
  | @refused ctx c _ he =>
    obtain ⟨T, hr, _⟩ := Session.run_of_begin_error he
    exact (c.truthful hS hlaw hm hg hc).error hr e rfl
  | @answered ctx c reply _ h he =>
    unfold Session.begin at h
    split at h
    next hr =>
      cases h
      exact (c.truthful hS hlaw hm hg hc).ok hr e he
    next => cases h
  | requested ha hr he =>
    exact (AllocationCall.leads_requests hS hlaw hm _ ha _ _ _).ok hr _ _ he
  | @performed ctx p rest _ hp he =>
    have hsound := hS.chores (.perform p) (hp ▸ List.mem_cons_self ..)
    refine hsound.2.isTrue hg he fun r hr => ?_
    simp only [Move.regions, hp]
    exact Option.mem_toList.mpr hr

/-- What the call of an action failed with is about to be written when the action has begun. -/
theorem Session.Reports.written (h : S.Reports (.chore ctx) t e) :
    ∃ text : String, Chore.write (text ++ e.name) ∈ (S.move (.chore ctx)).chores := by
  cases h with
  | @performed _ p rest _ hp he =>
    obtain ⟨text, hm⟩ := CloseAction.writes_fault he
    have hadvance := advance_cons ctx hp
    refine ⟨text, ?_⟩
    show _ ∈ (S.advance ctx).chores
    rw [hadvance]
    exact List.mem_append_left _ hm

/-- Whatever a thread is told of by a call, by one of its requests or by a call of an action is true
of the session in which the call is made. What an action is told of is also written. -/
theorem play_truthful (hlaw : system.Lawful) {past : List Move}
    (hw : ∀ m ∈ past, m.Within system) {m : Move} (hm : m.Within system) (hc : m.Countable)
    (h : (play past).Reports m t e) :
    e.IsTrue (play past) t (m.regions (play past)) ∧
      ∀ ctx, m = .chore ctx →
        ∃ text : String, Chore.write (text ++ e.name) ∈ (play (m :: past)).chores := by
  have hsound := play_sound hlaw.separate hw False.elim
  refine ⟨h.isTrue hsound (play_counted past) hlaw hm hc, ?_⟩
  rintro ctx rfl
  exact h.written

/-- The scope of one thread is closed, and its action has yet to close another, that is held open by
a guard. A region of the other scope ends past the last address. -/
def blamingCalls : List (Thread × Call) :=
  [(0, .scope (.create .confined "s")),
    (0, .scope (.create .shared "t")),
    (0, .scope (.allocateNative 8 8 "s" (some "own"))),
    (0, .region (.adopt 0xfffffffffffffff0 0x20 "t" (some "far"))),
    (0, .scope (.acquire "t" "g")),
    (0, .scope (.addAction "s" "x" (.close "t"))),
    (0, .scope (.close "s"))]

/-- The run goes on until the action is next. -/
def blamingMoves : List Move :=
  List.replicate 2 (.chore ⟨0, TwinHeaps.system⟩) ++ movesOf TwinHeaps.system blamingCalls

/-- A copy is refused to either thread for a reason of its own, a read because of the addresses, and
the action fails because of the guard. -/
theorem blamingMoves_truthful :
    (∀ m ∈ blamingMoves, m.Within TwinHeaps.system) ∧
    ((play blamingMoves).Reports (.chore ⟨0, TwinHeaps.system⟩) 0 (.scopeAcquired 2 1) ∧
      (play blamingMoves).store.IsAlive 2 ∧ (play blamingMoves).guardsOn 2 = 1) ∧
    ((play blamingMoves).Reports
        (.call ⟨1, TwinHeaps.system⟩ (.region (.copyFrom "far" "own"))) 1 (.wrongThread 1) ∧
      ((play blamingMoves).store.scope 1).creator ≠ 1) ∧
    ((play blamingMoves).Reports
        (.call ⟨0, TwinHeaps.system⟩ (.region (.copyFrom "far" "own"))) 0 (.alreadyClosed 1) ∧
      ((play blamingMoves).store.scope 1).lifetime = .closed) ∧
    ((play blamingMoves).Reports (.call ⟨0, TwinHeaps.system⟩ (.region (.read 0x10 "far" 8))) 0
        (.outOfBounds 8 0x10 0x20) ∧
      ∃ r ∈ [(⟨0xfffffffffffffff0, 0x20, 2⟩ : Region)], r.size = 0x20 ∧
        0x10000000000000000 ≤ r.start.toNat + 8 + 0x10) := by
  have hw : ∀ m ∈ blamingMoves, m.Within TwinHeaps.system := fun m hm => by
    rcases List.mem_append.mp hm with hm | hm
    · rw [List.eq_of_mem_replicate hm]
      trivial
    · exact within_movesOf _ _ m hm
  have hcall : ∀ t c, (Move.call ⟨t, TwinHeaps.system⟩ c).Within TwinHeaps.system :=
    fun _ _ => .refl _
  have hchore : (Move.chore ⟨0, TwinHeaps.system⟩).Within TwinHeaps.system := trivial
  have hguarded : (play blamingMoves).Reports (.chore ⟨0, TwinHeaps.system⟩) 0
      (.scopeAcquired 2 1) :=
    .performed (p := ⟨0, .close "x" 2⟩) (show _ = _ :: [.free [⟨0x20000008, 8⟩]] by decide +kernel)
      rfl
  have hforeign : (play blamingMoves).Reports
      (.call ⟨1, TwinHeaps.system⟩ (.region (.copyFrom "far" "own"))) 1 (.wrongThread 1) :=
    .refused rfl
  have hclosed : (play blamingMoves).Reports
      (.call ⟨0, TwinHeaps.system⟩ (.region (.copyFrom "far" "own"))) 0 (.alreadyClosed 1) :=
    .refused rfl
  have hfar : (play blamingMoves).Reports
      (.call ⟨0, TwinHeaps.system⟩ (.region (.read 0x10 "far" 8))) 0 (.outOfBounds 8 0x10 0x20) :=
    .refused rfl
  obtain ⟨halive, _, hcount⟩ := (play_truthful TwinHeaps.lawful hw hchore trivial hguarded).1
  exact ⟨hw, ⟨hguarded, halive, hcount⟩,
    ⟨hforeign, (play_truthful TwinHeaps.lawful hw (hcall _ _) (by trivial) hforeign).1.2⟩,
    ⟨hclosed, (play_truthful TwinHeaps.lawful hw (hcall _ _) (by trivial) hclosed).1.2⟩, hfar,
    (play_truthful TwinHeaps.lawful hw (hcall _ _) (by trivial) hfar).1.resolve_left (by decide)⟩

end ScopedMemory
