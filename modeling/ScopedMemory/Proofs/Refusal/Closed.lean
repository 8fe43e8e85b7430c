import ScopedMemory.Proofs.Lifetime.Ended
import ScopedMemory.Proofs.Lifetime.Skip
import ScopedMemory.Proofs.Refusal.Order
import ScopedMemory.Proofs.Refusal.Confined
import ScopedMemory.Proofs.Refusal.Staged
import ScopedMemory.Proofs.Session.Run

namespace ScopedMemory

open Turn

/-- A call on the scope or on something that was derived from it. -/
inductive Call.Involves (S : Session) : Call → ScopeId → Prop
  | checks {c q} (h : c.Checks S q) : Involves S c q.scope
  | contents {region r adopted} (hr : S.region? region = some (r, adopted)) :
    Involves S (.region (.contents region)) r.scope

namespace Session

variable {S T : Session} {ctx : Context} {c : Call} {s : ScopeId}

/-- All lists are where they were. -/
def ListsStay (S T : Session) : Prop := ∀ name v, S.list? name = some v → T.list? name = some v

theorem listsStay_lost {source : Name} {b : VariadicBuilder} (hb : S.builder? source = some b) :
    S.ListsStay (S.lost source) := by
  intro name v hv
  have hfound := find?_of_list? hv
  have hne : name ≠ source := by
    rintro rfl
    cases hfound.symm.trans (find?_of_builder? hb)
  have herase : (S.lost source).handles.find? name = S.handles.find? name := by
    unfold lost
    rw [find?_of_builder? hb]
    exact (HandleTable.find?_erase source name S.handles).trans (if_neg hne)
  unfold list?
  rw [herase, hfound]

end Session

theorem Call.Checks.listsStay {S : Session} {c : Call} {q : Inquiry} (h : c.Checks S q) :
    S.ListsStay (S.refused c) := by
  cases h with
  | build hb _ => exact Session.listsStay_lost hb
  | _ => exact fun _ _ hv => hv

/-- All that a scope answers once it has been closed. -/
structure Session.Finished (S : Session) (s : ScopeId) : Prop where
  isAlive : (S.store.scope s).isAlive = false
  blockCount : (S.store.scope s).blockCount = 0
  memoryBytes : (S.store.scope s).memoryBytes = 0
  /-- No call that involves the scope succeeds, and none does anything before it fails. -/
  refused : ∀ ctx c, c.Involves S s → ∃ e T, S.begin ctx c = (.error e, T) ∧
    T.store = S.store ∧ S.ListsStay T
  /-- What is left of a list belongs to the scope of the list. -/
  lists : ∀ name v c, S.list? name = some v → v.cursor = some c → c.remaining.scope = v.scope
  /-- No list is built with a struct of the scope. -/
  structs : ∀ ctx source name b arg r, S.builder? source = some b → arg ∈ b.arguments →
    arg.value = .segment r → r.scope = s →
      ∃ e T, S.begin ctx (.variadic (.build source name)) = (.error e, T) ∧ S.ListsStay T
  /-- Of requests made at the same time none is served. -/
  requests : ∀ ctx target size align threads count a, S.sharedArena? target = some a →
    (S.store.arena a).scope = s → ∃ outcomes,
      S.begin ctx (.allocation (.allocateParallel target size align threads count)) =
        (.ok (.tally (.of align outcomes)), S) ∧ ∀ outcome ∈ outcomes, ∃ e, outcome = .error e
  /-- Actions that run can do nothing to it either. -/
  actions : ∀ ctx p rest, S.chores = .perform p :: rest → p.action.target? = some s →
    (S.advance ctx).store = S.store.note (.began p.ticket)

section finished

variable {S : Session} {s : ScopeId} {ctx : Context} {σ : Store} {t : Thread}

theorem Store.checkUsable_of_ended (hd : ¬ σ.IsAlive s) (t : Thread) :
    ∃ e, σ.checkUsable t s = .error e := by
  rcases σ.checkUsable_cases t s with ⟨_, h⟩ | ⟨_, _, h⟩ | ⟨_, ha, _⟩
  · exact ⟨_, h⟩
  · exact ⟨_, h⟩
  · exact absurd ha hd

theorem Call.Involves.refused {c : Call} (h : c.Involves S s) (hd : ¬ S.store.IsAlive s) :
    ∃ e T, S.begin ctx c = (.error e, T) ∧ T.store = S.store ∧ S.ListsStay T := by
  cases h with
  | @checks _ q h =>
    obtain ⟨e, he⟩ := Store.checkUsable_of_ended hd ctx.caller
    obtain ⟨e', he'⟩ := Inquiry.exists_error he
    exact ⟨_, _, h.begin_refused he', S.store_refused c, h.listsStay⟩
  | @contents region r adopted hr =>
    by_cases hsize : r.size ≤ Region.bufferLimit
    · have h : Call.Checks S (.region (.contents region)) { scope := r.scope } := .contents hr hsize
      obtain ⟨e, he⟩ := Store.checkUsable_of_ended hd ctx.caller
      obtain ⟨e', he'⟩ := Inquiry.exists_error (q := { scope := r.scope }) he
      exact ⟨_, _, h.begin_refused he', rfl, fun _ _ hv => hv⟩
    · have hrun : (Call.region (.contents region)).perform.run ctx S =
          .error .tooLong (S.refused (.region (.contents region))) := by
        have hnone : r.contents.run ctx S.store = .ok none S.store := by
          unfold Region.contents
          rw [if_neg hsize]
          rfl
        refine (run_bind_find hr _).trans ?_
        dsimp only
        rw [run_bind, run_lift, hnone]
        rfl
      exact ⟨_, _, Session.begin_refused hrun, rfl, fun _ _ hv => hv⟩

/-- An allocator serves none of many requests while its scope cannot be used. -/
theorem Allocator.run_allocateEach {w : Allocator} (hs : s ∈ Handle.allocatorScopes σ w)
    (hd : ¬ σ.IsAlive s) (size align : Word) (threads : List Thread) :
    ∃ outcomes, (w.allocateEach size align threads).run ctx σ = .ok outcomes σ ∧
      ∀ outcome ∈ outcomes, ∃ e, outcome = .error e := by
  unfold allocateEach
  induction threads with
  | nil => exact ⟨[], rfl, fun _ h => nomatch h⟩
  | cons t threads ih =>
    obtain ⟨outcomes, hrun, hall⟩ := ih
    obtain ⟨e, he⟩ := Store.checkUsable_of_ended hd t
    obtain ⟨e', he'⟩ := Inquiry.exists_error
      (q := { form := w.checkForm (.raw size align), scope := s }) he
    have hone : (w.allocate size align).run { ctx with caller := t } σ = .error e' σ :=
      Allocator.checks_serve hs (.raw size align) { ctx with caller := t } e' he'
    have hattempt : (Operation.attempt (Operation.asThread t (w.allocate size align))).run ctx σ =
        .ok (.error e') σ := by
      unfold Operation.attempt Operation.asThread
      unfold Operation.run at hone ⊢
      dsimp only
      rw [hone]
    refine ⟨.error e' :: outcomes, ?_, fun outcome hm => ?_⟩
    · rw [List.mapM_cons, Operation.run_bind, hattempt]
      dsimp only
      rw [Operation.run_bind, hrun]
      rfl
    · rcases List.mem_cons.mp hm with rfl | hm
      · exact ⟨e', rfl⟩
      · exact hall outcome hm

/-- An action cannot close a scope that has ended, leave anything for its end or write to it. -/
theorem CloseAction.unfold_of_ended (ctx : Context) {a : CloseAction} (ht : a.target? = some s)
    (hd : ¬ σ.IsAlive s) : (a.unfold ctx σ).1 = σ := by
  cases a with
  | say label => cases ht
  | probe label u => rfl
  | hold label u => rfl
  | close label u =>
    cases ht
    simp only [CloseAction.unfold]
    cases hr : (ScopeId.close s).run ctx σ with
    | error e τ => exact (ScopeId.leads_close s).error hr
    | ok held τ =>
      obtain ⟨_, _, hl, _⟩ := (ScopeId.leads_close s).ok hr
      refine absurd ?_ hd
      rw [Store.IsAlive, Scope.isAlive, hl]
  | extend label u =>
    cases ht
    simp only [CloseAction.unfold]
    cases hr : (ScopeId.addAction s (.say (label ++ "\x27"))).run ctx σ with
    | error e τ => exact (ScopeId.leads_addAction s _).error hr
    | ok _ τ =>
      obtain ⟨hu, _⟩ := (ScopeId.leads_addAction s _).ok hr
      exact absurd (Store.isAlive_of_checkUsable hu) hd
  | fill label r =>
    cases ht
    simp only [CloseAction.unfold]
    cases hr : (r.fill 0xee).run ctx σ with
    | error e τ => exact Region.leads_fill.error hr
    | ok _ τ =>
      have hu := (Store.checkAccess_eq_ok_iff.mp (Region.leads_fill.ok hr).1).1
      exact absurd (Store.isAlive_of_checkUsable hu) hd

/-- The builder is used up in any case. -/
theorem Session.begin_build {source name : Name} {b : VariadicBuilder}
    (hb : S.builder? source = some b) {e : MemoryError} {τ : Store}
    (hr : b.build.run ctx S.store = .error e τ) :
    S.begin ctx (.variadic (.build source name)) =
      (.error (.memory e), { S.lost source with store := τ }.release S.store.scopes.length) := by
  have hrun : (Call.variadic (.build source name)).perform.run ctx S =
      .error (.memory e) { S.lost source with store := τ } := by
    refine (run_bind_find hb _).trans ((run_consume (find?_of_builder? hb) _).trans ?_)
    rw [run_bind, run_lift, S.store_lost, hr]
  unfold begin
  rw [hrun]

theorem Session.Ended.finished (h : S.Ended s .closed) (hS : S.Aside fun _ => False) :
    S.Finished s := by
  have hd := h.not_isAlive
  have hblocks := hS.emptied s hd
  refine ⟨Bool.eq_false_iff.mpr hd, congrArg List.length hblocks, ?_, fun ctx c hc => hc.refused hd,
    fun name v c hv hc => (hS.of_list? hv).2 c hc, ?_, ?_, fun ctx p rest hc ht => ?_⟩
  · unfold Scope.memoryBytes
    rw [hblocks]
    rfl
  · rintro ctx source name b arg r hb hm hv rfl
    have hfail : b.build.Leads ctx S.store (fun _ _ => False) fun _ => True :=
      VariadicBuilder.fails_build hm hv h.known hd
    cases hr : b.build.run ctx S.store with
    | ok v τ => exact (hfail.ok hr).elim
    | error e τ => exact ⟨_, _, Session.begin_build hb hr, Session.listsStay_lost hb⟩
  · rintro ctx target size align threads count a ha rfl
    have hscope : (S.store.arena a).scope ∈ Handle.allocatorScopes S.store (.arena a) :=
      List.mem_singleton.mpr rfl
    obtain ⟨outcomes, hrun, hall⟩ := Allocator.run_allocateEach hscope hd size align
      (AllocationCall.callers threads count)
    refine ⟨outcomes, ?_, hall⟩
    have hperform :
        (Call.allocation (.allocateParallel target size align threads count)).perform.run ctx S
          = .ok (.tally (.of align outcomes)) S := by
      refine (run_bind_find ha _).trans ?_
      unfold AllocationCall.callers at hrun
      exact run_bind_lift hrun _
    exact Session.begin_of_run_ok hperform rfl
  · rw [Session.advance_cons ctx hc]
    exact CloseAction.unfold_of_ended ctx ht hd

/-- A list that cannot be built takes new memory at most. -/
theorem VariadicCall.leads_build_intact {system : SystemAllocator} {G : List Region}
    (hsep : system.Separate) (h : S.Sound system False G) (hw : ctx.system.Within system)
    (source name : Name) :
    (VariadicCall.build source name).perform.Leads ctx S (fun _ _ => True) fun T =>
      ∀ x, S.store.InUse x → T.store.memory.byte x = S.store.memory.byte x := by
  refine leads_bind_find (fun _ _ => rfl) fun b _ => ?_
  refine leads_forget.chain (fun _ hf => hf.elim) fun _ T hT => ?_
  subst hT
  refine leads_discard.chain (fun _ hf => hf.elim) fun _ T hT => ?_
  have hstore : S.store = T.store := by rw [hT]
  have hbuild := VariadicBuilder.intact_build hsep h.store h.ledger hw b
  rw [hstore] at hbuild ⊢
  refine (leads_lift hbuild).chain (fun T hT => ?_) fun v T _ => ?_
  · obtain ⟨τ, hτ, rfl⟩ := hT
    exact hτ
  · exact leads_rename.chain (fun _ hf => hf.elim) fun _ _ _ => leads_pure trivial

end finished

/-- Once a scope has been closed it is finished for good, also for what its own actions and those of
others do while they are run; and a list that cannot be built changes no byte that is in use. -/
theorem play_finished {past : List Move} {m : Move} {s : ScopeId} (hc : m.Closes (play past) s)
    (later : List Move) :
    (play (later ++ m :: past)).Finished s ∧
    ∀ system, SystemAllocator.Separate system → (∀ m' ∈ later ++ m :: past, m'.Within system) →
      ∀ ctx : Context, ctx.system.Within system → ∀ source name e T,
        (play (later ++ m :: past)).begin ctx (.variadic (.build source name)) = (.error e, T) →
        ∀ x, (play (later ++ m :: past)).store.InUse x →
          T.store.memory.byte x = (play (later ++ m :: past)).store.memory.byte x := by
  have hended : (play (m :: past)).Ended s .closed := hc.ended
  refine ⟨(play_ended hended later).finished (play_aside _), ?_⟩
  intro system hsep hw ctx hctx source name e T hT x hx
  have hS := play_sound hsep hw False.elim
  rcases Session.begin_leads (c := .variadic (.build source name))
    (VariadicCall.leads_build_intact hsep hS hctx source name) with ⟨_, _, he, _⟩ | ⟨_, U, he, hU⟩
  · cases he.symm.trans hT
  · cases he.symm.trans hT
    exact hU x hx

/-- A struct of one scope is staged for a list of another. -/
def stagingCalls : List (Thread × Call) :=
  [(0, .scope (.create .shared "s")),
    (0, .scope (.allocateNative 4 4 "s" (some "small"))),
    (0, .scope (.create .shared "t")),
    (0, .variadic (.builder "t" .win64 "b")),
    (0, .variadic (.push .cInt (.int 7) "b")),
    (0, .variadic (.push (.struct ⟨4, 4, .little⟩ [.cInt]) (.segment "small") "b"))]

/-- The first scope is closed. The list gets its slots in the other, but not the struct. -/
theorem stagingCalls_finished :
    Move.Closes (play (movesOf TwinHeaps.system stagingCalls))
      (.call ⟨0, TwinHeaps.system⟩ (.scope (.close "s"))) 1 ∧
    (play (.call ⟨0, TwinHeaps.system⟩ (.scope (.close "s")) ::
      movesOf TwinHeaps.system stagingCalls)).Finished 1 ∧
    ∃ T, (play (.call ⟨0, TwinHeaps.system⟩ (.scope (.close "s")) ::
        movesOf TwinHeaps.system stagingCalls)).begin ⟨0, TwinHeaps.system⟩
          (.variadic (.build "b" "v")) = (.error (.memory (.alreadyClosed 1)), T) ∧
      (T.store.scope 2).blockCount = 1 ∧
      ∀ x, (play (.call ⟨0, TwinHeaps.system⟩ (.scope (.close "s")) ::
          movesOf TwinHeaps.system stagingCalls)).store.InUse x →
        T.store.memory.byte x = (play (.call ⟨0, TwinHeaps.system⟩ (.scope (.close "s")) ::
          movesOf TwinHeaps.system stagingCalls)).store.memory.byte x := by
  have hc : Move.Closes (play (movesOf TwinHeaps.system stagingCalls))
      (.call ⟨0, TwinHeaps.system⟩ (.scope (.close "s"))) 1 := .call rfl rfl
  have hw : ∀ m ∈ [] ++ Move.call ⟨0, TwinHeaps.system⟩ (.scope (.close "s")) ::
      movesOf TwinHeaps.system stagingCalls, m.Within TwinHeaps.system := by
    intro m hm
    rcases List.mem_cons.mp hm with rfl | hm
    · exact .refl TwinHeaps.system
    · exact within_movesOf TwinHeaps.system stagingCalls m hm
  have h := play_finished hc []
  refine ⟨hc, h.1, _, rfl, rfl, ?_⟩
  exact h.2 TwinHeaps.system TwinHeaps.lawful.separate hw ⟨0, TwinHeaps.system⟩ (.refl _) "b" "v"
    _ _ rfl

end ScopedMemory
