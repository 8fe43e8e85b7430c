import ScopedMemory.Proofs.Refusal.Calls
import ScopedMemory.Proofs.Session.Play

namespace ScopedMemory

namespace Session

variable {S : Session} {ctx : Context} {c : Call}

theorem store_refused (S : Session) (c : Call) : (S.refused c).store = S.store := by
  unfold refused
  split
  next => exact S.store_lost _
  next => rfl

/-- A call that fails with the store as it was leaves no new scope behind. -/
theorem begin_refused {r : Refusal} (h : c.perform.run ctx S = .error r (S.refused c)) :
    S.begin ctx c = (.error r, S.refused c) := by
  exact begin_of_run_error h (congrArg (·.scopes.length) (S.store_refused c))

end Session

namespace Call.Checks

variable {S : Session} {ctx : Context} {c : Call} {q : Inquiry} {t : Thread}

/-- What comes before the look at the scope is the same for all threads, but for other scopes that
they may not use. -/
theorem fair (h : c.Checks S q) : S.store.Fair q.first := by
  cases h with
  | copyTarget => exact S.store.fair_checkAccess _ _ _
  | makeStruct =>
    exact (VariadicBuilder.looks_staged _ _ _).fair.verdict.bind fun _ => Store.fair_const _
  | readSegmentTo =>
    exact (VariadicList.looks_source _ _).fair.verdict.bind fun _ => Store.fair_const _
  | _ => exact Store.fair_const _

theorem begin_refused (h : c.Checks S q) {e : MemoryError}
    (he : q.check S.store ctx.caller = .error e) :
    S.begin ctx c = (.error (.memory e), S.refused c) :=
  Session.begin_refused (h.refused he)

/-- A call that succeeds has passed all of its checks. -/
theorem passed (h : c.Checks S q) {reply : Reply} {T : Session}
    (hT : c.perform.run ctx S = .ok reply T) :
    q.form = .ok () ∧ q.first ctx.caller = .ok () := by
  cases hc : q.check S.store ctx.caller with
  | error e => cases hT.symm.trans (h.refused hc)
  | ok _ => exact (Inquiry.check_eq_ok_iff.mp hc).imp_right And.left

/-- A thread that does not own the scope is refused and changes nothing, but that a builder is used
up. Where the owner would succeed, or fail for the end of the scope only, the refusal names the
scope, or one that is looked at before it and that the thread may not use either. -/
theorem foreign (h : c.Checks S q) (ho : (S.store.scope q.scope).owner? = some t)
    (ctx : Context) (hu : ctx.caller ≠ t) :
    (∃ e, S.begin ctx c = (.error (.memory e), S.refused c)) ∧
    ((∃ reply T, c.perform.run ⟨t, ctx.system⟩ S = .ok reply T) ∨
        ¬ S.store.IsAlive q.scope ∧ q.form = .ok () ∧ q.first t = .ok () →
      S.begin ctx c = (.error (.memory (.wrongThread q.scope)), S.refused c) ∨
      ∃ s, q.first ctx.caller = .error (.wrongThread s) ∧
        S.store.checkOwner ctx.caller s = .error (.wrongThread s) ∧
        S.begin ctx c = (.error (.memory (.wrongThread s)), S.refused c)) ∧
    (S.refused c).store = S.store ∧
    (S.refused c = S ∨ ∃ source name, c = .variadic (.build source name) ∧
      S.refused c = S.lost source) := by
  have hbar : S.store.checkUsable ctx.caller q.scope = .error (.wrongThread q.scope) := by
    unfold Store.checkUsable Store.checkOwner
    rw [ho]
    dsimp only
    rw [if_neg (Ne.symm hu)]
    rfl
  refine ⟨?_, fun howner => ?_, S.store_refused c, ?_⟩
  · obtain ⟨e, he⟩ := Inquiry.exists_error hbar
    exact ⟨e, h.begin_refused he⟩
  · have hpass : q.form = .ok () ∧ q.first t = .ok () := by
      rcases howner with ⟨reply, T, hT⟩ | ⟨_, hpass⟩
      · exact h.passed hT
      · exact hpass
    rcases h.fair t ctx.caller with he | ⟨s, he, _⟩ | ⟨s, he, hs⟩
    · exact Or.inl (h.begin_refused (Inquiry.check_of_scope hpass.1 (he ▸ hpass.2) hbar))
    · cases hpass.2.symm.trans he
    · exact Or.inr ⟨s, he, hs, h.begin_refused (Inquiry.check_of_first hpass.1 he)⟩
  · unfold Session.refused
    split
    next source name => exact Or.inr ⟨source, name, rfl, rfl⟩
    next => exact Or.inl rfl

end Call.Checks

/-- Three confined scopes of one thread, two with a region and one that only a builder refers to. -/
def confiningCalls : List (Thread × Call) :=
  [(0, .scope (.create .confined "a")),
    (0, .scope (.allocateNative 8 8 "a" (some "r"))),
    (0, .scope (.create .confined "b")),
    (0, .scope (.allocateNative 8 8 "b" (some "x"))),
    (0, .scope (.create .confined "c")),
    (0, .variadic (.builder "c" .win64 "k")),
    (0, .variadic (.push .cLongLong (.long 1) "k")),
    (0, .handle (.drop "c"))]

theorem confiningCalls_fill :
    ((play (movesOf TwinHeaps.system confiningCalls)).store.scope 1).owner? = some 0 ∧
    (∃ reply T, (Call.region (.fill "r" 7)).perform.run ⟨0, TwinHeaps.system⟩
      (play (movesOf TwinHeaps.system confiningCalls)) = .ok reply T) ∧
    (play (movesOf TwinHeaps.system confiningCalls)).begin ⟨1, TwinHeaps.system⟩
        (.region (.fill "r" 7)) =
      (.error (.memory (.wrongThread 1)), play (movesOf TwinHeaps.system confiningCalls)) := by
  have hr : (play (movesOf TwinHeaps.system confiningCalls)).region? "r" =
      some (⟨0x20000008, 8, 1⟩, false) := by decide
  have ho : ((play (movesOf TwinHeaps.system confiningCalls)).store.scope 1).owner? = some 0 := by
    decide
  have hok : ∃ reply T, (Call.region (.fill "r" 7)).perform.run ⟨0, TwinHeaps.system⟩
      (play (movesOf TwinHeaps.system confiningCalls)) = .ok reply T := ⟨_, _, rfl⟩
  refine ⟨ho, hok, ?_⟩
  rcases ((Call.Checks.fill hr).foreign ho ⟨1, TwinHeaps.system⟩ (by decide)).2.1 (Or.inl hok) with
    h | ⟨s, hs, _⟩
  · exact h
  · cases hs

/-- A copy from one scope to another looks at its source first, so the refusal does not name the
scope of its target. A list that cannot be built uses up its builder, and with it a scope that
nothing else refers to. -/
theorem confiningCalls_copyFrom_build :
    (((play (movesOf TwinHeaps.system confiningCalls)).store.scope 1).owner? = some 0 ∧
      (∃ r adopted,
        (play (movesOf TwinHeaps.system confiningCalls)).region? "r" = some (r, adopted) ∧
          r.scope = 1) ∧
      (∃ reply T, (Call.region (.copyFrom "r" "x")).perform.run ⟨0, TwinHeaps.system⟩
        (play (movesOf TwinHeaps.system confiningCalls)) = .ok reply T) ∧
      (∃ T, (Call.region (.copyFrom "r" "x")).perform.run ⟨1, TwinHeaps.system⟩
        (play (movesOf TwinHeaps.system confiningCalls)) = .error (.memory (.wrongThread 2)) T) ∧
      ∀ T, (Call.region (.copyFrom "r" "x")).perform.run ⟨1, TwinHeaps.system⟩
        (play (movesOf TwinHeaps.system confiningCalls)) ≠ .error (.memory (.wrongThread 1)) T) ∧
    ((play (movesOf TwinHeaps.system confiningCalls)).store.scope 3).owner? = some 0 ∧
    (play (movesOf TwinHeaps.system confiningCalls)).store.IsAlive 3 ∧
    ¬ ((play (movesOf TwinHeaps.system confiningCalls)).step TwinHeaps.system 1
      (.variadic (.build "k" "v"))).2.store.IsAlive 3 := by
  refine ⟨⟨by decide, ⟨⟨0x20000008, 8, 1⟩, false, by decide, rfl⟩, ⟨_, _, rfl⟩, ⟨_, rfl⟩,
    fun T h => ?_⟩, by decide, by decide, by decide⟩
  cases h

end ScopedMemory
