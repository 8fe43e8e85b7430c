import ScopedMemory.Proofs.Refusal.Calls
import ScopedMemory.Proofs.Session.Play

namespace ScopedMemory

/-- The call accesses what has the name, by a layout that is accepted and with a value that can be
encoded. -/
def RegionCall.Reaches (S : Session) (name : Name) : RegionCall → Prop
  | slice region _ _ _ | sliceFrom region _ _ | read _ region _ | write region _ _
  | fill region _ | contents region => region = name
  | get l _ type region => region = name ∧ type.carrier.check l .native = .ok ()
  | set l _ region x => region = name ∧ x.type.carrier.check l .native = .ok ()
  | getAddress region l _ => region = name ∧ ∃ w, Region.addressWidth l = .ok w
  | setAddress a region l _ => region = name ∧ ∃ bytes, Region.addressBytes l a = .ok bytes
  | copyFrom region source =>
    (region = name ∨ source = name) ∧
      ∃ r src, S.region? region = some r ∧ S.region? source = some src
  | adopt .. | belongs .. => False

/-- The call goes to the next slots of the list that has the name, by a layout that is accepted. -/
def VariadicCall.Reaches (S : Session) (name : Name) (conv : Convention) : VariadicCall → Prop
  | read l type list => list = name ∧ type.carrier.check l conv.width = .ok ()
  | readSegment l list allocator _ =>
    list = name ∧ Carrier.segment.check l conv.width = .ok () ∧ ∃ w, S.allocator? allocator = some w
  | skip _ list => list = name
  | builder .. | push .. | build .. | make .. | empty .. | adopt .. | copy .. => False

/-- The call accesses a region or a list of the scope that is not empty. -/
inductive Call.Reaches (S : Session) : Call → ScopeId → Prop
  | region {c name r adopted} (hr : S.region? name = some (r, adopted)) (hc : c.Reaches S name) :
    Reaches S (.region c) r.scope
  | list {c name v cur} (hv : S.list? name = some v) (hcur : v.cursor = some cur)
    (hc : c.Reaches S name v.convention) : Reaches S (.variadic c) cur.remaining.scope

/-- What an access is refused for before it looks at its scope: an end that lies too far, a source
that cannot be read, or a buffer that would be too long. -/
inductive Call.Preempted (S : Session) (t : Thread) : Call → Refusal → Prop
  | sliceFrom {region offset name? r adopted} (hr : S.region? region = some (r, adopted))
    (h : r.size < offset) :
    Preempted S t (.region (.sliceFrom region offset name?))
      (.memory (.outOfBounds offset 0 r.size))
  | copyFrom {region source src adopted e} (hs : S.region? source = some (src, adopted))
    (he : S.store.checkAccess t src 0 src.size = .error e) :
    Preempted S t (.region (.copyFrom region source)) (.memory e)
  | contents {region r adopted} (hr : S.region? region = some (r, adopted))
    (h : Region.bufferLimit < r.size) :
    Preempted S t (.region (.contents region)) .tooLong
  | skip {layouts list v cur e} (hv : S.list? list = some v) (hcur : v.cursor = some cur)
    (he : v.checkSkip cur layouts = .error e) :
    Preempted S t (.variadic (.skip layouts list)) (.memory e)

theorem Region.checkStart_of_le {r : Region} {offset : Word} (h : offset ≤ r.size) :
    r.checkStart offset = .ok () := by
  unfold checkStart Word.sub?
  rw [if_pos (UInt64.le_iff_toNat_le.mp h)]

theorem Region.checkStart_of_lt {r : Region} {offset : Word} (h : r.size < offset) :
    r.checkStart offset = .error (.outOfBounds offset 0 r.size) := by
  unfold checkStart Word.sub?
  rw [if_neg fun hle => UInt64.not_le.mpr h (UInt64.le_iff_toNat_le.mpr hle)]

namespace Turn

variable {α β : Type} {x : Turn α} {f : α → Turn β} {ctx : Context} {S : Session}

/-- The computation is not refused for want of a buffer. -/
def Fits (x : Turn α) (ctx : Context) (S : Session) : Prop :=
  ∀ T, x.run ctx S ≠ .error .tooLong T

theorem Leads.fits {P : α → Session → Prop} (h : x.Leads ctx S P fun _ => False) :
    x.Fits ctx S := by
  intro T hT
  unfold Leads at h
  rw [hT] at h
  exact h

theorem fits_pure (a : α) : (pure a : Turn α).Fits ctx S := fun _ hT => nomatch hT

theorem fits_find {lookup : Session → Name → Option α} {name : Name} :
    (find lookup name).Fits ctx S := by
  intro T hT
  unfold find at hT
  cases h : lookup S name <;> simp [h] at hT

theorem fits_lift {x : Operation α} : (lift x).Fits ctx S := by
  intro T hT
  rw [run_lift] at hT
  split at hT <;> cases hT

theorem Fits.bind (hx : x.Fits ctx S) (hf : ∀ a T, x.run ctx S = .ok a T → (f a).Fits ctx T) :
    (x >>= f).Fits ctx S := by
  intro T hT
  rw [run_bind] at hT
  cases hr : x.run ctx S with
  | ok a U =>
    rw [hr] at hT
    exact hf a U hr T hT
  | error e U =>
    rw [hr] at hT
    cases hT
    exact hx _ hr

end Turn

namespace Call.Reaches

variable {S : Session} {ctx : Context} {c : Call} {s : ScopeId}

/-- An access that is not refused earlier looks at its scope first. -/
theorem checks (h : c.Reaches S s) {t : Thread} (hp : ∀ e, ¬ c.Preempted S t e) :
    ∃ q : Inquiry, c.Checks S q ∧ q.scope = s ∧ q.form = .ok () ∧ q.first t = .ok () := by
  cases h with
  | @region c _ r _ hr hc =>
    cases c with
    | slice region offset length name? =>
      cases hc
      exact ⟨_, .slice hr, rfl, rfl, rfl⟩
    | sliceFrom region offset name? =>
      cases hc
      refine ⟨_, .sliceFrom hr, rfl, rfl, Region.checkStart_of_le ?_⟩
      exact UInt64.not_lt.mp fun hlt => hp _ (.sliceFrom hr hlt)
    | read length region offset =>
      cases hc
      exact ⟨_, .read hr, rfl, rfl, rfl⟩
    | write region offset bytes =>
      cases hc
      exact ⟨_, .write hr, rfl, rfl, rfl⟩
    | fill region value =>
      cases hc
      exact ⟨_, .fill hr, rfl, rfl, rfl⟩
    | contents region =>
      cases hc
      exact ⟨_, .contents hr (UInt64.not_lt.mp fun hlt => hp _ (.contents hr hlt)), rfl, rfl, rfl⟩
    | get l offset type region =>
      obtain ⟨rfl, hform⟩ := hc
      exact ⟨_, .get hr, rfl, hform, rfl⟩
    | set l offset region x =>
      obtain ⟨rfl, hform⟩ := hc
      exact ⟨_, .set hr, rfl, hform, rfl⟩
    | getAddress region l offset =>
      obtain ⟨rfl, w, hw⟩ := hc
      exact ⟨_, .getAddress hr, rfl, congrArg MemoryError.verdict hw, rfl⟩
    | setAddress a region l offset =>
      obtain ⟨rfl, bytes, hb⟩ := hc
      exact ⟨_, .setAddress hr, rfl, congrArg MemoryError.verdict hb, rfl⟩
    | copyFrom region source =>
      obtain ⟨hname, ⟨dst, _⟩, ⟨src, _⟩, hd, hs⟩ := hc
      rcases hname with rfl | rfl
      · obtain rfl := (Prod.mk.inj (Option.some.inj (hd.symm.trans hr))).1
        refine ⟨_, .copyTarget hr hs, rfl, rfl, ?_⟩
        dsimp only
        cases he : S.store.checkAccess t src 0 src.size with
        | error e => exact absurd (.copyFrom hs he) (hp _)
        | ok _ => rfl
      · obtain rfl := (Prod.mk.inj (Option.some.inj (hs.symm.trans hr))).1
        exact ⟨_, .copySource hd hr, rfl, rfl, rfl⟩
    | _ => exact hc.elim
  | @list c _ v cur hv hcur hc =>
    cases c with
    | read l type list =>
      obtain ⟨rfl, hform⟩ := hc
      exact ⟨_, .readList hv hcur, rfl, hform, rfl⟩
    | readSegment l list allocator name? =>
      obtain ⟨rfl, hform, w, hw⟩ := hc
      exact ⟨_, .readSegment hv hcur hw, rfl, hform, rfl⟩
    | skip layouts list =>
      cases hc
      refine ⟨_, .skip hv hcur, rfl, rfl, ?_⟩
      dsimp only
      cases he : v.checkSkip cur layouts with
      | error e => exact absurd (.skip hv hcur he) (hp _)
      | ok _ => rfl
    | _ => exact hc.elim

theorem refused (h : c.Reaches S s) : S.refused c = S := by
  cases h with
  | region => rfl
  | @list c _ _ _ _ _ hc =>
    cases c with
    | build => exact hc.elim
    | _ => rfl

theorem preempted (h : c.Reaches S s) {e : Refusal} (he : c.Preempted S ctx.caller e) :
    c.perform.run ctx S = .error e S := by
  cases he with
  | sliceFrom hr hlt =>
    exact (Call.Checks.sliceFrom hr).refused
      (Inquiry.check_of_first rfl (Region.checkStart_of_lt hlt))
  | copyFrom hs he =>
    obtain ⟨r, hr⟩ : ∃ r, S.region? _ = some r := by
      cases h with
      | region _ hc => exact hc.2.imp fun _ ⟨_, hr, _⟩ => hr
    exact (Call.Checks.copyTarget hr hs).refused (Inquiry.check_of_first rfl he)
  | contents hr hlt =>
    refine (Turn.run_bind_find hr _).trans ?_
    rw [Turn.run_bind, Turn.run_lift, Region.run_contents, if_neg (UInt64.not_le.mpr hlt)]
    rfl
  | skip hv hcur he =>
    exact (Call.Checks.skip hv hcur).refused (Inquiry.check_of_first rfl he)

/-- No access is refused for want of a buffer, but for the contents of a region that is too long.
The struct of a list may be too long to be shown once it has been read. -/
theorem fits (h : c.Reaches S s) {T : Session} (hT : c.perform.run ctx S = .error .tooLong T) :
    c.Preempted S ctx.caller .tooLong ∨
      ∃ l list allocator name? v w p τ, c = .variadic (.readSegment l list allocator name?) ∧
        S.list? list = some v ∧ S.allocator? allocator = some w ∧
        (v.readSegment l w).run ctx S.store = .ok p τ := by
  cases h with
  | @region c name r adopted hr hc =>
    cases c with
    | contents region =>
      cases hc
      left
      refine .contents hr (UInt64.not_le.mp fun hle => ?_)
      replace hT := (Turn.run_bind_find hr _).symm.trans hT
      rw [Turn.run_bind, Turn.run_lift, Region.run_contents, if_pos hle] at hT
      cases ha : S.store.checkAccess ctx.caller r 0 r.size <;> rw [ha] at hT <;> cases hT
    | slice | sliceFrom =>
      exact absurd hT
        (Turn.fits_find.bind (fun _ _ _ => Turn.fits_lift.bind fun _ _ _ =>
          Turn.leads_keepRegion.fits) T)
    | read | write | fill | get | set | getAddress | setAddress =>
      exact absurd hT
        (Turn.fits_find.bind (fun _ _ _ => Turn.fits_lift.bind fun _ _ _ => Turn.fits_pure _) T)
    | copyFrom =>
      exact absurd hT (Turn.fits_find.bind (fun _ _ _ => Turn.fits_find.bind fun _ _ _ =>
        Turn.fits_lift.bind fun _ _ _ => Turn.fits_pure _) T)
    | adopt | belongs => exact hc.elim
  | @list c name v cur hv hcur hc =>
    cases c with
    | read | skip =>
      exact absurd hT (Turn.fits_find.bind (fun _ _ _ => Turn.fits_lift.bind fun _ _ _ =>
        Turn.leads_update.fits.bind fun _ _ _ => Turn.fits_pure _) T)
    | readSegment l list allocator name? =>
      obtain ⟨rfl, _, w, hw⟩ := hc
      replace hT := (Turn.run_bind_claim hv _).symm.trans hT
      replace hT := (Turn.run_bind_find hw _).symm.trans hT
      rw [Turn.run_bind, Turn.run_lift] at hT
      cases hx : (v.readSegment l w).run ctx S.store with
      | error e τ =>
        rw [hx] at hT
        cases hT
      | ok p τ => exact Or.inr ⟨l, _, allocator, name?, v, w, p, τ, rfl, hv, hw, hx⟩
    | _ => exact hc.elim

theorem barred (h : c.Reaches S s) (hp : ∀ e, ¬ c.Preempted S ctx.caller e) {e : MemoryError}
    (he : S.store.checkUsable ctx.caller s = .error e) :
    c.perform.run ctx S = .error (.memory e) S := by
  obtain ⟨q, hq, rfl, hform, hfirst⟩ := h.checks hp
  have hrun := hq.refused (Inquiry.check_of_scope hform hfirst he)
  rwa [h.refused] at hrun

/-- An access finds fault with its scope, with its owner and then with its end, before it finds
fault with its bounds, except for what it is refused for before that. -/
theorem scope_before_bounds (h : c.Reaches S s) (ctx : Context) :
    (∀ e, c.Preempted S ctx.caller e → c.perform.run ctx S = .error e S) ∧
    ((∀ e, ¬ c.Preempted S ctx.caller e) →
      (S.store.checkOwner ctx.caller s ≠ .ok () →
        c.perform.run ctx S = .error (.memory (.wrongThread s)) S) ∧
      (S.store.checkOwner ctx.caller s = .ok () → ¬ S.store.IsAlive s →
        c.perform.run ctx S = .error (.memory (.alreadyClosed s)) S)) ∧
    (∀ offset length size T,
      c.perform.run ctx S = .error (.memory (.outOfBounds offset length size)) T →
        S.store.checkUsable ctx.caller s = .ok () ∨
          c.Preempted S ctx.caller (.memory (.outOfBounds offset length size))) ∧
    ∀ T, c.perform.run ctx S = .error .tooLong T →
      c.Preempted S ctx.caller .tooLong ∨
        ∃ l list allocator name? v w p τ, c = .variadic (.readSegment l list allocator name?) ∧
          S.list? list = some v ∧ S.allocator? allocator = some w ∧
          (v.readSegment l w).run ctx S.store = .ok p τ := by
  refine ⟨fun e => h.preempted, fun hp => ⟨fun ho => ?_, fun ho ha => ?_⟩,
    fun offset length size T hT => ?_, fun T => h.fits⟩
  · rcases S.store.checkUsable_cases ctx.caller s with ⟨_, hu⟩ | ⟨ho', _⟩ | ⟨ho', _⟩
    · exact h.barred hp hu
    · exact absurd ho' ho
    · exact absurd ho' ho
  · rcases S.store.checkUsable_cases ctx.caller s with ⟨ho', _⟩ | ⟨_, _, hu⟩ | ⟨_, ha', _⟩
    · cases ho.symm.trans ho'
    · exact h.barred hp hu
    · exact absurd ha' ha
  · by_cases hp : ∃ e, c.Preempted S ctx.caller e
    · obtain ⟨e, hp⟩ := hp
      cases hT.symm.trans (h.preempted hp)
      exact Or.inr hp
    · replace hp : ∀ e, ¬ c.Preempted S ctx.caller e := fun e he => hp ⟨e, he⟩
      rcases S.store.checkUsable_cases ctx.caller s with ⟨_, hu⟩ | ⟨_, _, hu⟩ | ⟨_, _, hu⟩
      · cases hT.symm.trans (h.barred hp hu)
      · cases hT.symm.trans (h.barred hp hu)
      · exact Or.inl hu

end Call.Reaches

/-- A scope is closed while there is a region of it. -/
def closingCalls : List (Thread × Call) :=
  [(0, .scope (.create .shared "s")),
    (0, .scope (.allocateNative 8 8 "s" (some "r"))),
    (0, .scope (.close "s"))]

/-- A rest of a closed region is out of bounds if it begins past the end, and closed otherwise. -/
theorem closingCalls_sliceFrom :
    ¬ (play (movesOf TwinHeaps.system closingCalls)).store.IsAlive 1 ∧
    (Call.region (.sliceFrom "r" 9 none)).perform.run ⟨0, TwinHeaps.system⟩
        (play (movesOf TwinHeaps.system closingCalls)) =
      .error (.memory (.outOfBounds 9 0 8)) (play (movesOf TwinHeaps.system closingCalls)) ∧
    (Call.region (.sliceFrom "r" 8 none)).perform.run ⟨0, TwinHeaps.system⟩
        (play (movesOf TwinHeaps.system closingCalls)) =
      .error (.memory (.alreadyClosed 1)) (play (movesOf TwinHeaps.system closingCalls)) := by
  have hr : (play (movesOf TwinHeaps.system closingCalls)).region? "r" =
      some (⟨0x20000008, 8, 1⟩, false) := by decide
  have hreach : ∀ offset, (Call.region (.sliceFrom "r" offset none)).Reaches
      (play (movesOf TwinHeaps.system closingCalls)) 1 := fun offset => .region hr rfl
  have halive : ¬ (play (movesOf TwinHeaps.system closingCalls)).store.IsAlive 1 := by decide
  refine ⟨halive, ((hreach 9).scope_before_bounds _).1 _ (.sliceFrom hr (by decide)), ?_⟩
  refine (((hreach 8).scope_before_bounds _).2.1 fun e he => ?_).2 rfl halive
  cases he with
  | sliceFrom hr' hlt =>
    obtain rfl := (Prod.mk.inj (Option.some.inj (hr.symm.trans hr'))).1
    exact absurd hlt (by decide)

end ScopedMemory
