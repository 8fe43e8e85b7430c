import Mathlib.Logic.Function.Basic
import ScopedMemory.Proofs.Lifetime.Tidy
import ScopedMemory.Proofs.Session.Adopted
import ScopedMemory.Proofs.Variadic.Position

namespace ScopedMemory

open Turn

variable {system : SystemAllocator} {strict : Prop} {waiting waiting' : List Block}
  {G G' : List Region} {S T U : Session} {ctx ctx' : Context} {σ τ ρ : Store}

/-! ### What the answers say about how far the lists have been read -/

/-- The list that the call reads on in, and how. -/
def VariadicCall.reading? : VariadicCall → Option (Name × Reading)
  | read l type list => some (list, .value l type)
  | readSegment l list _ _ => some (list, .segment l)
  | skip ls list => some (list, .skip ls)
  | _ => none

/-- A struct that is too long to be shown has been read all the same. -/
def Reading.succeeded : Except Refusal Reply → Bool
  | .ok _ | .error .tooLong => true
  | .error _ => false

theorem Reading.succeeded_eq_true_iff {outcome : Except Refusal Reply} :
    succeeded outcome = true ↔ (∃ reply, outcome = .ok reply) ∨ outcome = .error .tooLong := by
  cases outcome with
  | ok reply => simp [succeeded]
  | error r => cases r <;> simp [succeeded]

/-- The progress of the named lists after a call on `S`, of which only the outcome is known. -/
def VariadicCall.tracked (S : Session) (outcome : Except Refusal Reply) (p : Name → Progress)
    (c : VariadicCall) : Name → Progress :=
  match c.reading? with
  | some (list, q) =>
    if Reading.succeeded outcome then
      Function.update p list ((p list).read (UInt64.ofNat q.slots).toNat)
    else p
  | none =>
    match c, outcome with
    | build source name, .ok (.list view) =>
      let b := S.builder? source
      let bytes := b.elim 0 fun b => b.arguments.length * b.convention.slotSize.toNat
      Function.update p name ⟨view.address, bytes, 0⟩
    | make arguments _ convention name, .ok (.list view) =>
      Function.update p name
        ⟨view.address, arguments.length * convention.slotSize.toNat, 0⟩
    | empty _ name, .ok _ => Function.update p name ⟨0, 0, 0⟩
    | adopt start _ _ name, .ok _ =>
      Function.update p name ⟨start, 0xffffffffffffffff - start.toNat, 0⟩
    | copy list name, .ok _ => Function.update p name (p list)
    | _, _ => p

def Call.tracked (S : Session) (outcome : Except Refusal Reply) (p : Name → Progress) :
    Call → Name → Progress
  | .variadic c => c.tracked S outcome p
  | _ => p

/-- How far the lists have been read in a run, told from its calls and what they were answered. -/
def progress : List Move → Name → Progress
  | [] => fun _ => ⟨0, 0, 0⟩
  | .call ctx c :: past => c.tracked (play past) ((play past).begin ctx c).1 (progress past)
  | .chore _ :: past => progress past

namespace VariadicList

variable {v v' : VariadicList} {p : Progress}

theorem of_run_copy (h : v.copy.run ctx σ = .ok v' τ) :
    v' = v ∨ v.cursor = none ∧ v' = empty v.convention := by
  unfold copy at h
  split at h
  next hc =>
    cases h
    exact Or.inr ⟨hc, rfl⟩
  next =>
    obtain ⟨_, _, _, hv⟩ := Operation.of_run_bind h
    cases hv
    exact Or.inl rfl

theorem StandsAt.copy (h : v.StandsAt p) (hr : v.copy.run ctx σ = .ok v' τ) : v'.StandsAt p := by
  rcases of_run_copy hr with rfl | ⟨hc, rfl⟩
  · exact h
  · obtain ⟨k, s, c⟩ := v
    cases hc
    exact ⟨h.position, h.address, h.unread, h.finish⟩

/-- A reading that succeeds gives a list that stands as many slots further on. -/
theorem StandsAt.reading (h : v.StandsAt p) {q : Reading} {w : Allocator} {x : Reading.Shown}
    (hr : (q.perform v w).run ctx σ = .ok (x, v') τ) :
    v'.StandsAt (p.read (UInt64.ofNat q.slots).toNat) := by
  obtain ⟨c, hc⟩ := Reading.cursor_of_run hr
  obtain ⟨n, hn, hsp, _, rfl⟩ := Reading.of_run hc hr
  exact h.moved hc hn hsp

end VariadicList

/-! ### The lists of a session -/

variable {p : Name → Progress}

namespace Session

def Tracks (S : Session) (p : Name → Progress) : Prop :=
  ∀ name v, S.list? name = some v → v.StandsAt (p name)

theorem list?_of_find? {name : Name} {v : VariadicList}
    (hf : S.handles.find? name = some (.list v)) : S.list? name = some v := by
  unfold list?
  rw [hf]

theorem Tracks.from (h : S.Tracks p) (hs : S.handles.Sorted) (hT : S.ListsFrom T) :
    T.Tracks p := fun name v hv =>
  h name v (list?_of_find?
    (hs.find? (hT _ (HandleTable.mem_of_find? (find?_of_list? hv)) trivial)))

theorem Tracks.put (h : T.Tracks p) {name : Name} {v : VariadicList} {q : Progress}
    (hv : v.StandsAt q) (hU : U.handles = T.handles.put name (.list v)) :
    U.Tracks (Function.update p name q) := by
  intro n v' hv'
  have hf := find?_of_list? hv'
  rw [hU, HandleTable.find?_put] at hf
  split at hf
  next he =>
    cases hf
    rw [he, Function.update_self]
    exact hv
  next hne =>
    rw [Function.update_of_ne hne]
    exact h n v' (list?_of_find? hf)

end Session

namespace Turn

/-- What is known however the turn ends is known of refusals too. -/
theorem Leads.ends_any {α : Type} {x : Turn α} {P : α → Session → Prop} {Q : Session → Prop}
    (h : x.Leads ctx S P Q) : x.Ends ctx S P fun _ T => Q T :=
  ends_iff.mpr ⟨fun _ _ hr => h.ok hr, fun _ _ hr => h.error hr⟩

/-- A new list is given a name. -/
theorem ends_made (hT : T.Tracks p) {x : Operation VariadicList} {q : VariadicList → Progress}
    (hx : x.Leads ctx T.store (fun v _ => v.StandsAt (q v)) fun _ => True) (name : Name) :
    (do keepList name (← lift x) : Turn Reply).Ends ctx T
      (fun reply U => ∃ v, reply = .list v.view ∧ U.Tracks (Function.update p name (q v)))
      fun _ U => U.Tracks p := by
  refine Ends.bind (P := fun v U => v.StandsAt (q v) ∧ U.Tracks p)
    (ends_lift (fun v τ hr => ⟨hx.ok hr, hT⟩) fun _ _ _ => hT) fun v U hU => ?_
  refine (leads_keepList.imp (fun _ V hV => ?_) fun _ h => h).ends
  exact ⟨v, hV.1, hU.2.put hU.1 (congrArg Session.handles hV.2)⟩

/-- A list that is read on in keeps its name. -/
theorem ends_readOn (hS : S.Tracks p) {α : Type} {list : Name} {q : Progress} {x : Operation α}
    (rest : α → VariadicList) (reply : α → Reply)
    (hx : ∀ a τ, x.run ctx S.store = .ok a τ → (rest a).StandsAt q) :
    (do
      let a ← lift x
      update list (.list (rest a))
      return reply a : Turn Reply).Ends ctx S
        (fun _ T => T.Tracks (Function.update p list q))
        fun r T => (∃ e, r = .memory e) ∧ T.Tracks p := by
  refine Ends.bind (P := fun a T => (rest a).StandsAt q ∧ T.Tracks p)
    (ends_lift (fun a τ hr => ⟨hx a τ hr, hS⟩) fun e _ _ => ⟨⟨e, rfl⟩, hS⟩) fun a T hT => ?_
  refine leads_update.ends.bind fun _ U hU => ends_pure ?_
  exact hT.2.put hT.1 (congrArg Session.handles hU)

end Turn

theorem Session.Tracks.unlisting (h : S.Tracks p) (hs : S.handles.Sorted) {x : Turn Reply}
    (hx : x.Unlisting ctx S) : x.Ends ctx S (fun _ T => T.Tracks p) fun _ T => T.Tracks p :=
  (hx.imp (fun _ _ hT => h.from hs hT) fun _ hT => h.from hs hT).ends_any

namespace VariadicCall

/-- The names have the progress that is told from the answer. -/
abbrev Tracked (c : VariadicCall) (ctx : Context) (S : Session) (p : Name → Progress) : Prop :=
  c.perform.Ends ctx S (fun reply T => T.Tracks (c.tracked S (.ok reply) p))
    fun r T => T.Tracks (c.tracked S (.error r) p)

theorem tracks_readSegment (hs : S.handles.Sorted) (hp : S.Tracks p) (l : Layout)
    (list allocator : Name) (name? : Option Name) :
    (readSegment l list allocator name?).Tracked ctx S p := by
  refine ends_bind_claim (fun _ => hp.from hs (Session.lenient_listsFrom.lost S list)) fun v hn =>
    ends_bind_find hp fun w _ => ?_
  refine Ends.bind (P := fun a T => a.2.StandsAt ((p list).read 1) ∧ T.handles = S.handles)
    (ends_lift (fun a τ hr => ⟨?_, rfl⟩) fun _ _ _ => hp) fun a T hT => ?_
  · exact (hp list v hn).reading (Reading.run_segment hr)
  refine leads_update.ends.bind fun _ U hU => ?_
  -- The struct has been read, and nothing that is done from now on names a list.
  have hread : U.Tracks (Function.update p list ((p list).read 1)) :=
    hp.put hT.1 ((congrArg Session.handles hU).trans (congrArg _ hT.2))
  have hsorted : U.handles.Sorted := by
    rw [hU]
    exact (hT.2 ▸ hs).put list _
  refine (ends_get (P := fun _ V => V = U) rfl).bind fun view V hV => ?_
  rw [hV]
  refine ends_lift_attempt.bind fun contents V hV => ?_
  obtain ⟨τ, rfl⟩ := hV
  refine leads_keep.ends.bind fun _ V hV => ?_
  have hfrom : U.ListsFrom V := by
    rw [hV]
    exact (Session.ListsFrom.of_handles rfl).trans (Session.lenient_listsFrom.kept _ name? id)
  have hend := hread.from hsorted hfrom
  match contents with
  | .ok (some _) => exact ends_pure hend
  | .ok none => exact ends_throw hend
  | .error _ => exact ends_pure hend

theorem tracks_build (hlaw : system.Lawful) (h : S.Sound system strict G) (hs : S.handles.Sorted)
    (hw : ctx.system.Within system) (hp : S.Tracks p) (source name : Name) :
    (build source name).Tracked ctx S p := by
  refine ends_bind_find hp fun b hn => ?_
  refine leads_forget.ends.bind fun _ U hU => leads_discard.ends.bind fun _ V hV => ?_
  have hfrom : S.ListsFrom V := by
    rw [hV, hU]
    exact .erase S source rfl
  have hstore : V.store = S.store := by rw [hV, hU]
  have hbuild := b.standsAt_build hlaw (hstore ▸ h.store) (hstore ▸ h.ledger) hw
  refine (ends_made (hp.from hs hfrom) (hbuild.imp (fun _ _ hv => hv.2) fun _ hv => hv) name).imp
    (fun reply T hT => ?_) fun _ _ hT => hT
  obtain ⟨v, rfl, hT⟩ := hT
  simp only [VariadicCall.tracked, reading?, hn, Option.elim_some]
  exact hT

theorem tracks_make (hlaw : system.Lawful) (h : S.Sound system strict G)
    (hw : ctx.system.Within system) (hp : S.Tracks p)
    (arguments : List (Layout × ArgumentSource)) (scope : Name) (convention : Convention)
    (name : Name) : (make arguments scope convention name).Tracked ctx S p := by
  have hargs : (arguments.mapM fun arg => return (arg.1, ← arg.2.resolve) :
      Turn (List (Layout × ArgumentValue))).Ends ctx S
        (fun args T => args.length = arguments.length ∧ T = S) fun _ T => T.Tracks p := by
    refine (ArgumentSource.leads_values arguments).ends_any.imp (fun args T hT => ?_)
      fun _ T hT => hT ▸ hp
    have hlength := congrArg List.length hT.1
    rw [List.length_map, List.length_map] at hlength
    exact ⟨hlength.symm, hT.2⟩
  refine hargs.bind fun args T hT => ?_
  obtain ⟨hlength, rfl⟩ := hT
  refine ends_bind_find hp fun s _ => ?_
  refine (ends_made hp (q := fun v => ⟨v.address, arguments.length * convention.slotSize.toNat, 0⟩)
    ?_ name).imp (fun reply T hT => ?_) fun _ _ hT => hT
  · refine (VariadicList.leads_make_build convention s args).imp (fun v τ hv => ?_) fun _ h => h
    have hbuild := (VariadicBuilder.standsAt_build hlaw h.store h.ledger hw _).ok hv.2
    have hstands := hbuild.2
    rw [List.length_map, hlength] at hstands
    exact hstands
  · obtain ⟨v, rfl, hT⟩ := hT
    exact hT

theorem tracks (hlaw : system.Lawful) (h : S.Sound system strict G) (hs : S.handles.Sorted)
    (hw : ctx.system.Within system) (hp : S.Tracks p) (c : VariadicCall) : c.Tracked ctx S p := by
  cases c with
  | builder scope convention name => exact hp.unlisting hs (unlisting_builder scope convention name)
  | push layout value target => exact hp.unlisting hs (unlisting_push layout value target)
  | build source name => exact tracks_build hlaw h hs hw hp source name
  | make arguments scope convention name =>
    exact tracks_make hlaw h hw hp arguments scope convention name
  | empty convention name =>
    refine (leads_keepList.imp (fun reply T hT => ?_) fun _ hf => hf).ends
    exact hp.put (VariadicList.standsAt_empty convention) (congrArg Session.handles hT.2)
  | adopt start scope convention name =>
    refine ends_bind_find hp fun s _ => ?_
    refine (ends_made hp (q := fun _ => ⟨start, 0xffffffffffffffff - start.toNat, 0⟩) ?_ name).imp
      (fun reply T hT => ?_) fun _ _ hT => hT
    · refine (VariadicList.leads_ofAddress_whole convention start s).imp (fun v τ hv => ?_)
        fun _ _ => trivial
      rw [hv.1]
      exact VariadicList.standsAt_adopted convention start s
    · obtain ⟨v, rfl, hT⟩ := hT
      exact hT
  | read layout type list =>
    refine ends_bind_find hp fun v hn => ?_
    refine (ends_readOn hp Prod.snd Prod.fst (q := (p list).read 1) fun a τ hr => ?_).imp
      (fun _ _ hT => hT) fun r T hT => ?_
    · exact (hp list v hn).reading (Reading.run_value (w := .direct 0) hr)
    · obtain ⟨⟨e, rfl⟩, hT⟩ := hT
      exact hT
  | readSegment layout list allocator name? =>
    exact tracks_readSegment hs hp layout list allocator name?
  | skip layouts list =>
    refine ends_bind_find hp fun v hn => ?_
    refine (ends_readOn hp id (fun rest => .list rest.view)
      (q := (p list).read (UInt64.ofNat layouts.length).toNat) fun rest τ hr => ?_).imp
      (fun _ _ hT => hT) fun r T hT => ?_
    · exact (hp list v hn).reading (Reading.run_skip (w := .direct 0) hr)
    · obtain ⟨⟨e, rfl⟩, hT⟩ := hT
      exact hT
  | copy list name =>
    refine ends_bind_find hp fun v hn => ?_
    refine (ends_made hp (q := fun _ => p list) ?_ name).imp (fun reply T hT => ?_)
      fun _ _ hT => hT
    · exact Operation.leads_run.imp (fun v' τ hr => (hp list v hn).copy hr) fun _ _ => trivial
    · obtain ⟨v', rfl, hT⟩ := hT
      exact hT

end VariadicCall

theorem Call.tracks (hlaw : system.Lawful) (h : S.Sound system strict G) (hs : S.handles.Sorted)
    (hw : ctx.system.Within system) (hp : S.Tracks p) (c : Call) :
    (S.begin ctx c).2.Tracks (c.tracked S (S.begin ctx c).1 p) := by
  have hc : c.perform.Ends ctx S (fun reply T => T.Tracks (c.tracked S (.ok reply) p))
      fun r T => T.Tracks (c.tracked S (.error r) p) := by
    cases c with
    | handle c => exact hp.unlisting hs (c.through Session.lenient_listsFrom)
    | scope c => exact hp.unlisting hs (c.through Session.lenient_listsFrom)
    | region c => exact hp.unlisting hs (c.through Session.lenient_listsFrom)
    | allocation c => exact hp.unlisting hs c.unlisting
    | variadic c => exact c.tracks hlaw h hs hw hp
  unfold Session.begin
  cases hr : c.perform.run ctx S with
  | ok reply T =>
    have hT := hc.ok hr
    exact hT
  | error refusal T =>
    have hT := hc.error hr
    exact hT

theorem play_tracks (hlaw : system.Lawful) {past : List Move} (hw : ∀ m ∈ past, m.Within system) :
    (play past).Tracks (progress past) := by
  induction past with
  | nil => exact fun _ _ hv => by cases hv
  | cons m past ih =>
    have hpast : ∀ m ∈ past, m.Within system := fun m' hm => hw m' (List.mem_cons_of_mem m hm)
    have hS : (play past).Sound system False _ := play_sound hlaw.separate hpast False.elim
    have hsorted := (play_tidied past).sorted
    cases m with
    | call ctx c => exact c.tracks hlaw hS hsorted (hw _ List.mem_cons_self) (ih hpast)
    | chore ctx =>
      exact (ih hpast).from hsorted (.of_handles (Session.handles_advance _ ctx))

theorem Session.Sound.sits (h : S.Sound system strict G) (hp : S.Tracks p) (hh : S.Housed)
    {name : Name} {v : VariadicList} {c : Cursor} (hv : S.list? name = some v)
    (hc : v.cursor = some c) : v.Sits c S.store where
  cursor := hc
  scope := ((h.of_list? hv).list v c rfl hc).1
  fits := (hp name v hv).fits hc
  started := (hp name v hv).started hc
  inside hf := (hh.atHome hv hc hf).inside

/-! ### Calls that are refused -/

/-- The call reads on in the list, moves over some of it or copies it. -/
def VariadicCall.Consults (name : Name) (c : VariadicCall) : Prop :=
  (∃ q, c.reading? = some (name, q)) ∨ ∃ copy, c = .copy name copy

theorem VariadicCall.Consults.cases {name : Name} {c : VariadicCall} (h : c.Consults name) :
    (∃ l type, c = .read l type name) ∨
    (∃ l allocator name?, c = .readSegment l name allocator name?) ∨
    (∃ ls, c = .skip ls name) ∨ ∃ copy, c = .copy name copy := by
  obtain ⟨q, hq⟩ | hcopy := h
  · cases c with
    | read l type list =>
      cases hq
      exact Or.inl ⟨l, type, rfl⟩
    | readSegment l list allocator name? =>
      cases hq
      exact Or.inr (Or.inl ⟨l, allocator, name?, rfl⟩)
    | skip ls list =>
      cases hq
      exact Or.inr (Or.inr (Or.inl ⟨ls, rfl⟩))
    | _ => cases hq
  · exact Or.inr (Or.inr (Or.inr hcopy))

def Call.Consults (name : Name) : Call → Prop
  | .variadic c => c.Consults name
  | _ => False

/-- All names mean what they meant, and no byte is different that was in use. -/
structure Session.Untouched (S T : Session) : Prop where
  handles : T.handles = S.handles
  bytes : ∀ x, T.store.memory.byte x ≠ S.store.memory.byte x →
    ¬ S.store.InUse x ∧ T.store.InUse x

theorem Session.untouched_of_store {τ : Store} (hτ : τ = S.store) :
    S.Untouched { S with store := τ } where
  handles := rfl
  bytes x hx := absurd (congrArg (fun σ => σ.memory.byte x) hτ) hx

namespace VariadicCall

variable {name : Name} {v : VariadicList}

theorem refused (hlaw : system.Lawful) (h : S.Sound system strict G)
    (hw : ctx.system.Within system) (hv : S.list? name = some v)
    (hsits : ∀ c, v.cursor = some c → v.Sits c S.store) {c : VariadicCall}
    (hc : c.Consults name) :
    c.perform.Ends ctx S (fun _ _ => True) fun r T => r ≠ .tooLong → S.Untouched T := by
  have hself : S.Untouched S := ⟨rfl, fun x hx => absurd rfl hx⟩
  have hon : ∀ {α : Type} {x : Operation α} {f : α → Turn Reply}
      {P : α → Store → Prop}, x.Leads ctx S.store P (· = S.store) →
        (∀ a T, (f a).Leads ctx T (fun _ _ => True) fun _ => False) →
        (lift x >>= f).Ends ctx S (fun _ _ => True) fun r T => r ≠ .tooLong → S.Untouched T :=
    fun hx hf => Ends.bind (P := fun _ _ => True)
      (ends_lift (fun _ _ _ => trivial) fun e τ hr _ => Session.untouched_of_store (hx.error hr))
      fun a T _ => (hf a T).ends
  have hrest : ∀ {list : Name} {v : VariadicList} {reply : Reply} {T : Session},
      (do
        update list (.list v)
        return reply : Turn Reply).Leads ctx T (fun _ _ => True) fun _ => False :=
    leads_update.bind fun _ _ _ => leads_pure trivial
  obtain ⟨l, type, rfl⟩ | ⟨l, allocator, name?, rfl⟩ | ⟨ls, rfl⟩ | ⟨copy, rfl⟩ := hc.cases
  · exact ends_bind_find (fun _ => hself) fun v _ =>
      hon (VariadicList.leads_readAs l type) fun _ _ => hrest
  · refine ends_readSegment_read l name allocator name? (fun hn => ?_) (fun _ _ => hself)
      (fun v' w e τ hv' hk hr _ => ⟨rfl, ?_⟩) fun _ hlong => absurd rfl hlong
    · cases hn.symm.trans hv
    obtain rfl := Option.some.inj (hv.symm.trans hv')
    cases hc : v.cursor with
    | none =>
      unfold VariadicList.readSegment VariadicList.readSlot VariadicList.requireCursor at hr
      rw [hc] at hr
      cases hr
      exact hself.bytes
    | some c =>
      exact ((hsits c hc).fails_readSegment hlaw h.store h.ledger hw (h.of_allocator? hk).1 l).error
        hr
  · exact ends_bind_find (fun _ => hself) fun v _ =>
      hon (VariadicList.leads_skip ls) fun _ _ => hrest
  · exact ends_bind_find (fun _ => hself) fun v _ =>
      hon VariadicList.leads_copy fun _ _ => leads_keepList.imp (fun _ _ _ => trivial) fun _ hf => hf

end VariadicCall

/-! ### Runs -/

/-- The list is where the answers of the run say. What a reading shows is decided by the bytes that
it looks at, and it moves over its own slots. A call that is refused moves nothing and changes
nothing that was there, so that what could be read before it can be read after it. -/
structure VariadicList.Steady (system : SystemAllocator) (past : List Move) (name : Name)
    (v : VariadicList) : Prop where
  stands : v.StandsAt (progress past name)
  reads {q : Reading} {t : Moment} (ht : t.Within system past) {x : Reading.Shown}
    {v' : VariadicList} {ρ : Store}
    (hr : (q.perform v t.allocator).run t.context (t.store past) = .ok (x, v') ρ) :
    v' = v.after q.slots ∧
      v'.StandsAt ((progress past name).read (UInt64.ofNat q.slots).toNat) ∧
      ∀ m : Memory, (∀ c x, v.cursor = some c → q.LooksAt v (t.store past).memory c x →
          m.byte x = (t.store past).memory.byte x) →
        ∃ ρ', (q.perform v t.allocator).run t.context ((t.store past).setMemory m) =
          .ok (x, v') ρ'
  refused {ctx : Context} {c : Call} {r : Refusal} (hctx : ctx.system.Within system)
    (hc : c.Consults name) (hr : ((play past).begin ctx c).1 = .error r) (hlong : r ≠ .tooLong) :
    (play past).Untouched (play (.call ctx c :: past)) ∧
      ∀ (q : Reading) (ctx₀ : Context) (w₀ : Allocator) x v' ρ, ctx₀.system.Within system →
        w₀.Known (play past).store → (q.perform v w₀).run ctx₀ (play past).store = .ok (x, v') ρ →
        ∀ t : Moment, t.Within system (.call ctx c :: past) →
          q.Undisturbed v (play past).store (play (.call ctx c :: past)).store
            (t.store (.call ctx c :: past)) t.context t.allocator →
          ∃ ρ', (q.perform v t.allocator).run t.context (t.store (.call ctx c :: past)) =
            .ok (x, v') ρ'

theorem play_steady (hlaw : system.Lawful) {past : List Move} (hw : ∀ m ∈ past, m.Within system)
    {name : Name} {v : VariadicList} (hv : (play past).list? name = some v) :
    v.Steady system past name := by
  have hS : (play past).Sound system False ((handedOut past).map (·.region)) :=
    play_sound hlaw.separate hw False.elim
  have htracks := play_tracks hlaw hw
  have hstands := htracks name v hv
  have hsits : ∀ c, v.cursor = some c → v.Sits c (play past).store := fun c hc =>
    hS.sits htracks (play_housed hlaw.separate hw) hv hc
  refine ⟨hstands, fun {q t} ht x v' ρ hr => ?_, fun {ctx c r} hctx hc hr hlong => ?_⟩
  · obtain ⟨G, hT, hlater⟩ := play_follows hlaw.separate hS t.moves ht.moves False.elim
    obtain ⟨c, hc⟩ := Reading.cursor_of_run hr
    obtain ⟨n, hn, _, _, hmoved⟩ := Reading.of_run hc hr
    have hafter : v' = v.after q.slots := hmoved.trans (VariadicList.after_of_mul hc hn).symm
    refine ⟨hafter, hstands.reading hr, fun m hm => ?_⟩
    exact Reading.run_setMemory ((hsits c hc).later hlater) hlaw hT.store hT.ledger ht.context
      ht.allocator hr fun x => hm c x hc
  · have hmove : (Move.call ctx c).Within system := hctx
    have huntouched : (play past).Untouched (play (.call ctx c :: past)) := by
      obtain ⟨T, hrun, hT⟩ := Session.run_of_begin_error hr
      have hend : c.perform.Ends ctx (play past) (fun _ _ => True)
          fun r T => r ≠ .tooLong → (play past).Untouched T := by
        cases c with
        | variadic c => exact c.refused hlaw hS hctx hv hsits hc
        | _ => exact hc.elim
      have hu := hend.error hrun hlong
      change (play past).Untouched ((play past).begin ctx c).2
      rw [hT]
      exact ⟨hu.handles, hu.bytes⟩
    refine ⟨huntouched, fun q ctx₀ w₀ x v' ρ hctx₀ hk hread t ht hq => ?_⟩
    obtain ⟨G, hT, hlater⟩ := play_follows hlaw.separate hS (t.moves ++ [.call ctx c])
      (fun m hm => (List.mem_append.mp hm).elim (ht.moves m)
        fun hm => List.mem_singleton.mp hm ▸ hmove) False.elim
    rw [List.append_assoc] at hT hlater
    obtain ⟨d, hd⟩ := Reading.cursor_of_run hread
    have hsit := hsits d hd
    have hagain := hq.again hsit (hsit.later hlater) hlaw hS.store hctx₀ hk hT.store ht.context
      ht.allocator hread (fun y hy => ?_) fun hf l src hl hsrc => ?_
    · exact Reading.run_again hsit hlaw hS.store hctx₀ hk hT.store hT.ledger ht.context
        ht.allocator hread hagain
    · by_contra hne
      exact (huntouched.bytes y hne).1 hy
    · subst hl
      exact (Reading.inside_of_run hsit hf hread hsrc).later hlater

/-- The allocator has room for less than the struct that the list stands before. -/
def crampedMoves : List Move :=
  movesOf TwinHeaps.system (skippingCalls ++ [(1, .allocation (.recycling "small" "w"))])

def crampedCall : Call := .variadic (.readSegment largeStruct "v" "w" none)

def crampedStore : Store := (play (.call ⟨1, TwinHeaps.system⟩ crampedCall :: crampedMoves)).store

/-- Two of three slots have been moved over. The third is read though there was no room at first. -/
theorem cramped_steady :
    (∀ m ∈ crampedMoves, m.Within TwinHeaps.system) ∧
    (play crampedMoves).list? "v" = some skippedList ∧
    skippedList.StandsAt ⟨0x20000030, 24, 2⟩ ∧
    (play (.call ⟨1, TwinHeaps.system⟩ crampedCall :: crampedMoves)).list? "v" =
      some skippedList ∧
    ∃ shown rest τ, ((Reading.segment largeStruct).perform skippedList (.direct 1)).run
        ⟨1, TwinHeaps.system⟩ crampedStore = .ok (shown, rest) τ ∧
      shown.bytes? = some [0, 0, 0, 1, 2, 3, 0, 0, 0, 0, 0, 0] ∧ rest.position.toNat = 24 := by
  have hw : ∀ m ∈ crampedMoves, m.Within TwinHeaps.system :=
    within_movesOf TwinHeaps.system _
  have hv : (play crampedMoves).list? "v" = some skippedList := rfl
  have hctx : Context.system ⟨1, TwinHeaps.system⟩ |>.Within TwinHeaps.system := .refl _
  have hknown : ∀ σ : Store, (Allocator.direct 1).Known σ := fun σ a ha => by cases ha
  have hsteady := play_steady TwinHeaps.lawful hw hv
  have hprogress : progress crampedMoves "v" = ⟨0x20000030, 24, 2⟩ := by
    decide +kernel
  have hconsults : crampedCall.Consults "v" := Or.inl ⟨_, rfl⟩
  have hrefused : ((play crampedMoves).begin ⟨1, TwinHeaps.system⟩
      crampedCall).1 = .error (.memory (.outOfMemory 12 4)) := rfl
  obtain ⟨huntouched, hnext⟩ := hsteady.refused hctx hconsults hrefused nofun
  have hread : (((Reading.segment largeStruct).perform skippedList (.direct 1)).value?
      ⟨1, TwinHeaps.system⟩ (play crampedMoves).store).map
        (fun p => (p.1.bytes?, p.2.position)) =
          some (some [0, 0, 0, 1, 2, 3, 0, 0, 0, 0, 0, 0], 24) := by
    decide +kernel
  obtain ⟨⟨shown, rest⟩, hvalue, hshown⟩ := Option.map_eq_some_iff.mp hread
  obtain ⟨hbytes, hposition⟩ : shown.bytes? = some _ ∧ rest.position = _ := by
    simpa only [Prod.mk.injEq] using hshown
  obtain ⟨ρ, hrun⟩ := Operation.run_of_value? hvalue
  obtain ⟨τ, hagain⟩ := hnext _ _ _ shown rest ρ hctx (hknown _) hrun
    ⟨[], ⟨1, TwinHeaps.system⟩, .direct 1⟩
    ⟨fun m hm => (List.not_mem_nil hm).elim, hctx, hknown _⟩
    { usable := rfl
      same := fun _ _ _ _ => rfl
      held := fun c _ hc hf _ => by
        cases hc
        cases hf
      room := fun l hl => by
        cases hl
        decide +kernel }
  refine ⟨hw, hv, hprogress ▸ hsteady.stands, ?_, shown, rest, τ, hagain, hbytes, ?_⟩
  · unfold Session.list?
    rw [huntouched.handles]
    rfl
  · rw [hposition]
    rfl

end ScopedMemory
