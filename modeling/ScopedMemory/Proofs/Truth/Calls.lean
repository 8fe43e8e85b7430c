import ScopedMemory.Proofs.Lifetime.Guards
import ScopedMemory.Proofs.Refusal.Outcome
import ScopedMemory.Proofs.Session.ReadBack
import ScopedMemory.Proofs.Truth.Variadics

namespace ScopedMemory

open Turn

/-! ### What calls work on -/

def RegionCall.operands : RegionCall → List Name
  | adopt .. => []
  | slice region .. | sliceFrom region .. | belongs region _ | read _ region _ | write region ..
  | get _ _ _ region | set _ _ region _ | getAddress region .. | setAddress _ region ..
  | fill region _ | contents region => [region]
  | copyFrom region source => [region, source]

def ArgumentSource.region? : ArgumentSource → Option Name
  | segment region => some region
  | _ => none

def VariadicCall.operands : VariadicCall → List Name
  | builder .. | empty .. | adopt .. => []
  | push _ value _ => value.region?.toList
  | build source _ => [source]
  | make arguments .. => arguments.filterMap (·.2.region?)
  | read _ _ list | skip _ list | copy list _ => [list]
  | readSegment _ list allocator _ => [list, allocator]

/-- The names of the regions, allocators, builders and lists whose memory the call works on. -/
def Call.operands : Call → List Name
  | handle _ | scope _ => []
  | region c => c.operands
  | allocation (.allocate _ allocator _) => [allocator]
  | allocation _ => []
  | variadic c => c.operands

/-- Where the slot that a list is before says that a struct is. -/
def Call.pointed? (ctx : Context) (S : Session) : Call → Option Region
  | variadic (.readSegment l list _ _) => do
    let v ← S.list? list
    let c ← v.cursor
    (v.source l c).value? ctx S.store
  | _ => none

/-- The regions that the call works on. -/
def Call.regions (ctx : Context) (S : Session) (c : Call) : List Region :=
  c.operands.flatMap (fun name => ((S.handles.find? name).map Handle.regions).getD []) ++
    (c.pointed? ctx S).toList

/-- What the error says is so in the session, for a thread that works on the regions. -/
def MemoryError.IsTrue (S : Session) (t : Thread) (rs : List Region) : MemoryError → Prop
  | alreadyClosed s => s < S.store.scopes.length ∧ (S.store.scope s).lifetime = .closed
  | wrongThread s => (S.store.scope s).kind = .confined ∧ (S.store.scope s).creator ≠ t
  | scopeNotClosable s => (S.store.scope s).kind = .implicit ∨ (S.store.scope s).kind = .global
  | scopeAcquired s count => S.store.IsAlive s ∧ 1 ≤ count ∧ S.guardsOn s = count
  | outOfBounds offset length size => size.toNat < offset.toNat + length.toNat ∨
      ∃ r ∈ rs, r.size = size ∧ 0x10000000000000000 ≤ r.start.toNat + offset.toNat + length.toNat
  | layoutMismatch expected actual => expected ≠ actual
  | invalidArgument _ | outOfMemory .. | unsupported _ => True

/-- What can truthfully be said of the call. -/
abbrev Call.CanSay (ctx : Context) (S : Session) (c : Call) : MemoryError → Prop :=
  MemoryError.IsTrue S ctx.caller (c.regions ctx S)

variable {system : SystemAllocator} {G : List Region} {ctx : Context} {S T : Session} {t : Thread}
  {rs : List Region} {r : Region} {s : ScopeId} {e : MemoryError} {E : MemoryError → Prop}

theorem MemoryError.plain_isTrue : MemoryError.Plain (MemoryError.IsTrue S t rs) where
  mismatch h := h
  bounds h := Or.inl h
  argument _ := trivial
  memory _ _ := trivial
  unsupported _ := trivial

theorem Region.tells_isTrue (hr : r ∈ rs) : r.Tells (MemoryError.IsTrue S t rs) :=
  fun _ _ h => Or.inr ⟨r, hr, rfl, h⟩

theorem Store.foreign_of_checkOwner {σ : Store} (h : σ.checkOwner t s = .error e) :
    (σ.scope s).kind = .confined ∧ (σ.scope s).creator ≠ t := by
  unfold checkOwner Scope.owner? at h
  by_cases hk : (σ.scope s).kind = .confined
  · refine ⟨hk, fun hc => ?_⟩
    rw [if_pos hk, hc] at h
    simp at h
  · rw [if_neg hk] at h
    cases h

theorem Store.Holds.closed {σ : Store} (h : σ.Holds s) (hd : ¬ σ.IsAlive s) :
    (σ.scope s).lifetime = .closed := by
  unfold IsAlive Scope.isAlive at hd
  cases hl : (σ.scope s).lifetime with
  | live n => simp [hl] at hd
  | closed => rfl
  | reclaimed => exact absurd hl h.2

/-- A scope that a thread cannot use, though it is held, is another thread's or closed. -/
theorem Store.Holds.tells (h : S.store.Holds s) :
    S.store.Tells t (MemoryError.IsTrue S t rs) s := by
  intro e he
  rcases S.store.checkUsable_cases t s with ⟨ho, hu⟩ | ⟨_, hd, hu⟩ | ⟨_, _, hu⟩
  · cases he.symm.trans hu
    exact Store.foreign_of_checkOwner ho
  · cases he.symm.trans hu
    exact ⟨h.1, h.closed hd⟩
  · cases he.symm.trans hu

theorem Store.Holds.tells_of_scopes (h : S.store.Holds s) {σ : Store}
    (hσ : σ.scopes = S.store.scopes) : σ.Tells t (MemoryError.IsTrue S t rs) s := by
  have hu : σ.checkUsable t s = S.store.checkUsable t s := by
    unfold Store.checkUsable Store.checkOwner Store.scope
    rw [hσ]
  exact fun e he => h.tells e (hu.symm.trans he)

namespace Session

variable (hS : S.Sound system False G)
include hS

theorem Sound.told {h : Handle} {name : Name} (hf : S.handles.find? name = some h)
    (hr : r ∈ h.regions) (hin : r ∈ rs) :
    r.Told S.store t (MemoryError.IsTrue S t rs) :=
  have hh := (hS.find hf).scopes _ ((hS.find hf).scope_mem hr)
  ⟨hh.1, hh.tells, Region.tells_isTrue hin⟩

omit hS in
theorem mem_regions {c : Call} {name : Name} {h : Handle} (hn : name ∈ c.operands)
    (hf : S.handles.find? name = some h) (hr : r ∈ h.regions) : r ∈ c.regions ctx S := by
  refine List.mem_append_left _ (List.mem_flatMap.mpr ⟨name, hn, ?_⟩)
  rw [hf]
  exact hr

/-- The regions of a handle that a call works on. -/
theorem Sound.told_operand {c : Call} {name : Name} {h : Handle} (hn : name ∈ c.operands)
    (hf : S.handles.find? name = some h) (hr : r ∈ h.regions) :
    r.Told S.store ctx.caller (c.CanSay ctx S) :=
  hS.told hf hr (mem_regions hn hf hr)

theorem Sound.told_region {c : Call} {name : Name} {p : Region × Bool} (hn : name ∈ c.operands)
    (hp : S.region? name = some p) :
    p.1.Told S.store ctx.caller (c.CanSay ctx S) := by
  have hf : S.handles.find? name = some (.region p.1 p.2) := by
    unfold region? at hp
    split at hp
    next h =>
      cases hp
      exact h
    next => cases hp
  exact hS.told_operand hn hf (List.mem_singleton.mpr rfl)

omit hS in
/-- A struct that an argument is. -/
theorem region?_of_value? {source : ArgumentSource} (hv : source.value? S = some (.segment r)) :
    ∃ region adopted, source.region? = some region ∧ S.region? region = some (r, adopted) := by
  cases source with
  | segment region =>
    obtain ⟨p, hp, he⟩ := Option.map_eq_some_iff.mp hv
    cases he
    exact ⟨region, p.2, rfl, hp⟩
  | _ => cases hv

/-- The scopes of an allocator, and the region that it may hand out again and again. -/
theorem Sound.told_allocator {c : Call} {name : Name} {w : Allocator} (hn : name ∈ c.operands)
    (hw : S.allocator? name = some w) :
    (∀ s ∈ Handle.allocatorScopes S.store w,
      S.store.Tells ctx.caller (c.CanSay ctx S) s) ∧
    ∀ r, w = .recycling r → r.Told S.store ctx.caller (c.CanSay ctx S) := by
  obtain ⟨h, hf, hh⟩ := Option.bind_eq_some_iff.mp hw
  have hscopes : Handle.allocatorScopes S.store w = h.scopes S.store := by
    cases h <;> cases hh <;> rfl
  refine ⟨fun s hs => ((hS.find hf).scopes s (hscopes ▸ hs)).tells, fun r hr => ?_⟩
  subst hr
  cases h with
  | allocator w =>
    cases hh
    exact hS.told_operand hn hf (List.mem_singleton.mpr rfl)
  | _ => cases hh

theorem Sound.holds_sharedArena {name : Name} {a : ArenaId} (ha : S.sharedArena? name = some a) :
    S.store.Holds (S.store.arena a).scope := by
  unfold sharedArena? at ha
  split at ha
  next hf =>
    cases ha
    exact (hS.find hf).scopes _ (List.mem_singleton.mpr rfl)
  next => cases ha

theorem Sound.told_list {c : Call} {name : Name} {v : VariadicList} (hn : name ∈ c.operands)
    (hv : S.list? name = some v) : v.Tells S.store ctx.caller (c.CanSay ctx S) :=
  fun cursor hc => hS.told_operand hn (find?_of_list? hv)
    (List.mem_map.mpr ⟨cursor, Option.mem_toList.mpr hc, rfl⟩)

end Session

/-! ### What calls answer -/

/-- The errors that a reply shows. -/
def Reply.errors : Reply → List MemoryError
  | scope view => view.fault?.toList
  | handle (.scope view) => view.fault?.toList
  | handle (.region _ fault?) => fault?.toList
  | copied _ (.error e) => [e]
  | _ => []

namespace Turn

/-- Every error that the turn answers with or is refused for is in `E`. -/
def Tells (x : Turn Reply) (ctx : Context) (S : Session) (E : MemoryError → Prop) : Prop :=
  x.Ends ctx S (fun reply _ => ∀ e ∈ reply.errors, E e) fun r _ => ∀ e, r = .memory e → E e

variable {α : Type} {f : α → Turn Reply}

theorem tells_pure {reply : Reply} (h : ∀ e ∈ reply.errors, E e) :
    (pure reply : Turn Reply).Tells ctx S E := ends_pure h

theorem tells_bind_find {lookup : Session → Name → Option α} {name : Name}
    (hf : ∀ a, lookup S name = some a → (f a).Tells ctx S E) :
    (find lookup name >>= f).Tells ctx S E := ends_bind_find nofun hf

theorem tells_bind_claim {lookup : Session → Name → Option α} {name : Name}
    (hf : ∀ a, lookup S name = some a → (f a).Tells ctx S E) :
    (claim lookup name >>= f).Tells ctx S E := ends_bind_claim nofun hf

theorem tells_bind_lift {x : Operation α} (hx : x.Tells ctx S.store E)
    (hf : ∀ a τ, x.run ctx S.store = .ok a τ → (f a).Tells ctx { S with store := τ } E) :
    (lift x >>= f).Tells ctx S E := by
  refine Ends.bind (P := fun a T => ∃ τ, x.run ctx S.store = .ok a τ ∧ T = { S with store := τ })
    (ends_lift (fun a τ hr => ⟨τ, hr, rfl⟩) fun e τ hr _ he => ?_) fun a T h => ?_
  · cases he
    exact hx e τ hr
  · obtain ⟨τ, hr, rfl⟩ := h
    exact hf a τ hr

/-- A part of a turn that is never refused. -/
theorem Leads.bind_tells {x : Turn α} {P : α → Session → Prop}
    (hx : x.Leads ctx S P fun _ => False) (hf : ∀ a T, P a T → (f a).Tells ctx T E) :
    (x >>= f).Tells ctx S E := hx.ends.bind hf

theorem Leads.tells {x : Turn Reply} {P : Reply → Session → Prop}
    (hx : x.Leads ctx S P fun _ => False) (hP : ∀ reply T, P reply T → ∀ e ∈ reply.errors, E e) :
    x.Tells ctx S E := (hx.imp hP fun _ h => h).ends

theorem tells_keepRegion {name? : Option Name} {adopted : Bool} :
    (keepRegion name? adopted r).Tells ctx S E :=
  leads_keepRegion.tells fun _ _ h => by
    rw [h.1]
    exact nofun

theorem tells_keepHandle {name : Name} {h : Handle}
    (hh : ∀ e ∈ (Reply.handle (h.view S.store ctx.caller)).errors, E e) :
    (keepHandle name h).Tells ctx S E :=
  leads_keepHandle.tells fun _ _ h => h.1 ▸ hh

theorem tells_keepList {name : Name} {v : VariadicList} : (keepList name v).Tells ctx S E :=
  leads_keepList.tells fun _ _ h => by
    rw [h.1]
    exact nofun

end Turn

theorem ActionPlan.tells_bind_resolve {plan : ActionPlan} {label : String}
    {f : CloseAction → Turn Reply} (hf : ∀ a, (f a).Tells ctx S E) :
    (plan.resolve label >>= f).Tells ctx S E := by
  refine Ends.bind (P := fun _ T => T = S) ?_ fun a T h => h ▸ hf a
  cases plan with
  | say => exact ends_pure rfl
  | _ => exact ends_bind_find nofun fun _ _ => ends_pure rfl

theorem ArgumentSource.ends_resolve {source : ArgumentSource} :
    source.resolve.Ends ctx S (fun v T => source.value? S = some v ∧ T = S)
      fun r _ => ∀ e, r = .memory e → E e := by
  cases source with
  | segment region =>
    refine ends_bind_find nofun fun p hp => ends_pure ⟨?_, rfl⟩
    simp only [value?, hp, Option.map_some]
  | _ => exact ends_pure ⟨rfl, rfl⟩

theorem ArgumentSource.ends_resolveAll (arguments : List (Layout × ArgumentSource)) :
    (arguments.mapM fun arg => return (arg.1, ← arg.2.resolve) :
      Turn (List (Layout × ArgumentValue))).Ends ctx S
        (fun args T => (∀ a ∈ args, ∃ arg ∈ arguments, arg.2.value? S = some a.2) ∧ T = S)
        fun r _ => ∀ e, r = .memory e → E e := by
  induction arguments with
  | nil => exact ends_pure ⟨nofun, rfl⟩
  | cons arg arguments ih =>
    rw [List.mapM_cons]
    refine Ends.bind (P := fun a T => arg.2.value? S = some a.2 ∧ T = S)
      (ends_resolve.bind fun v T h => ends_pure h) fun a T h => ?_
    obtain ⟨ha, rfl⟩ := h
    refine ih.bind fun args U h => ?_
    obtain ⟨hargs, rfl⟩ := h
    refine ends_pure ⟨fun a' h => ?_, rfl⟩
    rcases List.mem_cons.mp h with rfl | h
    · exact ⟨arg, List.mem_cons_self .., ha⟩
    · obtain ⟨arg', hm, hv⟩ := hargs a' h
      exact ⟨arg', List.mem_cons_of_mem _ hm, hv⟩

/-! ### Every call -/

section

variable (hS : S.Sound system False G)
include hS

/-- The errors of a call are true of the session that it is made in. -/
def Call.Truthful (ctx : Context) (S : Session) (c : Call) : Prop :=
  c.perform.Tells ctx S (c.CanSay ctx S)

theorem HandleCall.truthful (c : HandleCall) : (Call.handle c).Truthful ctx S := by
  cases c with
  | info name =>
    refine tells_bind_find fun h hf => ?_
    suffices hview : ∀ e ∈ (Reply.handle (h.view S.store ctx.caller)).errors,
        (Call.handle (.info name)).CanSay ctx S e from
      hview
    have htold : ∀ s ∈ h.scopes S.store,
        ∀ e ∈ (MemoryError.of? (S.store.checkUsable ctx.caller s)).toList,
          (Call.handle (.info name)).CanSay ctx S e := by
      intro s hs e he
      have hu := Option.mem_toList.mp he
      unfold MemoryError.of? at hu
      split at hu
      next => cases hu
      next hu' =>
        cases hu
        exact ((hS.find hf).scopes s hs).tells _ hu'
    cases h with
    | scope s => exact htold s (List.mem_singleton.mpr rfl)
    | region r adopted => exact htold r.scope (List.mem_singleton.mpr rfl)
    | allocator w => cases w <;> exact nofun
    | arena a access => cases access <;> exact nofun
    | _ => exact nofun
  | drop name =>
    exact tells_bind_find fun h _ => leads_forget.bind_tells fun _ _ _ =>
      leads_discard.bind_tells fun _ _ _ => tells_pure nofun
  | clone name copy =>
    exact tells_bind_find fun h _ => leads_rename.bind_tells fun _ _ _ => tells_pure nofun
  | describe name => exact tells_bind_find fun text _ => tells_pure nofun
  | misuse name => exact leads_lose.bind_tells fun _ _ _ => ends_throw nofun

/-- A scope that a call has just made can be used, and the global scope never ends. -/
theorem ScopeCall.truthful_create (kind : ScopeKind) (name : Name) :
    (Call.scope (.create kind name)).Truthful ctx S := by
  have hcreate : (ScopeId.create kind).Leads ctx S.store
      (fun s τ => ∀ e ∈ (τ.viewScope ctx.caller s).fault?.toList,
        (Call.scope (.create kind name)).CanSay ctx S e)
      fun _ => False := by
    by_cases hk : kind = .global
    · refine (ScopeId.leads_create kind).imp (fun s τ h => ?_) fun _ h => h
      obtain ⟨_, rfl, rfl⟩ | ⟨hne, _⟩ := h
      · simp only [Store.viewScope, hS.store.checkUsable_global, MemoryError.of?]
        exact nofun
      · exact absurd hk hne
    · refine (ScopeId.leads_create_usable hk).imp (fun s τ hu => ?_) fun _ h => h
      simp only [Store.viewScope, hu, MemoryError.of?]
      exact nofun
  refine tells_bind_lift hcreate.tells fun s τ hr => ?_
  exact leads_rename.bind_tells fun _ _ _ => tells_pure (hcreate.ok hr)

omit hS in
/-- Closing is refused because of the kind of the scope or of the guards on it. -/
theorem ScopeId.tells_close_isTrue (hg : S.Counted) {σ : Store} (hσ : σ.scopes = S.store.scopes)
    (hs : S.store.Holds s) :
    (ScopeId.close s).Tells ctx σ (MemoryError.IsTrue S ctx.caller rs) := by
  have hscope : σ.scope s = S.store.scope s := by
    unfold Store.scope
    rw [hσ]
  refine ScopeId.tells_close (hs.tells_of_scopes hσ) ?_ fun n hn hl => ?_
  · rw [hscope]
    exact id
  rw [hscope] at hl
  refine ⟨?_, Nat.pos_of_ne_zero hn, ?_⟩
  · rw [Store.IsAlive, Scope.isAlive, hl]
  · rw [← hg.guards s, Store.guards, hl]

theorem ScopeCall.truthful (hg : S.Counted) (c : ScopeCall) : (Call.scope c).Truthful ctx S := by
  have hE : ∀ {rs}, MemoryError.Plain (MemoryError.IsTrue S ctx.caller rs) :=
    MemoryError.plain_isTrue
  cases c with
  | create kind name => exact truthful_create hS kind name
  | close scope =>
    refine tells_bind_find fun s hs => tells_bind_lift ?_ fun held τ _ =>
      leads_leave.bind_tells fun _ _ _ => tells_pure nofun
    exact ScopeId.tells_close_isTrue hg rfl (hS.of_scope? hs)
  | addAction scope label plan =>
    refine tells_bind_find fun s hs => plan.tells_bind_resolve fun a => ?_
    exact tells_bind_lift (ScopeId.tells_addAction (hS.of_scope? hs).tells a) fun _ _ _ =>
      tells_pure nofun
  | acquire scope name =>
    refine tells_bind_find fun s hs => ?_
    exact tells_bind_lift (ScopeId.tells_acquire (hS.of_scope? hs).tells) fun _ _ _ =>
      leads_rename.bind_tells fun _ _ _ => tells_pure nofun
  | same first second =>
    exact tells_bind_find fun _ _ => tells_bind_find fun _ _ => tells_pure nofun
  | allocateNative size align scope name? =>
    refine tells_bind_find fun s hs => ?_
    exact tells_bind_lift (ScopeId.tells_allocateNative hE (hS.of_scope? hs).tells size align)
      fun _ _ _ => tells_keepRegion
  | resolve start length scope name? =>
    refine tells_bind_find fun s hs => ?_
    refine tells_bind_lift (ScopeId.tells_resolve (hS.of_scope? hs).tells start length)
      fun r? _ _ => ?_
    cases r? with
    | none => exact tells_pure nofun
    | some r => exact tells_keepRegion

/-- Buffers have no more bytes than a word can tell. -/
def Call.Countable : Call → Prop
  | region (.write _ _ bytes) => bytes.length < 0x10000000000000000
  | allocation (.allocate q _ _) => q.Countable
  | _ => True

/-- An access to the region that a name stands for. -/
theorem RegionCall.tells_access {c : RegionCall} {α : Type} (name : Name)
    (x : Region → Operation α) (reply : α → Reply) (hn : name ∈ c.operands)
    (hreply : ∀ a, (reply a).errors = [])
    (hx : ∀ r, r.Told S.store ctx.caller ((Call.region c).CanSay ctx S) →
      (x r).Tells ctx S.store ((Call.region c).CanSay ctx S)) :
    (do
      let p ← find Session.region? name
      return reply (← lift (x p.1)) : Turn Reply).Tells ctx S
        ((Call.region c).CanSay ctx S) := by
  refine tells_bind_find fun p hp => ?_
  have htold : p.1.Told S.store ctx.caller ((Call.region c).CanSay ctx S) :=
    hS.told_region (c := .region c) hn hp
  refine tells_bind_lift (hx p.1 htold) fun a _ _ => tells_pure ?_
  rw [hreply a]
  exact nofun

theorem RegionCall.truthful (c : RegionCall) (hc : (Call.region c).Countable) :
    (Call.region c).Truthful ctx S := by
  have hE : MemoryError.Plain ((Call.region c).CanSay ctx S) :=
    MemoryError.plain_isTrue
  have htold : ∀ {name p}, name ∈ c.operands → S.region? name = some p →
      p.1.Told S.store ctx.caller
        ((Call.region c).CanSay ctx S) :=
    fun hn hp => hS.told_region (c := .region c) hn hp
  cases c with
  | adopt start length scope name? =>
    refine tells_bind_find fun s hs => ?_
    exact tells_bind_lift (Region.tells_ofAddress (hS.of_scope? hs).tells) fun _ _ _ =>
      tells_keepRegion
  | slice region offset length name? =>
    refine tells_bind_find fun p hp => ?_
    exact tells_bind_lift (Region.tells_slice hE (htold (List.mem_singleton.mpr rfl) hp))
      fun _ _ _ => tells_keepRegion
  | sliceFrom region offset name? =>
    refine tells_bind_find fun p hp => ?_
    exact tells_bind_lift (Region.tells_sliceFrom hE (htold (List.mem_singleton.mpr rfl) hp))
      fun _ _ _ => tells_keepRegion
  | belongs region scope =>
    exact tells_bind_find fun _ _ => tells_bind_find fun _ _ => tells_pure nofun
  | read length region offset =>
    exact tells_access hS region (·.read offset length) .bytes (List.mem_singleton.mpr rfl) (fun _ => rfl)
      fun r hr => Region.tells_read hE hr
  | write region offset bytes =>
    exact tells_access hS region (·.write offset bytes) (fun _ => .done) (List.mem_singleton.mpr rfl)
      (fun _ => rfl) fun r hr => Region.tells_write hE hr hc
  | get layout offset type region =>
    exact tells_access hS region (·.get type layout offset) .scalar (List.mem_singleton.mpr rfl)
      (fun _ => rfl) fun r hr => Region.tells_get hE hr
  | set layout offset region value =>
    exact tells_access hS region (·.set layout offset value) (fun _ => .done) (List.mem_singleton.mpr rfl)
      (fun _ => rfl) fun r hr => Region.tells_set hE hr
  | getAddress region layout offset =>
    exact tells_access hS region (·.getAddress layout offset) .address (List.mem_singleton.mpr rfl)
      (fun _ => rfl) fun r hr => Region.tells_getAddress hE hr
  | setAddress value region layout offset =>
    exact tells_access hS region (·.setAddress layout offset value) (fun _ => .done)
      (List.mem_singleton.mpr rfl) (fun _ => rfl) fun r hr => Region.tells_setAddress hE hr
  | copyFrom region source =>
    refine tells_bind_find fun p hp => tells_bind_find fun q hq => ?_
    exact tells_bind_lift (Region.tells_copyFrom hE (htold (List.mem_cons_self ..) hp)
      (htold (List.mem_cons_of_mem _ (List.mem_singleton.mpr rfl)) hq))
        fun _ _ _ => tells_pure nofun
  | fill region value =>
    exact tells_access hS region (·.fill value) (fun _ => .done) (List.mem_singleton.mpr rfl)
      (fun _ => rfl) fun r hr => Region.tells_fill hE hr value
  | contents region =>
    refine tells_bind_find fun p hp => ?_
    refine tells_bind_lift (Region.tells_contents hE (htold (List.mem_singleton.mpr rfl) hp))
      fun bytes? _ _ => ?_
    cases bytes? with
    | none => exact ends_throw nofun
    | some bytes => exact tells_pure nofun

variable (hlaw : system.Lawful) (hw : ctx.system.Within system)
include hlaw hw

/-- Each of the requests at the same time is told what is true for the thread that it comes from. -/
theorem AllocationCall.leads_requests (rs : List Region) {target : Name} {a : ArenaId}
    (ha : S.sharedArena? target = some a) (size align : Word) (threads : List Thread) :
    ((Allocator.arena a).allocateEach size align threads).Leads ctx S.store
      (fun outcomes _ => ∀ t e, (t, .error e) ∈ threads.zip outcomes → MemoryError.IsTrue S t rs e)
      fun _ => False :=
  Allocator.tells_allocateEach hlaw hS.store (fun _ => MemoryError.plain_isTrue) hw
    (hS.of_sharedArena? ha) (fun _ => (hS.holds_sharedArena ha).tells) size align threads

theorem AllocationCall.truthful (c : AllocationCall) (hc : (Call.allocation c).Countable) :
    (Call.allocation c).Truthful ctx S := by
  have hE : MemoryError.Plain
      ((Call.allocation c).CanSay ctx S) :=
    MemoryError.plain_isTrue
  cases c with
  | arena scope capacity config access name =>
    refine tells_bind_find fun s hs => ?_
    refine tells_bind_lift (ArenaId.tells_create hE (hS.of_scope? hs).tells capacity config)
      fun a _ _ => tells_keepHandle ?_
    cases access <;> exact nofun
  | direct scope name =>
    exact tells_bind_find fun s _ => leads_rename.bind_tells fun _ _ _ => tells_pure nofun
  | perRequest kind name => exact leads_rename.bind_tells fun _ _ _ => tells_pure nofun
  | recycling region name =>
    exact tells_bind_find fun p _ => leads_rename.bind_tells fun _ _ _ => tells_pure nofun
  | allocate q allocator name? =>
    refine tells_bind_find fun w hn => ?_
    obtain ⟨hscopes, hrec⟩ := hS.told_allocator (c := .allocation (.allocate q allocator name?))
      (List.mem_singleton.mpr rfl) hn
    exact tells_bind_lift (Allocator.tells_serve hE hlaw hS.store hw (hS.of_allocator? hn).1
      hscopes hrec hS.ledger hc) fun _ _ _ => tells_keepRegion
  | allocateParallel target size align threads count =>
    refine tells_bind_find fun a hn => ?_
    exact tells_bind_lift (leads_requests hS hlaw hw [] hn size align
      (callers threads count)).tells fun _ _ _ => tells_pure nofun

theorem VariadicCall.truthful_readSegment (l : Layout) (list allocator : Name)
    (name? : Option Name) :
    (Call.variadic (.readSegment l list allocator name?)).Truthful ctx S := by
  have hE : MemoryError.Plain
      ((Call.variadic (.readSegment l list allocator name?)).CanSay ctx S) :=
    MemoryError.plain_isTrue
  refine tells_bind_claim fun v hv => tells_bind_find fun w hn => ?_
  obtain ⟨hscopes, hrec⟩ := hS.told_allocator
    (c := .variadic (.readSegment l list allocator name?))
    (List.mem_cons_of_mem _ (List.mem_singleton.mpr rfl)) hn
  have hlist : v.Tells S.store ctx.caller
      ((Call.variadic (.readSegment l list allocator name?)).CanSay ctx S) :=
    hS.told_list (List.mem_cons_self ..) hv
  have hread := VariadicList.leads_readSegment (v := v) hS.store hw (hS.of_allocator? hn).1 l
  refine tells_bind_lift (VariadicList.tells_readSegment hE hlist
    ((hS.find (Session.find?_of_list? hv)).scopes _ (List.mem_singleton.mpr rfl)).tells
    (fun c src hc hsrc => Region.tells_isTrue (List.mem_append_right _ ?_)) hlaw hS.store
    hS.ledger hw (hS.of_allocator? hn).1 hscopes hrec) fun p τ hr => ?_
  · refine Option.mem_toList.mpr ?_
    simp only [Call.pointed?, hv, hc, Option.bind_eq_bind, Option.bind_some]
    exact hsrc
  obtain ⟨⟨ρ, m, hg, rfl⟩, _⟩ := hread.ok hr
  have hcopy : p.1.AtHand (ρ.setMemory m) ctx.caller :=
    (hg.atHand hlaw hS.store hS.ledger).later (Store.extends_setMemory ρ m)
  refine leads_update.bind_tells fun _ T hT => ?_
  subst hT
  -- The contents of the copy can always be read.
  have hcontents := (Region.tells_contents hE (hcopy.told hE)).attempt
    (Region.leads_contents.imp (fun _ _ h => h.2) fun _ h => h)
  refine tells_bind_lift hcontents.tells fun contents τ hr => ?_
  obtain ⟨htrue, _⟩ := hcontents.ok hr
  refine leads_keep.bind_tells fun _ _ _ => ?_
  match contents, htrue with
  | .ok (some bytes), _ => exact tells_pure nofun
  | .ok none, _ => exact ends_throw nofun
  | .error fault, htrue =>
    refine tells_pure fun e he => ?_
    obtain rfl := List.mem_singleton.mp he
    exact htrue _ rfl

omit hS hlaw hw in
/-- What has been read shows no error. -/
theorem VariadicList.leads_readAs_errors {v : VariadicList} {σ : Store} (l : Layout)
    (type : ArgumentType) :
    (v.readAs l type).Leads ctx σ (fun p _ => p.1.errors = []) fun _ => True := by
  cases type with
  | address =>
    exact (VariadicList.leads_readAddress l).chain (fun _ _ => trivial) fun _ _ _ =>
      Operation.leads_pure rfl
  | _ =>
    exact (VariadicList.leads_readScalar _ l).chain (fun _ _ => trivial) fun _ _ _ =>
      Operation.leads_pure rfl

theorem VariadicCall.truthful (c : VariadicCall) : (Call.variadic c).Truthful ctx S := by
  have hE : ∀ {rs}, MemoryError.Plain (MemoryError.IsTrue S ctx.caller rs) :=
    MemoryError.plain_isTrue
  cases c with
  | builder scope convention name =>
    refine tells_bind_find fun s hs => ?_
    exact tells_bind_lift (VariadicBuilder.tells_create (hS.of_scope? hs).tells) fun _ _ _ =>
      tells_keepHandle nofun
  | push layout value target =>
    refine ArgumentSource.ends_resolve.bind fun v T h => ?_
    obtain ⟨hv, rfl⟩ := h
    refine tells_bind_find fun b _ => tells_bind_lift (VariadicBuilder.tells_push hE fun r hr => ?_)
      fun _ _ _ => leads_update.bind_tells fun _ _ _ => tells_pure nofun
    obtain ⟨region, adopted, _, hn⟩ := Session.region?_of_value? (hr ▸ hv)
    exact (hS.of_region? hn).1.tells
  | build source name =>
    refine tells_bind_find fun b hb => ?_
    refine leads_forget.bind_tells fun _ T hT => leads_discard.bind_tells fun _ U hU => ?_
    subst hT hU
    have hf := Session.find?_of_builder? hb
    refine tells_bind_lift (VariadicBuilder.tells_build hE hlaw hw hS.store hS.ledger
      ((hS.find hf).scopes _ (List.mem_cons_self ..)).tells fun arg ha r hr => ?_)
      fun _ _ _ => tells_keepList
    refine hS.told_operand (c := .variadic (.build source name)) (List.mem_singleton.mpr rfl) hf ?_
    exact List.mem_filterMap.mpr ⟨arg, ha, by rw [Argument.region?, hr]⟩
  | make arguments scope convention name =>
    refine (ArgumentSource.ends_resolveAll arguments).bind fun args T h => ?_
    obtain ⟨hargs, rfl⟩ := h
    refine tells_bind_find fun s hs => ?_
    refine tells_bind_lift (VariadicList.tells_make hE hlaw hw hS.store hS.ledger
      (hS.of_scope? hs).tells (fun a ha r hr => ?_) convention) fun _ _ _ => tells_keepList
    obtain ⟨arg, hm, hv⟩ := hargs a ha
    obtain ⟨region, adopted, hn, hp⟩ := Session.region?_of_value? (hv.trans (congrArg some hr))
    exact hS.told_region (c := .variadic (.make arguments scope convention name))
      (List.mem_filterMap.mpr ⟨arg, hm, hn⟩) hp
  | empty convention name => exact tells_keepList
  | adopt start scope convention name =>
    refine tells_bind_find fun s hs => ?_
    exact tells_bind_lift (VariadicList.tells_ofAddress hE (hS.of_scope? hs).tells convention start)
      fun _ _ _ => tells_keepList
  | read layout type list =>
    refine tells_bind_find fun v hv => ?_
    have hlist : v.Tells S.store ctx.caller
        ((Call.variadic (.read layout type list)).CanSay ctx S) :=
      hS.told_list (List.mem_singleton.mpr rfl) hv
    refine tells_bind_lift (VariadicList.tells_readAs hE hlist type) fun p τ hr => ?_
    refine leads_update.bind_tells fun _ _ _ => tells_pure ?_
    rw [(VariadicList.leads_readAs_errors layout type).ok hr]
    exact nofun
  | readSegment layout list allocator name? =>
    exact truthful_readSegment hS hlaw hw layout list allocator name?
  | skip layouts list =>
    refine tells_bind_find fun v hv => ?_
    have hlist : v.Tells S.store ctx.caller ((Call.variadic (.skip layouts list)).CanSay ctx S) :=
      hS.told_list (List.mem_singleton.mpr rfl) hv
    exact tells_bind_lift (VariadicList.tells_skip hE hlist layouts) fun _ _ _ =>
      leads_update.bind_tells fun _ _ _ => tells_pure nofun
  | copy list name =>
    refine tells_bind_find fun v hv => ?_
    have hlist : v.Tells S.store ctx.caller ((Call.variadic (.copy list name)).CanSay ctx S) :=
      hS.told_list (List.mem_singleton.mpr rfl) hv
    exact tells_bind_lift (VariadicList.tells_copy hlist) fun _ _ _ => tells_keepList

theorem Call.truthful (hg : S.Counted) (c : Call) (hc : c.Countable) : c.Truthful ctx S := by
  cases c with
  | handle c => exact c.truthful hS
  | scope c => exact c.truthful hS hg
  | region c => exact c.truthful hS hc
  | allocation c => exact c.truthful hS hlaw hw hc
  | variadic c => exact c.truthful hS hlaw hw

end
end ScopedMemory
