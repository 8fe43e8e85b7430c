import ScopedMemory.Proofs.Refusal.Operations
import ScopedMemory.Proofs.Lifetime.Edit
import ScopedMemory.Proofs.Session.ReadBack

namespace ScopedMemory

open Turn

/-- The action that is planned, if its target has a name. -/
def ActionPlan.action? (S : Session) (label : String) : ActionPlan → Option CloseAction
  | say => some (.say label)
  | probe target => (S.scope? target).map (.probe label)
  | close target => (S.scope? target).map (.close label)
  | extend target => (S.scope? target).map (.extend label)
  | fill target => (S.region? target).map fun p => .fill label p.1
  | hold target => (S.holdable? target).map (.hold label)

/-- A call on a scope or on something that belongs to one, and what it checks before it does
anything. What names stand for is known. -/
inductive Call.Checks (S : Session) : Call → Inquiry → Prop
  | close {scope s} (hs : S.scope? scope = some s) :
    Checks S (.scope (.close scope)) { first := fun _ => s.checkClosable S.store, scope := s }
  | addAction {scope label plan a s} (hs : S.scope? scope = some s)
    (ha : plan.action? S label = some a) :
    Checks S (.scope (.addAction scope label plan)) { scope := s }
  | acquire {scope name s} (hs : S.scope? scope = some s) :
    Checks S (.scope (.acquire scope name)) { scope := s }
  | allocateNative {size align scope name? s} (hs : S.scope? scope = some s) :
    Checks S (.scope (.allocateNative size align scope name?)) { scope := s }
  | resolve {start length scope name? s} (hs : S.scope? scope = some s) :
    Checks S (.scope (.resolve start length scope name?)) { scope := s }
  | adopt {start length scope name? s} (hs : S.scope? scope = some s) :
    Checks S (.region (.adopt start length scope name?)) { scope := s }
  | slice {region offset length name? r adopted} (hr : S.region? region = some (r, adopted)) :
    Checks S (.region (.slice region offset length name?)) { scope := r.scope }
  | sliceFrom {region offset name? r adopted} (hr : S.region? region = some (r, adopted)) :
    Checks S (.region (.sliceFrom region offset name?))
      { first := fun _ => r.checkStart offset, scope := r.scope }
  | read {length region offset r adopted} (hr : S.region? region = some (r, adopted)) :
    Checks S (.region (.read length region offset)) { scope := r.scope }
  | write {region offset bytes r adopted} (hr : S.region? region = some (r, adopted)) :
    Checks S (.region (.write region offset bytes)) { scope := r.scope }
  | get {l offset type region r adopted} (hr : S.region? region = some (r, adopted)) :
    Checks S (.region (.get l offset type region))
      { form := type.carrier.check l .native, scope := r.scope }
  | set {l offset region x r adopted} (hr : S.region? region = some (r, adopted)) :
    Checks S (.region (.set l offset region x))
      { form := x.type.carrier.check l .native, scope := r.scope }
  | getAddress {region l offset r adopted} (hr : S.region? region = some (r, adopted)) :
    Checks S (.region (.getAddress region l offset))
      { form := MemoryError.verdict (Region.addressWidth l), scope := r.scope }
  | setAddress {a region l offset r adopted} (hr : S.region? region = some (r, adopted)) :
    Checks S (.region (.setAddress a region l offset))
      { form := MemoryError.verdict (Region.addressBytes l a), scope := r.scope }
  | copySource {region source r adopted src adopted'}
    (hr : S.region? region = some (r, adopted)) (hs : S.region? source = some (src, adopted')) :
    Checks S (.region (.copyFrom region source)) { scope := src.scope }
  | copyTarget {region source r adopted src adopted'}
    (hr : S.region? region = some (r, adopted)) (hs : S.region? source = some (src, adopted')) :
    Checks S (.region (.copyFrom region source))
      { first := fun t => S.store.checkAccess t src 0 src.size, scope := r.scope }
  | fill {region value r adopted} (hr : S.region? region = some (r, adopted)) :
    Checks S (.region (.fill region value)) { scope := r.scope }
  | contents {region r adopted} (hr : S.region? region = some (r, adopted))
    (hsize : r.size ≤ Region.bufferLimit) :
    Checks S (.region (.contents region)) { scope := r.scope }
  | arena {scope capacity config access name s} (hs : S.scope? scope = some s) :
    Checks S (.allocation (.arena scope capacity config access name))
      { form := config.validate, scope := s }
  | allocate {request allocator name? w s} (hw : S.allocator? allocator = some w)
    (hs : s ∈ Handle.allocatorScopes S.store w) :
    Checks S (.allocation (.allocate request allocator name?))
      { form := w.checkForm request, scope := s }
  | builder {scope convention name s} (hs : S.scope? scope = some s) :
    Checks S (.variadic (.builder scope convention name)) { scope := s }
  | push {l region builder r adopted b} (hr : S.region? region = some (r, adopted))
    (hb : S.builder? builder = some b) :
    Checks S (.variadic (.push l (.segment region) builder))
      { form := VariadicBuilder.checkStruct b.convention l r, scope := r.scope }
  | build {source name b} (hb : S.builder? source = some b) (hne : b.arguments ≠ []) :
    Checks S (.variadic (.build source name)) { form := b.checkCount, scope := b.scope }
  | make {arguments scope convention name s} {args : List (Layout × ArgumentValue)}
    (ha : arguments.map (fun arg => (arg.2.value? S).map (arg.1, ·)) = args.map some)
    (hs : S.scope? scope = some s) :
    Checks S (.variadic (.make arguments scope convention name)) { scope := s }
  | makeStruct {arguments scope convention name l r s}
    {before after : List (Layout × ArgumentValue)}
    (ha : arguments.map (fun arg => (arg.2.value? S).map (arg.1, ·)) =
      (before ++ (l, .segment r) :: after).map some)
    (hs : S.scope? scope = some s) :
    Checks S (.variadic (.make arguments scope convention name))
      { first := fun t =>
          MemoryError.verdict ((VariadicBuilder.staged convention s before).finding S.store t) >>=
            fun _ => VariadicBuilder.checkStruct convention l r
        scope := r.scope }
  | adoptList {start scope convention name s} (hs : S.scope? scope = some s) :
    Checks S (.variadic (.adopt start scope convention name))
      { form := if start = 0 then .error (.invalidArgument "variadic list address is null")
          else .ok ()
        scope := s }
  | readList {l type list v c} (hv : S.list? list = some v) (hc : v.cursor = some c) :
    Checks S (.variadic (.read l type list))
      { form := type.carrier.check l v.convention.width, scope := c.remaining.scope }
  | readSegment {l list allocator name? v c w} (hv : S.list? list = some v)
    (hc : v.cursor = some c) (hw : S.allocator? allocator = some w) :
    Checks S (.variadic (.readSegment l list allocator name?))
      { form := Carrier.segment.check l v.convention.width, scope := c.remaining.scope }
  | readSegmentTo {l list allocator name? v c w s} (hv : S.list? list = some v)
    (hc : v.cursor = some c) (hw : S.allocator? allocator = some w)
    (hs : s ∈ Handle.allocatorScopes S.store w) :
    Checks S (.variadic (.readSegment l list allocator name?))
      { form := Carrier.segment.check l v.convention.width
        first := fun t => MemoryError.verdict ((v.source l c).finding S.store t) >>= fun _ =>
          w.checkSize l.size l.align
        scope := s }
  | skip {layouts list v c} (hv : S.list? list = some v) (hc : v.cursor = some c) :
    Checks S (.variadic (.skip layouts list))
      { first := fun _ => v.checkSkip c layouts, scope := c.remaining.scope }
  | copy {list name v c} (hv : S.list? list = some v) (hc : v.cursor = some c) :
    Checks S (.variadic (.copy list name)) { scope := c.remaining.scope }

/-- The session after a call that was refused. A builder that was to be built is used up. -/
def Session.refused (S : Session) : Call → Session
  | .variadic (.build source _) => S.lost source
  | _ => S

namespace Turn

variable {α β : Type} {ctx : Context} {S : Session} {e : MemoryError}
  {check : Thread → Except MemoryError Unit}

theorem run_find {lookup : Session → Name → Option α} {name : Name} {a : α}
    (h : lookup S name = some a) : (find lookup name).run ctx S = .ok a S := by
  unfold find
  simp [h]

theorem run_bind_find {lookup : Session → Name → Option α} {name : Name} {a : α}
    (h : lookup S name = some a) (f : α → Turn β) :
    (find lookup name >>= f).run ctx S = (f a).run ctx S := by
  rw [run_bind, run_find h]

theorem run_bind_claim {lookup : Session → Name → Option α} {name : Name} {a : α}
    (h : lookup S name = some a) (f : α → Turn β) :
    (claim lookup name >>= f).run ctx S = (f a).run ctx S := by
  unfold claim
  simp [h]

theorem run_consume {name : Name} {h : Handle} (hf : S.handles.find? name = some h) (f : Turn α) :
    (do
      forget name
      discard h
      f).run ctx S = f.run ctx (S.lost name) := by
  unfold Session.lost
  rw [hf]
  rfl

theorem run_bind_lift {x : Operation α} {a : α} {τ : Store} (h : x.run ctx S.store = .ok a τ)
    (f : α → Turn β) : (lift x >>= f).run ctx S = (f a).run ctx { S with store := τ } := by
  rw [run_bind, run_lift, h]

theorem run_bind_lift_error {x : Operation α} (hx : x.Checks S.store check)
    (he : check ctx.caller = .error e) (f : α → Turn β) :
    (lift x >>= f).run ctx S = .error (.memory e) S := by
  rw [run_bind, run_lift, hx ctx e he]

end Turn

variable {S : Session} {ctx : Context} {c : Call} {q : Inquiry} {e : MemoryError}

theorem ActionPlan.run_resolve {plan : ActionPlan} {label : String} {a : CloseAction}
    (ha : plan.action? S label = some a) : (plan.resolve label).run ctx S = .ok a S := by
  cases plan with
  | say =>
    cases ha
    rfl
  | _ =>
    obtain ⟨_, hn, rfl⟩ := Option.map_eq_some_iff.mp ha
    exact run_bind_find hn _

theorem ArgumentSource.run_resolve {source : ArgumentSource} {v : ArgumentValue}
    (hv : source.value? S = some v) : source.resolve.run ctx S = .ok v S := by
  cases source with
  | segment region =>
    obtain ⟨_, hn, rfl⟩ := Option.map_eq_some_iff.mp hv
    exact run_bind_find hn _
  | _ =>
    cases hv
    rfl

theorem ArgumentSource.run_resolveAll {arguments : List (Layout × ArgumentSource)}
    {args : List (Layout × ArgumentValue)}
    (ha : arguments.map (fun arg => (arg.2.value? S).map (arg.1, ·)) = args.map some) :
    (arguments.mapM fun arg => return (arg.1, ← arg.2.resolve) :
      Turn (List (Layout × ArgumentValue))).run ctx S = .ok args S := by
  induction arguments generalizing args with
  | nil =>
    cases args with
    | nil => rfl
    | cons => cases ha
  | cons arg arguments ih =>
    cases args with
    | nil => cases ha
    | cons v args =>
      rw [List.map_cons, List.map_cons] at ha
      obtain ⟨hv, hrest⟩ := List.cons.inj ha
      obtain ⟨x, hx, rfl⟩ := Option.map_eq_some_iff.mp hv
      rw [List.mapM_cons]
      simp only [run_bind, run_resolve hx, ih hrest, run_pure]

/-- A call fails with the first thing that its checks find wrong, and has done nothing until
then. -/
theorem Call.Checks.refused (h : c.Checks S q) (he : q.check S.store ctx.caller = .error e) :
    c.perform.run ctx S = .error (.memory e) (S.refused c) := by
  cases h with
  | close hs =>
    exact (run_bind_find hs _).trans (run_bind_lift_error (ScopeId.checks_close _) he _)
  | addAction hs ha =>
    refine (run_bind_find hs _).trans ?_
    rw [run_bind, ActionPlan.run_resolve ha]
    exact run_bind_lift_error (ScopeId.checks_addAction _ _) he _
  | acquire hs =>
    exact (run_bind_find hs _).trans (run_bind_lift_error (ScopeId.checks_acquire _) he _)
  | allocateNative hs =>
    exact (run_bind_find hs _).trans
      (run_bind_lift_error (ScopeId.checks_allocateNative _ _ _) he _)
  | resolve hs =>
    exact (run_bind_find hs _).trans (run_bind_lift_error (ScopeId.checks_resolve _ _ _) he _)
  | adopt hs =>
    exact (run_bind_find hs _).trans (run_bind_lift_error (Region.checks_ofAddress _ _ _) he _)
  | slice hr =>
    exact (run_bind_find hr _).trans (run_bind_lift_error (Region.checks_slice _ _ _) he _)
  | sliceFrom hr =>
    exact (run_bind_find hr _).trans (run_bind_lift_error (Region.checks_sliceFrom _ _) he _)
  | read hr =>
    exact (run_bind_find hr _).trans (run_bind_lift_error (Region.checks_read _ _ _) he _)
  | write hr =>
    exact (run_bind_find hr _).trans (run_bind_lift_error (Region.checks_write _ _ _) he _)
  | get hr =>
    exact (run_bind_find hr _).trans (run_bind_lift_error (Region.checks_get _ _ _ _) he _)
  | set hr =>
    exact (run_bind_find hr _).trans (run_bind_lift_error (Region.checks_set _ _ _ _) he _)
  | getAddress hr =>
    exact (run_bind_find hr _).trans (run_bind_lift_error (Region.checks_getAddress _ _ _) he _)
  | setAddress hr =>
    exact (run_bind_find hr _).trans (run_bind_lift_error (Region.checks_setAddress _ _ _ _) he _)
  | copySource hr hs =>
    exact (run_bind_find hr _).trans <| (run_bind_find hs _).trans
      (run_bind_lift_error (Region.checks_copyFrom_source _ _) he _)
  | copyTarget hr hs =>
    exact (run_bind_find hr _).trans <| (run_bind_find hs _).trans
      (run_bind_lift_error (Region.checks_copyFrom _ _) he _)
  | fill hr => exact (run_bind_find hr _).trans (run_bind_lift_error (Region.checks_fill _ _) he _)
  | contents hr hsize =>
    exact (run_bind_find hr _).trans (run_bind_lift_error (Region.checks_contents _ hsize) he _)
  | @arena _ capacity config _ _ s hs =>
    have hcreate : (ArenaId.create capacity config s).Checks S.store
        (Inquiry.check { form := config.validate, scope := s } S.store) :=
      Operation.checks_test_bind fun _ => (Operation.checks_checkUsable s).bind
    exact (run_bind_find hs _).trans (run_bind_lift_error hcreate he _)
  | allocate hw hs =>
    exact (run_bind_find hw _).trans (run_bind_lift_error (Allocator.checks_serve hs _) he _)
  | builder hs =>
    exact (run_bind_find hs _).trans
      (run_bind_lift_error (VariadicBuilder.checks_create _ _) he _)
  | push hr hb =>
    have hv : (ArgumentSource.segment _).value? S = some (.segment _) :=
      Option.map_eq_some_iff.mpr ⟨_, hr, rfl⟩
    refine (run_bind _ _ _ _).trans ?_
    rw [ArgumentSource.run_resolve hv]
    exact (run_bind_find hb _).trans (run_bind_lift_error (VariadicBuilder.checks_push _ _) he _)
  | @build source _ b hb hne =>
    refine (run_bind_find hb _).trans ((run_consume (Session.find?_of_builder? hb) _).trans ?_)
    suffices hx : b.build.Checks (S.lost source).store (Inquiry.check _ S.store) from
      run_bind_lift_error hx he _
    rw [Session.store_lost]
    exact VariadicBuilder.checks_build hne
  | make ha hs =>
    refine (run_bind _ _ _ _).trans ?_
    rw [ArgumentSource.run_resolveAll ha]
    exact (run_bind_find hs _).trans (run_bind_lift_error (VariadicList.checks_make _ _ _) he _)
  | makeStruct ha hs =>
    refine (run_bind _ _ _ _).trans ?_
    rw [ArgumentSource.run_resolveAll ha]
    exact (run_bind_find hs _).trans
      (run_bind_lift_error (VariadicList.checks_make_struct _ _ _ _ _ _) he _)
  | adoptList hs =>
    exact (run_bind_find hs _).trans
      (run_bind_lift_error (VariadicList.checks_ofAddress _ _ _) he _)
  | readList hv hc =>
    exact (run_bind_find hv _).trans
      (run_bind_lift_error (VariadicList.checks_readAs hc _ _) he _)
  | readSegment hv hc hw =>
    exact (run_bind_claim hv _).trans <| (run_bind_find hw _).trans
      (run_bind_lift_error (VariadicList.checks_readSlot hc _ _ _) he _)
  | readSegmentTo hv hc hw hs =>
    exact (run_bind_claim hv _).trans <| (run_bind_find hw _).trans
      (run_bind_lift_error (VariadicList.checks_readSegment hc _ hs) he _)
  | skip hv hc =>
    exact (run_bind_find hv _).trans (run_bind_lift_error (VariadicList.checks_skip hc _) he _)
  | copy hv hc =>
    exact (run_bind_find hv _).trans (run_bind_lift_error (VariadicList.checks_copy hc) he _)

end ScopedMemory
