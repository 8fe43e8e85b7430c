import ScopedMemory.Proofs.Lifetime.Edit
import ScopedMemory.Proofs.Refusal.Outcome
import ScopedMemory.Proofs.Session.ReadBack
import ScopedMemory.Proofs.Session.Lenient
import ScopedMemory.Proofs.Variadic.Copying

namespace ScopedMemory

open Turn

variable {system : SystemAllocator} {strict : Prop} {G : List Region} {S T U : Session}
  {ctx : Context}

/-! ### Calls that name no list -/

def Handle.IsList : Handle → Prop
  | list _ => True
  | _ => False

namespace Session

/-- Every list of the second session is one of the first, under the same name. -/
def ListsFrom (S T : Session) : Prop := ∀ p ∈ T.handles, p.2.IsList → p ∈ S.handles

theorem ListsFrom.refl (S : Session) : S.ListsFrom S := fun _ hp _ => hp

theorem ListsFrom.trans (h : S.ListsFrom T) (h' : T.ListsFrom U) : S.ListsFrom U :=
  fun p hp hl => h p (h' p hp hl) hl

instance : Std.Refl ListsFrom := ⟨ListsFrom.refl⟩

instance : Trans ListsFrom ListsFrom ListsFrom := ⟨ListsFrom.trans⟩

theorem ListsFrom.of_handles (h : T.handles = S.handles) : S.ListsFrom T :=
  fun _ hp _ => h ▸ hp

theorem ListsFrom.put (S : Session) (name : Name) {h : Handle} (hh : ¬ h.IsList)
    (hT : T.handles = S.handles.put name h) : S.ListsFrom T := by
  intro p hp hl
  rw [hT] at hp
  rcases HandleTable.mem_put hp with rfl | hp
  · exact absurd hl hh
  · exact hp

theorem ListsFrom.erase (S : Session) (name : Name) (hT : T.handles = S.handles.erase name) :
    S.ListsFrom T := fun _ hp _ => HandleTable.mem_of_mem_erase (hT ▸ hp)

theorem lenient_listsFrom : Lenient ListsFrom where
  store _ _ _ := .of_handles rfl
  chores _ _ := .of_handles rfl
  put S name h hh := by
    refine .put S name (fun hl => hh ?_) rfl
    cases h with
    | list v => trivial
    | _ => exact hl.elim
  erase S name := .erase S name rfl

end Session

namespace Turn

variable {α β : Type} {x : Turn α} {f : α → Turn β}

/-- However the turn ends, it has given no new list a name. -/
abbrev Unlisting (x : Turn α) (ctx : Context) (S : Session) : Prop :=
  x.Through Session.ListsFrom ctx S

theorem unlisting_lift (x : Operation α) : (lift x).Unlisting ctx S := by
  unfold Unlisting Through Leads
  rw [run_lift]
  cases x.run ctx S.store with
  | ok a τ => exact .of_handles rfl
  | error e τ => exact .of_handles rfl

theorem unlisting_update (name : Name) {h : Handle} (hh : ¬ h.IsList) :
    (update name h).Unlisting ctx S :=
  leads_update.imp (fun _ _ hT => .put S name hh (hT ▸ rfl)) fun _ h => h.elim

theorem unlisting_keepHandle (name : Name) {h : Handle} (hh : ¬ h.IsList) :
    (keepHandle name h).Unlisting ctx S :=
  leads_keepHandle.imp (fun _ _ hT => .put S name hh (hT.2 ▸ rfl)) fun _ h => h.elim

end Turn

theorem AllocationCall.unlisting (c : AllocationCall) : c.perform.Unlisting ctx S := by
  have hR := Session.lenient_listsFrom
  cases c with
  | arena scope capacity config access name =>
    exact through_find.bind fun _ _ => (unlisting_lift _).bind fun _ _ =>
      through_keepHandle hR name id
  | direct scope name =>
    exact through_find.bind fun _ _ => (through_rename hR name id).bind fun _ _ =>
      through_pure _
  | perRequest kind name => exact (through_rename hR name id).bind fun _ _ => through_pure _
  | recycling region name =>
    exact through_find.bind fun _ _ => (through_rename hR name id).bind fun _ _ =>
      through_pure _
  | allocate request allocator name? =>
    exact through_find.bind fun _ _ => (unlisting_lift _).bind fun r _ =>
      through_keepRegion hR name? false r
  | allocateParallel target size align threads count =>
    exact through_find.bind fun _ _ => (unlisting_lift _).bind fun _ _ => through_pure _

/-! ### Where lists come from -/

/-- How a list comes to have a name in a call on `S` that leaves the store `τ`. -/
inductive VariadicList.Stems (S : Session) (τ : Store) (v : VariadicList) : Prop
  | kept {name} (h : (name, Handle.list v) ∈ S.handles)
  | advanced {name v₀} (h : (name, Handle.list v₀) ∈ S.handles) (ha : v₀.Advanced v)
  | empty (h : v.cursor = none)
  | built {c} (h : v.AtHome c τ)
  | adopted {c} (hc : v.cursor = some c) (hf : c.foreign = true) (hs : c.remaining.start = c.start)

namespace Session

def Stems (S T : Session) : Prop := ∀ p ∈ T.handles, ∀ v, p.2 = .list v → v.Stems S T.store

theorem Stems.of_listsFrom (hT : ∀ τ, ∀ p ∈ T.handles, ∀ v, p.2 = .list v → v.Stems S τ)
    (h : T.ListsFrom U) : S.Stems U := fun p hp v hv =>
  hT U.store p (h p hp (hv ▸ trivial)) v hv

theorem ListsFrom.stems (h : S.ListsFrom T) : S.Stems T := by
  rintro ⟨name, hd⟩ hp v rfl
  exact .kept (h _ hp trivial)

theorem ListsFrom.stems_put (h : S.ListsFrom T) {v : VariadicList} (name : Name) {τ : Store}
    (hv : v.Stems S τ) {p : Name × Handle} (hp : p ∈ T.handles.put name (.list v))
    {v' : VariadicList} (hv' : p.2 = .list v') : v'.Stems S τ := by
  obtain ⟨name', hd⟩ := p
  obtain rfl : hd = .list v' := hv'
  rcases HandleTable.mem_put hp with hp | hp
  · cases hp
    exact hv
  · exact .kept (h _ hp trivial)

end Session

theorem Turn.leads_unlisting {x : Turn Reply} (hx : x.Unlisting ctx S) :
    x.Leads ctx S (fun _ T => S.Stems T) S.Stems :=
  hx.imp (fun _ _ h => h.stems) fun _ h => h.stems

theorem Turn.leads_made {x : Operation VariadicList} (hT : S.ListsFrom T)
    (hx : x.Leads ctx T.store (fun v τ => v.Stems S τ) fun _ => True) (name : Name) :
    (do keepList name (← lift x) : Turn Reply).Leads ctx T (fun _ U => S.Stems U) S.Stems := by
  have hsame : ∀ τ, S.ListsFrom { T with store := τ } := fun τ => hT.trans (.of_handles rfl)
  refine (leads_lift hx).chain (fun U hU => ?_) fun v U hU => ?_
  · obtain ⟨τ, _, rfl⟩ := hU
    exact (hsame τ).stems
  · obtain ⟨τ, hv, rfl⟩ := hU
    refine leads_keepList.imp (fun _ V hV => ?_) fun _ h => h.elim
    rw [hV.2]
    exact fun p hp v' hv' => (hsame τ).stems_put name hv hp hv'

theorem Turn.leads_readOn {α : Type} {list : Name} {v : VariadicList} (hn : S.list? list = some v)
    {x : Operation α} (rest : α → VariadicList) (reply : α → Reply)
    (hx : x.Leads ctx S.store (fun a _ => v.Advanced (rest a)) fun _ => True) :
    (do
      let a ← lift x
      update list (.list (rest a))
      return reply a : Turn Reply).Leads ctx S (fun _ U => S.Stems U) S.Stems := by
  have hm := HandleTable.mem_of_find? (Session.find?_of_list? hn)
  have hsame : ∀ τ, S.ListsFrom { S with store := τ } := fun τ => .of_handles rfl
  refine (leads_lift hx).chain (fun U hU => ?_) fun a U hU => ?_
  · obtain ⟨τ, _, rfl⟩ := hU
    exact (hsame τ).stems
  · obtain ⟨τ, ha, rfl⟩ := hU
    refine leads_update.chain (fun _ h => h.elim) fun _ V hV => ?_
    subst hV
    exact leads_pure fun p hp v' hv' => (hsame τ).stems_put list (.advanced hm ha) hp hv'

theorem VariadicList.stems_built (hsep : system.Separate) (h : S.Sound system strict G)
    {s : ScopeId} {c : Convention} {v : VariadicList} {rs : List Region} {writes : Prop}
    {τ : Store} (hc : S.store.Changes system writes rs τ)
    (hv : v = .empty c ∨ ∃ buffer ∈ rs, buffer.scope = s ∧ v = .ofBuffer c buffer s) :
    v.Stems S τ := by
  rcases hv with rfl | ⟨buffer, hb, hscope, rfl⟩
  · exact .empty rfl
  · refine .built (c := ⟨buffer.start, buffer, false⟩) ⟨rfl, hscope, rfl, ?_, Nat.le_refl _⟩
    exact (h.changes hsep hc).ledger.inside _ (List.mem_append_right _ hb)

theorem VariadicCall.stems_readSegment (h : S.Sound system strict G)
    (hw : ctx.system.Within system) (l : Layout) (list allocator : Name) (name? : Option Name) :
    (VariadicCall.readSegment l list allocator name?).perform.Leads ctx S
      (fun _ T => S.Stems T) S.Stems := by
  refine leads_claim.chain (fun T hT => ?_) fun v T hT => ?_
  · rw [hT.2]
    exact Session.ListsFrom.stems (Session.lenient_listsFrom.lost S list)
  obtain ⟨hn, rfl⟩ := hT
  refine leads_bind_find (Session.ListsFrom.refl T).stems fun w hk => ?_
  have hm := HandleTable.mem_of_find? (Session.find?_of_list? hn)
  have hx := VariadicList.leads_readSegment (v := v) h.store hw (h.of_allocator? hk).1 l
  refine (leads_lift hx).chain (fun U hU => ?_) fun p U hU => ?_
  · obtain ⟨τ, _, rfl⟩ := hU
    exact Session.ListsFrom.stems (Session.ListsFrom.of_handles (S := T) rfl)
  obtain ⟨r, rest⟩ := p
  obtain ⟨τ, ⟨_, ha⟩, rfl⟩ := hU
  refine leads_update.chain (fun _ h => h.elim) fun _ V hV => ?_
  -- Nothing that is done with the region names a list.
  have hstems : ∀ ρ, ∀ p ∈ V.handles, ∀ v', p.2 = .list v' → v'.Stems T ρ := by
    subst hV
    exact fun ρ p hp v' hv' => (Session.ListsFrom.refl T).stems_put list (.advanced hm ha) hp hv'
  refine Leads.imp (P := fun _ U => V.ListsFrom U) (Q := V.ListsFrom)
    (through_get.bind fun _ _ => (unlisting_lift _).bind fun contents _ =>
      (through_keep Session.lenient_listsFrom name? id).bind fun _ _ => ?_)
    (fun _ _ => .of_listsFrom hstems) fun _ => .of_listsFrom hstems
  split
  next => exact through_pure _
  next => exact through_throw _
  next => exact through_pure _

theorem VariadicCall.unlisting_builder (scope : Name) (convention : Convention) (name : Name) :
    (VariadicCall.builder scope convention name).perform.Unlisting ctx S :=
  through_find.bind fun _ _ => (unlisting_lift _).bind fun _ _ => unlisting_keepHandle name id

theorem VariadicCall.unlisting_push (layout : Layout) (value : ArgumentSource) (target : Name) :
    (VariadicCall.push layout value target).perform.Unlisting ctx S := by
  refine Through.bind ?_ fun _ _ => through_find.bind fun _ _ =>
    (unlisting_lift _).bind fun _ _ => (unlisting_update target id).bind fun _ _ => through_pure _
  cases value with
  | segment region => exact through_find.bind fun _ _ => through_pure _
  | _ => exact through_pure _

theorem VariadicCall.stems (hsep : system.Separate) (h : S.Sound system strict G)
    (hw : ctx.system.Within system) (c : VariadicCall) :
    c.perform.Leads ctx S (fun _ T => S.Stems T) S.Stems := by
  have hrefl := Session.ListsFrom.refl S
  cases c with
  | builder scope convention name =>
    exact leads_unlisting (unlisting_builder scope convention name)
  | push layout value target => exact leads_unlisting (unlisting_push layout value target)
  | build source name =>
    refine leads_bind_find hrefl.stems fun b hn => ?_
    refine leads_forget.chain (fun _ hf => hf.elim) fun _ U hU => ?_
    subst hU
    refine leads_discard.chain (fun _ hf => hf.elim) fun _ U hU => ?_
    subst hU
    refine leads_made (.erase S source rfl) ?_ name
    refine (VariadicBuilder.leads_build h.store hw b).imp (fun v τ hv => ?_) fun _ _ => trivial
    obtain ⟨rs, hc, hv⟩ := hv
    exact VariadicList.stems_built hsep h hc hv
  | make arguments scope convention name =>
    refine (ArgumentSource.leads_resolveAll arguments).chain
      (fun T hT => hT ▸ hrefl.stems) fun args T hT => ?_
    subst hT
    refine leads_bind_find hrefl.stems fun s hn => leads_made hrefl ?_ name
    refine (VariadicList.leads_make h.store hw convention s args).imp (fun v τ hv => ?_)
      fun _ _ => trivial
    obtain ⟨rs, hc, hv⟩ := hv
    exact VariadicList.stems_built hsep h hc hv
  | empty convention name =>
    refine leads_keepList.imp (fun _ T hT => ?_) fun _ hf => hf.elim
    rw [hT.2]
    exact fun p hp v' hv' => hrefl.stems_put name (.empty rfl) hp hv'
  | adopt start scope convention name =>
    refine leads_bind_find hrefl.stems fun s hn => leads_made hrefl ?_ name
    refine (VariadicList.leads_ofAddress convention start s).imp (fun v τ hv => ?_)
      fun _ _ => trivial
    obtain ⟨_, _, _, hcur⟩ := hv
    exact .adopted hcur rfl rfl
  | read layout type list =>
    refine leads_bind_find hrefl.stems fun v hn => leads_readOn hn Prod.snd Prod.fst ?_
    exact (VariadicList.leads_readAs layout type).imp (fun _ _ hv => hv.2) fun _ _ => trivial
  | readSegment layout list allocator name? =>
    exact stems_readSegment h hw layout list allocator name?
  | skip layouts list =>
    refine leads_bind_find hrefl.stems fun v hn =>
      leads_readOn hn id (fun rest => .list rest.view) ?_
    exact (VariadicList.leads_skip layouts).imp (fun _ _ hv => hv.1) fun _ _ => trivial
  | copy list name =>
    refine leads_bind_find hrefl.stems fun v hn => leads_made hrefl ?_ name
    refine VariadicList.leads_copy.imp (fun v' τ hv => ?_) fun _ _ => trivial
    rcases hv.1 with rfl | rfl
    · exact .kept (HandleTable.mem_of_find? (Session.find?_of_list? hn))
    · exact .empty rfl

theorem Call.stems (hsep : system.Separate) (h : S.Sound system strict G)
    (hw : ctx.system.Within system) (c : Call) :
    S.Stems (S.begin ctx c).2 := by
  have hc : c.perform.Leads ctx S (fun _ T => S.Stems T) S.Stems := by
    cases c with
    | handle c => exact leads_unlisting (c.through Session.lenient_listsFrom)
    | scope c => exact leads_unlisting (c.through Session.lenient_listsFrom)
    | region c => exact leads_unlisting (c.through Session.lenient_listsFrom)
    | allocation c => exact leads_unlisting c.unlisting
    | variadic c => exact c.stems hsep h hw
  exact hc.begin fun _ hT => hT

/-! ### Lists that were not adopted -/

/-- Every list that was not adopted is where its scope keeps its memory. -/
def Session.Housed (S : Session) : Prop :=
  ∀ p ∈ S.handles, ∀ v c, p.2 = .list v → v.cursor = some c → c.foreign = false → v.AtHome c S.store

theorem Session.Housed.stems (hS : S.Housed) (hl : S.store.Later T.store) (h : S.Stems T) :
    T.Housed := by
  intro p hp v c hv hc hf
  cases h p hp v hv with
  | kept hm => exact (hS _ hm v c rfl hc hf).later hl
  | @advanced _ v₀ hm ha =>
    obtain ⟨c₀, offset, length, hc₀, _, hv₀⟩ := ha
    have hf₀ : c₀.foreign = false := by
      subst hv₀
      cases hc
      exact hf
    have ha : v₀.Advanced v := ⟨c₀, offset, length, hc₀, ‹_›, hv₀⟩
    obtain ⟨c', hc'⟩ := (hS _ hm v₀ c₀ rfl hc₀ hf₀).advanced ha
    obtain rfl := Option.some.inj (hc'.cursor.symm.trans hc)
    exact hc'.later hl
  | empty hn => cases hn.symm.trans hc
  | @built c' hb =>
    obtain rfl := Option.some.inj (hb.cursor.symm.trans hc)
    exact hb
  | @adopted c' hc' hf' _ =>
    obtain rfl := Option.some.inj (hc'.symm.trans hc)
    cases hf'.symm.trans hf

theorem Session.handles_advance (S : Session) (ctx : Context) :
    (S.advance ctx).handles = S.handles := by
  unfold advance
  split <;> rfl

theorem play_housed (hsep : system.Separate) {past : List Move}
    (hw : ∀ m ∈ past, m.Within system) : (play past).Housed := by
  induction past with
  | nil => exact fun _ hp => by cases hp
  | cons m past ih =>
    have hpast : ∀ m ∈ past, m.Within system := fun m' hm => hw m' (List.mem_cons_of_mem m hm)
    have hS : (play past).Sound system False _ := play_sound hsep hpast False.elim
    have hf := Session.follows_move hsep hS (hw m List.mem_cons_self) False.elim
    refine (ih hpast).stems hf.later ?_
    cases m with
    | call ctx c => exact c.stems hsep hS (hw _ List.mem_cons_self)
    | chore ctx =>
      exact (Session.ListsFrom.of_handles (Session.handles_advance _ ctx)).stems

theorem Session.Housed.atHome (hS : S.Housed) {name : Name} {v : VariadicList} {c : Cursor}
    (hv : S.list? name = some v) (hc : v.cursor = some c) (hf : c.foreign = false) :
    v.AtHome c S.store :=
  hS _ (HandleTable.mem_of_find? (find?_of_list? hv)) v c rfl hc hf

/-- Once a struct has been read the call is refused at most because of the length of the struct. -/
theorem VariadicCall.ends_readSegment_read {E : Refusal → Session → Prop} (l : Layout)
    (list allocator : Name) (name? : Option Name)
    (hclaim : S.list? list = none → E .noHandle (S.lost list))
    (hfind : S.list? list ≠ none → E .noHandle S)
    (hread : ∀ v w e τ, S.list? list = some v → S.allocator? allocator = some w →
      (v.readSegment l w).run ctx S.store = .error e τ → E (.memory e) { S with store := τ })
    (hlong : ∀ T, E .tooLong T) :
    (VariadicCall.readSegment l list allocator name?).perform.Ends ctx S (fun _ _ => True) E := by
  refine ends_bind_claim hclaim fun v hv => ends_bind_find (hfind ?_) fun w hw => ?_
  · rw [hv]
    exact nofun
  refine Ends.bind (P := fun _ _ => True)
    (ends_lift (fun _ _ _ => trivial) fun e τ hr => hread v w e τ hv hw hr) fun p T _ => ?_
  exact leads_update.ends.bind fun _ _ _ =>
    (ends_get (P := fun _ _ => True) trivial).bind fun _ _ _ =>
      ends_lift_attempt.bind fun contents _ _ => leads_keep.ends.bind fun _ U _ => by
        match contents with
        | .ok (some bytes) => exact ends_pure trivial
        | .ok none => exact ends_throw (hlong U)
        | .error e => exact ends_pure trivial

/-- A struct that cannot be read leaves all names as they were. -/
theorem VariadicCall.ends_readSegment (l : Layout) (list allocator : Name)
    (name? : Option Name) :
    (VariadicCall.readSegment l list allocator name?).perform.Ends ctx S (fun _ _ => True)
      fun r T => ∀ e, r = .memory e → T.handles = S.handles :=
  ends_readSegment_read l list allocator name? nofun nofun (fun _ _ _ _ _ _ _ _ _ => rfl) nofun

/-- Whatever the memory `m` is at the slots of a list that was not adopted, a struct is copied from
a block of the list's scope into a region that the allocator gave, or the list stays where it is
and no byte is changed but those of new blocks. An address in a slot that no block has a struct of
the size at is refused. -/
theorem play_copies (hlaw : system.Lawful) {past : List Move} (hw : ∀ m ∈ past, m.Within system)
    (hctx : ctx.system.Within system) {name : Name} {v : VariadicList}
    (hv : (play past).list? name = some v) (hown : ∀ c, v.cursor = some c → c.foreign = false)
    (m : Memory) (l : Layout) :
    (∀ w : Allocator, w.Known (play past).store →
      (v.readSegment l w).Leads ctx ((play past).store.setMemory m)
        (fun p τ => v.Copies l w ctx ((play past).store.setMemory m) p.1 p.2 τ)
        fun τ => ∀ x, τ.memory.byte x ≠ m.byte x → ¬ (play past).store.InUse x ∧ τ.InUse x) ∧
    (∀ c a, v.cursor = some c → (play past).store.checkUsable ctx.caller v.scope = .ok () →
      Carrier.segment.check l v.convention.width = .ok () →
      v.convention.classifyStruct l = .ok .structReference →
      c.remaining.Spans 0 v.convention.slotSize →
      ((v.slot c).getAddress v.convention.addressLayout 0).run ctx
        ((play past).store.setMemory m) = .ok a ((play past).store.setMemory m) →
      (∀ b ∈ ((play past).store.scope v.scope).blocks, ¬ b.Encloses ⟨a, l.size, v.scope⟩) →
      ∀ w : Allocator, ∃ text, (v.readSegment l w).run ctx ((play past).store.setMemory m) =
        .error (.invalidArgument text) ((play past).store.setMemory m)) ∧
    ∀ allocator name? e,
      ((play past).begin ctx (.variadic (.readSegment l name allocator name?))).1 =
        .error (.memory e) →
      ((play past).begin ctx (.variadic (.readSegment l name allocator name?))).2.handles =
        (play past).handles := by
  have hS : (play past).Sound system False ((handedOut past).map (·.region)) :=
    play_sound hlaw.separate hw False.elim
  have hhome : ∀ c, v.cursor = some c → v.AtHome c ((play past).store.setMemory m) :=
    fun c hc => ((play_housed hlaw.separate hw).atHome hv hc (hown c hc)).setMemory m
  refine ⟨fun w hk => ?_, fun c a hc hu hcheck hclass hn ha hstray w => ?_,
    fun allocator name? e he => ?_⟩
  · cases hc : v.cursor with
    | none =>
      unfold VariadicList.readSegment VariadicList.readSlot VariadicList.requireCursor
      rw [hc]
      exact Operation.leads_throw fun x hx => absurd rfl hx
    | some c =>
      exact (hhome c hc).leads_readSegment hlaw (hS.store.setMemory m) (hS.ledger.setMemory m) hctx
        hk l
  · exact ⟨_, (hhome c hc).run_readSegment_stray hu hcheck hclass hn ha hstray⟩
  · obtain ⟨T, hr, hT⟩ := Session.run_of_begin_error he
    rw [hT]
    have hsame := (VariadicCall.ends_readSegment l name allocator name?).error hr e rfl
    exact hsame

/-- The list stands before a struct that did not fit in its slot. -/
def skippingCalls : List (Thread × Call) :=
  pushingCalls ++
    [(0, .variadic (.build "b" "v")),
      (1, .variadic (.skip [.cInt, .struct ⟨4, 4, .little⟩ [.cInt]] "v"))]

def skippedStore : Store := (play (movesOf TwinHeaps.system skippingCalls)).store

def skippedList : VariadicList := ⟨.win64, 1, some ⟨0x20000030, ⟨0x20000040, 8, 1⟩, false⟩⟩

/-- The struct is copied, and it is refused once its slot has been filled. -/
theorem skippingCalls_copies :
    (∀ m ∈ movesOf TwinHeaps.system skippingCalls, m.Within TwinHeaps.system) ∧
    (play (movesOf TwinHeaps.system skippingCalls)).list? "v" = some skippedList ∧
    (∃ r rest τ, skippedList.Copies (.struct ⟨12, 4, .big⟩ [.cInt, .cInt, .cInt]) (.direct 1)
      ⟨1, TwinHeaps.system⟩ skippedStore r rest τ) ∧
    ∃ text, (skippedList.readSegment (.struct ⟨12, 4, .big⟩ [.cInt, .cInt, .cInt])
        (.direct 1)).run ⟨1, TwinHeaps.system⟩
          (skippedStore.setMemory (skippedStore.memory.fill 0x20000040 8 0xff)) =
      .error (.invalidArgument text)
        (skippedStore.setMemory (skippedStore.memory.fill 0x20000040 8 0xff)) := by
  have hw := within_movesOf TwinHeaps.system skippingCalls
  have hctx : Context.system ⟨1, TwinHeaps.system⟩ |>.Within TwinHeaps.system := .refl _
  have hv : (play (movesOf TwinHeaps.system skippingCalls)).list? "v" = some skippedList := rfl
  have hscope : skippedStore.scope 1 =
      ⟨.shared, 0, .live 0, [⟨0x20000030, 4096⟩, ⟨0x2000000c, 12⟩, ⟨0x20000004, 4⟩], []⟩ := by
    decide +kernel
  have hu : skippedStore.checkUsable 1 1 = .ok () := by
    unfold Store.checkUsable Store.checkOwner
    rw [hscope]
    rfl
  have hcopies := play_copies TwinHeaps.lawful hw hctx hv fun c hc => by cases hc; rfl
  refine ⟨hw, hv, ?_, ?_⟩
  · have hread := (hcopies skippedStore.memory
      (.struct ⟨12, 4, .big⟩ [.cInt, .cInt, .cInt])).1 (.direct 1) fun a ha => by cases ha
    have hself : ∀ σ : Store, σ.setMemory σ.memory = σ := fun _ => rfl
    rw [← skippedStore, hself] at hread
    have hsome : ((skippedList.readSegment (.struct ⟨12, 4, .big⟩ [.cInt, .cInt, .cInt])
        (.direct 1)).value? ⟨1, TwinHeaps.system⟩ skippedStore).isSome := by
      decide +kernel
    obtain ⟨p, τ, _, h⟩ := hread.of_isSome hsome
    exact ⟨p.1, p.2, τ, h⟩
  · have hslot : skippedStore.checkAccess 1 ⟨0x20000040, 8, 1⟩ 0 8 = .ok () :=
      Store.checkAccess_eq_ok_iff.mpr ⟨hu, by decide⟩
    have haddress : Address.decode .little ((skippedStore.memory.fill 0x20000040 8 0xff).read
        0x20000040 8) = 0xffffffffffffffff := by
      decide +kernel
    refine (hcopies (skippedStore.memory.fill 0x20000040 8 0xff)
      (.struct ⟨12, 4, .big⟩ [.cInt, .cInt, .cInt])).2.1 _ 0xffffffffffffffff rfl hu rfl rfl
        (by decide) ?_ (fun b hb => ?_) (.direct 1)
    · have hwidth : Region.addressWidth .cPointer = .ok .bits64 := rfl
      have hget := Region.run_getAddress ⟨0x20000040, 8, 1⟩ 0 ⟨1, TwinHeaps.system⟩
        (skippedStore.setMemory (skippedStore.memory.fill 0x20000040 8 0xff)) .cPointer
      rw [hwidth] at hget
      dsimp only at hget
      rw [Store.checkAccess_setMemory, show UInt64.ofNat AddressWidth.bits64.bytes = 8 from rfl,
        hslot] at hget
      exact hget.trans (congrArg (EStateM.Result.ok · _) haddress)
    · change b ∈ (skippedStore.scope 1).blocks at hb
      rw [hscope] at hb
      simp only [List.mem_cons, List.not_mem_nil, or_false] at hb
      rcases hb with rfl | rfl | rfl <;> exact fun h => absurd h.2 (by decide)

end ScopedMemory
