import ScopedMemory.Proofs.Session.Run
import ScopedMemory.Proofs.Session.Touch
import ScopedMemory.Proofs.Variadic.Touch

namespace ScopedMemory

variable {system : SystemAllocator} {strict : Prop} {G : List Region} {S : Session}
  {ctx : Context}

/-! ### The regions of a session -/

/-- The regions that the handle stands for, keeps or carves from. -/
def Handle.held (σ : Store) (h : Handle) : List Region :=
  h.regions ++ (h.arena?.bind fun a => (σ.arena a).frontier).toList.map (·.block)

def Chore.region? : Chore → Option Region
  | perform p => p.action.region?
  | _ => none

namespace Session

/-- All regions that there are: those of handles, of actions left for the ends of scopes and of
actions that are about to run. -/
def regions (S : Session) : List Region :=
  S.handles.flatMap (·.2.held S.store) ++
    (S.store.scopes.flatMap fun sc => sc.actions.filterMap (·.action.region?)) ++
    S.chores.filterMap Chore.region?


end Session

theorem CloseAction.Sound.of_region? {a : CloseAction} {σ : Store} (h : a.Sound σ strict)
    {r : Region} (hr : a.region? = some r) : σ.Holds r.scope ∧ (strict → r.Inside σ) := by
  refine ⟨h.target _ ?_, fun hst => h.region hst r hr⟩
  cases a with
  | fill label r' =>
    cases hr
    rfl
  | _ => cases hr

theorem Handle.Sound.of_held {h : Handle} {σ : Store} (hs : h.Sound σ strict)
    (harenas : ∀ a < σ.arenas.length, (σ.arena a).Sound σ) {r : Region} (hr : r ∈ h.held σ) :
    σ.Holds r.scope ∧ (strict → r.Inside σ) := by
  rcases List.mem_append.mp hr with hr | hr
  · exact ⟨hs.scopes _ (hs.scope_mem hr), fun hst => hs.regions hst r hr⟩
  · obtain ⟨f, hf, rfl⟩ := List.mem_map.mp hr
    obtain ⟨a, ha, hf⟩ := Option.bind_eq_some_iff.mp (Option.mem_toList.mp hf)
    obtain ⟨hscope, hi, _⟩ := (harenas a (hs.arena a ha)).frontier f hf
    refine ⟨hs.scopes _ ?_, fun _ => hi⟩
    rw [hscope]
    cases h with
    | arena a' access =>
      cases ha
      exact List.mem_singleton.mpr rfl
    | allocator w =>
      cases w with
      | arena a' =>
        cases ha
        exact List.mem_singleton.mpr rfl
      | _ => cases ha
    | _ => cases ha

/-- Every region belongs to a scope that did not end for want of references. -/
theorem Session.Sound.of_regions (h : S.Sound system strict G) {r : Region}
    (hr : r ∈ S.regions) : S.store.Holds r.scope ∧ (strict → r.Inside S.store) := by
  rcases List.mem_append.mp hr with hr | hr
  · rcases List.mem_append.mp hr with hr | hr
    · obtain ⟨p, hp, hr⟩ := List.mem_flatMap.mp hr
      exact (h.handles p hp).of_held h.store.arenas hr
    · obtain ⟨sc, hsc, hr⟩ := List.mem_flatMap.mp hr
      obtain ⟨p, hp, ha⟩ := List.mem_filterMap.mp hr
      obtain ⟨s, hs, rfl⟩ := List.mem_iff_getElem.mp hsc
      have hscope : S.store.scope s = S.store.scopes[s] := by simp [Store.scope, hs]
      exact (h.store.actions s p (hscope ▸ hp)).2.of_region? ha
  · obtain ⟨c, hc, hr⟩ := List.mem_filterMap.mp hr
    cases c with
    | perform p => exact (h.chores _ hc).2.of_region? hr
    | _ => cases hr

/-- While its scope has not been closed, a region lies in a block of it that is in use. -/
theorem Session.Sound.contained (h : S.Sound system True G) {r : Region} (hr : r ∈ S.regions)
    (hc : (S.store.scope r.scope).lifetime ≠ .closed) :
    ∃ b ∈ (S.store.scope r.scope).blocks, b.Encloses r ∧ b ∈ unfreed S.store.events := by
  obtain ⟨hh, hi⟩ := h.of_regions hr
  have halive : S.store.IsAlive r.scope := by
    unfold Store.IsAlive Scope.isAlive
    cases hl : (S.store.scope r.scope).lifetime with
    | live n => rfl
    | closed => exact absurd hl hc
    | reclaimed => exact absurd hl hh.2
  obtain ⟨b, hb, he⟩ := (hi trivial).2 halive
  exact ⟨b, hb, he, h.store.mem_unfreed hb⟩

/-! ### What accesses touch -/

/-- The calls that read or write by regions and lists. -/
def Call.Accesses : Call → Prop
  | .region (.read ..) | .region (.write ..) | .region (.get ..) | .region (.set ..)
  | .region (.getAddress ..) | .region (.setAddress ..) | .region (.copyFrom ..)
  | .region (.fill ..) | .region (.contents ..)
  | .variadic (.read ..) | .variadic (.readSegment ..) => True
  | _ => False

open Turn

theorem RegionCall.touches (h : S.Sound system True G) (c : RegionCall)
    (hc : Call.Accesses (.region c)) : c.perform.Touches ctx S := by
  have haccess : ∀ {α : Type} (name : Name) (x : Region → Operation α) (f : α → Reply),
      (∀ r : Region, r.Inside S.store → (x r).Touches ctx S.store) →
      (do
        let p ← find Session.region? name
        return f (← lift (x p.1)) : Turn Reply).Touches ctx S := by
    intro α name x f hx
    refine touches_find (fun _ => rfl) fun p hp => ?_
    obtain ⟨r, adopted⟩ := p
    exact (touches_lift (hx r ((h.of_region? hp).2 trivial))).seq fun _ _ => touches_pure _
  have hs := h.store
  cases c with
  | read length region offset =>
    exact haccess region (·.read offset length) .bytes fun r hr =>
      Region.touches_read hs hr offset length
  | write region offset bytes =>
    exact haccess region (·.write offset bytes) (fun _ => .done) fun r hr =>
      Region.touches_write hs hr offset bytes
  | get layout offset type region =>
    exact haccess region (·.get type layout offset) .scalar fun r hr =>
      Region.touches_get hs hr type layout offset
  | set layout offset region value =>
    exact haccess region (·.set layout offset value) (fun _ => .done) fun r hr =>
      Region.touches_set hs hr layout offset value
  | getAddress region layout offset =>
    exact haccess region (·.getAddress layout offset) .address fun r hr =>
      Region.touches_getAddress hs hr layout offset
  | setAddress value region layout offset =>
    exact haccess region (·.setAddress layout offset value) (fun _ => .done) fun r hr =>
      Region.touches_setAddress hs hr layout offset value
  | copyFrom region source =>
    refine touches_find (fun _ => rfl) fun p hp => touches_find (fun _ => rfl) fun q hq => ?_
    obtain ⟨r, _⟩ := p
    obtain ⟨src, _⟩ := q
    exact (touches_lift (Region.touches_copyFrom hs ((h.of_region? hp).2 trivial)
      ((h.of_region? hq).2 trivial))).seq fun _ _ => touches_pure _
  | fill region value =>
    exact haccess region (·.fill value) (fun _ => .done) fun r hr =>
      Region.touches_fill hs hr value
  | contents region =>
    refine touches_find (fun _ => rfl) fun p hp => ?_
    obtain ⟨r, _⟩ := p
    refine (touches_lift (Region.touches_contents hs ((h.of_region? hp).2 trivial))).seq
      fun bytes? T => ?_
    cases bytes? with
    | some bytes => exact touches_pure _
    | none => exact touches_throw _
  | _ => exact hc.elim

theorem Session.Sound.list_inside (h : S.Sound system True G) {name : Name} {v : VariadicList}
    (hv : S.list? name = some v) : v.Inside S.store := by
  intro c hc
  have hl := h.of_list? hv
  refine ⟨hl.regions trivial c.remaining ?_, (hl.list v c rfl hc).2 trivial⟩
  exact List.mem_map.mpr ⟨c, Option.mem_toList.mpr hc, rfl⟩

theorem VariadicCall.touches (hsep : system.Separate) (h : S.Sound system True G)
    (hw : ctx.system.Within system) (c : VariadicCall) (hc : Call.Accesses (.variadic c)) :
    c.perform.Touches ctx S := by
  cases c with
  | read layout type list =>
    refine touches_find (fun _ => rfl) fun v hv => ?_
    refine (touches_lift (VariadicList.touches_readAs h.store (h.list_inside hv) layout type)).seq
      fun p T => ?_
    exact (touches_update _ _).seq fun _ _ => touches_pure _
  | readSegment layout list allocator name? =>
    refine touches_claim (fun _ => rfl) fun v hv => touches_find (fun _ => rfl) fun w hn => ?_
    obtain ⟨hk, hrec⟩ := h.of_allocator? hn
    have hrec' : ∀ r₀, w = .recycling r₀ → r₀.Inside S.store := fun r₀ he =>
      (hrec r₀ he).2 trivial
    refine (touches_lift (VariadicList.touches_readSegment hsep h.store h.ledger hw
      (h.list_inside hv) hk hrec' layout)).bind
      (leads_lift (VariadicList.leads_readSegment h.store hw hk layout)) fun p T hT => ?_
    obtain ⟨τ, ⟨⟨ρ, m, hg, rfl⟩, _⟩, rfl⟩ := hT
    have hs := (hg.changes.sound h.store).setMemory m
    have hi : p.1.Inside (ρ.setMemory m) := hg.inside hsep h.store h.ledger hrec'
    refine (touches_update _ _).bind leads_update fun _ T hT => ?_
    subst hT
    refine touches_get (fun _ => rfl) ?_
    refine (touches_lift (Operation.touches_attempt (Region.touches_contents hs hi))).seq
      fun contents T => (touches_keep _ _).seq fun _ U => ?_
    split
    next => exact touches_pure _
    next => exact touches_throw _
    next => exact touches_pure _
  | _ => exact hc.elim

theorem Session.begin_touches (hsep : system.Separate) (h : S.Sound system True G)
    (hw : ctx.system.Within system) (c : Call) (hc : c.Accesses) {m : Memory}
    (hm : S.store.Agrees m) :
    ∃ m', (S.setMemory m).begin ctx c = ((S.begin ctx c).1, (S.begin ctx c).2.setMemory m') ∧
      S.store.Touched (S.begin ctx c).2.store m m' := by
  have ht : c.perform.Touches ctx S := by
    cases c with
    | region c => exact c.touches h hc
    | variadic c => exact c.touches hsep h hw hc
    | _ => exact hc.elim
  unfold Session.begin
  cases hr : c.perform.run ctx S with
  | ok reply T =>
    obtain ⟨m', hm', ht'⟩ := ht.ok m hm reply T hr
    exact ⟨m', by rw [hm']; rfl, ht'⟩
  | error refusal T =>
    obtain ⟨m', hm', ht'⟩ := ht.error m hm refusal T hr
    exact ⟨m', by rw [hm']; rfl, ht'⟩

/-! ### What chores touch -/

/-- As `Store.Touched`, where blocks may have been freed and none was added. -/
structure Store.Cleared (σ τ : Store) (m m' : Memory) : Prop where
  agrees : τ.Agrees m'
  off : ∀ x, ¬ σ.InUse x → m'.byte x = m.byte x

theorem Store.Cleared.same {σ τ : Store} {m : Memory} (hm : τ.memory = σ.memory)
    (he : τ.events = σ.events) (ha : σ.Agrees m) : σ.Cleared τ m m where
  agrees x hx := by
    unfold InUse at hx
    rw [he] at hx
    rw [hm, ha x hx]
  off _ _ := rfl

theorem Store.Touched.cleared {σ τ : Store} {m m' : Memory} (h : σ.Touched τ m m')
    (he : τ.events = σ.events) : σ.Cleared τ m m' where
  agrees := h.agrees
  off x hx := h.off x fun hx' => hx (by
    unfold InUse at hx' ⊢
    rwa [he] at hx')

theorem mem_unfreed_of_freed {blocks : List Block} {past : List HeapEvent} {b : Block}
    (h : b ∈ unfreed (blocks.map .freed ++ past)) : b ∈ unfreed past := by
  induction blocks with
  | nil => exact h
  | cons c blocks ih => exact ih (List.mem_of_mem_erase h)

theorem ScopeId.run_close_setMemory (s : ScopeId) (σ : Store) (m : Memory) :
    (ScopeId.close s).run ctx (σ.setMemory m) =
      match (ScopeId.close s).run ctx σ with
      | .ok held τ => .ok held (τ.setMemory m)
      | .error e τ => .error e (τ.setMemory m) := by
  have hscope : (σ.setMemory m).scope s = σ.scope s := rfl
  cases ho : σ.checkOwner ctx.caller s with
  | error e =>
    have ho' : (σ.setMemory m).checkOwner ctx.caller s = .error e := ho
    simp [ScopeId.close, ho, ho']
  | ok u =>
    have ho' : (σ.setMemory m).checkOwner ctx.caller s = .ok () := ho
    simp only [ScopeId.close, Operation.run_bind, Operation.run_checkOwner, ho, ho',
      Operation.run_require_ok, Operation.run_get, hscope]
    split <;> rfl

/-- An action that runs while a scope ends writes only to blocks in use. -/
theorem CloseAction.unfold_touches (ctx : Context) {σ : Store} {waiting : List Block}
    (hs : σ.Sound system True waiting) {a : CloseAction} (ha : a.Sound σ True) {m : Memory}
    (hm : σ.Agrees m) :
    ∃ m', a.unfold ctx (σ.setMemory m) = ((a.unfold ctx σ).1.setMemory m', (a.unfold ctx σ).2) ∧
      σ.Cleared (a.unfold ctx σ).1 m m' := by
  cases a with
  | say label => exact ⟨m, rfl, .same rfl rfl hm⟩
  | probe label s => exact ⟨m, rfl, .same rfl rfl hm⟩
  | hold label s => exact ⟨m, rfl, .same rfl rfl hm⟩
  | close label s =>
    have hl : (ScopeId.close s).Leads ctx σ (fun _ τ => τ.memory = σ.memory ∧ τ.events = σ.events)
        (fun τ => τ.memory = σ.memory ∧ τ.events = σ.events) := by
      refine (ScopeId.leads_close s).imp (fun held τ h => ?_) fun τ h => by rw [h]; trivial
      obtain ⟨_, _, _, _, rfl⟩ := h
      exact ⟨rfl, rfl⟩
    refine ⟨m, ?_, ?_⟩
    · simp only [CloseAction.unfold, ScopeId.run_close_setMemory]
      cases (ScopeId.close s).run ctx σ <;> rfl
    · simp only [CloseAction.unfold]
      cases hr : (ScopeId.close s).run ctx σ with
      | ok held τ => exact .same (hl.ok hr).1 (hl.ok hr).2 hm
      | error e τ => exact .same (hl.error hr).1 (hl.error hr).2 hm
  | extend label s =>
    cases hu : σ.checkUsable ctx.caller s with
    | error e =>
      have hu' : (σ.setMemory m).checkUsable ctx.caller s = .error e := hu
      refine ⟨m, ?_, ?_⟩
      · simp [CloseAction.unfold, ScopeId.addAction, hu, hu']
      · simp only [CloseAction.unfold, ScopeId.addAction, Operation.run_bind,
          Operation.run_checkUsable, hu, Operation.run_require_error]
        exact .same rfl rfl hm
    | ok u =>
      have hu' : (σ.setMemory m).checkUsable ctx.caller s = .ok () := hu
      refine ⟨m, ?_, ?_⟩
      · simp only [CloseAction.unfold, ScopeId.addAction, Operation.run_bind,
          Operation.run_checkUsable, hu, hu', Operation.run_require_ok, Operation.run_modify]
        rfl
      · simp only [CloseAction.unfold, ScopeId.addAction, Operation.run_bind,
          Operation.run_checkUsable, hu, Operation.run_require_ok, Operation.run_modify]
        exact .same rfl rfl hm
  | fill label r =>
    have ht : (r.fill 0xee).Touches ctx σ := Region.touches_fill hs (ha.region trivial r rfl) 0xee
    have hl : (r.fill 0xee).Leads ctx σ (fun _ τ => τ.events = σ.events)
        (fun τ => τ.events = σ.events) := by
      refine Region.leads_fill.imp (fun _ τ h => ?_) fun τ h => by rw [h]
      obtain ⟨_, rfl⟩ := h
      rfl
    simp only [CloseAction.unfold]
    cases hr : (r.fill 0xee).run ctx σ with
    | ok u τ =>
      obtain ⟨m', hm', ht'⟩ := ht.ok m hm u τ hr
      refine ⟨m', ?_, ht'.cleared (hl.ok hr)⟩
      simp only [hm']
    | error e τ =>
      obtain ⟨m', hm', ht'⟩ := ht.error m hm e τ hr
      refine ⟨m', ?_, ht'.cleared (hl.error hr)⟩
      simp only [hm']

theorem Session.advance_touches (h : S.Sound system True G) {m : Memory}
    (hm : S.store.Agrees m) :
    ∃ m', (S.setMemory m).advance ctx = (S.advance ctx).setMemory m' ∧
      S.store.Cleared (S.advance ctx).store m m' := by
  obtain ⟨σ, handles, chores⟩ := S
  cases chores with
  | nil => exact ⟨m, rfl, .same rfl rfl hm⟩
  | cons c rest =>
    have hc : c.Sound σ True := h.chores c List.mem_cons_self
    have hst : σ.Sound system True (c.blocks ++ rest.flatMap Chore.blocks) := h.store
    cases c with
    | perform p =>
      have hn := Store.later_note σ (.began p.ticket)
      obtain ⟨m', hm', ht⟩ := CloseAction.unfold_touches ctx
        (hst.note (.began p.ticket)) (hc.2.later hn hc.2.target) (m := m) hm
      refine ⟨m', ?_, ht.agrees, ht.off⟩
      unfold Session.advance Chore.step
      dsimp only [Session.setMemory] at hm' ⊢
      rw [show (σ.setMemory m).note (.began p.ticket) = (σ.note (.began p.ticket)).setMemory m
        from rfl, hm']
    | finish ticket => exact ⟨m, rfl, .same rfl rfl hm⟩
    | write text => exact ⟨m, rfl, .same rfl rfl hm⟩
    | letGo s =>
      by_cases hr : (σ.scope s).isAlive = true ∧
          ¬ σ.IsReferred (Session.roots ⟨σ, handles, .letGo s :: rest⟩) rest s
      · refine ⟨m, ?_, ?_⟩
        · unfold Session.advance Chore.step
          dsimp only
          rw [if_pos hr]
          exact congrArg (fun q : Store × List Chore => Session.mk q.1 handles q.2) (if_pos hr)
        · unfold Session.advance Chore.step
          dsimp only
          rw [if_pos hr]
          exact .same rfl rfl hm
      · refine ⟨m, ?_, ?_⟩
        · unfold Session.advance Chore.step
          dsimp only
          rw [if_neg hr]
          exact congrArg (fun q : Store × List Chore => Session.mk q.1 handles q.2) (if_neg hr)
        · unfold Session.advance Chore.step
          dsimp only
          rw [if_neg hr]
          exact .same rfl rfl hm
    | unguard s =>
      refine ⟨m, ?_, ?_⟩
      · unfold Session.advance Chore.step Store.unpin
        dsimp only [Session.setMemory]
        change Session.mk (if (σ.scope s).isAlive = true then _ else _) _ _ = _
        split <;> rfl
      · unfold Session.advance Chore.step Store.unpin
        dsimp only
        split <;> exact .same rfl rfl hm
    | free blocks =>
      refine ⟨m, rfl, fun x hx => hm x ?_, fun _ _ => rfl⟩
      obtain ⟨b, hb, hx⟩ := hx
      exact ⟨b, mem_unfreed_of_freed hb, hx⟩

/-- In every session that a run leads to, a region whose scope has not been closed lies in a block
of that scope, and that block is not freed. So what is read or written, by calls as well as by
actions, are bytes of such blocks and no others. -/
theorem play_contained (hsep : system.Separate) {past : List Move}
    (hw : ∀ m ∈ past, m.Within system) (ha : ∀ m ∈ past, ¬ m.Adopts) :
    (∀ r ∈ (play past).regions, ((play past).store.scope r.scope).lifetime ≠ .closed →
      ∃ b ∈ ((play past).store.scope r.scope).blocks,
        b.Encloses r ∧ b ∈ unfreed (play past).store.events) ∧
    (∀ ctx : Context, ctx.system.Within system → ∀ c : Call, c.Accesses →
      ∀ m, (play past).store.Agrees m → ∃ m',
        ((play past).setMemory m).begin ctx c =
          (((play past).begin ctx c).1, ((play past).begin ctx c).2.setMemory m') ∧
        (play past).store.Touched ((play past).begin ctx c).2.store m m') ∧
    ∀ ctx m, (play past).store.Agrees m → ∃ m',
      ((play past).setMemory m).advance ctx = ((play past).advance ctx).setMemory m' ∧
      (play past).store.Cleared ((play past).advance ctx).store m m' := by
  have hs : (play past).Sound system True _ := play_sound hsep hw fun _ => ha
  exact ⟨fun r hr hc => hs.contained hr hc,
    fun ctx hctx c hc m hm => Session.begin_touches hsep hs hctx c hc hm,
    fun ctx m hm => Session.advance_touches hs hm⟩

/-- Half of a region that an arena hands out, and the same half again as the tail of the whole. -/
def slicingCalls : List (Thread × Call) :=
  [(0, .scope (.create .shared "s")),
    (0, .allocation (.arena "s" (.unbounded 64) {} .confined "a")),
    (1, .allocation (.allocate (.raw 16 8) "a" (some "r"))),
    (2, .region (.slice "r" 8 8 (some "half"))),
    (2, .region (.sliceFrom "half" 8 (some "none")))]

theorem slicingCalls_contained :
    (∀ m ∈ movesOf TwinHeaps.system slicingCalls, m.Within TwinHeaps.system) ∧
    (∀ m ∈ movesOf TwinHeaps.system slicingCalls, ¬ m.Adopts) ∧
    (∃ b ∈ ((play (movesOf TwinHeaps.system slicingCalls)).store.scope 1).blocks,
      b.Encloses ⟨0x20000020, 0, 1⟩ ∧
        b ∈ unfreed (play (movesOf TwinHeaps.system slicingCalls)).store.events) ∧
    ∃ m', ((play (movesOf TwinHeaps.system slicingCalls)).setMemory (Memory.blank.fill 0 1 1)).begin
        ⟨1, TwinHeaps.system⟩ (.region (.fill "half" 7)) =
      (((play (movesOf TwinHeaps.system slicingCalls)).begin
          ⟨1, TwinHeaps.system⟩ (.region (.fill "half" 7))).1,
        ((play (movesOf TwinHeaps.system slicingCalls)).begin
          ⟨1, TwinHeaps.system⟩ (.region (.fill "half" 7))).2.setMemory m') ∧
      m'.byte 0 = 1 := by
  have hw := within_movesOf TwinHeaps.system slicingCalls
  have hn : ∀ p ∈ slicingCalls, ¬ p.2.Adopts := by decide
  have ha := adopts_movesOf TwinHeaps.system hn
  obtain ⟨hr, hc, _⟩ := play_contained TwinHeaps.lawful.separate hw ha
  have hblock : unfreed (play (movesOf TwinHeaps.system slicingCalls)).store.events =
      [⟨0x20000010, 64⟩] := by decide
  have hagrees : (play (movesOf TwinHeaps.system slicingCalls)).store.Agrees
      (Memory.blank.fill 0 1 1) := by
    intro x hx
    obtain ⟨b, hb, hx⟩ := hx
    rw [hblock] at hb
    obtain rfl := List.mem_singleton.mp hb
    have hpos : 0x20000010 ≤ x := hx.1
    rw [Memory.byte_fill_of_not (by omega)]
    change (0 : UInt8) = (Memory.blank.fill 0x20000010 64 0).byte x
    rw [Memory.byte_fill]
    split <;> rfl
  refine ⟨hw, ha, hr ⟨0x20000020, 0, 1⟩ (by decide) (by decide), ?_⟩
  obtain ⟨m', hm', ht⟩ := hc ⟨1, TwinHeaps.system⟩ (.refl _) (.region (.fill "half" 7)) trivial
    _ hagrees
  refine ⟨m', hm', ht.off 0 fun hx => ?_⟩
  obtain ⟨b, hb, hx⟩ := hx
  have hb' : b ∈ unfreed (play (movesOf TwinHeaps.system slicingCalls)).store.events := hb
  rw [hblock] at hb'
  obtain rfl := List.mem_singleton.mp hb'
  exact absurd hx.1 (by decide)

end ScopedMemory