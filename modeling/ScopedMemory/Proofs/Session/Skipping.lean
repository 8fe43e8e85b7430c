import ScopedMemory.Proofs.Session.Twins
import ScopedMemory.Proofs.Variadic.Skipping

namespace ScopedMemory

open Turn

variable {system : SystemAllocator} {strict : Prop} {G : List Region} {S T : Session}
  {ctx : Context} {a b name : Name} {v v' : VariadicList}

/-! ### Calls that leave the store as it is -/

namespace Session

/-- The list is somewhere else, and nothing else has changed. -/
def reread (S : Session) (name : Name) (v : VariadicList) : Session :=
  { S with handles := S.handles.put name (.list v) }

theorem list?_reread (S : Session) (name : Name) (v : VariadicList) :
    (S.reread name v).list? name = some v := by
  refine list?_of_find? ?_
  unfold reread
  rw [HandleTable.find?_put, if_pos rfl]

theorem list?_renamed_of_ne {copy : Name} (hne : copy ≠ name) (hv : S.list? name = some v)
    (h : Handle) : (S.renamed copy h).list? name = some v := by
  refine list?_of_find? ?_
  unfold renamed
  rw [HandleTable.find?_put, if_neg hne.symm]
  exact find?_of_list? hv

theorem list?_kept {name? : Option Name} (hn : name ∉ name?) (hv : S.list? name = some v)
    (h : Handle) : (S.kept name? h).list? name = some v := by
  cases name? with
  | none => exact hv
  | some n => exact list?_renamed_of_ne (fun he : n = name => hn (he ▸ rfl)) hv h

end Session

namespace Turn

variable {α : Type} {x : VariadicList → Operation α} (rest : α → VariadicList) (reply : α → Reply)
  {τ : Store}

theorem run_find_list (hv : S.list? name = some v) :
    (find Session.list? name).run ctx S = .ok v S := by
  unfold find
  rw [run_bind, run_get]
  dsimp only
  rw [hv]
  rfl

theorem run_readOn (hv : S.list? name = some v) {a : α} (hr : (x v).run ctx S.store = .ok a τ) :
    (do
      let a ← lift (x (← find Session.list? name))
      update name (.list (rest a))
      return reply a : Turn Reply).run ctx S =
        .ok (reply a) (Session.reread { S with store := τ } name (rest a)) := by
  rw [run_bind, run_find_list hv]
  dsimp only
  rw [run_bind, run_lift, hr]
  rfl

theorem run_readOn_error (hv : S.list? name = some v) {e : MemoryError}
    (hr : (x v).run ctx S.store = .error e τ) :
    (do
      let a ← lift (x (← find Session.list? name))
      update name (.list (rest a))
      return reply a : Turn Reply).run ctx S = .error (.memory e) { S with store := τ } := by
  rw [run_bind, run_find_list hv]
  dsimp only
  rw [run_bind, run_lift, hr]

end Turn

namespace Session

theorem begin_skip (hv : S.list? name = some v) {ls : List Layout}
    (hr : (v.skip ls).run ctx S.store = .ok v' S.store) :
    S.begin ctx (.variadic (.skip ls name)) = (.ok (.list v'.view), S.reread name v') :=
  begin_of_run_ok (run_readOn id (fun v => .list v.view) hv hr) rfl

/-- A skip that fails leaves everything as it was. -/
theorem begin_skip_error (hv : S.list? name = some v) {ls : List Layout} {r : Refusal}
    (hr : (S.begin ctx (.variadic (.skip ls name))).1 = .error r) :
    (S.begin ctx (.variadic (.skip ls name))).2 = S := by
  have hskip : (v.skip ls).Leads ctx S.store _ _ := VariadicList.leads_skip ls
  cases hrun : (v.skip ls).run ctx S.store with
  | ok v' τ =>
    obtain ⟨_, rfl⟩ := hskip.ok hrun
    rw [begin_skip hv hrun] at hr
    cases hr
  | error e τ =>
    obtain rfl := hskip.error hrun
    have hbegin := begin_of_run_error (S := S) (c := .variadic (.skip ls name))
      (run_readOn_error id (fun v => .list v.view) hv hrun) rfl
    rw [hbegin]

/-- A number or an address that is read moves the list and changes nothing else. -/
theorem of_begin_read (hv : S.list? name = some v) {l : Layout} {type : ArgumentType}
    {reply : Reply} (hr : (S.begin ctx (.variadic (.read l type name))).1 = .ok reply) :
    ∃ v', (v.readAs l type).run ctx S.store = .ok (reply, v') S.store ∧
      (S.begin ctx (.variadic (.read l type name))).2 = S.reread name v' := by
  have hread : (v.readAs l type).Leads ctx S.store _ _ := VariadicList.leads_readAs l type
  cases hrun : (v.readAs l type).run ctx S.store with
  | ok p τ =>
    obtain ⟨rfl, _⟩ := hread.ok hrun
    have hbegin := begin_of_run_ok (S := S) (c := .variadic (.read l type name))
      (run_readOn Prod.snd Prod.fst hv hrun) rfl
    rw [hbegin] at hr ⊢
    cases hr
    exact ⟨p.2, rfl, rfl⟩
  | error e τ =>
    obtain rfl := hread.error hrun
    have hbegin := begin_of_run_error (S := S) (c := .variadic (.read l type name))
      (run_readOn_error Prod.snd Prod.fst hv hrun) rfl
    rw [hbegin] at hr
    cases hr

end Session

/-- The session `T` is left when a struct is read on `S`. It is kept if it is given a name, and the
list is moved. -/
def VariadicCall.Delivers (ctx : Context) (S : Session) (l : Layout) (list allocator : Name)
    (name? : Option Name) (T : Session) : Prop :=
  ∃ v w r rest τ, S.list? list = some v ∧ S.allocator? allocator = some w ∧
    (v.readSegment l w).run ctx S.store = .ok (r, rest) τ ∧
    T = (Session.reread { S with store := τ } list rest).kept name? (.region r false)

theorem VariadicCall.delivers_readSegment (l : Layout) (list allocator : Name)
    (name? : Option Name) :
    (readSegment l list allocator name?).perform.Ends ctx S
      (fun _ T => Delivers ctx S l list allocator name? T)
      fun e T => e = .tooLong → Delivers ctx S l list allocator name? T := by
  refine ends_bind_claim nofun fun v hv => ends_bind_find nofun fun w hw => ?_
  refine Ends.bind (P := fun p T => ∃ τ, (v.readSegment l w).run ctx S.store = .ok p τ ∧
    T = { S with store := τ }) (ends_lift (fun p τ hr => ⟨τ, hr, rfl⟩) nofun) fun p T hT => ?_
  obtain ⟨τ, hr, rfl⟩ := hT
  refine leads_update.ends.bind fun _ U hU => (ends_get (P := fun _ V => V = U) rfl).bind
    fun view V hV => ?_
  rw [hV]
  refine (leads_attempt_contents p.1).ends.bind fun contents V hV => ?_
  rw [hV]
  refine leads_keep.ends.bind fun _ W hW => ?_
  have hend : Delivers ctx S l list allocator name? W := by
    rw [hW, hU]
    exact ⟨v, w, p.1, p.2, τ, hv, hw, hr, rfl⟩
  match contents with
  | .ok (some _) => exact ends_pure hend
  | .ok none => exact ends_throw fun _ => hend
  | .error _ => exact ends_pure hend

/-- The answer tells that the struct has been read. -/
theorem Session.of_begin_readSegment {l : Layout} {list allocator : Name} {name? : Option Name}
    (hr : Reading.succeeded
      (S.begin ctx (.variadic (.readSegment l list allocator name?))).1 = true) :
    ∃ T, VariadicCall.Delivers ctx S l list allocator name? T ∧
      (S.begin ctx (.variadic (.readSegment l list allocator name?))).2 =
        T.release S.store.scopes.length := by
  have hends : (Call.variadic (.readSegment l list allocator name?)).perform.Ends ctx S _ _ :=
    VariadicCall.delivers_readSegment l list allocator name?
  rcases Reading.succeeded_eq_true_iff.mp hr with ⟨reply, hr⟩ | hr
  · obtain ⟨T, hrun, hT⟩ := run_of_begin_ok hr
    exact ⟨T, hends.ok hrun, hT⟩
  · obtain ⟨T, hrun, hT⟩ := run_of_begin_error hr
    exact ⟨T, hends.error hrun rfl, hT⟩

/-! ### Two runs of the same past -/

/-- Readings in turn, each of the list that the one before has left, at any moments after the
past. -/
inductive VariadicList.Reads (system : SystemAllocator) (past : List Move) :
    VariadicList → List Reading → VariadicList → Prop
  | nil (v : VariadicList) : Reads system past v [] v
  | cons {v v' u : VariadicList} {q : Reading} {qs : List Reading} {x : Reading.Shown} {ρ : Store}
    (t : Moment) (ht : t.Within system past)
    (hr : (q.perform v t.allocator).run t.context (t.store past) = .ok (x, v') ρ)
    (h : Reads system past v' qs u) : Reads system past v (q :: qs) u

/-- What the list looks at is the same at both moments. The reader may use the scope at the second
one, and there is room for a struct. -/
structure Reading.Recurs (q : Reading) (v : VariadicList) (past : List Move) (t t' : Moment) :
    Prop where
  undisturbed : q.Undisturbed v (t.store past) (t.store past) (t'.store past) t'.context
    t'.allocator
  there : ∀ l c src, q = .segment l → v.cursor = some c → c.foreign = false →
    (v.structSource l c (v.slot c)).run t.context (t.store past) = .ok src (t.store past) →
      ∃ b ∈ ((t'.store past).scope v.scope).blocks, b.Encloses src

/-- What is read once is read again. -/
theorem Reading.Recurs.run (hlaw : system.Lawful) {past : List Move}
    (hS : (play past).Sound system False G) {q : Reading} {d : Cursor}
    (hd : v.Sits d (play past).store) {t t' : Moment} (ht : t.Within system past)
    (ht' : t'.Within system past) {x : Reading.Shown} {ρ : Store}
    (hr : (q.perform v t.allocator).run t.context (t.store past) = .ok (x, v') ρ)
    (hq : q.Recurs v past t t') :
    ∃ ρ', (q.perform v t'.allocator).run t'.context (t'.store past) = .ok (x, v') ρ' := by
  obtain ⟨_, hT, hlater⟩ := play_follows hlaw.separate hS t.moves ht.moves False.elim
  obtain ⟨_, hT', hlater'⟩ := play_follows hlaw.separate hS t'.moves ht'.moves False.elim
  have hagain := hq.undisturbed.again (hd.later hlater) (hd.later hlater') hlaw hT.store
    ht.context ht.allocator hT'.store ht'.context ht'.allocator hr (fun _ _ => rfl)
    fun hf l src hl hsrc => ?_
  · exact Reading.run_again (hd.later hlater) hlaw hT.store ht.context ht.allocator hT'.store
      hT'.ledger ht'.context ht'.allocator hr hagain
  · obtain ⟨hscope, _, _⟩ := (VariadicList.leads_structSource_shape hd.scope).ok hsrc
    have halive := (Store.checkUsable_eq_ok_iff.mp hq.undisturbed.usable).2
    obtain ⟨b, hb, he⟩ := hq.there l d src hl hd.cursor hf hsrc
    unfold Region.Inside
    rw [hscope]
    exact ⟨Store.lt_length_of_isAlive halive, fun _ => ⟨b, hb, he⟩⟩

/-- However the list has come to be read as far, it stands after all those slots. -/
theorem VariadicList.Reads.sits (hlaw : system.Lawful) {past : List Move}
    (hw : ∀ m ∈ past, m.Within system) {qs : List Reading} {u : VariadicList}
    (h : v.Reads system past qs u) (hqs : ∀ q ∈ qs, q.slots < 0x10000000000000000) {c : Cursor}
    (hv : v.Sits c (play past).store) :
    ∃ d, u.Sits d (play past).store ∧ u = v.after (total Reading.slots qs) ∧
      total Reading.slots qs * v.convention.slotSize.toNat + u.unread = v.unread := by
  induction h generalizing c with
  | nil v =>
    refine ⟨c, hv, v.after_zero.symm, ?_⟩
    rw [total_nil, Nat.zero_mul, Nat.zero_add]
  | @cons v v' u q qs x ρ t ht hr _ ih =>
    have hS : (play past).Sound system False ((handedOut past).map (·.region)) :=
      play_sound hlaw.separate hw False.elim
    obtain ⟨_, _, hlater⟩ := play_follows hlaw.separate hS t.moves ht.moves False.elim
    obtain ⟨rfl, hle⟩ := Reading.slots_of_run (hv.later hlater) hr (hqs q List.mem_cons_self)
    obtain ⟨d, hd, hunread⟩ := hv.after (hqs q List.mem_cons_self) hle
    obtain ⟨e, he, rfl, hrest⟩ := ih (fun q' hq' => hqs q' (List.mem_cons_of_mem _ hq')) hd
    refine ⟨e, he, ?_, ?_⟩
    · rw [VariadicList.after_after]
      rfl
    · rw [hunread] at hrest
      change total Reading.slots qs * v.convention.slotSize.toNat + _ = _ at hrest
      rw [total_cons, Nat.add_mul]
      omega

/-! ### Copies -/

theorem Session.begin_copy (hv : S.list? name = some v) {c : Cursor} (hc : v.cursor = some c)
    (hu : S.store.checkUsable ctx.caller c.remaining.scope = .ok ()) (copy : Name) :
    S.begin ctx (.variadic (.copy name copy)) =
      (.ok (.list v.view), S.renamed copy (.list v)) := by
  have hcopy : v.copy.run ctx S.store = .ok v S.store := by
    unfold VariadicList.copy
    rw [hc]
    simp only [Operation.run_bind, Operation.run_checkUsable, hu, Operation.run_require_ok,
      Operation.run_pure]
  have hkeep : (keepList copy v).Leads ctx S _ _ := leads_keepList
  refine begin_of_run_ok ?_ rfl
  unfold Call.perform VariadicCall.perform
  dsimp only
  rw [run_bind, run_find_list hv]
  dsimp only
  rw [run_bind, run_lift, hcopy]
  dsimp only
  cases hr : (keepList copy v).run ctx S with
  | ok reply T =>
    obtain ⟨rfl, rfl⟩ := hkeep.ok hr
    rfl
  | error e T => exact (hkeep.error hr).elim

/-- Both names mean the list when it has been copied. -/
theorem Session.list?_begin_copy (hv : S.list? name = some v) {c : Cursor} (hc : v.cursor = some c)
    (hu : S.store.checkUsable ctx.caller c.remaining.scope = .ok ()) {copy : Name}
    (hne : copy ≠ name) :
    (S.begin ctx (.variadic (.copy name copy))).2.list? copy = some v ∧
      (S.begin ctx (.variadic (.copy name copy))).2.list? name = some v := by
  rw [begin_copy hv hc hu]
  exact ⟨list?_renamed _ _ _, list?_renamed_of_ne hne hv _⟩

/-- Two names of one list are twins. -/
theorem Session.twins_self (hs : S.handles.Sorted) (ha : S.list? a = some v)
    (hb : S.list? b = some v) : S.Twins a b S where
  store := rfl
  chores := rfl
  first := (find?_of_list? hb).trans (find?_of_list? ha).symm
  second := (find?_of_list? ha).trans (find?_of_list? hb).symm
  rest _ _ _ := rfl
  sorted := ⟨hs, hs⟩

/-! ### Runs -/

/-- Skips can take the place of readings of the list, and copies that of the list. -/
structure VariadicList.Interchangeable (system : SystemAllocator) (past : List Move) (name : Name)
    (v : VariadicList) (ctx : Context) : Prop where
  /-- So many layouts can be skipped as there are slots left. -/
  count {ls : List Layout} (h : ls.length < 0x10000000000000000) {v' : VariadicList} {ρ : Store} :
    (v.skip ls).run ctx (play past).store = .ok v' ρ ↔
      ls.length * v.convention.slotSize.toNat ≤ v.unread ∧ v' = v.after ls.length ∧
        ρ = (play past).store
  append {xs ys : List Layout} (h : (xs ++ ys).length < 0x10000000000000000) {v' : VariadicList}
    {ρ : Store} :
    (v.skip (xs ++ ys)).run ctx (play past).store = .ok v' ρ ↔
      (do (← v.skip xs).skip ys : Operation VariadicList).run ctx (play past).store = .ok v' ρ
  failed {ls : List Layout} {r : Refusal}
    (hr : ((play past).begin ctx (.variadic (.skip ls name))).1 = .error r) :
    play (.call ctx (.variadic (.skip ls name)) :: past) = play past
  /-- Nothing tells whether a number or an address has been read or skipped. -/
  number {l l' : Layout} {type : ArgumentType} {reply : Reply}
    (hr : ((play past).begin ctx (.variadic (.read l type name))).1 = .ok reply) :
    play (.call ctx (.variadic (.skip [l'] name)) :: past) =
      play (.call ctx (.variadic (.read l type name)) :: past)
  /-- Of a struct that has been read there is the copy, and what came into use for it. -/
  struct {l l' : Layout} {allocator : Name} {name? : Option Name}
    (hr : Reading.succeeded
      ((play past).begin ctx (.variadic (.readSegment l name allocator name?))).1 = true) :
    ∃ w r rest τ, (play past).allocator? allocator = some w ∧
      (v.readSegment l w).run ctx (play past).store = .ok (r, rest) τ ∧
      (play (.call ctx (.variadic (.readSegment l name allocator name?)) :: past)).store = τ ∧
      (play (.call ctx (.variadic (.skip [l'] name)) :: past)).store = (play past).store ∧
      (play (.call ctx (.variadic (.skip [l'] name)) :: past)).list? name = some rest ∧
      (name ∉ name? → (play (.call ctx (.variadic (.readSegment l name allocator name?)) ::
        past)).list? name = some rest) ∧
      ∀ x, τ.memory.byte x ≠ (play past).store.memory.byte x →
        r.Has x ∨ ¬ (play past).store.InUse x ∧ τ.InUse x
  /-- A list is left in the same place by readings and by skips, and shows the same then. -/
  resumed {qs : List Reading} {u : VariadicList} (h : v.Reads system past qs u)
    (hqs : ∀ q ∈ qs, q.slots < 0x10000000000000000) :
    u = v.after (total Reading.slots qs) ∧
      (∀ ls : List Layout, ls.length = total Reading.slots qs →
        ls.length < 0x10000000000000000 → ∀ t : Moment, t.Within system past →
          (t.store past).checkUsable t.context.caller v.scope = .ok () →
          (v.skip ls).run t.context (t.store past) = .ok u (t.store past)) ∧
      ∀ (q : Reading) (t t' : Moment) x u' ρ, t.Within system past → t'.Within system past →
        (q.perform u t.allocator).run t.context (t.store past) = .ok (x, u') ρ →
        q.Recurs u past t t' →
        ∃ ρ', (q.perform u t'.allocator).run t'.context (t'.store past) = .ok (x, u') ρ'
  copied {copy : Name} (hne : copy ≠ name) :
    (play (.call ctx (.variadic (.copy name copy)) :: past)).list? copy = some v ∧
      (play (.call ctx (.variadic (.copy name copy)) :: past)).list? name = some v ∧
      ∀ moves : List Move, (∀ m ∈ moves, m.Uses copy name) →
        answers (.call ctx (.variadic (.copy name copy)) :: past) (moves.map (Move.onto name)) =
          answers (.call ctx (.variadic (.copy name copy)) :: past) moves ∧
        (play (moves.map (Move.onto name) ++
            .call ctx (.variadic (.copy name copy)) :: past)).list? name =
          (play (moves ++ .call ctx (.variadic (.copy name copy)) :: past)).list? copy ∧
        (play (moves ++ .call ctx (.variadic (.copy name copy)) :: past)).list? name = some v
  apart {c : VariadicCall} (hc : c.Consults name) {other : Name} (hne : other ≠ name)
    (hother : other ∉ c.others) (ctx' : Context) :
    (play (.call ctx' (.variadic c) :: past)).list? other = (play past).list? other

theorem play_interchangeable (hlaw : system.Lawful) {past : List Move}
    (hw : ∀ m ∈ past, m.Within system) (hctx : ctx.system.Within system)
    (hv : (play past).list? name = some v) (hc : v.cursor ≠ none)
    (hu : (play past).store.checkUsable ctx.caller v.scope = .ok ()) :
    v.Interchangeable system past name ctx := by
  have hS : (play past).Sound system False ((handedOut past).map (·.region)) :=
    play_sound hlaw.separate hw False.elim
  obtain ⟨c, hc⟩ := Option.ne_none_iff_exists'.mp hc
  have hsits : v.Sits c (play past).store :=
    hS.sits (play_tracks hlaw hw) (play_housed hlaw.separate hw) hv hc
  have hcopyUsable : (play past).store.checkUsable ctx.caller c.remaining.scope = .ok () :=
    hsits.scope.symm ▸ hu
  have hskip : ∀ {q : Reading} {w : Allocator} {x : Reading.Shown} {v' : VariadicList} {ρ : Store},
      (q.perform v w).run ctx (play past).store = .ok (x, v') ρ → ∀ ls : List Layout,
        ls.length = q.slots → play (.call ctx (.variadic (.skip ls name)) :: past) =
          (play past).reread name v' := fun hr ls hlen =>
    congrArg Prod.snd (Session.begin_skip hv (Reading.skip_of_run hsits hr hlen hu))
  refine ⟨fun {ls} h {v' ρ} => ?_, fun h => hsits.run_skip_append h,
    fun hr => Session.begin_skip_error hv hr, fun {l l' type reply} hr => ?_,
    fun {l l' allocator name?} hr => ?_, fun {qs u} h hqs => ?_, fun {copy} hne => ?_,
    fun {c} hc {other} hne hother ctx' => ?_⟩
  · rw [hsits.run_skip_iff h]
    exact and_iff_right hu
  · obtain ⟨v', hrun, hsession⟩ := Session.of_begin_read hv hr
    exact (hskip (Reading.run_value (w := .direct 0) hrun) [l'] rfl).trans hsession.symm
  · obtain ⟨T, ⟨v', w, r, rest, τ, hv', hw', hrun, rfl⟩, hbegin⟩ := Session.of_begin_readSegment hr
    obtain rfl := Option.some.inj (hv.symm.trans hv')
    have hplay := congrArg Session.store hbegin
    have hskipped := hskip (Reading.run_segment hrun) [l'] rfl
    have hstore := congrArg Session.store hskipped
    refine ⟨w, r, rest, τ, hw', hrun, hplay.trans (Session.store_kept _ _ _),
      hstore, ?_, fun hn => ?_, fun x hx => ?_⟩
    · rw [hskipped]
      exact Session.list?_reread _ _ _
    · change ((play past).begin ctx _).2.list? name = _
      rw [hbegin]
      exact Session.list?_kept hn (Session.list?_reread _ _ _) _
    · exact hsits.bytes_readSegment hlaw hS.store hctx (hS.of_allocator? hw').1 hrun hx
  · obtain ⟨d, hd, rfl, hleft⟩ := h.sits hlaw hw hqs hsits
    refine ⟨rfl, fun ls hlen hlt t ht hut => ?_, fun q t t' x u' ρ ht ht' hr hq => ?_⟩
    · obtain ⟨_, _, hlater⟩ := play_follows hlaw.separate hS t.moves ht.moves False.elim
      refine ((hsits.later hlater).run_skip_iff hlt).mpr ⟨hut, ?_, hlen ▸ rfl, rfl⟩
      rw [hlen]
      exact Nat.le_of_add_right_le (Nat.le_of_eq hleft)
    · exact hq.run hlaw hS hd ht ht' hr
  · obtain ⟨hcopy, hname⟩ := Session.list?_begin_copy hv hc hcopyUsable hne
    refine ⟨hcopy, hname, fun moves hm => ?_⟩
    have hself := Session.twins_self
      (play_tidied (.call ctx (.variadic (.copy name copy)) :: past)).sorted hcopy hname
    obtain ⟨hanswers, htwins⟩ := twins_play hne hself hm
    exact ⟨hanswers, htwins.list?, (play_uses hne _ hm).trans hname⟩
  · exact Session.list?_congr (c.sameBut hc other fun hmem => (List.mem_cons.mp hmem).elim hne
      hother)

/-- The list stands before its first slot. -/
def arrivingMoves : List Move :=
  movesOf TwinHeaps.system (pushingCalls ++ [(0, .variadic (.build "b" "v"))])

def arrivedList : VariadicList := ⟨.win64, 1, some ⟨0x20000030, ⟨0x20000030, 24, 1⟩, false⟩⟩

theorem arriving_interchangeable :
    (∀ m ∈ arrivingMoves, m.Within TwinHeaps.system) ∧
    (play arrivingMoves).list? "v" = some arrivedList ∧
    (arrivedList.skip [.cInt, .cInt, .cInt]).run ⟨1, TwinHeaps.system⟩
      (play arrivingMoves).store = .ok (arrivedList.after 3) (play arrivingMoves).store ∧
    play (.call ⟨1, TwinHeaps.system⟩ (.variadic (.skip [.cChar] "v")) :: arrivingMoves) =
      play (.call ⟨1, TwinHeaps.system⟩ (.variadic (.read .cInt .int "v")) :: arrivingMoves) ∧
    answers (.call ⟨1, TwinHeaps.system⟩ (.variadic (.copy "v" "w")) :: arrivingMoves)
        [.call ⟨0, TwinHeaps.system⟩ (.variadic (.read .cInt .int "v"))] =
      answers (.call ⟨1, TwinHeaps.system⟩ (.variadic (.copy "v" "w")) :: arrivingMoves)
        [.call ⟨0, TwinHeaps.system⟩ (.variadic (.read .cInt .int "w"))] := by
  have hw : ∀ m ∈ arrivingMoves, m.Within TwinHeaps.system := within_movesOf TwinHeaps.system _
  have hv : (play arrivingMoves).list? "v" = some arrivedList := rfl
  have hctx : Context.system ⟨1, TwinHeaps.system⟩ |>.Within TwinHeaps.system := .refl _
  have h := play_interchangeable TwinHeaps.lawful hw hctx hv nofun rfl
  have hunread : arrivedList.unread = 24 := rfl
  have hslot : arrivedList.convention.slotSize.toNat = 8 := rfl
  have hread : ((play arrivingMoves).begin ⟨1, TwinHeaps.system⟩
      (.variadic (.read .cInt .int "v"))).1 = .ok (.scalar ⟨.i32, 7⟩) := rfl
  have hcopied := (h.copied (show "w" ≠ "v" by decide)).2.2
    [.call ⟨0, TwinHeaps.system⟩ (.variadic (.read .cInt .int "w"))] fun m hm => by
      rw [List.mem_singleton.mp hm]
      exact ⟨Or.inl ⟨_, rfl⟩, List.not_mem_nil, List.not_mem_nil⟩
  refine ⟨hw, hv, (h.count (by decide)).mpr ⟨?_, rfl, rfl⟩, h.number hread, hcopied.1⟩
  rw [hunread, hslot]
  decide

/-- Two structs are passed by reference, and the arena has room for one of them. -/
def tightMoves : List Move := movesOf TwinHeaps.system
  [(0, .scope (.create .shared "s")),
    (0, .scope (.allocateNative 12 4 "s" (some "large"))),
    (0, .variadic (.builder "s" .win64 "b")),
    (0, .variadic (.push largeStruct (.segment "large") "b")),
    (0, .variadic (.push largeStruct (.segment "large") "b")),
    (0, .variadic (.build "b" "v")),
    (0, .allocation (.arena "s" (.bounded 12) {} .confined "a"))]

/-- The struct can be read into the slot of the number that comes after it. -/
def overlappingMoves : List Move := movesOf TwinHeaps.system
  [(0, .scope (.create .shared "s")),
    (0, .scope (.allocateNative 12 4 "s" (some "large"))),
    (0, .region (.fill "large" 1)),
    (0, .variadic (.builder "s" .win64 "b")),
    (0, .variadic (.push largeStruct (.segment "large") "b")),
    (0, .variadic (.push .cInt (.int 7) "b")),
    (0, .variadic (.build "b" "v")),
    (0, .region (.adopt 0x20000018 12 "s" (some "over"))),
    (0, .allocation (.recycling "over" "a"))]

def structCall : Call := .variadic (.readSegment largeStruct "v" "a" none)

def skipCall : Call := .variadic (.skip [largeStruct] "v")

def numberCall : Call := .variadic (.read .cInt .int "v")

/-- If the first struct is skipped and not read, the second read is not refused for want of room in
the one run, and gives the number that was pushed in the other. -/
theorem structCall_not_skipCall :
    Reading.succeeded ((play tightMoves).begin ⟨0, TwinHeaps.system⟩ structCall).1 = true ∧
    ((play (.call ⟨0, TwinHeaps.system⟩ structCall :: tightMoves)).begin ⟨0, TwinHeaps.system⟩
      structCall).1 = .error (.memory (.outOfMemory 12 0)) ∧
    Reading.succeeded ((play (.call ⟨0, TwinHeaps.system⟩ skipCall :: tightMoves)).begin
      ⟨0, TwinHeaps.system⟩ structCall).1 = true ∧
    Reading.succeeded ((play overlappingMoves).begin ⟨0, TwinHeaps.system⟩ structCall).1 = true ∧
    ((play (.call ⟨0, TwinHeaps.system⟩ structCall :: overlappingMoves)).begin
      ⟨0, TwinHeaps.system⟩ numberCall).1 = .ok (.scalar ⟨.i32, 16843009⟩) ∧
    ((play (.call ⟨0, TwinHeaps.system⟩ skipCall :: overlappingMoves)).begin
      ⟨0, TwinHeaps.system⟩ numberCall).1 = .ok (.scalar ⟨.i32, 7⟩) :=
  ⟨rfl, rfl, rfl, rfl, rfl, rfl⟩

end ScopedMemory
