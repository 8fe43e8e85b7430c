import ScopedMemory.Proofs.Arrays.Allocations
import ScopedMemory.Proofs.Arrays.Frame
import ScopedMemory.Proofs.Arrays.Regions

namespace ScopedMemory

open Turn

variable {system : SystemAllocator} {strict : Prop} {G : List Region} {A : ArrayStore}
  {S : Session} {ctx : Context}

theorem Session.Mirrors.setChores (h : S.Mirrors G A) {chores : List Chore}
    (hc : ∀ c ∈ chores, c.Mirrors G A) : Session.Mirrors { S with chores } G A :=
  ⟨h.store, h.named, h.actions, hc⟩

theorem Chore.targets_replay (ctx : Context) (σ : Store) (A : ArrayStore) (c : Chore) :
    (c.replay ctx σ A).targets = A.targets := by
  unfold Chore.replay
  split
  next => split <;> rfl
  next => rfl

theorem Chore.Mirrors.of_targets {B : ArrayStore} (ht : B.targets = A.targets) {c : Chore}
    (h : c.Mirrors G A) : c.Mirrors G B := by
  cases c with
  | perform p =>
    intro r hr
    rw [ht]
    exact h r hr
  | _ => trivial

theorem Chore.mirrors_tail (text : String) (s : ScopeId) :
    ∀ c ∈ [Chore.write text, .letGo s], c.Mirrors G A := by
  intro c hc
  rcases List.mem_cons.mp hc with rfl | hc
  · trivial
  · obtain rfl := List.mem_singleton.mp hc
    trivial

/-- An action that fills a region writes to the array that the region is a part of. -/
theorem Session.Mirrors.unfold_fill (ctx : Context) (h : S.Mirrors G A)
    (hS : S.Sound system strict G) {ticket : Nat} {label : String} {r : Region}
    (hp : PendingAction.Mirrors ⟨ticket, .fill label r⟩ G A) {σ : Store}
    (hσ : S.store = σ.note (.began ticket)) :
    Session.Mirrors { S with store := ((CloseAction.fill label r).unfold ctx S.store).1 } G
        (Chore.replay ctx σ A (.perform ⟨ticket, .fill label r⟩)) ∧
      ∀ c ∈ ((CloseAction.fill label r).unfold ctx S.store).2,
        c.Mirrors G (Chore.replay ctx σ A (.perform ⟨ticket, .fill label r⟩)) := by
  have hf : (r.fill 0xee).Leads ctx S.store _ _ := Region.leads_fill.value
  simp only [CloseAction.unfold]
  cases hr : (r.fill 0xee).run ctx S.store with
  | error e τ =>
    obtain ⟨hv, rfl⟩ := hf.error hr
    rw [hσ] at hv
    have hA : Chore.replay ctx σ A (.perform ⟨ticket, .fill label r⟩) = A := by
      simp only [Chore.replay, hv]
    rw [hA]
    exact ⟨h, Chore.mirrors_tail _ _⟩
  | ok u τ =>
    obtain ⟨hv, hc, rfl⟩ := hf.ok hr
    obtain ⟨v, hvt, hd⟩ := hp r rfl
    dsimp only at hvt
    rw [hσ] at hv
    have hA : Chore.replay ctx σ A (.perform ⟨ticket, .fill label r⟩) =
        A.write v 0 (.replicate v.length 0xee) := by
      simp only [Chore.replay, hv, hvt]
    rw [hA]
    exact ⟨h.fill hS.ledger hd (Store.alive_of_checkAccess hc).1 0xee, Chore.mirrors_tail _ _⟩

/-- What an action does is what its replay does, and what it has still to do keeps its parts. -/
theorem Session.Mirrors.unfold (ctx : Context) (h : S.Mirrors G A) (hS : S.Sound system strict G)
    {p : PendingAction} (hp : p.Mirrors G A) {σ : Store}
    (hσ : S.store = σ.note (.began p.ticket)) :
    Session.Mirrors { S with store := (p.action.unfold ctx S.store).1 } G
        (Chore.replay ctx σ A (.perform p)) ∧
      ∀ c ∈ (p.action.unfold ctx S.store).2, c.Mirrors G (Chore.replay ctx σ A (.perform p)) := by
  obtain ⟨ticket, a⟩ := p
  cases a with
  | say label =>
    refine ⟨h, fun c hc => ?_⟩
    obtain rfl := List.mem_singleton.mp hc
    trivial
  | probe label s => exact ⟨h, Chore.mirrors_tail _ s⟩
  | hold label s =>
    refine ⟨h, fun c hc => ?_⟩
    simp only [CloseAction.unfold, List.mem_cons, List.not_mem_nil, or_false] at hc
    rcases hc with rfl | rfl | rfl <;> trivial
  | close label s =>
    have hc : (ScopeId.close s).Leads ctx S.store _ _ := ScopeId.leads_close s
    simp only [CloseAction.unfold]
    cases hr : (ScopeId.close s).run ctx S.store with
    | error e τ =>
      obtain rfl := hc.error hr
      exact ⟨h, Chore.mirrors_tail _ s⟩
    | ok held τ =>
      obtain ⟨_, _, _, rfl, rfl⟩ := hc.ok hr
      have hne : ∀ n, Lifetime.closed ≠ .live n := fun _ => Lifetime.noConfusion
      obtain ⟨hend, hheld⟩ := h.endScope hS s hne
      refine ⟨hend, fun c hc => ?_⟩
      exact (List.mem_append.mp hc).elim (hheld c) (Chore.mirrors_tail _ s c)
  | extend label s =>
    have hadd : (ScopeId.addAction s (.say (label ++ "\x27"))).Leads ctx S.store _ _ :=
      ScopeId.leads_addAction s _
    simp only [CloseAction.unfold]
    cases hr : (ScopeId.addAction s (.say (label ++ "\x27"))).run ctx S.store with
    | error e τ =>
      obtain rfl := hadd.error hr
      exact ⟨h, Chore.mirrors_tail _ s⟩
    | ok u τ =>
      obtain ⟨_, rfl⟩ := hadd.ok hr
      exact ⟨h.addOther hS rfl, Chore.mirrors_tail _ s⟩
  | fill label r => exact h.unfold_fill ctx hS hp hσ

theorem Session.Mirrors.advance (h : S.Mirrors G A) (hS : S.Sound system strict G)
    (ctx : Context) : (S.advance ctx).Mirrors G (A.move S (.chore ctx)) := by
  obtain ⟨σ, handles, chores⟩ := S
  cases chores with
  | nil => exact h
  | cons c rest =>
    have hrest : ∀ c' ∈ rest, c'.Mirrors G A := fun c' hc' =>
      h.chores c' (List.mem_cons_of_mem _ hc')
    have hnote : ∀ e, Session.Mirrors ⟨σ.note e, handles, c :: rest⟩ G A := fun e =>
      h.later hS (Store.later_note σ e) rfl rfl fun _ _ hp => hp
    cases c with
    | perform p =>
      have hN : Session.Sound system strict G
          ⟨σ.note (.began p.ticket), handles, .perform p :: rest⟩ :=
        hS.setStore (hS.store.note _)
          (hS.ledger.of_arenas hS.store (Store.later_note σ _) rfl)
          (Store.later_note σ _) fun _ h => h
      have hp : p.Mirrors G A := h.chores _ List.mem_cons_self
      obtain ⟨hu, hmore⟩ := (hnote (.began p.ticket)).unfold ctx hN hp rfl
      refine hu.setChores fun c hc => ?_
      rcases List.mem_append.mp hc with hc | hc
      · exact hmore c hc
      · rcases List.mem_cons.mp hc with rfl | hc
        · trivial
        · exact (hrest c hc).of_targets (Chore.targets_replay ctx σ A _)
    | finish ticket => exact (hnote _).setChores hrest
    | write text => exact (hnote _).setChores hrest
    | letGo s =>
      unfold Session.advance Chore.step
      dsimp only
      have hne : ∀ n, Lifetime.reclaimed ≠ .live n := fun _ => Lifetime.noConfusion
      split
      next =>
        obtain ⟨hend, hheld⟩ := h.endScope hS s hne
        exact hend.setChores fun c hc => (List.mem_append.mp hc).elim (hheld c) (hrest c)
      next => exact h.setChores hrest
    | unguard s =>
      unfold Session.advance Chore.step Store.unpin
      dsimp only
      split
      next ha =>
        have hset := h.later hS (Store.later_setLive σ (σ.guards s - 1) ha) rfl rfl fun t p hp => by
          rw [Store.scope_setLifetime] at hp
          split at hp
          next he => exact he.1 ▸ hp
          next => exact hp
        exact hset.setChores hrest
      next => exact h.setChores hrest
    | free blocks =>
      exact (h.later hS (Store.later_freeBlocks σ blocks) rfl rfl fun _ _ hp => hp).setChores hrest

theorem Call.replays (hsep : system.Separate) (h : S.Mirrors G A) (hS : S.Sound system strict G)
    (hw : ctx.system.Within system) {c : Call} (hp : c.Plain) : c.Replays ctx S G A := by
  cases c with
  | handle c => exact c.replays h
  | scope c => exact c.replays hsep h hS hw hp
  | region c => exact c.replays h hS hp
  | allocation c => exact c.replays hsep h hS hw
  | variadic c => exact hp.elim

theorem Session.Mirrors.begin (hsep : system.Separate) (h : S.Mirrors G A)
    (hS : S.Sound system strict G) (hw : ctx.system.Within system) {c : Call} (hp : c.Plain) :
    (S.begin ctx c).2.Mirrors (G ++ (c.grants ctx S).map (·.region))
      (c.replay S.store.tickets A (S.begin ctx c).1) := by
  have hc := Call.replays hsep h hS hw hp
  unfold Session.begin
  cases hr : c.perform.run ctx S with
  | ok reply T => exact (hc.ok hr).release _
  | error e T => exact (hc.error hr e).release _

/-- The sessions that a run leads to are as the arrays of the run say. -/
theorem play_mirrors (hsep : system.Separate) {past : List Move}
    (hw : ∀ m ∈ past, m.Within system) (hp : ∀ m ∈ past, m.Plain) :
    (play past).Mirrors ((handedOut past).map (·.region)) (arraysOf past) := by
  induction past with
  | nil => exact Session.mirrors_initial
  | cons m past ih =>
    have hw' : ∀ m' ∈ past, m'.Within system := fun m' hm => hw m' (List.mem_cons_of_mem m hm)
    have hpast := ih hw' fun m' hm => hp m' (List.mem_cons_of_mem m hm)
    have hS : (play past).Sound system False _ := play_sound hsep hw' False.elim
    rw [handedOut, List.map_append]
    cases m with
    | call ctx c => exact hpast.begin hsep hS (hw _ List.mem_cons_self) (hp _ List.mem_cons_self)
    | chore ctx =>
      have hc := hpast.advance hS ctx
      simp only [Move.grants, List.map_nil, List.append_nil]
      exact hc

/-! ### New regions -/

/-- The call allocates without saying what new regions begin with. -/
def Call.Blank : Call → Prop
  | .scope (.allocateNative ..) | .allocation (.allocateParallel ..) => True
  | .allocation (.allocate q _ _) => q.initial = .ok []
  | _ => False

theorem Call.replay_blank {c : Call} (hc : c.Blank) (ticket : Nat) (A : ArrayStore)
    (outcome : Except Refusal Reply) :
    ∃ sizes : List Nat,
      (c.replay ticket A outcome).arrays = A.arrays ++ sizes.map Bytes.zeros := by
  have hsame : ∃ sizes : List Nat, A.arrays = A.arrays ++ sizes.map Bytes.zeros :=
    ⟨[], (List.append_nil _).symm⟩
  cases outcome with
  | error e =>
    cases c with
    | handle c => exact hc.elim
    | _ => exact hsame
  | ok reply =>
    cases c with
    | scope c =>
      cases c with
      | allocateNative size align scope name? =>
        exact ⟨[size.toNat], ArrayStore.arrays_allocate_nil A _ _⟩
      | _ => exact hc.elim
    | allocation c =>
      cases c with
      | allocate q allocator name? =>
        have hq : q.initial = .ok [] := hc
        simp only [Call.replay, AllocationCall.replay, hq]
        split
        next size align bytes _ hb =>
          cases hb
          split
          next v hv =>
            rw [ArrayStore.arrays_keep, ArrayStore.arrays_write_nil]
            exact hsame
          next => exact ⟨[size.toNat], ArrayStore.arrays_allocate_nil A _ _⟩
        next => exact hsame
      | allocateParallel target size align threads count =>
        simp only [Call.replay, AllocationCall.replay]
        split
        next count => exact ⟨_, rfl⟩
        next => exact hsame
      | _ => exact hc.elim
    | _ => exact hc.elim

theorem Session.Mirrors.blank (hsep : system.Separate) (h : S.Mirrors G A)
    (hS : S.Sound system strict G) (hw : ctx.system.Within system) {c : Call} (hp : c.Plain)
    (hc : c.Blank) : ∀ g ∈ c.grants ctx S,
      (S.begin ctx c).2.store.memory.read g.region.start.toNat g.region.size.toNat =
        .zeros g.region.size.toNat := by
  intro g hg
  have ha := ((Session.comes_begin hsep hS hw c fun _ => hp.not_adopts).met g hg).alive
  have hT := (h.begin hsep hS hw hp).store
  obtain ⟨sizes, hs⟩ := Call.replay_blank hc S.store.tickets A (S.begin ctx c).1
  obtain ⟨i, hi⟩ := List.getElem?_of_mem (List.mem_map_of_mem (f := (·.region)) hg)
  have hGi : (G ++ (c.grants ctx S).map (·.region))[A.arrays.length + i]? = some g.region := by
    have hlen := h.store.length
    rw [hlen, List.getElem?_append_right (Nat.le_add_right _ _), Nat.add_sub_cancel_left, hi]
  obtain ⟨cells, hcells, hsize, hread⟩ := hT.cells _ _ hGi
  have hz : cells = .zeros g.region.size.toNat := by
    rw [hs, List.getElem?_append_right (Nat.le_add_right _ _), Nat.add_sub_cancel_left,
      List.getElem?_map] at hcells
    obtain ⟨n, _, rfl⟩ := Option.map_eq_some_iff.mp hcells
    have hn : (Bytes.zeros n).length = n := List.length_replicate
    rw [← hsize, hn]
  rw [hread ha, hz]

/-! ### Runs on arrays -/

theorem RegionCall.expected_of_begin (h : S.Mirrors G A) {c : RegionCall} (hc : c.Reads)
    {reply : Reply} (hr : (S.begin ctx (.region c)).1 = .ok reply) :
    c.expected A = some reply := by
  have hl : c.perform.Leads ctx S _ _ := RegionCall.answers h c hc
  obtain ⟨T, hrun, _⟩ := Session.run_of_begin_ok hr
  exact hl.ok hrun

/-- In a run without regions made of addresses each region handed out is an array of its own, and a
call that reads is answered with what the arrays hold. Regions asked for without contents hold zeros
when they are handed out, and a move changes no array but the one that it writes to. -/
theorem play_refines (hsep : system.Separate) {past : List Move}
    (hw : ∀ m ∈ past, m.Within system) (hp : ∀ m ∈ past, m.Plain) :
    (arraysOf past).arrays.map List.length = (handedOut past).map (·.region.size.toNat) ∧
    (∀ (ctx : Context) (c : RegionCall), c.Reads → ∀ reply,
      ((play past).begin ctx (.region c)).1 = .ok reply →
        c.expected (arraysOf past) = some reply) ∧
    (∀ ctx : Context, ctx.system.Within system → ∀ c : Call, c.Plain → c.Blank →
      ∀ g ∈ c.grants ctx (play past),
        ((play past).begin ctx c).2.store.memory.read g.region.start.toNat
          g.region.size.toNat = .zeros g.region.size.toNat) ∧
    ∀ (m : Move) (w : View), w.array < (arraysOf past).arrays.length →
      (∀ v, m.target? (play past) (arraysOf past) = some v → v.array ≠ w.array) →
        (arraysOf (m :: past)).contents w = (arraysOf past).contents w := by
  have hS : (play past).Sound system False ((handedOut past).map (·.region)) :=
    play_sound hsep hw False.elim
  have h := play_mirrors hsep hw hp
  refine ⟨?_, fun ctx c hc reply hr => ?_, fun ctx hctx c hc hb => ?_, fun m w hlt hm => ?_⟩
  · refine List.ext_getElem? fun i => ?_
    rw [List.getElem?_map, List.getElem?_map]
    have hlen := h.store.length
    rw [List.length_map] at hlen
    cases hg : (handedOut past)[i]? with
    | none =>
      have hge := List.getElem?_eq_none_iff.mp hg
      rw [← hlen] at hge
      rw [List.getElem?_eq_none hge]
      rfl
    | some g =>
      have hi : ((handedOut past).map (·.region))[i]? = some g.region := by
        rw [List.getElem?_map, hg]
        rfl
      obtain ⟨cells, hcells, hsize, _⟩ := h.store.cells i _ hi
      rw [hcells, Option.map_some, Option.map_some, hsize]
  · exact RegionCall.expected_of_begin h hc hr
  · exact h.blank hsep hS hctx hc hb
  · exact ArrayStore.contents_move hlt m hm

/-- Two allocations, the first of which is also written to by a slice and read by its prefix. -/
def copyingCalls : List (Thread × Call) :=
  [(0, .scope (.create .shared "s")),
    (0, .allocation (.arena "s" (.unbounded 64) {} .shared "a")),
    (0, .allocation (.allocate (.raw 8 1) "a" (some "r"))),
    (1, .region (.write "r" 2 [1, 2, 3])),
    (0, .region (.slice "r" 3 4 (some "p"))),
    (1, .region (.fill "p" 9)),
    (0, .allocation (.recycling "r" "w")),
    (0, .allocation (.allocate (.raw 4 1) "w" (some "t"))),
    (0, .scope (.allocateNative 6 2 "s" (some "q"))),
    (1, .region (.copyFrom "q" "t"))]

theorem copyingCalls_refine :
    (∀ m ∈ movesOf TwinHeaps.system copyingCalls, m.Within TwinHeaps.system) ∧
    (∀ m ∈ movesOf TwinHeaps.system copyingCalls, m.Plain) ∧
    (arraysOf (movesOf TwinHeaps.system copyingCalls)).arrays =
      [[0, 0, 1, 9, 9, 9, 9, 0], [0, 0, 1, 9, 0, 0]] ∧
    (RegionCall.read 4 "q" 1).expected (arraysOf (movesOf TwinHeaps.system copyingCalls)) =
      some (.bytes [0, 1, 9, 0]) := by
  have hw := within_movesOf TwinHeaps.system copyingCalls
  have hp := plain_movesOf TwinHeaps.system (show ∀ p ∈ copyingCalls, p.2.Plain by decide)
  refine ⟨hw, hp, by decide, ?_⟩
  obtain ⟨_, hr, _⟩ := play_refines TwinHeaps.lawful.separate hw hp
  exact hr ⟨1, TwinHeaps.system⟩ (.read 4 "q" 1) trivial _ rfl

end ScopedMemory
