import ScopedMemory.Heap.TwinHeaps
import ScopedMemory.Proofs.Arena.Config
import ScopedMemory.Proofs.Arena.Retired

namespace ScopedMemory

open Operation

variable {system : SystemAllocator} {strict : Prop} {waiting : List Block} {past : List Move}
  {ctx : Context} {σ τ : Store} {a : ArenaId} {size align n : Word} {m : Nat}

namespace ArenaId

/-- The block that the arena carves from, if there is one, has no room for the request. -/
def Lacks (a : ArenaId) (size align : Word) (σ : Store) : Prop :=
  ∀ f, (σ.arena a).frontier = some f → f.block.size.toNat < f.next align + size.toNat

/-- What an arena that carves from blocks of `n` bytes does with an admitted request. -/
structure Grows (a : ArenaId) (n size align : Word) (ctx : Context) (σ : Store) : Prop where
  least : ∀ f, (σ.arena a).frontier = some f → f.block.size = n ∧
    IsLeast {o | f.cursor.toNat ≤ o ∧ align.toNat ∣ f.block.start.toNat + o} (f.next align)
  carved : ∀ f, (σ.arena a).frontier = some f → f.next align + size.toNat ≤ n.toNat →
    ∃ start : Word, start.toNat = f.next align ∧
      (start + size).toNat = f.next align + size.toNat ∧
      (a.allocate size align).run ctx σ =
        .ok (f.block.narrow start size) (σ.carved a f start size)
  /-- The block and its cursor stay as they are. -/
  dedicated : a.Lacks size align σ → n < size →
    (a.allocate size align).run ctx σ =
      match ctx.system.request σ.events (σ.poolOf (σ.arena a).scope) size
        (max (σ.arena a).blockAlign align) with
      | some base => .ok ⟨base, size, (σ.arena a).scope⟩ (σ.dedicated a base size)
      | none => .error (.outOfMemory size 0) (σ.failed a)
  /-- The new block has room for the request at its beginning. -/
  fresh : a.Lacks size align σ → ¬ n < size →
    (a.allocate size align).run ctx σ =
      match ctx.system.request σ.events (σ.poolOf (σ.arena a).scope) n
        (max (σ.arena a).blockAlign align) with
      | some base =>
        .ok ((Region.mk base n (σ.arena a).scope).narrow 0 size)
          ((σ.installed a base n).carved a ⟨⟨base, n, (σ.arena a).scope⟩, 0⟩ 0 size)
      | none => .error (.outOfMemory n 0) (σ.failed a)
  retired : a.Lacks size align σ → ¬ n < size → ∀ f, (σ.arena a).frontier = some f →
    ∀ r τ, (a.allocate size align).run ctx σ = .ok r τ → τ.Retired a f.block
  failed : ∀ e τ, (a.allocate size align).run ctx σ = .error e τ →
    (∃ bytes blockAlign, (σ.arena a).order? size align = some (bytes, blockAlign) ∧
      ctx.system.request σ.events (σ.poolOf (σ.arena a).scope) bytes blockAlign = none) ∧
    τ = σ.failed a ∧
    τ.arena a = { σ.arena a with stats := (σ.arena a).stats.addFailed }

section grows

variable (hlaw : system.Lawful) (hs : σ.Sound system strict waiting)
  (hw : ctx.system.Within system) (hl : a < σ.arenas.length)
  (hu : σ.checkUsable ctx.caller (σ.arena a).scope = .ok ())
  (hp : (σ.arena a).blockAlign.IsPowerOfTwo) (hq : checkRequest size align = .ok ())
  (hcap : (σ.arena a).capacity = .unbounded n)

include hlaw hs hl hu hq in
theorem fit?_eq_none_of_lacks (h : a.Lacks size align σ) {f : Frontier}
    (hf : (σ.arena a).frontier = some f) : f.fit? size align = none := by
  have halive : σ.IsAlive (σ.arena a).scope := (Store.checkUsable_eq_ok_iff.mp hu).2
  have hend := hs.frontier_lt hlaw hl halive hf
  exact (Frontier.fit?_eq_none_iff (isPowerOfTwo_of_checkRequest hq) hend).mpr (h f hf)

include hlaw hs hl hu hq hcap in
theorem order?_of_lacks (h : a.Lacks size align σ) : (σ.arena a).order? size align =
    some (if n < size then size else n, max (σ.arena a).blockAlign align) := by
  refine Arena.order?_of_unbounded hcap ?_
  cases hf : (σ.arena a).frontier with
  | none => rfl
  | some f =>
    have hnone := fit?_eq_none_of_lacks hlaw hs hl hu hq h hf
    rw [Option.bind_some, hnone]
    rfl

include hlaw hs hw hl hu hp hq hcap in
theorem run_allocate_carved {f : Frontier} (hf : (σ.arena a).frontier = some f)
    {start : Word} (hfit : f.fit? size align = some start) :
    (a.allocate size align).run ctx σ =
      .ok (f.block.narrow start size) (σ.carved a f start size) := by
  obtain ⟨o, τ, hrun, hanswer⟩ := answers_unbounded hlaw hs hw hl hu hp hq hcap
  have hnone : (σ.arena a).order? size align = none := by
    unfold Arena.order?
    rw [hcap, hf]
    dsimp only
    rw [Option.bind_some, hfit]
    rfl
  rw [run_of_attempt hrun]
  cases hanswer with
  | carved hg hgfit =>
    obtain rfl := Option.some.inj (hf.symm.trans hg)
    obtain rfl := Option.some.inj (hfit.symm.trans hgfit)
    rfl
  | full hbound | outgrown hbound => cases hcap.symm.trans hbound
  | refused ho | dedicated _ _ ho | installed ho => cases hnone.symm.trans ho

include hlaw hs hw hl hu hp hq hcap in
theorem run_allocate_dedicated (h : a.Lacks size align σ) (hlarge : n < size) :
    (a.allocate size align).run ctx σ =
      match ctx.system.request σ.events (σ.poolOf (σ.arena a).scope) size
        (max (σ.arena a).blockAlign align) with
      | some base => .ok ⟨base, size, (σ.arena a).scope⟩ (σ.dedicated a base size)
      | none => .error (.outOfMemory size 0) (σ.failed a) := by
  obtain ⟨o, τ, hrun, hanswer⟩ := answers_unbounded hlaw hs hw hl hu hp hq hcap
  have horder := order?_of_lacks hlaw hs hl hu hq hcap h
  rw [if_pos hlarge] at horder
  rw [run_of_attempt hrun]
  cases hanswer with
  | carved hf hfit => cases (fit?_eq_none_of_lacks hlaw hs hl hu hq h hf).symm.trans hfit
  | full hbound | outgrown hbound => cases hcap.symm.trans hbound
  | refused ho hb =>
    cases horder.symm.trans ho
    rw [hb]
  | dedicated _ _ ho hb =>
    cases horder.symm.trans ho
    rw [hb]
  | installed _ hsmall => exact absurd hlarge (hsmall n hcap).2

include hlaw hs hw hl hu hp hq hcap in
/-- The block is aligned for the request and no smaller, so it serves it. -/
theorem run_allocate_fresh (h : a.Lacks size align σ) (hsmall : ¬ n < size) :
    (a.allocate size align).run ctx σ =
      match ctx.system.request σ.events (σ.poolOf (σ.arena a).scope) n
        (max (σ.arena a).blockAlign align) with
      | some base =>
        .ok ((Region.mk base n (σ.arena a).scope).narrow 0 size)
          ((σ.installed a base n).carved a ⟨⟨base, n, (σ.arena a).scope⟩, 0⟩ 0 size)
      | none => .error (.outOfMemory n 0) (σ.failed a) := by
  obtain ⟨o, τ, hrun, hanswer⟩ := answers_unbounded hlaw hs hw hl hu hp hq hcap
  have ha := isPowerOfTwo_of_checkRequest hq
  have horder := order?_of_lacks hlaw hs hl hu hq hcap h
  rw [if_neg hsmall] at horder
  rw [run_of_attempt hrun]
  cases hanswer with
  | carved hf hfit => cases (fit?_eq_none_of_lacks hlaw hs hl hu hq h hf).symm.trans hfit
  | full hbound | outgrown hbound => cases hcap.symm.trans hbound
  | refused ho hb =>
    cases horder.symm.trans ho
    rw [hb]
  | dedicated hcap' hlarge =>
    cases hcap.symm.trans hcap'
    exact absurd hlarge hsmall
  | @installed bytes blockAlign base start ho _ hb hfit =>
    cases horder.symm.trans ho
    have hdvd : align.toNat ∣ base.toNat :=
      Nat.dvd_trans (ha.dvd_max (hp.max ha)) (hlaw.aligned hs.history (hp.max ha) (hw.place hb))
    have hle : size.toNat ≤ n.toNat := by
      rw [UInt64.lt_iff_toNat_lt] at hsmall
      omega
    have hzero : (Frontier.mk ⟨base, n, (σ.arena a).scope⟩ 0).fit? size align = some 0 :=
      Frontier.fit?_start ha hdvd hle
    obtain rfl := Option.some.inj (hzero.symm.trans hfit)
    rw [hb]

include hlaw hs hw hl hu hp hq hcap in
theorem grows_unbounded (hsize : ∀ f, (σ.arena a).frontier = some f → f.block.size = n) :
    a.Grows n size align ctx σ where
  least f hf := ⟨hsize f hf, Frontier.isLeast_next (isPowerOfTwo_of_checkRequest hq)⟩
  carved f hf hroom := by
    have ha := isPowerOfTwo_of_checkRequest hq
    have halive : σ.IsAlive (σ.arena a).scope := (Store.checkUsable_eq_ok_iff.mp hu).2
    have hend := hs.frontier_lt hlaw hl halive hf
    have hlt := n.toNat_lt
    have hstart : (UInt64.ofNat (f.next align)).toNat = f.next align := by
      rw [UInt64.toNat_ofNat', Nat.mod_eq_of_lt (by omega)]
    have hfit : f.fit? size align = some (.ofNat (f.next align)) :=
      (Frontier.fit?_eq_some_iff ha hend).mpr ⟨hstart, by rw [hsize f hf]; exact hroom⟩
    refine ⟨.ofNat (f.next align), hstart, ?_,
      run_allocate_carved hlaw hs hw hl hu hp hq hcap hf hfit⟩
    rw [UInt64.toNat_add, hstart, Nat.mod_eq_of_lt (by omega)]
  dedicated h hlarge := run_allocate_dedicated hlaw hs hw hl hu hp hq hcap h hlarge
  fresh h hsmall := run_allocate_fresh hlaw hs hw hl hu hp hq hcap h hsmall
  retired h hsmall f hf r τ hrun := by
    have halive : σ.IsAlive (σ.arena a).scope := (Store.checkUsable_eq_ok_iff.mp hu).2
    have hmax := hp.max (isPowerOfTwo_of_checkRequest hq)
    obtain ⟨_, _, hd⟩ := (buys_allocate hw hl size align).ok hrun
    rw [run_allocate_fresh hlaw hs hw hl hu hp hq hcap h hsmall] at hrun
    cases hb : ctx.system.request σ.events (σ.poolOf (σ.arena a).scope) n
      (max (σ.arena a).blockAlign align) with
    | none =>
      rw [hb] at hrun
      cases hrun
    | some base =>
      rw [hb] at hrun
      cases hrun
      have hlen : a < (σ.installed a base n).arenas.length := by
        rwa [Store.length_arenas_installed]
      have hg := congrArg Arena.frontier (Store.arena_carved hlen
        ⟨⟨base, n, (σ.arena a).scope⟩, 0⟩ 0 size)
      exact hs.retired halive hd.extends.toLater hf hg fun x hx hin =>
        hs.fresh hlaw.separate hmax (hw.place hb) hin hx
  failed e τ hrun := by
    obtain ⟨o, τ', hattempt, hanswer⟩ := answers_unbounded hlaw hs hw hl hu hp hq hcap
    rw [run_of_attempt hattempt] at hrun
    cases hanswer with
    | carved | dedicated | installed => cases hrun
    | full hbound | outgrown hbound => cases hcap.symm.trans hbound
    | refused ho hb =>
      cases hrun
      exact ⟨⟨_, _, ho, hb⟩, rfl, Store.arena_failed hl⟩

end grows

end ArenaId

/-- What lasts holds in the midst of later calls too. -/
theorem Midway.lasts {P : Store → Prop} {s : ScopeId} (hP : Store.Lasts system a s P)
    (hpack : system.Packs) {moves : List Move} (hw : ∀ m ∈ moves ++ past, m.Within system)
    (h : Midway system (moves ++ past) m σ) (hl : a < (play past).store.arenas.length)
    (hs : s < (play past).store.scopes.length) (ha : σ.IsAlive s)
    (hpast : P (play past).store) : P σ := by
  have hsep := hpack.toSeparate
  have hw' : ∀ m ∈ past, m.Within system := fun m hm => hw m (List.mem_append_right moves hm)
  obtain ⟨_, _, hlater⟩ := play_follows hsep (play_sound hsep hw' False.elim) moves
    (fun m hm => hw m (List.mem_append_left past hm)) False.elim
  obtain ⟨_, _, hd⟩ := h.deals
  have ha' := (hd.extends.isAlive_iff (Nat.lt_of_lt_of_le hs hlater.scopes)).mp ha
  have hS : (play (moves ++ past)).Sound system False _ := play_sound hsep hw False.elim
  exact hd.lasts hP hsep hS.store (Nat.lt_of_lt_of_le hl hlater.arenas) ha'
    (play_lasts hP hsep hw hl hs ha' hpast)

/-- Whatever state the run leads to, also in the midst of a call, an arena without a bound serves
what is asked of it in one of three ways, and never again from a block that it has left. -/
structure Growth (system : SystemAllocator) (past : List Move) : Prop where
  configured : ∀ a ∈ arenasMade past, (play past).store.Configured a
  grows : ∀ {m σ}, Midway system past m σ → ∀ {a n}, σ.Configured a →
    (σ.arena a).capacity = .unbounded n → ∀ {ctx : Context}, ctx.system.Within system →
    σ.checkUsable ctx.caller (σ.arena a).scope = .ok () → ∀ {size align},
    checkRequest size align = .ok () → a.Grows n size align ctx σ
  /-- While the scope is open, a block is carved from until it is retired. -/
  carves : ∀ {a f}, ((play past).store.arena a).frontier = some f → ∀ {moves : List Move},
    (∀ m ∈ moves, m.Within system) → ∀ {m σ}, Midway system (moves ++ past) m σ →
    σ.IsAlive f.block.scope → σ.HasHad a f.block
  retired : ∀ {a r}, (play past).store.Retired a r → ∀ {moves : List Move},
    (∀ m ∈ moves, m.Within system) → ∀ {m σ}, Midway system (moves ++ past) m σ →
    σ.IsAlive r.scope → σ.Retired a r ∧ ∀ {ctx : Context}, ctx.system.Within system →
    ∀ {size align r' τ}, (a.allocate size align).run ctx σ = .ok r' τ → ∀ x, r.Has x → ¬ r'.Has x

theorem play_grows (hlaw : system.Lawful) (hpast : ∀ m ∈ past, m.Within system) :
    Growth system past where
  configured := play_configured hlaw.separate hpast
  grows h a n hc hcap ctx hw hu size align hq := by
    have hp := hc.isPowerOfTwo
    obtain ⟨_, _, _, hconf⟩ := hc
    obtain ⟨_, _, hb⟩ := h.booked hlaw.packs hpast
    refine ArenaId.grows_unbounded hlaw (h.sound hlaw.packs hpast) hw hconf.known hu hp hq hcap
      fun f hf => ?_
    rw [(hb.arenas a hconf.known).frontier f hf, hcap]
    rfl
  carves hf moves hmoves m σ h ha := by
    have hS : (play past).Sound system False _ := play_sound hlaw.separate hpast False.elim
    have hlen := Store.lt_length_of_frontier hf
    obtain ⟨hscope, hinside, _⟩ := (hS.store.arenas _ hlen).frontier _ hf
    exact h.lasts (Store.lasts_hasHad system _ _) hlaw.packs
      (List.forall_mem_append.mpr ⟨hmoves, hpast⟩) hlen hinside.1 ha (Or.inl ⟨_, hf, rfl⟩)
  retired hr moves hmoves m σ h ha := by
    have hw := List.forall_mem_append.mpr ⟨hmoves, hpast⟩
    have hlast := h.lasts (Store.lasts_retired system _ _) hlaw.packs hw hr.known hr.inside.1 ha hr
    exact ⟨hlast, fun hctx _ _ _ _ hrun _ hx =>
      hlast.not_has hlaw.separate (h.sound hlaw.packs hw) hctx ha hrun hx⟩

/-- An arena with blocks of 32 bytes that has handed out 20 of the first one. -/
def growingCalls : List (Thread × Call) :=
  [(0, .scope (.create .shared "s")),
    (0, .allocation (.arena "s" (.unbounded 32) {} .confined "a")),
    (0, .allocation (.allocate (.raw 20 8) "a" none))]

theorem growingCalls_grow :
    (∀ m ∈ movesOf TwinHeaps.system growingCalls, m.Within TwinHeaps.system) ∧
    ((play (movesOf TwinHeaps.system growingCalls)).store.arena 0).frontier =
      some ⟨⟨0x20000010, 32, 1⟩, 20⟩ ∧
    (∃ τ, (ArenaId.allocate 0 4 8).run ⟨0, TwinHeaps.system⟩
      (play (movesOf TwinHeaps.system growingCalls)).store = .ok ⟨0x20000028, 4, 1⟩ τ) ∧
    (∃ τ, (ArenaId.allocate 0 100 1).run ⟨0, TwinHeaps.system⟩
      (play (movesOf TwinHeaps.system growingCalls)).store = .ok ⟨0x20000030, 100, 1⟩ τ) ∧
    ∃ τ, (ArenaId.allocate 0 20 64).run ⟨0, TwinHeaps.system⟩
      (play (movesOf TwinHeaps.system growingCalls)).store = .ok ⟨0x20000040, 20, 1⟩ τ ∧
      τ.Retired 0 ⟨0x20000010, 32, 1⟩ := by
  have hw := within_movesOf TwinHeaps.system growingCalls
  have h := play_grows TwinHeaps.lawful hw
  have harena : (play (movesOf TwinHeaps.system growingCalls)).store.arena 0 =
      ⟨1, .unbounded 32, 16, some ⟨⟨0x20000010, 32, 1⟩, 20⟩,
        { blocks := 1, served := 20, reserved := 32 }⟩ := by decide +kernel
  have hmade : arenasMade (movesOf TwinHeaps.system growingCalls) = [0] := by decide +kernel
  have hconf := h.configured 0 (by rw [hmade]; exact List.mem_singleton.mpr rfl)
  have hf : ((play (movesOf TwinHeaps.system growingCalls)).store.arena 0).frontier =
      some ⟨⟨0x20000010, 32, 1⟩, 20⟩ := by rw [harena]
  have hu : (play (movesOf TwinHeaps.system growingCalls)).store.checkUsable 0 1 = .ok () := by
    decide +kernel
  have hgrows : ∀ size align : Word, checkRequest size align = .ok () →
      ArenaId.Grows 0 32 size align ⟨0, TwinHeaps.system⟩
        (play (movesOf TwinHeaps.system growingCalls)).store := fun _ _ hq =>
    h.grows (midway_play _ _) hconf (by rw [harena]) (.refl _) (by rw [harena]; exact hu) hq
  have hlacks : ∀ size align : Word, 32 < (Frontier.mk ⟨0x20000010, 32, 1⟩ 20).next align +
      size.toNat → ArenaId.Lacks 0 size align
        (play (movesOf TwinHeaps.system growingCalls)).store := by
    intro size align hroom f hf'
    obtain rfl := Option.some.inj (hf.symm.trans hf')
    exact hroom
  refine ⟨hw, hf, ?_, ?_, ?_⟩
  · obtain ⟨start, hstart, _, hrun⟩ := (hgrows 4 8 (by decide)).carved _ hf
      (by decide)
    obtain rfl : start = 24 := UInt64.toNat_inj.mp (hstart.trans (by decide))
    exact ⟨_, hrun⟩
  · have hrun := (hgrows 100 1 (by decide)).dedicated
      (hlacks _ _ (by decide)) (by decide)
    have hb : TwinHeaps.system.request (play (movesOf TwinHeaps.system growingCalls)).store.events
        ((play (movesOf TwinHeaps.system growingCalls)).store.poolOf 1) 100 16 =
          some 0x20000030 := by decide +kernel
    rw [harena] at hrun
    exact ⟨_, hrun.trans (by rw [show max (16 : Word) 1 = 16 from rfl, hb])⟩
  · have hrun := (hgrows 20 64 (by decide)).fresh
      (hlacks _ _ (by decide)) (by decide)
    have hb : TwinHeaps.system.request (play (movesOf TwinHeaps.system growingCalls)).store.events
        ((play (movesOf TwinHeaps.system growingCalls)).store.poolOf 1) 32 64 =
          some 0x20000040 := by decide +kernel
    rw [harena] at hrun
    have hrun' := hrun.trans (by rw [show max (16 : Word) 64 = 64 from rfl, hb])
    exact ⟨_, hrun', (hgrows _ _ (by decide)).retired (hlacks _ _ (by decide)) (by decide) _ hf _ _
      hrun'⟩

end ScopedMemory
