import ScopedMemory.Proofs.Session.Lists
import ScopedMemory.Proofs.Variadic.Adopted

namespace ScopedMemory

variable {system : SystemAllocator} {ctx : Context}

namespace SystemAllocator

/-- The null address is no place for a block. It says that a request was refused. -/
structure NeverNull (system : SystemAllocator) : Prop where
  base {past pool size align base} (h : system.History past) (ha : Word.IsPowerOfTwo align)
    (hb : system.place past pool size align = some base) : base ≠ 0

theorem base_ne_zero_of_mem_unfreed (hn : system.NeverNull) {past : List HeapEvent}
    (h : system.History past) : ∀ b ∈ unfreed past, b.base ≠ 0 := by
  induction h with
  | nil => exact fun b hb => by cases hb
  | placed h ha hb ih =>
    intro b hm
    rcases List.mem_cons.mp hm with rfl | hm
    · exact hn.base h ha hb
    · exact ih b hm
  | freed _ c ih => exact fun b hm => ih b (List.mem_of_mem_erase hm)

end SystemAllocator

theorem TwinHeaps.neverNull : TwinHeaps.system.NeverNull where
  base {past pool size align base} h ha hb := by
    have hbase := next_le_base ha hb
    have hstart := start_le_next h pool
    have hpos : 0 < start pool := by cases pool <;> decide
    intro h0
    rw [h0, UInt64.toNat_zero] at hbase
    omega

/-- A time of a run that began with the past, who reads then, and what a struct is read into. -/
structure Moment where
  moves : List Move
  context : Context
  allocator : Allocator

namespace Moment

def store (past : List Move) (t : Moment) : Store := (play (t.moves ++ past)).store

structure Within (system : SystemAllocator) (past : List Move) (t : Moment) : Prop where
  moves : ∀ m ∈ t.moves, m.Within system
  context : t.context.system.Within system
  allocator : t.allocator.Known (t.store past)

end Moment

/-- What the list looks at at one moment stands at the other: its scope is open and no byte is
different. The reader may use the scope `s`, and there is room for a struct. -/
structure Reading.Stands (q : Reading) (v : VariadicList) (s : ScopeId) (past : List Move)
    (t t' : Moment) : Prop where
  usable : (t'.store past).checkUsable t'.context.caller s = .ok ()
  alive : (t'.store past).IsAlive v.scope
  there : t.moves <:+ t'.moves ∨ ∀ c x, v.cursor = some c →
    q.LooksAt v (t.store past).memory c x → ∃ b ∈ ((t'.store past).scope v.scope).blocks, b.Has x
  same : ∀ c x, v.cursor = some c → q.LooksAt v (t.store past).memory c x →
    (t'.store past).memory.byte x = (t.store past).memory.byte x
  room : ∀ l, q = .segment l →
    ((t'.allocator.allocateLayout l).value? t'.context (t'.store past)).isSome

/-- Whenever the readings succeed on `v` one after another, they show the same on `f`, at any
moments where what they look at stands, and both lists move alike. -/
def VariadicList.Echoes (system : SystemAllocator) (past : List Move) (s : ScopeId) (base : Nat) :
    List Reading → VariadicList → VariadicList → Prop
  | [], _, _ => True
  | q :: qs, v, f => ∀ t t' : Moment, t.Within system past → t'.Within system past →
      ∀ x v' ρ, (q.perform v t.allocator).run t.context (t.store past) = .ok (x, v') ρ →
        q.Stands v s past t t' →
        ∃ f' ρ', (q.perform f t'.allocator).run t'.context (t'.store past) = .ok (x, f') ρ' ∧
          f'.address = v'.address ∧ v'.position.toNat = base + f'.position.toNat ∧
          Echoes system past s base qs v' f'

namespace VariadicList

theorem AtHome.moved {v : VariadicList} {c : Cursor} {σ : Store} (h : v.AtHome c σ) {n : Word}
    (hf : c.remaining.Fits) (hn : c.remaining.Spans 0 n) : (v.moved c n).AtHome (c.moved n) σ := by
  obtain ⟨_, hsp⟩ := spans_rest hf hn
  refine ⟨rfl, h.scope, h.own, h.inside.narrow hsp, ?_⟩
  have hstart : (c.moved n).remaining.start.toNat = c.remaining.start.toNat + n.toNat :=
    Region.toNat_start_narrow hsp
  rw [hstart]
  exact Nat.le_trans h.started (Nat.le_add_right _ _)

theorem Mirrors.echoes (hlaw : system.Lawful) {past : List Move}
    (hw : ∀ m ∈ past, m.Within system) {s : ScopeId} {base : Nat} (qs : List Reading)
    {v f : VariadicList} {c d : Cursor} (hv : v.AtHome c (play past).store)
    (h : Mirrors s base v c f d) : Echoes system past s base qs v f := by
  induction qs generalizing v f c d with
  | nil => trivial
  | cons q qs ih =>
    intro t t' ht ht' x v' ρ hr hq
    have hS : (play past).Sound system False ((handedOut past).map (·.region)) :=
      play_sound hlaw.separate hw False.elim
    obtain ⟨G, hT, hlater⟩ := play_follows hlaw.separate hS t.moves ht.moves False.elim
    obtain ⟨G', hT', hlater'⟩ := play_follows hlaw.separate hS t'.moves ht'.moves False.elim
    have hvt := hv.later hlater
    have hin : ∀ x, q.LooksAt v (t.store past).memory c x → (t'.store past).InUse x := by
      intro x hx
      have hblock : ∃ b ∈ ((t'.store past).scope v.scope).blocks, b.Has x := by
        rcases hq.there with ⟨more, hmore⟩ | hthere
        · have hfollows := play_follows hlaw.separate hT more
            (fun m hm => ht'.moves m (hmore ▸ List.mem_append_left _ hm)) False.elim
          rw [← List.append_assoc, hmore] at hfollows
          obtain ⟨_, _, hbetween⟩ := hfollows
          obtain ⟨b, hb, hbx⟩ := Reading.block_of_looksAt hvt hr hx
          have hlt := hvt.inside.1
          rw [hvt.scope] at hlt
          exact ⟨b, hbetween.blocks _ hlt hq.alive b hb, hbx⟩
        · exact hthere c x hv.cursor hx
      obtain ⟨b, hb, hbx⟩ := hblock
      exact ⟨b, hT'.store.mem_unfreed hb, hbx⟩
    obtain ⟨n, ρ', hrun, rfl, hn⟩ := Reading.run_adopted h hvt hlaw hT.store hT.ledger ht.context
      ht.allocator hT'.store hT'.ledger ht'.context ht'.allocator hr hq.usable hq.room hin
      fun x => hq.same c x hv.cursor
    have hmoved := h.moved hn
    have hfits := (hv.later hlater').fits hlaw hT'.store hq.alive
    exact ⟨_, ρ', hrun, hmoved.address rfl, hmoved.position rfl, ih (hv.moved hfits hn) hmoved⟩

end VariadicList

/-- Whoever may use a scope can adopt a built list for it by its address, wherever the list stands.
As long as the list's own scope is open and its memory is left as it is, all that can be read of the
list can be read of the adopted list too, with the same results, and both move alike. -/
theorem play_adopted (hlaw : system.Lawful) (hnull : system.NeverNull) {past : List Move}
    (hw : ∀ m ∈ past, m.Within system) {name : Name} {v : VariadicList} {c : Cursor}
    (hv : (play past).list? name = some v) (hc : v.cursor = some c) (hown : c.foreign = false)
    (ha : (play past).store.IsAlive v.scope) {s : ScopeId}
    (hu : (play past).store.checkUsable ctx.caller s = .ok ()) :
    ∃ f, (VariadicList.ofAddress v.convention v.address s).run ctx (play past).store =
        .ok f (play past).store ∧
      f.address = v.address ∧ f.position = 0 ∧
      ∀ qs, VariadicList.Echoes system past s v.position.toNat qs v f := by
  have hhome := (play_housed hlaw.separate hw).atHome hv hc hown
  have hS : (play past).Sound system False ((handedOut past).map (·.region)) :=
    play_sound hlaw.separate hw False.elim
  have haddress : v.address = c.remaining.start := by
    unfold VariadicList.address
    rw [hc]
  have hne : c.remaining.start ≠ 0 := by
    obtain ⟨b, hb, he⟩ := hhome.inside.2 (hhome.scope ▸ ha)
    have hbase := SystemAllocator.base_ne_zero_of_mem_unfreed hnull hS.store.history b
      (hS.store.mem_unfreed hb)
    intro h0
    have hle := he.1
    rw [h0, UInt64.toNat_zero] at hle
    exact hbase (UInt64.toNat_inj.mp (Nat.le_zero.mp hle))
  obtain ⟨length, hlength, hrun⟩ := VariadicList.run_ofAddress (k := v.convention) hne hu
  rw [← haddress] at hrun
  refine ⟨_, hrun, rfl, UInt64.sub_self _, fun qs => ?_⟩
  refine VariadicList.Mirrors.echoes hlaw hw qs hhome
    (d := ⟨v.address, ⟨v.address, length, s⟩, true⟩)
    ⟨rfl, rfl, rfl, rfl, rfl, haddress, haddress ▸ hlength, ?_, Nat.le_refl _⟩
  have hstarted := hhome.started
  rw [VariadicList.toNat_position hc hstarted]
  change v.address.toNat = _
  rw [haddress]
  omega

def Reading.Shown.bytes? : Shown → Option Bytes
  | bytes contents => some contents
  | _ => none

def filledStore : Store :=
  (play (.call ⟨1, TwinHeaps.system⟩ (.region (.fill "large" 9)) ::
    movesOf TwinHeaps.system skippingCalls)).store

def largeStruct : Layout := .struct ⟨12, 4, .big⟩ [.cInt, .cInt, .cInt]

/-- The struct is read by way of the global scope, though what it was made of has been filled. -/
theorem skippingCalls_adopted :
    (∀ m ∈ movesOf TwinHeaps.system skippingCalls, m.Within TwinHeaps.system) ∧
    (play (movesOf TwinHeaps.system skippingCalls)).list? "v" = some skippedList ∧
    ∃ f f' shown τ,
      (VariadicList.ofAddress .win64 skippedList.address 0).run ⟨1, TwinHeaps.system⟩
        skippedStore = .ok f skippedStore ∧
      ((Reading.segment largeStruct).perform f (.direct 0)).run ⟨0, TwinHeaps.system⟩ filledStore =
        .ok (shown, f') τ ∧
      shown.bytes? = some [0, 0, 0, 1, 2, 3, 0, 0, 0, 0, 0, 0] ∧ f'.address = 0x20000048 ∧
      f'.position.toNat = 8 := by
  have hw := within_movesOf TwinHeaps.system skippingCalls
  have hv : (play (movesOf TwinHeaps.system skippingCalls)).list? "v" = some skippedList := rfl
  have hS : (play (movesOf TwinHeaps.system skippingCalls)).Sound TwinHeaps.system False _ :=
    play_sound TwinHeaps.lawful.separate hw False.elim
  have husable : (play (movesOf TwinHeaps.system skippingCalls)).store.checkUsable
      (Context.caller ⟨1, TwinHeaps.system⟩) 0 = .ok () := hS.store.checkUsable_global 1
  obtain ⟨f, hf, _, _, hechoes⟩ := play_adopted TwinHeaps.lawful TwinHeaps.neverNull hw hv rfl rfl
    (by decide +kernel) husable
  have hfill : ∀ m ∈ [Move.call ⟨1, TwinHeaps.system⟩ (.region (.fill "large" 9))],
      m.Within TwinHeaps.system := fun m hm => List.mem_singleton.mp hm ▸ .refl _
  obtain ⟨G, hT, _⟩ := play_follows TwinHeaps.lawful.separate hS _ hfill False.elim
  -- The list itself reads the struct before the source is filled.
  have hread : (((Reading.segment largeStruct).perform skippedList (.direct 1)).value?
      ⟨1, TwinHeaps.system⟩ skippedStore).map (fun p => (p.1.bytes?, p.2.address, p.2.position)) =
        some (some [0, 0, 0, 1, 2, 3, 0, 0, 0, 0, 0, 0], 0x20000048, 24) := by
    decide +kernel
  obtain ⟨⟨shown, v'⟩, hvalue, hshown⟩ := Option.map_eq_some_iff.mp hread
  obtain ⟨hbytes, haddress, hposition⟩ : shown.bytes? = some _ ∧ v'.address = _ ∧
      v'.position = _ := by
    simpa only [Prod.mk.injEq] using hshown
  obtain ⟨ρ, hrun⟩ := Operation.run_of_value? hvalue
  have hmemory : filledStore.memory = skippedStore.memory.fill 0x2000000c 12 9 := rfl
  have hcopy : skippedList.copyAt skippedStore.memory largeStruct 0x20000040 =
      some ⟨0x20000048, 12, 1⟩ := by
    decide +kernel
  obtain ⟨f', τ, hrun', haddress', hposition', _⟩ := hechoes [.segment largeStruct]
    ⟨[], ⟨1, TwinHeaps.system⟩, .direct 1⟩
    ⟨[.call ⟨1, TwinHeaps.system⟩ (.region (.fill "large" 9))], ⟨0, TwinHeaps.system⟩, .direct 0⟩
    ⟨fun m hm => (List.not_mem_nil hm).elim, .refl _, fun a ha => by cases ha⟩
    ⟨hfill, .refl _, fun a ha => by cases ha⟩ shown v' ρ hrun
    { usable := hT.store.checkUsable_global 0
      alive := by decide +kernel
      there := Or.inl (List.nil_suffix)
      same := fun c x hc hx => by
        change filledStore.memory.byte x = _
        rw [hmemory]
        refine Memory.byte_fill_of_not fun hfilled => ?_
        cases hc
        rcases hx with hx | ⟨copy, hcopy', hx⟩
        · exact absurd hfilled.2 (Nat.not_lt.mpr (Nat.le_trans (by decide) hx.1))
        · cases hcopy.symm.trans hcopy'
          exact absurd hfilled.2 (Nat.not_lt.mpr (Nat.le_trans (by decide) hx.1))
      room := fun l hl => by
        cases hl
        decide +kernel }
  refine ⟨hw, hv, f, f', shown, τ, hf, hrun', hbytes, haddress'.trans haddress, ?_⟩
  rw [hposition] at hposition'
  have hbase : skippedList.position.toNat = 16 := by decide
  rw [hbase] at hposition'
  change 24 = 16 + f'.position.toNat at hposition'
  omega

end ScopedMemory
