import ScopedMemory.Proofs.Allocator.Contents
import ScopedMemory.Proofs.Session.Run

namespace ScopedMemory

open Operation

variable {system : SystemAllocator} {strict : Prop} {waiting : List Block} {G : List Region}
  {ctx : Context} {σ τ ρ : Store} {w : Allocator} {q : AllocationRequest} {l : Layout}
  {t : DatumType} {data : List Datum} {r : Region}

namespace Allocator

/-- What comes of a request that brings data along. -/
structure Delivers (w : Allocator) (ctx : Context) (σ : Store) (q : AllocationRequest)
    (l : Layout) (t : DatumType) (data : List Datum) : Prop where
  /-- The allocator has no part in it. -/
  unfit : ¬ t.Suits l → ∃ e, ∀ w' : Allocator, w'.serve q = throw e
  fails : t.Suits l → ∀ e τ, (w.serve q).run ctx σ = .error e τ ↔
    (w.allocate (.ofNat (data.length * l.size.toNat)) l.align).run ctx σ = .error e τ
  filled : t.Suits l → ∀ r ρ,
    (w.allocate (.ofNat (data.length * l.size.toNat)) l.align).run ctx σ = .ok r ρ →
      ∃ τ, (w.serve q).run ctx σ = .ok r τ ∧ r.Filled l t data ctx ρ τ
  /-- The rest of a block that an arena has obtained for the region was nobody's before. -/
  outside : t.Suits l → ∀ r τ, (w.serve q).run ctx σ = .ok r τ → ∀ x, ¬ r.Has x →
    (∀ a, w ≠ .arena a) ∨ σ.InUse x ∨ ¬ τ.InUse x → τ.memory.byte x = σ.memory.byte x
  /-- In the opposite byte order each of the data is reversed where it stands. -/
  opposite : t.Suits l → ∀ q' l', q'.Brings l' t data → l'.IsValue → l'.size = l.size →
    l'.align = l.align → l'.order ≠ l.order → ∀ r τ, (w.serve q).run ctx σ = .ok r τ →
      ∃ τ', (w.serve q').run ctx σ = .ok r τ' ∧
        (∀ i < data.length, ∀ j < l.size.toNat,
          τ'.memory.byte (r.start.toNat + i * l.size.toNat + j) =
            τ.memory.byte (r.start.toNat + i * l.size.toNat + (l.size.toNat - 1 - j))) ∧
        ∀ x, ¬ r.Has x → τ'.memory.byte x = τ.memory.byte x

section

variable (hlaw : system.Lawful) (hs : σ.Sound system strict waiting) (hl : σ.Ledger G)
  (hctx : ctx.system.Within system) (hk : w.Known σ) (hq : q.Brings l t data) (ht : t.Suits l)
  (hfew : data.length * t.size ≤ 0x7fffffffffffffff)

include hlaw hs hl hctx hk hq ht hfew

/-- A region that was handed out is filled, and there is nothing left to fail. -/
theorem run_serve_filled
    (hr : (w.allocate (.ofNat (data.length * l.size.toNat)) l.align).run ctx σ = .ok r ρ) :
    ∃ τ, (w.serve q).run ctx σ = .ok r τ ∧ r.Filled l t data ctx ρ τ := by
  have hlt := ht.mul_size_lt hfew
  have hg := (leads_allocate hs hctx hk _ _).ok hr
  have hspan := hg.spans hlaw hs hl
  have hsize : r.size.toNat = data.length * l.size.toNat := by
    rw [hg.size, UInt64.toNat_ofNat_of_lt' hlt]
  have hend := hspan.2
  rw [← hg.size, UInt64.toNat_zero, Nat.add_zero] at hend
  exact ⟨_, run_serve_of_suits hq ht hlt hr hg.usable hspan,
    Region.filled ht hq.type_eq hsize hend hg.usable⟩

theorem run_serve_error_iff {e : MemoryError} :
    (w.serve q).run ctx σ = .error e τ ↔
      (w.allocate (.ofNat (data.length * l.size.toNat)) l.align).run ctx σ = .error e τ := by
  cases hr : (w.allocate (.ofNat (data.length * l.size.toNat)) l.align).run ctx σ with
  | ok r ρ =>
    obtain ⟨τ', hserve, _⟩ := run_serve_filled hlaw hs hl hctx hk hq ht hfew hr
    simp [hserve]
  | error fault ρ => rw [serve_of_suits hq ht (ht.mul_size_lt hfew), run_bind, hr]

/-- What was served had been allocated before it was filled. -/
theorem of_run_serve (hr : (w.serve q).run ctx σ = .ok r τ) :
    ∃ ρ, (w.allocate (.ofNat (data.length * l.size.toNat)) l.align).run ctx σ = .ok r ρ ∧
      r.Filled l t data ctx ρ τ := by
  cases ha : (w.allocate (.ofNat (data.length * l.size.toNat)) l.align).run ctx σ with
  | ok r' ρ =>
    obtain ⟨τ', hserve, hfilled⟩ := run_serve_filled hlaw hs hl hctx hk hq ht hfew ha
    cases hr.symm.trans hserve
    exact ⟨ρ, rfl, hfilled⟩
  | error e ρ =>
    have herror := (run_serve_error_iff hlaw hs hl hctx hk hq ht hfew).mpr ha
    cases hr.symm.trans herror

theorem byte_of_run_serve (hr : (w.serve q).run ctx σ = .ok r τ) {x : Nat} (hx : ¬ r.Has x)
    (hold : (∀ a, w ≠ .arena a) ∨ σ.InUse x ∨ ¬ τ.InUse x) :
    τ.memory.byte x = σ.memory.byte x := by
  obtain ⟨ρ, ha, hfilled⟩ := of_run_serve hlaw hs hl hctx hk hq ht hfew hr
  have hg := (leads_allocate hs hctx hk _ _).ok ha
  rw [hfilled.aside x hx]
  rcases hold with hw | huse | hfree
  · exact (leads_allocate_outside hw _ _).ok ha x hx
  · exact hg.changes.byte hlaw.separate hs huse
  · rw [hfilled.still] at hfree
    refine Decidable.byContradiction fun hdiff => ?_
    exact hfree (hg.changes.taken hlaw.separate hs hdiff).2

/-- The requests differ in the byte order only, so they take the same region. -/
theorem run_serve_opposite {q' : AllocationRequest} {l' : Layout} (hq' : q'.Brings l' t data)
    (hv : l'.IsValue) (hsize : l'.size = l.size) (halign : l'.align = l.align)
    (hne : l'.order ≠ l.order) (hr : (w.serve q).run ctx σ = .ok r τ) :
    ∃ τ', (w.serve q').run ctx σ = .ok r τ' ∧
      (∀ i < data.length, ∀ j < l.size.toNat,
        τ'.memory.byte (r.start.toNat + i * l.size.toNat + j) =
          τ.memory.byte (r.start.toNat + i * l.size.toNat + (l.size.toNat - 1 - j))) ∧
      ∀ x, ¬ r.Has x → τ'.memory.byte x = τ.memory.byte x := by
  obtain ⟨ρ, ha, hfilled⟩ := of_run_serve hlaw hs hl hctx hk hq ht hfew hr
  have ht' : t.Suits l' := ⟨hv, by rw [hsize]; exact ht.2⟩
  rw [← hsize, ← halign] at ha
  obtain ⟨τ', hserve, hfilled'⟩ := run_serve_filled hlaw hs hl hctx hk hq' ht' hfew ha
  refine ⟨τ', hserve, fun i hi j hj => ?_, fun x hx => ?_⟩
  · have hhere := hfilled.bytes i hi (l.size.toNat - 1 - j) (Nat.sub_one_sub_lt_of_lt hj)
    have hthere := hfilled'.bytes i hi j (by rwa [hsize])
    rw [hsize] at hthere
    rw [hthere, hhere, ← ByteOrder.place_of_ne hne,
      ByteOrder.place_place _ (l'.order.place_lt hj)]
  · rw [hfilled'.aside x hx, hfilled.aside x hx]

end

theorem delivers (hlaw : system.Lawful) (hs : σ.Sound system strict waiting)
    (hl : σ.Ledger G) (hctx : ctx.system.Within system) (hk : w.Known σ) (hq : q.Brings l t data)
    (hfew : data.length * t.size ≤ 0x7fffffffffffffff) : w.Delivers ctx σ q l t data where
  unfit := serve_of_not_suits hq
  fails ht _ _ := run_serve_error_iff hlaw hs hl hctx hk hq ht hfew
  filled ht _ _ := run_serve_filled hlaw hs hl hctx hk hq ht hfew
  outside ht _ _ hr _ := byte_of_run_serve hlaw hs hl hctx hk hq ht hfew hr
  opposite ht _ _ hq' hv hsize halign hne _ _ :=
    run_serve_opposite hlaw hs hl hctx hk hq ht hfew hq' hv hsize halign hne

end Allocator

/-- At every moment of a run every allocator delivers what requests bring along. -/
theorem play_delivers (hlaw : system.Lawful) {past : List Move}
    (hw : ∀ m ∈ past, m.Within system) (hctx : ctx.system.Within system)
    (hk : w.Known (play past).store) (hq : q.Brings l t data)
    (hfew : data.length * t.size ≤ 0x7fffffffffffffff) :
    w.Delivers ctx (play past).store q l t data := by
  have hS : (play past).Sound system False ((handedOut past).map (·.region)) :=
    play_sound hlaw.separate hw False.elim
  exact Allocator.delivers hlaw hS.store hS.ledger hctx hk hq hfew

/-- An arena that has yet to obtain its block. -/
def stockCalls : List (Thread × Call) :=
  [(0, .scope (.create .shared "s")),
    (0, .allocation (.arena "s" (.bounded 8) {} .confined "a"))]

theorem stockCalls_delivers :
    let ctx : Context := ⟨0, TwinHeaps.system⟩
    let σ := (play (movesOf TwinHeaps.system stockCalls)).store
    let w : Allocator := .arena 0
    let big : Layout := .value ⟨2, 2, .big⟩
    (∀ m ∈ movesOf TwinHeaps.system stockCalls, m.Within TwinHeaps.system) ∧
      (∃ r τ, (w.serve (.array .u16 big [1, 0x203, 0xffff])).run ctx σ = .ok r τ ∧
        r.size.toNat = 6 ∧
        (r.fetch (.scalar .u16) big 2).run ctx τ = .ok (.scalar ⟨.u16, 0x203⟩) τ) ∧
      ∃ e, ∀ w' : Allocator, w'.serve (.address big 1) = throw e := by
  intro ctx σ w big
  have hw := within_movesOf TwinHeaps.system stockCalls
  have hk : w.Known σ := by
    intro a ha
    obtain rfl : 0 = a := Allocator.arena.inj ha
    decide +kernel
  have hctx : ctx.system.Within TwinHeaps.system := .refl _
  have harray := play_delivers TwinHeaps.lawful hw hctx hk (.array .u16 big [1, 0x203, 0xffff])
    (by decide)
  have haddress := play_delivers TwinHeaps.lawful hw hctx hk (.address big 1) (by decide)
  have hroom : (w.allocate 6 2).value? ctx σ = some ⟨0x20000010, 6, 1⟩ := by decide +kernel
  obtain ⟨ρ, hr⟩ := run_of_value? hroom
  obtain ⟨τ, hserve, hfilled⟩ := harray.filled (by decide) _ ρ hr
  exact ⟨hw, ⟨_, τ, hserve, hfilled.size, hfilled.element 1 (by decide) ctx hfilled.usable⟩,
    haddress.unfit (by decide)⟩

end ScopedMemory
