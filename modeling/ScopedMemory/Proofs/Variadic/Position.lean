import ScopedMemory.Proofs.Variadic.Again

namespace ScopedMemory

open Operation

variable {system : SystemAllocator} {strict : Prop} {waiting : List Block} {G : List Region}
  {ctx : Context} {σ τ : Store}

/-! ### How far a list has been read -/

/-- Where a list begins, how many bytes it has and how many of its slots have been moved over. -/
structure Progress where
  start : Word
  span : Nat
  slots : Nat
deriving DecidableEq, Repr

def Progress.read (p : Progress) (n : Nat) : Progress := { p with slots := p.slots + n }

namespace VariadicList

variable {v : VariadicList} {c : Cursor} {l : Layout} {w : Allocator} {p : Progress}

/-- How many bytes there are from the next slot to the end. -/
def unread (v : VariadicList) : Nat :=
  match v.cursor with
  | some c => c.remaining.size.toNat
  | none => 0

theorem unread_of_cursor (hc : v.cursor = some c) : v.unread = c.remaining.size.toNat := by
  unfold unread
  rw [hc]

theorem address_of_cursor (hc : v.cursor = some c) : v.address = c.remaining.start := by
  unfold address
  rw [hc]

theorem position_of_cursor (hc : v.cursor = some c) :
    v.position = c.remaining.start - c.start := by
  unfold position
  rw [hc]

structure StandsAt (v : VariadicList) (p : Progress) : Prop where
  position : v.position.toNat = p.slots * v.convention.slotSize.toNat
  address : v.address.toNat = p.start.toNat + v.position.toNat
  unread : v.unread + v.position.toNat = p.span
  finish : p.start.toNat + p.span < 0x10000000000000000

theorem standsAt_empty (k : Convention) : (empty k).StandsAt ⟨0, 0, 0⟩ where
  position := (Nat.zero_mul _).symm
  address := rfl
  unread := rfl
  finish := by decide

/-- No slot has been moved over. -/
theorem standsAt_start {k : Convention} {s : ScopeId} {start : Word} {r : Region}
    (foreign : Bool) (hstart : r.start = start) (hf : r.Fits) :
    (⟨k, s, some ⟨start, r, foreign⟩⟩ : VariadicList).StandsAt ⟨start, r.size.toNat, 0⟩ := by
  have hzero : (⟨k, s, some ⟨start, r, foreign⟩⟩ : VariadicList).position.toNat = 0 := by
    change (r.start - start).toNat = 0
    rw [hstart, UInt64.sub_self]
    rfl
  have hend := Region.fits_iff.mp hf
  rw [hstart] at hend
  refine ⟨?_, ?_, ?_, hend⟩
  · rw [hzero, Nat.zero_mul]
  · rw [hzero]
    exact congrArg UInt64.toNat hstart
  · rw [hzero]
    rfl

theorem StandsAt.start (h : v.StandsAt p) (hc : v.cursor = some c) : c.start = p.start := by
  have haddress := h.address
  have hunread := h.unread
  have hfinish := h.finish
  rw [address_of_cursor hc, position_of_cursor hc] at haddress
  rw [position_of_cursor hc] at hunread
  have hsum : c.remaining.start = p.start + (c.remaining.start - c.start) := by
    rw [← UInt64.toNat_inj, UInt64.toNat_add, haddress, Nat.mod_eq_of_lt]
    omega
  grind

theorem StandsAt.started (h : v.StandsAt p) (hc : v.cursor = some c) :
    c.start.toNat ≤ c.remaining.start.toNat := by
  rw [h.start hc, ← address_of_cursor hc, h.address]
  exact Nat.le_add_right _ _

theorem StandsAt.fits (h : v.StandsAt p) (hc : v.cursor = some c) : c.remaining.Fits := by
  have hunread := h.unread
  have hfinish := h.finish
  rw [Region.fits_iff, ← address_of_cursor hc, ← unread_of_cursor hc, h.address]
  omega

/-- The position grows by what the list has moved over, and what is left gets shorter by as much. -/
theorem StandsAt.moved (h : v.StandsAt p) (hc : v.cursor = some c) {n : Word} {k : Nat}
    (hn : Word.mul? v.convention.slotSize (.ofNat k) = some n) (hsp : c.remaining.Spans 0 n) :
    (v.moved c n).StandsAt (p.read (UInt64.ofNat k).toNat) := by
  have hstarted := h.started hc
  have hposition := h.position
  have hunread := h.unread
  rw [toNat_position hc hstarted] at hposition
  rw [unread_of_cursor hc, toNat_position hc hstarted] at hunread
  rw [Word.mul?_eq_some_iff, Nat.mul_comm] at hn
  obtain ⟨_, hrest⟩ := spans_rest (h.fits hc) hsp
  have hle := hrest.1
  have hstart : (c.moved n).remaining.start.toNat = c.remaining.start.toNat + n.toNat :=
    Region.toNat_start_narrow hrest
  have hsize : (c.moved n).remaining.size.toNat = c.remaining.size.toNat - n.toNat :=
    UInt64.toNat_sub_of_le _ _ (UInt64.le_iff_toNat_le.mpr (by omega))
  have hmoved : (v.moved c n).position.toNat =
      c.remaining.start.toNat - c.start.toNat + n.toNat := by
    have hlater : (c.moved n).start.toNat ≤ (c.moved n).remaining.start.toNat := by
      rw [hstart]
      exact Nat.le_trans hstarted (Nat.le_add_right _ _)
    rw [toNat_position (v := v.moved c n) rfl hlater, hstart]
    exact Nat.sub_add_comm hstarted
  refine ⟨?_, ?_, ?_, h.finish⟩
  · change _ = (p.slots + _) * v.convention.slotSize.toNat
    rw [hmoved, hposition, hn, Nat.add_mul]
  · have hbegin := congrArg UInt64.toNat (h.start hc)
    change (c.moved n).remaining.start.toNat = p.start.toNat + _
    rw [hmoved, hstart]
    omega
  · change (c.moved n).remaining.size.toNat + _ = p.span
    rw [hmoved, hsize]
    omega


/-! ### New lists -/

theorem leads_ofAddress_whole (k : Convention) (start : Word) (s : ScopeId) :
    (ofAddress k start s).Leads ctx σ
      (fun v τ => v = ⟨k, s, some ⟨start, ⟨start, 0xffffffffffffffff - start, s⟩, true⟩⟩ ∧ τ = σ)
      (· = σ) := by
  unfold ofAddress
  by_cases h0 : start = 0
  · rw [if_pos h0]
    exact leads_throw rfl
  · rw [if_neg h0]
    refine Region.leads_ofAddress.bind ?_
    rintro _ _ ⟨_, rfl, rfl⟩
    exact leads_pure ⟨rfl, rfl⟩

/-- An adopted list goes on to the last address. -/
theorem standsAt_adopted (k : Convention) (start : Word) (s : ScopeId) :
    (⟨k, s, some ⟨start, ⟨start, 0xffffffffffffffff - start, s⟩, true⟩⟩ : VariadicList).StandsAt
      ⟨start, 0xffffffffffffffff - start.toNat, 0⟩ := by
  have hlast : (0xffffffffffffffff : Word).toNat = 0xffffffffffffffff := by decide
  have hlt := start.toNat_lt
  have hle : start ≤ 0xffffffffffffffff := by
    rw [UInt64.le_iff_toNat_le, hlast]
    omega
  have hlength : (0xffffffffffffffff - start : Word).toNat = 0xffffffffffffffff - start.toNat := by
    rw [UInt64.toNat_sub_of_le _ _ hle, hlast]
  have hfits : (⟨start, 0xffffffffffffffff - start, s⟩ : Region).Fits := by
    rw [Region.fits_iff, hlength]
    dsimp only
    omega
  have h := standsAt_start (k := k) (s := s) true rfl hfits
  dsimp only at h
  rwa [hlength] at h

end VariadicList

namespace VariadicBuilder

variable {c : Convention} {a : ArenaId} {buffer : Region}

/-- All arguments from number `index` on have been written, so there were slots for them. -/
theorem fits_writeSlots (hpos : 0 < c.slotSize.toNat) (args : List Argument) {index : Nat}
    (hindex : index * c.slotSize.toNat ≤ buffer.size.toNat) :
    (writeSlots c a buffer index args).Leads ctx σ
      (fun _ _ => (index + args.length) * c.slotSize.toNat ≤ buffer.size.toNat) fun _ => True := by
  induction args generalizing σ index with
  | nil => exact leads_pure hindex
  | cons arg args ih =>
    refine Region.leads_slice.chain (fun _ _ => trivial) fun slot τ h => ?_
    have hsp := (Store.checkAccess_eq_ok_iff.mp h.1).2.1
    rw [toNat_slot hindex buffer.size.toNat_lt hpos, ← Nat.succ_mul] at hsp
    refine (leads_of trivial).bind fun _ ρ _ => (ih hsp).imp (fun _ _ hend => ?_) fun _ h => h
    rwa [List.length_cons, ← Nat.add_assoc, Nat.add_right_comm]

/-- A list that was built has one slot for each argument. -/
theorem sized_build (hs : σ.Sound system strict waiting) (hw : ctx.system.Within system)
    (b : VariadicBuilder) :
    b.build.Leads ctx σ
      (fun v _ => b.arguments = [] ∧ v = .empty b.convention ∨
        ∃ buffer, v = .ofBuffer b.convention buffer b.scope ∧ σ.IsAlive b.scope ∧
          buffer.size.toNat = b.arguments.length * b.convention.slotSize.toNat)
      fun _ => True := by
  unfold build
  split
  next hn => exact leads_pure (Or.inl ⟨hn, rfl⟩)
  next =>
    dsimp only
    split
    next => exact leads_throw trivial
    next size hmul =>
      refine (ArenaId.leads_create _ _ _).chain (fun _ _ => trivial) fun a τ h => ?_
      obtain ⟨_, hu, rfl, rfl⟩ := h
      have halive := (Store.checkUsable_eq_ok_iff.mp hu).2
      have hc : Store.Change system σ []
          (σ.addArena ⟨b.scope, .unbounded 4096, 16, none, {}⟩) := .arena halive rfl
      have ha : σ.arenas.length <
          (σ.addArena ⟨b.scope, .unbounded 4096, 16, none, {}⟩).arenas.length := by simp
      have hserve := ArenaId.serves_allocate (hc.sound hs) hw ha size b.convention.slotSize
      refine ((ArenaId.leads_allocate_request size b.convention.slotSize).and hserve).chain
        (fun _ _ => trivial) fun buffer ρ h => ?_
      obtain ⟨⟨hpow, _⟩, _, hm⟩ := h
      refine (fits_writeSlots hpow.pos b.arguments (by rw [Nat.zero_mul]; exact Nat.zero_le _)).chain
        (fun _ _ => trivial) fun _ τ hend => leads_pure (Or.inr ⟨buffer, rfl, halive, ?_⟩)
      rw [Nat.zero_add, hm.size] at hend
      rw [hm.size]
      exact toNat_slots hmul hend

/-- A built list stands before its first argument. -/
theorem standsAt_build (hlaw : system.Lawful) (hs : σ.Sound system strict waiting)
    (hl : σ.Ledger G) (hw : ctx.system.Within system) (b : VariadicBuilder) :
    b.build.Leads ctx σ
      (fun v _ => v.convention = b.convention ∧ v.StandsAt
        ⟨v.address, b.arguments.length * b.convention.slotSize.toNat, 0⟩)
      fun _ => True := by
  refine ((leads_build hs hw b).and (sized_build hs hw b)).imp (fun v τ h => ?_) fun _ _ => trivial
  obtain ⟨⟨rs, hc, hv⟩, ⟨hn, rfl⟩ | ⟨buffer, rfl, ha, hsize⟩⟩ := h
  · rw [hn, List.length_nil, Nat.zero_mul]
    exact ⟨rfl, VariadicList.standsAt_empty _⟩
  · rcases hv with hv | ⟨buffer', hmem, hscope, hv⟩
    · cases congrArg VariadicList.cursor hv
    · have hrest := congrArg Cursor.remaining (Option.some.inj (congrArg VariadicList.cursor hv))
      obtain rfl : buffer' = buffer := hrest.symm
      have hin := (hc.ledger hlaw.separate hs hl).inside _ (List.mem_append_right _ hmem)
      have hfits := hin.fits hlaw (hc.sound hs) (hscope ▸ hc.extends.isAlive ha)
      have h := VariadicList.standsAt_start (k := b.convention) (s := b.scope) false
        rfl hfits
      rw [hsize] at h
      exact ⟨rfl, h⟩

end VariadicBuilder

/-! ### Readings that fail -/

theorem VariadicList.Sits.fails_readSegment {v : VariadicList} {c : Cursor}
    (h : v.Sits c σ) (hlaw : system.Lawful)
    (hs : σ.Sound system strict waiting) (hl : σ.Ledger G) (hw : ctx.system.Within system)
    {w : Allocator} (hk : w.Known σ) (l : Layout) :
    (v.readSegment l w).Leads ctx σ (fun _ _ => True)
      fun τ => ∀ x, τ.memory.byte x ≠ σ.memory.byte x → ¬ σ.InUse x ∧ τ.InUse x := by
  have hsame : ∀ τ, τ = σ → ∀ x, τ.memory.byte x ≠ σ.memory.byte x → ¬ σ.InUse x ∧ τ.InUse x :=
    fun τ hτ x hx => absurd (by rw [hτ]) hx
  refine (leads_readSlot_next (P := fun _ _ => True) h.cursor (fun _ => h.fits) (hsame σ rfl)
    fun hu hn => ?_).imp (fun _ _ _ => trivial) fun _ hτ => hτ
  refine (leads_structSource_shape h.scope).chain hsame ?_
  rintro src _ ⟨hscope, hsize, rfl⟩
  refine (Allocator.leads_allocate hs hw hk l.size l.align).chain
    (fun τ hτ x hx => hτ.taken hlaw.separate hs hx) fun r ρ hg => ?_
  have hlt : c.remaining.scope < _ :=
    Store.lt_length_of_isAlive (Store.checkUsable_eq_ok_iff.mp hu).2
  refine Region.leads_copyFrom.chain
    (fun τ hτ x hx => ?_) fun _ τ hτ => ?_
  · subst hτ
    exact hg.changes.taken hlaw.separate hs hx
  · obtain ⟨_, _, rfl⟩ := hτ
    exact leads_pure ⟨(hg.changes.extends.checkUsable hlt _).trans hu, trivial⟩

end ScopedMemory
