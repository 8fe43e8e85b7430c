import ScopedMemory.Proofs.Arena.Supply
import ScopedMemory.Proofs.Region.Encoding
import ScopedMemory.Proofs.Variadic.Slots

namespace ScopedMemory

open Operation

variable {system : SystemAllocator} {strict : Prop} {waiting : List Block} {ctx : Context}
  {σ τ : Store} {s : ScopeId} {a : ArenaId} {c : Convention}

/-- Slots that an arena can align, and addresses of the stated width that fit in them. -/
structure Convention.Regular (c : Convention) : Prop where
  slot : c.slotSize.IsPowerOfTwo
  value : c.addressLayout.IsValue
  size : c.addressLayout.size.toNat = c.width.bytes
  fits : c.width.bytes ≤ c.slotSize.toNat

namespace Argument

/-- A slot has room for the number, or the address is narrow enough. Structs were looked at when
they were added. -/
def Fits (arg : Argument) (c : Convention) : Prop :=
  match arg.value with
  | .int _ => 4 ≤ c.slotSize.toNat
  | .long _ | .double _ => 8 ≤ c.slotSize.toNat
  | .address x => x.toNat < c.width.addresses
  | .segment _ => True

instance (arg : Argument) (c : Convention) : Decidable (arg.Fits c) :=
  match arg with
  | ⟨_, .int _⟩ => inferInstanceAs (Decidable (4 ≤ c.slotSize.toNat))
  | ⟨_, .long _⟩ | ⟨_, .double _⟩ => inferInstanceAs (Decidable (8 ≤ c.slotSize.toNat))
  | ⟨_, .address x⟩ => inferInstanceAs (Decidable (x.toNat < c.width.addresses))
  | ⟨_, .segment _⟩ => inferInstanceAs (Decidable True)

/-- The argument was accepted and fits. If it is a struct, all of its source can be read. -/
structure Ready (arg : Argument) (c : Convention) (ctx : Context) (σ : Store) : Prop where
  accepted : arg.Accepted c
  fits : arg.Fits c
  align : arg.layout.align.IsPowerOfTwo
  source : ∀ r, arg.value = .segment r → σ.checkAccess ctx.caller r 0 r.size = .ok ()

theorem Ready.extends {arg : Argument} (h : arg.Ready c ctx σ) (hx : σ.Extends τ) :
    arg.Ready c ctx τ := by
  refine ⟨h.accepted, h.fits, h.align, fun r hv => ?_⟩
  obtain ⟨hu, hspan⟩ := Store.checkAccess_eq_ok_iff.mp (h.source r hv)
  have hlt := Store.lt_length_of_isAlive (Store.checkUsable_eq_ok_iff.mp hu).2
  refine Store.checkAccess_eq_ok_iff.mpr ⟨?_, hspan⟩
  rw [hx.checkUsable hlt]
  exact hu

/-- The argument is a struct that is copied out of its slot. -/
def IsCopied (arg : Argument) (c : Convention) : Prop :=
  (∃ r, arg.value = .segment r) ∧ c.classifyStruct arg.layout = .ok .structReference

end Argument

/-- So much memory cannot be asked for, or the system refuses a block for it. -/
def Store.Lacks (σ : Store) (system : SystemAllocator) (s : ScopeId) (size : Nat) (align : Word) :
    Prop :=
  0x8000000000000000 ≤ size ∨ σ.Refuses system s (.ofNat size) align

/-- There is no memory for the slots, or for the copy of a struct. -/
def VariadicBuilder.Starved (b : VariadicBuilder) (system : SystemAllocator) (σ : Store) : Prop :=
  σ.Lacks system b.scope (b.arguments.length * b.convention.slotSize.toNat)
      b.convention.slotSize ∨
    ∃ arg ∈ b.arguments, arg.IsCopied b.convention ∧
      σ.Lacks system b.scope arg.layout.size.toNat arg.layout.align

theorem Store.Extends.poolOf (h : σ.Extends τ) (hs : s < σ.scopes.length) :
    τ.poolOf s = σ.poolOf s := by
  unfold Store.poolOf
  rw [(h.owner s hs).1]

/-! ### What is written to a slot -/

namespace Region

theorem leads_write_of_takes {r : Region} {bytes : Bytes} {P : Unit → Store → Prop}
    {Q : Store → Prop} (hu : σ.checkUsable ctx.caller r.scope = .ok ())
    (ht : r.Takes 0 bytes.length) (h : ∀ m, P () (σ.setMemory m)) :
    (r.write 0 bytes).Leads ctx σ P Q := by
  have hc : σ.checkWrite ctx.caller r 0 bytes.length = .ok () :=
    Store.checkWrite_eq_ok_iff.mpr ⟨hu, ht⟩
  unfold Leads
  rw [run_write, hc]
  exact h _

theorem leads_setAddress_of_lt {r : Region} {l : Layout} {w : AddressWidth} {x : Word}
    {P : Unit → Store → Prop} {Q : Store → Prop} (hv : l.IsValue) (hs : l.size.toNat = w.bytes)
    (hx : x.toNat < w.addresses) (hu : σ.checkUsable ctx.caller r.scope = .ok ())
    (ht : r.Takes 0 w.bytes) (h : ∀ m, P () (σ.setMemory m)) :
    (r.setAddress l 0 x).Leads ctx σ P Q := by
  have hb := (addressBytes_eq_ok_iff hv hs).mpr ⟨hx, rfl⟩
  unfold addressBytes at hb
  have hw : (r.write 0 (l.order.encode w.bytes x.toNat)).Leads ctx σ P Q :=
    leads_write_of_takes hu (by rwa [ByteOrder.length_encode]) h
  unfold Leads at hw ⊢
  rw [run_setAddress]
  rw [addressWidth_eq_ok hv hs] at hb ⊢
  dsimp only at hb ⊢
  rw [hb]
  exact hw

theorem leads_slice_of_spans {r : Region} {offset size : Word} {P : Region → Store → Prop}
    {Q : Store → Prop} (hu : σ.checkUsable ctx.caller r.scope = .ok ())
    (hspan : r.Spans offset size) (h : P (r.narrow offset size) σ) :
    (r.slice offset size).Leads ctx σ P Q := by
  have hc : σ.checkAccess ctx.caller r offset size = .ok () :=
    Store.checkAccess_eq_ok_iff.mpr ⟨hu, hspan⟩
  unfold Leads
  rw [run_slice, hc]
  exact h

theorem leads_copyFrom_of_access {r src : Region} {P : Unit → Store → Prop} {Q : Store → Prop}
    (hsrc : σ.checkAccess ctx.caller src 0 src.size = .ok ())
    (hr : σ.checkAccess ctx.caller r 0 src.size = .ok ()) (h : ∀ m, P () (σ.setMemory m)) :
    (r.copyFrom src).Leads ctx σ P Q := by
  unfold Leads
  rw [run_copyFrom, hsrc]
  dsimp only
  rw [hr]
  exact h _

end Region

theorem Convention.classifyStruct_eq_ok {l : Layout} {found : TypeClass}
    (h : c.classifyStruct l = .ok found) (hn : found ≠ .structReference) :
    l.size.toNat ≤ c.slotSize.toNat := by
  unfold classifyStruct at h
  dsimp only at h
  split at h
  next => cases h
  next hfit =>
    split at h
    next hstruct =>
      cases h
      have hreg : c.classify .segment l = .structRegister := hstruct.resolve_right hn
      have hle : ¬ c.slotSize < l.size := fun hlt => hfit ⟨hreg, hlt⟩
      rw [UInt64.lt_iff_toNat_lt] at hle
      omega
    next => cases h

namespace VariadicBuilder

/-- The arena can go on to supply the slots of the convention, in a scope that can be used and with
blocks at addresses that fit. -/
structure Fed (system : SystemAllocator) (strict : Prop) (waiting : List Block) (ctx : Context)
    (c : Convention) (a : ArenaId) (s : ScopeId) (σ : Store) : Prop where
  sound : σ.Sound system strict waiting
  supplies : σ.Supplies a s c.width.addresses
  below : ctx.system.PlacesBelow system (σ.poolOf s) c.width.addresses
  usable : σ.checkUsable ctx.caller s = .ok ()

variable {rs : List Region} {writes : Prop} {slot src : Region} {arg : Argument}

theorem Fed.lt_length (h : Fed system strict waiting ctx c a s σ) : s < σ.scopes.length :=
  Store.lt_length_of_isAlive (Store.checkUsable_eq_ok_iff.mp h.usable).2

theorem Fed.changes (h : Fed system strict waiting ctx c a s σ)
    (hc : Store.Changes system writes σ rs τ) (ht : τ.Supplies a s c.width.addresses) :
    Fed system strict waiting ctx c a s τ := by
  refine ⟨hc.sound h.sound, ht, ?_, ?_⟩
  · rw [hc.extends.poolOf h.lt_length]
    exact h.below
  · rw [hc.extends.checkUsable h.lt_length]
    exact h.usable

theorem Fed.leads_allocate (h : Fed system strict waiting ctx c a s σ)
    (hw : ctx.system.Within system) (hal : system.Aligns) (size : Word) {align : Word}
    (hpow : align.IsPowerOfTwo) :
    (a.allocate size align).Leads ctx σ
      (fun r τ => Fed system strict waiting ctx c a s τ ∧ Store.Changes system False σ [r] τ ∧
        r.Meets system τ ctx.caller s size align ∧
        r.start.toNat + r.size.toNat < c.width.addresses)
      fun τ => τ.Lacks ctx.system s size.toNat align := by
  by_cases hbig : 0x8000000000000000 ≤ size.toNat
  · refine (ArenaId.leads_allocate_request size align).imp (fun _ _ hr => ?_)
      fun _ _ => Or.inl hbig
    exact absurd hr.2 (Nat.not_lt_of_le hbig)
  · have hserve : (a.allocate size align).Leads ctx σ _ _ :=
      ArenaId.serves_allocate h.sound hw h.supplies.known size align
    refine (hserve.and (ArenaId.supplied_allocate h.sound hw hal h.supplies
      c.width.addresses_le h.below h.usable hpow (Nat.lt_of_not_le hbig))).imp
        (fun r τ hr => ?_) fun τ hr => Or.inr ?_
    · obtain ⟨⟨hc, hm⟩, hend, ht⟩ := hr
      rw [h.supplies.scope] at hm
      exact ⟨h.changes hc ht, hc, hm, hend⟩
    · rw [UInt64.ofNat_toNat]
      exact hr.2

theorem fed_create (hs : σ.Sound system strict waiting) (hu : σ.checkUsable ctx.caller s = .ok ())
    (hbelow : ctx.system.PlacesBelow system (σ.poolOf s) c.width.addresses) :
    (ArenaId.create (.unbounded 4096) {} s).Leads ctx σ
      (fun a τ => Fed system strict waiting ctx c a s τ ∧ σ.Extends τ) fun _ => False := by
  have halive := (Store.checkUsable_eq_ok_iff.mp hu).2
  have hlt := Store.lt_length_of_isAlive halive
  have hc : Store.Change system σ [] (σ.addArena ⟨s, .unbounded 4096, 16, none, {}⟩) :=
    .arena halive rfl
  refine leads_require_bind rfl (leads_checkUsable_bind hu ?_)
  refine ⟨⟨hc.sound hs, Store.supplies_addArena, ?_, ?_⟩, hc.extends⟩
  · rw [hc.extends.poolOf hlt]
    exact hbelow
  · rw [hc.extends.checkUsable hlt]
    exact hu

/-- A slot of the convention in the scope, which ends inside the address space. -/
structure IsSlot (c : Convention) (s : ScopeId) (slot : Region) : Prop where
  scope : slot.scope = s
  size : slot.size = c.slotSize
  finish : slot.start.toNat + c.slotSize.toNat < 0x10000000000000000

theorem IsSlot.takes (h : IsSlot c s slot) {n : Nat} (hn : n ≤ c.slotSize.toNat) :
    slot.Takes 0 n := by
  have hend := h.finish
  unfold Region.Takes
  rw [h.size, UInt64.toNat_zero]
  omega

/-- The slots lie one behind the other in the buffer. -/
theorem isSlot_narrow {buffer : Region} {index : Nat} (hscope : buffer.scope = s)
    (hend : buffer.start.toNat + buffer.size.toNat < 0x10000000000000000)
    (hpos : 0 < c.slotSize.toNat)
    (hfit : index * c.slotSize.toNat + c.slotSize.toNat ≤ buffer.size.toNat) :
    buffer.Spans (.ofNat index * c.slotSize) c.slotSize ∧
      IsSlot c s (buffer.narrow (.ofNat index * c.slotSize) c.slotSize) := by
  have hoff : (UInt64.ofNat index * c.slotSize).toNat = index * c.slotSize.toNat :=
    toNat_slot (n := buffer.size.toNat) (by omega) buffer.size.toNat_lt hpos
  have hspan : buffer.Spans (.ofNat index * c.slotSize) c.slotSize := by
    unfold Region.Spans
    rw [hoff]
    omega
  have hstart := Region.toNat_start_narrow hspan
  rw [hoff] at hstart
  exact ⟨hspan, hscope, rfl, by omega⟩

/-- A struct gets its copy and the address of it is written to the slot. -/
theorem fed_copy (h : Fed system strict waiting ctx c a s σ) (hw : ctx.system.Within system)
    (hal : system.Aligns) (hreg : c.Regular) (hslot : IsSlot c s slot) {l : Layout}
    (hlen : src.size = l.size) (hpow : l.align.IsPowerOfTwo)
    (hsrc : σ.checkAccess ctx.caller src 0 src.size = .ok ()) :
    (do
      let copy ← (Allocator.arena a).allocateLayout l
      copy.copyFrom src
      slot.setAddress c.addressLayout 0 copy.start : Operation Unit).Leads ctx σ
        (fun _ τ => τ.Supplies a s c.width.addresses)
        fun τ => τ.Lacks ctx.system s l.size.toNat l.align := by
  obtain ⟨hsrcu, hsrcs⟩ := Store.checkAccess_eq_ok_iff.mp hsrc
  have hsrcl := Store.lt_length_of_isAlive (Store.checkUsable_eq_ok_iff.mp hsrcu).2
  have hgive := h.leads_allocate hw hal l.size hpow
  refine Leads.chain (x := (Allocator.arena a).allocateLayout l) hgive (fun _ hr => hr)
    fun copy ρ hr => ?_
  obtain ⟨hρ, hch, hm, hend⟩ := hr
  have hus : ρ.checkUsable ctx.caller slot.scope = .ok () := by
    rw [hslot.scope]
    exact hρ.usable
  have hread : ρ.checkAccess ctx.caller src 0 src.size = .ok () := by
    refine Store.checkAccess_eq_ok_iff.mpr ⟨?_, hsrcs⟩
    rw [hch.extends.checkUsable hsrcl]
    exact hsrcu
  have hcopy : ρ.checkAccess ctx.caller copy 0 src.size = .ok () := by
    refine Store.checkAccess_eq_ok_iff.mpr ⟨hm.usable, ?_⟩
    have hbits := c.width.addresses_le
    unfold Region.Spans
    rw [hlen, hm.size, UInt64.toNat_zero]
    rw [hm.size] at hend
    omega
  refine (Region.leads_copyFrom_of_access (P := fun _ ρ' => ∃ m, ρ' = ρ.setMemory m)
    (Q := fun _ => False) hread hcopy fun m => ⟨m, rfl⟩).chain (fun _ hf => hf.elim)
    fun _ ρ' hρ' => ?_
  obtain ⟨m, rfl⟩ := hρ'
  refine Region.leads_setAddress_of_lt hreg.value hreg.size ?_ hus (hslot.takes hreg.fits)
    (hρ.supplies.setMemory m).setMemory
  omega

/-- A struct that is no longer than the slot is written to its beginning. -/
theorem leads_writeRegister {P : Unit → Store → Prop} {Q : Store → Prop}
    (hu : σ.checkUsable ctx.caller s = .ok ()) (hslot : IsSlot c s slot) {size : Word}
    (hlen : src.size = size) (hfit : size.toNat ≤ c.slotSize.toNat)
    (hsrc : σ.checkAccess ctx.caller src 0 src.size = .ok ()) (h : ∀ m, P () (σ.setMemory m)) :
    (do (← slot.slice 0 size).copyFrom src : Operation Unit).Leads ctx σ P Q := by
  have hus : σ.checkUsable ctx.caller slot.scope = .ok () := by rwa [hslot.scope]
  have hspan : slot.Spans 0 size := Region.takes_toNat.mp (hslot.takes hfit)
  have hslice : (slot.slice 0 size).Leads ctx σ (fun r τ => r = slot.narrow 0 size ∧ τ = σ) Q :=
    Region.leads_slice_of_spans hus hspan ⟨rfl, rfl⟩
  refine hslice.bind fun r τ hr => ?_
  obtain ⟨rfl, rfl⟩ := hr
  refine Region.leads_copyFrom_of_access hsrc ?_ h
  refine Store.checkAccess_eq_ok_iff.mpr ⟨hus, ?_⟩
  have hstart := Region.toNat_start_narrow hspan
  unfold Region.Spans at hspan ⊢
  rw [hstart, hlen, UInt64.toNat_zero]
  exact ⟨Nat.le_of_eq (Nat.zero_add _), hspan.2⟩

/-- An argument that fits is written to its slot, unless there is no memory for its copy. -/
theorem fed_writeSlot (h : Fed system strict waiting ctx c a s σ) (hw : ctx.system.Within system)
    (hal : system.Aligns) (hreg : c.Regular) (hslot : IsSlot c s slot)
    (harg : arg.Ready c ctx σ) :
    (writeSlot c a slot arg).Leads ctx σ (fun _ τ => τ.Supplies a s c.width.addresses)
      fun τ => arg.IsCopied c ∧ τ.Lacks ctx.system s arg.layout.size.toNat arg.layout.align := by
  have hus : σ.checkUsable ctx.caller slot.scope = .ok () := by
    rw [hslot.scope]
    exact h.usable
  have hcheck := harg.accepted.carrier
  have hfits := harg.fits
  unfold Argument.Fits at hfits
  have hset : ∀ x : Scalar, x.type.carrier.check arg.layout .native = .ok () →
      x.type.size ≤ c.slotSize.toNat → (slot.set arg.layout 0 x).Leads ctx σ
        (fun _ τ => τ.Supplies a s c.width.addresses) fun τ => arg.IsCopied c ∧
          τ.Lacks ctx.system s arg.layout.size.toNat arg.layout.align := by
    intro x hx hn
    unfold Region.set
    refine leads_require_bind hx ?_
    refine Region.leads_write_of_takes hus (hslot.takes ?_) h.supplies.setMemory
    rwa [Scalar.length_encode]
  unfold writeSlot
  split
  next x hv =>
    rw [hv] at hcheck hfits
    exact hset ⟨.i32, x⟩ hcheck hfits
  next x hv =>
    rw [hv] at hcheck hfits
    exact hset ⟨.i64, x⟩ hcheck hfits
  next x hv =>
    rw [hv] at hcheck hfits
    exact hset ⟨.f64, x⟩ hcheck hfits
  next x hv =>
    rw [hv] at hcheck hfits
    obtain ⟨hvalue, hls⟩ := (Carrier.check_eq_ok_iff (w := c.width) rfl).mp hcheck
    refine Region.leads_setAddress_of_lt hvalue ?_ hfits hus (hslot.takes hreg.fits)
      h.supplies.setMemory
    rw [hls]
    cases c.width <;> rfl
  next src hv =>
    obtain ⟨hlen, found, hfound⟩ := harg.accepted.segment src hv
    have hsrc := harg.source src hv
    refine leads_require_bind hfound ?_
    split
    next =>
      refine (fed_copy h hw hal hreg hslot hlen harg.align hsrc).imp (fun _ _ hr => hr)
        fun τ hr => ?_
      exact ⟨⟨⟨src, hv⟩, hfound⟩, hr⟩
    next hn =>
      exact leads_writeRegister h.usable hslot hlen (Convention.classifyStruct_eq_ok hfound hn)
        hsrc h.supplies.setMemory

theorem fed_writeSlots (h : Fed system strict waiting ctx c a s σ) (hw : ctx.system.Within system)
    (hal : system.Aligns) (hreg : c.Regular) {buffer : Region} (hscope : buffer.scope = s)
    (hend : buffer.start.toNat + buffer.size.toNat < 0x10000000000000000) {index : Nat}
    {args : List Argument}
    (hfit : (index + args.length) * c.slotSize.toNat ≤ buffer.size.toNat)
    (hargs : ∀ arg ∈ args, arg.Ready c ctx σ) :
    (writeSlots c a buffer index args).Leads ctx σ (fun _ _ => True)
      fun τ => ∃ arg ∈ args, arg.IsCopied c ∧
        τ.Lacks ctx.system s arg.layout.size.toNat arg.layout.align := by
  induction args generalizing σ index with
  | nil => exact leads_pure trivial
  | cons arg args ih =>
    have hall : (index + (arg :: args).length) * c.slotSize.toNat =
        index * c.slotSize.toNat + c.slotSize.toNat + args.length * c.slotSize.toNat := by
      rw [List.length_cons, Nat.add_mul, Nat.succ_mul]
      omega
    rw [hall] at hfit
    have hfirst : index * c.slotSize.toNat + c.slotSize.toNat ≤ buffer.size.toNat := by omega
    obtain ⟨hspan, hslot⟩ := isSlot_narrow hscope hend hreg.slot.pos hfirst
    have hslice : (buffer.slice (.ofNat index * c.slotSize) c.slotSize).Leads ctx σ
        (fun slot τ => slot = buffer.narrow (.ofNat index * c.slotSize) c.slotSize ∧ τ = σ)
        fun _ => False :=
      Region.leads_slice_of_spans (by rw [hscope]; exact h.usable) hspan ⟨rfl, rfl⟩
    refine hslice.chain (fun _ hf => hf.elim) fun slot τ hr => ?_
    obtain ⟨rfl, rfl⟩ := hr
    have hone := (leads_writeSlot h.sound hw h.supplies.known _ arg).and
      (fed_writeSlot h hw hal hreg hslot (hargs arg List.mem_cons_self))
    refine hone.chain (fun ρ hr => ⟨arg, List.mem_cons_self, hr.2⟩) fun _ ρ hr => ?_
    obtain ⟨⟨rs, hch⟩, hsup⟩ := hr
    refine (ih (h.changes hch hsup) ?_ fun arg' h' => ?_).imp (fun _ _ hr => hr) fun ν hr => ?_
    · rw [Nat.add_mul, Nat.succ_mul]
      exact hfit
    · exact (hargs arg' (List.mem_cons_of_mem _ h')).extends hch.extends
    · obtain ⟨arg', h', hl⟩ := hr
      exact ⟨arg', List.mem_cons_of_mem _ h', hl⟩

variable {b : VariadicBuilder}

/-- Arguments that are ready are built, unless there is no memory for them. -/
theorem fed_build (hs : σ.Sound system strict waiting) (hw : ctx.system.Within system)
    (hal : system.Aligns) (hreg : b.convention.Regular)
    (hu : σ.checkUsable ctx.caller b.scope = .ok ())
    (hbelow : ctx.system.PlacesBelow system (σ.poolOf b.scope) b.convention.width.addresses)
    (hargs : ∀ arg ∈ b.arguments, arg.Ready b.convention ctx σ) :
    b.build.Leads ctx σ (fun _ _ => True) (b.Starved ctx.system) := by
  by_cases hbig : 0x8000000000000000 ≤ b.arguments.length * b.convention.slotSize.toNat
  · exact (leads_of trivial).imp (fun _ _ _ => trivial) fun _ _ => Or.inl (Or.inl hbig)
  have hpos := hreg.slot.pos
  have hle : b.arguments.length ≤ b.arguments.length * b.convention.slotSize.toNat :=
    Nat.le_mul_of_pos_right _ hpos
  have hcount : (UInt64.ofNat b.arguments.length).toNat = b.arguments.length := by
    rw [UInt64.toNat_ofNat', Nat.mod_eq_of_lt (by omega)]
  unfold build
  split
  next => exact leads_pure trivial
  dsimp only
  split
  next hnone =>
    unfold Word.mul? at hnone
    rw [if_pos (by rw [hcount, Nat.mul_comm]; omega)] at hnone
    cases hnone
  next size hmul =>
    rw [Word.mul?_eq_some_iff, hcount, Nat.mul_comm] at hmul
    refine (fed_create hs hu hbelow).chain (fun _ hf => hf.elim) fun a σ' hr => ?_
    obtain ⟨hfed, hx⟩ := hr
    refine (hfed.leads_allocate hw hal size hreg.slot).chain (fun τ hr => ?_)
      fun buffer ρ hr => ?_
    · rw [hmul] at hr
      exact Or.inl hr
    obtain ⟨hρ, hch, hm, hend⟩ := hr
    have hbits := b.convention.width.addresses_le
    have hfit : (0 + b.arguments.length) * b.convention.slotSize.toNat ≤ buffer.size.toNat := by
      rw [Nat.zero_add, hm.size]
      exact Nat.le_of_eq hmul.symm
    have hwrite := fed_writeSlots hρ hw hal hreg hm.scope (by omega) hfit fun arg harg =>
      (hargs arg harg).extends (hx.trans hch.extends)
    exact hwrite.chain (fun τ hr => Or.inr hr) fun _ τ _ => leads_pure trivial

/-! ### What has been built was fit for it -/

theorem leads_fits_writeSlot (hsize : slot.size = c.slotSize) (hacc : arg.Accepted c) :
    (writeSlot c a slot arg).Leads ctx σ (fun _ _ => arg.Fits c) fun _ => True := by
  have hcheck := hacc.carrier
  have hset : ∀ x : Scalar, (slot.set arg.layout 0 x).Leads ctx σ
      (fun _ _ => x.type.size ≤ c.slotSize.toNat) fun _ => True := by
    intro x
    refine Region.leads_set.imp (fun _ τ h => ?_) fun _ _ => trivial
    have htake := (Store.checkWrite_eq_ok_iff.mp h.2.1).2.1
    rw [hsize, Scalar.length_encode, UInt64.toNat_zero, Nat.zero_add] at htake
    exact htake
  obtain ⟨layout, value⟩ := arg
  cases value with
  | int x => exact hset ⟨.i32, x⟩
  | long x => exact hset ⟨.i64, x⟩
  | double x => exact hset ⟨.f64, x⟩
  | address x =>
    obtain ⟨hvalue, hls⟩ := (Carrier.check_eq_ok_iff (w := c.width) rfl).mp hcheck
    refine Region.leads_setAddress.imp (fun _ τ h => ?_) fun _ _ => trivial
    obtain ⟨bytes, hb, _⟩ := h
    refine ((Region.addressBytes_eq_ok_iff hvalue ?_).mp hb).1
    rw [hls]
    cases c.width <;> rfl
  | segment src => exact leads_of trivial

theorem leads_fits_writeSlots (buffer : Region) (index : Nat) {args : List Argument}
    (hacc : ∀ arg ∈ args, arg.Accepted c) :
    (writeSlots c a buffer index args).Leads ctx σ (fun _ _ => ∀ arg ∈ args, arg.Fits c)
      fun _ => True := by
  induction args generalizing σ index with
  | nil => exact leads_pure fun arg harg => by cases harg
  | cons arg args ih =>
    refine Region.leads_slice.chain (fun _ _ => trivial) fun slot τ h => ?_
    obtain ⟨_, rfl, rfl⟩ := h
    refine (leads_fits_writeSlot rfl (hacc arg List.mem_cons_self)).bind fun _ ρ hfit => ?_
    refine (ih (index + 1) fun arg' h' => hacc arg' (List.mem_cons_of_mem _ h')).imp
      (fun _ _ hrest arg' h' => ?_) fun _ h => h
    rcases List.mem_cons.mp h' with rfl | h'
    · exact hfit
    · exact hrest arg' h'

theorem leads_fits_build (hacc : ∀ arg ∈ b.arguments, arg.Accepted b.convention) :
    b.build.Leads ctx σ (fun _ _ => ∀ arg ∈ b.arguments, arg.Fits b.convention) fun _ => True := by
  unfold build
  split
  next hnil =>
    refine leads_pure fun arg harg => ?_
    rw [hnil] at harg
    cases harg
  dsimp only
  split
  next => exact leads_throw trivial
  next size _ =>
    refine (leads_of trivial).bind (P := fun _ _ => True) fun a τ _ => ?_
    refine (leads_of trivial).bind (P := fun _ _ => True) fun buffer ρ _ => ?_
    exact (leads_fits_writeSlots buffer 0 hacc).bind fun _ _ h => leads_pure h

end VariadicBuilder
end ScopedMemory
