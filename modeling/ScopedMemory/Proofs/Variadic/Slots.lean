import ScopedMemory.Proofs.Arena.Settled
import ScopedMemory.Proofs.Variadic.Builder
import ScopedMemory.Session.Handle

namespace ScopedMemory

open Operation

variable {system : SystemAllocator} {strict : Prop} {waiting : List Block} {G : List Region}
  {ctx : Context} {σ τ ρ : Store} {a : ArenaId} {c : Convention} {s : ScopeId}

def Memory.Shows (m : Memory) (start : Nat) (bytes : Bytes) : Prop :=
  m.read start bytes.length = bytes

theorem Memory.Shows.congr {m n : Memory} {start : Nat} {bytes : Bytes} (h : m.Shows start bytes)
    (he : ∀ x, start ≤ x → x < start + bytes.length → n.byte x = m.byte x) :
    n.Shows start bytes := by
  unfold Shows at *
  rw [read_congr he, h]

namespace Argument

/-- The struct of the argument as memory has it. Other arguments have none. -/
def contents (arg : Argument) (m : Memory) : Bytes :=
  match arg.region? with
  | some r => m.read r.start.toNat r.size.toNat
  | none => []

theorem region?_of_value {arg : Argument} {v : ArgumentValue} (hv : arg.value = v) :
    arg.region? = region? ⟨arg.layout, v⟩ := by
  rw [← hv]

theorem contents_of_segment {arg : Argument} {src : Region} (hv : arg.value = .segment src)
    (m : Memory) : arg.contents m = m.read src.start.toNat src.size.toNat := by
  unfold contents
  rw [region?_of_value hv]
  rfl

theorem isAlive_of_segment {arg : Argument} {src : Region} (hv : arg.value = .segment src)
    (hlive : σ.IsAlive src.scope) : ∀ r, arg.region? = some r → σ.IsAlive r.scope := by
  intro r hr
  have hregion : arg.region? = some src := region?_of_value hv
  obtain rfl := Option.some.inj (hregion.symm.trans hr)
  exact hlive

/-- The bytes that the slot of an argument begins with, for a struct with these contents of which
there may be a copy. -/
inductive Travels (arg : Argument) (c : Convention) (contents : Bytes) :
    Option Region → Bytes → Prop
  | int {x} (hv : arg.value = .int x) :
      Travels arg c contents none (Scalar.encode ⟨.i32, x⟩ arg.layout.order)
  | long {x} (hv : arg.value = .long x) :
      Travels arg c contents none (Scalar.encode ⟨.i64, x⟩ arg.layout.order)
  | double {x} (hv : arg.value = .double x) :
      Travels arg c contents none (Scalar.encode ⟨.f64, x⟩ arg.layout.order)
  | address {x bytes} (hv : arg.value = .address x)
      (hb : Region.addressBytes arg.layout x = .ok bytes) : Travels arg c contents none bytes
  | register {r found} (hv : arg.value = .segment r)
      (hc : c.classifyStruct arg.layout = .ok found) (hn : found ≠ .structReference) :
      Travels arg c contents none contents
  | reference {r copy bytes} (hv : arg.value = .segment r)
      (hc : c.classifyStruct arg.layout = .ok .structReference)
      (hb : Region.addressBytes c.addressLayout copy.start = .ok bytes) :
      Travels arg c contents (some copy) bytes

/-- The argument lies in the slot at `start`, with zeros behind it, and its copy in the scope. -/
structure Lies (arg : Argument) (c : Convention) (s : ScopeId) (contents : Bytes) (σ : Store)
    (start : Nat) (copy? : Option Region) : Prop where
  slot : ∃ bytes, arg.Travels c contents copy? bytes ∧ bytes.length ≤ c.slotSize.toNat ∧
    σ.memory.Shows start bytes ∧
    ∀ x, start + bytes.length ≤ x → x < start + c.slotSize.toNat → σ.memory.byte x = 0
  copy : ∀ r, copy? = some r → r.scope = s ∧ r.size.toNat = contents.length ∧
    r.Spans 0 r.size ∧ r.Inside σ ∧ σ.memory.Shows r.start.toNat contents

/-- It still does when nothing has been written to the slot and to the copy. -/
theorem Lies.later {arg : Argument} {contents : Bytes} {start : Nat} {copy? : Option Region}
    (h : arg.Lies c s contents σ start copy?) (hl : σ.Later τ)
    (hslot : ∀ x, start ≤ x → x < start + c.slotSize.toNat → τ.memory.byte x = σ.memory.byte x)
    (hcopy : ∀ r, copy? = some r → ∀ x, r.Has x → τ.memory.byte x = σ.memory.byte x) :
    arg.Lies c s contents τ start copy? := by
  obtain ⟨bytes, ht, hlen, hm, hz⟩ := h.slot
  refine ⟨⟨bytes, ht, hlen, hm.congr fun x h₁ h₂ => hslot x h₁ (by omega), fun x h₁ h₂ => ?_⟩,
    fun r hr => ?_⟩
  · rw [hslot x (by omega) h₂]
    exact hz x h₁ h₂
  obtain ⟨hscope, hsize, hs, hi, hm⟩ := h.copy r hr
  refine ⟨hscope, hsize, hs, hi.later hl, hm.congr fun x h₁ h₂ => hcopy r hr x ⟨h₁, ?_⟩⟩
  omega

end Argument

/-! ### Writing slots -/

/-- What is written to the beginning of a region stands there, and nothing else is touched. -/
theorem Store.Fills.written {W : Nat → Prop} (h : σ.Fills a W τ) {r : Region}
    {bytes : Bytes} (hr : ∀ x, r.Has x → σ.Settled a x → W x)
    (hlen : bytes.length ≤ r.size.toNat)
    (hρ : ρ = τ.setMemory (τ.memory.write (r.start + 0).toNat bytes)) :
    σ.Fills a W ρ ∧ ρ.memory.Shows r.start.toNat bytes ∧
      ∀ x, r.start.toNat + bytes.length ≤ x → ρ.memory.byte x = τ.memory.byte x := by
  rw [hρ, UInt64.add_zero]
  refine ⟨h.write fun x h₁ h₂ hx => hr x ⟨h₁, by omega⟩ hx, ?_, fun x hx => ?_⟩
  · exact Memory.read_write _ _ _
  · exact Memory.byte_write_of_not fun hin => by omega

/-- Of what is settled only the bytes of `W` are written to, whether it stays settled or not. -/
def Store.Leaves (σ : Store) (a : ArenaId) (W : Nat → Prop) (τ : Store) : Prop :=
  ∀ x, σ.Settled a x → ¬ W x → τ.memory.byte x = σ.memory.byte x

theorem Store.Leaves.refl {W : Nat → Prop} (σ : Store) : σ.Leaves a W σ := fun _ _ _ => rfl

theorem Store.Fills.leaves {W W' : Nat → Prop} (h : σ.Fills a W τ) (hl : τ.Leaves a W' ρ)
    (hW : ∀ x, W x → W' x) : σ.Leaves a W' ρ := by
  intro x hx hn
  rw [hl x (h.settled x hx) hn]
  exact h.byte x hx fun hw => hn (hW x hw)

namespace VariadicBuilder

/-- The argument is in its slot, and a copy of it in memory that was handed out and not settled. Its
source can be used. -/
structure Written (system : SystemAllocator) (arg : Argument) (c : Convention) (σ : Store)
    (a : ArenaId) (slot : Region) (copy? : Option Region) (τ : Store) : Prop where
  alive : ∀ r, arg.region? = some r → σ.IsAlive r.scope
  changes : Store.Changes system True σ copy?.toList τ
  fills : σ.Fills a slot.Has τ
  lies : arg.Lies c (σ.arena a).scope (arg.contents σ.memory) τ slot.start.toNat copy?
  aligned : system.Aligns → ∀ r, copy? = some r → arg.layout.align.toNat ∣ r.start.toNat
  new : ∀ r, copy? = some r → ∀ x, r.Has x → ¬ σ.Settled a x ∧ τ.Settled a x

/-- Everything but a copy is one write to the beginning of the slot. -/
theorem written_of_travels {slot : Region} {arg : Argument} {bytes : Bytes}
    (halive : ∀ r, arg.region? = some r → σ.IsAlive r.scope)
    (ht : arg.Travels c (arg.contents σ.memory) none bytes)
    (hzero : ∀ x, slot.Has x → σ.memory.byte x = 0) (hsize : slot.size = c.slotSize)
    (hlen : 0 + bytes.length ≤ slot.size.toNat)
    (hτ : τ = σ.setMemory (σ.memory.write (slot.start + 0).toNat bytes)) :
    ∃ copy?, Written system arg c σ a slot copy? τ := by
  rw [Nat.zero_add] at hlen
  obtain ⟨hf, hm, hrest⟩ := (Store.Fills.refl σ).written (fun x hx _ => hx) hlen hτ
  have hblank : ∀ x, slot.start.toNat + bytes.length ≤ x →
      x < slot.start.toNat + c.slotSize.toNat → τ.memory.byte x = 0 := by
    intro x h₁ h₂
    rw [hrest x h₁]
    exact hzero x ⟨by omega, by rw [hsize]; exact h₂⟩
  rw [hsize] at hlen
  refine ⟨none, halive, ?_, hf, ⟨⟨bytes, ht, hlen, hm, hblank⟩, fun r hr => ?_⟩,
    fun _ r hr => ?_, fun r hr => ?_⟩
  · rw [hτ]
    exact Store.Changes.refl.memory trivial _
  · cases hr
  · cases hr
  · cases hr

/-- The copy is written to first, and the slot does not meet it. -/
theorem written_of_copy (hsep : system.Separate) (hs : σ.Sound system strict waiting)
    (hl : σ.Ledger G) {slot copy : Region} {arg : Argument} {bytes : Bytes} {τ' : Store}
    (halive : ∀ r, arg.region? = some r → σ.IsAlive r.scope)
    (hslot : ∀ x, slot.Has x → σ.Settled a x) (hsize : slot.size = c.slotSize)
    (hzero : ∀ x, slot.Has x → σ.memory.byte x = 0)
    (hch : Store.Changes system False σ [copy] τ) (hset : copy.Settles σ a τ)
    (hscope : copy.scope = (σ.arena a).scope) (hspan : copy.Spans 0 copy.size)
    (halign : system.Aligns → arg.layout.align.toNat ∣ copy.start.toNat)
    (hcopy : (arg.contents σ.memory).length = copy.size.toNat)
    (ht : arg.Travels c (arg.contents σ.memory) (some copy) bytes)
    (hlen : 0 + bytes.length ≤ slot.size.toNat)
    (hτ' : τ' = τ.setMemory (τ.memory.write (copy.start + 0).toNat (arg.contents σ.memory)))
    (hρ : ρ = τ'.setMemory (τ'.memory.write (slot.start + 0).toNat bytes)) :
    Written system arg c σ a slot (some copy) ρ := by
  rw [Nat.zero_add] at hlen
  obtain ⟨hf, hshow, _⟩ := hset.fills.written hset.new (Nat.le_of_eq hcopy) hτ'
  have hfill : σ.Fills a slot.Has τ' := hf.mono fun _ h => h.elim
  obtain ⟨hf', hshow', hrest⟩ := hfill.written (fun x hx _ => hx) hlen hρ
  have hblank : ∀ x, slot.start.toNat + bytes.length ≤ x →
      x < slot.start.toNat + c.slotSize.toNat → ρ.memory.byte x = 0 := by
    intro x h₁ h₂
    have hx : slot.Has x := ⟨by omega, by rw [hsize]; exact h₂⟩
    rw [hrest x h₁, hf.byte x (hslot x hx) fun h => h]
    exact hzero x hx
  rw [hsize] at hlen
  have hkept : ρ.memory.Shows copy.start.toNat (arg.contents σ.memory) := by
    refine hshow.congr fun x h₁ h₂ => ?_
    have hx : copy.Has x := ⟨h₁, by omega⟩
    rw [hρ, UInt64.add_zero]
    refine Memory.byte_write_of_not fun hr => hset.new x hx (hslot x ⟨hr.1, ?_⟩)
    rw [hsize]
    omega
  have hinside : copy.Inside ρ := by
    have hi := (hch.ledger hsep hs hl).inside copy
      (List.mem_append_right _ (List.mem_singleton.mpr rfl))
    rw [hρ, hτ']
    exact hi
  have hchanges : Store.Changes system True σ [copy] ρ := by
    rw [hρ, hτ']
    exact ((hch.mono fun h => h.elim).memory trivial _).memory trivial _
  refine ⟨halive, hchanges, hf', ⟨⟨bytes, ht, hlen, hshow', hblank⟩, fun r hr => ?_⟩,
    fun hal r hr => ?_, fun r hr x hx => ?_⟩
  · cases hr
    exact ⟨hscope, hcopy.symm, hspan, hinside, hkept⟩
  · cases hr
    exact halign hal
  · cases hr
    refine ⟨hset.new x hx, ?_⟩
    rw [hρ, hτ']
    exact hset.settled x hx

/-- A struct that is passed by reference is copied, and its slot is where the copy begins. -/
theorem written_reference (hsep : system.Separate) (hs : σ.Sound system strict waiting)
    (hl : σ.Ledger G) (hw : ctx.system.Within system) (ha : a < σ.arenas.length)
    {slot src : Region} (hslot : ∀ x, slot.Has x → σ.Settled a x) (hsize : slot.size = c.slotSize)
    (hzero : ∀ x, slot.Has x → σ.memory.byte x = 0) {arg : Argument}
    (hv : arg.value = .segment src) (hlen : src.size = arg.layout.size)
    (hfound : c.classifyStruct arg.layout = .ok .structReference)
    (hbound : src.scope < σ.scopes.length)
    (hsettled : σ.IsAlive src.scope → ∀ x, src.Has x → σ.Settled a x) :
    (do
      let copy ← (Allocator.arena a).allocateLayout arg.layout
      copy.copyFrom src
      slot.setAddress c.addressLayout 0 copy.start : Operation Unit).Leads ctx σ
        (fun _ τ => ∃ copy?, Written system arg c σ a slot copy? τ) (σ.Leaves a slot.Has) := by
  have hcontents := Argument.contents_of_segment hv
  have hgive := ArenaId.settles_allocate hsep hs hl hw ha arg.layout.size arg.layout.align
  refine Leads.chain (x := (Allocator.arena a).allocateLayout arg.layout) hgive
    (fun _ h x hx _ => h.byte hsep hs hx.1) fun copy ρ h => ?_
  obtain ⟨hch, hm, hset⟩ := h
  have hleft : ∀ ν, ν = ρ → σ.Leaves a slot.Has ν := by
    intro ν h
    rw [h]
    exact hset.fills.leaves (.refl ρ) fun _ h => h.elim
  refine Region.leads_copyFrom.chain hleft fun _ ρ' h => ?_
  obtain ⟨hfrom, hcopy, hρ'⟩ := h
  have hlive : σ.IsAlive src.scope := (hch.extends.isAlive_iff hbound).mp
    (Store.checkUsable_eq_ok_iff.mp (Store.checkAccess_eq_ok_iff.mp hfrom).1).2
  have heq : copy.size = src.size := by rw [hm.size, hlen]
  have hspan : copy.Spans 0 copy.size := by
    rw [heq]
    exact (Store.checkAccess_eq_ok_iff.mp hcopy).2
  have hread : ρ.memory.read src.start.toNat src.size.toNat = arg.contents σ.memory := by
    rw [hcontents]
    exact hset.fills.read (hsettled hlive) fun _ _ h => h
  have hcl : (arg.contents σ.memory).length = copy.size.toNat := by
    rw [hcontents, Memory.length_read, heq]
  rw [hread, ← UInt64.add_zero copy.start] at hρ'
  have hcopied := (hset.fills.written hset.new (Nat.le_of_eq hcl) hρ').1
  have hleft' : ∀ ν, ν = ρ' → σ.Leaves a slot.Has ν := by
    intro ν h
    rw [h]
    exact hcopied.leaves (.refl ρ') fun _ h => h.elim
  refine Region.leads_setAddress.imp (fun _ ν h => ?_) hleft'
  obtain ⟨bytes, hb, hwrite, hν⟩ := h
  exact ⟨some copy, written_of_copy hsep hs hl (Argument.isAlive_of_segment hv hlive) hslot hsize
    hzero hch hset hm.scope hspan hm.align hcl (.reference hv hfound hb)
    (Store.checkWrite_eq_ok_iff.mp hwrite).2.1 hρ' hν⟩

/-- Any other struct is written to the beginning of its slot. -/
theorem written_register {slot src : Region} (hsize : slot.size = c.slotSize)
    (hzero : ∀ x, slot.Has x → σ.memory.byte x = 0) {arg : Argument} {found : TypeClass}
    (hv : arg.value = .segment src) (hlen : src.size = arg.layout.size)
    (hfound : c.classifyStruct arg.layout = .ok found) (hn : found ≠ .structReference) :
    (do (← slot.slice 0 arg.layout.size).copyFrom src : Operation Unit).Leads ctx σ
      (fun _ τ => ∃ copy?, Written system arg c σ a slot copy? τ) (σ.Leaves a slot.Has) := by
  have hcontents := Argument.contents_of_segment hv
  have hsame : ∀ τ, τ = σ → σ.Leaves a slot.Has τ := by
    intro τ h
    rw [h]
    exact .refl σ
  refine Region.leads_slice.chain hsame fun slot' σ' h => ?_
  obtain ⟨hc, rfl, rfl⟩ := h
  refine Region.leads_copyFrom.imp (fun _ τ h => ?_) hsame
  obtain ⟨hfrom, _, hτ⟩ := h
  have hlive : σ'.IsAlive src.scope :=
    (Store.checkUsable_eq_ok_iff.mp (Store.checkAccess_eq_ok_iff.mp hfrom).1).2
  refine written_of_travels (Argument.isAlive_of_segment hv hlive) (.register hv hfound hn) hzero
    hsize ?_ ?_
  · rw [hcontents, Memory.length_read, hlen]
    exact (Store.checkAccess_eq_ok_iff.mp hc).2.1
  · rw [hτ, hcontents]
    rfl

theorem written_writeSlot (hsep : system.Separate) (hs : σ.Sound system strict waiting)
    (hl : σ.Ledger G) (hw : ctx.system.Within system) (ha : a < σ.arenas.length) {slot : Region}
    (hslot : ∀ x, slot.Has x → σ.Settled a x) (hsize : slot.size = c.slotSize)
    (hzero : ∀ x, slot.Has x → σ.memory.byte x = 0) {arg : Argument}
    (hacc : arg.Accepted c) (hsrc : ∀ r, arg.region? = some r → r.scope < σ.scopes.length ∧
      (σ.IsAlive r.scope → ∀ x, r.Has x → σ.Settled a x)) :
    (writeSlot c a slot arg).Leads ctx σ
      (fun _ τ => ∃ copy?, Written system arg c σ a slot copy? τ) (σ.Leaves a slot.Has) := by
  have hsame : ∀ τ, τ = σ → σ.Leaves a slot.Has τ := by
    intro τ h
    rw [h]
    exact .refl σ
  have hnone : arg.region? = none → ∀ r, arg.region? = some r → σ.IsAlive r.scope := by
    intro hn r hr
    cases hn.symm.trans hr
  have hset : ∀ x : Scalar, arg.region? = none →
      arg.Travels c (arg.contents σ.memory) none (x.encode arg.layout.order) →
      (slot.set arg.layout 0 x).Leads ctx σ
        (fun _ τ => ∃ copy?, Written system arg c σ a slot copy? τ) (σ.Leaves a slot.Has) := by
    intro x hn ht
    refine Region.leads_set.imp (fun _ τ h => ?_) hsame
    obtain ⟨_, hc, hτ⟩ := h
    exact written_of_travels (hnone hn) ht hzero hsize (Store.checkWrite_eq_ok_iff.mp hc).2.1 hτ
  unfold writeSlot
  split
  next x hv => exact hset ⟨.i32, x⟩ (Argument.region?_of_value hv) (.int hv)
  next x hv => exact hset ⟨.i64, x⟩ (Argument.region?_of_value hv) (.long hv)
  next x hv => exact hset ⟨.f64, x⟩ (Argument.region?_of_value hv) (.double hv)
  next x hv =>
    refine Region.leads_setAddress.imp (fun _ τ h => ?_) hsame
    obtain ⟨bytes, hb, hc, hτ⟩ := h
    exact written_of_travels (hnone (Argument.region?_of_value hv)) (.address hv hb) hzero hsize
      (Store.checkWrite_eq_ok_iff.mp hc).2.1 hτ
  next src hv =>
    obtain ⟨hlen, found, hfound⟩ := hacc.segment src hv
    obtain ⟨hbound, hsettled⟩ := hsrc src (Argument.region?_of_value hv)
    refine leads_require_bind hfound ?_
    split
    next =>
      exact written_reference hsep hs hl hw ha hslot hsize hzero hv hlen hfound hbound hsettled
    next hn => exact written_register hsize hzero hv hlen hfound hn

/-- Where the slot with that number begins. The product does not overflow while slots fit. -/
theorem toNat_slot {index n : Nat} {size : Word} (h : index * size.toNat ≤ n)
    (hn : n < 0x10000000000000000) (hpos : 0 < size.toNat) :
    (UInt64.ofNat index * size).toNat = index * size.toNat := by
  have hi : index ≤ index * size.toNat := Nat.le_mul_of_pos_right index hpos
  have hof : (UInt64.ofNat index).toNat = index := by
    rw [UInt64.toNat_ofNat', Nat.mod_eq_of_lt (by omega)]
  rw [UInt64.toNat_mul, hof, Nat.mod_eq_of_lt (by omega)]

def SlotsFrom (c : Convention) (buffer : Region) (index : Nat) (x : Nat) : Prop :=
  buffer.start.toNat + index * c.slotSize.toNat ≤ x ∧ buffer.Has x

/-- The arguments, structs as `m` has them, lie in the slots from number `index` on. The copies were
handed out for them in this order and not settled before. -/
structure Filled (system : SystemAllocator) (c : Convention) (m : Memory) (σ : Store) (a : ArenaId)
    (buffer : Region) (index : Nat) (args : List Argument) (places : List (Option Region))
    (τ : Store) : Prop where
  fits : (index + args.length) * c.slotSize.toNat ≤ buffer.size.toNat
  finish : args ≠ [] → buffer.start.toNat + (index + args.length) * c.slotSize.toNat <
    0x10000000000000000
  changes : Store.Changes system True σ (places.filterMap id) τ
  fills : σ.Fills a (SlotsFrom c buffer index) τ
  lies : ∀ (i : Nat) (arg : Argument), args[i]? = some arg → ∃ copy?, places[i]? = some copy? ∧
    arg.Lies c (σ.arena a).scope (arg.contents m) τ
      (buffer.start.toNat + (index + i) * c.slotSize.toNat) copy? ∧
    ∀ r, copy? = some r → (system.Aligns → arg.layout.align.toNat ∣ r.start.toNat) ∧
      ∀ x, r.Has x → ¬ σ.Settled a x ∧ τ.Settled a x

/-- The slots behind the first are filled without touching it or a copy of it. -/
theorem Filled.cons {buffer slot : Region} {arg : Argument} {args : List Argument}
    {places : List (Option Region)} {copy? : Option Region} {index : Nat} {m : Memory}
    (h' : Filled system c m τ a buffer (index + 1) args places ρ)
    (h : Written system arg c σ a slot copy? τ) (ha : a < σ.arenas.length)
    (hbuf : ∀ x, buffer.Has x → σ.Settled a x) (hm : arg.contents σ.memory = arg.contents m)
    (hslot : ∀ x, slot.Has x → SlotsFrom c buffer index x)
    (hstart : slot.start.toNat = buffer.start.toNat + index * c.slotSize.toNat)
    (hend : slot.start.toNat + c.slotSize.toNat < 0x10000000000000000) :
    Filled system c m σ a buffer index (arg :: args) (copy? :: places) ρ := by
  have hnext : (index + 1) * c.slotSize.toNat = index * c.slotSize.toNat + c.slotSize.toNat :=
    Nat.succ_mul _ _
  have hlen : index + (arg :: args).length = index + 1 + args.length := by
    rw [List.length_cons]
    omega
  have hlater : ∀ x, SlotsFrom c buffer (index + 1) x → SlotsFrom c buffer index x := by
    intro x hx
    exact ⟨by have := hx.1; omega, hx.2⟩
  have hlies := h.lies
  rw [hm, hstart] at hlies
  have hcopies : (copy? :: places).filterMap id = copy?.toList ++ places.filterMap id := by
    cases copy? with
    | none => rfl
    | some r => rfl
  refine ⟨hlen ▸ h'.fits, fun _ => ?_, hcopies ▸ h.changes.trans h'.changes,
    (h.fills.mono hslot).trans (h'.fills.mono hlater), fun i arg' hi => ?_⟩
  · rw [hlen]
    cases args with
    | nil =>
      rw [List.length_nil, Nat.add_zero]
      omega
    | cons arg' args => exact h'.finish (List.cons_ne_nil _ _)
  cases i with
  | zero =>
    obtain rfl := Option.some.inj hi
    refine ⟨copy?, rfl, hlies.later h'.changes.extends.toLater (fun x h₁ h₂ => ?_)
      fun r hr x hx => ?_, fun r hr => ⟨fun hal => h.aligned hal r hr, fun x hx => ?_⟩⟩
    · have hfit := h'.fits
      rw [Nat.add_mul, hnext] at hfit
      have hx : buffer.Has x := ⟨by omega, by omega⟩
      exact h'.fills.byte x (h.fills.settled x (hbuf x hx)) fun hx' => by
        have := hx'.1
        omega
    · obtain ⟨hnew, hset⟩ := h.new r hr x hx
      exact h'.fills.byte x hset fun hx' => hnew (hbuf x hx'.2)
    · obtain ⟨hnew, hset⟩ := h.new r hr x hx
      exact ⟨hnew, h'.fills.settled x hset⟩
  | succ i =>
    obtain ⟨copy', hp, hl, hnew⟩ := h'.lies i arg' hi
    rw [h.changes.extends.arenaScope a ha, Nat.add_assoc index 1 i, Nat.add_comm 1 i] at hl
    refine ⟨copy', hp, hl, fun r hr => ?_⟩
    obtain ⟨hal, hnew⟩ := hnew r hr
    refine ⟨hal, fun x hx => ?_⟩
    exact ⟨fun hs => (hnew x hx).1 (h.fills.settled x hs), (hnew x hx).2⟩

theorem filled_writeSlots (hsep : system.Separate) (hs : σ.Sound system strict waiting)
    (hl : σ.Ledger G) (hw : ctx.system.Within system) (ha : a < σ.arenas.length) {buffer : Region}
    (hbuf : ∀ x, buffer.Has x → σ.Settled a x) (hpos : 0 < c.slotSize.toNat) {m : Memory}
    {index : Nat} (hzero : ∀ x, SlotsFrom c buffer index x → σ.memory.byte x = 0)
    {args : List Argument} (hfit : index * c.slotSize.toNat ≤ buffer.size.toNat)
    (hacc : ∀ arg ∈ args, arg.Accepted c)
    (hsrc : ∀ arg ∈ args, ∀ r, arg.region? = some r → r.scope < σ.scopes.length ∧
      (σ.IsAlive r.scope → ∀ x, r.Has x →
        σ.Settled a x ∧ ¬ buffer.Has x ∧ σ.memory.byte x = m.byte x)) :
    (writeSlots c a buffer index args).Leads ctx σ
      (fun _ τ => ∃ places, Filled system c m σ a buffer index args places τ)
      (σ.Leaves a buffer.Has) := by
  induction args generalizing σ index G with
  | nil =>
    refine leads_pure ⟨[], hfit, fun h => absurd rfl h, .refl, .refl σ, fun i arg hi => ?_⟩
    cases hi
  | cons arg args ih =>
    refine Region.leads_slice.chain (fun τ h => h ▸ .refl σ) fun slot σ' h => ?_
    obtain ⟨hc, rfl, rfl⟩ := h
    have hsp := (Store.checkAccess_eq_ok_iff.mp hc).2
    have hoff := toNat_slot hfit buffer.size.toNat_lt hpos
    have hstart := Region.toNat_start_narrow hsp
    have hspan := hsp
    unfold Region.Spans at hspan
    rw [hoff] at hstart hspan
    have hslot : ∀ x, (buffer.narrow (.ofNat index * c.slotSize) c.slotSize).Has x →
        SlotsFrom c buffer index x := fun x hx => ⟨hstart ▸ hx.1, Region.has_narrow hsp hx⟩
    have hone := written_writeSlot hsep hs hl hw ha (fun x hx => hbuf x (hslot x hx).2) rfl
      (fun x hx => hzero x (hslot x hx)) (hacc arg List.mem_cons_self) fun r hr => by
        obtain ⟨hbound, hset⟩ := hsrc arg List.mem_cons_self r hr
        exact ⟨hbound, fun hal x hx => (hset hal x hx).1⟩
    refine hone.chain (fun τ h x hx hn => h x hx fun hx' => hn (hslot x hx').2) fun _ τ h => ?_
    obtain ⟨copy?, h⟩ := h
    have hx := h.changes.extends
    have hmem : arg.contents σ'.memory = arg.contents m := by
      unfold Argument.contents
      cases hr : arg.region? with
      | none => rfl
      | some r =>
        refine Memory.read_congr fun x h₁ h₂ => ?_
        exact ((hsrc arg List.mem_cons_self r hr).2 (h.alive r hr) x ⟨h₁, h₂⟩).2.2
    -- What is behind the slot is as blank as it was.
    have hrest : ∀ x, SlotsFrom c buffer (index + 1) x → τ.memory.byte x = 0 := by
      intro x hx
      have hnext : (index + 1) * c.slotSize.toNat = index * c.slotSize.toNat +
        c.slotSize.toNat := Nat.succ_mul _ _
      have hfrom := hx.1
      have hend : (buffer.narrow (.ofNat index * c.slotSize) c.slotSize).size.toNat =
        c.slotSize.toNat := rfl
      rw [h.fills.byte x (hbuf x hx.2) fun hin => by
        have := hin.2
        omega]
      exact hzero x ⟨by omega, hx.2⟩
    have htail := ih (h.changes.sound hs) (h.changes.ledger hsep hs hl)
      (Nat.lt_of_lt_of_le ha hx.arenas) (fun x hx => h.fills.settled x (hbuf x hx)) hrest
      (show (index + 1) * c.slotSize.toNat ≤ _ by rw [Nat.succ_mul]; omega)
      (fun arg' h' => hacc arg' (List.mem_cons_of_mem _ h')) fun arg' h' r hr => by
        obtain ⟨hbound, hset⟩ := hsrc arg' (List.mem_cons_of_mem _ h') r hr
        refine ⟨Nat.lt_of_lt_of_le hbound hx.scopes, fun hal x hx' => ?_⟩
        obtain ⟨h₁, h₂, h₃⟩ := hset ((hx.isAlive_iff hbound).mp hal) x hx'
        refine ⟨h.fills.settled x h₁, h₂, ?_⟩
        rw [h.fills.byte x h₁ fun hx => h₂ (hslot x hx).2, h₃]
    refine htail.imp (fun _ ρ h' => ?_) fun ρ h' => ?_
    · obtain ⟨places, h'⟩ := h'
      exact ⟨_, h'.cons h ha hbuf hmem hslot hstart (by omega)⟩
    · exact h.fills.leaves h' fun x hx => (hslot x hx).2

/-- Each argument lies in the slot of its number, and the copies are those of the arguments in their
order. No byte of a copy was in use before. -/
structure Placed (system : SystemAllocator) (b : VariadicBuilder) (σ : Store) (buffer : Region)
    (copies : List Region) (places : List (Option Region)) (τ : Store) : Prop where
  copies : copies = places.filterMap id
  lies : ∀ (i : Nat) (arg : Argument), b.arguments[i]? = some arg → ∃ copy?,
    places[i]? = some copy? ∧
    arg.Lies b.convention b.scope (arg.contents σ.memory) τ
      (buffer.start.toNat + i * b.convention.slotSize.toNat) copy? ∧
    ∀ r, copy? = some r → (system.Aligns → arg.layout.align.toNat ∣ r.start.toNat) ∧
      ∀ x, r.Has x → ¬ σ.InUse x

/-- The arguments lie in the buffer. It and the copies of structs were handed out for them in this
order, and have no byte that was in use before. What was in use is as it was. -/
structure Built (system : SystemAllocator) (b : VariadicBuilder) (σ : Store) (buffer : Region)
    (copies : List Region) (τ : Store) : Prop where
  scope : buffer.scope = b.scope
  slot : 0 < b.convention.slotSize.toNat
  size : buffer.size.toNat = b.arguments.length * b.convention.slotSize.toNat
  finish : buffer.start.toNat + buffer.size.toNat < 0x10000000000000000
  aligned : system.Aligns → b.convention.slotSize.toNat ∣ buffer.start.toNat
  changes : Store.Changes system True σ (buffer :: copies) τ
  alive : τ.IsAlive b.scope
  new : ∀ x, buffer.Has x → ¬ σ.InUse x
  intact : ∀ x, σ.InUse x → τ.memory.byte x = σ.memory.byte x
  places : ∃ places, b.Placed system σ buffer copies places τ

theorem Built.lies {b : VariadicBuilder} {buffer : Region} {copies : List Region}
    (h : b.Built system σ buffer copies τ) {i : Nat} {arg : Argument}
    (hi : b.arguments[i]? = some arg) : ∃ copy?,
    arg.Lies b.convention b.scope (arg.contents σ.memory) τ
      (buffer.start.toNat + i * b.convention.slotSize.toNat) copy? ∧
    ∀ r, copy? = some r → r ∈ copies ∧ ∀ x, r.Has x → ¬ σ.InUse x := by
  obtain ⟨places, hplaces⟩ := h.places
  obtain ⟨copy?, hp, hlies, hnew⟩ := hplaces.lies i arg hi
  refine ⟨copy?, hlies, fun r hr => ⟨?_, (hnew r hr).2⟩⟩
  rw [hplaces.copies]
  exact List.mem_filterMap.mpr ⟨copy?, List.mem_of_getElem? hp, hr⟩

/-- An arena that is new has no memory to hand out, so all that was in use is settled. -/
theorem settled_addArena {x : Nat} (hx : σ.InUse x) :
    (σ.addArena ⟨s, .unbounded 4096, 16, none, {}⟩).Settled σ.arenas.length x := by
  refine ⟨hx, fun hf => ?_⟩
  obtain ⟨f, hf, _⟩ := hf
  rw [Store.arena_addArena, if_pos rfl] at hf
  cases hf

/-- As all slots fit, the number of arguments is less than a word can tell. -/
theorem toNat_slots {n : Nat} {slot size : Word} (hmul : Word.mul? slot (.ofNat n) = some size)
    (hfit : n * slot.toNat ≤ size.toNat) : size.toNat = n * slot.toNat := by
  have hmod := Nat.mod_le n (2 ^ 64)
  have hle := Nat.mul_le_mul_right slot.toNat hmod
  rw [Word.mul?_eq_some_iff, UInt64.toNat_ofNat', Nat.mul_comm] at hmul
  rw [hmul] at hfit ⊢
  omega

theorem built_build (hsep : system.Separate) (hs : σ.Sound system strict waiting)
    (hl : σ.Ledger G) (hw : ctx.system.Within system) {b : VariadicBuilder}
    (hn : b.arguments ≠ []) (hacc : ∀ arg ∈ b.arguments, arg.Accepted b.convention)
    (hsrc : ∀ arg ∈ b.arguments, ∀ r, arg.region? = some r → r.Inside σ) :
    b.build.Leads ctx σ
      (fun v τ => ∃ buffer copies, v = .ofBuffer b.convention buffer b.scope ∧
        b.Built system σ buffer copies τ)
      fun τ => ∀ x, σ.InUse x → τ.memory.byte x = σ.memory.byte x := by
  unfold build
  rw [if_neg hn]
  dsimp only
  split
  next => exact leads_throw fun _ _ => rfl
  next size hmul =>
    refine (ArenaId.leads_create _ _ _).chain (fun τ h => ?_) fun a σ' h => ?_
    · rw [h]
      exact fun _ _ => rfl
    obtain ⟨_, hu, rfl, rfl⟩ := h
    have hc : Store.Change system σ []
        (σ.addArena ⟨b.scope, .unbounded 4096, 16, none, {}⟩) :=
      .arena (Store.checkUsable_eq_ok_iff.mp hu).2 rfl
    have hl' := hc.ledger hsep hs hl
    have ha : σ.arenas.length <
        (σ.addArena ⟨b.scope, .unbounded 4096, 16, none, {}⟩).arenas.length := by simp
    have harena : (σ.addArena ⟨b.scope, .unbounded 4096, 16, none, {}⟩).arena σ.arenas.length =
        ⟨b.scope, .unbounded 4096, 16, none, {}⟩ := by
      rw [Store.arena_addArena, if_pos rfl]
    have hold : ∀ x, σ.InUse x →
        (σ.addArena ⟨b.scope, .unbounded 4096, 16, none, {}⟩).Settled σ.arenas.length x :=
      fun _ hx => settled_addArena hx
    have hgive := (ArenaId.leads_allocate_request size b.convention.slotSize).and
      (ArenaId.settles_allocate hsep (hc.sound hs) hl' hw ha size b.convention.slotSize)
    refine hgive.chain (fun τ h x hx => h.2.byte hsep (hc.sound hs) hx) fun buffer ρ h => ?_
    obtain ⟨⟨hpow, _⟩, hch, hm, hset⟩ := h
    have hscope := hm.scope
    have hhome := hch.extends.arenaScope _ ha
    rw [harena] at hscope hhome
    have hsrc' : ∀ arg ∈ b.arguments, ∀ r, arg.region? = some r → r.scope < ρ.scopes.length ∧
        (ρ.IsAlive r.scope → ∀ x, r.Has x → ρ.Settled σ.arenas.length x ∧ ¬ buffer.Has x ∧
          ρ.memory.byte x = σ.memory.byte x) := by
      intro arg harg r hr
      have hin := hsrc arg harg r hr
      have hx := hc.extends.trans hch.extends
      refine ⟨Nat.lt_of_lt_of_le hin.1 hx.scopes, fun hal x hx' => ?_⟩
      have hx' := hold x (hs.inUse hin ((hx.isAlive_iff hin.1).mp hal) hx')
      exact ⟨hset.fills.settled x hx', fun hb => hset.new x hb hx',
        hset.fills.byte x hx' fun h => h⟩
    have hzero : ∀ x, SlotsFrom b.convention buffer 0 x → ρ.memory.byte x = 0 := by
      intro x hx
      refine hch.zero hsep (hc.sound hs) (hset.settled x hx.2).1 fun hin => ?_
      exact hset.new x hx.2 (hold x hin)
    have hfill := filled_writeSlots hsep (hch.sound (hc.sound hs))
      (hch.ledger hsep (hc.sound hs) hl') hw (Nat.lt_of_lt_of_le ha hch.extends.arenas)
      hset.settled hpow.pos hzero (show 0 * b.convention.slotSize.toNat ≤ _ by omega) hacc hsrc'
    -- Nothing that was in use is in the buffer.
    have hintact : ∀ τ, ρ.Leaves σ.arenas.length buffer.Has τ → ∀ x, σ.InUse x →
        τ.memory.byte x = σ.memory.byte x := by
      intro τ h x hx
      have hx' := hold x hx
      rw [h x (hset.fills.settled x hx') fun hb => hset.new x hb hx']
      exact hset.fills.byte x hx' fun h => h
    refine hfill.chain hintact fun _ τ h => ?_
    obtain ⟨places, h⟩ := h
    have hend := h.fits
    rw [Nat.zero_add] at hend
    have hsize : buffer.size.toNat = b.arguments.length * b.convention.slotSize.toNat := by
      rw [hm.size] at hend ⊢
      exact toNat_slots hmul hend
    have hchanges : Store.Changes system True σ (buffer :: places.filterMap id) τ :=
      hc.changes.before ((hch.mono fun h => h.elim).trans h.changes)
    have halive := hchanges.extends.isAlive (Store.checkUsable_eq_ok_iff.mp hu).2
    refine leads_pure ⟨buffer, _, rfl, hscope, hpow.pos, hsize, ?_, hm.align, hchanges, halive,
      fun x hx hin => ?_, ?_, places, rfl, fun i arg hi => ?_⟩
    · have hfin := h.finish hn
      rwa [Nat.zero_add, ← hsize] at hfin
    · exact hset.new x hx (hold x hin)
    · exact hintact τ fun x hx hb => h.fills.byte x hx fun hx' => hb hx'.2
    · obtain ⟨copy?, hp, hl, hnew⟩ := h.lies i arg hi
      rw [Nat.zero_add, hhome] at hl
      refine ⟨copy?, hp, hl, fun r hr => ?_⟩
      obtain ⟨hal, hnew⟩ := hnew r hr
      exact ⟨hal, fun x hx hin => (hnew x hx).1 (hset.fills.settled x (hold x hin))⟩

end VariadicBuilder
end ScopedMemory
