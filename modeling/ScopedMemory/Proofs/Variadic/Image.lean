import ScopedMemory.Proofs.Variadic.Supply

namespace ScopedMemory

open Operation

variable {system : SystemAllocator} {strict : Prop} {waiting : List Block} {G : List Region}
  {ctx : Context} {σ τ : Store}

theorem Convention.classifyStruct_win64 (l : Layout) :
    win64.classifyStruct l =
      if l.size ∈ [1, 2, 4, 8] then .ok .structRegister else .ok .structReference := by
  have hfit : ∀ n ∈ ([1, 2, 4, 8] : List Word), ¬ (8 : Word) < n := by
    simp only [List.forall_mem_cons, List.not_mem_nil, false_implies, implies_true]
    decide
  by_cases hl : l.size ∈ [1, 2, 4, 8]
  · have hclass : win64.classify .segment l = .structRegister := if_pos hl
    unfold classifyStruct
    simp only [hclass, if_pos hl]
    rw [if_neg fun h => hfit l.size hl h.2]
    exact if_pos (Or.inl rfl)
  · have hclass : win64.classify .segment l = .structReference := if_neg hl
    unfold classifyStruct
    simp only [hclass, if_neg hl]
    rw [if_neg fun h => TypeClass.noConfusion h.1]
    exact if_pos (Or.inr rfl)

theorem Convention.win64_regular : win64.Regular where
  slot := by decide
  value := trivial
  size := rfl
  fits := by decide

/-- Every number is no wider than the slots, and every address than the addresses. -/
theorem Argument.fits_win64 (arg : Argument) : arg.Fits .win64 := by
  unfold Fits
  split
  next => decide
  next => decide
  next => decide
  next x _ => exact x.toNat_lt
  next => trivial

/-- What the slot of an argument holds, for a struct with these contents and a copy of it that
begins at `copy`. -/
def Argument.win64Slot (arg : Argument) (contents : Bytes) (copy : Word) : Bytes :=
  match arg.value with
  | .int x => Scalar.encode ⟨.i32, x⟩ arg.layout.order ++ [0, 0, 0, 0]
  | .long x => Scalar.encode ⟨.i64, x⟩ arg.layout.order
  | .double x => Scalar.encode ⟨.f64, x⟩ arg.layout.order
  | .address x => arg.layout.order.encode 8 x.toNat
  | .segment _ =>
    if arg.layout.size ∈ [1, 2, 4, 8] then contents ++ List.replicate (8 - contents.length) 0
    else ByteOrder.little.encode 8 copy.toNat

theorem Argument.Travels.win64Slot {arg : Argument} {contents bytes : Bytes}
    {copy? : Option Region} (h : arg.Travels .win64 contents copy? bytes)
    (hacc : arg.Accepted .win64) {p : Word} (hp : ∀ r, copy? = some r → r.start = p) :
    bytes ++ List.replicate (8 - bytes.length) 0 = arg.win64Slot contents p := by
  unfold Argument.win64Slot
  cases h with
  | @int x hv =>
    rw [hv, Scalar.length_encode]
    rfl
  | @long x hv =>
    rw [hv, Scalar.length_encode]
    exact List.append_nil _
  | @double x hv =>
    rw [hv, Scalar.length_encode]
    exact List.append_nil _
  | @address x bytes hv hb =>
    have hcheck := hacc.carrier
    rw [hv] at hcheck
    obtain ⟨hvalue, hsize⟩ := (Carrier.check_eq_ok_iff (w := .bits64) rfl).mp hcheck
    obtain ⟨_, rfl⟩ := (Region.addressBytes_eq_ok_iff (w := .bits64) hvalue
      (by rw [hsize]; rfl)).mp hb
    rw [hv, ByteOrder.length_encode]
    exact List.append_nil _
  | @register r found hv hc hn =>
    rw [Convention.classifyStruct_win64] at hc
    rw [hv]
    dsimp only
    split at hc
    next hl => rw [if_pos hl]
    next =>
      cases hc
      exact absurd rfl hn
  | @reference r copy bytes hv hc hb =>
    obtain ⟨_, rfl⟩ := (Region.addressBytes_eq_ok_iff (l := .cPointer) (w := .bits64) trivial
      rfl).mp hb
    rw [Convention.classifyStruct_win64] at hc
    rw [hv, ByteOrder.length_encode, hp copy rfl]
    dsimp only
    split at hc
    next => cases hc
    next hl =>
      rw [if_neg hl]
      exact List.append_nil _

/-- What stands before zeros is read with them. -/
theorem Memory.Shows.padded {m : Memory} {start n : Nat} {bytes : Bytes} (h : m.Shows start bytes)
    (hlen : bytes.length ≤ n)
    (hz : ∀ x, start + bytes.length ≤ x → x < start + n → m.byte x = 0) :
    m.read start n = bytes ++ List.replicate (n - bytes.length) 0 := by
  refine List.ext_getElem? fun i => ?_
  rw [Memory.getElem?_read]
  by_cases hi : i < bytes.length
  · have hb := congrArg (·[i]?) h
    simp only [Memory.getElem?_read, if_pos hi] at hb
    rw [List.getElem?_append_left hi, ← hb, if_pos (Nat.lt_of_lt_of_le hi hlen)]
  · rw [List.getElem?_append_right (Nat.le_of_not_lt hi), List.getElem?_replicate]
    by_cases hn : i < n
    · rw [if_pos hn, if_pos (by omega), hz _ (by omega) (by omega)]
    · rw [if_neg hn, if_neg (by omega)]

namespace VariadicBuilder

/-- The argument with that number is a struct of a size that no register has. -/
def ByReference (b : VariadicBuilder) (i : Nat) (arg : Argument) : Prop :=
  b.arguments[i]? = some arg ∧ (∃ r, arg.value = .segment r) ∧ arg.layout.size ∉ [1, 2, 4, 8]

/-- The copy of a struct that is passed by reference: the pointer to it is aligned, and it has
memory of the scope to itself. -/
structure Copied (b : VariadicBuilder) (σ : Store) (v : VariadicList) (τ : Store) (arg : Argument)
    (r : Region) : Prop where
  size : r.size = arg.layout.size
  aligned : arg.layout.align.toNat ∣ r.start.toNat
  block : ∃ k ∈ (τ.scope b.scope).blocks, k.Encloses r
  contents : τ.memory.read r.start.toNat r.size.toNat = arg.contents σ.memory
  outside : ∀ x, r.Has x →
    ¬ (v.address.toNat ≤ x ∧ x < v.address.toNat + 8 * b.arguments.length)

/-- The list as native code finds it in `τ`, with the contents that structs had in `σ`: the slots
one behind the other, and the copies of structs apart from them and from each other. -/
structure Laid (b : VariadicBuilder) (σ : Store) (v : VariadicList) (copy : Nat → Region)
    (τ : Store) : Prop where
  aligned : 8 ∣ v.address.toNat
  block : ∃ k ∈ (τ.scope b.scope).blocks, k.base.toNat ≤ v.address.toNat ∧
    v.address.toNat + 8 * b.arguments.length ≤ k.base.toNat + k.size.toNat
  slots : ∀ i arg, b.arguments[i]? = some arg →
    τ.memory.read (v.address.toNat + 8 * i) 8 =
      arg.win64Slot (arg.contents σ.memory) (copy i).start
  copied : ∀ i arg, b.ByReference i arg → b.Copied σ v τ arg (copy i)
  apart : ∀ i j arg arg', i ≠ j → b.ByReference i arg → b.ByReference j arg' →
    ∀ x, (copy i).Has x → ¬ (copy j).Has x

variable {b : VariadicBuilder} {buffer : Region} {copies : List Region}
  {places : List (Option Region)} {i j : Nat} {arg : Argument} {r r' : Region}

theorem Built.alive_buffer (h : b.Built system σ buffer copies τ) : τ.IsAlive buffer.scope := by
  rw [h.scope]
  exact h.alive

theorem Built.copied (h : b.Built system σ buffer copies τ) (hlaw : system.Lawful)
    (hs : σ.Sound system strict waiting) (hl : σ.Ledger G) (hwin : b.convention = .win64)
    (hacc : ∀ arg ∈ b.arguments, arg.Accepted b.convention)
    (hp : b.Placed system σ buffer copies places τ) (hi : b.ByReference i arg) :
    ∃ r, places[i]? = some (some r) ∧ r.scope = b.scope ∧
      b.Copied σ (.ofBuffer b.convention buffer b.scope) τ arg r := by
  obtain ⟨harg, ⟨src, hv⟩, hn⟩ := hi
  obtain ⟨copy?, hplace, hlies, hnew⟩ := hp.lies i arg harg
  obtain ⟨bytes, ht, _⟩ := hlies.slot
  rw [hwin] at ht
  cases ht with
  | @register r found hv' hc hreg =>
    rw [Convention.classifyStruct_win64, if_neg hn] at hc
    cases hc
    exact absurd rfl hreg
  | @reference src' copy bytes hv' hc hb =>
    obtain ⟨hscope, hsize, _, hin, hshow⟩ := hlies.copy copy rfl
    have halive : τ.IsAlive copy.scope := by
      rw [hscope]
      exact h.alive
    have hmem : copy ∈ copies := by
      rw [hp.copies]
      exact List.mem_filterMap.mpr ⟨some copy, List.mem_of_getElem? hplace, rfl⟩
    have hledger := h.changes.ledger hlaw.separate hs hl
    have hpair := (List.pairwise_append.mp hledger.apart).2.1
    have hapart := (List.pairwise_cons.mp hpair).1 copy hmem
    have hbuffer := h.size
    rw [hwin] at hbuffer
    refine ⟨copy, hplace, hscope, ?_, (hnew copy rfl).1 hlaw.aligns, ?_, ?_, fun x hx hx' => ?_⟩
    · have hlen := ((hacc arg (List.mem_of_getElem? harg)).segment src hv).1
      rw [Argument.contents_of_segment hv, Memory.length_read, hlen] at hsize
      exact UInt64.toNat_inj.mp hsize
    · obtain ⟨k, hk, he⟩ := hin.2 halive
      rw [hscope] at hk
      exact ⟨k, hk, he⟩
    · rw [hsize]
      exact hshow
    · have hslots : buffer.size.toNat = b.arguments.length * 8 := hbuffer
      have hin : buffer.Has x := ⟨hx'.1, by rw [hslots, Nat.mul_comm]; exact hx'.2⟩
      exact hapart h.alive_buffer halive x hin hx
  | int hv' | long hv' | double hv' | address hv' => cases hv.symm.trans hv'

/-- Copies in different places share no byte. -/
theorem Built.apart (h : b.Built system σ buffer copies τ) (hsep : system.Separate)
    (hs : σ.Sound system strict waiting) (hl : σ.Ledger G)
    (hp : b.Placed system σ buffer copies places τ) (hij : i ≠ j)
    (hi : places[i]? = some (some r)) (hj : places[j]? = some (some r'))
    (hr : r.scope = b.scope) (hr' : r'.scope = b.scope) {x : Nat} (hx : r.Has x) : ¬ r'.Has x := by
  have hledger := h.changes.ledger hsep hs hl
  have hpair := (List.pairwise_cons.mp (List.pairwise_append.mp hledger.apart).2.1).2
  rw [hp.copies, List.pairwise_filterMap, List.pairwise_iff_getElem] at hpair
  obtain ⟨hil, hi⟩ := List.getElem?_eq_some_iff.mp hi
  obtain ⟨hjl, hj⟩ := List.getElem?_eq_some_iff.mp hj
  have halive : τ.IsAlive r.scope := by
    rw [hr]
    exact h.alive
  have halive' : τ.IsAlive r'.scope := by
    rw [hr']
    exact h.alive
  intro hx'
  rcases Nat.lt_or_gt_of_ne hij with hlt | hgt
  · exact hpair i j hil hjl hlt r hi r' hj halive halive' x hx hx'
  · exact hpair j i hjl hil hgt r' hj r hi halive' halive x hx' hx

/-- The copy of the argument with that number, if it has one. -/
def copyOf (b : VariadicBuilder) (places : List (Option Region)) (i : Nat) : Region :=
  (places[i]?.join).getD ⟨0, 0, b.scope⟩

theorem copyOf_eq (h : places[i]? = some (some r)) : b.copyOf places i = r := by
  unfold copyOf
  rw [h]
  rfl

theorem Built.laid (h : b.Built system σ buffer copies τ) (hlaw : system.Lawful)
    (hs : σ.Sound system strict waiting) (hl : σ.Ledger G) (hwin : b.convention = .win64)
    (hacc : ∀ arg ∈ b.arguments, arg.Accepted b.convention) :
    ∃ copy, b.Laid σ (.ofBuffer b.convention buffer b.scope) copy τ := by
  obtain ⟨places, hp⟩ := h.places
  have hslot : b.convention.slotSize.toNat = 8 := by
    rw [hwin]
    rfl
  refine ⟨b.copyOf places, ?_, ?_, fun i arg hi => ?_, fun i arg hi => ?_,
    fun i j arg arg' hij hi hj x => ?_⟩
  · have hal := h.aligned hlaw.aligns
    rwa [hslot] at hal
  · have hledger := h.changes.ledger hlaw.separate hs hl
    have hin := hledger.inside buffer (List.mem_append_right _ List.mem_cons_self)
    have hsize := h.size
    rw [hslot, Nat.mul_comm] at hsize
    obtain ⟨k, hk, he⟩ := hin.2 h.alive_buffer
    rw [h.scope] at hk
    refine ⟨k, hk, he.1, ?_⟩
    rw [← hsize]
    exact he.2
  · obtain ⟨copy?, hplace, hlies, _⟩ := hp.lies i arg hi
    obtain ⟨bytes, ht, hlen, hm, hz⟩ := hlies.slot
    have harg := hacc arg (List.mem_of_getElem? hi)
    rw [hslot] at hlen hm hz
    rw [Nat.mul_comm] at hm hz
    rw [hwin] at ht harg
    refine (hm.padded hlen hz).trans (ht.win64Slot harg fun r hr => ?_)
    rw [hr] at hplace
    rw [copyOf_eq hplace]
  · obtain ⟨r, hplace, _, hcopied⟩ := h.copied hlaw hs hl hwin hacc hp hi
    rw [copyOf_eq hplace]
    exact hcopied
  · obtain ⟨r, hr, hscope, _⟩ := h.copied hlaw hs hl hwin hacc hp hi
    obtain ⟨r', hr', hscope', _⟩ := h.copied hlaw hs hl hwin hacc hp hj
    rw [copyOf_eq hr, copyOf_eq hr']
    exact h.apart hlaw.separate hs hl hp hij hr hr' hscope hscope'

end VariadicBuilder
end ScopedMemory
