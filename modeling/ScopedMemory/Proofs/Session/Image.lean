import ScopedMemory.Proofs.Layout
import ScopedMemory.Proofs.Session.ReadBack
import ScopedMemory.Proofs.Variadic.Image

namespace ScopedMemory

open Operation

variable {system : SystemAllocator} {past : List Move} {ctx : Context} {b : VariadicBuilder}

theorem Argument.region?_eq_some_iff {arg : Argument} {r : Region} :
    arg.region? = some r ↔ arg.value = .segment r := by
  unfold region?
  cases arg.value <;> simp

/-- Where all scopes can be used, only a lack of memory keeps a list from being built. -/
theorem starved_of_fails (hlaw : system.Lawful)
    (hS : (play past).Sound system False ((handedOut past).map (·.region)))
    (hctx : ctx.system.Within system) (hwin : b.convention = .win64)
    (hacc : ∀ arg ∈ b.arguments, arg.Accepted b.convention)
    (hmade : ∀ arg ∈ b.arguments, arg.layout.Made)
    (hsrc : ∀ arg ∈ b.arguments, ∀ r, arg.value = .segment r → r.Inside (play past).store)
    (hu : (play past).store.checkUsable ctx.caller b.scope = .ok ())
    (husrc : ∀ arg ∈ b.arguments, ∀ r, arg.value = .segment r →
      (play past).store.checkUsable ctx.caller r.scope = .ok ()) :
    b.build.Leads ctx (play past).store (fun _ _ => True) (b.Starved ctx.system) := by
  have hreg : b.convention.Regular := by
    rw [hwin]
    exact Convention.win64_regular
  have hbelow : ctx.system.PlacesBelow system ((play past).store.poolOf b.scope)
      b.convention.width.addresses := by
    rw [hwin]
    exact hlaw.placesBelow hctx _
  apply VariadicBuilder.fed_build hS.store hctx hlaw.aligns hreg hu hbelow
  intro arg harg
  refine ⟨hacc arg harg, ?_, (hmade arg harg).isPowerOfTwo_align, fun r hv => ?_⟩
  · rw [hwin]
    exact arg.fits_win64
  · have hur := husrc arg harg r hv
    have hend := (hsrc arg harg r hv).finish_lt hlaw hS.store
      (Store.checkUsable_eq_ok_iff.mp hur).2
    refine Store.checkAccess_eq_ok_iff.mpr ⟨hur, ?_⟩
    unfold Region.Spans
    rw [UInt64.toNat_zero]
    omega

/-- Building a list leaves every byte of the memory in use as it is, however it ends. In a run it
fails only where a scope cannot be used or memory is short, and what it builds is laid out as native
code expects it. -/
theorem play_laid (hlaw : system.Lawful) (hw : ∀ m ∈ past, m.Within system)
    (hctx : ctx.system.Within system) (hwin : b.convention = .win64) (hn : b.arguments ≠ [])
    (hacc : ∀ arg ∈ b.arguments, arg.Accepted b.convention)
    (hmade : ∀ arg ∈ b.arguments, arg.layout.Made)
    (hsrc : ∀ arg ∈ b.arguments, ∀ r, arg.value = .segment r → r.Inside (play past).store) :
    b.build.Leads ctx (play past).store
      (fun v τ => (∃ copy, b.Laid (play past).store v copy τ) ∧
        ∀ x, (play past).store.InUse x → τ.memory.byte x = (play past).store.memory.byte x)
      fun τ =>
        ((play past).store.checkUsable ctx.caller b.scope = .ok () →
          (∀ arg ∈ b.arguments, ∀ r, arg.value = .segment r →
            (play past).store.checkUsable ctx.caller r.scope = .ok ()) →
          b.Starved ctx.system τ) ∧
        ∀ x, (play past).store.InUse x → τ.memory.byte x = (play past).store.memory.byte x := by
  have hS : (play past).Sound system False ((handedOut past).map (·.region)) :=
    play_sound hlaw.separate hw False.elim
  have hbuilt := VariadicBuilder.built_build hlaw.separate hS.store hS.ledger hctx hn hacc
    fun arg harg r hr => hsrc arg harg r (Argument.region?_eq_some_iff.mp hr)
  refine leads_iff.mpr ⟨fun v τ hrun => ?_, fun e τ hrun => ⟨fun hu husrc => ?_, ?_⟩⟩
  · obtain ⟨buffer, copies, rfl, hb⟩ := hbuilt.ok hrun
    exact ⟨hb.laid hlaw hS.store hS.ledger hwin hacc, hb.intact⟩
  · have hfails := starved_of_fails hlaw hS hctx hwin hacc hmade hsrc hu husrc
    exact hfails.error hrun
  · exact hbuilt.error hrun

/-- The builder that `pushingCalls` leaves: a number, and structs of four and of twelve bytes. -/
def pushedBuilder : VariadicBuilder :=
  ⟨.win64, 1,
    [⟨.cInt, .int 7⟩,
      ⟨.struct ⟨4, 4, .little⟩ [.cInt], .segment ⟨0x20000004, 4, 1⟩⟩,
      ⟨.struct ⟨12, 4, .big⟩ [.cInt, .cInt, .cInt], .segment ⟨0x2000000c, 12, 1⟩⟩]⟩

theorem cInt_made : Layout.cInt.Made := .value 4 .little rfl

theorem pushedBuilder_made : ∀ arg ∈ pushedBuilder.arguments, arg.layout.Made := by
  have hints : ∀ n, ∀ m ∈ List.replicate n Layout.cInt, m.Made := by
    intro n m hm
    rw [List.eq_of_mem_replicate hm]
    exact cInt_made
  intro arg harg
  rcases List.mem_cons.mp harg with rfl | harg
  · exact cInt_made
  rcases List.mem_cons.mp harg with rfl | harg
  · exact .struct (hints 1) rfl
  · obtain rfl := List.mem_singleton.mp harg
    exact .withOrder (.struct (hints 3) (l := .struct ⟨12, 4, .little⟩ _) rfl) .big

/-- The number lies before four zeros, and the larger struct where its slot points to. -/
theorem pushedBuilder_laid :
    (∀ m ∈ movesOf TwinHeaps.system pushingCalls, m.Within TwinHeaps.system) ∧
    ∃ v copy τ,
      pushedBuilder.build.run ⟨0, TwinHeaps.system⟩
        (play (movesOf TwinHeaps.system pushingCalls)).store = .ok v τ ∧
      pushedBuilder.Laid (play (movesOf TwinHeaps.system pushingCalls)).store v copy τ ∧
      τ.memory.read v.address.toNat 8 = [7, 0, 0, 0, 0, 0, 0, 0] ∧
      τ.memory.read (v.address.toNat + 16) 8 =
        ByteOrder.little.encode 8 (copy 2).start.toNat ∧
      τ.memory.read (copy 2).start.toNat 12 = [0, 0, 0, 1, 2, 3, 0, 0, 0, 0, 0, 0] := by
  have hw := within_movesOf TwinHeaps.system pushingCalls
  have ha := adopts_movesOf TwinHeaps.system (show ∀ p ∈ pushingCalls, ¬ p.2.Adopts by decide)
  have hS : (play (movesOf TwinHeaps.system pushingCalls)).Sound TwinHeaps.system True _ :=
    play_sound TwinHeaps.lawful.separate hw fun _ => ha
  have hb : (play (movesOf TwinHeaps.system pushingCalls)).builder? "b" = some pushedBuilder := rfl
  have hc : (Call.variadic (.build "b" "v")).Builds (play (movesOf TwinHeaps.system pushingCalls))
      pushedBuilder "v" := ⟨hb, rfl⟩
  have hlaid : pushedBuilder.build.Leads ⟨0, TwinHeaps.system⟩
      (play (movesOf TwinHeaps.system pushingCalls)).store _ _ :=
    play_laid TwinHeaps.lawful hw (.refl _) rfl (List.cons_ne_nil _ _)
      ((hS.of_builder? hb).builder _ rfl) pushedBuilder_made
      fun arg harg r hv => hc.inside hS harg (Argument.region?_eq_some_iff.mpr hv)
  have hrun : ∃ v τ, pushedBuilder.build.run ⟨0, TwinHeaps.system⟩
      (play (movesOf TwinHeaps.system pushingCalls)).store = .ok v τ := ⟨_, _, rfl⟩
  obtain ⟨v, τ, hrun⟩ := hrun
  obtain ⟨⟨copy, hl⟩, _⟩ := hlaid.ok hrun
  have hcopied := hl.copied 2 _ ⟨rfl, ⟨_, rfl⟩, by decide⟩
  refine ⟨hw, v, copy, τ, hrun, hl, (hl.slots 0 _ rfl).trans rfl, (hl.slots 2 _ rfl).trans rfl, ?_⟩
  have hcontents := hcopied.contents
  rw [hcopied.size] at hcontents
  exact hcontents.trans rfl

/-- Where memory is not short, a list is built exactly if slots are wide enough for its numbers and
addresses for its addresses. That a layout goes with its carrier is not enough. -/
theorem play_builds_iff (hlaw : system.Lawful) (hw : ∀ m ∈ past, m.Within system)
    (hctx : ctx.system.Within system) (hreg : b.convention.Regular)
    (hacc : ∀ arg ∈ b.arguments, arg.Accepted b.convention)
    (hmade : ∀ arg ∈ b.arguments, arg.layout.Made)
    (hu : (play past).store.checkUsable ctx.caller b.scope = .ok ())
    (hsrc : ∀ arg ∈ b.arguments, ∀ r, arg.value = .segment r →
      (play past).store.checkAccess ctx.caller r 0 r.size = .ok ())
    (hbelow : ctx.system.PlacesBelow system ((play past).store.poolOf b.scope)
      b.convention.width.addresses)
    (henough : ∀ e τ, b.build.run ctx (play past).store = .error e τ →
      ¬ b.Starved ctx.system τ) :
    (∃ v τ, b.build.run ctx (play past).store = .ok v τ) ↔
      ∀ arg ∈ b.arguments, arg.Fits b.convention := by
  have hS : (play past).Sound system False ((handedOut past).map (·.region)) :=
    play_sound hlaw.separate hw False.elim
  constructor
  · intro h
    obtain ⟨v, τ, hrun⟩ := h
    exact (VariadicBuilder.leads_fits_build hacc).ok hrun
  · intro hfits
    have hfed := VariadicBuilder.fed_build hS.store hctx hlaw.aligns hreg hu hbelow
      fun arg harg => ⟨hacc arg harg, hfits arg harg, (hmade arg harg).isPowerOfTwo_align,
        hsrc arg harg⟩
    cases hrun : b.build.run ctx (play past).store with
    | ok v τ => exact ⟨v, τ, rfl⟩
    | error e τ => exact absurd (hfed.error hrun) (henough e τ hrun)

/-- A number of eight bytes where slots have four. -/
def narrowBuilder : VariadicBuilder := ⟨.abi32, 1, [⟨.cLongLong, .long 1⟩]⟩

def sharingCalls : List (Thread × Call) := [(0, .scope (.create .shared "s"))]

theorem TwinHeaps.placesBelow (pool : Pool) :
    TwinHeaps.system.PlacesBelow TwinHeaps.system pool (limit pool + 1) :=
  fun _ _ _ _ _ _ hb => Nat.lt_succ_of_le (toNat_of_place hb).2

theorem Convention.abi32_regular : abi32.Regular where
  slot := by decide
  value := trivial
  size := rfl
  fits := by decide

theorem narrowBuilder_accepted : ∀ arg ∈ narrowBuilder.arguments, arg.Accepted .abi32 := by
  intro arg harg
  obtain rfl := List.mem_singleton.mp harg
  exact ⟨rfl, fun r hv => by cases hv⟩

theorem narrowBuilder_made : ∀ arg ∈ narrowBuilder.arguments, arg.layout.Made := by
  intro arg harg
  obtain rfl := List.mem_singleton.mp harg
  exact .value 8 .little rfl

/-- The number is accepted, and there is memory for its slot, but it does not fit there. -/
theorem narrowBuilder_fails :
    (∀ arg ∈ narrowBuilder.arguments, arg.Accepted .abi32) ∧
    ∃ τ, narrowBuilder.build.run ⟨0, TwinHeaps.system⟩
        (play (movesOf TwinHeaps.system sharingCalls)).store = .error (.outOfBounds 0 8 4) τ ∧
      ¬ narrowBuilder.Starved TwinHeaps.system τ := by
  refine ⟨narrowBuilder_accepted, _, rfl, fun hs => ?_⟩
  rcases hs with hs | ⟨arg, harg, ⟨⟨r, hv⟩, _⟩, _⟩
  · rcases hs with hs | hs
    · exact absurd hs (by decide)
    · cases hs
  · obtain rfl := List.mem_singleton.mp harg
    cases hv

/-- Only the width of the slots keeps the list from being built. -/
theorem narrowBuilder_not_built :
    (∀ m ∈ movesOf TwinHeaps.system sharingCalls, m.Within TwinHeaps.system) ∧
    (∀ arg ∈ narrowBuilder.arguments, arg.Accepted .abi32 ∧ arg.layout.Made) ∧
    ¬ ∃ v τ, narrowBuilder.build.run ⟨0, TwinHeaps.system⟩
      (play (movesOf TwinHeaps.system sharingCalls)).store = .ok v τ := by
  have hw := within_movesOf TwinHeaps.system sharingCalls
  have hbelow : TwinHeaps.system.PlacesBelow TwinHeaps.system .native 0x100000000 :=
    fun past size align base hh ha hb =>
      Nat.lt_of_lt_of_le (TwinHeaps.placesBelow .native past size align base hh ha hb) (by decide)
  have hsrc : ∀ arg ∈ narrowBuilder.arguments, ∀ r, arg.value = .segment r →
      (play (movesOf TwinHeaps.system sharingCalls)).store.checkAccess 0 r 0 r.size = .ok () := by
    intro arg harg r hv
    obtain rfl := List.mem_singleton.mp harg
    cases hv
  have henough : ∀ e τ, narrowBuilder.build.run ⟨0, TwinHeaps.system⟩
      (play (movesOf TwinHeaps.system sharingCalls)).store = .error e τ →
        ¬ narrowBuilder.Starved TwinHeaps.system τ := by
    intro e τ hrun
    obtain ⟨_, τ', hrun', hs⟩ := narrowBuilder_fails
    cases hrun'.symm.trans hrun
    exact hs
  refine ⟨hw, fun arg harg => ?_, fun h => ?_⟩
  · exact ⟨narrowBuilder_accepted arg harg, narrowBuilder_made arg harg⟩
  have hfits := (play_builds_iff TwinHeaps.lawful hw (.refl _) Convention.abi32_regular
    narrowBuilder_accepted narrowBuilder_made rfl hsrc hbelow henough).mp h
  exact absurd hfits (by decide)

end ScopedMemory
