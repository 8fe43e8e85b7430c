import ScopedMemory.Proofs.Lifetime.Keep
import ScopedMemory.Proofs.Variadic.Slots

namespace ScopedMemory

open Operation

variable {system : SystemAllocator} {strict : Prop} {waiting : List Block} {G : List Region}
  {ctx : Context} {σ : Store} {c : Convention} {a : ArenaId} {arg : Argument} {r : Region}

/-- A copy reaches no further than its target. -/
theorem Store.Fills.copied {τ ρ : Store} {W : Nat → Prop} (h : σ.Fills a W τ)
    {target src : Region} (hr : ∀ x, target.Has x → σ.Settled a x → W x)
    (hc : τ.checkAccess ctx.caller target 0 src.size = .ok ())
    (hρ : ρ = τ.setMemory (τ.memory.write target.start.toNat
      (τ.memory.read src.start.toNat src.size.toNat))) : σ.Fills a W ρ := by
  have hlen := (Store.checkAccess_eq_ok_iff.mp hc).2.1
  rw [← UInt64.add_zero target.start] at hρ
  refine (h.written hr ?_ hρ).1
  rw [Memory.length_read]
  simpa using hlen

namespace VariadicBuilder

/-! ### Structs whose scope has ended -/

theorem fails_writeSlot (slot : Region) (hv : arg.value = .segment r)
    (hl : r.scope < σ.scopes.length) (hd : ¬ σ.IsAlive r.scope) :
    (writeSlot c a slot arg).Leads ctx σ (fun _ _ => False) fun _ => True := by
  have hcopy : ∀ (target : Region) (τ : Store), σ.Keeps τ →
      (target.copyFrom r).Leads ctx τ (fun _ _ => False) fun _ => True := by
    intro target τ hk
    refine Region.leads_copyFrom.imp (fun _ _ h => hd ?_) fun _ _ => trivial
    have hu := (Store.checkAccess_eq_ok_iff.mp h.1).1
    exact (hk.isAlive_iff hl).mp (Store.isAlive_of_checkUsable hu)
  unfold writeSlot
  rw [hv]
  refine (keeps_require _).chain (fun _ _ => trivial) fun found τ h => ?_
  split
  next =>
    refine (Allocator.provides_allocate _ _ _).chain (fun _ _ => trivial) fun copy ρ hρ => ?_
    exact (hcopy copy ρ (h.1.trans hρ.1)).chain (fun _ h => h) fun _ _ hf => hf.elim
  next =>
    refine Region.keeps_slice.chain (fun _ _ => trivial) fun slot' ρ hρ => ?_
    exact hcopy slot' ρ (h.1.trans hρ.1)

theorem fails_writeSlots (buffer : Region) (index : Nat) {args : List Argument} (hm : arg ∈ args)
    (hv : arg.value = .segment r) (hl : r.scope < σ.scopes.length) (hd : ¬ σ.IsAlive r.scope) :
    (writeSlots c a buffer index args).Leads ctx σ (fun _ _ => False) fun _ => True := by
  induction args generalizing σ index with
  | nil => cases hm
  | cons arg' args ih =>
    refine Region.keeps_slice.chain (fun _ _ => trivial) fun slot τ hτ => ?_
    have hl' := Nat.lt_of_lt_of_le hl hτ.1.scopes
    have hd' : ¬ τ.IsAlive r.scope := fun ha => hd ((hτ.1.isAlive_iff hl).mp ha)
    rcases List.mem_cons.mp hm with rfl | hm
    · exact (fails_writeSlot slot hv hl' hd').chain (fun _ h => h) fun _ _ hf => hf.elim
    · refine (keeps_writeSlot slot arg').chain (fun _ _ => trivial) fun _ ρ hρ => ?_
      refine ih (index + 1) hm (Nat.lt_of_lt_of_le hl' hρ.1.scopes) fun ha => ?_
      exact hd' ((hρ.1.isAlive_iff hl').mp ha)

/-- No list is built with a struct whose scope has ended since it was accepted. -/
theorem fails_build {b : VariadicBuilder} (hm : arg ∈ b.arguments) (hv : arg.value = .segment r)
    (hl : r.scope < σ.scopes.length) (hd : ¬ σ.IsAlive r.scope) :
    b.build.Leads ctx σ (fun _ _ => False) fun _ => True := by
  unfold build
  rw [if_neg (List.ne_nil_of_mem hm)]
  dsimp only
  split
  next => exact leads_throw trivial
  next size _ =>
    refine (ArenaId.keeps_create _ _ _).chain (fun _ _ => trivial) fun a τ hτ => ?_
    refine (ArenaId.provides_allocate a size b.convention.slotSize).chain (fun _ _ => trivial)
      fun buffer ρ hρ => ?_
    have hk := hτ.1.trans hρ.1
    refine (fails_writeSlots buffer 0 hm hv (Nat.lt_of_lt_of_le hl hk.scopes) fun ha =>
      hd ((hk.isAlive_iff hl).mp ha)).chain (fun _ h => h) fun _ _ hf => hf.elim

/-! ### What a list that is not built leaves alone -/

variable {slot buffer : Region}

/-- Whatever is in the other regions, only the slot is written to of what is settled. -/
theorem fills_writeSlot (hsep : system.Separate) (hs : σ.Sound system strict waiting)
    (hl : σ.Ledger G) (hw : ctx.system.Within system) (ha : a < σ.arenas.length) :
    (writeSlot c a slot arg).Leads ctx σ (fun _ τ => σ.Fills a slot.Has τ)
      (σ.Leaves a slot.Has) := by
  have hsame : ∀ τ, τ = σ → σ.Leaves a slot.Has τ := fun τ h => h ▸ .refl σ
  have hset : ∀ x, (slot.set arg.layout 0 x).Leads ctx σ (fun _ τ => σ.Fills a slot.Has τ)
      (σ.Leaves a slot.Has) := by
    intro x
    refine Region.leads_set.imp (fun _ τ h => ?_) hsame
    obtain ⟨_, hc, hτ⟩ := h
    have hlen := (Store.checkWrite_eq_ok_iff.mp hc).2.1
    exact ((Store.Fills.refl σ).written (fun x hx _ => hx) (by simpa using hlen) hτ).1
  unfold writeSlot
  split
  next => exact hset _
  next => exact hset _
  next => exact hset _
  next x _ =>
    refine Region.leads_setAddress.imp (fun _ τ h => ?_) hsame
    obtain ⟨_, _, hc, hτ⟩ := h
    have hlen := (Store.checkWrite_eq_ok_iff.mp hc).2.1
    exact ((Store.Fills.refl σ).written (fun x hx _ => hx) (by simpa using hlen) hτ).1
  next src _ =>
    refine (leads_require (P := fun _ τ => τ = σ) (fun _ _ => rfl) (hsame σ rfl)).bind ?_
    intro found τ h
    subst h
    split
    next =>
      have hgive := ArenaId.settles_allocate hsep hs hl hw ha arg.layout.size arg.layout.align
      refine Leads.chain (x := (Allocator.arena a).allocateLayout arg.layout) hgive
        (fun _ h x hx _ => h.byte hsep hs hx.1) fun copy ρ h => ?_
      obtain ⟨_, _, hset⟩ := h
      have hfalse : ∀ x, False → slot.Has x := fun _ h => h.elim
      refine Region.leads_copyFrom.chain (fun ν h => ?_) fun _ ν h => ?_
      · rw [h]
        exact hset.fills.leaves (.refl ρ) hfalse
      have hcopied := hset.fills.copied hset.new h.2.1 h.2.2
      refine Region.leads_setAddress.imp (fun _ ν' h => ?_) fun ν' h => ?_
      · obtain ⟨_, _, hc, hν⟩ := h
        have hlen := (Store.checkWrite_eq_ok_iff.mp hc).2.1
        exact ((hcopied.mono hfalse).written (fun x hx _ => hx) (by simpa using hlen) hν).1
      · rw [h]
        exact hcopied.leaves (.refl ν) hfalse
    next =>
      refine Region.leads_slice.chain hsame fun slot' ρ h => ?_
      obtain ⟨hc, rfl, rfl⟩ := h
      have hsp := (Store.checkAccess_eq_ok_iff.mp hc).2
      refine Region.leads_copyFrom.imp (fun _ ν h => ?_) hsame
      exact (Store.Fills.refl ρ).copied (fun x hx _ => Region.has_narrow hsp hx) h.2.1 h.2.2

theorem leaves_writeSlots (hsep : system.Separate) (hs : σ.Sound system strict waiting)
    (hl : σ.Ledger G) (hw : ctx.system.Within system) (ha : a < σ.arenas.length) (index : Nat)
    (args : List Argument) :
    (writeSlots c a buffer index args).Leads ctx σ (fun _ _ => True) (σ.Leaves a buffer.Has) := by
  induction args generalizing σ index G with
  | nil => exact leads_pure trivial
  | cons arg args ih =>
    refine Region.leads_slice.chain (fun τ h => h ▸ .refl σ) fun slot τ h => ?_
    obtain ⟨hc, rfl, rfl⟩ := h
    have hslot := fun x => Region.has_narrow (x := x) (Store.checkAccess_eq_ok_iff.mp hc).2
    refine ((leads_writeSlot hs hw ha _ arg).and (fills_writeSlot hsep hs hl hw ha)).chain
      (fun ρ h x hx hn => h.2 x hx fun hx' => hn (hslot x hx')) fun _ ρ h => ?_
    obtain ⟨⟨rs, hch⟩, hf⟩ := h
    have hrest := ih (hch.sound hs) (hch.ledger hsep hs hl)
      (Nat.lt_of_lt_of_le ha hch.extends.arenas) (index + 1)
    exact hrest.imp (fun _ _ h => h) fun ν h => hf.leaves h hslot

/-- A list that cannot be built takes new memory at most. -/
theorem intact_build (hsep : system.Separate) (hs : σ.Sound system strict waiting)
    (hl : σ.Ledger G) (hw : ctx.system.Within system) (b : VariadicBuilder) :
    b.build.Leads ctx σ (fun _ _ => True)
      fun τ => ∀ x, σ.InUse x → τ.memory.byte x = σ.memory.byte x := by
  have hsame : ∀ τ, τ = σ → ∀ x, σ.InUse x → τ.memory.byte x = σ.memory.byte x := by
    intro τ h
    rw [h]
    exact fun _ _ => rfl
  unfold build
  split
  next => exact leads_pure trivial
  next =>
    dsimp only
    split
    next => exact leads_throw (hsame σ rfl)
    next size _ =>
      refine (ArenaId.leads_create _ _ _).chain hsame fun a τ h => ?_
      obtain ⟨_, hu, rfl, rfl⟩ := h
      have hc : Store.Change system σ []
          (σ.addArena ⟨b.scope, .unbounded 4096, 16, none, {}⟩) :=
        .arena (Store.checkUsable_eq_ok_iff.mp hu).2 rfl
      have hl' := hc.ledger hsep hs hl
      have ha : σ.arenas.length <
          (σ.addArena ⟨b.scope, .unbounded 4096, 16, none, {}⟩).arenas.length := by simp
      have hgive := ArenaId.settles_allocate hsep (hc.sound hs) hl' hw ha size
        b.convention.slotSize
      refine hgive.chain (fun τ h x hx => h.byte hsep (hc.sound hs) hx) fun buffer ρ h => ?_
      obtain ⟨hch, _, hset⟩ := h
      refine (leaves_writeSlots hsep (hch.sound (hc.sound hs))
        (hch.ledger hsep (hc.sound hs) hl') hw (Nat.lt_of_lt_of_le ha hch.extends.arenas) 0
        b.arguments).chain (fun τ h x hx => ?_) fun _ _ _ => leads_pure trivial
      have hx' := settled_addArena (s := b.scope) hx
      rw [h x (hset.fills.settled x hx') fun hb => hset.new x hb hx']
      exact hset.fills.byte x hx' fun h => h

end VariadicBuilder
end ScopedMemory
