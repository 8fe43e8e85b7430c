import ScopedMemory.Proofs.Arena.Serving

namespace ScopedMemory

open Operation

variable {system : SystemAllocator} {strict : Prop} {waiting : List Block} {G : List Region}
  {ctx : Context} {σ τ : Store}

namespace Allocator

/-- Recycled regions are not handed out anew. -/
def IsFresh : Allocator → Prop
  | recycling _ => False
  | _ => True

instance : DecidablePred IsFresh := fun w => by
  cases w <;> unfold IsFresh <;> infer_instance

def Known (w : Allocator) (σ : Store) : Prop := ∀ a, w = arena a → a < σ.arenas.length

/-- The scope that the regions of the allocator belong to. -/
def home (σ : Store) : Allocator → ScopeId
  | direct s => s
  | perRequest _ => σ.scopes.length
  | arena a => (σ.arena a).scope
  | recycling r => r.scope

theorem serves_allocate (hs : σ.Sound system strict waiting) (hw : ctx.system.Within system)
    {w : Allocator} (hk : w.Known σ) (hf : w.IsFresh) (size align : Word) :
    Serves system ctx σ (w.home σ) size align (w.allocate size align) := by
  cases w with
  | direct s =>
    refine (leads_require (P := fun _ τ => σ = τ) (fun _ _ => rfl) .refl).bind ?_
    rintro _ _ rfl
    exact ScopeId.serves_allocateNative hs hw s size align
  | perRequest kind =>
    refine (leads_require (P := fun _ τ => σ = τ) (fun _ _ => rfl) .refl).bind ?_
    rintro _ _ rfl
    have hne : (if kind = .global then .implicit else kind) ≠ ScopeKind.global := by
      split
      next => exact ScopeKind.noConfusion
      next hk => exact hk
    refine (ScopeId.leads_create _).chain (fun _ h => h.elim) fun s τ h => ?_
    obtain ⟨hg, _⟩ | ⟨_, rfl, rfl⟩ := h
    · exact absurd hg hne
    have hc : Store.Change system σ [] _ :=
      .scope σ (if kind = .global then .implicit else kind) ctx.caller
    refine (ScopeId.serves_allocateNative (hc.sound hs) hw _ size align).imp (fun r ρ h => ?_) ?_
    · exact ⟨hc.changes.before h.1, h.2⟩
    · exact fun _ => hc.changes.before
  | arena a => exact ArenaId.serves_allocate hs hw (hk a rfl) size align
  | recycling r => exact hf.elim

theorem leads_recycling (r : Region) (size align : Word) :
    ((recycling r).allocate size align).Leads ctx σ
      (fun r' τ => σ.checkUsable ctx.caller r.scope = .ok () ∧ r.Spans 0 size ∧
        r' = r.narrow 0 size ∧ τ = σ)
      (· = σ) := by
  simp only [allocate]
  split
  next => exact leads_throw rfl
  next =>
    refine Region.leads_slice.imp (fun _ _ h => ?_) fun _ h => h
    obtain ⟨hu, hs⟩ := Store.checkAccess_eq_ok_iff.mp h.1
    exact ⟨hu, hs, h.2⟩

/-- The regions that a request makes the allocator hand out anew. -/
def grants : Allocator → Region → List Region
  | recycling _, _ => []
  | _, r => [r]

theorem grants_of_isFresh {w : Allocator} (h : w.IsFresh) (r : Region) : w.grants r = [r] := by
  cases w with
  | recycling => exact h.elim
  | _ => rfl

/-- Any allocator hands out a region of the size asked for that the caller may use. -/
structure Gives (system : SystemAllocator) (ctx : Context) (σ : Store) (w : Allocator)
    (size align : Word) (r : Region) (τ : Store) : Prop where
  changes : Store.Changes system False σ (w.grants r) τ
  usable : τ.checkUsable ctx.caller r.scope = .ok ()
  align : w.IsFresh → system.Aligns → align.toNat ∣ r.start.toNat
  recycled : ∀ r₀, w = recycling r₀ → r₀.Spans 0 size ∧ r = r₀.narrow 0 size
  scope : r.scope = w.home σ
  size : r.size = size

theorem leads_allocate (hs : σ.Sound system strict waiting) (hw : ctx.system.Within system)
    {w : Allocator} (hk : w.Known σ) (size align : Word) :
    (w.allocate size align).Leads ctx σ (w.Gives system ctx σ size align)
      (Store.Changes system False σ []) := by
  by_cases hf : w.IsFresh
  · refine (serves_allocate hs hw hk hf size align).imp (fun r τ h => ?_) fun _ h => h
    obtain ⟨hc, hm⟩ := h
    refine ⟨?_, hm.usable, fun _ => hm.align, fun r₀ he => ?_, hm.scope, hm.size⟩
    · rwa [grants_of_isFresh hf]
    · rw [he] at hf
      exact hf.elim
  · cases w with
    | recycling r₀ =>
      refine (leads_recycling r₀ size align).imp (fun r τ h => ?_) fun τ h => ?_
      · obtain ⟨hu, hsp, rfl, rfl⟩ := h
        refine ⟨.refl, hu, fun h => absurd h hf, fun r he => ?_, rfl, rfl⟩
        cases he
        exact ⟨hsp, rfl⟩
      · rw [h]
        exact .refl
    | _ => exact absurd trivial hf

end Allocator

/-- What lies in a block ends below the end of the address space. -/
theorem Region.Inside.finish_lt {r : Region} (h : r.Inside σ) (hlaw : system.Lawful)
    (hs : σ.Sound system strict waiting) (ha : σ.IsAlive r.scope) :
    r.start.toNat + r.size.toNat < 0x10000000000000000 := by
  obtain ⟨b, hb, he⟩ := h.2 ha
  have hf := SystemAllocator.finish_lt_of_mem_unfreed hlaw.packs hs.history b (hs.mem_unfreed hb)
  have hend := he.2
  unfold Block.finish at hf
  omega

/-- What an allocator gives can be used as far as its end. -/
theorem Allocator.Gives.spans {w : Allocator} {size align : Word} {r : Region}
    (h : w.Gives system ctx σ size align r τ) (hlaw : system.Lawful)
    (hs : σ.Sound system strict waiting) (hl : σ.Ledger G) : r.Spans 0 size := by
  by_cases hf : w.IsFresh
  · have hin : r.Inside τ := by
      refine (h.changes.ledger hlaw.separate hs hl).inside r (List.mem_append_right _ ?_)
      rw [grants_of_isFresh hf]
      exact List.mem_singleton.mpr rfl
    have hend := hin.finish_lt hlaw (h.changes.sound hs) (Store.checkUsable_eq_ok_iff.mp h.usable).2
    rw [h.size] at hend
    unfold Region.Spans
    rw [h.size, UInt64.toNat_zero]
    omega
  · cases w with
    | recycling r₀ =>
      obtain ⟨hsp, rfl⟩ := h.recycled r₀ rfl
      have hstart := Region.toNat_start_narrow hsp
      unfold Region.Spans at hsp ⊢
      rw [hstart]
      refine ⟨?_, hsp.2⟩
      rw [UInt64.toNat_zero]
      exact Nat.le_of_eq (Nat.zero_add _)
    | _ => exact absurd trivial hf

theorem Allocator.Gives.apart {w : Allocator} {size align : Word} {r : Region}
    (h : w.Gives system ctx σ size align r τ) (hsep : system.Separate)
    (hs : σ.Sound system strict waiting) (hl : σ.Ledger G) (hf : w.IsFresh) {g : Region}
    (hg : g ∈ G) (ha : σ.IsAlive g.scope) {x : Nat} (hx : g.Has x) : ¬ r.Has x := by
  have hlater := h.changes.ledger hsep hs hl
  rw [grants_of_isFresh hf] at hlater
  have hpair := (List.pairwise_append.mp hlater.apart).2.2 g hg r (List.mem_singleton.mpr rfl)
  have hga := (h.changes.extends.isAlive_iff (hl.inside g hg).1).mpr ha
  exact hpair hga (Store.checkUsable_eq_ok_iff.mp h.usable).2 x hx

namespace AllocationRequest

def dimensions : AllocationRequest → Except MemoryError (Word × Word)
  | raw size align => .ok (size, align)
  | bytes size => .ok (size, 1)
  | layout l | value l _ | address l _ => .ok (l.size, l.align)
  | arrayOf element count =>
    (Layout.ofSequence count element).map fun l => (l.size, l.align)
  | array _ element xs =>
    (Layout.ofSequence (.ofNat xs.length) element).map fun l => (l.size, l.align)
  | addressArray element xs =>
    (Layout.ofSequence (.ofNat xs.length) element).map fun l => (l.size, l.align)

/-- The bytes that the region begins with. What is not asked for is zero. -/
def initial : AllocationRequest → Except MemoryError Bytes
  | value l x => .ok (x.encode l.order)
  | address l a => Region.addressBytes l a
  | array t element xs => .ok (xs.flatMap fun x => Scalar.encode ⟨t, x⟩ element.order)
  | addressArray element xs => xs.flatMapM (Address.encode .native element.order)
  | raw .. | bytes _ | layout _ | arrayOf .. => .ok []

/-- What is checked before the allocator is asked, and what it is asked for. -/
def checked : AllocationRequest → Except MemoryError (Word × Word)
  | value l x => (x.type.carrier.check l .native).map fun _ => (l.size, l.align)
  | address l _ => (Carrier.address.check l .native).map fun _ => (l.size, l.align)
  | q@(array t element _) => (t.carrier.check element .native).bind fun _ => q.dimensions
  | q@(addressArray element _) =>
    (Carrier.address.check element .native).bind fun _ => q.dimensions
  | q => q.dimensions

/-- What is written to the region that the allocator gives. -/
def fill (r : Region) : AllocationRequest → Operation Region
  | value l x => do
    r.set l 0 x
    return r
  | address l a => do
    r.setAddress l 0 a
    return r
  | array t element xs => do
    r.write 0 (xs.flatMap fun x => Scalar.encode ⟨t, x⟩ element.order)
    return r
  | addressArray element xs => do
    r.write 0 (← xs.flatMapM fun a => require (Address.encode .native element.order a))
    return r
  | raw .. | bytes _ | layout _ | arrayOf .. => return r

theorem dimensions_of_checked {q : AllocationRequest} {d : Word × Word} (h : q.checked = .ok d) :
    q.dimensions = .ok d := by
  have hmap : ∀ {c : Except MemoryError Unit} {d' : Word × Word},
      (c.map fun _ => d') = .ok d → .ok d' = (.ok d : Except MemoryError (Word × Word)) := by
    intro c d' hc
    cases c with
    | ok _ => exact hc
    | error e => cases hc
  have hbind : ∀ {c : Except MemoryError Unit} {c' : Except MemoryError (Word × Word)},
      (c.bind fun _ => c') = .ok d → c' = .ok d := by
    intro c c' hc
    cases c with
    | ok _ => exact hc
    | error e => cases hc
  cases q with
  | raw | bytes | layout | arrayOf => exact h
  | value | address => exact hmap h
  | array | addressArray => exact hbind h

end AllocationRequest

theorem Memory.write_nil (m : Memory) (start : Nat) : m.write start [] = m := by
  have h : (m.write start []).byte = m.byte := by
    funext x
    exact byte_write_of_not fun h => Nat.lt_irrefl _ (Nat.lt_of_le_of_lt h.1 h.2)
  cases m
  exact congrArg Memory.mk h

theorem Operation.run_flatMapM_require {α β : Type} (f : α → Except MemoryError (List β))
    (xs : List α) :
    ((xs.flatMapM fun a => require (f a)) : Operation (List β)).run ctx σ =
      (require (xs.flatMapM f)).run ctx σ := by
  induction xs with
  | nil => rfl
  | cons x xs ih =>
    rw [List.flatMapM_cons, List.flatMapM_cons]
    cases f x with
    | error e => rfl
    | ok bs =>
      simp only [run_bind, run_require_ok, ih]
      cases xs.flatMapM f <;> rfl

/-- The region begins with what the request brings, or nothing happens. -/
theorem AllocationRequest.leads_fill (r : Region) (q : AllocationRequest) :
    (q.fill r).Leads ctx σ
      (fun r' τ => r' = r ∧ ∃ bytes, q.initial = .ok bytes ∧ r.Takes 0 bytes.length ∧
        τ = σ.setMemory (σ.memory.write r.start.toNat bytes))
      (· = σ) := by
  have hwritten : ∀ {bytes : Bytes} {τ : Store}, q.initial = .ok bytes →
      σ.checkWrite ctx.caller r 0 bytes.length = .ok () →
      τ = σ.setMemory (σ.memory.write (r.start + 0).toNat bytes) →
      ∃ bytes, q.initial = .ok bytes ∧ r.Takes 0 bytes.length ∧
        τ = σ.setMemory (σ.memory.write r.start.toNat bytes) := by
    intro bytes τ hb hc hτ
    rw [UInt64.add_zero] at hτ
    exact ⟨bytes, hb, (Store.checkWrite_eq_ok_iff.mp hc).2, hτ⟩
  have hplain : q.initial = .ok [] → ∃ bytes, q.initial = .ok bytes ∧ r.Takes 0 bytes.length ∧
      σ = σ.setMemory (σ.memory.write r.start.toNat bytes) := by
    intro hb
    refine ⟨[], hb, ⟨Nat.zero_le _, r.start.toNat_lt⟩, ?_⟩
    rw [Memory.write_nil]
    rfl
  cases q with
  | value l x =>
    refine Region.leads_set.bind fun _ τ h => ?_
    exact leads_pure ⟨rfl, hwritten rfl h.2.1 h.2.2⟩
  | address l a =>
    refine Region.leads_setAddress.bind fun _ τ h => ?_
    obtain ⟨bytes, hb, hc, hτ⟩ := h
    exact leads_pure ⟨rfl, hwritten hb hc hτ⟩
  | array t element xs =>
    refine Region.leads_write.bind fun _ τ h => ?_
    exact leads_pure ⟨rfl, hwritten rfl h.1 h.2⟩
  | addressArray element xs =>
    refine Leads.bind (P := fun bytes τ => σ = τ ∧
      xs.flatMapM (Address.encode .native element.order) = .ok bytes) ?_ ?_
    · unfold Leads
      rw [run_flatMapM_require]
      cases xs.flatMapM (Address.encode .native element.order) with
      | error e => rfl
      | ok bytes => exact ⟨rfl, rfl⟩
    · rintro bytes _ ⟨rfl, hb⟩
      refine Region.leads_write.bind fun _ τ h => ?_
      exact leads_pure ⟨rfl, hwritten hb h.1 h.2⟩
  | raw | bytes | layout | arrayOf => exact leads_pure ⟨rfl, hplain rfl⟩

theorem Allocator.serve_eq (w : Allocator) (q : AllocationRequest) :
    w.serve q = require q.checked >>= fun d => w.allocate d.1 d.2 >>= q.fill := by
  have hmap : ∀ {α β : Type} (c : Except MemoryError α) (f : α → β) (g : β → Operation Region),
      (require (c.map f) >>= g) = require c >>= fun a => g (f a) := by
    intro α β c f g
    cases c <;> rfl
  have hbind : ∀ {α β : Type} (c : Except MemoryError α) (f : α → Except MemoryError β)
      (g : β → Operation Region),
      (require (c.bind f) >>= g) = require c >>= fun a => require (f a) >>= g := by
    intro α β c f g
    cases c <;> rfl
  cases q with
  | raw size align => exact (bind_pure (w.allocate size align)).symm
  | bytes size => exact (bind_pure (w.allocate size 1)).symm
  | layout l => exact (bind_pure (w.allocate l.size l.align)).symm
  | arrayOf element count =>
    refine Eq.trans ?_ (hmap _ _ _).symm
    exact bind_congr fun l => (bind_pure (w.allocate l.size l.align)).symm
  | value l x =>
    refine Eq.trans ?_ (hmap _ _ _).symm
    rfl
  | address l a =>
    refine Eq.trans ?_ (hmap _ _ _).symm
    rfl
  | array t element xs =>
    refine Eq.trans ?_ (hbind _ _ _).symm
    refine bind_congr fun _ => Eq.trans ?_ (hmap _ _ _).symm
    exact bind_assoc _ _ _
  | addressArray element xs =>
    refine Eq.trans ?_ (hbind _ _ _).symm
    refine bind_congr fun _ => Eq.trans ?_ (hmap _ _ _).symm
    exact bind_assoc _ _ _

namespace Allocator

variable {w : Allocator} {q : AllocationRequest}

/-- To serve a request is to check it, to allocate by its dimensions and to fill the region. -/
theorem leads_serve_bind {P : Region → Store → Prop} {Q : Store → Prop} (hσ : Q σ)
    (ha : ∀ size align, q.dimensions = .ok (size, align) →
      (w.allocate size align >>= q.fill).Leads ctx σ P Q) : (w.serve q).Leads ctx σ P Q := by
  rw [serve_eq]
  refine (leads_require (P := fun d τ => σ = τ ∧ q.checked = .ok d)
    (fun _ hd => ⟨rfl, hd⟩) hσ).bind ?_
  rintro ⟨size, align⟩ _ ⟨rfl, hd⟩
  exact ha size align (AllocationRequest.dimensions_of_checked hd)

/-- A request is served by a region with the bytes that it begins with. -/
def Served (system : SystemAllocator) (ctx : Context) (σ : Store) (w : Allocator)
    (q : AllocationRequest) (r : Region) (τ : Store) : Prop :=
  ∃ size align bytes ρ, q.dimensions = .ok (size, align) ∧ q.initial = .ok bytes ∧
    w.Gives system ctx σ size align r ρ ∧ r.Takes 0 bytes.length ∧
    τ = ρ.setMemory (ρ.memory.write r.start.toNat bytes)

theorem leads_serve (hs : σ.Sound system strict waiting) (hw : ctx.system.Within system)
    (hk : w.Known σ) (q : AllocationRequest) :
    (w.serve q).Leads ctx σ (w.Served system ctx σ q)
      fun τ => ∃ rs, Store.Changes system False σ rs τ := by
  refine leads_serve_bind ⟨[], .refl⟩ fun size align hd => ?_
  refine (leads_allocate hs hw hk size align).chain (fun τ h => ⟨[], h⟩) fun r ρ hg => ?_
  refine (q.leads_fill r).imp (fun r' τ h => ?_) fun τ h => ⟨_, h ▸ hg.changes⟩
  obtain ⟨rfl, bytes, hb, ht, hτ⟩ := h
  exact ⟨size, align, bytes, ρ, hd, hb, hg, ht, hτ⟩

/-- To serve a request is to allocate by its dimensions and to write at most. -/
theorem leads_serve_of_allocate {P : Region → Store → Prop} {Q : Store → Prop} (hσ : Q σ)
    (hPQ : ∀ r τ, P r τ → Q τ) (hm : ∀ r τ m, P r τ → P r (τ.setMemory m))
    (ha : ∀ size align, q.dimensions = .ok (size, align) →
      (w.allocate size align).Leads ctx σ P Q) : (w.serve q).Leads ctx σ P Q := by
  refine leads_serve_bind hσ fun size align hd => ?_
  refine (ha size align hd).bind fun r τ h => ?_
  refine (q.leads_fill r).imp (fun r' ρ h' => ?_) fun ρ h' => h' ▸ hPQ r τ h
  obtain ⟨rfl, _, _, _, rfl⟩ := h'
  exact hm _ _ _ h

end Allocator
end ScopedMemory
