import ScopedMemory.Proofs.Session.Accounts
import ScopedMemory.Proofs.Session.Lists
import ScopedMemory.Proofs.Variadic.Failures

namespace ScopedMemory

open Turn

variable {α β : Type} {S T U : Session} {ctx : Context} {m n : Nat}

/-! ### How many calls a call stands for -/

/-- Requests at the same time are calls of their own. -/
def AllocationCall.calls : AllocationCall → Nat
  | allocateParallel _ _ _ threads count => threads * count
  | _ => 1

/-- A list that is made at once takes a call for each of its arguments. -/
def VariadicCall.calls : VariadicCall → Nat
  | make arguments .. => arguments.length + 1
  | _ => 1

def Call.calls : Call → Nat
  | allocation c => c.calls
  | variadic c => c.calls
  | handle _ | scope _ | region _ => 1

def Move.calls : Move → Nat
  | call _ c => c.calls
  | chore _ => 0

/-- How many calls of the library were made in a run. -/
def callsIn (past : List Move) : Nat := total Move.calls past

namespace Session

/-- No arena counts more than `n` requests as failed, and no builder has more than `n` arguments. -/
structure Modest (S : Session) (n : Nat) : Prop where
  failed : ∀ a, (S.store.arena a).stats.failed.toNat ≤ n
  staged : ∀ p ∈ S.handles, ∀ b, p.2 = .builder b → b.arguments.length ≤ n

theorem Modest.mono (h : S.Modest m) (hmn : m ≤ n) : S.Modest n :=
  ⟨fun a => Nat.le_trans (h.failed a) hmn, fun p hp b hb => Nat.le_trans (h.staged p hp b hb) hmn⟩

/-- What is bounded grows by `n` at most. -/
def Adds (n : Nat) (S T : Session) : Prop := ∀ k, S.Modest k → T.Modest (k + n)

theorem Adds.mono (h : S.Adds m T) (hmn : m ≤ n) : S.Adds n T :=
  fun k hk => (h k hk).mono (Nat.add_le_add_left hmn k)

theorem Adds.trans (h : S.Adds m T) (h' : T.Adds n U) : S.Adds (m + n) U :=
  fun k hk => Nat.add_assoc k m n ▸ h' (k + m) (h k hk)

/-- The arenas are the same, and no builder has more arguments than before. -/
theorem adds_of_arenas (ha : T.store.arenas = S.store.arenas)
    (hb : ∀ p ∈ T.handles, ∀ b, p.2 = .builder b → p ∈ S.handles ∨ b.arguments = []) :
    S.Adds n T := by
  intro k hk
  refine ⟨fun a => ?_, fun p hp b he => ?_⟩
  · have h := hk.failed a
    unfold Store.arena at h ⊢
    rw [ha]
    exact Nat.le_trans h (Nat.le_add_right k n)
  · rcases hb p hp b he with hm | hnil
    · exact Nat.le_trans (hk.staged p hm b he) (Nat.le_add_right k n)
    · rw [hnil]
      exact Nat.zero_le _

theorem adds_self (S : Session) : S.Adds n S := adds_of_arenas rfl fun _ hp _ _ => Or.inl hp

instance : Std.Refl (Adds 0) := ⟨adds_self⟩

instance : Trans (Adds 0) (Adds 0) (Adds 0) := ⟨fun h h' => h.trans h'⟩

theorem adds_put (S : Session) (name : Name) {h : Handle}
    (hh : ∀ b, h = .builder b → b.arguments = []) (ha : T.store = S.store)
    (hT : T.handles = S.handles.put name h) : S.Adds n T := by
  refine adds_of_arenas (congrArg Store.arenas ha) fun p hp b hb => ?_
  rw [hT] at hp
  rcases HandleTable.mem_put hp with rfl | hp
  · exact Or.inr (hh b hb)
  · exact Or.inl hp

theorem lenient_adds : Lenient (Adds 0) where
  store _ _ h := adds_of_arenas h fun _ hp _ _ => Or.inl hp
  chores _ _ := adds_of_arenas rfl fun _ hp _ _ => Or.inl hp
  put S name _ hh := adds_put S name (fun _ hb => (hh (by rw [hb]; trivial)).elim) rfl rfl
  erase _ _ := adds_of_arenas rfl fun _ hp _ _ => Or.inl (HandleTable.mem_of_mem_erase hp)

theorem adds_store {τ : Store} (h : S.store.Misses n τ) : S.Adds n { S with store := τ } :=
  fun k hk => ⟨fun a => Nat.le_trans (h a) (Nat.add_le_add_right (hk.failed a) n),
    fun p hp b hb => Nat.le_trans (hk.staged p hp b hb) (Nat.le_add_right k n)⟩

end Session

namespace Turn

variable {x : Turn α} {f : α → Turn β}

/-- What is bounded by the number of calls grows by `n` at most if the turn is refused, and not at
all otherwise. -/
def Costs (x : Turn α) (n : Nat) (ctx : Context) (S : Session) : Prop :=
  x.Leads ctx S (fun _ T => S.Adds 0 T) (S.Adds n)

theorem Through.costs (h : x.Through (Session.Adds 0) ctx S) : x.Costs n ctx S :=
  h.imp (fun _ _ h => h) fun _ h => h.mono (Nat.zero_le n)

theorem Costs.bind (hx : x.Costs n ctx S) (hf : ∀ a T, (f a).Costs n ctx T) :
    (x >>= f).Costs n ctx S := by
  refine Leads.bind hx fun a T h => (hf a T).imp (fun _ U h' => h.trans h') fun U h' => ?_
  exact Nat.zero_add n ▸ h.trans h'

theorem Costs.through (h : x.Costs n ctx S) (hmn : n ≤ m) : x.Through (Session.Adds m) ctx S :=
  h.imp (fun _ _ h => h.mono (Nat.zero_le m)) fun _ h => h.mono hmn

theorem costs_find {lookup : Session → Name → Option α} {name : Name} :
    (find lookup name).Costs n ctx S := through_find.costs

theorem costs_lift {x : Operation α} (hx : x.Misses n ctx S.store) : (lift x).Costs n ctx S := by
  refine (leads_lift hx).imp (fun _ T hT => ?_) fun T hT => ?_
  all_goals
    obtain ⟨τ, hτ, rfl⟩ := hT
    exact Session.adds_store hτ

theorem costs_pure (a : α) : (pure a : Turn α).Costs n ctx S := (through_pure a).costs

theorem costs_keepList (name : Name) (v : VariadicList) : (keepList name v).Costs n ctx S := by
  refine leads_keepList.imp (fun _ T h => ?_) fun _ h => h.elim
  rw [h.2]
  exact Session.adds_put S name (fun _ he => by cases he) rfl rfl

theorem costs_update (name : Name) (v : VariadicList) :
    (update name (.list v)).Costs n ctx S := by
  refine leads_update.imp (fun _ T h => ?_) fun _ h => h.elim
  rw [h]
  exact Session.adds_put S name (fun _ he => by cases he) rfl rfl

end Turn

theorem AllocationCall.length_callers (threads count : Nat) :
    (callers threads count).length = threads * count := by
  unfold callers
  rw [List.length_flatMap]
  simp

theorem AllocationCall.adds (c : AllocationCall) :
    c.perform.Through (Session.Adds c.calls) ctx S := by
  have hR := Session.lenient_adds
  cases c with
  | arena scope capacity config access name =>
    refine Costs.through (costs_find.bind fun s T => (costs_lift ?_).bind fun a U =>
      (through_keepHandle hR name id).costs) (Nat.le_refl 1)
    refine (ArenaId.leads_create capacity config s).imp (fun a τ h => ?_) fun τ h => ?_
    · rw [h.2.2.2]
      exact (T.store.even_addArena rfl).misses
    · exact Store.misses_of_arenas (congrArg Store.arenas h)
  | direct scope name =>
    exact Costs.through (costs_find.bind fun _ _ => (through_rename hR name id).costs.bind
      fun _ _ => costs_pure _) (Nat.le_refl 1)
  | perRequest kind name =>
    exact Costs.through ((through_rename hR name id).costs.bind fun _ _ => costs_pure _)
      (Nat.le_refl 1)
  | recycling region name =>
    exact Costs.through (costs_find.bind fun _ _ => (through_rename hR name id).costs.bind
      fun _ _ => costs_pure _) (Nat.le_refl 1)
  | allocate q allocator name? =>
    exact Costs.through (costs_find.bind fun w _ => (costs_lift (w.misses_serve q)).bind
      fun r _ => (through_keepRegion hR name? false r).costs) (Nat.le_refl 1)
  | allocateParallel target size align threads count =>
    refine leads_bind_find (Session.adds_self S) fun a _ => ?_
    have hx : ((Allocator.arena a).allocateEach size align (callers threads count)).Leads ctx
        S.store (fun _ τ => S.store.Misses (threads * count) τ) fun _ => False := by
      rw [← ArenaId.serveEach_map]
      refine (a.misses_serveEach _).imp (fun _ τ h => ?_) fun _ h => h
      rwa [List.length_map, length_callers] at h
    refine (leads_lift hx).chain (fun T hT => ?_) fun outcomes T hT => ?_
    · obtain ⟨_, hf, _⟩ := hT
      exact hf.elim
    · obtain ⟨τ, hτ, rfl⟩ := hT
      exact leads_pure (Session.adds_store hτ)

theorem VariadicCall.adds_push (layout : Layout) (value : ArgumentSource) (target : Name) :
    (VariadicCall.push layout value target).perform.Through (Session.Adds 1) ctx S := by
  have hvalue : value.resolve.Through (Session.Adds 0) ctx S := by
    cases value with
    | segment region => exact through_find.bind fun _ _ => through_pure _
    | _ => exact through_pure _
  refine Leads.chain hvalue (fun _ h => h.mono (Nat.zero_le 1)) fun v T hT => ?_
  refine leads_bind_find (hT.mono (Nat.zero_le 1)) fun b hn => ?_
  have hm := HandleTable.mem_of_find? (Session.find?_of_builder? hn)
  refine (leads_lift (VariadicBuilder.leads_push layout v)).chain (fun U hU => ?_) fun b' U hU => ?_
  · obtain ⟨τ, rfl, rfl⟩ := hU
    exact hT.mono (Nat.zero_le 1)
  obtain ⟨τ, ⟨rfl, rfl, _⟩, rfl⟩ := hU
  refine leads_update.chain (fun _ h => h.elim) fun _ V hV => leads_pure ?_
  subst hV
  intro k hk
  have hT := hT k hk
  refine ⟨fun a => Nat.le_trans (hT.failed a) (Nat.le_succ k), fun p hp c hc => ?_⟩
  rcases HandleTable.mem_put hp with rfl | hp
  · cases hc
    rw [List.length_append]
    exact Nat.add_le_add_right (hT.staged _ hm b rfl) 1
  · exact Nat.le_trans (hT.staged p hp c hc) (Nat.le_succ k)

theorem VariadicCall.costs_readSegment (layout : Layout) (list allocator : Name)
    (name? : Option Name) :
    (VariadicCall.readSegment layout list allocator name?).perform.Costs 1 ctx S := by
  have hR := Session.lenient_adds
  have hclaim : (claim Session.list? list).Costs 1 ctx S := by
    refine leads_claim.imp (fun _ T hT => ?_) fun T hT => ?_
    · rw [hT.2]
      exact Session.adds_self S
    · rw [hT.2]
      exact (hR.lost S list).mono (Nat.zero_le 1)
  refine hclaim.bind fun v _ => costs_find.bind fun w _ =>
    (costs_lift (v.misses_readSegment layout w)).bind fun p _ =>
      (costs_update list _).bind fun _ _ => through_get.costs.bind fun _ _ =>
        Costs.bind ?_ fun contents _ => (through_keep hR name? id).costs.bind fun _ _ => ?_
  · refine costs_lift (Operation.leads_attempt (Region.leads_contents.imp (fun _ _ h => ?_)
      fun _ h _ => ?_))
    · exact Store.misses_of_arenas (congrArg Store.arenas h.2)
    · exact Store.misses_of_arenas (congrArg Store.arenas h)
  · split
    next => exact costs_pure _
    next => exact (through_throw _).costs
    next => exact costs_pure _

theorem VariadicCall.adds (c : VariadicCall) :
    c.perform.Through (Session.Adds c.calls) ctx S := by
  have hR := Session.lenient_adds
  cases c with
  | builder scope convention name =>
    refine leads_bind_find (Session.adds_self S) fun s _ => ?_
    refine (leads_lift (VariadicBuilder.leads_create convention s)).chain (fun T hT => ?_)
      fun b T hT => ?_
    · obtain ⟨τ, rfl, rfl⟩ := hT
      exact Session.adds_self S
    · obtain ⟨τ, ⟨_, rfl, rfl⟩, rfl⟩ := hT
      refine leads_keepHandle.imp (fun _ T hT => ?_) fun _ h => h.elim
      rw [hT.2]
      exact Session.adds_put S name (fun b hb => by cases hb; rfl) rfl rfl
  | push layout value target => exact adds_push layout value target
  | build source name =>
    exact Costs.through (costs_find.bind fun b _ => (through_forget hR source).costs.bind
      fun _ _ => (through_discard hR _).costs.bind fun _ _ => (costs_lift b.misses_build).bind
        fun v _ => costs_keepList name v) (Nat.le_refl 1)
  | make arguments scope convention name =>
    refine Costs.through (n := 1) (Costs.bind ?_ fun args _ => costs_find.bind fun s _ =>
      (costs_lift (VariadicList.misses_make convention s args)).bind fun v _ =>
        costs_keepList name v) (Nat.le_add_left 1 arguments.length)
    refine (ArgumentSource.leads_resolveAll arguments).imp (fun _ T h => ?_) fun T h => ?_
    · rw [h]
      exact Session.adds_self S
    · rw [h]
      exact Session.adds_self S
  | empty convention name => exact (costs_keepList name _).through (Nat.le_refl 1)
  | adopt start scope convention name =>
    refine Costs.through (costs_find.bind fun s T => (costs_lift ?_).bind fun v _ =>
      costs_keepList name v) (Nat.le_refl 1)
    exact Operation.misses_aside (VariadicList.leads_ofAddress convention start s) fun _ _ h =>
      congrArg Store.arenas h.1
  | read layout type list =>
    refine Costs.through (costs_find.bind fun v T => (costs_lift ?_).bind fun p _ =>
      (costs_update list _).bind fun _ _ => costs_pure _) (Nat.le_refl 1)
    exact Operation.misses_aside (VariadicList.leads_readAs layout type) fun _ _ h =>
      congrArg Store.arenas h.1
  | readSegment layout list allocator name? =>
    exact (costs_readSegment layout list allocator name?).through (Nat.le_refl 1)
  | skip layouts list =>
    refine Costs.through (costs_find.bind fun v T => (costs_lift ?_).bind fun rest _ =>
      (costs_update list _).bind fun _ _ => costs_pure _) (Nat.le_refl 1)
    exact Operation.misses_aside (VariadicList.leads_skip layouts) fun _ _ h =>
      congrArg Store.arenas h.2
  | copy list name =>
    refine Costs.through (costs_find.bind fun v T => (costs_lift ?_).bind fun v' _ =>
      costs_keepList name v') (Nat.le_refl 1)
    exact Operation.misses_aside VariadicList.leads_copy fun _ _ h => congrArg Store.arenas h.2

theorem Call.adds (c : Call) (S : Session) : S.Adds c.calls (S.begin ctx c).2 := by
  have hR := Session.lenient_adds
  have hc : c.perform.Through (Session.Adds c.calls) ctx S := by
    cases c with
    | handle c => exact (c.through hR).costs.through (Nat.le_refl 1)
    | scope c => exact (c.through hR).costs.through (Nat.le_refl 1)
    | region c => exact (c.through hR).costs.through (Nat.le_refl 1)
    | allocation c => exact c.adds
    | variadic c => exact c.adds
  exact Leads.begin hc fun T hT => hT.trans (hR.chores T _)

theorem Session.adds_advance (S : Session) (ctx : Context) : S.Adds 0 (S.advance ctx) := by
  refine adds_of_arenas (S.quiet_advance ctx).arenas fun p hp _ _ => Or.inl ?_
  rwa [handles_advance] at hp

/-- No arena counts more failures, and no builder has more arguments, than calls were made. -/
theorem play_modest (past : List Move) : (play past).Modest (callsIn past) := by
  induction past with
  | nil => exact ⟨fun a => Nat.le_refl 0, nofun⟩
  | cons m past ih =>
    unfold callsIn
    rw [total_cons, Nat.add_comm]
    cases m with
    | call ctx c => exact c.adds (play past) _ ih
    | chore ctx => exact (play past).adds_advance ctx _ ih

end ScopedMemory
