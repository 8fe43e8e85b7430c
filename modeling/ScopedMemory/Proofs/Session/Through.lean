import ScopedMemory.Proofs.Session.Calls

namespace ScopedMemory

variable {α β : Type} {R : Session → Session → Prop} {ctx : Context} {S T U : Session}

namespace Turn

variable {x : Turn α} {f : α → Turn β}

/-- However the turn ends, it leaves a session that the first is related to. -/
def Through (x : Turn α) (R : Session → Session → Prop) (ctx : Context) (S : Session) : Prop :=
  x.Leads ctx S (fun _ T => R S T) (R S)

theorem Through.bind [Trans R R R] (hx : x.Through R ctx S) (hf : ∀ a T, (f a).Through R ctx T) :
    (x >>= f).Through R ctx S :=
  Leads.bind hx fun a T h =>
    (hf a T).imp (fun _ _ h' => Trans.trans h h') fun _ h' => Trans.trans h h'

theorem through_pure [Std.Refl R] (a : α) : (pure a : Turn α).Through R ctx S :=
  leads_pure (Std.Refl.refl S)

theorem through_throw [Std.Refl R] (e : Refusal) : (throw e : Turn α).Through R ctx S :=
  leads_throw (Std.Refl.refl S)

theorem through_get [Std.Refl R] : (get : Turn Session).Through R ctx S :=
  leads_get (Std.Refl.refl S)

theorem through_read [Std.Refl R] : (read : Turn Context).Through R ctx S :=
  leads_read (Std.Refl.refl S)

theorem through_find [Std.Refl R] {lookup : Session → Name → Option α} {name : Name} :
    (find lookup name).Through R ctx S :=
  leads_find.imp (fun _ _ h => h.2.symm ▸ Std.Refl.refl S) fun _ h => h.symm ▸ Std.Refl.refl S

end Turn

/-! ### Turns that leave the store as it is -/

namespace Session

/-- The store is the same, though names and what is left to be done may not be. -/
def SameStore (S T : Session) : Prop := T.store = S.store

instance : Std.Refl SameStore := ⟨fun _ => rfl⟩

instance : Trans SameStore SameStore SameStore := ⟨fun h h' => Eq.trans h' h⟩

theorem SameStore.of_eq (h : T = U) (hU : U.store = S.store) : S.SameStore T :=
  (congrArg store h).trans hU

end Session

namespace Turn

/-- However the turn ends, the store is as it was. -/
abbrev Rests (x : Turn α) (ctx : Context) (S : Session) : Prop :=
  x.Through Session.SameStore ctx S

theorem rests_leave (chores : List Chore) : (leave chores).Rests ctx S :=
  leads_leave.imp (fun _ _ h => .of_eq h rfl) fun _ h => h.elim

theorem rests_discard (h : Handle) : (discard h).Rests ctx S :=
  leads_discard.imp (fun _ _ h => .of_eq h rfl) fun _ h => h.elim

theorem rests_forget (name : Name) : (forget name).Rests ctx S :=
  leads_forget.imp (fun _ _ h => .of_eq h rfl) fun _ h => h.elim

theorem rests_lose (name : Name) : (lose name).Rests ctx S :=
  leads_lose.imp (fun _ _ h => .of_eq h (S.store_lost name)) fun _ h => h.elim

theorem rests_rename (name : Name) (h : Handle) : (rename name h).Rests ctx S :=
  leads_rename.imp (fun _ _ h => .of_eq h rfl) fun _ h => h.elim

theorem rests_update (name : Name) (h : Handle) : (update name h).Rests ctx S :=
  leads_update.imp (fun _ _ h => .of_eq h rfl) fun _ h => h.elim

theorem rests_keep (name? : Option Name) (h : Handle) : (keep name? h).Rests ctx S :=
  leads_keep.imp (fun _ _ h => .of_eq h (S.store_kept name? _)) fun _ h => h.elim

theorem rests_keepRegion (name? : Option Name) (adopted : Bool) (r : Region) :
    (keepRegion name? adopted r).Rests ctx S :=
  leads_keepRegion.imp (fun _ _ h => .of_eq h.2 (S.store_kept name? _)) fun _ h => h.elim

theorem rests_keepHandle (name : Name) (h : Handle) : (keepHandle name h).Rests ctx S :=
  leads_keepHandle.imp (fun _ _ h => .of_eq h.2 rfl) fun _ h => h.elim

theorem rests_keepList (name : Name) (v : VariadicList) : (keepList name v).Rests ctx S :=
  leads_keepList.imp (fun _ _ h => .of_eq h.2 rfl) fun _ h => h.elim

/-- As `leads_bind_find`, where it is known as well when a name stands for nothing. -/
theorem leads_bind_lookup {lookup : Session → Name → Option α} {name : Name} {f : α → Turn β}
    {P : β → Session → Prop} {Q : Session → Prop} (hn : lookup S name = none → Q S)
    (hf : ∀ a, lookup S name = some a → (f a).Leads ctx S P Q) :
    (find lookup name >>= f).Leads ctx S P Q := by
  refine leads_lookup.chain (fun T hT => ?_) fun a T hT => ?_
  · rw [hT.2]
    exact hn hT.1
  · rw [hT.2]
    exact hf a hT.1

/-- To look at what a region has leaves everything as it was. -/
theorem leads_attempt_contents (r : Region) :
    (lift (Operation.attempt r.contents)).Leads ctx S (fun _ T => T = S) fun _ => False := by
  have hx : (Operation.attempt r.contents).Leads ctx S.store (fun _ τ => τ = S.store)
      fun _ => False :=
    Operation.leads_attempt (Region.leads_contents.imp (fun _ _ h => h.2) fun _ h _ => h)
  refine (leads_lift hx).imp (fun _ T hT => ?_) fun _ hT => ?_
  · obtain ⟨_, rfl, rfl⟩ := hT
    rfl
  · obtain ⟨_, hf, _⟩ := hT
    exact hf.elim

theorem rests_attempt_contents (r : Region) :
    (lift (Operation.attempt r.contents)).Rests ctx S :=
  (leads_attempt_contents r).imp (fun _ _ h => .of_eq h rfl) fun _ h => h.elim

/-- After an operation only names change. -/
theorem leads_lift_rests {x : Operation α} {f : α → Turn β} {P : Store → Prop}
    (hx : x.Leads ctx S.store (fun _ τ => P τ) P) (hf : ∀ a T, (f a).Rests ctx T) :
    (lift x >>= f).Leads ctx S (fun _ T => P T.store) fun T => P T.store := by
  refine (leads_lift hx).chain (fun T hT => ?_) fun a T hT => ?_
  · obtain ⟨τ, hτ, rfl⟩ := hT
    exact hτ
  · obtain ⟨τ, hτ, rfl⟩ := hT
    refine (hf a _).imp (fun _ U hU => ?_) fun U hU => ?_
    · exact Eq.mpr (congrArg P hU) hτ
    · exact Eq.mpr (congrArg P hU) hτ

/-- To read a struct is an operation of its list and its allocator, and after it only names
change. -/
theorem leads_readSegment {P : Store → Prop} {l : Layout} {list allocator : Name}
    {name? : Option Name}
    (hnone : S.list? list = none ∨ S.allocator? allocator = none → P S.store)
    (hread : ∀ v w, S.list? list = some v → S.allocator? allocator = some w →
      (v.readSegment l w).Leads ctx S.store (fun _ τ => P τ) P) :
    (VariadicCall.readSegment l list allocator name?).perform.Leads ctx S
      (fun _ T => P T.store) fun T => P T.store := by
  refine leads_claim.chain (fun T hT => ?_) fun v T hT => ?_
  · rw [hT.2, S.store_lost list]
    exact hnone (Or.inl hT.1)
  obtain ⟨hv, rfl⟩ := hT
  refine leads_bind_lookup (fun hn => hnone (Or.inr hn)) fun w hn => ?_
  refine leads_lift_rests (hread v w hv hn) fun p U => (rests_update list _).bind fun _ _ =>
    through_get.bind fun _ _ => (rests_attempt_contents p.1).bind fun contents _ =>
      (rests_keep name? _).bind fun _ _ => ?_
  cases contents with
  | error e => exact through_pure _
  | ok bytes? =>
    cases bytes? with
    | none => exact through_throw _
    | some bytes => exact through_pure _

end Turn
end ScopedMemory
