import ScopedMemory.Proofs.Session.Scopes

namespace ScopedMemory

open Turn

variable {system : SystemAllocator} {strict : Prop} {G : List Region} {S : Session}
  {ctx : Context}

/-- A region is looked up and read from or written to. -/
theorem Turn.leads_access {α : Type} (hsep : system.Separate) (h : S.Sound system strict G)
    (name : Name) (x : Region → Operation α) (f : α → Reply)
    (hx : ∀ r, (x r).Leads ctx S.store (fun _ τ => ∃ m, τ = S.store.setMemory m) (· = S.store)) :
    (do
      let p ← find Session.region? name
      return f (← lift (x p.1)) : Turn Reply).Safe system strict G [] ctx S := by
  refine leads_bind_find (.refl h) fun p _ => ?_
  obtain ⟨r, adopted⟩ := p
  exact (leads_writing hsep h (hx r)).bind fun a U hU => leads_pure hU

/-- A region is looked up, and a part of it kept. -/
theorem Turn.leads_viewing (h : S.Sound system strict G) (name : Name) (name? : Option Name)
    (x : Region → Operation Region)
    (hx : ∀ r, (x r).Leads ctx S.store
      (fun r' τ => τ = S.store ∧ ∃ offset length, r.Spans offset length ∧
        r' = r.narrow offset length) (· = S.store)) :
    (do
      let p ← find Session.region? name
      keepRegion name? p.2 (← lift (x p.1)) : Turn Reply).Safe system strict G [] ctx S := by
  refine leads_bind_find (.refl h) fun p hn => ?_
  obtain ⟨r, adopted⟩ := p
  obtain ⟨hh, hi⟩ := h.of_region? hn
  refine (leads_lift (hx r)).chain (fun U hU => .of_same h hU) fun r' U hU => ?_
  obtain ⟨τ, ⟨rfl, offset, length, hs, rfl⟩, rfl⟩ := hU
  refine leads_keepRegion.imp (fun _ V hV => ?_) fun _ hf => hf.elim
  rw [hV.2]
  exact (Session.Comes.refl h).kept name? (Handle.sound_region hh fun hst => (hi hst).narrow hs)

theorem RegionCall.safe (hsep : system.Separate) (h : S.Sound system strict G)
    (c : RegionCall) (hstrict : strict → ¬ (Call.region c).Adopts) :
    c.perform.Safe system strict G [] ctx S := by
  have hsame : ∀ τ : Store, τ = S.store → ∃ m, τ = S.store.setMemory m := fun τ hτ =>
    ⟨S.store.memory, hτ⟩
  cases c with
  | adopt start length scope name? =>
    refine leads_bind_find (.refl h) fun s hn => ?_
    refine (leads_lift Region.leads_ofAddress).chain (fun U hU => .of_same h hU) fun r U hU => ?_
    obtain ⟨τ, ⟨_, rfl, rfl⟩, rfl⟩ := hU
    refine leads_keepRegion.imp (fun _ V hV => ?_) fun _ hf => hf.elim
    rw [hV.2]
    exact (Session.Comes.refl h).kept name?
      (Handle.sound_region (h.of_scope? hn) fun hst => absurd trivial (hstrict hst))
  | slice region offset length name? =>
    refine leads_viewing h region name? (·.slice offset length) fun r => ?_
    refine Region.leads_slice.imp (fun r' τ hr => ?_) fun _ h => h
    exact ⟨hr.2.2, offset, length, (Store.checkAccess_eq_ok_iff.mp hr.1).2, hr.2.1⟩
  | sliceFrom region offset name? =>
    refine leads_viewing h region name? (·.sliceFrom offset) fun r => ?_
    refine Region.leads_sliceFrom.imp (fun r' τ hr => ?_) fun _ h => h
    obtain ⟨length, _, ha, hr, hτ⟩ := hr
    exact ⟨hτ, offset, length, (Store.checkAccess_eq_ok_iff.mp ha).2, hr⟩
  | belongs region scope =>
    refine leads_bind_find (.refl h) fun p _ => ?_
    exact leads_bind_find (.refl h) fun s _ => leads_pure (.refl h)
  | read length region offset =>
    exact leads_access hsep h region (·.read offset length) .bytes fun r =>
      Region.leads_read.imp (fun _ τ hr => hsame τ hr.2.2) fun _ h => h
  | write region offset bytes =>
    exact leads_access hsep h region (·.write offset bytes) (fun _ => .done) fun r =>
      Region.leads_write.imp (fun _ τ hr => ⟨_, hr.2⟩) fun _ h => h
  | get layout offset type region =>
    exact leads_access hsep h region (·.get type layout offset) .scalar fun r =>
      Region.leads_get.imp (fun _ τ hr => hsame τ hr.2.2) fun _ h => h
  | set layout offset region value =>
    exact leads_access hsep h region (·.set layout offset value) (fun _ => .done) fun r =>
      Region.leads_set.imp (fun _ τ hr => ⟨_, hr.2.2⟩) fun _ h => h
  | getAddress region layout offset =>
    refine leads_access hsep h region (·.getAddress layout offset) .address fun r =>
      Region.leads_getAddress.imp (fun _ τ hr => ?_) fun _ h => h
    obtain ⟨_, _, _, _, hτ⟩ := hr
    exact hsame τ hτ
  | setAddress value region layout offset =>
    refine leads_access hsep h region (·.setAddress layout offset value) (fun _ => .done) fun r =>
      Region.leads_setAddress.imp (fun _ τ hr => ?_) fun _ h => h
    obtain ⟨_, _, _, hτ⟩ := hr
    exact ⟨_, hτ⟩
  | copyFrom region source =>
    refine leads_bind_find (.refl h) fun p _ => ?_
    refine leads_bind_find (.refl h) fun q _ => ?_
    refine (leads_writing hsep h (Region.leads_copyFrom.imp (fun _ τ hr => ⟨_, hr.2.2⟩)
      fun _ h => h)).bind fun _ U hU => leads_pure hU
  | fill region value =>
    exact leads_access hsep h region (·.fill value) (fun _ => .done) fun r =>
      Region.leads_fill.imp (fun _ τ hr => ⟨_, hr.2⟩) fun _ h => h
  | contents region =>
    refine leads_bind_find (.refl h) fun p _ => ?_
    obtain ⟨r, adopted⟩ := p
    refine (leads_writing hsep h (Region.leads_contents.imp (fun _ τ hr => hsame τ hr.2)
      fun _ h => h)).bind fun bytes? U hU => ?_
    cases bytes? with
    | some bytes => exact leads_pure hU
    | none => exact leads_throw hU

end ScopedMemory
