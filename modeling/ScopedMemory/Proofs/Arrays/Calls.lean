import ScopedMemory.Proofs.Arrays.Session

namespace ScopedMemory

open Turn

variable {system : SystemAllocator} {strict : Prop} {G : List Region} {A : ArrayStore}
  {S : Session} {ctx : Context}

/-- However the call ends, the session is as the arrays say. -/
def Call.Replays (c : Call) (ctx : Context) (S : Session) (G : List Region) (A : ArrayStore) :
    Prop :=
  c.perform.Leads ctx S
    (fun reply T => T.Mirrors (G ++ (c.grants ctx S).map (·.region))
      (c.replay S.store.tickets A (.ok reply)))
    fun T => ∀ e, T.Mirrors (G ++ (c.grants ctx S).map (·.region))
      (c.replay S.store.tickets A (.error e))

theorem Call.replays_of {c : Call} (hg : c.grants ctx S = [])
    (h : c.perform.Leads ctx S
      (fun reply T => T.Mirrors G (c.replay S.store.tickets A (.ok reply)))
      fun T => ∀ e, T.Mirrors G (c.replay S.store.tickets A (.error e))) :
    c.Replays ctx S G A := by
  unfold Call.Replays
  rw [hg, List.map_nil, List.append_nil]
  exact h

theorem HandleCall.replays (h : S.Mirrors G A) (c : HandleCall) :
    (Call.handle c).Replays ctx S G A := by
  apply Call.replays_of rfl
  cases c with
  | info name =>
    refine leads_find.chain (fun T hT _ => hT ▸ h) fun hd T hT => ?_
    refine (leads_get (P := fun _ T => T = S) hT.2).bind fun _ T hT => ?_
    refine (leads_read (P := fun _ T => T = S) hT).bind fun _ T hT => ?_
    exact leads_pure (hT ▸ h)
  | drop name =>
    refine leads_bind_find (fun _ => h) fun hd hn => ?_
    refine leads_forget.chain (fun _ hf => hf.elim) fun _ T hT => ?_
    subst hT
    refine leads_discard.chain (fun _ hf => hf.elim) fun _ T hT => ?_
    subst hT
    exact leads_pure ((h.erase name).discard hd)
  | clone name copy =>
    refine leads_bind_find (fun _ => h) fun hd hn => ?_
    have hf := (Option.filter_eq_some_iff.mp hn).1
    have hs := h.named name
    rw [hf, Option.bind_some] at hs
    refine leads_rename.chain (fun _ hf => hf.elim) fun _ T hT => ?_
    subst hT
    exact leads_pure (h.renamed copy hs)
  | describe name =>
    exact leads_bind_find (fun _ => h) fun hd _ => leads_pure h
  | misuse name =>
    refine leads_lose.chain (fun _ hf => hf.elim) fun _ T hT => ?_
    subst hT
    exact leads_throw fun _ => h.lost name

theorem Session.Mirrors.of_same (h : S.Mirrors G A) {T : Session}
    (hT : ∃ τ, τ = S.store ∧ T = { S with store := τ }) : T.Mirrors G A := by
  obtain ⟨τ, rfl, rfl⟩ := hT
  exact h

/-! ### New regions -/

/-- A new region is an array of zeros that is then written to. -/
theorem Session.Mirrors.allocated {ρ : Store} {r : Region} {bytes : Bytes} (h : S.Mirrors G A)
    (hS : S.Sound system strict G) (hsep : system.Separate)
    (hc : S.store.Changes system False [r] ρ) (ha : ρ.IsAlive r.scope)
    (hfit : bytes.length ≤ r.size.toNat) (name? : Option Name) (adopted : Bool) :
    (Session.kept { S with store := ρ.setMemory (ρ.memory.write r.start.toNat bytes) } name?
      (.region r adopted)).Mirrors (G ++ [r]) (A.allocate r.size.toNat bytes name?) := by
  have hnew : View.Denotes ⟨A.arrays.length, 0, r.size.toNat⟩ (G ++ [r]) r := by
    have hlen : A.arrays.length = G.length := h.store.length
    rw [hlen]
    exact View.denotes_new G r
  have hext := h.changes hS hsep hc
  have hfit' : 0 + bytes.length ≤ r.size.toNat := by omega
  exact (hext.write (hS.changes hsep hc).ledger hnew ha hfit').kept name? hnew

/-! ### Scopes -/

/-- A new action to fill a region gets its part; all others keep theirs. -/
theorem Session.Mirrors.addAction (h : S.Mirrors G A) (hS : S.Sound system strict G)
    {s : ScopeId} {a : CloseAction} {v? : Option View}
    (hv : ∀ r, a.region? = some r → ∃ v, v? = some v ∧ v.Denotes G r) :
    Session.Mirrors { S with store := S.store.addAction s a } G
      { A with targets := fun k => if k = S.store.tickets then v? else A.targets k } := by
  have hold : ∀ p : PendingAction, p.ticket < S.store.tickets → p.Mirrors G A → p.Mirrors G
      { A with targets := fun k => if k = S.store.tickets then v? else A.targets k } := by
    intro p hp hm r hr
    obtain ⟨v, hv, hd⟩ := hm r hr
    refine ⟨v, ?_, hd⟩
    dsimp only
    rw [if_neg (Nat.ne_of_lt hp), hv]
  have hst := h.store.later hS.store hS.ledger (Store.later_addAction S.store s a) rfl rfl
  refine ⟨hst, h.named, fun t p hp => ?_, fun c hc => ?_⟩
  · dsimp only at hp
    rw [Store.scope_addAction] at hp
    split at hp
    next =>
      rcases List.mem_cons.mp hp with rfl | hp
      · intro r hr
        obtain ⟨v, hv, hd⟩ := hv r hr
        exact ⟨v, by dsimp only; rw [if_pos rfl, hv], hd⟩
      · exact hold p (hS.store.actions s p hp).1 (h.actions s p hp)
    next => exact hold p (hS.store.actions t p hp).1 (h.actions t p hp)
  · cases c with
    | perform p => exact hold p (hS.chores _ hc).1 (h.chores _ hc)
    | _ => trivial

/-- An action that fills no region needs no part. -/
theorem Session.Mirrors.addOther (h : S.Mirrors G A) (hS : S.Sound system strict G)
    {s : ScopeId} {a : CloseAction} (ha : a.region? = none) :
    Session.Mirrors { S with store := S.store.addAction s a } G A := by
  have hst := h.store.later hS.store hS.ledger (Store.later_addAction S.store s a) rfl rfl
  refine ⟨hst, h.named, fun t p hp => ?_, h.chores⟩
  dsimp only at hp
  rw [Store.scope_addAction] at hp
  split at hp
  next =>
    rcases List.mem_cons.mp hp with rfl | hp
    · intro r hr
      cases ha.symm.trans hr
    · exact h.actions s p hp
  next => exact h.actions t p hp

theorem ActionPlan.leads_region (plan : ActionPlan) (label : String) :
    (plan.resolve label).Leads ctx S
      (fun a T => T = S ∧ ∀ r, a.region? = some r →
        ∃ region adopted, plan = .fill region ∧ S.region? region = some (r, adopted))
      (· = S) := by
  have hscope : ∀ {α : Type} (lookup : Session → Name → Option α) (f : α → CloseAction)
      (target : Name), (∀ a, (f a).region? = none) →
      (do return f (← find lookup target) : Turn CloseAction).Leads ctx S
        (fun a T => T = S ∧ ∀ r, a.region? = some r →
          ∃ region adopted, plan = .fill region ∧ S.region? region = some (r, adopted))
        (· = S) := by
    intro α lookup f target hf
    refine leads_find.bind fun s T hT => leads_pure ⟨hT.2, fun r hr => ?_⟩
    rw [hf s] at hr
    cases hr
  cases plan with
  | say => exact leads_pure ⟨rfl, fun r hr => by cases hr⟩
  | probe target => exact hscope _ (.probe label) target fun _ => rfl
  | close target => exact hscope _ (.close label) target fun _ => rfl
  | extend target => exact hscope _ (.extend label) target fun _ => rfl
  | hold target => exact hscope _ (.hold label) target fun _ => rfl
  | fill target =>
    refine leads_find.bind fun p T hT => leads_pure ⟨hT.2, fun r hr => ?_⟩
    obtain ⟨r', adopted⟩ := p
    cases hr
    exact ⟨target, adopted, rfl, hT.1⟩

theorem Session.Mirrors.endScope (h : S.Mirrors G A) (hS : S.Sound system strict G) (s : ScopeId)
    {l : Lifetime} (hl : ∀ n, l ≠ .live n) :
    Session.Mirrors { S with store := S.store.endScope s l } G A ∧
      ∀ c ∈ (S.store.holdings s).chores, c.Mirrors G A := by
  refine ⟨h.later hS (Store.later_endScope S.store s hl) rfl rfl
    fun t p hp => Store.actions_endScope hp, fun c hc => ?_⟩
  rcases List.mem_append.mp hc with hc | hc
  · obtain ⟨p, hp, rfl⟩ := List.mem_map.mp hc
    exact h.actions s p hp
  · obtain rfl := List.mem_singleton.mp hc
    trivial

namespace ScopeCall

theorem replays_create (hsep : system.Separate) (h : S.Mirrors G A)
    (hS : S.Sound system strict G) (kind : ScopeKind) (name : Name) :
    (Call.scope (.create kind name)).Replays ctx S G A := by
  apply Call.replays_of rfl
  refine (leads_lift (ScopeId.leads_create kind)).chain (fun _ hT => ?_) fun s T hT => ?_
  · obtain ⟨_, hf, _⟩ := hT
    exact hf.elim
  obtain ⟨τ, hc, rfl⟩ := hT
  have hτ : Session.Mirrors { S with store := τ } G A := by
    rcases hc with ⟨_, _, rfl⟩ | ⟨_, _, rfl⟩
    · exact h
    · exact h.unseen hS hsep (Store.Change.scope S.store kind ctx.caller).changes
  refine (leads_get (P := fun _ T => T = { S with store := τ }) rfl).bind fun _ T hT => ?_
  refine (leads_read (P := fun _ T => T = { S with store := τ }) hT).bind fun _ T hT => ?_
  subst hT
  refine leads_rename.chain (fun _ hf => hf.elim) fun _ T hT => ?_
  subst hT
  exact leads_pure (hτ.renamed name trivial)

theorem replays_close (h : S.Mirrors G A) (hS : S.Sound system strict G) (scope : Name) :
    (Call.scope (.close scope)).Replays ctx S G A := by
  apply Call.replays_of rfl
  refine leads_bind_find (fun _ => h) fun s hn => ?_
  refine (leads_lift (ScopeId.leads_close s)).chain (fun _ hU _ => h.of_same hU) fun held U hU => ?_
  obtain ⟨τ, ⟨_, _, _, rfl, rfl⟩, rfl⟩ := hU
  refine leads_leave.chain (fun _ hf => hf.elim) fun _ U hU => ?_
  subst hU
  obtain ⟨hend, hheld⟩ := h.endScope hS s (l := .closed) (by simp)
  exact leads_pure (hend.append_chores hheld)

theorem replays_addAction (h : S.Mirrors G A) (hS : S.Sound system strict G) (scope : Name)
    (label : String) (plan : ActionPlan) :
    (Call.scope (.addAction scope label plan)).Replays ctx S G A := by
  apply Call.replays_of rfl
  refine leads_bind_find (fun _ => h) fun s hn => ?_
  refine (plan.leads_region label).chain (fun U hU _ => hU ▸ h) fun a U hU => ?_
  obtain ⟨rfl, ha⟩ := hU
  refine (leads_lift (ScopeId.leads_addAction s a)).chain (fun _ hV _ => h.of_same hV)
    fun _ V hV => ?_
  obtain ⟨τ, ⟨_, rfl⟩, rfl⟩ := hV
  apply leads_pure
  have hother : (∀ region, plan ≠ .fill region) → a.region? = none := by
    intro hne
    cases hr : a.region? with
    | none => rfl
    | some r =>
      obtain ⟨region, _, he, _⟩ := ha r hr
      exact absurd he (hne region)
  cases plan with
  | fill region =>
    refine h.addAction hS fun r hr => ?_
    obtain ⟨_, adopted, he, hf⟩ := ha r hr
    cases he
    exact h.of_region? hf
  | _ => exact h.addOther hS (hother fun _ => ActionPlan.noConfusion)

theorem replays_acquire (h : S.Mirrors G A) (hS : S.Sound system strict G) (scope name : Name) :
    (Call.scope (.acquire scope name)).Replays ctx S G A := by
  apply Call.replays_of rfl
  refine leads_bind_find (fun _ => h) fun s hn => ?_
  refine (leads_lift (ScopeId.leads_acquire s)).chain (fun _ hU _ => h.of_same hU) fun _ U hU => ?_
  obtain ⟨τ, ⟨hu, rfl⟩, rfl⟩ := hU
  have hl := Store.later_setLive S.store (S.store.guards s + 1)
    (Store.checkUsable_eq_ok_iff.mp hu).2
  have hpin : Session.Mirrors { S with store := S.store.pin s } G A := by
    refine h.later hS hl rfl rfl fun t p hp => ?_
    rw [Store.pin, Store.scope_setLifetime] at hp
    split at hp
    next he => exact he.1 ▸ hp
    next => exact hp
  refine leads_rename.chain (fun _ hf => hf.elim) fun _ U hU => ?_
  subst hU
  exact leads_pure (hpin.renamed name trivial)

theorem replays_allocateNative (hsep : system.Separate) (h : S.Mirrors G A)
    (hS : S.Sound system strict G) (hw : ctx.system.Within system) (size align : Word)
    (scope : Name) (name? : Option Name) :
    (Call.scope (.allocateNative size align scope name?)).Replays ctx S G A := by
  unfold Call.Replays
  refine leads_lookup.chain (fun T hT _ => ?_) fun s T hT => ?_
  · have hg : Call.grants ctx S (.scope (.allocateNative size align scope name?)) = [] := by
      simp only [Call.grants, ScopeCall.grants, hT.1]
    rw [hg, List.map_nil, List.append_nil, hT.2]
    exact h
  obtain ⟨hn, rfl⟩ := hT
  have hg : Call.grants ctx T (.scope (.allocateNative size align scope name?)) =
      ((s.allocateNative size align).value? ctx T.store).toList.map (⟨·, size, align⟩) := by
    simp only [Call.grants, ScopeCall.grants, hn]
  rw [hg]
  have hx := (ScopeId.serves_allocateNative hS.store hw s size align).value
  refine (leads_lift hx).chain (fun U hU _ => ?_) fun r U hU => ?_
  · obtain ⟨τ, ⟨hv, hc⟩, rfl⟩ := hU
    rw [hv, Option.toList_none, List.map_nil, List.map_nil, List.append_nil]
    exact h.unseen hS hsep hc
  obtain ⟨τ, ⟨hv, hc, hm⟩, rfl⟩ := hU
  rw [hv]
  refine leads_keepRegion.imp (fun reply V hV => ?_) fun _ hf => hf.elim
  have ha := (Store.checkUsable_eq_ok_iff.mp hm.usable).2
  have hnil : ([] : Bytes).length ≤ r.size.toNat := Nat.zero_le _
  have hT := h.allocated hS hsep hc ha hnil name? false
  rw [Memory.write_nil, hm.size] at hT
  rw [hV.2]
  exact hT

theorem replays (hsep : system.Separate) (h : S.Mirrors G A)
    (hS : S.Sound system strict G) (hw : ctx.system.Within system) (c : ScopeCall)
    (hp : (Call.scope c).Plain) : (Call.scope c).Replays ctx S G A := by
  cases c with
  | create kind name => exact replays_create hsep h hS kind name
  | close scope => exact replays_close h hS scope
  | addAction scope label plan => exact replays_addAction h hS scope label plan
  | acquire scope name => exact replays_acquire h hS scope name
  | same first second =>
    apply Call.replays_of rfl
    refine leads_bind_find (fun _ => h) fun s _ => ?_
    exact leads_bind_find (fun _ => h) fun t _ => leads_pure h
  | allocateNative size align scope name? =>
    exact replays_allocateNative hsep h hS hw size align scope name?
  | resolve => exact hp.elim

end ScopeCall

end ScopedMemory
