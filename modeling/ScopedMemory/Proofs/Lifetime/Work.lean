import ScopedMemory.Proofs.Lifetime.Calls
import ScopedMemory.Proofs.Session.Play

namespace ScopedMemory

/-- The chores that an action leaves besides the end of another scope: it reports, and lets go of
its target. -/
structure CloseAction.Leaves (a : CloseAction) (more : List Chore) : Prop where
  only : ∀ c ∈ more, (∃ text, c = .write text) ∨ ∃ u, a.target? = some u ∧ c = .letGo u
  target : ∀ u, a.target? = some u → Chore.letGo u ∈ more

theorem CloseAction.leaves_nothing (label : String) :
    (CloseAction.say label).Leaves [.write label] where
  only c hc := Or.inl ⟨label, List.mem_singleton.mp hc⟩
  target u hu := by cases hu

theorem CloseAction.leaves_target {a : CloseAction} {s : ScopeId} (ha : a.target? = some s)
    (text : String) : a.Leaves [.write text, .letGo s] where
  only c hc := by
    rcases List.mem_cons.mp hc with rfl | hc
    · exact Or.inl ⟨text, rfl⟩
    · exact Or.inr ⟨s, ha, List.mem_singleton.mp hc⟩
  target u hu := by
    rw [ha] at hu
    cases hu
    exact List.mem_cons_of_mem _ List.mem_cons_self

theorem CloseAction.leaves_held (label : String) (s : ScopeId) (text : String) :
    (CloseAction.hold label s).Leaves [.write label, .letGo s, .write text] where
  only c hc := by
    simp only [List.mem_cons, List.not_mem_nil, or_false] at hc
    rcases hc with rfl | rfl | rfl
    · exact Or.inl ⟨label, rfl⟩
    · exact Or.inr ⟨s, rfl, rfl⟩
    · exact Or.inl ⟨text, rfl⟩
  target u hu := by
    cases hu
    exact List.mem_cons_of_mem _ List.mem_cons_self

/-- An action closes a scope, leaves a saying for the end of one or writes to memory, if it does
anything besides what it leaves to be done. -/
theorem CloseAction.unfold_cases (a : CloseAction) (ctx : Context) (σ : Store) :
    ∃ more, a.Leaves more ∧
      (a.unfold ctx σ = (σ, more) ∨
        (∃ label s, a = .close label s ∧ (σ.scope s).lifetime = .live 0 ∧
          (σ.scope s).kind ≠ .global ∧
          a.unfold ctx σ = (σ.endScope s .closed, (σ.holdings s).chores ++ more)) ∨
        (∃ label s, a = .extend label s ∧ σ.IsAlive s ∧
          a.unfold ctx σ = (σ.addAction s (.say (label ++ "\x27")), more)) ∨
        ∃ m, a.unfold ctx σ = (σ.setMemory m, more)) := by
  cases a with
  | say label => exact ⟨_, leaves_nothing label, Or.inl rfl⟩
  | probe label s => exact ⟨_, leaves_target rfl _, Or.inl rfl⟩
  | hold label s => exact ⟨_, leaves_held label s _, Or.inl rfl⟩
  | close label s =>
    have hclose : (ScopeId.close s).Leads ctx σ _ _ := ScopeId.leads_close s
    simp only [CloseAction.unfold]
    cases hr : (ScopeId.close s).run ctx σ with
    | error e τ =>
      obtain rfl := hclose.error hr
      exact ⟨_, leaves_target rfl _, Or.inl rfl⟩
    | ok held τ =>
      obtain ⟨_, hk, hl, rfl, rfl⟩ := hclose.ok hr
      exact ⟨_, leaves_target rfl _, Or.inr (Or.inl ⟨label, s, rfl, hl, hk, rfl⟩)⟩
  | extend label s =>
    have hadd : (ScopeId.addAction s (.say (label ++ "\x27"))).Leads ctx σ _ _ :=
      ScopeId.leads_addAction s _
    simp only [CloseAction.unfold]
    cases hr : (ScopeId.addAction s (.say (label ++ "\x27"))).run ctx σ with
    | error e τ =>
      obtain rfl := hadd.error hr
      exact ⟨_, leaves_target rfl _, Or.inl rfl⟩
    | ok u τ =>
      obtain ⟨hu, rfl⟩ := hadd.ok hr
      have ha := Store.isAlive_of_checkUsable hu
      exact ⟨_, leaves_target rfl _, Or.inr (Or.inr (Or.inl ⟨label, s, rfl, ha, rfl⟩))⟩
  | fill label r =>
    have hfill : (r.fill 0xee).Leads ctx σ _ _ := Region.leads_fill
    simp only [CloseAction.unfold]
    cases hr : (r.fill 0xee).run ctx σ with
    | error e τ =>
      obtain rfl := hfill.error hr
      exact ⟨_, leaves_target rfl _, Or.inl rfl⟩
    | ok u τ =>
      obtain ⟨_, rfl⟩ := hfill.ok hr
      exact ⟨_, leaves_target rfl _, Or.inr (Or.inr (Or.inr ⟨_, rfl⟩))⟩

/-- The chore is an action that closes a scope. -/
def Chore.Governs : Chore → Prop
  | perform ⟨_, .close ..⟩ => True
  | _ => False

namespace Session

/-- What doing the first chore does to a session, as far as it is no edit. -/
inductive Work : Session → Session → Prop
  | begun {S p more rest} (hc : S.chores = .perform p :: rest) (hm : p.action.Leaves more) :
    Work S
      { S with
        store := S.store.note (.began p.ticket)
        chores := more ++ .finish p.ticket :: rest }
  | ended {S t rest} (hc : S.chores = .finish t :: rest) :
    Work S { S with store := S.store.note (.ended t), chores := rest }
  | written {S text rest} (hc : S.chores = .write text :: rest) :
    Work S { S with store := S.store.note (.line text), chores := rest }
  | spared {S s rest} (hc : S.chores = .letGo s :: rest)
    (hs : ¬ S.store.IsAlive s ∨ S.store.IsReferred S.roots rest s) :
    Work S { S with chores := rest }
  | reclaimed {S s rest} (hc : S.chores = .letGo s :: rest) (ha : S.store.IsAlive s)
    (hr : ¬ S.store.IsReferred S.roots rest s) :
    Work S
      { S with
        store := S.store.endScope s .reclaimed
        chores := (S.store.holdings s).chores ++ rest }
  | unguarded {S s rest} (hc : S.chores = .unguard s :: rest) :
    Work S { S with store := S.store.unpin s, chores := rest }
  | freed {S blocks rest} (hc : S.chores = .free blocks :: rest) :
    Work S { S with store := S.store.freeBlocks blocks, chores := rest }

variable {S : Session} {rest : List Chore}

theorem advance_nil (ctx : Context) (hc : S.chores = []) : S.advance ctx = S := by
  unfold advance
  rw [hc]

theorem advance_cons (ctx : Context) {c : Chore} (hc : S.chores = c :: rest) :
    S.advance ctx =
      { S with
        store := (c.step ctx S.roots S.store rest).1
        chores := (c.step ctx S.roots S.store rest).2 } := by
  unfold advance
  rw [hc]

/-- An action begins, and does right away what it does to other scopes or to memory. -/
theorem perform_cases (ctx : Context) {p : PendingAction} (hc : S.chores = .perform p :: rest) :
    ∃ T, S.Work T ∧ T.Edits (Chore.perform p).Governs (S.advance ctx) := by
  obtain ⟨more, hm, hu⟩ := p.action.unfold_cases ctx (S.store.note (.began p.ticket))
  have hstep : S.advance ctx =
      { S with
        store := (p.action.unfold ctx (S.store.note (.began p.ticket))).1
        chores := (p.action.unfold ctx (S.store.note (.began p.ticket))).2 ++
          .finish p.ticket :: rest } := advance_cons ctx hc
  refine ⟨_, .begun hc hm, ?_⟩
  rw [hstep]
  rcases hu with hu | ⟨label, s, ha, hl, hk, hu⟩ | ⟨_, s, _, ha, hu⟩ | ⟨m, hu⟩
  · rw [hu]
    exact .refl _
  · have hg : (Chore.perform p).Governs := by
      obtain ⟨ticket, a⟩ := p
      subst ha
      trivial
    have hfront : more ++ .finish p.ticket :: rest = [] ++ (more ++ .finish p.ticket :: rest) := rfl
    have he := Session.Edit.closed (S := { S with
      store := S.store.note (.began p.ticket)
      chores := more ++ .finish p.ticket :: rest }) hg hfront hl hk
    rw [List.nil_append, ← List.append_assoc] at he
    rw [hu]
    exact he.edits
  · rw [hu]
    exact (Session.Edit.accepted (S := { S with
      store := S.store.note (.began p.ticket)
      chores := more ++ .finish p.ticket :: rest }) ha fun u hu => by cases hu).edits
  · rw [hu]
    exact (Session.Edit.store (S := { S with
      store := S.store.note (.began p.ticket)
      chores := more ++ .finish p.ticket :: rest }) (Store.keeps_setMemory _ m)).edits

/-- All that doing the first chore can do to a session. -/
theorem advance_cases (ctx : Context) {c : Chore} (hc : S.chores = c :: rest) :
    ∃ T, S.Work T ∧ T.Edits c.Governs (S.advance ctx) := by
  have hdone : ∀ T, S.Work T → S.advance ctx = T →
      ∃ T, S.Work T ∧ T.Edits c.Governs (S.advance ctx) := fun T hw he => ⟨T, hw, he ▸ .refl _⟩
  have hstep := advance_cons ctx hc
  cases c with
  | perform p => exact perform_cases ctx hc
  | finish t => exact hdone _ (.ended hc) hstep
  | write text => exact hdone _ (.written hc) hstep
  | unguard s => exact hdone _ (.unguarded hc) hstep
  | free blocks => exact hdone _ (.freed hc) hstep
  | letGo s =>
    simp only [Chore.step] at hstep
    by_cases h : (S.store.scope s).isAlive ∧ ¬ S.store.IsReferred S.roots rest s
    · rw [if_pos h] at hstep
      exact hdone _ (.reclaimed hc h.1 h.2) hstep
    · rw [if_neg h] at hstep
      refine hdone _ (.spared hc ?_) hstep
      by_cases ha : S.store.IsAlive s
      · exact Or.inr (Decidable.not_not.mp fun hr => h ⟨ha, hr⟩)
      · exact Or.inl ha

end Session
end ScopedMemory
