import ScopedMemory.Proofs.Session.Progress

namespace ScopedMemory

open Turn

variable {α β : Type} {a b name : Name} {ctx : Context} {S T S' T' : Session}

/-! ### Sessions with two names exchanged -/

namespace Session

/-- The sessions differ at most in that `a` and `b` stand for each other's handle. -/
structure Twins (a b : Name) (S T : Session) : Prop where
  store : T.store = S.store
  chores : T.chores = S.chores
  first : T.handles.find? b = S.handles.find? a
  second : T.handles.find? a = S.handles.find? b
  rest : ∀ n, n ≠ a → n ≠ b → T.handles.find? n = S.handles.find? n
  sorted : S.handles.Sorted ∧ T.handles.Sorted

theorem Twins.symm (h : Twins a b S T) : Twins b a T S where
  store := h.store.symm
  chores := h.chores.symm
  first := h.first.symm
  second := h.second.symm
  rest n hb ha := (h.rest n ha hb).symm
  sorted := h.sorted.symm

theorem Twins.lift (h : Twins a b S T) (σ : Store) :
    Twins a b { S with store := σ } { T with store := σ } :=
  { h with store := rfl }

theorem Twins.put (h : Twins a b S T) (hab : a ≠ b) (hd : Handle) :
    Twins a b { S with handles := S.handles.put a hd } { T with handles := T.handles.put b hd } where
  store := h.store
  chores := h.chores
  first := by rw [HandleTable.find?_put, HandleTable.find?_put, if_pos rfl, if_pos rfl]
  second := by
    rw [HandleTable.find?_put, HandleTable.find?_put, if_neg hab, if_neg hab.symm]
    exact h.second
  rest n ha hb := by
    rw [HandleTable.find?_put, HandleTable.find?_put, if_neg ha, if_neg hb]
    exact h.rest n ha hb
  sorted := ⟨h.sorted.1.put a hd, h.sorted.2.put b hd⟩

theorem Twins.renamed (h : Twins a b S T) (ha : name ≠ a) (hb : name ≠ b) (hd : Handle) :
    Twins a b (S.renamed name hd) (T.renamed name hd) where
  store := h.store
  chores := by
    unfold Session.renamed
    rw [h.rest name ha hb, h.chores, h.store]
  first := by
    unfold Session.renamed
    rw [HandleTable.find?_put, HandleTable.find?_put, if_neg ha.symm, if_neg hb.symm]
    exact h.first
  second := by
    unfold Session.renamed
    rw [HandleTable.find?_put, HandleTable.find?_put, if_neg ha.symm, if_neg hb.symm]
    exact h.second
  rest n hna hnb := by
    unfold Session.renamed
    rw [HandleTable.find?_put, HandleTable.find?_put, h.rest n hna hnb]
  sorted := ⟨h.sorted.1.put name hd, h.sorted.2.put name hd⟩

theorem Twins.kept (h : Twins a b S T) {name? : Option Name} (ha : a ∉ name?) (hb : b ∉ name?)
    (hd : Handle) : Twins a b (S.kept name? hd) (T.kept name? hd) := by
  cases name? with
  | none =>
    refine { h with chores := ?_ }
    unfold Session.kept
    rw [h.chores, h.store]
  | some n => exact h.renamed (fun hn => ha (hn ▸ rfl)) (fun hn => hb (hn ▸ rfl)) hd

theorem Twins.lost (h : Twins a b S T) (hab : a ≠ b) : Twins a b (S.lost a) (T.lost b) := by
  have hfirst := h.first
  cases hf : S.handles.find? a with
  | none =>
    rw [hf] at hfirst
    unfold Session.lost
    rw [hf, hfirst]
    exact h
  | some old =>
    rw [hf] at hfirst
    unfold Session.lost
    rw [hf, hfirst]
    refine ⟨h.store, ?_, ?_, ?_, fun n ha hb => ?_, h.sorted.1.erase a, h.sorted.2.erase b⟩
    · rw [h.chores, h.store]
    · rw [HandleTable.find?_erase, HandleTable.find?_erase, if_pos rfl, if_pos rfl]
    · rw [HandleTable.find?_erase, HandleTable.find?_erase, if_neg hab, if_neg hab.symm]
      exact h.second
    · rw [HandleTable.find?_erase, HandleTable.find?_erase, if_neg ha, if_neg hb]
      exact h.rest n ha hb

theorem Twins.release (h : Twins a b S T) (n : Nat) : Twins a b (S.release n) (T.release n) where
  store := h.store
  chores := by
    unfold Session.release
    rw [h.chores, h.store]
  first := h.first
  second := h.second
  rest := h.rest
  sorted := h.sorted

/-- Where a handle has gone. -/
theorem Twins.mem (h : Twins a b S T) {p : Name × Handle} (hp : p ∈ S.handles) :
    ∃ n, (n, p.2) ∈ T.handles := by
  have hf := h.sorted.1.find? hp
  by_cases ha : p.1 = a
  · rw [ha, ← h.first] at hf
    exact ⟨b, HandleTable.mem_of_find? hf⟩
  · by_cases hb : p.1 = b
    · rw [hb, ← h.second] at hf
      exact ⟨a, HandleTable.mem_of_find? hf⟩
    · rw [← h.rest _ ha hb] at hf
      exact ⟨p.1, HandleTable.mem_of_find? hf⟩

theorem Twins.roots_subset (h : Twins a b S T) : S.roots ⊆ T.roots := by
  intro s hs
  obtain ⟨p, hp, hs⟩ := List.mem_flatMap.mp hs
  obtain ⟨n, hn⟩ := h.mem hp
  refine List.mem_flatMap.mpr ⟨_, hn, ?_⟩
  rw [h.store]
  exact hs

theorem Twins.mem_roots (h : Twins a b S T) (s : ScopeId) : s ∈ T.roots ↔ s ∈ S.roots :=
  ⟨fun hs => h.symm.roots_subset hs, fun hs => h.roots_subset hs⟩

end Session

/-- A chore does not notice under which names the roots are known. -/
theorem Chore.step_congr {roots roots' : List ScopeId} (h : ∀ s, s ∈ roots' ↔ s ∈ roots)
    (σ : Store) (rest : List Chore) (c : Chore) :
    c.step ctx roots' σ rest = c.step ctx roots σ rest := by
  cases c with
  | letGo s =>
    have hr : σ.IsReferred roots' rest s ↔ σ.IsReferred roots rest s := or_congr (h s) Iff.rfl
    unfold step
    simp only [hr]
  | _ => rfl

theorem Session.Twins.advance (h : Twins a b S T) : Twins a b (S.advance ctx) (T.advance ctx) := by
  unfold Session.advance
  rw [h.chores]
  cases S.chores with
  | nil => exact h
  | cons c rest =>
    dsimp only
    rw [h.store, Chore.step_congr h.mem_roots]
    exact ⟨rfl, rfl, h.first, h.second, h.rest, h.sorted⟩

/-! ### Turns that run alike -/

namespace Turn

/-- Both turns give the same or are refused alike, and leave twins. -/
def Alike (a b : Name) (x y : Turn α) (ctx : Context) (S T : Session) : Prop :=
  match x.run ctx S, y.run ctx T with
  | .ok p S', .ok q T' => q = p ∧ S'.Twins a b T'
  | .error e S', .error f T' => f = e ∧ S'.Twins a b T'
  | _, _ => False

variable {x y : Turn α} {f g : α → Turn β}

theorem Alike.bind (h : Alike a b x y ctx S T)
    (hf : ∀ p S' T', S'.Twins a b T' → Alike a b (f p) (g p) ctx S' T') :
    Alike a b (x >>= f) (y >>= g) ctx S T := by
  unfold Alike at h ⊢
  rw [run_bind, run_bind]
  cases hx : x.run ctx S with
  | ok p S' =>
    cases hy : y.run ctx T with
    | ok q T' =>
      rw [hx, hy] at h
      obtain ⟨rfl, h⟩ := h
      exact hf q S' T' h
    | error e T' =>
      rw [hx, hy] at h
      exact h.elim
  | error e S' =>
    cases hy : y.run ctx T with
    | ok q T' =>
      rw [hx, hy] at h
      exact h.elim
    | error e T' =>
      rw [hx, hy] at h
      exact h

theorem alike_pure (h : S.Twins a b T) (p : α) :
    Alike a b (pure p : Turn α) (pure p) ctx S T := ⟨rfl, h⟩

theorem alike_throw (h : S.Twins a b T) (e : Refusal) :
    Alike a b (throw e : Turn α) (throw e) ctx S T := ⟨rfl, h⟩

theorem alike_get {f g : Session → Turn α} (h : Alike a b (f S) (g T) ctx S T) :
    Alike a b (get >>= f) (get >>= g) ctx S T := h

theorem alike_lift (h : S.Twins a b T) (x : Operation α) :
    Alike a b (lift x) (lift x) ctx S T := by
  unfold Alike
  rw [run_lift, run_lift, h.store]
  cases x.run ctx S.store with
  | ok p σ => exact ⟨rfl, h.lift σ⟩
  | error e σ => exact ⟨rfl, h.lift σ⟩

/-- Turns that always leave a certain session run alike if the sessions are twins. -/
theorem alike_of_leads {x y : Turn Unit} (hx : x.Leads ctx S (fun _ U => U = S') fun _ => False)
    (hy : y.Leads ctx T (fun _ U => U = T') fun _ => False) (h : S'.Twins a b T') :
    Alike a b x y ctx S T := by
  unfold Leads at hx hy
  unfold Alike
  cases hrx : x.run ctx S with
  | error e U =>
    rw [hrx] at hx
    exact hx.elim
  | ok p U =>
    cases hry : y.run ctx T with
    | error e V =>
      rw [hry] at hy
      exact hy.elim
    | ok q V =>
      rw [hrx] at hx
      rw [hry] at hy
      rw [hx, hy]
      exact ⟨rfl, h⟩

theorem alike_find {lookup : Session → Name → Option α} {m n : Name} (h : S.Twins a b T)
    (hn : lookup T n = lookup S m) : Alike a b (find lookup m) (find lookup n) ctx S T := by
  unfold find
  unfold Alike
  rw [run_bind, run_bind, run_get, run_get]
  dsimp only
  rw [hn]
  cases lookup S m with
  | some p => exact ⟨rfl, h⟩
  | none => exact ⟨rfl, h⟩

theorem alike_claim {lookup : Session → Name → Option α} (hab : a ≠ b) (h : S.Twins a b T)
    (hn : lookup T b = lookup S a) :
    Alike a b (claim lookup a) (claim lookup b) ctx S T := by
  unfold claim
  unfold Alike
  rw [run_bind, run_bind, run_get, run_get]
  dsimp only
  rw [hn]
  cases lookup S a with
  | some p => exact ⟨rfl, h⟩
  | none =>
    exact (alike_of_leads leads_lose leads_lose (h.lost hab)).bind fun _ _ _ h =>
      alike_throw h .noHandle

end Turn

/-! ### Calls on either of two lists -/

/-- The names in the call besides that of the list. -/
def VariadicCall.others : VariadicCall → List Name
  | readSegment _ _ allocator name? => allocator :: name?.toList
  | copy _ name => [name]
  | _ => []

/-- The call made on another list. -/
def VariadicCall.onto (list : Name) : VariadicCall → VariadicCall
  | read l type _ => read l type list
  | readSegment l _ allocator name? => readSegment l list allocator name?
  | skip ls _ => skip ls list
  | copy _ name => copy list name
  | c => c

theorem Session.Twins.list? (h : Twins a b S T) : T.list? b = S.list? a := by
  unfold Session.list?
  rw [h.first]

theorem Session.Twins.allocator? (h : Twins a b S T) (ha : name ≠ a) (hb : name ≠ b) :
    T.allocator? name = S.allocator? name := by
  unfold Session.allocator?
  rw [h.rest name ha hb]

namespace Turn

theorem alike_keepList (h : S.Twins a b T) (ha : name ≠ a) (hb : name ≠ b) (v : VariadicList) :
    Alike a b (keepList name v) (keepList name v) ctx S T :=
  (alike_of_leads leads_rename leads_rename (h.renamed ha hb _)).bind fun _ _ _ h =>
    alike_pure h (Reply.list v.view)

theorem alike_readOn (hab : a ≠ b) (h : S.Twins a b T) {x : Operation α}
    (rest : α → VariadicList) (reply : α → Reply) :
    Alike a b
      (do
        let p ← lift x
        update a (.list (rest p))
        return reply p : Turn Reply)
      (do
        let p ← lift x
        update b (.list (rest p))
        return reply p : Turn Reply) ctx S T :=
  (alike_lift h x).bind fun p _ _ h =>
    (alike_of_leads leads_update leads_update (h.put hab _)).bind fun _ _ _ h =>
      alike_pure h (reply p)

end Turn

theorem VariadicCall.alike (hab : a ≠ b) (h : S.Twins a b T) {c : VariadicCall}
    (hc : c.Consults a) (ha : a ∉ c.others) (hb : b ∉ c.others) :
    Alike a b c.perform (c.onto b).perform ctx S T := by
  obtain ⟨l, type, rfl⟩ | ⟨l, allocator, name?, rfl⟩ | ⟨ls, rfl⟩ | ⟨copy, rfl⟩ := hc.cases
  · exact (alike_find h h.list?).bind fun v _ _ h => alike_readOn hab h Prod.snd Prod.fst
  · have hallocator : ∀ {S T : Session}, S.Twins a b T →
        T.allocator? allocator = S.allocator? allocator := fun h =>
      h.allocator? (fun he => ha (he ▸ List.mem_cons_self)) fun he => hb (he ▸ List.mem_cons_self)
    have hname : ∀ n, n ∉ (readSegment l a allocator name?).others → n ∉ name? := fun n hn hm =>
      hn (List.mem_cons_of_mem _ (Option.mem_toList.mpr hm))
    refine (alike_claim hab h h.list?).bind fun v _ _ h => (alike_find h (hallocator h)).bind
      fun w _ _ h => (alike_lift h _).bind fun p _ _ h =>
        (alike_of_leads leads_update leads_update (h.put hab _)).bind fun _ S T h =>
          alike_get ?_
    rw [h.store]
    refine (alike_lift h _).bind fun contents _ _ h =>
      (alike_of_leads leads_keep leads_keep (h.kept (hname a ha) (hname b hb) _)).bind
        fun _ _ _ h => ?_
    match contents with
    | .ok (some bytes) => exact alike_pure h _
    | .ok none => exact alike_throw h _
    | .error e => exact alike_pure h _
  · exact (alike_find h h.list?).bind fun v _ _ h =>
      alike_readOn hab h id fun rest => Reply.list rest.view
  · exact (alike_find h h.list?).bind fun v _ _ h => (alike_lift h _).bind fun v' _ _ h =>
      alike_keepList h (fun he => ha (he ▸ List.mem_cons_self))
        (fun he => hb (he ▸ List.mem_cons_self)) v'

/-- A call is answered on the one name in the one session as on the other name in the other. -/
theorem VariadicCall.alike_begin (hab : a ≠ b) (h : S.Twins a b T) {c : VariadicCall}
    (hc : c.Consults a) (ha : a ∉ c.others) (hb : b ∉ c.others) :
    (T.begin ctx (.variadic (c.onto b))).1 = (S.begin ctx (.variadic c)).1 ∧
      (S.begin ctx (.variadic c)).2.Twins a b (T.begin ctx (.variadic (c.onto b))).2 := by
  have hstore := congrArg (fun σ => σ.scopes.length) h.store
  have halike : Alike a b c.perform (c.onto b).perform ctx S T := c.alike hab h hc ha hb
  unfold Alike at halike
  unfold Session.begin Call.perform
  dsimp only
  cases hx : c.perform.run ctx S with
  | ok p S' =>
    cases hy : (c.onto b).perform.run ctx T with
    | ok q T' =>
      rw [hx, hy] at halike
      obtain ⟨rfl, halike⟩ := halike
      exact ⟨rfl, hstore ▸ halike.release _⟩
    | error e T' =>
      rw [hx, hy] at halike
      exact halike.elim
  | error e S' =>
    cases hy : (c.onto b).perform.run ctx T with
    | ok q T' =>
      rw [hx, hy] at halike
      exact halike.elim
    | error f T' =>
      rw [hx, hy] at halike
      obtain ⟨rfl, halike⟩ := halike
      exact ⟨rfl, hstore ▸ halike.release _⟩

/-! ### Runs on either of two lists -/

/-- The move is a call on the list that does not name the other one, or a chore. -/
def Move.Uses (list other : Name) : Move → Prop
  | .call _ (.variadic c) => c.Consults list ∧ list ∉ c.others ∧ other ∉ c.others
  | .call .. => False
  | .chore _ => True

def Move.onto (list : Name) : Move → Move
  | .call ctx (.variadic c) => .call ctx (.variadic (c.onto list))
  | m => m

/-- What the calls of the moves are answered, the newest first. -/
def answers (past : List Move) : List Move → List (Except Refusal Reply)
  | [] => []
  | .call ctx c :: moves => ((play (moves ++ past)).begin ctx c).1 :: answers past moves
  | .chore _ :: moves => answers past moves

theorem twins_play (hab : a ≠ b) {past : List Move} (h : (play past).Twins a b (play past))
    {moves : List Move} (hm : ∀ m ∈ moves, m.Uses a b) :
    answers past (moves.map (Move.onto b)) = answers past moves ∧
      (play (moves ++ past)).Twins a b (play (moves.map (Move.onto b) ++ past)) := by
  induction moves with
  | nil => exact ⟨rfl, h⟩
  | cons m moves ih =>
    obtain ⟨hanswers, htwins⟩ := ih fun m' hm' => hm m' (List.mem_cons_of_mem m hm')
    have huses := hm m List.mem_cons_self
    cases m with
    | chore ctx => exact ⟨hanswers, htwins.advance⟩
    | call ctx c =>
      cases c with
      | variadic c =>
        obtain ⟨hc, ha, hb⟩ := huses
        obtain ⟨hanswer, hnext⟩ := c.alike_begin hab htwins hc ha hb
        exact ⟨List.cons_eq_cons.mpr ⟨hanswer, hanswers⟩, hnext⟩
      | _ => exact huses.elim

/-! ### What a call on a list does to other names -/

namespace Session

/-- All names mean what they meant, except for some. -/
def SameBut (names : List Name) (S T : Session) : Prop :=
  ∀ n, n ∉ names → T.handles.find? n = S.handles.find? n

variable {names : List Name}

theorem SameBut.refl (S : Session) : S.SameBut names S := fun _ _ => rfl

instance : Std.Refl (SameBut names) := ⟨SameBut.refl⟩

instance : Trans (SameBut names) (SameBut names) (SameBut names) :=
  ⟨fun h h' n hn => (h' n hn).trans (h n hn)⟩

theorem SameBut.put (hn : name ∈ names) {hd : Handle} (hT : T.handles = S.handles.put name hd) :
    S.SameBut names T := fun n hne => by
  have hname : n ≠ name := fun he => hne (he ▸ hn)
  rw [hT, HandleTable.find?_put, if_neg hname]

theorem SameBut.of_handles (h : T.handles = S.handles) : S.SameBut names T := fun n _ =>
  congrArg (fun hs : HandleTable => hs.find? n) h

end Session

namespace Turn

theorem sameBut_lift (names : List Name) (x : Operation α) :
    (lift x).Through (Session.SameBut names) ctx S := by
  unfold Through Leads
  rw [run_lift]
  cases x.run ctx S.store with
  | ok a τ => exact .of_handles rfl
  | error e τ => exact .of_handles rfl

theorem sameBut_update {names : List Name} (hn : name ∈ names) (hd : Handle) :
    (update name hd).Through (Session.SameBut names) ctx S :=
  leads_update.imp (fun _ _ hT => .put hn (congrArg Session.handles hT)) fun _ hf => hf.elim

theorem sameBut_rename {names : List Name} (hn : name ∈ names) (hd : Handle) :
    (rename name hd).Through (Session.SameBut names) ctx S :=
  leads_rename.imp (fun _ _ hT => .put hn (congrArg Session.handles hT)) fun _ hf => hf.elim

theorem sameBut_keep {names : List Name} {name? : Option Name} (hn : ∀ n ∈ name?, n ∈ names)
    (hd : Handle) : (keep name? hd).Through (Session.SameBut names) ctx S := by
  cases name? with
  | none =>
    refine leads_discard.imp (fun _ T hT => ?_) fun _ hf => hf.elim
    rw [hT]
    exact .of_handles rfl
  | some n => exact sameBut_rename (hn n rfl) hd

end Turn

/-- A call on a list moves no other list. -/
theorem VariadicCall.sameBut {c : VariadicCall} (hc : c.Consults a) :
    S.SameBut (a :: c.others) (S.begin ctx (.variadic c)).2 := by
  have hlost : S.SameBut (a :: c.others) (S.lost a) := by
    unfold Session.lost
    split
    · intro n hn
      have hname : n ≠ a := fun he => hn (he ▸ List.mem_cons_self)
      exact (HandleTable.find?_erase a n S.handles).trans (if_neg hname)
    · exact .refl S
  have hthrough : c.perform.Through (Session.SameBut (a :: c.others)) ctx S := by
    obtain ⟨l, type, rfl⟩ | ⟨l, allocator, name?, rfl⟩ | ⟨ls, rfl⟩ | ⟨copy, rfl⟩ := hc.cases
    · exact through_find.bind fun v _ => (sameBut_lift _ _).bind fun p _ =>
        (sameBut_update List.mem_cons_self _).bind fun _ _ => through_pure _
    · have hclaim : (claim Session.list? a).Through (Session.SameBut
          (a :: (readSegment l a allocator name?).others)) ctx S :=
        leads_claim.imp (fun _ _ hT => hT.2 ▸ .refl _) fun _ hT => hT.2 ▸ hlost
      have hname : ∀ n ∈ name?, n ∈ a :: (readSegment l a allocator name?).others := fun n hn =>
        List.mem_cons_of_mem _ (List.mem_cons_of_mem _ (Option.mem_toList.mpr hn))
      refine hclaim.bind fun v _ => through_find.bind fun w _ => (sameBut_lift _ _).bind fun p _ =>
        (sameBut_update List.mem_cons_self _).bind fun _ _ => through_get.bind fun _ _ =>
          (sameBut_lift _ _).bind fun contents _ => (sameBut_keep hname _).bind fun _ _ => ?_
      match contents with
      | .ok (some bytes) => exact through_pure _
      | .ok none => exact through_throw _
      | .error e => exact through_pure _
    · exact through_find.bind fun v _ => (sameBut_lift _ _).bind fun p _ =>
        (sameBut_update List.mem_cons_self _).bind fun _ _ => through_pure _
    · exact through_find.bind fun v _ => (sameBut_lift _ _).bind fun p _ =>
        (sameBut_rename (List.mem_cons_of_mem _ List.mem_cons_self) _).bind fun _ _ =>
          through_pure _
  exact Leads.begin hthrough fun _ hT => hT

theorem Session.list?_congr (h : T.handles.find? name = S.handles.find? name) :
    T.list? name = S.list? name := by
  unfold list?
  rw [h]

/-- However a list is used, the other one stays where it is. -/
theorem play_uses (hab : a ≠ b) (past : List Move) {moves : List Move}
    (hm : ∀ m ∈ moves, m.Uses a b) : (play (moves ++ past)).list? b = (play past).list? b := by
  induction moves with
  | nil => rfl
  | cons m moves ih =>
    have hrest := ih fun m' hm' => hm m' (List.mem_cons_of_mem m hm')
    have huses := hm m List.mem_cons_self
    refine Eq.trans ?_ hrest
    cases m with
    | chore ctx =>
      exact Session.list?_congr (congrArg (fun hs : HandleTable => hs.find? b)
        (Session.handles_advance _ ctx))
    | call ctx c =>
      cases c with
      | variadic c =>
        obtain ⟨hc, _, hb⟩ := huses
        exact Session.list?_congr (c.sameBut hc b fun hmem => (List.mem_cons.mp hmem).elim
          (fun he => hab he.symm) hb)
      | _ => exact huses.elim

end ScopedMemory
