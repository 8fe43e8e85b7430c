import ScopedMemory.Proofs.Session.Play

namespace ScopedMemory

/-- A region that was handed out, with what was asked for. -/
structure Grant where
  region : Region
  size : Word
  align : Word

def ScopeCall.grants (ctx : Context) (S : Session) : ScopeCall → List Grant
  | allocateNative size align scope _ =>
    match S.scope? scope with
    | some s => ((s.allocateNative size align).value? ctx S.store).toList.map (⟨·, size, align⟩)
    | none => []
  | _ => []

/-- The requests at the same time come from that many threads, `count` times each. -/
def AllocationCall.callers (threads count : Nat) : List Thread :=
  (List.range threads).flatMap fun i => .replicate count (firstSpareThread + i)

def AllocationCall.grants (ctx : Context) (S : Session) : AllocationCall → List Grant
  | allocate q allocator _ =>
    match S.allocator? allocator, q.dimensions with
    | some w, .ok (size, align) =>
      if w.IsFresh then ((w.serve q).value? ctx S.store).toList.map (⟨·, size, align⟩) else []
    | _, _ => []
  | allocateParallel target size align threads count =>
    match S.sharedArena? target with
    | some a =>
      let outcomes := ((Allocator.arena a).allocateEach size align (callers threads count)).value?
        ctx S.store
      ((outcomes.getD []).filterMap Except.toOption).map (⟨·, size, align⟩)
    | none => []
  | _ => []

def VariadicCall.grants (ctx : Context) (S : Session) : VariadicCall → List Grant
  | readSegment l list allocator _ =>
    match S.list? list, S.allocator? allocator with
    | some v, some w =>
      if w.IsFresh then
        ((v.readSegment l w).value? ctx S.store).toList.map (⟨·.1, l.size, l.align⟩)
      else []
    | _, _ => []
  | _ => []

/-- The regions that allocators hand out for a call. Recycled regions are not new. -/
def Call.grants (ctx : Context) (S : Session) : Call → List Grant
  | .scope c => c.grants ctx S
  | .allocation c => c.grants ctx S
  | .variadic c => c.grants ctx S
  | .handle _ | .region _ => []

structure Grant.Met (g : Grant) (system : SystemAllocator) (σ : Store) : Prop where
  size : g.region.size = g.size
  align : system.Aligns → g.align.toNat ∣ g.region.start.toNat
  alive : σ.IsAlive g.region.scope

namespace Session

variable {system : SystemAllocator} {strict writes : Prop} {G rs : List Region}
  {gs : List Grant} {σ τ : Store} {S T U : Session} {ctx : Context}

/-- What a call does to a session: nothing ends for want of references, and the grants are as they
were asked for. -/
structure Comes (system : SystemAllocator) (strict : Prop) (G : List Region) (gs : List Grant)
    (S T : Session) : Prop extends Follows system strict (G ++ gs.map (·.region)) S T where
  spares : S.store.Spares T.store
  met : ∀ g ∈ gs, g.Met system T.store

/-- What comes after without any change of the store. -/
theorem Comes.handles (h : S.Comes system strict G gs T) (hs : T.store = U.store)
    (hU : U.Sound system strict (G ++ gs.map (·.region))) : S.Comes system strict G gs U where
  sound := hU
  later := hs ▸ h.later
  spares := hs ▸ h.spares
  met := hs ▸ h.met

/-- An operation that hands out what nobody is told of. -/
theorem Comes.changes (h : S.Sound system strict G) (hsep : system.Separate)
    (hc : S.store.Changes system writes rs τ) :
    S.Comes system strict G [] { S with store := τ } where
  sound := by
    have ht := h.changes hsep hc
    rw [List.map_nil, List.append_nil]
    exact ⟨ht.store, ht.ledger.sublist (List.sublist_append_left _ _), ht.handles, ht.chores⟩
  later := hc.extends.toLater
  spares := hc.extends.spares
  met _ hg := by cases hg

theorem Comes.of_follows (h : S.Follows system strict G T) (hsp : S.store.Spares T.store) :
    S.Comes system strict G [] T where
  sound := by
    rw [List.map_nil, List.append_nil]
    exact h.sound
  later := h.later
  spares := hsp
  met _ hg := by cases hg

theorem Comes.refl (h : S.Sound system strict G) : S.Comes system strict G [] S :=
  .of_follows ⟨h, .refl S.store⟩ fun _ h => h

theorem Comes.of_eq (h : S.Sound system strict G) (hT : T = S) : S.Comes system strict G [] T := by
  rw [hT]
  exact .refl h

theorem Comes.of_same (h : S.Sound system strict G)
    (hT : ∃ τ, τ = S.store ∧ T = { S with store := τ }) : S.Comes system strict G [] T := by
  obtain ⟨τ, rfl, rfl⟩ := hT
  exact .refl h

theorem Comes.granted (h : S.Sound system strict G) (hsep : system.Separate)
    (hc : S.store.Changes system writes rs τ) (hg : gs.map (·.region) = rs)
    (hm : ∀ g ∈ gs, g.Met system τ) : S.Comes system strict G gs { S with store := τ } where
  sound := hg ▸ h.changes hsep hc
  later := hc.extends.toLater
  spares := hc.extends.spares
  met := hm

theorem Comes.memory (h : S.Sound system strict G) (hsep : system.Separate) (m : Memory) :
    S.Comes system strict G [] { S with store := S.store.setMemory m } :=
  Comes.changes h hsep (Store.Changes.refl.memory trivial m)

theorem Comes.setStore (h : S.Sound system strict G) (hs : τ.Sound system strict S.waiting)
    (hl : S.store.Later τ) (hsp : S.store.Spares τ) (ha : τ.arenas = S.store.arenas) :
    S.Comes system strict G [] { S with store := τ } :=
  .of_follows (h.next hs hl hsp ha fun c hc => (h.chores c hc).later hl hsp) hsp

theorem store_kept (S : Session) (name? : Option Name) (hd : Handle) :
    (S.kept name? hd).store = S.store := by
  cases name? <;> rfl

theorem store_lost (S : Session) (name : Name) : (S.lost name).store = S.store := by
  unfold lost
  split <;> rfl

theorem Comes.renamed (h : S.Comes system strict G gs T) (name : Name) {hd : Handle}
    (hs : hd.Sound T.store strict) : S.Comes system strict G gs (T.renamed name hd) :=
  h.handles rfl (h.sound.renamed name hs)

theorem Comes.kept (h : S.Comes system strict G gs T) (name? : Option Name) {hd : Handle}
    (hs : hd.Sound T.store strict) : S.Comes system strict G gs (T.kept name? hd) :=
  h.handles (store_kept T name? hd).symm (h.sound.kept name? hs)

theorem Comes.lost (h : S.Comes system strict G gs T) (name : Name) :
    S.Comes system strict G gs (T.lost name) :=
  h.handles (store_lost T name).symm (h.sound.lost name)

/-! ### What names stand for -/

theorem Sound.of_scope? (h : S.Sound system strict G) {name : Name} {s : ScopeId}
    (hf : S.scope? name = some s) : S.store.Holds s := by
  unfold scope? at hf
  split at hf
  next hn =>
    cases hf
    exact (h.find hn).scopes s (List.mem_singleton.mpr rfl)
  next => cases hf

theorem Sound.of_region? (h : S.Sound system strict G) {name : Name} {r : Region}
    {adopted : Bool} (hf : S.region? name = some (r, adopted)) :
    S.store.Holds r.scope ∧ (strict → r.Inside S.store) := by
  unfold region? at hf
  split at hf
  next hn =>
    cases hf
    have hs := h.find hn
    exact ⟨hs.scopes _ (List.mem_singleton.mpr rfl),
      fun hstrict => hs.regions hstrict _ (List.mem_singleton.mpr rfl)⟩
  next => cases hf

theorem Sound.of_allocator? (h : S.Sound system strict G) {name : Name} {w : Allocator}
    (hf : S.allocator? name = some w) :
    w.Known S.store ∧ ∀ r, w = .recycling r → S.store.Holds r.scope ∧
      (strict → r.Inside S.store) := by
  obtain ⟨hd, hn, hw⟩ := Option.bind_eq_some_iff.mp hf
  have hs := h.find hn
  refine ⟨hs.known hw, fun r he => ?_⟩
  subst he
  cases hd with
  | allocator w =>
    cases hw
    exact ⟨hs.scopes _ (List.mem_singleton.mpr rfl),
      fun hstrict => hs.regions hstrict _ (List.mem_singleton.mpr rfl)⟩
  | _ => cases hw

theorem Sound.of_sharedArena? (h : S.Sound system strict G) {name : Name} {a : ArenaId}
    (hf : S.sharedArena? name = some a) : a < S.store.arenas.length := by
  unfold sharedArena? at hf
  split at hf
  next hn =>
    cases hf
    exact (h.find hn).arena a rfl
  next => cases hf

theorem Sound.of_builder? (h : S.Sound system strict G) {name : Name} {b : VariadicBuilder}
    (hf : S.builder? name = some b) : (Handle.builder b).Sound S.store strict := by
  unfold builder? at hf
  split at hf
  next hn =>
    cases hf
    exact h.find hn
  next => cases hf

theorem Sound.of_list? (h : S.Sound system strict G) {name : Name} {v : VariadicList}
    (hf : S.list? name = some v) : (Handle.list v).Sound S.store strict := by
  unfold list? at hf
  split at hf
  next hn =>
    cases hf
    exact h.find hn
  next => cases hf

end Session
end ScopedMemory
