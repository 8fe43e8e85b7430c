import ScopedMemory.Proofs.Session.Turn
import ScopedMemory.Proofs.Store.Release
import ScopedMemory.Proofs.Variadic.Builder

namespace ScopedMemory

variable {system : SystemAllocator} {strict : Prop} {G G' rs : List Region} {σ τ : Store}
  {S : Session}

/-! ### The table of handles -/

namespace HandleTable

theorem mem_put {hs : HandleTable} {name : Name} {h : Handle} {p : Name × Handle}
    (hp : p ∈ put name h hs) : p = (name, h) ∨ p ∈ hs := by
  induction hs with
  | nil => exact Or.inl (List.mem_singleton.mp hp)
  | cons q hs ih =>
    obtain ⟨n, old⟩ := q
    unfold put at hp
    split at hp
    next =>
      rcases List.mem_cons.mp hp with hp | hp
      · exact Or.inl hp
      · exact Or.inr (List.mem_cons_of_mem _ hp)
    next =>
      split at hp
      next =>
        rcases List.mem_cons.mp hp with hp | hp
        · exact Or.inl hp
        · exact Or.inr hp
      next =>
        rcases List.mem_cons.mp hp with hp | hp
        · exact Or.inr (hp ▸ List.mem_cons_self)
        · exact (ih hp).imp id (List.mem_cons_of_mem _)

theorem mem_of_mem_erase {hs : HandleTable} {name : Name} {p : Name × Handle}
    (hp : p ∈ hs.erase name) : p ∈ hs := (List.mem_filter.mp hp).1

theorem mem_of_find? {hs : HandleTable} {name : Name} {h : Handle}
    (hf : hs.find? name = some h) : (name, h) ∈ hs := by
  induction hs with
  | nil => cases hf
  | cons q hs ih =>
    obtain ⟨n, old⟩ := q
    unfold find? at hf
    rw [List.lookup_cons] at hf
    split at hf
    next he =>
      cases hf
      rw [eq_of_beq he]
      exact List.mem_cons_self
    next => exact List.mem_cons_of_mem _ (ih hf)

theorem find?_put (name other : Name) (h : Handle) (hs : HandleTable) :
    (put name h hs).find? other = if other = name then some h else hs.find? other := by
  have hcons : ∀ (n : Name) (x : Handle) (t : HandleTable),
      HandleTable.find? ((n, x) :: t) other = if other = n then some x else t.find? other := by
    intro n x t
    unfold find?
    rw [List.lookup_cons]
    by_cases ho : other = n
    · subst ho
      simp
    · have hb : (other == n) = false := beq_eq_false_iff_ne.mpr ho
      rw [hb, if_neg ho]
  induction hs with
  | nil => exact hcons name h []
  | cons q hs ih =>
    obtain ⟨n, old⟩ := q
    unfold put
    by_cases hn : name = n
    · subst hn
      rw [if_pos rfl, hcons, hcons]
      split <;> rfl
    · rw [if_neg hn]
      split
      next => exact hcons _ _ _
      next =>
        rw [hcons, ih, hcons]
        by_cases ho : other = n
        · have hne : ¬ other = name := fun he => hn (he.symm.trans ho)
          rw [if_pos ho, if_neg hne, if_pos ho]
        · rw [if_neg ho, if_neg ho]

theorem find?_erase (name other : Name) (hs : HandleTable) :
    (hs.erase name).find? other = if other = name then none else hs.find? other := by
  induction hs with
  | nil =>
    split <;> rfl
  | cons q hs ih =>
    obtain ⟨n, old⟩ := q
    unfold erase find? at *
    rw [List.filter_cons]
    by_cases hn : n = name
    · subst hn
      have hd : decide ((n, old).1 ≠ n) = false := by simp
      rw [hd, if_neg Bool.false_ne_true, ih, List.lookup_cons]
      by_cases ho : other = n
      · rw [if_pos ho, if_pos ho]
      · have hb : (other == n) = false := beq_eq_false_iff_ne.mpr ho
        rw [if_neg ho, if_neg ho, hb]
    · have hd : decide ((n, old).1 ≠ name) = true := by simp [hn]
      rw [hd, if_pos rfl, List.lookup_cons, List.lookup_cons]
      by_cases ho : other = n
      · subst ho
        rw [if_neg hn]
        simp
      · have hb : (other == n) = false := beq_eq_false_iff_ne.mpr ho
        rw [hb]
        exact ih

end HandleTable

/-! ### What handles and chores refer to -/

namespace Handle

/-- The regions that the handle stands for or keeps. -/
def regions : Handle → List Region
  | region r _ => [r]
  | allocator (.recycling r) => [r]
  | builder b => b.arguments.filterMap Argument.region?
  | list v => v.cursor.toList.map (·.remaining)
  | _ => []

def arena? : Handle → Option ArenaId
  | arena a _ => some a
  | allocator (.arena a) => some a
  | _ => none

/-- What the handle refers to is there, and unless regions are adopted its regions lie in their
scopes. -/
structure Sound (h : Handle) (σ : Store) (strict : Prop) : Prop where
  scopes : ∀ s ∈ h.scopes σ, σ.Holds s
  arena : ∀ a, h.arena? = some a → a < σ.arenas.length
  regions : strict → ∀ r ∈ h.regions, r.Inside σ
  builder : ∀ b, h = .builder b → ∀ arg ∈ b.arguments, arg.Accepted b.convention
  list : ∀ v c, h = .list v → v.cursor = some c →
    c.remaining.scope = v.scope ∧ (strict → c.foreign = false)

theorem scopes_later {h : Handle} (ha : ∀ a, h.arena? = some a → a < σ.arenas.length)
    (hl : σ.Later τ) : h.scopes τ = h.scopes σ := by
  cases h with
  | arena a _ => simp only [scopes, hl.arenaScope a (ha a rfl)]
  | allocator w =>
    cases w with
    | arena a => simp only [scopes, allocatorScopes, hl.arenaScope a (ha a rfl)]
    | _ => rfl
  | _ => rfl

theorem Sound.later' {h : Handle} (hs : h.Sound σ strict) (hl : σ.Later τ)
    (hh : ∀ s ∈ h.scopes σ, τ.Holds s) : h.Sound τ strict where
  scopes s hm := by
    rw [scopes_later hs.arena hl] at hm
    exact hh s hm
  arena a ha := Nat.lt_of_lt_of_le (hs.arena a ha) hl.arenas
  regions hstrict r hr := (hs.regions hstrict r hr).later hl
  builder := hs.builder
  list := hs.list

theorem Sound.later {h : Handle} (hs : h.Sound σ strict) (hl : σ.Later τ) (hsp : σ.Spares τ) :
    h.Sound τ strict := hs.later' hl fun s hm => (hs.scopes s hm).later hl hsp

/-- The regions of a handle belong to scopes that it refers to. -/
theorem Sound.scope_mem {h : Handle} (hs : h.Sound σ strict) {r : Region} (hr : r ∈ h.regions) :
    r.scope ∈ h.scopes σ := by
  cases h with
  | region r' _ =>
    obtain rfl := List.mem_singleton.mp hr
    exact List.mem_singleton.mpr rfl
  | allocator w =>
    cases w with
    | recycling r' =>
      obtain rfl := List.mem_singleton.mp hr
      exact List.mem_singleton.mpr rfl
    | _ => cases hr
  | builder b =>
    exact List.mem_cons_of_mem _ (List.mem_map.mpr ⟨r, hr, rfl⟩)
  | list v =>
    obtain ⟨c, hc, rfl⟩ := List.mem_map.mp hr
    rw [(hs.list v c rfl (Option.mem_toList.mp hc)).1]
    exact List.mem_singleton.mpr rfl
  | _ => cases hr

theorem sound_scope {s : ScopeId} (h : σ.Holds s) : (scope s).Sound σ strict where
  scopes _ hm := List.mem_singleton.mp hm ▸ h
  arena _ ha := by cases ha
  regions _ _ hr := by cases hr
  builder _ hb := by cases hb
  list _ _ hv := by cases hv

theorem sound_guard {s : ScopeId} (h : σ.Holds s) : (guard s).Sound σ strict where
  scopes _ hm := List.mem_singleton.mp hm ▸ h
  arena _ ha := by cases ha
  regions _ _ hr := by cases hr
  builder _ hb := by cases hb
  list _ _ hv := by cases hv

theorem sound_region {r : Region} {adopted : Bool} (h : σ.Holds r.scope)
    (hi : strict → r.Inside σ) : (region r adopted).Sound σ strict where
  scopes _ hm := List.mem_singleton.mp hm ▸ h
  arena _ ha := by cases ha
  regions hstrict _ hr := List.mem_singleton.mp hr ▸ hi hstrict
  builder _ hb := by cases hb
  list _ _ hv := by cases hv

theorem sound_arena {a : ArenaId} {access : ArenaAccess} (ha : a < σ.arenas.length)
    (h : σ.Holds (σ.arena a).scope) : (arena a access).Sound σ strict where
  scopes _ hm := List.mem_singleton.mp hm ▸ h
  arena _ he := by cases he; exact ha
  regions _ _ hr := by cases hr
  builder _ hb := by cases hb
  list _ _ hv := by cases hv

theorem sound_recycling {r : Region} (h : σ.Holds r.scope) (hi : strict → r.Inside σ) :
    (allocator (.recycling r)).Sound σ strict where
  scopes _ hm := List.mem_singleton.mp hm ▸ h
  arena _ ha := by cases ha
  regions hstrict _ hr := List.mem_singleton.mp hr ▸ hi hstrict
  builder _ hb := by cases hb
  list _ _ hv := by cases hv

theorem sound_perRequest (kind : ScopeKind) : (allocator (.perRequest kind)).Sound σ strict where
  scopes _ hm := by cases hm
  arena _ ha := by cases ha
  regions _ _ hr := by cases hr
  builder _ hb := by cases hb
  list _ _ hv := by cases hv

theorem sound_direct {s : ScopeId} (h : σ.Holds s) : (allocator (.direct s)).Sound σ strict where
  scopes _ hm := List.mem_singleton.mp hm ▸ h
  arena _ ha := by cases ha
  regions _ _ hr := by cases hr
  builder _ hb := by cases hb
  list _ _ hv := by cases hv

theorem sound_list {v : VariadicList} (h : σ.Holds v.scope)
    (hc : ∀ c, v.cursor = some c → c.remaining.scope = v.scope ∧ (strict → c.foreign = false) ∧
      (strict → c.remaining.Inside σ)) : (list v).Sound σ strict where
  scopes _ hm := List.mem_singleton.mp hm ▸ h
  arena _ ha := by cases ha
  regions hstrict r hr := by
    obtain ⟨c, hm, rfl⟩ := List.mem_map.mp hr
    exact (hc c (Option.mem_toList.mp hm)).2.2 hstrict
  builder _ hb := by cases hb
  list v' c hv hv' := by
    cases hv
    exact ⟨(hc c hv').1, (hc c hv').2.1⟩

theorem Sound.known {h : Handle} (hs : h.Sound σ strict) {w : Allocator}
    (hw : h.asAllocator? = some w) : w.Known σ := by
  intro a ha
  subst ha
  cases h with
  | allocator w =>
    cases hw
    exact hs.arena a rfl
  | arena a' _ =>
    cases hw
    exact hs.arena a rfl
  | _ => cases hw

end Handle

namespace Chore

def blocks : Chore → List Block
  | free bs => bs
  | _ => []

def Sound (σ : Store) (strict : Prop) : Chore → Prop
  | perform p => p.Sound σ strict
  | letGo s => σ.Holds s
  | _ => True

theorem Sound.later {c : Chore} (h : c.Sound σ strict) (hl : σ.Later τ) (hsp : σ.Spares τ) :
    c.Sound τ strict := by
  cases c with
  | perform p => exact PendingAction.Sound.later h hl hsp
  | letGo s => exact Store.Holds.later h hl hsp
  | _ => trivial

end Chore

theorem Handle.Sound.dropChores {h : Handle} (hs : h.Sound σ strict) :
    (∀ c ∈ h.dropChores σ, c.Sound σ strict) ∧ (h.dropChores σ).flatMap Chore.blocks = [] := by
  have hmap : ∀ ss : List ScopeId, (ss.map Chore.letGo).flatMap Chore.blocks = [] := fun ss => by
    simp [List.flatMap_map, Chore.blocks]
  have hlet : ∀ c ∈ (h.scopes σ).map Chore.letGo, c.Sound σ strict := by
    intro c hc
    obtain ⟨s, hm, rfl⟩ := List.mem_map.mp hc
    exact hs.scopes s hm
  cases h with
  | guard s =>
    refine ⟨fun c hc => ?_, rfl⟩
    rcases List.mem_cons.mp hc with rfl | hc
    · trivial
    · obtain rfl := List.mem_singleton.mp hc
      exact hs.scopes s (List.mem_singleton.mpr rfl)
  | _ => exact ⟨hlet, hmap _⟩

namespace Session

def waiting (S : Session) : List Block := S.chores.flatMap Chore.blocks

/-- The store is sound with the regions handed out, and so is what handles and chores refer to. -/
structure Sound (system : SystemAllocator) (strict : Prop) (G : List Region) (S : Session) :
    Prop where
  store : S.store.Sound system strict S.waiting
  ledger : S.store.Ledger G
  handles : ∀ p ∈ S.handles, p.2.Sound S.store strict
  chores : ∀ c ∈ S.chores, c.Sound S.store strict

theorem Sound.find (h : S.Sound system strict G) {name : Name} {hd : Handle}
    (hf : S.handles.find? name = some hd) : hd.Sound S.store strict :=
  h.handles _ (HandleTable.mem_of_find? hf)

theorem Sound.setStore (h : S.Sound system strict G) (hs : τ.Sound system strict S.waiting)
    (hg : τ.Ledger G') (hl : S.store.Later τ) (hsp : S.store.Spares τ) :
    Sound system strict G' { S with store := τ } where
  store := hs
  ledger := hg
  handles p hp := (h.handles p hp).later hl hsp
  chores c hc := (h.chores c hc).later hl hsp

theorem Sound.changes {writes : Prop} (h : S.Sound system strict G) (hsep : system.Separate)
    (hc : S.store.Changes system writes rs τ) :
    Sound system strict (G ++ rs) { S with store := τ } :=
  h.setStore (hc.sound h.store) (hc.ledger hsep h.store h.ledger) hc.extends.toLater
    hc.extends.spares

theorem Sound.leave (h : S.Sound system strict G) {chores : List Chore}
    (hc : ∀ c ∈ chores, c.Sound S.store strict) (hb : chores.flatMap Chore.blocks = []) :
    Sound system strict G { S with chores := S.chores ++ chores } where
  store := by
    have hw : waiting { S with chores := S.chores ++ chores } = S.waiting := by
      simp only [waiting, List.flatMap_append, hb, List.append_nil]
    rw [hw]
    exact h.store
  ledger := h.ledger
  handles := h.handles
  chores c hm := (List.mem_append.mp hm).elim (h.chores c) (hc c)

theorem Sound.discard (h : S.Sound system strict G) {hd : Handle}
    (hs : hd.Sound S.store strict) :
    Sound system strict G { S with chores := S.chores ++ hd.dropChores S.store } :=
  h.leave hs.dropChores.1 hs.dropChores.2

theorem Sound.setHandles (h : S.Sound system strict G) {hs : HandleTable}
    (hh : ∀ p ∈ hs, p.2.Sound S.store strict) : Sound system strict G { S with handles := hs } :=
  ⟨h.store, h.ledger, hh, h.chores⟩

theorem Sound.put (h : S.Sound system strict G) (name : Name) {hd : Handle}
    (hs : hd.Sound S.store strict) :
    Sound system strict G { S with handles := S.handles.put name hd } := by
  refine h.setHandles fun p hp => ?_
  rcases HandleTable.mem_put hp with rfl | hp
  · exact hs
  · exact h.handles p hp

theorem Sound.renamed (h : S.Sound system strict G) (name : Name) {hd : Handle}
    (hs : hd.Sound S.store strict) : (S.renamed name hd).Sound system strict G := by
  unfold Session.renamed
  cases hf : S.handles.find? name with
  | none => exact (h.put name hs).leave (fun _ hc => by cases hc) rfl
  | some old => exact (h.put name hs).discard (h.find hf)

theorem Sound.kept (h : S.Sound system strict G) (name? : Option Name) {hd : Handle}
    (hs : hd.Sound S.store strict) : (S.kept name? hd).Sound system strict G := by
  cases name? with
  | none => exact h.discard hs
  | some name => exact h.renamed name hs

theorem Sound.erase (h : S.Sound system strict G) (name : Name) :
    Sound system strict G { S with handles := S.handles.erase name } :=
  h.setHandles fun p hp => h.handles p (HandleTable.mem_of_mem_erase hp)

theorem Sound.lost (h : S.Sound system strict G) (name : Name) :
    (S.lost name).Sound system strict G := by
  unfold Session.lost
  split
  next old hf => exact (h.erase name).discard (h.find hf)
  next => exact h

end Session
end ScopedMemory
