import ScopedMemory.Proofs.Arrays.Mirror

namespace ScopedMemory

/-- The region that a handle stands for or recycles. -/
def Handle.region? : Handle → Option Region
  | region r _ => some r
  | allocator (.recycling r) => some r
  | _ => none

/-- The part, if there is one, is that of the region. -/
def View.Stands (G : List Region) : Option View → Option Region → Prop
  | some v, some r => v.Denotes G r
  | none, none => True
  | _, _ => False

theorem View.Stands.append {G : List Region} {v? : Option View} {r? : Option Region}
    (h : View.Stands G v? r?) (rs : List Region) : View.Stands (G ++ rs) v? r? := by
  cases v? with
  | none =>
    cases r? with
    | none => trivial
    | some r => exact h.elim
  | some v =>
    cases r? with
    | none => exact h.elim
    | some r => exact View.Denotes.append h rs

theorem View.Stands.of_some {G : List Region} {v? : Option View} {r : Region}
    (h : View.Stands G v? (some r)) : ∃ v, v? = some v ∧ v.Denotes G r := by
  cases v? with
  | none => exact h.elim
  | some v => exact ⟨v, rfl, h⟩

theorem View.Stands.of_none {G : List Region} {v? : Option View}
    (h : View.Stands G v? none) : v? = none := by
  cases v? with
  | none => rfl
  | some v => exact h.elim

def PendingAction.Mirrors (p : PendingAction) (G : List Region) (A : ArrayStore) : Prop :=
  ∀ r, p.action.region? = some r → ∃ v, A.targets p.ticket = some v ∧ v.Denotes G r

def Chore.Mirrors (G : List Region) (A : ArrayStore) : Chore → Prop
  | perform p => p.Mirrors G A
  | _ => True

structure Session.Mirrors (S : Session) (G : List Region) (A : ArrayStore) : Prop where
  store : S.store.Mirrors G A.arrays
  named : ∀ name, View.Stands G (A.named name) ((S.handles.find? name).bind Handle.region?)
  actions : ∀ s, ∀ p ∈ (S.store.scope s).actions, p.Mirrors G A
  chores : ∀ c ∈ S.chores, c.Mirrors G A

namespace Session

variable {system : SystemAllocator} {strict : Prop} {G rs : List Region} {A : ArrayStore}
  {σ τ : Store} {S : Session}

theorem mirrors_initial : Session.initial.Mirrors [] .empty where
  store :=
    { length := rfl
      cells := fun i g hg => by cases hg
      clean := fun a _ x hx => absurd (Store.lt_length_of_free hx) (Nat.not_lt_zero a) }
  named _ := trivial
  actions s p hp := by
    have hs : Session.initial.Sound TwinHeaps.system False [] := Session.sound_initial
    cases (hs.store.actions s p hp).1
  chores _ hc := by cases hc

theorem Mirrors.append_chores (h : S.Mirrors G A) {chores : List Chore}
    (hc : ∀ c ∈ chores, c.Mirrors G A) :
    Session.Mirrors { S with chores := S.chores ++ chores } G A where
  store := h.store
  named := h.named
  actions := h.actions
  chores c hm := (List.mem_append.mp hm).elim (h.chores c) (hc c)

theorem mirrors_dropChores (hd : Handle) (σ : Store) :
    ∀ c ∈ hd.dropChores σ, c.Mirrors G A := by
  have hlet : ∀ c ∈ (hd.scopes σ).map Chore.letGo, c.Mirrors G A := by
    intro c hc
    obtain ⟨s, _, rfl⟩ := List.mem_map.mp hc
    trivial
  cases hd with
  | guard s =>
    intro c hc
    rcases List.mem_cons.mp hc with rfl | hc
    · trivial
    · obtain rfl := List.mem_singleton.mp hc
      trivial
  | _ => exact hlet

theorem Mirrors.discard (h : S.Mirrors G A) (hd : Handle) :
    Session.Mirrors { S with chores := S.chores ++ hd.dropChores S.store } G A :=
  h.append_chores (mirrors_dropChores hd S.store)

theorem Mirrors.put (h : S.Mirrors G A) (name : Name) {hd : Handle} {v? : Option View}
    (hv : View.Stands G v? hd.region?) :
    Session.Mirrors { S with handles := S.handles.put name hd } G (A.bind name v?) where
  store := h.store
  named other := by
    rw [HandleTable.find?_put]
    unfold ArrayStore.bind
    dsimp only
    split
    next => exact hv
    next => exact h.named other
  actions := h.actions
  chores := h.chores

theorem Mirrors.erase (h : S.Mirrors G A) (name : Name) :
    Session.Mirrors { S with handles := S.handles.erase name } G (A.bind name none) where
  store := h.store
  named other := by
    rw [HandleTable.find?_erase]
    unfold ArrayStore.bind
    dsimp only
    split
    next => trivial
    next => exact h.named other
  actions := h.actions
  chores := h.chores

theorem Mirrors.renamed (h : S.Mirrors G A) (name : Name) {hd : Handle} {v? : Option View}
    (hv : View.Stands G v? hd.region?) : (S.renamed name hd).Mirrors G (A.bind name v?) := by
  unfold Session.renamed
  cases S.handles.find? name with
  | none => exact (h.put name hv).append_chores fun _ hc => by cases hc
  | some old => exact (h.put name hv).discard old

theorem Mirrors.kept (h : S.Mirrors G A) (name? : Option Name) {hd : Handle} {v? : Option View}
    (hv : View.Stands G v? hd.region?) : (S.kept name? hd).Mirrors G (A.keep name? v?) := by
  cases name? with
  | none => exact h.discard hd
  | some name => exact h.renamed name hv

theorem Mirrors.lost (h : S.Mirrors G A) (name : Name) :
    (S.lost name).Mirrors G (A.bind name none) := by
  unfold Session.lost
  cases hf : S.handles.find? name with
  | some old => exact (h.erase name).discard old
  | none =>
    refine ⟨h.store, fun other => ?_, h.actions, h.chores⟩
    unfold ArrayStore.bind
    dsimp only
    split
    next he =>
      rw [he, hf]
      trivial
    next => exact h.named other

theorem Mirrors.setStore {arrays : List Bytes} (h : S.Mirrors G A)
    (hτ : τ.Mirrors (G ++ rs) arrays)
    (ha : ∀ s, ∀ p ∈ (τ.scope s).actions, p ∈ (S.store.scope s).actions) :
    Session.Mirrors { S with store := τ } (G ++ rs) { A with arrays } := by
  have happ : ∀ p : PendingAction, p.Mirrors G A → p.Mirrors (G ++ rs) { A with arrays } := by
    intro p hp r hr
    obtain ⟨v, hv, hd⟩ := hp r hr
    exact ⟨v, hv, hd.append rs⟩
  refine ⟨hτ, fun name => (h.named name).append rs, fun s p hp => ?_, fun c hc => ?_⟩
  · exact happ p (h.actions s p (ha s p hp))
  · have hc' := h.chores c hc
    cases c with
    | perform p => exact happ p hc'
    | _ => trivial

end Session

theorem Store.Change.actions {system : SystemAllocator} {rs : List Region} {σ τ : Store}
    (h : Change system σ rs τ) (s : ScopeId) :
    ∀ p ∈ (τ.scope s).actions, p ∈ (σ.scope s).actions := by
  have hblock : ∀ (t : ScopeId) (b : Block), ∀ p ∈ ((σ.addBlock t b).scope s).actions,
      p ∈ (σ.scope s).actions := by
    intro t b p hp
    rw [scope_addBlock] at hp
    split at hp
    next he => exact he.1 ▸ hp
    next => exact hp
  intro p hp
  cases h with
  | scope kind t =>
    rw [scope_addScope] at hp
    split at hp
    next => cases hp
    next => exact hp
  | block => exact hblock _ _ p hp
  | install => exact hblock _ _ p hp
  | arena => exact hp
  | carve => exact hp
  | stats => exact hp

theorem Store.Changes.actions {system : SystemAllocator} {writes : Prop} {rs : List Region}
    {σ τ : Store} (h : Changes system writes σ rs τ) (s : ScopeId) :
    ∀ p ∈ (τ.scope s).actions, p ∈ (σ.scope s).actions := by
  induction h with
  | refl => exact fun _ hp => hp
  | change _ hc ih => exact fun p hp => ih p (hc.actions s p hp)
  | memory _ _ m ih => exact ih

namespace Session

variable {system : SystemAllocator} {strict : Prop} {G rs : List Region} {A : ArrayStore}
  {τ : Store} {S : Session} {v : View} {r : Region}

theorem Mirrors.changes (h : S.Mirrors G A) (hS : S.Sound system strict G)
    (hsep : system.Separate) (hc : S.store.Changes system False rs τ) :
    Session.Mirrors { S with store := τ } (G ++ rs) (A.extend (rs.map (·.size.toNat))) :=
  h.setStore (h.store.changes hsep hS.store hS.ledger hc) hc.actions

/-- Regions that nobody is told of are no arrays. -/
theorem Mirrors.unseen (h : S.Mirrors G A) (hS : S.Sound system strict G)
    (hsep : system.Separate) (hc : S.store.Changes system False rs τ) :
    Session.Mirrors { S with store := τ } G A := by
  have hτ := (h.store.changes hsep hS.store hS.ledger hc).of_append h.store.length
  have ht : τ.Mirrors (G ++ []) A.arrays := by rwa [List.append_nil]
  have hT := h.setStore ht hc.actions
  rwa [List.append_nil] at hT

theorem Mirrors.write (h : S.Mirrors G A) (hl : S.store.Ledger G) (hv : v.Denotes G r)
    (ha : S.store.IsAlive r.scope) {offset : Nat} {bytes : Bytes}
    (hfit : offset + bytes.length ≤ r.size.toNat) :
    Session.Mirrors
      { S with store := S.store.setMemory (S.store.memory.write (r.start.toNat + offset) bytes) }
      G (A.write v offset bytes) := by
  have ht := h.store.write hl hv ha hfit
  rw [← List.append_nil G] at ht
  have hT := h.setStore ht fun _ _ hp => hp
  rwa [List.append_nil] at hT

theorem Mirrors.fill (h : S.Mirrors G A) (hl : S.store.Ledger G) (hv : v.Denotes G r)
    (ha : S.store.IsAlive r.scope) (value : UInt8) :
    Session.Mirrors
      { S with
        store := S.store.setMemory (S.store.memory.fill r.start.toNat r.size.toNat value) }
      G (A.write v 0 (.replicate v.length value)) := by
  have hsize : r.size.toNat = v.length := by
    obtain ⟨_, _, _, _, hsize, _⟩ := hv
    exact hsize
  have hfit : 0 + (List.replicate v.length value).length ≤ r.size.toNat := by
    rw [List.length_replicate]
    omega
  rw [hsize, Memory.fill_eq_write]
  exact h.write hl hv ha hfit

/-- An update that leaves memory and arenas as they are, without new actions. -/
theorem Mirrors.later (h : S.Mirrors G A) (hS : S.Sound system strict G)
    (hl : S.store.Later τ) (hm : τ.memory = S.store.memory) (har : τ.arenas = S.store.arenas)
    (ha : ∀ s, ∀ p ∈ (τ.scope s).actions, p ∈ (S.store.scope s).actions) :
    Session.Mirrors { S with store := τ } G A := by
  have ht := h.store.later hS.store hS.ledger hl hm har
  rw [← List.append_nil G] at ht
  have hT := h.setStore ht ha
  rwa [List.append_nil] at hT

theorem Mirrors.release (h : S.Mirrors G A) (firstNew : Nat) :
    (S.release firstNew).Mirrors G A := by
  refine h.append_chores fun c hc => ?_
  obtain ⟨s, _, rfl⟩ := List.mem_map.mp hc
  trivial

/-! ### What names stand for -/

theorem Mirrors.of_region? (h : S.Mirrors G A) {name : Name} {r : Region} {adopted : Bool}
    (hf : S.region? name = some (r, adopted)) :
    ∃ v, A.named name = some v ∧ v.Denotes G r := by
  have hn := h.named name
  unfold region? at hf
  split at hf
  next he =>
    cases hf
    rw [he] at hn
    exact hn.of_some
  next => cases hf

theorem Mirrors.of_allocator? (h : S.Mirrors G A) {name : Name} {w : Allocator}
    (hf : S.allocator? name = some w) :
    (w.IsFresh ∧ A.named name = none) ∨
      ∃ r v, w = .recycling r ∧ A.named name = some v ∧ v.Denotes G r := by
  have hn := h.named name
  obtain ⟨hd, he, hw⟩ := Option.bind_eq_some_iff.mp hf
  rw [he, Option.bind_some] at hn
  cases hd with
  | scope s =>
    cases hw
    exact Or.inl ⟨trivial, hn.of_none⟩
  | arena a access =>
    cases hw
    exact Or.inl ⟨trivial, hn.of_none⟩
  | allocator w =>
    cases hw
    cases w with
    | recycling r =>
      obtain ⟨v, hv, hd⟩ := hn.of_some
      exact Or.inr ⟨r, v, rfl, hv, hd⟩
    | _ => exact Or.inl ⟨trivial, hn.of_none⟩
  | _ => cases hw

end Session
end ScopedMemory
