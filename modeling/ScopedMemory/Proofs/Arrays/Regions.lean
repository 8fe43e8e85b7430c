import ScopedMemory.Proofs.Arrays.Calls

namespace ScopedMemory

open Turn

variable {system : SystemAllocator} {strict : Prop} {G : List Region} {A : ArrayStore}
  {S : Session} {ctx : Context}

theorem Store.alive_of_checkAccess {σ : Store} {t : Thread} {r : Region} {offset length : Word}
    (h : σ.checkAccess t r offset length = .ok ()) :
    σ.IsAlive r.scope ∧ r.Spans offset length ∧
      (r.start + offset).toNat = r.start.toNat + offset.toNat := by
  obtain ⟨hu, hs⟩ := checkAccess_eq_ok_iff.mp h
  exact ⟨(checkUsable_eq_ok_iff.mp hu).2, hs, Region.toNat_start_narrow hs⟩

/-- What a checked write does, over the natural numbers. -/
def Store.Wrote (σ : Store) (r : Region) (offset : Word) (bytes : Bytes) (τ : Store) : Prop :=
  σ.IsAlive r.scope ∧ offset.toNat + bytes.length ≤ r.size.toNat ∧
    τ = σ.setMemory (σ.memory.write (r.start.toNat + offset.toNat) bytes)

theorem Store.wrote_of_checkWrite {σ τ : Store} {t : Thread} {r : Region} {offset : Word}
    {bytes : Bytes} (h : σ.checkWrite t r offset bytes.length = .ok ())
    (hτ : τ = σ.setMemory (σ.memory.write (r.start + offset).toNat bytes)) :
    σ.Wrote r offset bytes τ := by
  obtain ⟨hu, hfit, hend⟩ := checkWrite_eq_ok_iff.mp h
  have hn : (r.start + offset).toNat = r.start.toNat + offset.toNat := by
    rw [UInt64.toNat_add]
    omega
  exact ⟨(checkUsable_eq_ok_iff.mp hu).2, hfit, by rw [hτ, hn]⟩

namespace Session.Mirrors

/-! A region is looked up for something that can fail only without any change. -/

theorem leads_reading {α : Type} (h : S.Mirrors G A) (name : Name) (x : Region → Operation α)
    (f : α → Reply)
    (hx : ∀ r, (x r).Leads ctx S.store (fun _ τ => τ = S.store) (· = S.store)) :
    (do
      let p ← find Session.region? name
      return f (← lift (x p.1)) : Turn Reply).Leads ctx S (fun _ T => T.Mirrors G A)
        fun T => ∀ _ : Refusal, T.Mirrors G A := by
  refine leads_bind_find (fun _ => h) fun p hn => ?_
  obtain ⟨r, adopted⟩ := p
  refine (leads_lift (hx r)).chain (fun U hU _ => h.of_same hU) fun a U hU => ?_
  exact leads_pure (h.of_same hU)

theorem leads_writing (h : S.Mirrors G A) (hl : S.store.Ledger G) (name : Name)
    (x : Region → Operation Unit) {offset : Word} {bytes : Bytes}
    (hx : ∀ r, (x r).Leads ctx S.store (fun _ τ => S.store.Wrote r offset bytes τ)
      (· = S.store)) :
    (do
      let p ← find Session.region? name
      lift (x p.1)
      return .done : Turn Reply).Leads ctx S
        (fun _ T => T.Mirrors G (A.writeTo name offset.toNat bytes))
        fun T => ∀ _ : Refusal, T.Mirrors G A := by
  refine leads_bind_find (fun _ => h) fun p hn => ?_
  obtain ⟨r, adopted⟩ := p
  obtain ⟨v, hv, hd⟩ := h.of_region? hn
  refine (leads_lift (hx r)).chain (fun U hU _ => h.of_same hU) fun _ U hU => ?_
  obtain ⟨τ, ⟨ha, hfit, rfl⟩, rfl⟩ := hU
  apply leads_pure
  unfold ArrayStore.writeTo
  rw [hv]
  exact h.write hl hd ha hfit

theorem leads_viewing (h : S.Mirrors G A) (name : Name) (name? : Option Name)
    (x : Region → Operation Region) (f : View → View)
    (hx : ∀ r v, v.Denotes G r → (x r).Leads ctx S.store
      (fun r' τ => τ = S.store ∧ (f v).Denotes G r') (· = S.store)) :
    (do
      let p ← find Session.region? name
      keepRegion name? p.2 (← lift (x p.1)) : Turn Reply).Leads ctx S
        (fun _ T => T.Mirrors G (A.keep name? ((A.named name).map f)))
        fun T => ∀ _ : Refusal, T.Mirrors G A := by
  refine leads_bind_find (fun _ => h) fun p hn => ?_
  obtain ⟨r, adopted⟩ := p
  obtain ⟨v, hv, hd⟩ := h.of_region? hn
  refine (leads_lift (hx r v hd)).chain (fun U hU _ => h.of_same hU) fun r' U hU => ?_
  obtain ⟨τ, ⟨rfl, hd'⟩, rfl⟩ := hU
  refine leads_keepRegion.imp (fun _ V hV => ?_) fun _ hf => hf.elim
  rw [hV.2, hv]
  exact h.kept name? hd'

/-- All of a region is all of its part. -/
theorem read_all (h : S.Mirrors G A) {v : View} {r : Region} (hd : v.Denotes G r)
    (ha : S.store.IsAlive r.scope) :
    S.store.memory.read r.start.toNat r.size.toNat = A.contents v := by
  have hread : S.store.memory.read (r.start.toNat + 0) r.size.toNat = _ :=
    h.store.read hd ha (by omega)
  obtain ⟨_, _, _, _, hsize, _⟩ := hd
  rw [hsize] at hread ⊢
  exact hread

end Session.Mirrors

namespace RegionCall

theorem replays_slice (h : S.Mirrors G A) (region : Name) (offset length : Word)
    (name? : Option Name) :
    (Call.region (.slice region offset length name?)).Replays ctx S G A := by
  apply Call.replays_of rfl
  refine h.leads_viewing region name? (·.slice offset length) _ fun r v hd => ?_
  refine Region.leads_slice.imp (fun r' τ hr => ?_) fun _ h => h
  obtain ⟨ha, rfl, rfl⟩ := hr
  exact ⟨rfl, hd.narrow (Store.alive_of_checkAccess ha).2.1⟩

theorem replays_sliceFrom (h : S.Mirrors G A) (region : Name) (offset : Word)
    (name? : Option Name) :
    (Call.region (.sliceFrom region offset name?)).Replays ctx S G A := by
  apply Call.replays_of rfl
  refine h.leads_viewing region name? (·.sliceFrom offset) _ fun r v hd => ?_
  refine Region.leads_sliceFrom.imp (fun r' τ hr => ?_) fun _ h => h
  obtain ⟨length, hlen, ha, rfl, rfl⟩ := hr
  have hnarrow := hd.narrow (Store.alive_of_checkAccess ha).2.1
  obtain ⟨_, _, _, _, hsize, _⟩ := hd
  have hsub : v.length - offset.toNat = length.toNat := by
    have := Word.sub?_eq_some_iff.mp hlen
    omega
  refine ⟨rfl, ?_⟩
  rw [hsub]
  exact hnarrow

theorem replays_contents (h : S.Mirrors G A) (region : Name) :
    (Call.region (.contents region)).Replays ctx S G A := by
  apply Call.replays_of rfl
  refine leads_bind_find (fun _ => h) fun p hn => ?_
  obtain ⟨r, adopted⟩ := p
  refine (leads_lift (Region.leads_contents.imp (fun _ τ hr => hr.2) fun _ h => h)).chain
    (fun _ hT _ => h.of_same hT) fun bytes? U hU => ?_
  obtain ⟨τ, rfl, rfl⟩ := hU
  cases bytes? with
  | some bytes => exact leads_pure h
  | none => exact leads_throw fun _ => h

theorem replays_setAddress (h : S.Mirrors G A) (hl : S.store.Ledger G) (value : Word)
    (region : Name) (layout : Layout) (offset : Word) :
    (Call.region (.setAddress value region layout offset)).Replays ctx S G A := by
  apply Call.replays_of rfl
  have hset : ∀ bytes, Region.addressBytes layout value = .ok bytes → ∀ r : Region,
      (r.setAddress layout offset value).Leads ctx S.store
        (fun _ τ => S.store.Wrote r offset bytes τ) (· = S.store) := by
    intro bytes hb r
    refine Region.leads_setAddress.imp (fun _ τ hr => ?_) fun _ h => h
    obtain ⟨bytes', hb', hc, hτ⟩ := hr
    cases hb.symm.trans hb'
    exact Store.wrote_of_checkWrite hc hτ
  cases hb : Region.addressBytes layout value with
  | ok bytes =>
    have hw := h.leads_writing hl region (·.setAddress layout offset value) (hset bytes hb)
    refine hw.imp (fun reply T hT => ?_) fun _ h => h
    simp only [Call.replay, RegionCall.replay, hb]
    exact hT
  | error e =>
    refine leads_bind_find (fun _ => h) fun p hn => ?_
    obtain ⟨r, adopted⟩ := p
    refine (leads_lift Region.leads_setAddress).chain (fun _ hT _ => h.of_same hT) fun _ U hU => ?_
    obtain ⟨τ, ⟨bytes, hb', _⟩, _⟩ := hU
    cases hb.symm.trans hb'

theorem replays_copyFrom (h : S.Mirrors G A) (hl : S.store.Ledger G) (region source : Name) :
    (Call.region (.copyFrom region source)).Replays ctx S G A := by
  apply Call.replays_of rfl
  refine leads_bind_find (fun _ => h) fun p hn => ?_
  obtain ⟨r, adopted⟩ := p
  refine leads_bind_find (fun _ => h) fun q hn' => ?_
  obtain ⟨src, adopted'⟩ := q
  obtain ⟨v, hv, hd⟩ := h.of_region? hn
  obtain ⟨w, hw, hd'⟩ := h.of_region? hn'
  refine (leads_lift Region.leads_copyFrom).chain (fun _ hT _ => h.of_same hT) fun _ U hU => ?_
  obtain ⟨τ, ⟨hc', hc, rfl⟩, rfl⟩ := hU
  obtain ⟨ha', _⟩ := Store.alive_of_checkAccess hc'
  obtain ⟨ha, hs, _⟩ := Store.alive_of_checkAccess hc
  have hbytes := h.read_all hd' ha'
  have hlen : (A.contents w).length = src.size.toNat := by
    rw [← hbytes, Memory.length_read]
  have hfit : 0 + (A.contents w).length ≤ r.size.toNat := by
    have := hs.1
    rw [hlen]
    exact this
  apply leads_pure
  simp only [Call.replay, RegionCall.replay, hw, ArrayStore.writeTo, hv, hbytes]
  exact h.write hl hd ha hfit

theorem replays_fill (h : S.Mirrors G A) (hl : S.store.Ledger G) (region : Name)
    (value : UInt8) : (Call.region (.fill region value)).Replays ctx S G A := by
  apply Call.replays_of rfl
  refine leads_bind_find (fun _ => h) fun p hn => ?_
  obtain ⟨r, adopted⟩ := p
  obtain ⟨v, hv, hd⟩ := h.of_region? hn
  refine (leads_lift Region.leads_fill).chain (fun _ hT _ => h.of_same hT) fun _ U hU => ?_
  obtain ⟨τ, ⟨hc, rfl⟩, rfl⟩ := hU
  apply leads_pure
  simp only [Call.replay, RegionCall.replay, hv]
  exact h.fill hl hd (Store.alive_of_checkAccess hc).1 value


theorem replays (h : S.Mirrors G A) (hS : S.Sound system strict G) (c : RegionCall)
    (hp : (Call.region c).Plain) : (Call.region c).Replays ctx S G A := by
  have hl := hS.ledger
  cases c with
  | adopt => exact hp.elim
  | slice region offset length name? => exact replays_slice h region offset length name?
  | sliceFrom region offset name? => exact replays_sliceFrom h region offset name?
  | belongs region scope =>
    apply Call.replays_of rfl
    refine leads_bind_find (fun _ => h) fun p _ => ?_
    exact leads_bind_find (fun _ => h) fun s _ => leads_pure h
  | read length region offset =>
    apply Call.replays_of rfl
    exact h.leads_reading region (·.read offset length) .bytes fun r =>
      Region.leads_read.imp (fun _ τ hr => hr.2.2) fun _ h => h
  | get layout offset type region =>
    apply Call.replays_of rfl
    exact h.leads_reading region (·.get type layout offset) .scalar fun r =>
      Region.leads_get.imp (fun _ τ hr => hr.2.2) fun _ h => h
  | getAddress region layout offset =>
    apply Call.replays_of rfl
    refine h.leads_reading region (·.getAddress layout offset) .address fun r =>
      Region.leads_getAddress.imp (fun _ τ hr => ?_) fun _ h => h
    obtain ⟨_, _, _, _, hτ⟩ := hr
    exact hτ
  | contents region => exact replays_contents h region
  | write region offset bytes =>
    apply Call.replays_of rfl
    exact h.leads_writing hl region (·.write offset bytes) fun r =>
      Region.leads_write.imp (fun _ τ hr => Store.wrote_of_checkWrite hr.1 hr.2) fun _ h => h
  | set layout offset region value =>
    apply Call.replays_of rfl
    exact h.leads_writing hl region (·.set layout offset value) fun r =>
      Region.leads_set.imp (fun _ τ hr => Store.wrote_of_checkWrite hr.2.1 hr.2.2) fun _ h => h
  | setAddress value region layout offset =>
    exact replays_setAddress h hl value region layout offset
  | copyFrom region source => exact replays_copyFrom h hl region source
  | fill region value => exact replays_fill h hl region value

end RegionCall

theorem Session.Mirrors.read (h : S.Mirrors G A) {v : View} {r : Region} (hd : v.Denotes G r)
    {t : Thread} {offset length : Word} (hc : S.store.checkAccess t r offset length = .ok ()) :
    S.store.memory.read (r.start + offset).toNat length.toNat =
      A.contents (v.narrow offset.toNat length.toNat) := by
  obtain ⟨ha, hs, hn⟩ := Store.alive_of_checkAccess hc
  rw [hn]
  exact h.store.read hd ha hs.1

/-- A call that looks one region up and reads from it answers by the array of the region. -/
theorem Session.Mirrors.leads_find (h : S.Mirrors G A) {α : Type} (name : Name)
    (x : Region → Operation α) (f : α → Reply) (e : View → Option Reply)
    (hx : ∀ r v, v.Denotes G r →
      (x r).Leads ctx S.store (fun a _ => e v = some (f a)) fun _ => True) :
    (do
      let p ← find Session.region? name
      return f (← lift (x p.1)) : Turn Reply).Leads ctx S
        (fun reply _ => ∃ v, A.named name = some v ∧ e v = some reply) fun _ => True := by
  refine leads_bind_find trivial fun p hn => ?_
  obtain ⟨r, adopted⟩ := p
  obtain ⟨v, hv, hd⟩ := h.of_region? hn
  refine (leads_lift (hx r v hd)).chain (fun _ _ => trivial) fun a U hU => ?_
  obtain ⟨τ, he, rfl⟩ := hU
  exact leads_pure ⟨v, hv, he⟩

namespace RegionCall

/-- What the call answers is what the arrays say. -/
def Answers (A : ArrayStore) (ctx : Context) (S : Session) (c : RegionCall) : Prop :=
  c.perform.Leads ctx S (fun reply _ => c.expected A = some reply) fun _ => True

theorem answers_read (h : S.Mirrors G A) (length : Word) (region : Name) (offset : Word) :
    Answers A ctx S (.read length region offset) := by
  refine (h.leads_find region (·.read offset length) .bytes
    (fun v => some (.bytes (A.contents (v.narrow offset.toNat length.toNat)))) fun r v hd =>
      Region.leads_read.imp (fun bytes τ hr => ?_) fun _ _ => trivial).imp
    (fun reply T hT => ?_) fun _ h => h
  · rw [hr.2.1, h.read hd hr.1]
  · obtain ⟨v, hv, he⟩ := hT
    simp only [RegionCall.expected, hv, Option.map_some]
    exact he

theorem answers_get (h : S.Mirrors G A) (layout : Layout) (offset : Word) (type : ScalarType)
    (region : Name) : Answers A ctx S (.get layout offset type region) := by
  have hsize : (UInt64.ofNat type.size).toNat = type.size := by
    cases type <;> rfl
  refine (h.leads_find region (·.get type layout offset) .scalar
    (fun v => some (.scalar (.decode type layout.order
      (A.contents (v.narrow offset.toNat type.size))))) fun r v hd =>
        Region.leads_get.imp (fun x τ hr => ?_) fun _ _ => trivial).imp
    (fun reply T hT => ?_) fun _ h => h
  · have hbytes := h.read hd hr.1
    rw [hsize] at hbytes
    rw [hr.2.1, hsize, hbytes]
  · obtain ⟨v, hv, he⟩ := hT
    simp only [RegionCall.expected, hv, Option.map_some]
    exact he

theorem answers_getAddress (h : S.Mirrors G A) (region : Name) (layout : Layout)
    (offset : Word) : Answers A ctx S (.getAddress region layout offset) := by
  refine (h.leads_find region (·.getAddress layout offset) .address
    (fun v => (Region.addressWidth layout).toOption.map fun w =>
      .address (Address.decode layout.order (A.contents (v.narrow offset.toNat w.bytes))))
      fun r v hd =>
        Region.leads_getAddress.imp (fun x τ hr => ?_) fun _ _ => trivial).imp
    (fun reply T hT => ?_) fun _ h => h
  · obtain ⟨w, hw, ha, rfl, _⟩ := hr
    have hsize : (UInt64.ofNat w.bytes).toNat = w.bytes := by
      cases w <;> rfl
    have hbytes := h.read hd ha
    rw [hsize] at hbytes
    simp only [hw, Except.toOption, Option.map_some, hsize, hbytes]
  · obtain ⟨v, hv, he⟩ := hT
    simp only [RegionCall.expected, hv]
    cases hw : Region.addressWidth layout with
    | ok w =>
      rw [hw] at he
      exact he
    | error e =>
      rw [hw] at he
      cases he

theorem answers_contents (h : S.Mirrors G A) (region : Name) :
    Answers A ctx S (.contents region) := by
  refine leads_bind_find trivial fun p hn => ?_
  obtain ⟨r, adopted⟩ := p
  obtain ⟨v, hv, hd⟩ := h.of_region? hn
  refine (leads_lift Region.leads_contents).chain (fun _ _ => trivial) fun bytes? U hU => ?_
  obtain ⟨τ, ⟨hb, _⟩, rfl⟩ := hU
  cases bytes? with
  | none => exact leads_throw trivial
  | some bytes =>
    obtain ⟨hc, rfl⟩ := hb bytes rfl
    have hbytes := h.read hd hc
    rw [UInt64.add_zero] at hbytes
    obtain ⟨_, _, _, _, hsize, _⟩ := hd
    apply leads_pure
    simp only [RegionCall.expected, hv, Option.map_some, hbytes]
    rw [hsize]
    rfl

theorem answers (h : S.Mirrors G A) (c : RegionCall) (hc : c.Reads) : c.Answers A ctx S := by
  cases c with
  | read length region offset => exact answers_read h length region offset
  | get layout offset type region => exact answers_get h layout offset type region
  | getAddress region layout offset => exact answers_getAddress h region layout offset
  | contents region => exact answers_contents h region
  | _ => exact hc.elim

end RegionCall

end ScopedMemory
