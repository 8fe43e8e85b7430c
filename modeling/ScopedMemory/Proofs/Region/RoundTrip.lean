import ScopedMemory.Heap.TwinHeaps
import ScopedMemory.Proofs.Region.Values

namespace ScopedMemory

open Operation

variable {d : Datum} {t : DatumType} {l l' : Layout} {m m' : Memory} {x n : Nat} {r : Region}
  {offset : Word} {ctx reader : Context} {σ τ : Store}

/-! ### A datum in memory -/

namespace Datum

theorem standsAt_write (d : Datum) (l : Layout) (m : Memory) (x : Nat) :
    d.StandsAt x l (m.write x (l.order.encode l.size.toNat d.number)) := by
  intro j hj
  rw [Memory.byte_write, if_pos (Nat.le_add_right _ _), Nat.add_sub_cancel_left,
    ByteOrder.getElem?_encode, if_pos hj, Option.getD_some]
  rfl

theorem StandsAt.congr (h : d.StandsAt x l m)
    (hm : ∀ y, x ≤ y → y < x + l.size.toNat → m'.byte y = m.byte y) : d.StandsAt x l m' := by
  intro j hj
  rw [hm (x + j) (Nat.le_add_right _ _) (Nat.add_lt_add_left hj _)]
  exact h j hj

theorem StandsAt.read (h : d.StandsAt x l m) :
    m.read x l.size.toNat = l.order.encode l.size.toNat d.number := by
  refine List.ext_getElem? fun j => ?_
  rw [Memory.getElem?_read, ByteOrder.getElem?_encode]
  by_cases hj : j < l.size.toNat
  · rw [if_pos hj, if_pos hj, h j hj]
    rfl
  · rw [if_neg hj, if_neg hj]

theorem StandsAt.decode (h : d.StandsAt x l m) (hfits : d.Fits l) :
    d.type.ofNumber (l.order.decode (m.read x l.size.toNat)) = d := by
  obtain ⟨_, hlow⟩ := fits_iff.mp hfits
  rw [h.read, ByteOrder.decode_encode_of_lt _ hlow, ofNumber_number]

end Datum

namespace DatumType

variable (m x)

theorem fits_ofNumber_read (ht : t.Fits l) :
    (t.ofNumber (l.order.decode (m.read x l.size.toNat))).Fits l := by
  have hlow := l.order.decode_lt (m.read x l.size.toNat)
  rw [Memory.length_read] at hlow
  rw [Datum.fits_iff, type_ofNumber, number_ofNumber ht hlow]
  exact ⟨ht, hlow⟩

/-- What is read stands where it was read. -/
theorem standsAt_ofNumber_read (ht : t.Fits l) :
    (t.ofNumber (l.order.decode (m.read x l.size.toNat))).StandsAt x l m := by
  intro j hj
  have hlow := l.order.decode_lt (m.read x l.size.toNat)
  have hj' : j < (m.read x l.size.toNat).length := by rwa [Memory.length_read]
  have hdigit := l.order.getElem?_eq_digit_decode hj'
  rw [Memory.length_read] at hlow hdigit
  rw [Memory.getElem?_read, if_pos hj, Option.some.injEq] at hdigit
  rw [hdigit, Datum.byte, number_ofNumber ht hlow]

end DatumType

namespace Region

theorem run_fetch_of_standsAt (hfits : d.Fits l)
    (ha : σ.checkAccess ctx.caller r offset l.size = .ok ())
    (h : d.StandsAt (r.start + offset).toNat l σ.memory) :
    (r.fetch d.type l offset).run ctx σ = .ok d σ :=
  run_fetch_eq_ok_iff.mpr ⟨(Datum.fits_iff.mp hfits).1, ha, (h.decode hfits).symm, rfl⟩

/-- A layout of the same size in the opposite order reads the bytes from their other end. -/
theorem run_fetch_of_ne (hfits : d.Fits l) (hv : l'.IsValue) (hsize : l'.size = l.size)
    (hne : l'.order ≠ l.order) (ha : σ.checkAccess ctx.caller r offset l.size = .ok ())
    (h : d.StandsAt (r.start + offset).toNat l σ.memory) :
    ∃ d', (r.fetch d.type l' offset).run ctx σ = .ok d' σ ∧ d'.Mirrors d l.size.toNat := by
  have ht : d.type.Fits l' := by
    obtain ⟨_, htype⟩ := (Datum.fits_iff.mp hfits).1
    rw [← hsize] at htype
    exact ⟨hv, htype⟩
  have hstands := DatumType.standsAt_ofNumber_read σ.memory (r.start + offset).toNat ht
  have hlow := (Datum.fits_iff.mp (DatumType.fits_ofNumber_read σ.memory
    (r.start + offset).toNat ht)).2
  refine ⟨_, run_fetch_eq_ok_iff.mpr ⟨ht, by rwa [hsize], rfl, rfl⟩, ?_, ?_, fun i hi => ?_⟩
  · exact DatumType.type_ofNumber ..
  · rwa [← hsize]
  · rw [hsize] at hstands ⊢
    have hj := l'.order.place_lt hi
    have hhere := h (l'.order.place l.size.toNat i) hj
    have hthere := hstands (l'.order.place l.size.toNat i) (by rwa [hsize])
    rw [hsize, ByteOrder.place_place _ hi] at hthere
    rw [ByteOrder.place_of_ne hne] at hhere
    exact hthere.symm.trans hhere

end Region

/-! ### What is put elsewhere -/

/-- Somebody puts a value somewhere. -/
structure Put where
  ctx : Context
  region : Region
  layout : Layout
  offset : Word
  datum : Datum

namespace Put

/-- The store afterwards, also if nothing could be put. -/
def apply (σ : Store) (p : Put) : Store :=
  finalStore ((p.region.put p.layout p.offset p.datum).run p.ctx σ)

/-- None of the `count` bytes from `x` on is in the span. -/
def Avoids (p : Put) (x count : Nat) : Prop :=
  p.region.start.toNat + p.offset.toNat + p.layout.size.toNat ≤ x ∨
    x + count ≤ p.region.start.toNat + p.offset.toNat

theorem apply_eq (p : Put) (σ : Store) :
    ∃ m, p.apply σ = σ.setMemory m ∧
      (p.Avoids x n → ∀ y, x ≤ y → y < x + n → m.byte y = σ.memory.byte y) := by
  unfold apply
  cases hr : (p.region.put p.layout p.offset p.datum).run p.ctx σ with
  | error e τ =>
    have hτ : τ = σ := (leads_iff.mp Region.leads_put).2 e τ hr
    exact ⟨σ.memory, hτ, fun _ _ _ _ => rfl⟩
  | ok u τ =>
    obtain ⟨_, ha, hτ⟩ := Leads.ok Region.leads_put hr
    have hstart := Region.toNat_start_narrow (Store.checkAccess_eq_ok_iff.mp ha).2
    refine ⟨_, hτ, fun havoids y hy hyn => Memory.byte_write_of_not ?_⟩
    change (p.region.start + p.offset).toNat = _ at hstart
    rw [ByteOrder.length_encode, hstart]
    unfold Avoids at havoids
    omega

theorem foldl_apply_eq {puts : List Put} (h : ∀ p ∈ puts, p.Avoids x n) (σ : Store) :
    ∃ m, puts.foldl apply σ = σ.setMemory m ∧
      ∀ y, x ≤ y → y < x + n → m.byte y = σ.memory.byte y := by
  induction puts generalizing σ with
  | nil => exact ⟨σ.memory, rfl, fun _ _ _ => rfl⟩
  | cons p puts ih =>
    obtain ⟨m, hm, hsame⟩ := p.apply_eq σ
    obtain ⟨m', hm', hsame'⟩ := ih (fun q hq => h q (List.mem_cons_of_mem p hq)) (p.apply σ)
    have hp := h p List.mem_cons_self
    rw [hm] at hm' hsame'
    refine ⟨m', ?_, fun y hy hyn => ?_⟩
    · rw [List.foldl_cons, hm]
      exact hm'
    · rw [hsame' y hy hyn]
      exact hsame hp y hy hyn

end Put

/-! ### Round trips -/

namespace Region

theorem of_run_put (h : (r.put l offset d).run ctx σ = .ok ⟨⟩ τ) :
    d.Fits l ∧ r.Spans offset l.size ∧
      τ = σ.setMemory (σ.memory.write (r.start.toNat + offset.toNat)
        (l.order.encode l.size.toNat d.number)) := by
  obtain ⟨hfits, ha, hτ⟩ := Leads.ok leads_put h
  have hspan := (Store.checkAccess_eq_ok_iff.mp ha).2
  have hstart := toNat_start_narrow hspan
  change (r.start + offset).toNat = _ at hstart
  rw [hstart] at hτ
  exact ⟨hfits, hspan, hτ⟩

theorem standsAt_of_run_put (h : (r.put l offset d).run ctx σ = .ok ⟨⟩ τ) :
    d.StandsAt (r.start.toNat + offset.toNat) l τ.memory := by
  obtain ⟨_, _, rfl⟩ := of_run_put h
  exact d.standsAt_write l σ.memory _

/-- What is put at that offset is had back from there, and had from there it is put back. -/
structure RoundTrips (r : Region) (l : Layout) (offset : Word) (ctx : Context) (σ : Store) :
    Prop where
  succeeds : σ.checkUsable ctx.caller r.scope = .ok () → ∀ d : Datum,
    (r.put l offset d).Succeeds ctx σ ↔
      d.Fits l ∧ offset.toNat + l.size.toNat ≤ r.size.toNat ∧
        r.start.toNat + offset.toNat + l.size.toNat < 0x10000000000000000
  failed : ∀ {d e τ}, (r.put l offset d).run ctx σ = .error e τ → τ = σ
  still : ∀ {d τ}, (r.put l offset d).run ctx σ = .ok ⟨⟩ τ → τ = σ.setMemory τ.memory
  stored : ∀ {d τ}, (r.put l offset d).run ctx σ = .ok ⟨⟩ τ →
    d.StandsAt (r.start.toNat + offset.toNat) l τ.memory
  kept : ∀ {d τ}, (r.put l offset d).run ctx σ = .ok ⟨⟩ τ → ∀ x,
    (∀ j < l.size.toNat, x ≠ r.start.toNat + offset.toNat + j) →
      τ.memory.byte x = σ.memory.byte x
  /-- Whatever was put elsewhere in between, everybody who may use the region has the same from
  it. -/
  fetched : ∀ {d τ}, (r.put l offset d).run ctx σ = .ok ⟨⟩ τ → ∀ later : List Put,
    (∀ p ∈ later, p.Avoids (r.start.toNat + offset.toNat) l.size.toNat) →
    ∀ reader : Context, σ.checkUsable reader.caller r.scope = .ok () →
      (r.fetch d.type l offset).run reader (later.foldl Put.apply τ) =
        .ok d (later.foldl Put.apply τ)
  reversed : ∀ {d τ}, (r.put l offset d).run ctx σ = .ok ⟨⟩ τ → ∀ l' : Layout, l'.IsValue →
    l'.size = l.size → l'.order ≠ l.order →
    ∀ reader : Context, σ.checkUsable reader.caller r.scope = .ok () →
      ∃ d', (r.fetch d.type l' offset).run reader τ = .ok d' τ ∧ d'.Mirrors d l.size.toNat
  putBack : ∀ {t d τ}, (r.fetch t l offset).run ctx σ = .ok d τ →
    τ = σ ∧ (r.put l offset d).run ctx σ = .ok ⟨⟩ σ

theorem roundTrips (r : Region) (l : Layout) (offset : Word) (ctx : Context) (σ : Store) :
    r.RoundTrips l offset ctx σ where
  succeeds hu d := by
    constructor
    · rintro ⟨u, τ, hr⟩
      obtain ⟨hfits, hspan, _⟩ := of_run_put hr
      exact ⟨hfits, hspan⟩
    · rintro ⟨hfits, hspan⟩
      exact ⟨⟨⟩, _, run_put_of_fits hfits (Store.checkAccess_eq_ok_iff.mpr ⟨hu, hspan⟩)⟩
  failed h := (leads_iff.mp leads_put).2 _ _ h
  still h := by
    obtain ⟨_, _, rfl⟩ := of_run_put h
    rfl
  stored := standsAt_of_run_put
  kept h x hx := by
    obtain ⟨_, _, rfl⟩ := of_run_put h
    refine Memory.byte_write_of_not fun hin => ?_
    rw [ByteOrder.length_encode] at hin
    exact hx (x - (r.start.toNat + offset.toNat)) (by omega) (by omega)
  fetched {d τ} h later havoids reader hreader := by
    obtain ⟨hfits, hspan, hτ⟩ := of_run_put h
    obtain ⟨m, hm, hsame⟩ := Put.foldl_apply_eq havoids τ
    have hstart := toNat_start_narrow hspan
    have hstands := standsAt_of_run_put h
    have ha : σ.checkAccess reader.caller r offset l.size = .ok () :=
      Store.checkAccess_eq_ok_iff.mpr ⟨hreader, hspan⟩
    rw [hm]
    refine run_fetch_of_standsAt hfits (by rw [hτ]; exact ha) ?_
    change d.StandsAt (r.narrow offset l.size).start.toNat l m
    rw [hstart]
    exact hstands.congr hsame
  reversed {d τ} h l' hv hsize hne reader hreader := by
    obtain ⟨hfits, hspan, hτ⟩ := of_run_put h
    have hstart := toNat_start_narrow hspan
    have ha : σ.checkAccess reader.caller r offset l.size = .ok () :=
      Store.checkAccess_eq_ok_iff.mpr ⟨hreader, hspan⟩
    refine run_fetch_of_ne hfits hv hsize hne (by rw [hτ]; exact ha) ?_
    change d.StandsAt (r.narrow offset l.size).start.toNat l τ.memory
    rw [hstart]
    exact standsAt_of_run_put h
  putBack {t d τ} h := by
    obtain ⟨ht, ha, rfl, rfl⟩ := run_fetch_eq_ok_iff.mp h
    have hfits := DatumType.fits_ofNumber_read τ.memory (r.start + offset).toNat ht
    have hstands := DatumType.standsAt_ofNumber_read τ.memory (r.start + offset).toNat ht
    refine ⟨rfl, ?_⟩
    rw [run_put_of_fits hfits ha, ← hstands.read, Memory.write_read_self]
    rfl

/-- Four bytes at an odd address hold the bits of any number, but not those of an address that has
five bytes. -/
theorem nan_roundTrips :
    let ctx : Context := ⟨0, TwinHeaps.system⟩
    let r : Region := ⟨0x1000, 16, 0⟩
    let big : Layout := .value ⟨4, 4, .big⟩
    let little : Layout := .value ⟨4, 4, .little⟩
    let nan : Datum := .scalar ⟨.f32, .ofNat _ 0x7fc00001⟩
    (∃ τ, (r.put big 3 nan).run ctx .initial = .ok ⟨⟩ τ ∧
      (r.fetch nan.type big 3).run ctx τ = .ok nan τ ∧
      ∃ d, (r.fetch nan.type little 3).run ctx τ = .ok d τ ∧ d.byte 0 = 0x7f) ∧
      ¬ (r.put big 3 (.address 0x100000000)).Succeeds ctx .initial := by
  intro ctx r big little nan
  have hu : Store.initial.checkUsable ctx.caller r.scope = .ok () := rfl
  have htrip := roundTrips r big 3 ctx .initial
  obtain ⟨u, τ, hr⟩ := (htrip.succeeds hu nan).mpr (by decide)
  have hback := htrip.fetched hr [] (fun p hp => absurd hp List.not_mem_nil) ctx hu
  obtain ⟨d, hd, hmirror⟩ := htrip.reversed hr little trivial rfl (by decide) ctx hu
  have hfirst : d.byte 0 = nan.byte 3 := hmirror.bytes 0 (by decide)
  refine ⟨⟨τ, hr, hback, d, hd, hfirst.trans (by decide)⟩, fun h => ?_⟩
  exact absurd ((htrip.succeeds hu _).mp h) (by decide)

end Region
end ScopedMemory
