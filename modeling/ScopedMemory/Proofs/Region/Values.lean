import ScopedMemory.Proofs.Bytes
import ScopedMemory.Proofs.Region.Encoding
import ScopedMemory.Proofs.Scope.Weight

namespace ScopedMemory

open Operation

/-! ### Values of all types -/

/-- What one call puts into memory or has from it. -/
inductive Datum where
  | scalar (x : Scalar)
  | address (a : Word)
deriving DecidableEq, Repr

inductive DatumType where
  | scalar (t : ScalarType)
  | address
deriving DecidableEq, Repr

namespace Datum

def type : Datum → DatumType
  | scalar x => .scalar x.type
  | address _ => .address

def number : Datum → Nat
  | scalar x => x.bits.toNat
  | address a => a.toNat

/-- Byte `0` has the lowest bits. -/
def byte (d : Datum) (i : Nat) : UInt8 := digit d.number i

/-- A number has one width. An address is eight bytes wide, or four if it is low enough. -/
def Fits (d : Datum) (l : Layout) : Prop :=
  l.IsValue ∧
    match d with
    | scalar x => l.size.toNat = x.type.size
    | address a => l.size.toNat = 8 ∨ l.size.toNat = 4 ∧ a.toNat < 0x100000000

instance (d : Datum) (l : Layout) : Decidable (d.Fits l) := by
  cases d <;> unfold Fits <;> infer_instance

/-- The datum stands at `x`, in the byte order of the layout. -/
def StandsAt (d : Datum) (x : Nat) (l : Layout) (m : Memory) : Prop :=
  ∀ j < l.size.toNat, m.byte (x + j) = d.byte (l.order.place l.size.toNat j)

/-- The same bytes in the opposite order, and none beside them. -/
structure Mirrors (d' d : Datum) (count : Nat) : Prop where
  type : d'.type = d.type
  bound : d'.number < 256 ^ count
  bytes : ∀ i < count, d'.byte i = d.byte (count - 1 - i)

end Datum

namespace DatumType

def Fits (t : DatumType) (l : Layout) : Prop :=
  l.IsValue ∧
    match t with
    | scalar t => l.size.toNat = t.size
    | address => l.size.toNat = 8 ∨ l.size.toNat = 4

def ofNumber (t : DatumType) (n : Nat) : Datum :=
  match t with
  | scalar t => .scalar ⟨t, .ofNat _ n⟩
  | address => .address (.ofNat n)

end DatumType

namespace Region

def put (r : Region) (l : Layout) (offset : Word) : Datum → Operation Unit
  | .scalar x => r.set l offset x
  | .address a => r.setAddress l offset a

def fetch (r : Region) (t : DatumType) (l : Layout) (offset : Word) : Operation Datum :=
  match t with
  | .scalar t => .scalar <$> r.get t l offset
  | .address => .address <$> r.getAddress l offset

end Region

/-! ### Data and their numbers -/

section

variable {d : Datum} {t : DatumType} {l : Layout} {n : Nat}

theorem ScalarType.toNat_size (t : ScalarType) : (UInt64.ofNat t.size).toNat = t.size := by
  cases t <;> rfl

theorem ScalarType.valueSize? (t : ScalarType) :
    t.carrier.valueSize? .native = some (.ofNat t.size) := by
  cases t <;> rfl

theorem ScalarType.check_eq_ok_iff {t : ScalarType} :
    t.carrier.check l .native = .ok () ↔ l.IsValue ∧ l.size.toNat = t.size := by
  rw [Carrier.check_eq_ok_iff t.valueSize?, ← UInt64.toNat_inj, t.toNat_size]

@[simp] theorem DatumType.type_ofNumber (t : DatumType) (n : Nat) : (t.ofNumber n).type = t := by
  cases t <;> rfl

@[simp] theorem Datum.ofNumber_number (d : Datum) : d.type.ofNumber d.number = d := by
  cases d with
  | scalar x =>
    have hbits : BitVec.ofNat (8 * x.type.size) x.bits.toNat = x.bits := by
      rw [BitVec.ofNat_toNat, BitVec.setWidth_eq]
    exact congrArg (fun bits => Datum.scalar ⟨x.type, bits⟩) hbits
  | address a => exact congrArg Datum.address UInt64.ofNat_toNat

theorem DatumType.number_ofNumber (ht : t.Fits l) (hn : n < 256 ^ l.size.toNat) :
    (t.ofNumber n).number = n := by
  obtain ⟨_, hsize⟩ := ht
  cases t with
  | scalar t =>
    have hpow : 2 ^ (8 * t.size) = 256 ^ t.size := Nat.pow_mul 2 8 t.size
    change l.size.toNat = t.size at hsize
    change (BitVec.ofNat (8 * t.size) n).toNat = n
    rw [BitVec.toNat_ofNat, hpow, ← hsize, Nat.mod_eq_of_lt hn]
  | address =>
    have hwidth : l.size.toNat ≤ 8 := by
      rcases hsize with hsize | hsize
      · exact Nat.le_of_eq hsize
      · omega
    have hword : n < 2 ^ 64 := calc
      n < 256 ^ l.size.toNat := hn
      _ ≤ 256 ^ 8 := Nat.pow_le_pow_right (by decide) hwidth
      _ = 2 ^ 64 := by decide
    exact UInt64.toNat_ofNat_of_lt' hword

/-- A datum fits where its type does, if its number has no more digits than the layout has bytes. -/
theorem Datum.fits_iff : d.Fits l ↔ d.type.Fits l ∧ d.number < 256 ^ l.size.toNat := by
  unfold Fits DatumType.Fits
  rw [and_assoc]
  refine and_congr_right fun _ => ?_
  cases d with
  | scalar x =>
    have hpow : 2 ^ (8 * x.type.size) = 256 ^ x.type.size := Nat.pow_mul 2 8 x.type.size
    have hbits := x.bits.isLt
    change l.size.toNat = x.type.size ↔
      l.size.toNat = x.type.size ∧ x.bits.toNat < 256 ^ l.size.toNat
    constructor
    · intro hsize
      rw [hsize, ← hpow]
      exact ⟨rfl, hbits⟩
    · exact And.left
  | address a =>
    have ha := a.toNat_lt
    change l.size.toNat = 8 ∨ l.size.toNat = 4 ∧ a.toNat < 0x100000000 ↔
      (l.size.toNat = 8 ∨ l.size.toNat = 4) ∧ a.toNat < 256 ^ l.size.toNat
    constructor
    · rintro (hsize | ⟨hsize, hlow⟩)
      · rw [hsize]
        exact ⟨.inl rfl, ha⟩
      · rw [hsize]
        exact ⟨.inr rfl, hlow⟩
    · rintro ⟨hsize | hsize, hlow⟩
      · exact .inl hsize
      · rw [hsize] at hlow
        exact .inr ⟨hsize, hlow⟩

/-! ### One access for all types -/

/-- What a datum is stored as. -/
def Datum.encode (d : Datum) (l : Layout) : Except MemoryError Bytes :=
  match d with
  | scalar x =>
    match x.type.carrier.check l .native with
    | .ok _ => .ok (x.encode l.order)
    | .error e => .error e
  | address a => Region.addressBytes l a

theorem Datum.encode_eq_ok_iff {bytes : Bytes} :
    d.encode l = .ok bytes ↔ d.Fits l ∧ bytes = l.order.encode l.size.toNat d.number := by
  cases d with
  | scalar x =>
    unfold encode Fits number
    dsimp only
    rw [← ScalarType.check_eq_ok_iff]
    cases hc : x.type.carrier.check l .native with
    | ok u =>
      obtain ⟨_, hsize⟩ := ScalarType.check_eq_ok_iff.mp hc
      rw [hsize, Except.ok.injEq, eq_comm]
      exact (and_iff_right rfl).symm
    | error e => simp
  | address a =>
    unfold encode Fits number
    dsimp only
    constructor
    · intro h
      cases hw : Region.addressWidth l with
      | error e =>
        rw [Region.addressBytes, hw] at h
        cases h
      | ok w =>
        obtain ⟨hv, hsize⟩ := Region.addressWidth_eq_ok_iff.mp hw
        obtain ⟨hlow, hbytes⟩ := (Region.addressBytes_eq_ok_iff hv hsize).mp h
        rw [hsize]
        cases w with
        | bits32 => exact ⟨⟨hv, .inr ⟨rfl, hlow⟩⟩, hbytes⟩
        | bits64 => exact ⟨⟨hv, .inl rfl⟩, hbytes⟩
    · rintro ⟨⟨hv, hsize | ⟨hsize, hlow⟩⟩, hbytes⟩
      · rw [hsize] at hbytes
        exact (Region.addressBytes_eq_ok_iff (w := .bits64) hv hsize).mpr ⟨a.toNat_lt, hbytes⟩
      · rw [hsize] at hbytes
        exact (Region.addressBytes_eq_ok_iff (w := .bits32) hv hsize).mpr ⟨hlow, hbytes⟩

namespace Region

variable (r : Region) (offset : Word) (ctx : Context) (σ : Store)

theorem run_put (l : Layout) (d : Datum) :
    (r.put l offset d).run ctx σ =
      match d.encode l with
      | .ok bytes => (r.write offset bytes).run ctx σ
      | .error e => .error e σ := by
  cases d with
  | scalar x =>
    change (r.set l offset x).run ctx σ = _
    rw [run_set, Datum.encode]
    cases x.type.carrier.check l .native <;> rfl
  | address a =>
    change (r.setAddress l offset a).run ctx σ = _
    rw [run_setAddress, Datum.encode, addressBytes]
    cases addressWidth l <;> rfl

variable {r offset ctx σ} {τ : Store}

theorem leads_put :
    (r.put l offset d).Leads ctx σ
      (fun _ τ => d.Fits l ∧ σ.checkAccess ctx.caller r offset l.size = .ok () ∧
        τ = σ.setMemory (σ.memory.write (r.start + offset).toNat
          (l.order.encode l.size.toNat d.number)))
      (· = σ) := by
  unfold Leads
  rw [run_put]
  cases hb : d.encode l with
  | error e => rfl
  | ok bytes =>
    obtain ⟨hfits, rfl⟩ := Datum.encode_eq_ok_iff.mp hb
    refine leads_write.imp (fun _ τ h => ⟨hfits, ?_, h.2⟩) fun _ h => h
    obtain ⟨hu, htake⟩ := Store.checkWrite_eq_ok_iff.mp h.1
    rw [ByteOrder.length_encode] at htake
    exact Store.checkAccess_eq_ok_iff.mpr ⟨hu, htake⟩

theorem run_put_of_fits (hfits : d.Fits l)
    (ha : σ.checkAccess ctx.caller r offset l.size = .ok ()) :
    (r.put l offset d).run ctx σ =
      .ok ⟨⟩ (σ.setMemory (σ.memory.write (r.start + offset).toNat
        (l.order.encode l.size.toNat d.number))) := by
  obtain ⟨hu, hspan⟩ := Store.checkAccess_eq_ok_iff.mp ha
  have hw : σ.checkWrite ctx.caller r offset (l.order.encode l.size.toNat d.number).length =
      .ok () := by
    rw [ByteOrder.length_encode]
    exact Store.checkWrite_eq_ok_iff.mpr ⟨hu, hspan⟩
  rw [run_put, Datum.encode_eq_ok_iff.mpr ⟨hfits, rfl⟩]
  dsimp only
  rw [run_write, hw]

theorem run_fetch_eq_ok_iff :
    (r.fetch t l offset).run ctx σ = .ok d τ ↔
      t.Fits l ∧ σ.checkAccess ctx.caller r offset l.size = .ok () ∧
        d = t.ofNumber (l.order.decode (σ.memory.read (r.start + offset).toNat l.size.toNat)) ∧
        τ = σ := by
  cases t with
  | scalar t =>
    change (Datum.scalar <$> r.get t l offset).run ctx σ = _ ↔
      (l.IsValue ∧ l.size.toNat = t.size) ∧ _
    rw [run_map, run_get, ← ScalarType.check_eq_ok_iff]
    cases hc : t.carrier.check l .native with
    | error e => simp
    | ok u =>
      obtain ⟨_, hsize⟩ := ScalarType.check_eq_ok_iff.mp hc
      rw [← hsize, UInt64.ofNat_toNat]
      cases σ.checkAccess ctx.caller r offset l.size with
      | error e => simp
      | ok v => simp [eq_comm, DatumType.ofNumber, Scalar.decode]
  | address =>
    change (Datum.address <$> r.getAddress l offset).run ctx σ = _ ↔
      (l.IsValue ∧ (l.size.toNat = 8 ∨ l.size.toNat = 4)) ∧ _
    rw [run_map, run_getAddress]
    cases hw : addressWidth l with
    | error e =>
      have hnot : ¬ (l.IsValue ∧ (l.size.toNat = 8 ∨ l.size.toNat = 4)) := by
        rintro ⟨hv, hsize | hsize⟩
        · cases hw.symm.trans (addressWidth_eq_ok (w := .bits64) hv hsize)
        · cases hw.symm.trans (addressWidth_eq_ok (w := .bits32) hv hsize)
      simp [hnot]
    | ok w =>
      obtain ⟨hv, hsize⟩ := addressWidth_eq_ok_iff.mp hw
      have hfits : l.IsValue ∧ (l.size.toNat = 8 ∨ l.size.toNat = 4) := by
        cases w with
        | bits32 => exact ⟨hv, .inr hsize⟩
        | bits64 => exact ⟨hv, .inl hsize⟩
      dsimp only
      rw [← hsize, UInt64.ofNat_toNat, and_iff_right hfits]
      cases σ.checkAccess ctx.caller r offset l.size with
      | error e => simp
      | ok v => simp [eq_comm, DatumType.ofNumber, Address.decode]

end Region
end
end ScopedMemory
