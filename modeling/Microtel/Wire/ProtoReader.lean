import Microtel.Api.Types
import Microtel.Lib.Octets
import Microtel.Lib.ProtoWire

/-!
The hand-written protobuf readers. `otlp_response.cpp` and `grpc_wire_codec.cpp`
hold the same `ReadVarint`, `ReadLenDelim` and `SkipField`; `ReadTag` is the first
file's. Each reader is exact for its part of the wire format.
-/

namespace Microtel.Wire.Proto

open ProtoWire

def kVarintContinueBit : UInt8 := 0x80
def kVarintDataMask : UInt64 := 0x7F
def kVarintShiftStep : Nat := 7
def kVarintMaxShift : Nat := 64

def kWireWidth64Bit : Nat := 8
def kWireWidth32Bit : Nat := 4

def kWtVarint : UInt32 := 0
def kWt64Bit : UInt32 := 1
def kWtLenDelim : UInt32 := 2
def kWt32Bit : UInt32 := 5

def kTagFieldShift : UInt64 := 3
def kTagWireTypeMask : UInt64 := 0x7
def kMaxFieldNumber : UInt64 := ((1 : UInt64) <<< 29) - 1

/-- The loop of `ReadVarint`. -/
def readVarintFrom (result : UInt64) (shift : Nat) : Bytes → Option (UInt64 × Bytes)
  | [] => none
  | b :: buf =>
      let result := result ||| ((b.toUInt64 &&& kVarintDataMask) <<< UInt64.ofNat shift)
      if b &&& kVarintContinueBit = 0 then some (result, buf)
      else
        let shift := shift + kVarintShiftStep
        if kVarintMaxShift ≤ shift then none else readVarintFrom result shift buf

def readVarint (buf : Bytes) : Option (UInt64 × Bytes) := readVarintFrom 0 0 buf

def readLenDelim (buf : Bytes) : Option (Bytes × Bytes) :=
  match readVarint buf with
  | none => none
  | some (len, buf) =>
      if buf.length < len.toNat then none
      else some (buf.take len.toNat, buf.drop len.toNat)

structure Tag where
  field : UInt32
  wireType : UInt32

def readTag (buf : Bytes) : Option (Tag × Bytes) :=
  match readVarint buf with
  | none => none
  | some (raw, buf) =>
      let field := raw >>> kTagFieldShift
      if field = 0 ∨ kMaxFieldNumber < field then none
      else some (⟨field.toUInt32, (raw &&& kTagWireTypeMask).toUInt32⟩, buf)

/-- What is left of the buffer, where the source moves its view. -/
def skipField (buf : Bytes) (wireType : UInt32) : Option Bytes :=
  if wireType = kWtVarint then (readVarint buf).map (·.2)
  else if wireType = kWtLenDelim then (readLenDelim buf).map (·.2)
  else if wireType = kWt64Bit then
    if buf.length < kWireWidth64Bit then none else some (buf.drop kWireWidth64Bit)
  else if wireType = kWt32Bit then
    if buf.length < kWireWidth32Bit then none else some (buf.drop kWireWidth32Bit)
  else none

/-! ### ReadVarint -/

theorem continueBit_iff (b : UInt8) : b &&& kVarintContinueBit = 0 ↔ b.toNat < 128 :=
  Octets.forall_octet (P := fun b => b &&& kVarintContinueBit = 0 ↔ b.toNat < 128)
    (by decide +kernel) b

theorem dataBits (b : UInt8) : b.toUInt64 &&& kVarintDataMask = UInt64.ofNat (b.toNat % 128) :=
  Octets.forall_octet
    (P := fun b => b.toUInt64 &&& kVarintDataMask = UInt64.ofNat (b.toNat % 128))
    (by decide +kernel) b

/-- Shifting in one group of bits below the others, modulo 2^64. -/
theorem group_or (d n shift : Nat) (hd : d < 128) (hshift : shift < 64) :
    (UInt64.ofNat d <<< UInt64.ofNat shift) ||| UInt64.ofNat (n * 2 ^ (shift + 7)) =
      UInt64.ofNat ((d + 128 * n) * 2 ^ shift) := by
  have hsum : d + 128 * n = 128 * n ||| d := by
    rw [Nat.add_comm]
    exact Nat.two_pow_add_eq_or_of_lt (i := 7) hd n
  have hhigh : n * 2 ^ (shift + 7) = (128 * n) <<< shift := by
    rw [Nat.shiftLeft_eq, pow_add]
    ring
  apply UInt64.toNat_inj.mp
  rw [UInt64.toNat_or, UInt64.toNat_shiftLeft, UInt64.toNat_ofNat', UInt64.toNat_ofNat',
    UInt64.toNat_ofNat', UInt64.toNat_ofNat', Nat.mod_eq_of_lt (a := d) (by omega),
    Nat.mod_eq_of_lt (a := shift) (by omega), Nat.mod_eq_of_lt hshift, hhigh, hsum,
    ← Nat.shiftLeft_eq, Nat.shiftLeft_or_distrib, Nat.or_mod_two_pow, Nat.or_comm]

/-- The loop's texts, from a group that starts at a multiple of seven bits. -/
theorem readVarintFrom_iff (result : UInt64) (k : Nat) (hk : k ≤ 9) (data : Bytes) (v : UInt64)
    (rest : Bytes) : readVarintFrom result (7 * k) data = some (v, rest) ↔
      ∃ text n, data = text ++ rest ∧ VarintText text n ∧ k + text.length ≤ 10 ∧
        v = result ||| UInt64.ofNat (n * 2 ^ (7 * k)) := by
  induction data generalizing result k with
  | nil =>
      refine ⟨fun h => by simp [readVarintFrom] at h, ?_⟩
      rintro ⟨text, n, hdata, htext, -⟩
      exact absurd (List.append_eq_nil_iff.mp hdata.symm).1 htext.ne_nil
  | cons b buf ih =>
      simp only [readVarintFrom, continueBit_iff, dataBits]
      split
      · next hlast =>
        have hval := group_or b.toNat 0 (7 * k) hlast (by omega)
        rw [Nat.zero_mul, show UInt64.ofNat 0 = 0 from rfl, UInt64.or_zero, Nat.mul_zero,
          Nat.add_zero] at hval
        rw [Nat.mod_eq_of_lt hlast, hval]
        constructor
        · intro h
          cases h
          exact ⟨[b], b.toNat, rfl, .last hlast, by rw [List.length_singleton]; omega, rfl⟩
        · rintro ⟨text, n, hdata, htext, -, rfl⟩
          cases htext with
          | last =>
              cases hdata
              rfl
          | more hmore =>
              cases hdata
              omega
      · next hmore =>
        have hshift : 7 * k + kVarintShiftStep = 7 * (k + 1) := rfl
        rw [hshift]
        have hval := fun n => group_or (b.toNat % 128) n (7 * k) (by omega) (by omega)
        by_cases hend : kVarintMaxShift ≤ 7 * (k + 1)
        · rw [if_pos hend]
          have hlimit : 64 ≤ 7 * (k + 1) := hend
          refine ⟨nofun, ?_⟩
          rintro ⟨text, n, hdata, htext, hlen, -⟩
          cases htext with
          | last hlast =>
              cases hdata
              omega
          | more _ hrest =>
              have := List.length_pos_iff.mpr hrest.ne_nil
              rw [List.length_cons] at hlen
              omega
        · rw [if_neg hend, ih _ (k + 1) (by have : ¬ 64 ≤ 7 * (k + 1) := hend; omega)]
          constructor
          · rintro ⟨text, n, rfl, htext, hlen, rfl⟩
            refine ⟨b :: text, _, rfl, .more (by omega) htext, ?_, ?_⟩
            · rw [List.length_cons]
              omega
            · rw [← hval n, UInt64.or_assoc]
              rfl
          · rintro ⟨text, n, hdata, htext, hlen, rfl⟩
            cases htext with
            | last hlast =>
                cases hdata
                omega
            | more _ hrest =>
                cases hdata
                refine ⟨_, _, rfl, hrest, ?_, ?_⟩
                · rw [List.length_cons] at hlen
                  omega
                · rw [← hval, UInt64.or_assoc]
                  rfl

theorem readVarint_exact : Walk.Exact readVarint IsVarint := by
  intro data v rest
  rw [readVarint, show (0 : Nat) = 7 * 0 from rfl, readVarintFrom_iff 0 0 (by omega)]
  simp only [Nat.mul_zero, pow_zero, Nat.mul_one, UInt64.zero_or, Nat.zero_add, IsVarint,
    exists_and_left]

/-! ### ReadLenDelim, ReadTag, SkipField -/

/-- A length and as many octets. -/
def LenText (text : Bytes) (octets : Bytes) : Prop :=
  ∃ size n, text = size ++ octets ∧ IsVarint size n ∧ octets.length = n.toNat

theorem readLenDelim_exact : Walk.Exact readLenDelim LenText := by
  intro data octets rest
  rw [readLenDelim]
  constructor
  · intro h
    split at h
    · cases h
    · next n buf hread =>
      obtain ⟨size, rfl, hsize⟩ := (readVarint_exact _ _ _).mp hread
      split at h
      · cases h
      · next hlen =>
        cases h
        refine ⟨size ++ buf.take n.toNat, ?_, size, n, rfl, hsize, ?_⟩
        · rw [List.append_assoc, List.take_append_drop]
        · rw [List.length_take]
          omega
  · rintro ⟨text, rfl, size, n, rfl, hsize, hlen⟩
    rw [List.append_assoc, readVarint_exact.accepts hsize]
    simp only [← hlen, List.length_append, List.take_left, List.drop_left]
    rw [if_neg (by omega)]

/-- A varint that is the tag of a field. -/
def TagText (text : Bytes) (tag : Tag) : Prop :=
  ∃ v, IsVarint text v ∧ v.toNat = 8 * tag.field.toNat + tag.wireType.toNat ∧
    tag.wireType.toNat < 8 ∧ 1 ≤ tag.field.toNat ∧ tag.field.toNat ≤ maxFieldNumber

theorem toNat_field (raw : UInt64) : (raw >>> kTagFieldShift).toNat = raw.toNat / 8 := by
  rw [UInt64.toNat_shiftRight, Nat.shiftRight_eq_div_pow]
  rfl

theorem toNat_wireType (raw : UInt64) : (raw &&& kTagWireTypeMask).toNat = raw.toNat % 8 := by
  rw [UInt64.toNat_and]
  exact Nat.and_two_pow_sub_one_eq_mod raw.toNat 3

theorem fieldNumber_iff (field : UInt64) : ¬(field = 0 ∨ kMaxFieldNumber < field) ↔
    1 ≤ field.toNat ∧ field.toNat ≤ maxFieldNumber := by
  have hmax : kMaxFieldNumber.toNat = maxFieldNumber := by decide
  rw [← UInt64.toNat_inj, UInt64.lt_iff_toNat_lt, hmax, UInt64.toNat_zero]
  omega

theorem readTag_exact : Walk.Exact readTag TagText := by
  have hbound : maxFieldNumber < 2 ^ 32 := by decide
  intro data tag rest
  rw [readTag]
  constructor
  · intro h
    split at h
    · cases h
    · next raw buf hread =>
      obtain ⟨text, rfl, htext⟩ := (readVarint_exact _ _ _).mp hread
      simp only at h
      split at h
      · cases h
      · next hnumber =>
        rw [fieldNumber_iff, toNat_field] at hnumber
        cases h
        refine ⟨text, rfl, raw, htext, ?_⟩
        simp only [UInt64.toNat_toUInt32, toNat_field, toNat_wireType]
        rw [Nat.mod_eq_of_lt (a := raw.toNat / 8) (by omega),
          Nat.mod_eq_of_lt (a := raw.toNat % 8) (by omega)]
        omega
  · rintro ⟨text, rfl, raw, htext, hraw, hwire, hnumber⟩
    rw [readVarint_exact.accepts htext]
    have hfield : raw.toNat / 8 = tag.field.toNat := by omega
    have hmod : raw.toNat % 8 = tag.wireType.toNat := by omega
    have hok : ¬(raw >>> kTagFieldShift = 0 ∨ kMaxFieldNumber < raw >>> kTagFieldShift) := by
      rw [fieldNumber_iff, toNat_field, hfield]
      exact hnumber
    simp only [if_neg hok]
    obtain ⟨field, wireType⟩ := tag
    congr
    · apply UInt32.toNat_inj.mp
      rw [UInt64.toNat_toUInt32, toNat_field, hfield]
      exact Nat.mod_eq_of_lt (UInt32.toNat_lt _)
    · apply UInt32.toNat_inj.mp
      rw [UInt64.toNat_toUInt32, toNat_wireType, hmod]
      exact Nat.mod_eq_of_lt (UInt32.toNat_lt _)

/-- So many octets of any value. -/
theorem drop_iff (n : Nat) (data rest : Bytes) :
    (if data.length < n then none else some (data.drop n)) = some rest ↔
      ∃ text, data = text ++ rest ∧ text.length = n := by
  constructor
  · intro h
    split at h
    · cases h
    · next hlen =>
      cases h
      refine ⟨data.take n, (List.take_append_drop n data).symm, ?_⟩
      rw [List.length_take]
      omega
  · rintro ⟨text, rfl, rfl⟩
    rw [List.length_append, if_neg (by omega), List.drop_left]

theorem map_snd_iff {α : Type} {read : Bytes → Option (α × Bytes)} {G : Bytes → α → Prop}
    (h : Walk.Exact read G) (data rest : Bytes) :
    (read data).map (·.2) = some rest ↔ ∃ text v, data = text ++ rest ∧ G text v := by
  rw [Option.map_eq_some_iff]
  constructor
  · rintro ⟨⟨v, _⟩, hread, rfl⟩
    obtain ⟨text, hdata, htext⟩ := (h _ _ _).mp hread
    exact ⟨text, v, hdata, htext⟩
  · rintro ⟨text, v, hdata, htext⟩
    exact ⟨(v, rest), (h _ _ _).mpr ⟨text, hdata, htext⟩, rfl⟩

/-- A field's content of the given wire type. -/
theorem skipField_iff (wireType : UInt32) (data rest : Bytes) :
    skipField data wireType = some rest ↔
      ∃ text content, data = text ++ rest ∧ ContentText text content ∧
        content.wireType = wireType.toNat := by
  rw [skipField]
  split
  · next hwire =>
    subst hwire
    rw [map_snd_iff readVarint_exact]
    constructor
    · rintro ⟨text, v, hdata, htext⟩
      exact ⟨text, .varint v, hdata, .varint htext, rfl⟩
    · rintro ⟨text, content, hdata, htext, hwire⟩
      cases htext with
      | varint h => exact ⟨text, _, hdata, h⟩
      | fixed64 | len | fixed32 => cases hwire
  · split
    · next hwire =>
      subst hwire
      rw [map_snd_iff readLenDelim_exact]
      constructor
      · rintro ⟨text, octets, hdata, size, n, rfl, hsize, hlen⟩
        exact ⟨_, .len octets, hdata, .len hsize hlen, rfl⟩
      · rintro ⟨text, content, hdata, htext, hwire⟩
        cases htext with
        | len hsize hlen => exact ⟨_, _, hdata, _, _, rfl, hsize, hlen⟩
        | varint | fixed64 | fixed32 => cases hwire
    · split
      · next hwire =>
        subst hwire
        rw [drop_iff]
        constructor
        · rintro ⟨text, hdata, hlen⟩
          exact ⟨text, .fixed64 text, hdata, .fixed64 hlen, rfl⟩
        · rintro ⟨text, content, hdata, htext, hwire⟩
          cases htext with
          | fixed64 hlen => exact ⟨text, hdata, hlen⟩
          | varint | len | fixed32 => cases hwire
      · split
        · next hwire =>
          subst hwire
          rw [drop_iff]
          constructor
          · rintro ⟨text, hdata, hlen⟩
            exact ⟨text, .fixed32 text, hdata, .fixed32 hlen, rfl⟩
          · rintro ⟨text, content, hdata, htext, hwire⟩
            cases htext with
            | fixed32 hlen => exact ⟨text, hdata, hlen⟩
            | varint | len | fixed64 => cases hwire
        · next h0 h2 h1 h5 =>
          refine ⟨nofun, ?_⟩
          rintro ⟨text, content, -, -, hwire⟩
          rw [← UInt32.toNat_inj, ← hwire] at h0 h1 h2 h5
          cases content with
          | varint => exact absurd rfl h0
          | fixed64 => exact absurd rfl h1
          | len => exact absurd rfl h2
          | fixed32 => exact absurd rfl h5

end Microtel.Wire.Proto
