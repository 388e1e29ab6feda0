import Microtel.Lib.ByteMemory
import Microtel.Lib.Loop
import Microtel.Lib.OutStream
import Microtel.Lib.ProtoWire
import Microtel.Api.Types

/-!
The nanopb encoder (`third_party/nanopb/pb_encode.c`) over the descriptors of
`gen/nanopb`: no extension, no static array, no pointer and no static string is
among their fields. A `size_t` counts below `sizeMax`.
-/

namespace Microtel.Pb

open Loop OutStream
open ByteMemory.Layout (leBytes leBytes_length)

abbrev Encoder := OutStream.Writer UInt8

section

variable (sizeMax : Nat)

/-! ### Helper functions -/

/-- The variables of `pb_encode_varint_32`: the buffer, the byte to come and what is left of
the half that is read. -/
structure VarintState where
  buffer : Bytes
  byte : UInt8
  rest : UInt32

def varintStep (s : VarintState) : VarintState where
  buffer := s.buffer ++ [s.byte ||| 0x80]
  byte := (s.rest &&& 0x7F).toUInt8
  rest := s.rest >>> 7

def lowMore (high : UInt32) (s : VarintState) : Bool :=
  decide (s.buffer.length < 4) && (decide (s.rest ≠ 0) || decide (high ≠ 0))

def lowHalf (low high : UInt32) : VarintState :=
  whileLoop (lowMore high) varintStep 4 ⟨[], (low &&& 0x7F).toUInt8, low >>> 7⟩

def highMore (s : VarintState) : Bool := decide (s.rest ≠ 0)

def highHalf (s : VarintState) (high : UInt32) : VarintState :=
  whileLoop highMore varintStep 5
    ⟨s.buffer, s.byte ||| ((high &&& 0x07) <<< 4).toUInt8, high >>> 3⟩

/-- The buffer `pb_encode_varint_32` writes. -/
def varint32 (low high : UInt32) : Bytes :=
  let s := lowHalf low high
  let s := if high ≠ 0 then highHalf s high else s
  s.buffer ++ [s.byte]

def encodeVarint (value : UInt64) : Encoder :=
  if value ≤ 0x7F then write sizeMax [value.toUInt8]
  else write sizeMax (varint32 value.toUInt32 (value >>> 32).toUInt32)

inductive WireType
  | varint
  | fixed64
  | string
  | fixed32

def WireType.code : WireType → UInt64
  | varint => 0
  | fixed64 => 1
  | string => 2
  | fixed32 => 5

def encodeTag (wireType : WireType) (fieldNumber : UInt16) : Encoder :=
  encodeVarint sizeMax ((fieldNumber.toUInt64 <<< 3) ||| wireType.code)

def encodeFixed32 (value : UInt32) : Encoder := write sizeMax (leBytes 4 value.toNat)

def encodeFixed64 (value : UInt64) : Encoder := write sizeMax (leBytes 8 value.toNat)

def encodeString (octets : Bytes) : Encoder :=
  (encodeVarint sizeMax (UInt64.ofNat octets.length)).andThen (write sizeMax octets)

/-- The size is counted on a stream without a callback. -/
def encodeSubmessage (body : Encoder) : Encoder :=
  sized sizeMax (fun size => encodeVarint sizeMax (UInt64.ofNat size)) body

/-! ### Fields -/

/-- How a field is known to be there: by the type of the field, by its `has_` member, by the
`which_` member of its oneof, or by its callback. -/
inductive HType
  | singular
  | optional (has : Bool)
  | repeated
  | oneof (which : UInt16)

/-- Data in the message struct, or a callback that writes the field, given its tag. -/
inductive AType (D : Type)
  | static (data : D)
  | callback (encode : Option (UInt16 → Encoder))

structure FieldOf (D : Type) where
  tag : UInt16
  htype : HType
  atype : AType D

/-- The data of a field by its `PB_LTYPE`. -/
inductive Data
  | bool (v : Bool)
  | varint (v : Int64)
  | uvarint (v : UInt64)
  | fixed32 (v : UInt32)
  | fixed64 (v : UInt64)
  | bytes (v : Bytes)
  | fixedLengthBytes (v : Bytes)
  | submessage (fields : List (FieldOf Data))

abbrev Field := FieldOf Data

mutual

/-- `pb_check_proto3_default_value`. -/
def checkProto3Default : Field → Bool
  | ⟨_, .optional has, .static _⟩ => !has
  | ⟨_, .oneof which, .static _⟩ => decide (which = 0)
  | ⟨_, _, .static data⟩ => checkDefault data
  | ⟨_, _, .callback encode⟩ => encode.isNone

def checkDefault : Data → Bool
  | .bool v => !v
  | .varint v => decide (v = 0)
  | .uvarint v => decide (v = 0)
  | .fixed32 v => decide (v = 0)
  | .fixed64 v => decide (v = 0)
  | .bytes v => decide (v.length = 0)
  | .fixedLengthBytes v => decide (v.length = 0)
  | .submessage fields => checkDefaults fields

def checkDefaults : List Field → Bool
  | [] => true
  | field :: fields => checkProto3Default field && checkDefaults fields

end

def Data.wireType : Data → WireType
  | .bool _ => .varint
  | .varint _ => .varint
  | .uvarint _ => .varint
  | .fixed32 _ => .fixed32
  | .fixed64 _ => .fixed64
  | .bytes _ => .string
  | .fixedLengthBytes _ => .string
  | .submessage _ => .string

/-- Presence as `encode_field` checks it. -/
def present (field : Field) : Bool :=
  match field.htype, field.atype with
  | .oneof which, _ => decide (which = field.tag)
  | .optional has, _ => has
  | .singular, .static _ => !checkProto3Default field
  | .singular, .callback _ => true
  | .repeated, _ => true

mutual

/-- The contents of a static field, behind its tag (`encode_basic_field`). -/
def encodeData : Data → Encoder
  | .bool v => encodeVarint sizeMax (if v then 1 else 0)
  | .varint v => encodeVarint sizeMax v.toUInt64
  | .uvarint v => encodeVarint sizeMax v
  | .fixed32 v => encodeFixed32 sizeMax v
  | .fixed64 v => encodeFixed64 sizeMax v
  | .bytes v => encodeString sizeMax v
  | .fixedLengthBytes v => encodeString sizeMax v
  | .submessage fields => encodeSubmessage sizeMax (pbEncode fields)

def encodeField : Field → Encoder
  | ⟨tag, htype, .static data⟩ =>
      if present ⟨tag, htype, .static data⟩ then
        (encodeTag sizeMax data.wireType tag).andThen (encodeData data)
      else done
  | ⟨tag, htype, .callback encode⟩ =>
      if present ⟨tag, htype, .callback encode⟩ then (encode.map fun write => write tag).getD done
      else done

/-- `pb_encode` over the fields of a descriptor. -/
def pbEncode : List Field → Encoder
  | [] => done
  | field :: fields => (encodeField field).andThen (pbEncode fields)

end

end

/-! ### Varints -/

theorem marked_toNat {b : UInt8} (h : b.toNat < 128) : (b ||| 0x80).toNat = b.toNat + 128 := by
  have hor : 128 + b.toNat = 128 ||| b.toNat := Nat.two_pow_add_eq_or_of_lt (i := 7) h 1
  rw [UInt8.toNat_or, Nat.or_comm, Nat.add_comm, hor]
  rfl

theorem septet_toNat (n : UInt32) : (n &&& 0x7F).toUInt8.toNat = n.toNat % 128 := by
  rw [UInt32.toNat_toUInt8, UInt32.toNat_and]
  change (n.toNat &&& 2 ^ 7 - 1) % 256 = n.toNat % 128
  rw [Nat.and_two_pow_sub_one_eq_mod]
  omega

theorem shift_toNat (n : UInt32) : (n >>> 7).toNat = n.toNat / 128 := by
  rw [UInt32.toNat_shiftRight]
  exact Nat.shiftRight_eq_div_pow n.toNat 7

/-- A byte and what is left above it. -/
theorem septet_add_shift (n : UInt32) :
    (n &&& 0x7F).toUInt8.toNat + 128 * (n >>> 7).toNat = n.toNat := by
  rw [septet_toNat, shift_toNat]
  omega

theorem marked_encodeVarint {b : UInt8} {n : Nat} (hb : b.toNat < 128) (hn : n ≠ 0) :
    ProtoWire.encodeVarint (b.toNat + 128 * n) = (b ||| 0x80) :: ProtoWire.encodeVarint n := by
  have hmod : (b.toNat + 128 * n) % 128 + 128 = (b ||| 0x80).toNat := by
    rw [marked_toNat hb]
    omega
  have hdiv : (b.toNat + 128 * n) / 128 = n := by omega
  rw [ProtoWire.encodeVarint, if_neg (by omega), hmod, hdiv, UInt8.ofNat_toNat]

/-- The byte to come and what is left of its half. -/
def VarintState.value (s : VarintState) : Nat := s.byte.toNat + 128 * s.rest.toNat

@[simp] theorem varintStep_length (s : VarintState) :
    (varintStep s).buffer.length = s.buffer.length + 1 := by
  simp [varintStep]

theorem varintStep_value (s : VarintState) : (varintStep s).value = s.rest.toNat :=
  septet_add_shift s.rest

/-- What is written and what is still to come are the text of `n`; `high` counts `place` times
as much as the byte to come. -/
structure Spells (n place high : Nat) (s : VarintState) : Prop where
  byte : s.byte.toNat < 128
  text : s.buffer ++ ProtoWire.encodeVarint (s.value + place * high) = ProtoWire.encodeVarint n

theorem Spells.step {n place high : Nat} {s : VarintState} (h : Spells n (128 * place) high s)
    (hmore : s.rest.toNat + place * high ≠ 0) : Spells n place high (varintStep s) := by
  refine ⟨?_, ?_⟩
  · change (s.rest &&& 0x7F).toUInt8.toNat < 128
    rw [septet_toNat]
    omega
  · have hsplit : s.value + 128 * place * high =
        s.byte.toNat + 128 * (s.rest.toNat + place * high) := by
      rw [VarintState.value]
      ring
    rw [← h.text, hsplit, marked_encodeVarint h.byte hmore, varintStep_value]
    change (s.buffer ++ [s.byte ||| 0x80]) ++ _ = _
    rw [List.append_assoc]
    rfl

theorem toNat_ne_zero {n : UInt32} (h : n ≠ 0) : n.toNat ≠ 0 :=
  fun hzero => h (UInt32.toNat_inj.mp hzero)

/-- Within the low half: four bytes at most, and the fifth holds what is left of it. -/
structure LowInv (n high : Nat) (s : VarintState) : Prop where
  room : s.buffer.length ≤ 4
  low : s.value * 128 ^ s.buffer.length < 2 ^ 32
  spells : Spells n (16 * 128 ^ (4 - s.buffer.length)) high s

theorem LowInv.step {n : Nat} {high : UInt32} {s : VarintState} (h : LowInv n high.toNat s)
    (hmore : lowMore high s = true) : LowInv n high.toNat (varintStep s) := by
  simp only [lowMore, Bool.and_eq_true, Bool.or_eq_true, decide_eq_true_eq] at hmore
  obtain ⟨hroom, hmore⟩ := hmore
  have hlength := varintStep_length s
  have hplace : 16 * 128 ^ (4 - s.buffer.length) =
      128 * (16 * 128 ^ (4 - (varintStep s).buffer.length)) := by
    have hexp : 4 - s.buffer.length = 4 - (varintStep s).buffer.length + 1 := by omega
    rw [hexp, pow_succ]
    ring
  refine ⟨by omega, ?_, ?_⟩
  · have hlow := h.low
    have hless : 128 * s.rest.toNat * 128 ^ s.buffer.length ≤ s.value * 128 ^ s.buffer.length :=
      Nat.mul_le_mul_right _ (Nat.le_add_left _ _)
    rw [varintStep_value, hlength, pow_succ]
    calc s.rest.toNat * (128 ^ s.buffer.length * 128)
        = 128 * s.rest.toNat * 128 ^ s.buffer.length := by ring
      _ < 2 ^ 32 := Nat.lt_of_le_of_lt hless hlow
  · have hspells := h.spells
    rw [hplace] at hspells
    refine hspells.step ?_
    have hpos : 0 < 16 * 128 ^ (4 - (varintStep s).buffer.length) := by positivity
    rcases hmore with hrest | hhigh
    · have hrest := toNat_ne_zero hrest
      omega
    · have hprod := Nat.mul_pos hpos (Nat.pos_of_ne_zero (toNat_ne_zero hhigh))
      omega

theorem lowInv_start (low high : UInt32) :
    LowInv (low.toNat + 2 ^ 32 * high.toNat) high.toNat
      ⟨[], (low &&& 0x7F).toUInt8, low >>> 7⟩ := by
  have hlow := low.toNat_lt
  have hvalue : VarintState.value ⟨[], (low &&& 0x7F).toUInt8, low >>> 7⟩ = low.toNat :=
    septet_add_shift low
  refine ⟨Nat.zero_le _, ?_, ?_, ?_⟩
  · rw [hvalue, List.length_nil, pow_zero, mul_one]
    exact hlow
  · change (low &&& 0x7F).toUInt8.toNat < 128
    rw [septet_toNat]
    omega
  · have hplace : 16 * 128 ^ (4 - ([] : Bytes).length) = 2 ^ 32 := by norm_num
    rw [hvalue, hplace, List.nil_append]

/-- The first loop has spelt the low half, all but the byte that a high half goes on in. -/
theorem lowHalf_spec (low high : UInt32) :
    LowInv (low.toNat + 2 ^ 32 * high.toNat) high.toNat (lowHalf low high) ∧
      (lowHalf low high).rest = 0 ∧ (high ≠ 0 → (lowHalf low high).buffer.length = 4) := by
  obtain ⟨hinv, hend⟩ := whileLoop_invariant (lowMore high) varintStep
    (LowInv (low.toNat + 2 ^ 32 * high.toNat) high.toNat) (fun s => 4 - s.buffer.length)
    (fun s h hmore => by
      refine ⟨h.step hmore, ?_⟩
      simp only [lowMore, Bool.and_eq_true, decide_eq_true_eq] at hmore
      rw [varintStep_length]
      omega)
    _ 4 (Nat.sub_le 4 _) (lowInv_start low high)
  change LowInv _ _ (lowHalf low high) at hinv
  change lowMore high (lowHalf low high) = false at hend
  simp only [lowMore, Bool.and_eq_false_iff, Bool.or_eq_false_iff, decide_eq_false_iff_not,
    not_not] at hend
  rcases hend with hfull | ⟨hrest, hhigh⟩
  · have hlength : (lowHalf low high).buffer.length = 4 := by
      have hroom := hinv.room
      omega
    refine ⟨hinv, UInt32.toNat_inj.mp ?_, fun _ => hlength⟩
    have hlow := hinv.low
    rw [hlength, VarintState.value] at hlow
    change (lowHalf low high).rest.toNat = 0
    omega
  · exact ⟨hinv, hrest, fun hne => absurd hhigh hne⟩

/-- Within the high half: five more bytes at most. -/
structure HighInv (n : Nat) (s : VarintState) : Prop where
  start : 4 ≤ s.buffer.length
  high : s.rest.toNat * 128 ^ (s.buffer.length - 4) < 2 ^ 29
  spells : Spells n 0 0 s

theorem HighInv.step {n : Nat} {s : VarintState} (h : HighInv n s) (hmore : highMore s = true) :
    HighInv n (varintStep s) ∧ s.buffer.length ≤ 8 := by
  have hrest : s.rest.toNat ≠ 0 := by
    simp only [highMore, decide_eq_true_eq] at hmore
    exact toNat_ne_zero hmore
  have hstart := h.start
  have hhigh := h.high
  have hlength := varintStep_length s
  refine ⟨⟨by omega, ?_, ?_⟩, ?_⟩
  · have hexp : (varintStep s).buffer.length - 4 = s.buffer.length - 4 + 1 := by omega
    have hnext : (varintStep s).rest.toNat * 128 ≤ s.rest.toNat := by
      rw [← varintStep_value s, VarintState.value]
      omega
    rw [hexp, pow_succ]
    calc (varintStep s).rest.toNat * (128 ^ (s.buffer.length - 4) * 128)
        = (varintStep s).rest.toNat * 128 * 128 ^ (s.buffer.length - 4) := by ring
      _ ≤ s.rest.toNat * 128 ^ (s.buffer.length - 4) := Nat.mul_le_mul_right _ hnext
      _ < 2 ^ 29 := hhigh
  · exact h.spells.step (by omega)
  · by_contra hlong
    have hpow : 128 ^ 5 ≤ 128 ^ (s.buffer.length - 4) :=
      Nat.pow_le_pow_right (by omega) (by omega)
    have hprod := Nat.mul_le_mul (Nat.pos_of_ne_zero hrest) hpow
    omega

theorem highByte_toNat {b : UInt8} (high : UInt32) (h : b.toNat < 16) :
    (b ||| ((high &&& 0x07) <<< 4).toUInt8).toNat = b.toNat + 16 * (high.toNat % 8) := by
  have hbits : ((high &&& 0x07) <<< 4).toUInt8.toNat = 16 * (high.toNat % 8) := by
    rw [UInt32.toNat_toUInt8, UInt32.toNat_shiftLeft, UInt32.toNat_and]
    change ((high.toNat &&& 2 ^ 3 - 1) <<< 4) % 2 ^ 32 % 2 ^ 8 = _
    rw [Nat.and_two_pow_sub_one_eq_mod, Nat.shiftLeft_eq]
    omega
  have hor : 16 * (high.toNat % 8) + b.toNat = 16 * (high.toNat % 8) ||| b.toNat :=
    Nat.two_pow_add_eq_or_of_lt (i := 4) h _
  rw [UInt8.toNat_or, hbits, Nat.or_comm, ← hor, Nat.add_comm]

theorem highHalf_spec {n : Nat} {high : UInt32} {s : VarintState} (h : LowInv n high.toNat s)
    (hrest : s.rest = 0) (hlength : s.buffer.length = 4) :
    Spells n 0 0 (highHalf s high) ∧ (highHalf s high).rest = 0 := by
  have hlow := h.low
  have hhigh := high.toNat_lt
  have hshift : (high >>> 3).toNat = high.toNat / 8 := by
    rw [UInt32.toNat_shiftRight]
    exact Nat.shiftRight_eq_div_pow high.toNat 3
  have hvalue : s.value = s.byte.toNat := by simp [VarintState.value, hrest]
  have hbyte : s.byte.toNat < 16 := by
    rw [hvalue, hlength] at hlow
    omega
  have hfirst := highByte_toNat high hbyte
  have hnew : VarintState.value
      ⟨s.buffer, s.byte ||| ((high &&& 0x07) <<< 4).toUInt8, high >>> 3⟩ =
        s.byte.toNat + 16 * high.toNat := by
    change (s.byte ||| ((high &&& 0x07) <<< 4).toUInt8).toNat + 128 * (high >>> 3).toNat = _
    rw [hfirst, hshift]
    omega
  have hstart : HighInv n ⟨s.buffer, s.byte ||| ((high &&& 0x07) <<< 4).toUInt8, high >>> 3⟩ := by
    refine ⟨Nat.le_of_eq hlength.symm, ?_, ?_, ?_⟩
    · change (high >>> 3).toNat * 128 ^ (s.buffer.length - 4) < 2 ^ 29
      rw [hlength, hshift, Nat.sub_self, pow_zero, mul_one]
      omega
    · change (s.byte ||| ((high &&& 0x07) <<< 4).toUInt8).toNat < 128
      omega
    · have hspells := h.spells.text
      rw [hvalue, hlength, Nat.sub_self, pow_zero, mul_one] at hspells
      rw [hnew, zero_mul, Nat.add_zero]
      exact hspells
  obtain ⟨hinv, hend⟩ := whileLoop_invariant highMore varintStep (HighInv n)
    (fun s => 9 - s.buffer.length)
    (fun s h hmore => by
      obtain ⟨hnext, hroom⟩ := h.step hmore
      refine ⟨hnext, ?_⟩
      rw [varintStep_length]
      omega)
    _ 5 (by dsimp only; omega) hstart
  change highMore (highHalf s high) = false at hend
  refine ⟨hinv.spells, ?_⟩
  simpa only [highMore, decide_eq_false_iff_not, not_not] using hend

theorem Spells.last {n place : Nat} {s : VarintState} (h : Spells n place 0 s)
    (hrest : s.rest = 0) :
    s.buffer ++ [s.byte] = ProtoWire.encodeVarint n := by
  have hvalue : s.value + place * 0 = s.byte.toNat := by simp [VarintState.value, hrest]
  rw [← h.text, hvalue, ProtoWire.encodeVarint, if_pos h.byte, UInt8.ofNat_toNat]

/-- The two halves without a 64-bit shift are the shortest text of the number. -/
theorem varint32_eq (low high : UInt32) :
    varint32 low high = ProtoWire.encodeVarint (low.toNat + 2 ^ 32 * high.toNat) := by
  obtain ⟨hinv, hrest, hlength⟩ := lowHalf_spec low high
  rw [varint32]
  by_cases hhigh : high = 0
  · have hspells := hinv.spells
    rw [if_neg (not_not.mpr hhigh)]
    rw [hhigh] at hspells hrest ⊢
    exact hspells.last hrest
  · obtain ⟨hspells, hend⟩ := highHalf_spec hinv hrest (hlength hhigh)
    rw [if_pos hhigh]
    exact hspells.last hend

/-! ### What each part offers -/

section

variable {sizeMax : Nat}

theorem emits_varint (value : UInt64) :
    Emits sizeMax (encodeVarint sizeMax value) (ProtoWire.encodeVarint value.toNat) := by
  rw [encodeVarint]
  by_cases h : value ≤ 0x7F
  · have hless : value.toNat ≤ 127 := UInt64.le_iff_toNat_le.mp h
    have htext : ProtoWire.encodeVarint value.toNat = [value.toUInt8] := by
      rw [ProtoWire.encodeVarint, if_pos (by omega)]
      rfl
    rw [if_pos h, htext]
    exact emits_write _
  · have hhalves : value.toUInt32.toNat + 2 ^ 32 * (value >>> 32).toUInt32.toNat =
        value.toNat := by
      have hvalue := value.toNat_lt
      rw [UInt64.toNat_toUInt32, UInt64.toNat_toUInt32, UInt64.toNat_shiftRight]
      change value.toNat % 2 ^ 32 + 2 ^ 32 * ((value.toNat >>> 32) % 2 ^ 32) = value.toNat
      rw [Nat.shiftRight_eq_div_pow]
      omega
    rw [if_neg h, varint32_eq, hhalves]
    exact emits_write _

theorem WireType.code_lt (wireType : WireType) : wireType.code.toNat < 8 := by
  cases wireType <;> decide

theorem emits_tag (wireType : WireType) (tag : UInt16) :
    Emits sizeMax (encodeTag sizeMax wireType tag)
      (ProtoWire.encodeVarint (8 * tag.toNat + wireType.code.toNat)) := by
  have htag := tag.toNat_lt
  have hcode := wireType.code_lt
  have hshift : (tag.toUInt64 <<< 3).toNat = tag.toNat <<< 3 := by
    rw [UInt64.toNat_shiftLeft, UInt16.toNat_toUInt64]
    change (tag.toNat <<< 3) % 2 ^ 64 = tag.toNat <<< 3
    rw [Nat.shiftLeft_eq]
    omega
  have hvalue : ((tag.toUInt64 <<< 3) ||| wireType.code).toNat =
      8 * tag.toNat + wireType.code.toNat := by
    rw [UInt64.toNat_or, hshift, ← Nat.shiftLeft_add_eq_or_of_lt hcode, Nat.shiftLeft_eq]
    omega
  rw [encodeTag, ← hvalue]
  exact emits_varint _

theorem emits_size (hsize : sizeMax ≤ 2 ^ 64) {n : Nat} (h : n < sizeMax) :
    Emits sizeMax (encodeVarint sizeMax (UInt64.ofNat n)) (ProtoWire.encodeVarint n) := by
  have hvarint : Emits sizeMax _ _ := emits_varint (UInt64.ofNat n)
  rwa [UInt64.toNat_ofNat_of_lt' (Nat.lt_of_lt_of_le h hsize)] at hvarint

theorem emits_string (hsize : sizeMax ≤ 2 ^ 64) (octets : Bytes) :
    Emits sizeMax (encodeString sizeMax octets)
      (ProtoWire.encodeVarint octets.length ++ octets) := by
  intro hlength
  have hless : octets.length < sizeMax := by
    rw [List.length_append] at hlength
    omega
  exact (emits_size hsize hless).andThen (emits_write octets) hlength

theorem emits_submessage (hsize : sizeMax ≤ 2 ^ 64) {body : Encoder} {text : Bytes}
    (h : Emits sizeMax body text) :
    Emits sizeMax (encodeSubmessage sizeMax body)
      (ProtoWire.encodeVarint text.length ++ text) :=
  h.sized (emits_size hsize)

/-! ### Fields -/

/-- What a field with data of its own carries. -/
def Data.content : Data → Option ProtoWire.Content
  | .bool v => some (.varint (if v then 1 else 0))
  | .varint v => some (.varint v.toUInt64)
  | .uvarint v => some (.varint v)
  | .fixed32 v => some (.fixed32 (leBytes 4 v.toNat))
  | .fixed64 v => some (.fixed64 (leBytes 8 v.toNat))
  | .bytes v => some (.len v)
  | .fixedLengthBytes v => some (.len v)
  | .submessage _ => none

theorem emits_data (hsize : sizeMax ≤ 2 ^ 64) {data : Data} {content : ProtoWire.Content}
    (h : data.content = some content) :
    Emits sizeMax (encodeData sizeMax data) content.text ∧
      data.wireType.code.toNat = content.wireType := by
  cases data with
  | bool v => cases h; exact ⟨emits_varint _, rfl⟩
  | varint v => cases h; exact ⟨emits_varint _, rfl⟩
  | uvarint v => cases h; exact ⟨emits_varint _, rfl⟩
  | fixed32 v => cases h; exact ⟨emits_write _, rfl⟩
  | fixed64 v => cases h; exact ⟨emits_write _, rfl⟩
  | bytes v => cases h; exact ⟨emits_string hsize v, rfl⟩
  | fixedLengthBytes v => cases h; exact ⟨emits_string hsize v, rfl⟩
  | submessage fields => cases h

/-- A field that is not there, or whose callback is not set. -/
def silent (field : Field) : Bool :=
  match field.atype with
  | .static _ => !present field
  | .callback encode => !present field || encode.isNone

theorem emits_silent {field : Field} (h : silent field = true) :
    Emits sizeMax (encodeField sizeMax field) [] := by
  obtain ⟨tag, htype, atype⟩ := field
  rw [silent] at h
  cases atype with
  | static data =>
      rw [encodeField, if_neg (by simpa using h)]
      exact emits_done
  | callback encode =>
      rw [encodeField]
      split
      · next hpresent =>
        have hnone : encode = none := by simpa [hpresent] using h
        subst hnone
        exact emits_done
      · exact emits_done

theorem emits_scalar (hsize : sizeMax ≤ 2 ^ 64) {tag : UInt16} {htype : HType} {data : Data}
    {content : ProtoWire.Content} (hcontent : data.content = some content)
    (h : present ⟨tag, htype, .static data⟩ = true) :
    Emits sizeMax (encodeField sizeMax ⟨tag, htype, .static data⟩)
      (ProtoWire.encodeMessage [⟨tag.toNat, content⟩]) := by
  obtain ⟨hdata, htype⟩ := emits_data hsize hcontent
  rw [encodeField, if_pos h, ProtoWire.encodeMessage, List.flatMap_singleton,
    ProtoWire.Field.text, ← htype]
  exact (emits_tag _ tag).andThen hdata

/-- A submessage behind its tag, in a field or written by a callback. -/
theorem emits_message (hsize : sizeMax ≤ 2 ^ 64) (tag : UInt16) {fields : List Field}
    {text : Bytes} (h : Emits sizeMax (pbEncode sizeMax fields) text) :
    Emits sizeMax ((encodeTag sizeMax .string tag).andThen
        (encodeSubmessage sizeMax (pbEncode sizeMax fields)))
      (ProtoWire.Field.text ⟨tag.toNat, .len text⟩) :=
  (emits_tag .string tag).andThen (emits_submessage hsize h)

theorem emits_optional (hsize : sizeMax ≤ 2 ^ 64) {tag : UInt16} {has : Bool}
    {fields : List Field} {text : Bytes} (h : Emits sizeMax (pbEncode sizeMax fields) text) :
    Emits sizeMax (encodeField sizeMax ⟨tag, .optional has, .static (.submessage fields)⟩)
      (ProtoWire.encodeMessage (if has then [⟨tag.toNat, .len text⟩] else [])) := by
  cases has with
  | false => exact emits_silent rfl
  | true =>
      have hmessage := emits_message hsize tag h
      rw [if_pos rfl, ProtoWire.encodeMessage, List.flatMap_singleton]
      exact hmessage

theorem emits_callback {tag : UInt16} {htype : HType} {encode : UInt16 → Encoder}
    {text : Bytes} (h : present ⟨tag, htype, .callback (some encode)⟩ = true)
    (hencode : Emits sizeMax (encode tag) text) :
    Emits sizeMax (encodeField sizeMax ⟨tag, htype, .callback (some encode)⟩) text := by
  rw [encodeField, if_pos h]
  exact hencode

theorem emits_cons {field : Field} {fields : List Field} {text rest : Bytes}
    (h : Emits sizeMax (encodeField sizeMax field) text)
    (hfields : Emits sizeMax (pbEncode sizeMax fields) rest) :
    Emits sizeMax (pbEncode sizeMax (field :: fields)) (text ++ rest) :=
  h.andThen hfields

theorem emits_nil : Emits sizeMax (pbEncode sizeMax []) [] := emits_done

theorem emits_silent_cons {field : Field} {fields : List Field} {text : Bytes}
    (h : silent field = true) (hfields : Emits sizeMax (pbEncode sizeMax fields) text) :
    Emits sizeMax (pbEncode sizeMax (field :: fields)) text :=
  emits_cons (emits_silent h) hfields

theorem emits_all_silent {fields : List Field} (h : ∀ f ∈ fields, silent f = true) :
    Emits sizeMax (pbEncode sizeMax fields) [] := by
  induction fields with
  | nil => exact emits_nil
  | cons field fields ih =>
      obtain ⟨hfield, hfields⟩ := List.forall_mem_cons.mp h
      exact emits_silent_cons hfield (ih hfields)

theorem emits_last {field : Field} {fields : List Field} {text : Bytes}
    (h : Emits sizeMax (encodeField sizeMax field) text)
    (hfields : ∀ f ∈ fields, silent f = true) :
    Emits sizeMax (pbEncode sizeMax (field :: fields)) text := by
  have hcons := emits_cons h (emits_all_silent hfields)
  rwa [List.append_nil] at hcons

/-- Of the members of a oneof, the one that is set is written. -/
theorem emits_oneof {which : UInt16} {fields : List Field} {field : Field} {text : Bytes}
    (honeof : ∀ f ∈ fields, f.htype = .oneof which) (htags : (fields.map FieldOf.tag).Nodup)
    (hfield : field ∈ fields) (htag : field.tag = which)
    (h : Emits sizeMax (encodeField sizeMax field) text) :
    Emits sizeMax (pbEncode sizeMax fields) text := by
  have habsent : ∀ f : Field, f.htype = .oneof which → f.tag ≠ which → silent f = true := by
    rintro ⟨tag, htype, atype⟩ rfl hne
    have hpresent : present ⟨tag, .oneof which, atype⟩ = false := by
      simpa [present] using Ne.symm hne
    cases atype <;> simp [silent, hpresent]
  induction fields with
  | nil => exact absurd hfield List.not_mem_nil
  | cons first fields ih =>
      obtain ⟨hfirst, hrest⟩ := List.forall_mem_cons.mp honeof
      rw [List.map_cons, List.nodup_cons] at htags
      rcases List.mem_cons.mp hfield with rfl | hmem
      · have hothers : ∀ f ∈ fields, silent f = true := by
          intro f hf
          refine habsent f (hrest f hf) fun heq => htags.1 ?_
          rw [htag, ← heq]
          exact List.mem_map_of_mem hf
        exact emits_last h hothers
      · have hother : first.tag ≠ which := by
          intro heq
          refine htags.1 ?_
          rw [heq, ← htag]
          exact List.mem_map_of_mem hmem
        exact emits_silent_cons (habsent first hfirst hother) (ih hrest htags.2 hmem)

end

end Microtel.Pb
