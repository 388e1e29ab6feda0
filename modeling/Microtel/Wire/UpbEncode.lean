import Microtel.Lib.BackBuffer
import Microtel.Lib.ByteMemory
import Microtel.Lib.Loop
import Microtel.Lib.ProtoWire
import Microtel.Api.Types

/-!
The upb encoder (`third_party/upb/upb/wire/encode.c`), which writes a message from its last
field to its first so that every length is known before it is written. Packed arrays, maps,
groups, extensions and unknown fields are left out: no message of `gen/opentelemetry` that
is written has one.
-/

namespace Microtel.Wire.UpbEncode

open BackBuffer Loop Requests
open ByteMemory.Layout (leBytes)

/-! ### Messages by their MiniTables -/

/-- Field numbers go up to 2^29 - 1. -/
abbrev FieldNumber := Fin (2 ^ 29)

instance instNeZeroFieldNumbers : NeZero (2 ^ 29 : Nat) := ⟨by decide⟩

/-- What `presence` says of a field, with the hasbit or the case of the oneof. -/
inductive Presence
  | implicit
  | hasbit (set : Bool)
  | oneof (which : FieldNumber)

/-- What a field holds, by its mode and its descriptor type. -/
inductive ValueOf (M : Type)
  /-- Double, Fixed64 -/
  | fixed64 (v : UInt64)
  /-- Fixed32 -/
  | fixed32 (v : UInt32)
  /-- Int64, UInt64 -/
  | uint64 (v : UInt64)
  | uint32 (v : UInt32)
  /-- Int32, Enum -/
  | int32 (v : Int32)
  | bool (v : Bool)
  /-- String, Bytes -/
  | string (v : Bytes)
  | message (m : Option M)
  /-- An array; one that was never made is empty. -/
  | messages (ms : List M)

structure FieldOf (M : Type) where
  number : FieldNumber
  presence : Presence
  value : ValueOf M

/-- A message, with its fields in the order of its MiniTable. -/
inductive Message
  | mk (fields : List (FieldOf Message))

inductive EncodeStatus
  | outOfMemory
  | maxDepthExceeded
deriving DecidableEq

abbrev Encoder := BackBuffer.Writer UInt8 EncodeStatus

/-! ### Varints and the buffer -/

structure VarintState where
  val : UInt64
  buf : Bytes

def varintStep (s : VarintState) : VarintState :=
  let byte := (s.val &&& 0x7F).toUInt8
  let val := s.val >>> 7
  { val := val, buf := s.buf ++ [if val ≠ 0 then byte ||| 0x80 else byte] }

def varintMore (s : VarintState) : Bool := decide (s.val ≠ 0)

/-- `do … while (val)`, for at most ten bytes. -/
def encodeVarint64 (val : UInt64) : Bytes :=
  (whileLoop varintMore varintStep 9 (varintStep ⟨val, []⟩)).buf

/-- The doubling wraps in a `size_t`. -/
def roundupPow2 (bytes : Nat) : Nat :=
  whileLoop (fun ret => decide (ret < bytes)) (fun ret => ret * 2 % 2 ^ 64) bytes 128

section

variable (arena : Allocator UInt8)

def encodeBytes (octets : Bytes) : Encoder := put arena .outOfMemory roundupPow2 octets

def encodeFixed64 (val : UInt64) : Encoder := encodeBytes arena (leBytes 8 val.toNat)

def encodeFixed32 (val : UInt32) : Encoder := encodeBytes arena (leBytes 4 val.toNat)

/-- `UPB_PB_VARINT_MAX_LEN` cells are reserved, and the text is moved to their end. -/
def encodeLongVarint (val : UInt64) : Encoder :=
  putWithin arena .outOfMemory roundupPow2 10 (encodeVarint64 val)

def encodeVarint (val : UInt64) : Encoder := fun b =>
  if val < 128 ∧ 1 ≤ b.room.length then .ok ((b.advance 1).store [val.toUInt8])
  else encodeLongVarint arena val b

inductive WireType
  | varint
  | bit64
  | delimited
  | bit32

def WireType.code : WireType → UInt32
  | varint => 0
  | bit64 => 1
  | delimited => 2
  | bit32 => 5

def encodeTag (fieldNumber : FieldNumber) (wireType : WireType) : Encoder :=
  encodeVarint arena ((UInt32.ofNat fieldNumber <<< 3) ||| wireType.code).toUInt64

/-! ### Fields -/

variable {M : Type}

/-- A submessage and its size. -/
def encodeSub (sub : M → Encoder) (m : M) : Encoder :=
  measured (fun size => encodeVarint arena (UInt64.ofNat size)) (sub m)

/-- Whether the memory of a field without presence holds anything but zeros. -/
def ValueOf.nonzero : ValueOf M → Bool
  | .fixed64 v => decide (v ≠ 0)
  | .fixed32 v => decide (v ≠ 0)
  | .uint64 v => decide (v ≠ 0)
  | .uint32 v => decide (v ≠ 0)
  | .int32 v => decide (v ≠ 0)
  | .bool v => v
  | .string v => decide (v.length ≠ 0)
  | .message m => m.isSome
  | .messages ms => !ms.isEmpty

def shouldEncode (f : FieldOf M) : Bool :=
  match f.presence with
  | .implicit => f.value.nonzero
  | .hasbit set => set
  | .oneof which => decide (which = f.number)

/-- `encode_scalar`, and `encode_array` for submessages. -/
def encodeField (sub : M → Encoder) (number : FieldNumber) : ValueOf M → Encoder
  | .fixed64 v => andThen (encodeFixed64 arena v) (encodeTag arena number .bit64)
  | .fixed32 v => andThen (encodeFixed32 arena v) (encodeTag arena number .bit32)
  | .uint64 v => andThen (encodeVarint arena v) (encodeTag arena number .varint)
  | .uint32 v => andThen (encodeVarint arena v.toUInt64) (encodeTag arena number .varint)
  | .int32 v => andThen (encodeVarint arena v.toInt64.toUInt64) (encodeTag arena number .varint)
  | .bool v => andThen (encodeVarint arena (if v then 1 else 0)) (encodeTag arena number .varint)
  | .string v =>
      andThen (andThen (encodeBytes arena v) (encodeVarint arena (UInt64.ofNat v.length)))
        (encodeTag arena number .delimited)
  | .message none => done
  | .message (some m) => andThen (encodeSub arena sub m) (encodeTag arena number .delimited)
  | .messages ms =>
      lastToFirst (ms.map fun m =>
        andThen (encodeSub arena sub m) (encodeTag arena number .delimited))

/-- `encode_message` with this much of `depth` left, which a submessage takes one from. -/
def encodeMessage : Nat → Message → Encoder
  | 0, _ => fun _ => .error .maxDepthExceeded
  | depth + 1, .mk fields =>
      lastToFirst (fields.map fun f =>
        if shouldEncode f then encodeField arena (encodeMessage depth) f.number f.value else done)

/-- `kUpb_WireFormat_DefaultDepthLimit`. -/
def defaultDepthLimit : Nat := 100

/-- `upb_Encode` with no options, in an arena of which `requests` were made before. -/
def encode (requests : Nat) (msg : Message) : Except EncodeStatus (Buffer UInt8) :=
  encodeMessage arena defaultDepthLimit msg { requests }

end

/-! ### The text of a message -/

mutual

/-- The fields that are written, in order. -/
def Message.fields : Message → List ProtoWire.Field
  | .mk fields => fieldsOf fields

def fieldsOf : List (FieldOf Message) → List ProtoWire.Field
  | [] => []
  | f :: fs => fieldOf f ++ fieldsOf fs

def fieldOf : FieldOf Message → List ProtoWire.Field
  | ⟨number, presence, value⟩ =>
      if shouldEncode ⟨number, presence, value⟩ then valueFields number value else []

def valueFields (number : FieldNumber) : ValueOf Message → List ProtoWire.Field
  | .fixed64 v => [⟨number, .fixed64 (leBytes 8 v.toNat)⟩]
  | .fixed32 v => [⟨number, .fixed32 (leBytes 4 v.toNat)⟩]
  | .uint64 v => [⟨number, .varint v⟩]
  | .uint32 v => [⟨number, .varint v.toUInt64⟩]
  | .int32 v => [⟨number, .varint v.toInt64.toUInt64⟩]
  | .bool v => [⟨number, .varint (if v then 1 else 0)⟩]
  | .string v => [⟨number, .len v⟩]
  | .message none => []
  | .message (some m) => [⟨number, .len (ProtoWire.encodeMessage m.fields)⟩]
  | .messages ms => messagesFields number ms

def messagesFields (number : FieldNumber) : List Message → List ProtoWire.Field
  | [] => []
  | m :: ms => ⟨number, .len (ProtoWire.encodeMessage m.fields)⟩ :: messagesFields number ms

end

def Message.text (m : Message) : Bytes := ProtoWire.encodeMessage m.fields

def ValueOf.submessages {M : Type} : ValueOf M → List M
  | .message m => m.toList
  | .messages ms => ms
  | _ => []

/-- No submessage that is written is further down than this. -/
def Fits : Nat → Message → Prop
  | 0, _ => False
  | depth + 1, .mk fields =>
      ∀ f ∈ fields, shouldEncode f = true → ∀ m ∈ f.value.submessages, Fits depth m

theorem Fits.step {depth : Nat} {m : Message} (h : Fits depth m) : Fits (depth + 1) m := by
  induction depth generalizing m with
  | zero => exact absurd h id
  | succ depth ih =>
      cases m with
      | mk fields => exact fun f hf hshown m hm => ih (h f hf hshown m hm)

theorem Fits.mono {depth limit : Nat} {m : Message} (h : Fits depth m) (hle : depth ≤ limit) :
    Fits limit m := by
  induction limit, hle using Nat.le_induction with
  | base => exact h
  | succ limit _ ih => exact ih.step

theorem messagesFields_eq (number : FieldNumber) (ms : List Message) :
    messagesFields number ms = ms.map fun m => ⟨number, .len m.text⟩ := by
  induction ms with
  | nil => rfl
  | cons m ms ih => rw [messagesFields, ih, List.map_cons, Message.text]

theorem fieldsOf_eq (fields : List (FieldOf Message)) :
    fieldsOf fields = fields.flatMap fieldOf := by
  induction fields with
  | nil => rfl
  | cons f fs ih => rw [fieldsOf, ih, List.flatMap_cons]

theorem text_mk (fields : List (FieldOf Message)) :
    (Message.mk fields).text = fields.flatMap fun f => ProtoWire.encodeMessage (fieldOf f) := by
  rw [Message.text, Message.fields, fieldsOf_eq, ProtoWire.encodeMessage, List.flatMap_assoc]
  rfl

/-! ### Varints -/

/-- The bytes so far and the shortest text of what is left. -/
def VarintState.text (s : VarintState) : Bytes :=
  s.buf ++ if s.val = 0 then [] else ProtoWire.encodeVarint s.val.toNat

/-- The number of rounds to come. -/
def VarintState.rounds (s : VarintState) : Nat :=
  if s.val = 0 then 0 else (ProtoWire.encodeVarint s.val.toNat).length

theorem septet_toNat (n : UInt64) : (n &&& 0x7F).toUInt8.toNat = n.toNat % 128 := by
  rw [UInt64.toNat_toUInt8, UInt64.toNat_and]
  change (n.toNat &&& 2 ^ 7 - 1) % 256 = n.toNat % 128
  rw [Nat.and_two_pow_sub_one_eq_mod]
  omega

theorem shift_toNat (n : UInt64) : (n >>> 7).toNat = n.toNat / 128 := by
  rw [UInt64.toNat_shiftRight]
  exact Nat.shiftRight_eq_div_pow n.toNat 7

theorem marked_toNat {b : UInt8} (h : b.toNat < 128) : (b ||| 0x80).toNat = b.toNat + 128 := by
  have hor : 128 + b.toNat = 128 ||| b.toNat := Nat.two_pow_add_eq_or_of_lt (i := 7) h 1
  rw [UInt8.toNat_or, Nat.or_comm, Nat.add_comm, hor]
  rfl

/-- A round takes one byte off the text that is left. -/
theorem encodeVarint_step (val : UInt64) :
    ProtoWire.encodeVarint val.toNat = (varintStep ⟨val, []⟩).text := by
  have hseptet := septet_toNat val
  have hshift := shift_toNat val
  have hless : (val &&& 0x7F).toUInt8.toNat < 128 := by
    rw [hseptet]
    exact Nat.mod_lt _ (by decide)
  rw [VarintState.text, varintStep, ProtoWire.encodeVarint]
  by_cases hlast : val >>> 7 = 0
  · have hdiv : val.toNat / 128 = 0 := by rw [← hshift, hlast]; rfl
    have hbyte : UInt8.ofNat val.toNat = (val &&& 0x7F).toUInt8 := by
      apply UInt8.toNat_inj.mp
      rw [UInt8.toNat_ofNat', hseptet]
      omega
    rw [if_pos (by omega)]
    simp [hlast, hbyte]
  · have hdiv : val.toNat / 128 ≠ 0 := by
      intro hzero
      exact hlast (UInt64.toNat_inj.mp (by rw [hshift, hzero]; rfl))
    have hbyte : UInt8.ofNat (val.toNat % 128 + 128) = (val &&& 0x7F).toUInt8 ||| 0x80 := by
      apply UInt8.toNat_inj.mp
      rw [UInt8.toNat_ofNat', marked_toNat hless, hseptet]
      omega
    rw [if_neg (by omega)]
    simp [hlast, hbyte, hshift]

theorem varintStep_text {s : VarintState} (h : s.val ≠ 0) : (varintStep s).text = s.text := by
  obtain ⟨val, buf⟩ := s
  have hstep := encodeVarint_step val
  simp only [VarintState.text, varintStep, List.nil_append] at hstep ⊢
  rw [if_neg h, hstep, List.append_assoc]

theorem varintStep_rounds {s : VarintState} (h : s.val ≠ 0) :
    (varintStep s).rounds < s.rounds := by
  have hstep := congrArg List.length (encodeVarint_step s.val)
  simp only [VarintState.text, List.length_append] at hstep
  have hbuf : (varintStep ⟨s.val, []⟩).buf.length = 1 := rfl
  have hval : (varintStep ⟨s.val, []⟩).val = (varintStep s).val := rfl
  rw [hbuf, hval] at hstep
  rw [VarintState.rounds, VarintState.rounds, if_neg h]
  split
  · omega
  · next hmore =>
    rw [if_neg hmore] at hstep
    omega

theorem encodeVarint_length (val : UInt64) : (ProtoWire.encodeVarint val.toNat).length ≤ 10 :=
  ProtoWire.encodeVarint_length_le (k := 9) (by
    have hlt := val.toNat_lt
    omega)

/-- The loop writes the shortest text of the number. -/
theorem encodeVarint64_eq (val : UInt64) :
    encodeVarint64 val = ProtoWire.encodeVarint val.toNat := by
  have hfirst := congrArg List.length (encodeVarint_step val)
  have hlength := encodeVarint_length val
  have hrounds : (varintStep ⟨val, []⟩).rounds ≤ 9 := by
    simp only [VarintState.text, List.length_append] at hfirst
    have hbuf : (varintStep ⟨val, []⟩).buf.length = 1 := rfl
    rw [hbuf] at hfirst
    rw [VarintState.rounds]
    split
    · omega
    · next hmore =>
      rw [if_neg hmore] at hfirst
      omega
  obtain ⟨htext, hend⟩ := whileLoop_invariant varintMore varintStep
    (fun s => s.text = ProtoWire.encodeVarint val.toNat) VarintState.rounds
    (fun s hs hmore => by
      have hval : s.val ≠ 0 := of_decide_eq_true hmore
      exact ⟨(varintStep_text hval).trans hs, varintStep_rounds hval⟩)
    (varintStep ⟨val, []⟩) 9 hrounds (encodeVarint_step val).symm
  have hzero := not_not.mp (of_decide_eq_false hend)
  rw [VarintState.text, if_pos hzero, List.append_nil] at htext
  exact htext

/-- Up to 2^63 bytes the loop ends before it wraps. -/
theorem le_roundupPow2 {bytes : Nat} (hbytes : bytes ≤ 2 ^ 63) : bytes ≤ roundupPow2 bytes := by
  obtain ⟨-, hend⟩ := whileLoop_invariant (fun ret => decide (ret < bytes))
    (fun ret => ret * 2 % 2 ^ 64) (fun ret => ∃ k, ret = 2 ^ k) (fun ret => bytes - ret)
    (fun ret hret hmore => by
      obtain ⟨k, rfl⟩ := hret
      have hless : 2 ^ k < bytes := of_decide_eq_true hmore
      have hk : k < 63 := (Nat.pow_lt_pow_iff_right (by decide)).mp (hless.trans_le hbytes)
      have hpos : 0 < 2 ^ k := Nat.two_pow_pos k
      have hdouble : 2 ^ k * 2 % 2 ^ 64 = 2 ^ (k + 1) := by
        rw [← pow_succ]
        exact Nat.mod_eq_of_lt (Nat.pow_lt_pow_right (by decide) (by omega))
      rw [hdouble]
      refine ⟨⟨k + 1, rfl⟩, ?_⟩
      rw [pow_succ]
      omega)
    128 bytes (by omega) ⟨7, rfl⟩
  have hnot := of_decide_eq_false hend
  exact Nat.le_of_not_lt hnot

/-! ### What an encoder puts in front -/

variable {arena : Allocator UInt8}

/-- The text, where it fits, unless the arena refuses; as long as no more than 2^63 bytes are
asked for, ten of them for a varint. -/
abbrev Writes (arena : Allocator UInt8) (fits : Prop) (w : Encoder) (text : Bytes) : Prop :=
  Prepends arena (2 ^ 63 - 10) .outOfMemory .maxDepthExceeded fits w text

theorem writes_bytes (octets : Bytes) : Writes arena True (encodeBytes arena octets) octets :=
  prepends_put (fun _ hm => le_roundupPow2 (by omega)) octets

theorem writes_fixed64 (val : UInt64) :
    Writes arena True (encodeFixed64 arena val)
      (ProtoWire.Content.fixed64 (leBytes 8 val.toNat)).text :=
  writes_bytes _

theorem writes_fixed32 (val : UInt32) :
    Writes arena True (encodeFixed32 arena val)
      (ProtoWire.Content.fixed32 (leBytes 4 val.toNat)).text :=
  writes_bytes _

theorem writes_varint (val : UInt64) :
    Writes arena True (encodeVarint arena val) (ProtoWire.encodeVarint val.toNat) := by
  have hlong : Writes arena True (encodeLongVarint arena val)
      (ProtoWire.encodeVarint val.toNat) := by
    rw [encodeLongVarint, encodeVarint64_eq]
    exact prepends_putWithin (fun _ hm => le_roundupPow2 (by omega)) (encodeVarint_length val)
  intro b hlimit
  by_cases hfast : val < 128 ∧ 1 ≤ b.room.length
  · obtain ⟨hval, hroom⟩ := hfast
    have hless : val.toNat < 128 := hval
    have hcells : (b.room.drop (b.room.length - 1)).length = 1 := by
      rw [List.length_drop]
      omega
    have hrun : encodeVarint arena val b = .ok ((b.advance 1).store [val.toUInt8]) :=
      if_pos ⟨hval, hroom⟩
    rw [hrun, ProtoWire.encodeVarint, if_pos hless]
    refine And.intro trivial (And.intro ?_ (.refl b.requests))
    change [val.toUInt8] ++ (b.room.drop (b.room.length - 1) ++ b.data).drop 1 = _
    rw [List.drop_left' hcells]
    rfl
  · have hrun : encodeVarint arena val b = encodeLongVarint arena val b := if_neg hfast
    rw [hrun]
    exact hlong b hlimit

theorem writes_size {n : Nat} (h : n < 2 ^ 64) :
    Writes arena True (encodeVarint arena (UInt64.ofNat n)) (ProtoWire.encodeVarint n) := by
  have hvarint : Writes arena True _ _ := writes_varint (UInt64.ofNat n)
  rwa [UInt64.toNat_ofNat_of_lt' h] at hvarint

theorem WireType.code_lt (wireType : WireType) : wireType.code.toNat < 2 ^ 3 := by
  cases wireType <;> decide

theorem writes_tag (number : FieldNumber) (wireType : WireType) :
    Writes arena True (encodeTag arena number wireType)
      (ProtoWire.encodeVarint (8 * number + wireType.code.toNat)) := by
  have hnumber := number.isLt
  have hcode := wireType.code_lt
  have hshift : (UInt32.ofNat number <<< 3).toNat = number.val <<< 3 := by
    rw [UInt32.toNat_shiftLeft, UInt32.toNat_ofNat_of_lt' (Nat.lt_trans hnumber (by decide))]
    change (number.val <<< 3) % 2 ^ 32 = number.val <<< 3
    rw [Nat.shiftLeft_eq]
    omega
  have hvalue : ((UInt32.ofNat number <<< 3) ||| wireType.code).toUInt64.toNat =
      8 * number + wireType.code.toNat := by
    rw [UInt32.toNat_toUInt64, UInt32.toNat_or, hshift, ← Nat.shiftLeft_add_eq_or_of_lt hcode,
      Nat.shiftLeft_eq]
    omega
  rw [encodeTag, ← hvalue]
  exact writes_varint _

/-- A field: what it carries, and its tag in front. -/
theorem writes_field {fits : Prop} {w : Encoder} {number : FieldNumber} {wireType : WireType}
    {content : ProtoWire.Content} (hwrites : Writes arena fits w content.text)
    (htype : wireType.code.toNat = content.wireType) :
    Writes arena fits (andThen w (encodeTag arena number wireType))
      (ProtoWire.Field.text ⟨number, content⟩) := by
  have htag : Writes arena True _ _ := writes_tag number wireType
  rw [htype] at htag
  exact (prepends_andThen hwrites htag).congr (and_true fits).to_iff rfl

theorem writes_string {v : Bytes} (h : v.length < 2 ^ 64) :
    Writes arena True
      (andThen (encodeBytes arena v) (encodeVarint arena (UInt64.ofNat v.length)))
      (ProtoWire.Content.len v).text :=
  (prepends_andThen (writes_bytes v) (writes_size h)).congr (and_self True).to_iff rfl

theorem writes_sub {fits : Prop} {sub : Message → Encoder} {m : Message}
    (hsub : Writes arena fits (sub m) m.text) (h : m.text.length < 2 ^ 64) :
    Writes arena fits (encodeSub arena sub m) (ProtoWire.Content.len m.text).text :=
  prepends_measured hsub (writes_size h)

/-- What is known of the submessages of a field carries over to the field. -/
theorem writes_value {fits : Message → Prop} {sub : Message → Encoder} (number : FieldNumber)
    (value : ValueOf Message)
    (hsub : ∀ m ∈ value.submessages, m.text.length < 2 ^ 64 →
      Writes arena (fits m) (sub m) m.text)
    (hlength : ∀ octets, ⟨number, .len octets⟩ ∈ valueFields number value →
      octets.length < 2 ^ 64) :
    Writes arena (∀ m ∈ value.submessages, fits m) (encodeField arena sub number value)
      (ProtoWire.encodeMessage (valueFields number value)) := by
  have hsingle : ∀ content : ProtoWire.Content,
      ProtoWire.encodeMessage [⟨number, content⟩] = ProtoWire.Field.text ⟨number, content⟩ :=
    fun content => List.flatMap_singleton _ _
  have hnone : True ↔ ∀ m ∈ ([] : List Message), fits m := by simp
  cases value with
  | fixed64 v =>
      rw [valueFields, hsingle]
      exact (writes_field (writes_fixed64 v) rfl).congr hnone rfl
  | fixed32 v =>
      rw [valueFields, hsingle]
      exact (writes_field (writes_fixed32 v) rfl).congr hnone rfl
  | uint64 v =>
      rw [valueFields, hsingle]
      exact (writes_field (writes_varint v) rfl).congr hnone rfl
  | uint32 v =>
      rw [valueFields, hsingle]
      exact (writes_field (writes_varint v.toUInt64) rfl).congr hnone rfl
  | int32 v =>
      rw [valueFields, hsingle]
      exact (writes_field (writes_varint v.toInt64.toUInt64) rfl).congr hnone rfl
  | bool v =>
      rw [valueFields, hsingle]
      exact (writes_field (writes_varint (if v then 1 else 0)) rfl).congr hnone rfl
  | string v =>
      rw [valueFields] at hlength
      have hv := hlength v List.mem_cons_self
      rw [valueFields, hsingle]
      exact (writes_field (writes_string hv) rfl).congr hnone rfl
  | message m =>
      cases m with
      | none => exact prepends_done.congr hnone rfl
      | some m =>
          rw [valueFields] at hlength
          have hm := hlength m.text List.mem_cons_self
          have hwrites := hsub m List.mem_cons_self hm
          rw [valueFields, hsingle]
          refine (writes_field (writes_sub hwrites hm) rfl).congr ?_ rfl
          change fits m ↔ ∀ m' ∈ [m], fits m'
          rw [List.forall_mem_singleton]
  | messages ms =>
      rw [valueFields, messagesFields_eq] at hlength ⊢
      rw [ProtoWire.encodeMessage, List.flatMap_map]
      refine prepends_lastToFirst fun m hm => ?_
      have hsize := hlength m.text (List.mem_map_of_mem hm)
      exact writes_field (writes_sub (hsub m hm hsize) hsize) rfl

/-- What one level of the recursion writes, given what the levels below write. -/
theorem writes_fields {fits : Message → Prop} {sub : Message → Encoder}
    {fields : List (FieldOf Message)}
    (hsub : ∀ m : Message, m.text.length < 2 ^ 64 → Writes arena (fits m) (sub m) m.text)
    (hlength : (Message.mk fields).text.length < 2 ^ 64) :
    Writes arena
      (∀ f ∈ fields, shouldEncode f = true → ∀ m ∈ f.value.submessages, fits m)
      (lastToFirst (fields.map fun f =>
        if shouldEncode f then encodeField arena sub f.number f.value else done))
      (Message.mk fields).text := by
  rw [text_mk]
  refine prepends_lastToFirst fun f hf => ?_
  rw [fieldOf]
  by_cases hshown : shouldEncode f = true
  · rw [if_pos hshown, if_pos hshown]
    have hfield : ∀ octets, ⟨f.number, .len octets⟩ ∈ valueFields f.number f.value →
        octets.length < 2 ^ 64 := by
      intro octets hmem
      have hshows : (⟨f.number, .len octets⟩ : ProtoWire.Field) ∈ (Message.mk fields).fields := by
        rw [Message.fields, fieldsOf_eq, List.mem_flatMap]
        refine ⟨f, hf, ?_⟩
        rwa [fieldOf, if_pos hshown]
      exact Nat.lt_of_le_of_lt (ProtoWire.length_le_encodeMessage hshows) hlength
    refine (writes_value f.number f.value (fun m _ hm => hsub m hm) hfield).congr ?_ rfl
    exact ⟨fun h _ => h, fun h => h hshown⟩
  · rw [if_neg hshown, if_neg hshown]
    exact prepends_done.congr ⟨fun _ h => absurd h hshown, fun _ => trivial⟩ rfl

/-- A message of any shape: its text in front of what is there, when it is not too deep. -/
theorem writes_message (depth : Nat) (m : Message) (h : m.text.length < 2 ^ 64) :
    Writes arena (Fits depth m) (encodeMessage arena depth m) m.text := by
  induction depth generalizing m with
  | zero => exact fun b _ => Or.inr ⟨rfl, id⟩
  | succ depth ih =>
      cases m with
      | mk fields => exact writes_fields ih h

/-- Whatever the message and the arena: `upb_Encode` gives the text, with every request granted,
or says which of the two limits was met. -/
theorem encode_outcome (arena : Allocator UInt8) (requests : Nat) (m : Message)
    (h : m.text.length + 10 ≤ 2 ^ 63) :
    (∃ b, encode arena requests m = .ok b ∧ b.data = m.text ∧ Fits defaultDepthLimit m ∧
        Granted arena requests b.requests) ∨
      (encode arena requests m = .error .outOfMemory ∧ Refused arena requests) ∨
      (encode arena requests m = .error .maxDepthExceeded ∧ ¬Fits defaultDepthLimit m) := by
  have hwrites : Writes arena _ _ _ := writes_message defaultDepthLimit m (by omega)
  have hlimit : m.text.length + ([] : Bytes).length ≤ 2 ^ 63 - 10 := by
    rw [List.length_nil]
    omega
  cases hrun : encode arena requests m with
  | ok b =>
      obtain ⟨hfits, hdata, hgranted⟩ := hwrites.ok hlimit hrun
      exact .inl ⟨b, rfl, hdata.trans (List.append_nil _), hfits, hgranted⟩
  | error e =>
      rcases hwrites.error hlimit hrun with ⟨rfl, hrefused⟩ | ⟨rfl, hdeep⟩
      · exact .inr (.inl ⟨rfl, hrefused⟩)
      · exact .inr (.inr ⟨rfl, hdeep⟩)

/-- Memory of zeros, as much as is asked for. -/
def zeros : Allocator UInt8 := fun _ => some fun _ => 0

theorem zeros_generous : Generous zeros := fun _ => rfl

/-- A string two levels down. -/
def greeting : Message :=
  .mk [⟨1, .hasbit true, .message (some (.mk [⟨2, .implicit, .string [104, 105]⟩]))⟩]

theorem greeting_text : greeting.text = [10, 4, 18, 2, 104, 105] := by
  simp [greeting, Message.text, Message.fields, fieldsOf, fieldOf, shouldEncode, ValueOf.nonzero,
    valueFields, ProtoWire.encodeMessage, ProtoWire.Field.text, ProtoWire.Content.text,
    ProtoWire.Content.wireType, ProtoWire.encodeVarint]

theorem encode_outcome_greeting :
    ∃ b, encode zeros 0 greeting = .ok b ∧ b.data = [10, 4, 18, 2, 104, 105] := by
  have hlength : greeting.text.length + 10 ≤ 2 ^ 63 := by
    rw [greeting_text]
    decide
  have hfits : Fits defaultDepthLimit greeting := by
    simp [greeting, defaultDepthLimit, Fits, ValueOf.submessages]
  rcases encode_outcome zeros 0 greeting hlength with
    ⟨b, hencode, hdata, -, -⟩ | ⟨-, hrefused⟩ | ⟨-, hdeep⟩
  · exact ⟨b, hencode, hdata.trans greeting_text⟩
  · exact absurd hrefused (zeros_generous.not_refused 0)
  · exact absurd hfits hdeep

end Microtel.Wire.UpbEncode
