import Microtel.Lib.Walk

/-!
The protobuf wire format as a grammar: the texts of varints, of field contents, of
fields and of messages. An encoder has some freedom (a varint may be longer than it
must be), so a value may have many texts.
-/

namespace ProtoWire

/-- Groups of seven bits, the low one first: every octet but the last is marked. -/
inductive VarintText : List UInt8 → Nat → Prop
  | last {b : UInt8} (h : b.toNat < 128) : VarintText [b] b.toNat
  | more {b : UInt8} {text : List UInt8} {n : Nat} (h : 128 ≤ b.toNat)
      (hrest : VarintText text n) : VarintText (b :: text) (b.toNat % 128 + 128 * n)

/-- At most ten octets, read modulo 2^64. -/
def IsVarint (text : List UInt8) (v : UInt64) : Prop :=
  ∃ n, VarintText text n ∧ text.length ≤ 10 ∧ v = UInt64.ofNat n

theorem VarintText.ne_nil {text : List UInt8} {n : Nat} (h : VarintText text n) : text ≠ [] := by
  cases h <;> exact List.cons_ne_nil _ _

theorem IsVarint.ne_nil {text : List UInt8} {v : UInt64} (h : IsVarint text v) : text ≠ [] := by
  obtain ⟨n, hn, -⟩ := h
  exact hn.ne_nil

/-- What a field carries, by its wire type. -/
inductive Content
  | varint (v : UInt64)
  | fixed64 (octets : List UInt8)
  | len (octets : List UInt8)
  | fixed32 (octets : List UInt8)

def Content.wireType : Content → Nat
  | .varint _ => 0
  | .fixed64 _ => 1
  | .len _ => 2
  | .fixed32 _ => 5

inductive ContentText : List UInt8 → Content → Prop
  | varint {text : List UInt8} {v : UInt64} (h : IsVarint text v) : ContentText text (.varint v)
  | fixed64 {text : List UInt8} (h : text.length = 8) : ContentText text (.fixed64 text)
  | len {size octets : List UInt8} {n : UInt64} (h : IsVarint size n)
      (hlen : octets.length = n.toNat) : ContentText (size ++ octets) (.len octets)
  | fixed32 {text : List UInt8} (h : text.length = 4) : ContentText text (.fixed32 text)

structure Field where
  number : Nat
  content : Content

def maxFieldNumber : Nat := 2 ^ 29 - 1

/-- A tag and the content it announces. -/
inductive FieldText : List UInt8 → Field → Prop
  | field {tag text : List UInt8} {v : UInt64} {f : Field} (htag : IsVarint tag v)
      (hv : v.toNat = 8 * f.number + f.content.wireType) (hpos : 1 ≤ f.number)
      (hmax : f.number ≤ maxFieldNumber) (hcontent : ContentText text f.content) :
      FieldText (tag ++ text) f

abbrev MessageText : List UInt8 → List Field → Prop := Walk.Sequence FieldText

theorem FieldText.ne_nil {text : List UInt8} {f : Field} (h : FieldText text f) : text ≠ [] := by
  cases h with
  | field htag =>
      intro hnil
      exact htag.ne_nil (List.append_eq_nil_iff.mp hnil).1

theorem Content.wireType_lt (c : Content) : c.wireType < 8 := by
  cases c <;> simp [Content.wireType]

/-! ### The shortest texts -/

/-- A number in as few groups as it takes. -/
def encodeVarint (n : Nat) : List UInt8 :=
  if n < 128 then [UInt8.ofNat n] else UInt8.ofNat (n % 128 + 128) :: encodeVarint (n / 128)
termination_by n

theorem encodeVarint_text (n : Nat) : VarintText (encodeVarint n) n := by
  induction n using Nat.strongRecOn with
  | ind n ih =>
      unfold encodeVarint
      split
      · next hlast =>
        have hvalue : (UInt8.ofNat n).toNat = n := by
          rw [UInt8.toNat_ofNat']
          omega
        have hoctet : (UInt8.ofNat n).toNat < 128 := by omega
        have htext := VarintText.last hoctet
        rwa [hvalue] at htext
      · next hmore =>
        have hvalue : (UInt8.ofNat (n % 128 + 128)).toNat = n % 128 + 128 := by
          rw [UInt8.toNat_ofNat']
          omega
        have htext := VarintText.more (b := UInt8.ofNat (n % 128 + 128)) (by omega)
          (ih (n / 128) (by omega))
        have hsum : (UInt8.ofNat (n % 128 + 128)).toNat % 128 + 128 * (n / 128) = n := by omega
        rwa [hsum] at htext

theorem encodeVarint_length_le {n k : Nat} (h : n < 128 ^ (k + 1)) :
    (encodeVarint n).length ≤ k + 1 := by
  induction k generalizing n with
  | zero =>
      unfold encodeVarint
      rw [if_pos (by omega)]
      exact Nat.le_refl 1
  | succ k ih =>
      unfold encodeVarint
      split
      · rw [List.length_singleton]
        omega
      · have hrest := ih (n := n / 128) (by rw [pow_succ] at h; omega)
        rw [List.length_cons]
        omega

theorem isVarint_encodeVarint {n : Nat} (h : n < 2 ^ 64) :
    IsVarint (encodeVarint n) (UInt64.ofNat n) :=
  ⟨n, encodeVarint_text n, encodeVarint_length_le (k := 9) (by omega), rfl⟩

def Content.text : Content → List UInt8
  | .varint v => encodeVarint v.toNat
  | .fixed64 octets => octets
  | .len octets => encodeVarint octets.length ++ octets
  | .fixed32 octets => octets

def Content.Fits : Content → Prop
  | .varint _ => True
  | .fixed64 octets => octets.length = 8
  | .len octets => octets.length < 2 ^ 64
  | .fixed32 octets => octets.length = 4

theorem Content.contentText {c : Content} (h : c.Fits) : ContentText c.text c := by
  cases c with
  | varint v =>
      have hv := isVarint_encodeVarint v.toNat_lt
      rw [UInt64.ofNat_toNat] at hv
      exact .varint hv
  | fixed64 octets => exact .fixed64 h
  | len octets => exact .len (isVarint_encodeVarint h) (UInt64.toNat_ofNat_of_lt' h).symm
  | fixed32 octets => exact .fixed32 h

def Field.text (f : Field) : List UInt8 :=
  encodeVarint (8 * f.number + f.content.wireType) ++ f.content.text

structure Field.Fits (f : Field) : Prop where
  pos : 1 ≤ f.number
  max : f.number ≤ maxFieldNumber
  content : f.content.Fits

theorem Field.fieldText {f : Field} (h : f.Fits) : FieldText f.text f := by
  have hpos := h.pos
  have hmax : f.number ≤ 2 ^ 29 - 1 := h.max
  have htype := f.content.wireType_lt
  have htag : 8 * f.number + f.content.wireType < 2 ^ 64 := by omega
  exact .field (isVarint_encodeVarint htag) (UInt64.toNat_ofNat_of_lt' htag) hpos h.max
    (Content.contentText h.content)

/-- The fields of a message one after the other. -/
def encodeMessage (fields : List Field) : List UInt8 := fields.flatMap Field.text

theorem messageText_encodeMessage {fields : List Field} (h : ∀ f ∈ fields, f.Fits) :
    MessageText (encodeMessage fields) fields := by
  induction fields with
  | nil => exact .nil
  | cons f fields ih =>
      obtain ⟨hf, hfields⟩ := List.forall_mem_cons.mp h
      exact .cons (Field.fieldText hf) (ih hfields)

/-- A message is at least as long as what its fields carry. -/
theorem length_le_encodeMessage {fields : List Field} {number : Nat} {octets : List UInt8}
    (h : ⟨number, .len octets⟩ ∈ fields) : octets.length ≤ (encodeMessage fields).length := by
  have hfield : octets.length ≤ (Field.text ⟨number, .len octets⟩).length := by
    simp only [Field.text, Content.text, List.length_append]
    omega
  have hsublist : (Field.text ⟨number, .len octets⟩).Sublist (encodeMessage fields) := by
    rw [encodeMessage, List.flatMap]
    exact List.sublist_flatten_of_mem (List.mem_map_of_mem h)
  exact hfield.trans hsublist.length_le

end ProtoWire
