import Microtel.Concentrator.Resource
import Microtel.Lib.SelfDelimiting

/-!
The bytes the fingerprint of a declared Resource is made of (`HashDeclaredResource` of
`src/sdk/leaf_resource.cpp`). They determine the attributes that are not reserved, so
that Resources that declare different ones share a fingerprint only where the hash itself
collides.
-/

namespace Microtel.Concentrator

namespace Fnv

/-! ### What is fed to the state -/

def boolBytes (b : Bool) : Bytes := [if b then 1 else 0]

/-- A `std::size_t`. -/
def sizeBytes (n : Nat) : Bytes := wordBytes (UInt64.ofNat n)

def stringBytes (s : Bytes) : Bytes := sizeBytes s.length ++ s

def elementBytes {α : Type} (bytes : α → Bytes) (values : List α) : Bytes :=
  sizeBytes values.length ++ values.flatMap bytes

/-- `value.index()`. -/
def index : AttributeValue → UInt64
  | .bool _ => 0
  | .int _ => 1
  | .double _ => 2
  | .string _ => 3
  | .bools _ => 4
  | .ints _ => 5
  | .doubles _ => 6
  | .strings _ => 7

def intBytes (i : Int64) : Bytes := wordBytes i.toUInt64

def payloadBytes : AttributeValue → Bytes
  | .bool b => boolBytes b
  | .int i => intBytes i
  | .double d => wordBytes d
  | .string s => stringBytes s
  | .bools v => elementBytes boolBytes v
  | .ints v => elementBytes intBytes v
  | .doubles v => elementBytes wordBytes v
  | .strings v => elementBytes stringBytes v

def valueBytes (value : AttributeValue) : Bytes := wordBytes (index value) ++ payloadBytes value

def attributeBytes (kv : KeyValue) : Bytes := stringBytes kv.key ++ valueBytes kv.value

theorem addBytes_append (hash : UInt64) (first second : Bytes) :
    addBytes hash (first ++ second) = addBytes (addBytes hash first) second :=
  List.foldl_append

theorem addString_eq (hash : UInt64) (s : Bytes) :
    addString hash s = addBytes hash (stringBytes s) := by
  rw [stringBytes, addBytes_append]
  rfl

theorem addElements_eq {α : Type} {add : UInt64 → α → UInt64} {bytes : α → Bytes}
    (h : ∀ hash x, add hash x = addBytes hash (bytes x)) (hash : UInt64) (values : List α) :
    addElements add hash values = addBytes hash (elementBytes bytes values) := by
  have hfold : ∀ hash, values.foldl add hash = addBytes hash (values.flatMap bytes) := by
    induction values with
    | nil => exact fun _ => rfl
    | cons x values ih =>
        intro hash
        rw [List.foldl_cons, ih, h, List.flatMap_cons, addBytes_append]
  rw [addElements, hfold, elementBytes, addBytes_append]
  rfl

theorem hashValue_eq (hash : UInt64) (value : AttributeValue) :
    hashValue hash value = addBytes hash (valueBytes value) := by
  rw [valueBytes, addBytes_append]
  cases value with
  | bool b => rfl
  | int i => rfl
  | double d => rfl
  | string s => exact addString_eq _ s
  | bools v => exact addElements_eq (fun _ _ => rfl) _ v
  | ints v => exact addElements_eq (fun _ _ => rfl) _ v
  | doubles v => exact addElements_eq (fun _ _ => rfl) _ v
  | strings v => exact addElements_eq addString_eq _ v

end Fnv

/-- The attributes a Resource declares of its own. -/
def declaredAttributes (resource : List KeyValue) : List KeyValue :=
  resource.filter fun kv => !isReserved kv.key

/-- All `HashDeclaredResource` feeds to its state, in order. -/
def declaredBytes (resource : List KeyValue) : Bytes :=
  resource.flatMap fun kv => if isReserved kv.key then [] else Fnv.attributeBytes kv

theorem declaredBytes_cons (kv : KeyValue) (resource : List KeyValue) :
    declaredBytes (kv :: resource) =
      (if isReserved kv.key then [] else Fnv.attributeBytes kv) ++ declaredBytes resource := by
  rw [declaredBytes, List.flatMap_cons]
  rfl

theorem hashDeclaredResource_eq (resource : List KeyValue) :
    hashDeclaredResource resource = Fnv.addBytes Fnv.offset (declaredBytes resource) := by
  have hfold : ∀ hash, resource.foldl (fun hash kv =>
      if isReserved kv.key then hash else Fnv.hashValue (Fnv.addString hash kv.key) kv.value)
      hash = Fnv.addBytes hash (declaredBytes resource) := by
    induction resource with
    | nil => exact fun _ => rfl
    | cons kv resource ih =>
        intro hash
        rw [List.foldl_cons, ih, declaredBytes_cons, Fnv.addBytes_append]
        congr 1
        split
        · rfl
        · rw [Fnv.attributeBytes, Fnv.addBytes_append, Fnv.addString_eq, Fnv.hashValue_eq]
  exact hfold Fnv.offset

theorem declaredBytes_eq (resource : List KeyValue) :
    declaredBytes resource = (declaredAttributes resource).flatMap Fnv.attributeBytes := by
  induction resource with
  | nil => rfl
  | cons kv resource ih =>
      rw [declaredBytes_cons, ih]
      by_cases h : isReserved kv.key = true
      · simp [h, declaredAttributes]
      · simp [h, declaredAttributes]

/-! ### The bytes are self-delimiting -/

namespace Fnv

theorem wordBytes_length (w : UInt64) : (wordBytes w).length = 8 := by
  simp [wordBytes]

/-- The byte at a place of a word is its digit to base 256. -/
theorem wordBytes_digit (w : UInt64) {i : Nat} (hi : i < 8) :
    ((wordBytes w).getD i 0).toNat = w.toNat / 256 ^ i % 256 := by
  have hshift : (8 * UInt64.ofNat i).toNat % 64 = 8 * i := by
    rw [UInt64.toNat_mul, UInt64.toNat_ofNat_of_lt' (by rw [UInt64.size]; omega)]
    simp only [UInt64.reduceToNat]
    omega
  have hget : (wordBytes w).getD i 0 = (w >>> (8 * UInt64.ofNat i)).toUInt8 := by
    simp [wordBytes, hi]
  rw [hget, UInt64.toNat_toUInt8, UInt64.toNat_shiftRight, hshift, Nat.shiftRight_eq_div_pow,
    Nat.pow_mul]

theorem eq_of_digits {n : Nat} : ∀ {v w : Nat}, v < 256 ^ n → w < 256 ^ n →
    (∀ i < n, v / 256 ^ i % 256 = w / 256 ^ i % 256) → v = w := by
  induction n with
  | zero =>
      intro v w hv hw _
      omega
  | succ n ih =>
      intro v w hv hw h
      have hlast : v % 256 = w % 256 := by simpa using h 0 (Nat.succ_pos n)
      have hrest : v / 256 = w / 256 := by
        apply ih
        · rw [Nat.pow_succ] at hv
          exact Nat.div_lt_of_lt_mul (by rwa [Nat.mul_comm] at hv)
        · rw [Nat.pow_succ] at hw
          exact Nat.div_lt_of_lt_mul (by rwa [Nat.mul_comm] at hw)
        · intro i hi
          have hdigit := h (i + 1) (Nat.succ_lt_succ hi)
          rwa [Nat.pow_succ', ← Nat.div_div_eq_div_mul, ← Nat.div_div_eq_div_mul] at hdigit
      omega

theorem wordBytes_injective {v w : UInt64} (h : wordBytes v = wordBytes w) : v = w := by
  apply UInt64.toNat_inj.mp
  apply eq_of_digits (n := 8) v.toNat_lt w.toNat_lt
  intro i hi
  rw [← wordBytes_digit v hi, ← wordBytes_digit w hi, h]

/-- A `std::size_t` counts less than this. -/
def sizeLimit : Nat := 2 ^ 64

theorem words (dom : UInt64 → Prop) : SelfDelimiting dom wordBytes :=
  .ofFixed wordBytes_length fun _ _ _ _ h => wordBytes_injective h

theorem sizes : SelfDelimiting (· < sizeLimit) sizeBytes := by
  apply SelfDelimiting.ofFixed (fun n => wordBytes_length (UInt64.ofNat n))
  intro n m hn hm h
  have hword := congrArg UInt64.toNat (wordBytes_injective h)
  rwa [UInt64.toNat_ofNat_of_lt' hn, UInt64.toNat_ofNat_of_lt' hm] at hword

theorem bools (dom : Bool → Prop) : SelfDelimiting dom boolBytes := by
  have hwidth : ∀ b, (boolBytes b).length = 1 := fun _ => rfl
  apply SelfDelimiting.ofFixed hwidth
  intro b b' _ _ h
  cases b <;> cases b' <;> first | rfl | exact absurd h (by decide)

theorem ints (dom : Int64 → Prop) : SelfDelimiting dom intBytes := by
  have hwidth : ∀ i, (intBytes i).length = 8 := fun i => wordBytes_length i.toUInt64
  apply SelfDelimiting.ofFixed hwidth
  intro i j _ _ h
  have hwords : wordBytes i.toUInt64 = wordBytes j.toUInt64 := h
  exact congrArg Int64.ofUInt64 (wordBytes_injective hwords)

theorem elements {α : Type} {dom : α → Prop} {bytes : α → Bytes}
    (h : SelfDelimiting dom bytes) :
    SelfDelimiting (fun v : List α => v.length < sizeLimit ∧ ∀ x ∈ v, dom x)
      (elementBytes bytes) :=
  sizes.counted h

theorem strings : SelfDelimiting (fun s : Bytes => s.length < sizeLimit) stringBytes := by
  have hbyte : SelfDelimiting (fun _ : UInt8 => True) fun b => [b] := by
    have hwidth : ∀ b : UInt8, [b].length = 1 := fun _ => rfl
    apply SelfDelimiting.ofFixed hwidth
    intro b b' _ _ h
    exact List.singleton_injective h
  have hcounted := sizes.counted hbyte
  intro s s' hs hs' rest rest' heq
  apply hcounted s s' ⟨hs, by simp⟩ ⟨hs', by simp⟩ rest rest'
  simpa [stringBytes] using heq

/-- Sizes a `std::string` or `std::vector` can have. -/
def ValueFits : AttributeValue → Prop
  | .string s => s.length < sizeLimit
  | .bools v => v.length < sizeLimit
  | .ints v => v.length < sizeLimit
  | .doubles v => v.length < sizeLimit
  | .strings v => v.length < sizeLimit ∧ ∀ s ∈ v, s.length < sizeLimit
  | _ => True

def Fits (kv : KeyValue) : Prop := kv.key.length < sizeLimit ∧ ValueFits kv.value

/-- Behind the same index the payloads have the same form. -/
theorem payloads (v w : AttributeValue) (hv : ValueFits v) (hw : ValueFits w)
    (hindex : index v = index w) (rest rest' : Bytes)
    (h : payloadBytes v ++ rest = payloadBytes w ++ rest') : v = w ∧ rest = rest' := by
  cases v with
  | bool b =>
      cases w with
      | bool b' =>
          obtain ⟨rfl, hrest⟩ := (bools fun _ => True) b b' trivial trivial _ _ h
          exact ⟨rfl, hrest⟩
      | _ => simp [index] at hindex
  | int i =>
      cases w with
      | int i' =>
          obtain ⟨rfl, hrest⟩ := (ints fun _ => True) i i' trivial trivial _ _ h
          exact ⟨rfl, hrest⟩
      | _ => simp [index] at hindex
  | double d =>
      cases w with
      | double d' =>
          obtain ⟨rfl, hrest⟩ := (words fun _ => True) d d' trivial trivial _ _ h
          exact ⟨rfl, hrest⟩
      | _ => simp [index] at hindex
  | string s =>
      cases w with
      | string s' =>
          obtain ⟨rfl, hrest⟩ := strings s s' hv hw _ _ h
          exact ⟨rfl, hrest⟩
      | _ => simp [index] at hindex
  | bools l =>
      cases w with
      | bools l' =>
          obtain ⟨rfl, hrest⟩ :=
            (elements (bools fun _ => True)) l l' ⟨hv, fun _ _ => trivial⟩
              ⟨hw, fun _ _ => trivial⟩ _ _ h
          exact ⟨rfl, hrest⟩
      | _ => simp [index] at hindex
  | ints l =>
      cases w with
      | ints l' =>
          obtain ⟨rfl, hrest⟩ :=
            (elements (ints fun _ => True)) l l' ⟨hv, fun _ _ => trivial⟩
              ⟨hw, fun _ _ => trivial⟩ _ _ h
          exact ⟨rfl, hrest⟩
      | _ => simp [index] at hindex
  | doubles l =>
      cases w with
      | doubles l' =>
          obtain ⟨rfl, hrest⟩ :=
            (elements (words fun _ => True)) l l' ⟨hv, fun _ _ => trivial⟩
              ⟨hw, fun _ _ => trivial⟩ _ _ h
          exact ⟨rfl, hrest⟩
      | _ => simp [index] at hindex
  | strings l =>
      cases w with
      | strings l' =>
          obtain ⟨rfl, hrest⟩ := (elements strings) l l' hv hw _ _ h
          exact ⟨rfl, hrest⟩
      | _ => simp [index] at hindex

theorem values : SelfDelimiting ValueFits valueBytes :=
  (words fun _ => True).append (fun _ _ => trivial) payloads

theorem attributes : SelfDelimiting Fits attributeBytes := by
  apply SelfDelimiting.append strings (fun kv hkv => hkv.1)
  intro kv kv' hkv hkv' hkey rest rest' h
  obtain ⟨hvalue, hrest⟩ := values _ _ hkv.2 hkv'.2 _ _ h
  refine ⟨?_, hrest⟩
  cases kv
  cases kv'
  simp only at hkey hvalue
  rw [hkey, hvalue]

theorem attributeBytes_ne_nil (kv : KeyValue) : attributeBytes kv ≠ [] := by
  intro h
  have hlength := congrArg List.length h
  simp only [attributeBytes, stringBytes, sizeBytes, List.length_append, wordBytes_length,
    List.length_nil] at hlength
  omega

end Fnv

/-! ### Main results -/

/-- The fingerprint is the hash of the declared bytes; these are the declared attributes
and nothing else, and where the attributes differ so do the bytes. -/
theorem declaredBytes_exact :
    (∀ resource, hashDeclaredResource resource =
        Fnv.addBytes Fnv.offset (declaredBytes resource)) ∧
      (∀ a b, declaredAttributes a = declaredAttributes b → declaredBytes a = declaredBytes b) ∧
      ∀ a b, (∀ kv ∈ a, Fnv.Fits kv) → (∀ kv ∈ b, Fnv.Fits kv) →
        declaredAttributes a ≠ declaredAttributes b → declaredBytes a ≠ declaredBytes b := by
  refine ⟨hashDeclaredResource_eq, ?_, ?_⟩
  · intro a b h
    rw [declaredBytes_eq, declaredBytes_eq, h]
  · intro a b ha hb hne heq
    rw [declaredBytes_eq, declaredBytes_eq] at heq
    apply hne
    apply Fnv.attributes.flatMap_injective Fnv.attributeBytes_ne_nil ?_ ?_ heq
    · intro kv hkv
      exact ha kv (List.mem_of_mem_filter hkv)
    · intro kv hkv
      exact hb kv (List.mem_of_mem_filter hkv)

/-- One string of two letters, and two strings of one. -/
theorem declaredBytes_exact_split :
    declaredBytes [⟨ascii "k", .strings [ascii "ab"]⟩] ≠
      declaredBytes [⟨ascii "k", .strings [ascii "a", ascii "b"]⟩] := by
  have hone : Fnv.Fits ⟨ascii "k", .strings [ascii "ab"]⟩ := by
    refine ⟨by decide, by decide, ?_⟩
    rw [List.forall_mem_singleton]
    decide
  have htwo : Fnv.Fits ⟨ascii "k", .strings [ascii "a", ascii "b"]⟩ := by
    refine ⟨by decide, by decide, ?_⟩
    rw [List.forall_mem_cons, List.forall_mem_singleton]
    decide
  apply declaredBytes_exact.2.2
  · simpa only [List.forall_mem_singleton] using hone
  · simpa only [List.forall_mem_singleton] using htwo
  · decide +kernel

end Microtel.Concentrator
