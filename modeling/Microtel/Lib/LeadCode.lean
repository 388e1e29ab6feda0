import Mathlib.Tactic

/-!
Codes whose words start with a letter that only starts words and go on with letters that
only continue them, and of which none is the beginning of another. In a text of such a
code the places where a word may end are told by looking at one letter, so that a text
can be cut back to the nearest such place without being decoded.
-/

/-- A code with letters that start a word and letters that continue one. -/
structure LeadCode (κ α : Type) where
  encode : κ → List α
  continues : α → Bool
  shape : ∀ c, ∃ head tail, encode c = head :: tail ∧ continues head = false ∧
    ∀ a ∈ tail, continues a = true
  unique : ∀ c c' rest rest', encode c ++ rest = encode c' ++ rest' → c = c'

namespace LeadCode

variable {κ α : Type} (code : LeadCode κ α)

def text (words : List κ) : List α := words.flatMap code.encode

def IsText (s : List α) : Prop := ∃ words, s = code.text words

variable {code}

theorem text_cons (c : κ) (words : List κ) :
    code.text (c :: words) = code.encode c ++ code.text words := by
  rw [text, List.flatMap_cons]
  rfl

theorem isText_nil : code.IsText [] := ⟨[], rfl⟩

theorem encode_length_pos (c : κ) : 0 < (code.encode c).length := by
  obtain ⟨head, tail, heq, -⟩ := code.shape c
  simp [heq]

/-- A text that begins with a word is that word and a text. -/
theorem isText_append_iff {c : κ} {s : List α} :
    code.IsText (code.encode c ++ s) ↔ code.IsText s := by
  constructor
  · rintro ⟨words, heq⟩
    cases words with
    | nil =>
        have hlength := congrArg List.length heq
        have hpos := code.encode_length_pos c
        simp only [text, List.length_append, List.flatMap_nil, List.length_nil] at hlength
        omega
    | cons c' words =>
        rw [text_cons] at heq
        obtain rfl := code.unique c c' _ _ heq
        exact ⟨words, List.append_cancel_left heq⟩
  · rintro ⟨words, rfl⟩
    exact ⟨c :: words, (text_cons c words).symm⟩

/-- A beginning of a word is no text, apart from the empty one and the word. -/
theorem not_isText_take {c : κ} {k : Nat} (hpos : 0 < k) (hk : k < (code.encode c).length) :
    ¬ code.IsText ((code.encode c).take k) := by
  rintro ⟨words, heq⟩
  have hlength := congrArg List.length heq
  rw [List.length_take, Nat.min_eq_left hk.le] at hlength
  cases words with
  | nil =>
      simp only [text, List.flatMap_nil, List.length_nil] at hlength
      omega
  | cons c' words =>
      rw [text_cons] at heq hlength
      have hwhole : code.encode c ++ [] =
          code.encode c' ++ (code.text words ++ (code.encode c).drop k) := by
        rw [← List.append_assoc, ← heq, List.take_append_drop, List.append_nil]
      obtain rfl := code.unique c c' _ _ hwhole
      rw [List.length_append] at hlength
      omega

theorem continues_encode {c : κ} {k : Nat} (hpos : 0 < k) (hk : k < (code.encode c).length) :
    code.continues ((code.encode c)[k]) = true := by
  obtain ⟨head, tail, heq, -, htail⟩ := code.shape c
  apply htail
  have hmem : (code.encode c)[k] ∈ (code.encode c).drop 1 := by
    rw [List.mem_iff_getElem]
    refine ⟨k - 1, by rw [List.length_drop]; omega, ?_⟩
    rw [List.getElem_drop]
    congr 1
    omega
  have htail_eq : (code.encode c).drop 1 = tail := by rw [heq, List.drop_one, List.tail_cons]
  rwa [htail_eq] at hmem

/-- Inside a text a place is the end of a text just where no word goes on. -/
theorem isText_take_iff {s : List α} (h : code.IsText s) {k : Nat} (hk : k < s.length) :
    code.IsText (s.take k) ↔ code.continues s[k] = false := by
  obtain ⟨words, rfl⟩ := h
  induction words generalizing k with
  | nil => exact absurd hk (Nat.not_lt_zero k)
  | cons c words ih =>
      obtain ⟨head, tail, hencode, hhead, -⟩ := code.shape c
      rcases Nat.eq_zero_or_pos k with rfl | hpos
      · refine iff_of_true isText_nil ?_
        have hfirst : (code.text (c :: words))[0] = head := by
          simp [text_cons, hencode]
        rwa [hfirst]
      · by_cases hinside : k < (code.encode c).length
        · have htake : (code.text (c :: words)).take k = (code.encode c).take k := by
            rw [text_cons, List.take_append_of_le_length hinside.le]
          have hletter : (code.text (c :: words))[k] = (code.encode c)[k] := by
            simp only [text_cons]
            exact List.getElem_append_left hinside
          rw [htake, hletter, continues_encode hpos hinside]
          exact iff_of_false (not_isText_take hpos hinside) (by simp)
        · rw [Nat.not_lt] at hinside
          have hrest : k - (code.encode c).length < (code.text words).length := by
            rw [text_cons, List.length_append] at hk
            omega
          have htake : (code.text (c :: words)).take k =
              code.encode c ++ (code.text words).take (k - (code.encode c).length) := by
            rw [text_cons, List.take_append, List.take_of_length_le hinside]
          have hletter : (code.text (c :: words))[k] =
              (code.text words)[k - (code.encode c).length] := by
            simp only [text_cons]
            exact List.getElem_append_right hinside
          rw [htake, hletter, isText_append_iff, ih hrest]

variable (code) in
/-- The longest text among the beginnings of at most `limit` letters. -/
structure LongestText (limit : Nat) (s p : List α) : Prop where
  isPrefix : p <+: s
  bound : p.length ≤ limit
  isText : code.IsText p
  longest : ∀ q, q <+: s → q.length ≤ limit → code.IsText q → q.length ≤ p.length

/-- Cutting back from the limit over the letters that continue a word. -/
theorem longestText_take {s : List α} (h : code.IsText s) {limit cut : Nat}
    (hlimit : limit < s.length) (hcut : cut ≤ limit)
    (hstop : ∀ _ : cut < s.length, cut = 0 ∨ code.continues s[cut] = false)
    (hpassed : ∀ k (_ : k < s.length), cut < k → k ≤ limit → code.continues s[k] = true) :
    code.LongestText limit s (s.take cut) := by
  have hlength : (s.take cut).length = cut := by
    rw [List.length_take]
    omega
  refine ⟨List.take_prefix cut s, by omega, ?_, ?_⟩
  · have hinside : cut < s.length := by omega
    rcases hstop hinside with rfl | hstop
    · exact isText_nil
    · exact (isText_take_iff h hinside).mpr hstop
  · intro q hprefix hq htext
    by_contra hlonger
    have hinside : q.length < s.length := by omega
    have htake : q = s.take q.length := List.prefix_iff_eq_take.mp hprefix
    rw [htake, isText_take_iff h hinside, hpassed q.length hinside (by omega) hq] at htext
    cases htext

end LeadCode
