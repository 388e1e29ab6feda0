import Mathlib.Tactic

/-!
Output streams that write in pieces up to a limit, or only count. A writer that is run on
a counting stream first and on a writing stream then has to do the same twice; `Writes`
says what it offers, however often and wherever it is run.
-/

namespace OutStream

variable {α : Type}

/-- A consumer sees what it has taken so far and the next piece. -/
abbrev Consumer (α : Type) := List (List α) → List α → Bool

/-- Without a consumer the stream only counts. -/
structure Stream (α : Type) where
  consumer : Option (Consumer α) := none
  pieces : List (List α) := []
  limit : Nat := 0
  written : Nat := 0

/-- Whether all went well, and the stream after it. -/
abbrev Writer (α : Type) := Stream α → Bool × Stream α

/-- Counters hold the numbers below `modulus`. -/
def Stream.count (modulus n : Nat) (s : Stream α) : Stream α :=
  { s with written := (s.written + n) % modulus }

/-- A piece that does not fit or that the consumer refuses is not written; an empty one is
never offered. -/
def write (modulus : Nat) (piece : List α) : Writer α := fun s =>
  match s.consumer with
  | none => (true, s.count modulus piece.length)
  | some consumer =>
      if piece.length = 0 then (true, s.count modulus 0)
      else if modulus ≤ s.written + piece.length ∨ s.limit < s.written + piece.length then
        (false, s)
      else if !consumer s.pieces piece then (false, s)
      else (true, { s with pieces := s.pieces ++ [piece] }.count modulus piece.length)

/-- The second only where the first went well. -/
def Writer.andThen (first second : Writer α) : Writer α := fun s =>
  let (ok, s) := first s
  if ok then second s else (false, s)

def done : Writer α := fun s => (true, s)

/-- One writer after the other, up to the first that fails. -/
def inOrder : List (Writer α) → Writer α
  | [] => done
  | w :: ws => w.andThen (inOrder ws)

/-- A part of known size, on a stream of exactly that size; counting, the size is enough. -/
def limited (modulus size : Nat) (body : Writer α) : Writer α := fun s =>
  match s.consumer with
  | none => (true, s.count modulus size)
  | some _ =>
      if s.limit < (s.written + size) % modulus then (false, s)
      else
        let (ok, inner) := body { s with limit := size, written := 0 }
        let s := { s with pieces := inner.pieces }.count modulus inner.written
        if inner.written ≠ size then (false, s) else (ok, s)

/-- A part whose length goes in front of it: it is counted before it is written. -/
def sized (modulus : Nat) (header : Nat → Writer α) (body : Writer α) : Writer α := fun s =>
  let (ok, counted) := body {}
  if !ok then (false, s)
  else (header counted.written).andThen (limited modulus counted.written body) s

/-! ### What a writer offers -/

def size (pieces : List (List α)) : Nat := pieces.flatten.length

/-- The consumer takes every piece. -/
def Taken (consumer : Consumer α) : List (List α) → List (List α) → Prop
  | _, [] => True
  | before, piece :: pieces =>
      consumer before piece = true ∧ Taken consumer (before ++ [piece]) pieces

/-- Stopped before one of the pieces, when there is no room for all of them or this one is the
first that the consumer refuses. -/
def StopsIn (consumer : Consumer α) (pieces : List (List α)) (s s' : Stream α) : Prop :=
  ∃ taken piece more, pieces = taken ++ piece :: more ∧ s'.pieces = s.pieces ++ taken ∧
    Taken consumer s.pieces taken ∧ s.written + size taken ≤ s.limit ∧
    (s.limit < s.written + size pieces ∨ consumer (s.pieces ++ taken) piece = false)

/-- Run on a stream whose counter does not overflow, the writer counts or writes these
pieces; where they do not fit or are not all taken it fails within them. -/
structure Writes (modulus : Nat) (w : Writer α) (pieces : List (List α)) : Prop where
  counts : ∀ s, s.consumer = none → s.written < modulus →
    w s = (true, s.count modulus (size pieces))
  writes : ∀ s consumer, s.consumer = some consumer → s.written + size pieces < modulus →
    s.written + size pieces ≤ s.limit → Taken consumer s.pieces pieces →
      w s = (true, { s with pieces := s.pieces ++ pieces, written := s.written + size pieces })
  fails : ∀ s consumer, s.consumer = some consumer → s.written + size pieces < modulus →
    s.written ≤ s.limit → ¬(s.written + size pieces ≤ s.limit ∧ Taken consumer s.pieces pieces) →
      ∃ s', w s = (false, s') ∧ StopsIn consumer pieces s s'

variable {modulus : Nat} {pieces rest : List (List α)} {consumer : Consumer α}
  {first second : Writer α}

@[simp] theorem size_nil : size ([] : List (List α)) = 0 := rfl

@[simp] theorem size_cons (piece : List α) :
    size (piece :: pieces) = piece.length + size pieces := by
  simp [size]

@[simp] theorem size_append : size (pieces ++ rest) = size pieces + size rest := by
  simp [size]

theorem taken_append (before : List (List α)) :
    Taken consumer before (pieces ++ rest) ↔
      Taken consumer before pieces ∧ Taken consumer (before ++ pieces) rest := by
  induction pieces generalizing before with
  | nil => simp [Taken]
  | cons piece pieces ih => simp [Taken, ih, and_assoc]

theorem taken_of_all (h : ∀ before piece, consumer before piece = true)
    (before pieces : List (List α)) : Taken consumer before pieces := by
  induction pieces generalizing before with
  | nil => exact trivial
  | cons piece pieces ih => exact ⟨h before piece, ih _⟩

theorem count_zero {s : Stream α} (h : s.written < modulus) : s.count modulus 0 = s := by
  rw [Stream.count, Nat.add_zero, Nat.mod_eq_of_lt h]

theorem count_count (s : Stream α) (n m : Nat) :
    (s.count modulus n).count modulus m = s.count modulus (n + m) := by
  simp only [Stream.count, Nat.mod_add_mod, Nat.add_assoc]

/-! ### The writers -/

theorem writes_done : Writes modulus (done : Writer α) [] where
  counts s _ hcount := by
    rw [size_nil, count_zero hcount]
    rfl
  writes s consumer _ _ _ _ := by
    simp [done]
  fails s consumer _ _ hle hnot := by
    refine absurd ⟨?_, trivial⟩ hnot
    simpa using hle

theorem writes_empty : Writes modulus (write modulus ([] : List α)) [] where
  counts s hnone _ := by
    simp only [write, hnone]
    rfl
  writes s consumer hsome hcount _ _ := by
    have hzero : s.written < modulus := by simpa using hcount
    have hrun : write modulus [] s = (true, s.count modulus 0) := by
      simp only [write, hsome, List.length_nil, if_pos]
    rw [hrun, count_zero hzero]
    simp
  fails s consumer _ _ hle hnot := by
    refine absurd ⟨?_, trivial⟩ hnot
    simpa using hle

theorem writes_write {piece : List α} (h : piece ≠ []) :
    Writes modulus (write modulus piece) [piece] where
  counts s hnone _ := by
    simp [write, hnone]
  writes s consumer hsome hcount hfits htaken := by
    simp only [size_cons, size_nil, Nat.add_zero] at hcount hfits
    have hlength : piece.length ≠ 0 := by simpa using h
    simp only [write, hsome]
    rw [if_neg hlength, if_neg (by omega), if_neg (by simp [htaken.1]), Stream.count,
      Nat.mod_eq_of_lt hcount]
    simp
  fails s consumer hsome hcount hle hnot := by
    simp only [size_cons, size_nil, Nat.add_zero] at hcount hnot
    have hlength : piece.length ≠ 0 := by simpa using h
    have hfailed : write modulus piece s = (false, s) := by
      simp only [write, hsome]
      rw [if_neg hlength]
      split
      · rfl
      · next hfits =>
        rw [if_pos]
        simpa [Taken] using fun htaken => hnot ⟨by omega, htaken, trivial⟩
    refine ⟨s, hfailed, [], piece, [], rfl, (List.append_nil _).symm, trivial, hle, ?_⟩
    by_cases hroom : s.written + piece.length ≤ s.limit
    · refine .inr (Bool.eq_false_iff.mpr fun htaken => hnot ⟨hroom, ?_, trivial⟩)
      rwa [List.append_nil] at htaken
    · refine .inl ?_
      rw [size_cons, size_nil]
      omega

theorem Writes.andThen (h : Writes modulus first pieces) (h' : Writes modulus second rest) :
    Writes modulus (first.andThen second) (pieces ++ rest) where
  counts s hnone hcount := by
    have hsecond := h'.counts (s.count modulus (size pieces)) hnone (Nat.mod_lt _ (by omega))
    rw [Writer.andThen, h.counts s hnone hcount]
    change second (s.count modulus (size pieces)) = _
    rw [hsecond, count_count, size_append]
  writes s consumer hsome hcount hfits htaken := by
    rw [size_append] at hcount hfits
    rw [taken_append] at htaken
    have hsecond := h'.writes
      { s with pieces := s.pieces ++ pieces, written := s.written + size pieces } consumer hsome
      (by dsimp only; omega) (by dsimp only; omega) htaken.2
    rw [Writer.andThen, h.writes s consumer hsome (by omega) (by omega) htaken.1]
    change second _ = _
    rw [hsecond]
    simp [Nat.add_assoc]
  fails s consumer hsome hcount hle hnot := by
    rw [size_append] at hcount hnot
    rw [taken_append] at hnot
    by_cases hfirst : s.written + size pieces ≤ s.limit ∧ Taken consumer s.pieces pieces
    · obtain ⟨hfits, htaken⟩ := hfirst
      have hrest : ¬(s.written + size pieces + size rest ≤ s.limit ∧
          Taken consumer (s.pieces ++ pieces) rest) := by
        rintro ⟨hroom, hmore⟩
        exact hnot ⟨by omega, htaken, hmore⟩
      obtain ⟨s', hrun, part, piece, more, hsplit, hpieces, hpart, hroom, hstop⟩ := h'.fails
        { s with pieces := s.pieces ++ pieces, written := s.written + size pieces } consumer hsome
        (by dsimp only; omega) hfits hrest
      dsimp only at hpieces hpart hroom hstop
      refine ⟨s', ?_, pieces ++ part, piece, more, ?_, ?_, ?_, ?_, ?_⟩
      · rw [Writer.andThen, h.writes s consumer hsome (by omega) hfits htaken]
        exact hrun
      · rw [hsplit, List.append_assoc]
      · rw [hpieces, List.append_assoc]
      · exact (taken_append _).mpr ⟨htaken, hpart⟩
      · rw [size_append]
        omega
      · rw [← List.append_assoc, size_append]
        exact hstop.imp_left fun hless => by omega
    · obtain ⟨s', hrun, part, piece, more, hsplit, hpieces, hpart, hroom, hstop⟩ :=
        h.fails s consumer hsome (by omega) hle hfirst
      refine ⟨s', ?_, part, piece, more ++ rest, ?_, hpieces, hpart, hroom, ?_⟩
      · rw [Writer.andThen, hrun]
        rfl
      · rw [hsplit, List.append_assoc, List.cons_append]
      · rw [size_append]
        exact hstop.imp_left fun hless => by omega

theorem Writes.limited {body : Writer α} (h : Writes modulus body rest) :
    Writes modulus (limited modulus (size rest) body) rest where
  counts s hnone _ := by
    simp only [OutStream.limited, hnone]
  writes s consumer hsome hcount hfits htaken := by
    have hbody := h.writes { s with limit := size rest, written := 0 } consumer hsome
      (by dsimp only; omega) (by dsimp only; omega) htaken
    have hroom : ¬ s.limit < (s.written + size rest) % modulus := by
      rw [Nat.mod_eq_of_lt hcount]
      omega
    simp only [OutStream.limited, hsome]
    rw [if_neg hroom, ← hsome, hbody]
    simp [Stream.count, Nat.mod_eq_of_lt hcount]
  fails s consumer hsome hcount hle hnot := by
    by_cases hroom : s.written + size rest ≤ s.limit
    · -- what fails is the consumer, which the part meets in the same place
      have htaken : ¬ Taken consumer s.pieces rest := fun htaken => hnot ⟨hroom, htaken⟩
      obtain ⟨inner, hrun, part, piece, more, hsplit, hpieces, hpart, hless, hstop⟩ := h.fails
        { s with limit := size rest, written := 0 } consumer hsome (by dsimp only; omega)
        (by dsimp only; omega) (fun hall => htaken hall.2)
      dsimp only at hless hstop
      refine ⟨{ s with pieces := inner.pieces }.count modulus inner.written, ?_, part, piece,
        more, hsplit, hpieces, hpart, by omega, .inr (hstop.resolve_left (by omega))⟩
      simp only [OutStream.limited, hsome]
      rw [if_neg (by rw [Nat.mod_eq_of_lt hcount]; omega), ← hsome, hrun]
      exact ite_self _
    · obtain _ | ⟨piece, more⟩ := rest
      · rw [size_nil] at hroom
        omega
      · refine ⟨s, ?_, [], piece, more, rfl, (List.append_nil _).symm, trivial, hle,
          .inl (Nat.lt_of_not_le hroom)⟩
        simp only [OutStream.limited, hsome]
        rw [if_pos (by rw [Nat.mod_eq_of_lt hcount]; omega)]

/-- A part behind its length: what it counts is what it then writes. -/
theorem Writes.sized {header : Nat → Writer α} {body : Writer α} (h : Writes modulus body rest)
    (hsize : size rest < modulus) (hheader : Writes modulus (header (size rest)) pieces) :
    Writes modulus (sized modulus header body) (pieces ++ rest) := by
  have hcounted : body {} = (true, { written := size rest }) := by
    rw [h.counts {} rfl (by dsimp only; omega), Stream.count, Nat.zero_add, Nat.mod_eq_of_lt hsize]
  have hrun : OutStream.sized modulus header body =
      (header (size rest)).andThen (OutStream.limited modulus (size rest) body) := by
    funext s
    rw [OutStream.sized, hcounted]
    rfl
  rw [hrun]
  exact hheader.andThen h.limited

/-! ### The text -/

/-- The writer offers this text, in pieces that are not empty, if a counter can hold its
length. -/
def Emits (modulus : Nat) (w : Writer α) (text : List α) : Prop :=
  text.length < modulus → ∃ pieces, pieces.flatten = text ∧ [] ∉ pieces ∧ Writes modulus w pieces

variable {text text' : List α}

theorem emits_done : Emits modulus (done : Writer α) [] :=
  fun _ => ⟨[], rfl, List.not_mem_nil, writes_done⟩

theorem emits_write (text : List α) : Emits modulus (write modulus text) text := by
  intro _
  by_cases h : text = []
  · subst h
    exact ⟨[], rfl, List.not_mem_nil, writes_empty⟩
  · exact ⟨[text], by simp, by simpa using Ne.symm h, writes_write h⟩

theorem Emits.andThen (h : Emits modulus first text) (h' : Emits modulus second text') :
    Emits modulus (first.andThen second) (text ++ text') := by
  intro hlength
  rw [List.length_append] at hlength
  obtain ⟨pieces, htext, hpieces, hwrites⟩ := h (by omega)
  obtain ⟨rest, htext', hrest, hwrites'⟩ := h' (by omega)
  exact ⟨pieces ++ rest, by simp [htext, htext'], by simp [hpieces, hrest],
    hwrites.andThen hwrites'⟩

theorem emits_inOrder {β : Type} {writer : β → Writer α} {textOf : β → List α}
    {items : List β} (h : ∀ x ∈ items, Emits modulus (writer x) (textOf x)) :
    Emits modulus (inOrder (items.map writer)) (items.flatMap textOf) := by
  induction items with
  | nil => exact emits_done
  | cons x items ih =>
      obtain ⟨hx, hitems⟩ := List.forall_mem_cons.mp h
      exact hx.andThen (ih hitems)

theorem Emits.sized {header : Nat → Writer α} {body : Writer α} (h : Emits modulus body text)
    (hheader : text.length < modulus → Emits modulus (header text.length) text') :
    Emits modulus (sized modulus header body) (text' ++ text) := by
  intro hlength
  rw [List.length_append] at hlength
  obtain ⟨rest, htext, hrest, hbody⟩ := h (by omega)
  obtain ⟨pieces, htext', hpieces, hwrites⟩ := hheader (by omega) (by omega)
  have hsize : size rest = text.length := by rw [size, htext]
  rw [← hsize] at hwrites
  exact ⟨pieces ++ rest, by simp [htext, htext'], by simp [hpieces, hrest],
    hbody.sized (by omega) hwrites⟩

end OutStream
