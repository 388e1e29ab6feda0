import Microtel.Wire.Gzip

/-!
`RunInflate` and `GzipDecompress` (`src/wire/gzip.cpp`) over any zlib: a pass may write
less than it has room for, read without writing, and report the end of the stream after the
pass that wrote the last of it.
-/

namespace Microtel.Wire

/-- What one call of `inflate` comes to. -/
structure Pass (Stream : Type) where
  rc : InflateRc
  written : Bytes
  stream : Stream

/-- zlib over one input. The bytes it writes before the end or an error do not depend on the
room it is given; a pass gets on, or ends the stream, or fails, and with room it fails only
where the stream does. -/
structure Inflater where
  Stream : Type
  start : Stream
  /-- One call, with so much room. -/
  inflate : Stream → Nat → Pass Stream
  availIn : Stream → Nat
  /-- What is still to be written before the end or an error. -/
  rest : Stream → Bytes
  /-- How much of the input lies behind the end of the stream, if it ends. -/
  unused : Option Nat
  fits : ∀ s room, (inflate s room).written.length ≤ room
  output : ∀ s room, rest s = (inflate s room).written ++ rest (inflate s room).stream
  input : ∀ s room, availIn (inflate s room).stream ≤ availIn s
  progress : ∀ s room, (inflate s room).rc = .ok →
    (inflate s room).written ≠ [] ∨ availIn (inflate s room).stream < availIn s
  ended : ∀ s room, (inflate s room).rc = .streamEnd →
    rest (inflate s room).stream = [] ∧ unused = some (availIn (inflate s room).stream)
  failed : ∀ s room, 0 < room → (inflate s room).rc = .failed →
    rest (inflate s room).stream = [] ∧ unused = none

namespace Inflater

variable (z : Inflater)

/-- A buffer of `size` bytes, of which `out` counts as produced. -/
structure Buffer (z : Inflater) where
  size : Nat
  out : Bytes
  stream : z.Stream

def begin : Buffer z := ⟨0, [], z.start⟩

def inflateChunk (b : Buffer z) : InflateRc × Buffer z :=
  let room := b.size - b.out.length
  let availOut := toUInt room
  let pass := z.inflate b.stream availOut
  -- the room that was cut off counts as produced, and holds zeros
  (pass.rc, ⟨b.size, b.out ++ pass.written ++ List.replicate (room - availOut) 0, pass.stream⟩)

/-- A full buffer grows. -/
def makeRoom (limit : Nat) (b : Buffer z) : Option (Buffer z) :=
  if b.out.length = b.size then (grow b.size limit).map fun size => ⟨size, b.out, b.stream⟩
  else some b

/-- What zlib has still to read and to write. -/
def remaining (s : z.Stream) : Nat := z.availIn s + (z.rest s).length

variable {z}

theorem makeRoom_keeps {limit : Nat} {b b' : Buffer z} (h : z.makeRoom limit b = some b') :
    b'.out = b.out ∧ b'.stream = b.stream := by
  unfold makeRoom at h
  by_cases hfull : b.out.length = b.size
  · rw [if_pos hfull, Option.map_eq_some_iff] at h
    obtain ⟨size, -, rfl⟩ := h
    exact ⟨rfl, rfl⟩
  · rw [if_neg hfull] at h
    cases h
    exact ⟨rfl, rfl⟩

/-- A pass that returns `Z_OK` leaves less to do. -/
theorem inflateChunk_progress_lt {b b' : Buffer z} (h : z.inflateChunk b = (.ok, b')) :
    z.remaining b'.stream < z.remaining b.stream := by
  obtain ⟨hrc, rfl⟩ := Prod.mk.inj h
  have hinput := z.input b.stream (toUInt (b.size - b.out.length))
  have houtput := congrArg List.length (z.output b.stream (toUInt (b.size - b.out.length)))
  rw [List.length_append] at houtput
  unfold remaining
  dsimp only
  rcases z.progress _ _ hrc with hwritten | hread
  · have hpos := List.length_pos_of_ne_nil hwritten
    omega
  · omega

variable (z)

/-- The loop of `RunInflate`: each pass but the last leaves less to do. -/
def runInflate (limit : Nat) (b : Buffer z) : InflateOutcome × Buffer z :=
  match _hroom : z.makeRoom limit b with
  | none => (⟨.ok, true⟩, b)
  | some grown =>
      match _hchunk : z.inflateChunk grown with
      | (.ok, b') => runInflate limit b'
      | (rc, b') => (⟨rc, false⟩, b')
termination_by z.remaining b.stream
decreasing_by
  have hprogress := inflateChunk_progress_lt _hchunk
  rwa [(makeRoom_keeps _hroom).2] at hprogress

def gzipDecompress (maxOutput : Nat) : Except GzipDecompressError Bytes :=
  if kUIntMax < z.availIn z.start then .error .corrupt
  else
    let (outcome, b) := z.runInflate (hardLimit maxOutput) z.begin
    if outcome.tooLarge ∨ maxOutput < b.out.length then .error .tooLarge
    else if outcome.rc ≠ .streamEnd then .error .corrupt
    else if z.availIn b.stream ≠ 0 then .error .corrupt
    else .ok b.out

/-- The buffers that growing and passes lead to. -/
inductive Reached (limit : Nat) : Buffer z → Prop
  | begin : Reached limit z.begin
  | grown {b b' : Buffer z} (h : Reached limit b) (hroom : z.makeRoom limit b = some b') :
      Reached limit b'
  | passed {b : Buffer z} (h : Reached limit b) : Reached limit (z.inflateChunk b).2

/-- What `GzipDecompress` is for: the whole output of a stream that ends with its input and is
not too large, in a buffer of at most one byte more. -/
structure Decompresses (maxOutput : Nat) : Prop where
  bounded : ∀ b, z.Reached (hardLimit maxOutput) b → b.size ≤ maxOutput + 1
  ok : ∀ out, z.gzipDecompress maxOutput = .ok out ↔
    out = z.rest z.start ∧ z.unused = some 0 ∧ (z.rest z.start).length ≤ maxOutput
  tooLarge : z.gzipDecompress maxOutput = .error .tooLarge ↔
    maxOutput < (z.rest z.start).length
  corrupt : z.gzipDecompress maxOutput = .error .corrupt ↔
    z.unused ≠ some 0 ∧ (z.rest z.start).length ≤ maxOutput

variable {z} {limit : Nat} {b b' : Buffer z}

theorem makeRoom_size (hle : b.size ≤ limit) (h : z.makeRoom limit b = some b') :
    b'.size ≤ limit := by
  unfold makeRoom at h
  by_cases hfull : b.out.length = b.size
  · rw [if_pos hfull, Option.map_eq_some_iff] at h
    obtain ⟨size, hgrow, rfl⟩ := h
    have hlt : b.size < limit := by
      by_contra hnot
      rw [grow, if_pos (Nat.not_lt.mp hnot)] at hgrow
      cases hgrow
    exact (grow_spec hlt hgrow).2.1
  · rw [if_neg hfull] at h
    cases h
    exact hle

theorem Reached.size_le (h : z.Reached limit b) : b.size ≤ limit := by
  induction h with
  | begin => exact Nat.zero_le _
  | grown _ hroom ih => exact makeRoom_size ih hroom
  | passed _ ih => exact ih

theorem hardLimit_le (maxOutput : Nat) : hardLimit maxOutput ≤ maxOutput + 1 := by
  unfold hardLimit
  split
  · omega
  · omega

theorem runInflate_of_full (h : z.makeRoom limit b = none) :
    z.runInflate limit b = (⟨.ok, true⟩, b) := by
  rw [runInflate]
  split
  · rfl
  · next heq =>
    rw [h] at heq
    cases heq

theorem runInflate_of_room {grown : Buffer z} (h : z.makeRoom limit b = some grown) :
    z.runInflate limit b =
      match z.inflateChunk grown with
      | (.ok, b') => z.runInflate limit b'
      | (rc, b') => (⟨rc, false⟩, b') := by
  rw [runInflate]
  split
  · next heq =>
    rw [h] at heq
    cases heq
  · next grown' heq =>
    rw [h, Option.some.injEq] at heq
    subst heq
    rcases z.inflateChunk grown with ⟨rc, b'⟩
    cases rc with
    | ok | streamEnd | failed => rfl

/-! ### Nothing is cut off -/

/-- What counts as produced is what zlib wrote, and the room is little enough. -/
structure Sound (limit : Nat) (b : Buffer z) : Prop where
  whole : b.out ++ z.rest b.stream = z.rest z.start
  fits : b.out.length ≤ b.size
  size : b.size ≤ limit
  room : b.size - b.out.length ≤ max kInitialOutputChunk b.out.length

theorem Sound.begin (z : Inflater) (limit : Nat) : Sound limit z.begin where
  whole := rfl
  fits := Nat.le_refl 0
  size := Nat.zero_le _
  room := Nat.zero_le _

theorem Sound.length_le (h : Sound limit b) : b.out.length ≤ (z.rest z.start).length := by
  rw [← h.whole, List.length_append]
  exact Nat.le_add_right _ _

theorem Sound.makeRoom (h : Sound limit b) (hroom : z.makeRoom limit b = some b') :
    Sound limit b' ∧ b'.out.length < b'.size := by
  have hsize := makeRoom_size h.size hroom
  unfold Inflater.makeRoom at hroom
  by_cases hfull : b.out.length = b.size
  · rw [if_pos hfull, Option.map_eq_some_iff] at hroom
    obtain ⟨size, hgrow, rfl⟩ := hroom
    have hlt : b.size < limit := by
      by_contra hnot
      rw [grow, if_pos (Nat.not_lt.mp hnot)] at hgrow
      cases hgrow
    obtain ⟨hmore, -, hlittle⟩ := grow_spec hlt hgrow
    rw [← hfull] at hmore hlittle
    exact ⟨⟨h.whole, Nat.le_of_lt hmore, hsize, hlittle⟩, hmore⟩
  · rw [if_neg hfull] at hroom
    cases hroom
    exact ⟨h, lt_of_le_of_ne h.fits hfull⟩

/-- A pass whose room is not cut. -/
theorem Sound.inflateChunk (h : Sound limit b) (hroom : b.size - b.out.length < 2 ^ 32) :
    Sound limit (z.inflateChunk b).2 := by
  have hcut : toUInt (b.size - b.out.length) = b.size - b.out.length := Nat.mod_eq_of_lt hroom
  have hfits := z.fits b.stream (b.size - b.out.length)
  have hsound := h.fits
  have hlittle := h.room
  unfold Inflater.inflateChunk
  dsimp only
  rw [hcut, Nat.sub_self, List.replicate_zero, List.append_nil]
  constructor
  · dsimp only
    rw [List.append_assoc, ← z.output]
    exact h.whole
  · dsimp only
    rw [List.length_append]
    omega
  · exact h.size
  · dsimp only
    rw [List.length_append]
    omega

/-- How the loop ends. -/
inductive Finished (limit : Nat) : InflateOutcome × Buffer z → Prop
  | full {b : Buffer z} (h : limit ≤ b.out.length)
      (hwhole : b.out.length ≤ (z.rest z.start).length) : Finished limit (⟨.ok, true⟩, b)
  | ended {b : Buffer z} (h : b.out = z.rest z.start)
      (hunused : z.unused = some (z.availIn b.stream)) :
      Finished limit (⟨.streamEnd, false⟩, b)
  | failed {b : Buffer z} (h : b.out = z.rest z.start) (hunused : z.unused = none) :
      Finished limit (⟨.failed, false⟩, b)

theorem Sound.full (h : Sound limit b) (hroom : z.makeRoom limit b = none) :
    Finished limit (⟨.ok, true⟩, b) := by
  refine .full ?_ h.length_le
  unfold Inflater.makeRoom at hroom
  by_cases hfull : b.out.length = b.size
  · rw [if_pos hfull, Option.map_eq_none_iff] at hroom
    by_contra hnot
    rw [grow, if_neg (by omega)] at hroom
    cases hroom
  · rw [if_neg hfull] at hroom
    cases hroom

/-- A pass that ends the loop, with room that is not cut. -/
theorem Sound.last (h : Sound limit b) (hpos : b.out.length < b.size)
    (hroom : b.size - b.out.length < 2 ^ 32) {rc : InflateRc}
    (hchunk : z.inflateChunk b = (rc, b')) (hrc : rc ≠ .ok) :
    Finished limit (⟨rc, false⟩, b') := by
  have hcut : toUInt (b.size - b.out.length) = b.size - b.out.length := Nat.mod_eq_of_lt hroom
  have hsound := h.inflateChunk hroom
  have hpass : (z.inflate b.stream (b.size - b.out.length)).rc = rc ∧
      (z.inflate b.stream (b.size - b.out.length)).stream = b'.stream := by
    have hfst := congrArg Prod.fst hchunk
    have hsnd := congrArg (fun p => p.2.stream) hchunk
    simp only [Inflater.inflateChunk, hcut] at hfst hsnd
    exact ⟨hfst, hsnd⟩
  rw [hchunk] at hsound
  have hwhole : z.rest b'.stream = [] → b'.out = z.rest z.start := by
    intro hrest
    rw [← hsound.whole, hrest, List.append_nil]
  cases rc with
  | ok => exact absurd rfl hrc
  | streamEnd =>
      obtain ⟨hrest, hunused⟩ := z.ended _ _ hpass.1
      rw [hpass.2] at hrest hunused
      exact .ended (hwhole hrest) hunused
  | failed =>
      obtain ⟨hrest, hunused⟩ := z.failed _ _ (Nat.sub_pos_of_lt hpos) hpass.1
      rw [hpass.2] at hrest
      exact .failed (hwhole hrest) hunused

/-- The loop, where no room it may come to is cut. -/
theorem runInflate_finished
    (hfree : ∀ b : Buffer z, Sound limit b → b.size - b.out.length < 2 ^ 32) (b : Buffer z)
    (h : Sound limit b) : Finished limit (z.runInflate limit b) := by
  induction hn : z.remaining b.stream using Nat.strong_induction_on generalizing b with
  | _ n ih =>
  subst hn
  cases hroom : z.makeRoom limit b with
  | none =>
      rw [runInflate_of_full hroom]
      exact h.full hroom
  | some grown =>
      obtain ⟨hgrown, hpos⟩ := h.makeRoom hroom
      rw [runInflate_of_room hroom]
      cases hchunk : z.inflateChunk grown with
      | mk rc b' =>
          cases rc with
          | ok =>
              have hsound := hgrown.inflateChunk (hfree grown hgrown)
              have hprogress := inflateChunk_progress_lt hchunk
              rw [(makeRoom_keeps hroom).2] at hprogress
              rw [hchunk] at hsound
              exact ih _ hprogress b' hsound rfl
          | streamEnd => exact hgrown.last hpos (hfree grown hgrown) hchunk (by decide)
          | failed => exact hgrown.last hpos (hfree grown hgrown) hchunk (by decide)

/-! ### The result -/

/-- What the result has to be. -/
def verdict (z : Inflater) (maxOutput : Nat) : Except GzipDecompressError Bytes :=
  if maxOutput < (z.rest z.start).length then .error .tooLarge
  else if z.unused = some 0 then .ok (z.rest z.start)
  else .error .corrupt

theorem decompresses_of_verdict {maxOutput : Nat}
    (h : z.gzipDecompress maxOutput = z.verdict maxOutput) : z.Decompresses maxOutput where
  bounded b hb := hb.size_le.trans (hardLimit_le maxOutput)
  ok out := by
    rw [h, verdict]
    by_cases hlarge : maxOutput < (z.rest z.start).length
    · rw [if_pos hlarge]
      refine iff_of_false (by simp) fun hall => ?_
      omega
    · rw [if_neg hlarge]
      by_cases hunused : z.unused = some 0
      · rw [if_pos hunused, Except.ok.injEq, eq_comm]
        exact iff_self_and.mpr fun _ => ⟨hunused, Nat.not_lt.mp hlarge⟩
      · rw [if_neg hunused]
        exact iff_of_false (by simp) fun hall => hunused hall.2.1
  tooLarge := by
    rw [h, verdict]
    by_cases hlarge : maxOutput < (z.rest z.start).length
    · rw [if_pos hlarge]
      exact iff_of_true rfl hlarge
    · rw [if_neg hlarge]
      refine iff_of_false ?_ hlarge
      split
      · simp
      · simp
  corrupt := by
    rw [h, verdict]
    by_cases hlarge : maxOutput < (z.rest z.start).length
    · rw [if_pos hlarge]
      refine iff_of_false (by simp) fun hall => ?_
      omega
    · rw [if_neg hlarge]
      by_cases hunused : z.unused = some 0
      · rw [if_pos hunused]
        exact iff_of_false (by simp) fun hall => hall.1 hunused
      · rw [if_neg hunused]
        exact iff_of_true rfl ⟨hunused, Nat.not_lt.mp hlarge⟩

theorem gzipDecompress_of_run (hinput : z.availIn z.start ≤ kUIntMax) {maxOutput : Nat}
    {outcome : InflateOutcome} (hrun : z.runInflate (hardLimit maxOutput) z.begin = (outcome, b)) :
    z.gzipDecompress maxOutput =
      if outcome.tooLarge ∨ maxOutput < b.out.length then .error .tooLarge
      else if outcome.rc ≠ .streamEnd then .error .corrupt
      else if z.availIn b.stream ≠ 0 then .error .corrupt
      else .ok b.out := by
  rw [gzipDecompress, if_neg (Nat.not_lt.mpr hinput), hrun]

/-- A loop that ended well gives the right result. -/
theorem verdict_of_finished (hinput : z.availIn z.start ≤ kUIntMax) {maxOutput : Nat}
    (hfinished : Finished (hardLimit maxOutput) (z.runInflate (hardLimit maxOutput) z.begin))
    (hfull : hardLimit maxOutput ≤ (z.rest z.start).length →
      maxOutput < (z.rest z.start).length) :
    z.gzipDecompress maxOutput = z.verdict maxOutput := by
  rw [verdict]
  cases hrun : z.runInflate (hardLimit maxOutput) z.begin with
  | mk outcome b =>
      rw [gzipDecompress_of_run hinput hrun]
      rw [hrun] at hfinished
      cases hfinished with
      | full hlimit hwhole =>
          rw [if_pos (Or.inl rfl), if_pos (hfull (hlimit.trans hwhole))]
      | ended hout hunused =>
          rw [hout]
          by_cases hlarge : maxOutput < (z.rest z.start).length
          · rw [if_pos (Or.inr hlarge), if_pos hlarge]
          · rw [if_neg (by simp [hlarge]), if_neg hlarge, if_neg (by simp), hunused]
            by_cases hnone : z.availIn b.stream = 0
            · rw [if_neg (not_not_intro hnone), hnone, if_pos rfl]
            · rw [if_pos hnone, if_neg (by simpa using hnone)]
      | failed hout hunused =>
          rw [hout]
          by_cases hlarge : maxOutput < (z.rest z.start).length
          · rw [if_pos (Or.inr hlarge), if_pos hlarge]
          · rw [if_neg (by simp [hlarge]), if_neg hlarge, if_pos (by simp), hunused,
              if_neg (by simp)]

theorem room_of_short (hshort : (z.rest z.start).length < 2 ^ 32) (b : Buffer z)
    (h : Sound limit b) : b.size - b.out.length < 2 ^ 32 := by
  have hlength := h.length_le
  have hroom := h.room
  unfold kInitialOutputChunk at hroom
  omega

theorem room_of_low (hlow : limit < 2 ^ 33) (b : Buffer z) (h : Sound limit b) :
    b.size - b.out.length < 2 ^ 32 := by
  have hsize := h.size
  have hroom := h.room
  unfold kInitialOutputChunk at hroom
  omega

/-- At a limit of 2^33 a room that is cut fills the buffer, and that is too much. -/
theorem runInflate_brink (hlong : 2 ^ 33 ≤ (z.rest z.start).length) (b : Buffer z)
    (h : Sound (2 ^ 33) b) :
    (z.runInflate (2 ^ 33) b).1.tooLarge = true ∨
      2 ^ 33 ≤ (z.runInflate (2 ^ 33) b).2.out.length := by
  induction hn : z.remaining b.stream using Nat.strong_induction_on generalizing b with
  | _ n ih =>
  subst hn
  cases hroom : z.makeRoom (2 ^ 33) b with
  | none =>
      rw [runInflate_of_full hroom]
      exact Or.inl rfl
  | some grown =>
      obtain ⟨hgrown, hpos⟩ := h.makeRoom hroom
      rw [runInflate_of_room hroom]
      cases hchunk : z.inflateChunk grown with
      | mk rc b' =>
          by_cases hcut : grown.size - grown.out.length < 2 ^ 32
          · have hlast : rc ≠ .ok → 2 ^ 33 ≤ b'.out.length := by
              intro hrc
              have hfinished := hgrown.last hpos hcut hchunk hrc
              cases hfinished with
              | ended hout | failed hout => rwa [hout]
            cases rc with
            | ok =>
                have hprogress := inflateChunk_progress_lt hchunk
                rw [(makeRoom_keeps hroom).2] at hprogress
                have hsound := hgrown.inflateChunk hcut
                rw [hchunk] at hsound
                exact ih _ hprogress b' hsound rfl
            | streamEnd | failed => exact Or.inr (hlast (by decide))
          · -- the room is 2^32 bytes: none is offered, and all of it counts as produced
            have hsize := hgrown.size
            have hlittle := hgrown.room
            unfold kInitialOutputChunk at hlittle
            have hroom' : grown.size - grown.out.length = 2 ^ 32 := by omega
            have hfits := z.fits grown.stream 0
            have hzero : toUInt (2 ^ 32) = 0 := by decide
            have hb' : b'.out.length = 2 ^ 33 ∧ b'.size = 2 ^ 33 := by
              have hsnd := congrArg (fun p => p.2.out.length) hchunk
              have hkept := congrArg (fun p => p.2.size) hchunk
              simp only [Inflater.inflateChunk, hroom', hzero, List.length_append,
                List.length_replicate] at hsnd hkept
              omega
            cases rc with
            | ok =>
                have hfull : z.makeRoom (2 ^ 33) b' = none := by
                  rw [Inflater.makeRoom, if_pos (by omega), hb'.2, grow, if_pos (Nat.le_refl _)]
                  rfl
                refine Or.inl ?_
                dsimp only
                rw [runInflate_of_full hfull]
            | streamEnd | failed => exact Or.inr (Nat.le_of_eq hb'.1.symm)

/-! ### A zlib that is cut off -/

/-- A pass that fills the room, and reports the end of the stream when it is asked for more. -/
def lazyPass (s : Bytes × Bool) (room : Nat) : Pass (Bytes × Bool) :=
  if s.1 = [] then ⟨.streamEnd, [], ([], true)⟩
  else if room = 0 then ⟨.failed, [], s⟩
  else ⟨.ok, s.1.take room, (s.1.drop room, s.2)⟩

theorem lazyPass_nil (ended : Bool) (room : Nat) :
    lazyPass ([], ended) room = ⟨.streamEnd, [], ([], true)⟩ := rfl

theorem lazyPass_cut {s : Bytes × Bool} (h : s.1 ≠ []) : lazyPass s 0 = ⟨.failed, [], s⟩ := by
  rw [lazyPass, if_neg h, if_pos rfl]

theorem lazyPass_room {s : Bytes × Bool} (h : s.1 ≠ []) {room : Nat} (hroom : 0 < room) :
    lazyPass s room = ⟨.ok, s.1.take room, (s.1.drop room, s.2)⟩ := by
  rw [lazyPass, if_neg h, if_neg (by omega)]

theorem lazyPass_cases (s : Bytes × Bool) (room : Nat) :
    s.1 = [] ∧ lazyPass s room = ⟨.streamEnd, [], ([], true)⟩ ∨
      s.1 ≠ [] ∧ room = 0 ∧ lazyPass s room = ⟨.failed, [], s⟩ ∨
      s.1 ≠ [] ∧ 0 < room ∧ lazyPass s room = ⟨.ok, s.1.take room, (s.1.drop room, s.2)⟩ := by
  by_cases hrest : s.1 = []
  · exact Or.inl ⟨hrest, by rw [lazyPass, if_pos hrest]⟩
  · rcases Nat.eq_zero_or_pos room with rfl | hroom
    · exact Or.inr (Or.inl ⟨hrest, rfl, lazyPass_cut hrest⟩)
    · exact Or.inr (Or.inr ⟨hrest, hroom, lazyPass_room hrest hroom⟩)

/-- A stream of one byte of input, that ends. -/
def lazy (output : Bytes) : Inflater where
  Stream := Bytes × Bool
  start := (output, false)
  inflate := lazyPass
  availIn s := if s.2 then 0 else 1
  rest := Prod.fst
  unused := some 0
  fits s room := by
    rcases lazyPass_cases s room with ⟨-, h⟩ | ⟨-, -, h⟩ | ⟨-, -, h⟩
    · rw [h]
      exact Nat.zero_le _
    · rw [h]
      exact Nat.zero_le _
    · rw [h]
      exact List.length_take_le ..
  output s room := by
    rcases lazyPass_cases s room with ⟨hrest, h⟩ | ⟨-, -, h⟩ | ⟨-, -, h⟩
    · rw [h]
      exact hrest
    · rw [h]
      rfl
    · rw [h]
      exact (List.take_append_drop room s.1).symm
  input s room := by
    rcases lazyPass_cases s room with ⟨-, h⟩ | ⟨-, -, h⟩ | ⟨-, -, h⟩
    · rw [h]
      exact Nat.zero_le _
    · rw [h]
    · rw [h]
  progress s room hrc := by
    rcases lazyPass_cases s room with ⟨-, h⟩ | ⟨-, -, h⟩ | ⟨hrest, hroom, h⟩
    · rw [h] at hrc
      cases hrc
    · rw [h] at hrc
      cases hrc
    · rw [h]
      refine Or.inl fun htake => hrest ((List.take_eq_nil_iff.mp htake).resolve_left ?_)
      omega
  ended s room hrc := by
    rcases lazyPass_cases s room with ⟨-, h⟩ | ⟨-, -, h⟩ | ⟨-, -, h⟩
    · rw [h]
      exact ⟨rfl, rfl⟩
    · rw [h] at hrc
      cases hrc
    · rw [h] at hrc
      cases hrc
  failed s room hpos hrc := by
    rcases lazyPass_cases s room with ⟨-, h⟩ | ⟨-, hroom, -⟩ | ⟨-, -, h⟩
    · rw [h] at hrc
      cases hrc
    · omega
    · rw [h] at hrc
      cases hrc

theorem inflateChunk_of_pass {pass : Pass z.Stream}
    (h : z.inflate b.stream (toUInt (b.size - b.out.length)) = pass) :
    z.inflateChunk b = (pass.rc, ⟨b.size,
      b.out ++ pass.written ++
        List.replicate (b.size - b.out.length - toUInt (b.size - b.out.length)) 0,
      pass.stream⟩) := by
  subst h
  rfl

section Lazy

variable {output : Bytes} {n m : Nat}

/-- A buffer of `m` bytes with the first `n` of the output. -/
def holding (output : Bytes) (n m : Nat) : Buffer (lazy output) :=
  ⟨m, output.take n, (output.drop n, false)⟩

theorem holding_length (hn : n ≤ output.length) : (holding output n m).out.length = n := by
  rw [holding, List.length_take, Nat.min_eq_left hn]

theorem makeRoom_holding (hn : n ≤ output.length) (hgrow : grow n limit = some m) :
    (lazy output).makeRoom limit (holding output n n) = some (holding output n m) := by
  have hgrow' : grow (holding output n n).size limit = some m := hgrow
  have hfull : (holding output n n).out.length = (holding output n n).size := holding_length hn
  rw [makeRoom, if_pos hfull, hgrow']
  rfl

/-- One round, where the output fills the new room. -/
theorem runInflate_holding (hgrow : grow n limit = some m) (hlt : n < m) (hcut : m - n < 2 ^ 32)
    (hm : m ≤ output.length) :
    (lazy output).runInflate limit (holding output n n) =
      (lazy output).runInflate limit (holding output m m) := by
  have hn : n ≤ output.length := by omega
  have hroom : (holding output n m).size - (holding output n m).out.length = m - n := by
    rw [holding_length hn]
    rfl
  have hwhole : toUInt (m - n) = m - n := Nat.mod_eq_of_lt hcut
  have hmore : output.drop n ≠ [] := by
    intro hnil
    rw [List.drop_eq_nil_iff] at hnil
    omega
  have hpass : (lazy output).inflate (holding output n m).stream
      (toUInt ((holding output n m).size - (holding output n m).out.length)) =
        ⟨.ok, (output.drop n).take (m - n), ((output.drop n).drop (m - n), false)⟩ := by
    rw [hroom, hwhole]
    exact lazyPass_room hmore (by omega)
  have hjoin : output.take n ++ (output.drop n).take (m - n) = output.take m := by
    rw [← List.take_add]
    congr 1
    omega
  have hdrop : (output.drop n).drop (m - n) = output.drop m := by
    rw [List.drop_drop]
    congr 1
    omega
  have hout : (holding output n m).out = output.take n := rfl
  rw [runInflate_of_room (makeRoom_holding hn hgrow), inflateChunk_of_pass hpass]
  dsimp only
  rw [hroom, hwhole, Nat.sub_self, List.replicate_zero, List.append_nil, hdrop, hout, hjoin]
  rfl

theorem grow_double (hn : kInitialOutputChunk ≤ n) (hlimit : 2 * n ≤ limit) :
    grow n limit = some (2 * n) := by
  unfold kInitialOutputChunk at hn
  unfold grow kInitialOutputChunk
  rw [if_neg (by omega)]
  dsimp only
  rw [if_neg (by omega)]
  congr 1
  omega

/-- The first passes fill 8 KiB, 16 KiB and so on up to 4 GiB. -/
theorem runInflate_doubling (hlimit : 2 ^ 33 ≤ limit) (houtput : 2 ^ 32 ≤ output.length) {k : Nat}
    (hk : k ≤ 19) :
    (lazy output).runInflate limit (lazy output).begin =
      (lazy output).runInflate limit (holding output (2 ^ (13 + k)) (2 ^ (13 + k))) := by
  induction k with
  | zero =>
      have hgrow : grow 0 limit = some (2 ^ 13) := by
        unfold grow kInitialOutputChunk
        rw [if_neg (by omega)]
        dsimp only
        rw [if_neg (by omega)]
        congr 1
        omega
      exact runInflate_holding hgrow (by decide) (by decide) (by omega)
  | succ k ih =>
      have hpow : 2 ^ (13 + (k + 1)) = 2 * 2 ^ (13 + k) := by ring
      have hsmall : 2 ^ (13 + k) ≤ 2 ^ 31 := Nat.pow_le_pow_right (by decide) (by omega)
      have hlarge : 2 ^ 13 ≤ 2 ^ (13 + k) := Nat.pow_le_pow_right (by decide) (by omega)
      rw [ih (by omega), hpow]
      exact runInflate_holding (grow_double hlarge (by omega)) (by omega) (by omega) (by omega)

/-- At 4 GiB the buffer grows by 4 GiB, zlib is offered none of it, and the loop ends with all of
it counted as produced. -/
theorem runInflate_cut (hlimit : 2 ^ 33 ≤ limit) (houtput : 2 ^ 32 ≤ output.length) :
    ∃ rc b, (lazy output).runInflate limit (lazy output).begin = (⟨rc, false⟩, b) ∧
      b.out.length = 2 ^ 33 ∧ (rc = .streamEnd → output.length = 2 ^ 32) := by
  have hroom : (holding output (2 ^ 32) (2 ^ 33)).size -
      (holding output (2 ^ 32) (2 ^ 33)).out.length = 2 ^ 32 := by
    rw [holding_length houtput]
    change 2 ^ 33 - 2 ^ 32 = 2 ^ 32
    norm_num
  have hzero : toUInt (2 ^ 32) = 0 := by decide
  have hgrow : grow (2 ^ 32) limit = some (2 ^ 33) := grow_double (by decide) (by omega)
  have hlength : ∀ b : Buffer (lazy output),
      b.out = (holding output (2 ^ 32) (2 ^ 33)).out ++ [] ++ List.replicate (2 ^ 32 - 0) 0 →
        b.out.length = 2 ^ 33 := by
    intro b hb
    rw [hb, List.length_append, List.append_nil, holding_length houtput, List.length_replicate]
    norm_num
  rw [runInflate_doubling hlimit houtput (Nat.le_refl 19),
    runInflate_of_room (makeRoom_holding houtput hgrow)]
  by_cases hmore : output.drop (2 ^ 32) = []
  · have hpass : (lazy output).inflate (holding output (2 ^ 32) (2 ^ 33)).stream
        (toUInt ((holding output (2 ^ 32) (2 ^ 33)).size -
          (holding output (2 ^ 32) (2 ^ 33)).out.length)) = ⟨.streamEnd, [], ([], true)⟩ := by
      change lazyPass (output.drop (2 ^ 32), false) _ = _
      rw [hmore]
      exact lazyPass_nil _ _
    rw [inflateChunk_of_pass hpass, hroom, hzero]
    refine ⟨_, _, rfl, hlength _ rfl, fun _ => ?_⟩
    rw [List.drop_eq_nil_iff] at hmore
    omega
  · have hpass : (lazy output).inflate (holding output (2 ^ 32) (2 ^ 33)).stream
        (toUInt ((holding output (2 ^ 32) (2 ^ 33)).size -
          (holding output (2 ^ 32) (2 ^ 33)).out.length)) =
            ⟨.failed, [], (output.drop (2 ^ 32), false)⟩ := by
      rw [hroom, hzero]
      exact lazyPass_cut hmore
    rw [inflateChunk_of_pass hpass, hroom, hzero]
    exact ⟨_, _, rfl, hlength _ rfl, fun heq => by cases heq⟩

/-- From 8 GiB of ceiling and 4 GiB of output on this zlib gets a wrong answer, but for a stream
that is too large under a ceiling of one byte less than 8 GiB. -/
theorem lazy_wrong {maxOutput : Nat} (hmax : 2 ^ 33 - 1 ≤ maxOutput)
    (houtput : 2 ^ 32 ≤ output.length)
    (hbrink : ¬ (maxOutput = 2 ^ 33 - 1 ∧ 2 ^ 33 ≤ output.length)) :
    ¬ (lazy output).Decompresses maxOutput := by
  intro h
  have hlimit : 2 ^ 33 ≤ hardLimit maxOutput := by
    unfold hardLimit
    split
    · decide
    · omega
  obtain ⟨rc, b, hrun, hlength, hend⟩ := runInflate_cut hlimit houtput
  have hinput : (lazy output).availIn (lazy output).start ≤ kUIntMax := by
    change 1 ≤ kUIntMax
    decide
  have hresult := gzipDecompress_of_run hinput hrun
  have hwhole : (lazy output).rest (lazy output).start = output := rfl
  by_cases hlarge : maxOutput < b.out.length
  · rw [if_pos (Or.inr hlarge)] at hresult
    have hlong := h.tooLarge.mp hresult
    rw [hwhole] at hlong
    omega
  · rw [if_neg (by simp [hlarge])] at hresult
    by_cases hrc : rc = .streamEnd
    · by_cases hrest : (lazy output).availIn b.stream = 0
      · rw [if_neg (not_not_intro hrc), if_neg (not_not_intro hrest)] at hresult
        have hout := ((h.ok b.out).mp hresult).1
        rw [hwhole] at hout
        have hlong := hend hrc
        rw [hout] at hlength
        omega
      · rw [if_neg (not_not_intro hrc), if_pos hrest] at hresult
        exact (h.corrupt.mp hresult).1 rfl
    · rw [if_pos hrc] at hresult
      exact (h.corrupt.mp hresult).1 rfl

end Lazy

/-! ### Every zlib -/

theorem hardLimit_of_lt {maxOutput : Nat} (h : maxOutput < kSizeMax) :
    hardLimit maxOutput = maxOutput + 1 := by
  rw [hardLimit, if_neg (by omega)]

/-- Whatever zlib does, the result is right, where no room comes to 4 GiB: below 4 GiB of output,
below a ceiling of 8 GiB less one, and where such a room is too much anyway. -/
theorem decompresses_of_covered (hinput : z.availIn z.start ≤ kUIntMax) {maxOutput : Nat}
    (h : (z.rest z.start).length < 2 ^ 32 ∨ maxOutput < 2 ^ 33 - 1 ∨
      (maxOutput = 2 ^ 33 - 1 ∧ 2 ^ 33 ≤ (z.rest z.start).length)) :
    z.Decompresses maxOutput := by
  have hkSize : kSizeMax = 18446744073709551615 := by decide
  apply decompresses_of_verdict
  rcases h with hshort | hlow | ⟨hmax, hlong⟩
  · have hfinished := runInflate_finished (room_of_short hshort) z.begin
      (Sound.begin z (hardLimit maxOutput))
    refine verdict_of_finished hinput hfinished fun hfull => ?_
    unfold hardLimit at hfull
    split at hfull
    · omega
    · omega
  · have hlimit : hardLimit maxOutput = maxOutput + 1 := hardLimit_of_lt (by omega)
    have hlow' : hardLimit maxOutput < 2 ^ 33 := by omega
    have hfinished := runInflate_finished (room_of_low hlow') z.begin (Sound.begin z _)
    refine verdict_of_finished hinput hfinished fun hfull => ?_
    omega
  · have hlimit : hardLimit maxOutput = 2 ^ 33 := by
      rw [hardLimit_of_lt (by omega)]
      omega
    have hbrink := runInflate_brink hlong z.begin (Sound.begin z _)
    cases hrun : z.runInflate (2 ^ 33) z.begin with
    | mk outcome b =>
        rw [hrun] at hbrink
        have hlarge : outcome.tooLarge = true ∨ maxOutput < b.out.length :=
          hbrink.imp_right fun hout => by
            dsimp only at hout
            omega
        rw [gzipDecompress_of_run hinput (hlimit ▸ hrun), if_pos hlarge, verdict,
          if_pos (by omega)]

/-- For which outputs and ceilings `GzipDecompress` is right whatever zlib does. -/
theorem decompresses_iff (output : Bytes) (maxOutput : UInt64) :
    (∀ z : Inflater, z.rest z.start = output → z.availIn z.start ≤ kUIntMax →
      z.Decompresses maxOutput.toNat) ↔
    output.length < 2 ^ 32 ∨ maxOutput.toNat < 2 ^ 33 - 1 ∨
      (maxOutput.toNat = 2 ^ 33 - 1 ∧ 2 ^ 33 ≤ output.length) := by
  constructor
  · intro hall
    by_contra hnot
    rw [not_or, not_or, Nat.not_lt, Nat.not_lt] at hnot
    obtain ⟨houtput, hmax, hbrink⟩ := hnot
    refine lazy_wrong hmax houtput hbrink (hall (lazy output) rfl ?_)
    change 1 ≤ kUIntMax
    decide
  · rintro h z rfl hinput
    exact decompresses_of_covered hinput h

/-- A byte more than 4 GiB of zeros, under a ceiling of 8 GiB. -/
theorem fourGiB_wrong :
    ¬ ∀ (z : Inflater) (maxOutput : UInt64), z.availIn z.start ≤ kUIntMax →
      z.Decompresses maxOutput.toNat := by
  intro h
  have hlength : (List.replicate (2 ^ 32 + 1) (0 : UInt8)).length = 2 ^ 32 + 1 :=
    List.length_replicate
  have hmax : (8589934592 : UInt64).toNat = 2 ^ 33 := by decide
  have hright : (lazy (List.replicate (2 ^ 32 + 1) 0)).Decompresses (2 ^ 33) := by
    rw [← hmax]
    refine h (lazy (List.replicate (2 ^ 32 + 1) 0)) 8589934592 ?_
    change 1 ≤ kUIntMax
    decide
  exact lazy_wrong (by norm_num) (by rw [hlength]; omega) (by rw [hlength]; omega) hright

/-! ### The zlib of `Zlib.inflate` -/

variable {inflation : Inflation} {inputLength : Nat}

/-- It fills the room, and ends or fails with the pass that writes the last byte. -/
def eagerPass (inflation : Inflation) (s : Nat × Bool) (room : Nat) : Pass (Nat × Bool) :=
  let chunk := (inflation.output.drop s.1).take room
  let rc := inflation.rc chunk.length (s.1 + chunk.length)
  ⟨rc, chunk, (s.1 + chunk.length, s.2 || rc = .streamEnd)⟩

/-- Where a pass with `written` bytes out does not return `Z_OK`, all is written, or there was
no progress. -/
theorem rc_cases (inflation : Inflation) (progress written : Nat) :
    written < inflation.output.length ∧ progress = 0 ∧
        inflation.rc progress written = .failed ∨
      written < inflation.output.length ∧ progress ≠ 0 ∧ inflation.rc progress written = .ok ∨
      inflation.output.length ≤ written ∧ inflation.unused.isSome = true ∧
        inflation.rc progress written = .streamEnd ∨
      inflation.output.length ≤ written ∧ inflation.unused = none ∧
        inflation.rc progress written = .failed := by
  unfold Inflation.rc
  by_cases hmore : written < inflation.output.length
  · rw [if_pos hmore]
    by_cases hprogress : progress = 0
    · rw [if_pos hprogress]
      exact Or.inl ⟨hmore, hprogress, rfl⟩
    · rw [if_neg hprogress]
      exact Or.inr (Or.inl ⟨hmore, hprogress, rfl⟩)
  · rw [if_neg hmore]
    cases hunused : inflation.unused with
    | none => exact Or.inr (Or.inr (Or.inr ⟨Nat.not_lt.mp hmore, rfl, rfl⟩))
    | some n => exact Or.inr (Or.inr (Or.inl ⟨Nat.not_lt.mp hmore, rfl, rfl⟩))

/-- `inflation` of an input of so many bytes, pass after pass. -/
def eager (inflation : Inflation) (inputLength : Nat)
    (hunused : ∀ n ∈ inflation.unused, n ≤ inputLength) : Inflater where
  Stream := Nat × Bool
  start := (0, false)
  inflate := eagerPass inflation
  availIn s := if s.2 then inflation.unused.getD 0 else inputLength
  rest s := inflation.output.drop s.1
  unused := inflation.unused
  fits s room := List.length_take_le ..
  output s room := by
    have hjoin := List.take_append_drop room (inflation.output.drop s.1)
    have hrest : (inflation.output.drop s.1).drop room = inflation.output.drop
        (s.1 + ((inflation.output.drop s.1).take room).length) := by
      rw [List.length_take, List.length_drop, List.drop_drop]
      by_cases hfits : room ≤ inflation.output.length - s.1
      · rw [Nat.min_eq_left hfits]
      · rw [List.drop_eq_nil_of_le (by omega), List.drop_eq_nil_of_le (by omega)]
    rw [hrest] at hjoin
    exact hjoin.symm
  input s room := by
    have hle : inflation.unused.getD 0 ≤ inputLength := by
      cases hn : inflation.unused with
      | none => exact Nat.zero_le _
      | some n => exact hunused n hn
    have hbound : ∀ ended : Bool,
        (if ended then inflation.unused.getD 0 else inputLength) ≤ inputLength := by
      intro ended
      cases ended with
      | true => exact hle
      | false => exact Nat.le_refl _
    cases hs : s.2 with
    | true => simp [eagerPass, hs]
    | false => exact hbound _
  progress s room hrc := by
    refine Or.inl fun hnone => ?_
    rcases rc_cases inflation ((inflation.output.drop s.1).take room).length
      (s.1 + ((inflation.output.drop s.1).take room).length) with
      ⟨-, -, h⟩ | ⟨-, hprogress, -⟩ | ⟨-, -, h⟩ | ⟨-, -, h⟩
    · exact absurd (hrc.symm.trans h) (by decide)
    · exact hprogress (List.length_eq_zero_iff.mpr hnone)
    · exact absurd (hrc.symm.trans h) (by decide)
    · exact absurd (hrc.symm.trans h) (by decide)
  ended s room hrc := by
    rcases rc_cases inflation ((inflation.output.drop s.1).take room).length
      (s.1 + ((inflation.output.drop s.1).take room).length) with
      ⟨-, -, h⟩ | ⟨-, -, h⟩ | ⟨hall, hsome, -⟩ | ⟨-, -, h⟩
    · exact absurd (hrc.symm.trans h) (by decide)
    · exact absurd (hrc.symm.trans h) (by decide)
    · have hstream : (eagerPass inflation s room).stream.2 = true := by
        dsimp only [eagerPass] at hrc ⊢
        rw [hrc]
        simp
      refine ⟨List.drop_eq_nil_of_le hall, ?_⟩
      rw [if_pos hstream]
      obtain ⟨n, hn⟩ := Option.isSome_iff_exists.mp hsome
      rw [hn]
      rfl
    · exact absurd (hrc.symm.trans h) (by decide)
  failed s room hpos hrc := by
    rcases rc_cases inflation ((inflation.output.drop s.1).take room).length
      (s.1 + ((inflation.output.drop s.1).take room).length) with
      ⟨hmore, hnone, -⟩ | ⟨-, -, h⟩ | ⟨-, -, h⟩ | ⟨hall, hnone, -⟩
    · rw [List.length_take, List.length_drop] at hmore hnone
      omega
    · exact absurd (hrc.symm.trans h) (by decide)
    · exact absurd (hrc.symm.trans h) (by decide)
    · exact ⟨List.drop_eq_nil_of_le hall, hnone⟩

section Eager

variable {hunused : ∀ n ∈ inflation.unused, n ≤ inputLength}

/-- The two loops hold the same bytes, at the same place of the stream. -/
structure Alike (b : Buffer (eager inflation inputLength hunused)) (s : Inflating) : Prop where
  size : b.size = s.size
  out : b.out = s.out
  written : b.stream.1 = s.written

theorem Alike.makeRoom {b : Buffer (eager inflation inputLength hunused)} {s : Inflating}
    (h : Alike b s) (limit : Nat) :
    (eager inflation inputLength hunused).makeRoom limit b =
      (if s.out.length = s.size then grow s.size limit else some s.size).map
        fun size => ⟨size, b.out, b.stream⟩ := by
  rw [Inflater.makeRoom, h.out, h.size]
  by_cases hfull : s.out.length = s.size
  · rw [if_pos hfull, if_pos hfull]
  · rw [if_neg hfull, if_neg hfull, Option.map_some, ← h.out, ← h.size]

theorem Alike.grown {b : Buffer (eager inflation inputLength hunused)} {s : Inflating}
    (h : Alike b s) (size : Nat) :
    Alike (⟨size, b.out, b.stream⟩ : Buffer (eager inflation inputLength hunused))
      ⟨size, s.out, s.written⟩ := ⟨rfl, h.out, h.written⟩

/-- A pass of either loop; at the end of the stream, what was not read is left. -/
theorem Alike.inflateChunk {b : Buffer (eager inflation inputLength hunused)} {s : Inflating}
    (h : Alike b s) :
    ((eager inflation inputLength hunused).inflateChunk b).1 =
        (Wire.inflateChunk inflation s).1 ∧
      Alike ((eager inflation inputLength hunused).inflateChunk b).2
        (Wire.inflateChunk inflation s).2 ∧
      (((eager inflation inputLength hunused).inflateChunk b).1 = .streamEnd →
        inflation.unused = some ((eager inflation inputLength hunused).availIn
          ((eager inflation inputLength hunused).inflateChunk b).2.stream)) := by
  have hended := (eager inflation inputLength hunused).ended b.stream
    (toUInt (b.size - b.out.length))
  obtain ⟨size, out, written, ended⟩ := b
  obtain ⟨hsize, hout, hwritten⟩ := h
  dsimp only at hsize hout hwritten
  subst hsize hout hwritten
  exact ⟨rfl, ⟨rfl, rfl, rfl⟩, fun hend => (hended hend).2⟩

/-- How the two loops end. -/
structure Agree (r : InflateOutcome × Buffer (eager inflation inputLength hunused))
    (r' : InflateOutcome × Inflating) : Prop where
  outcome : r.1 = r'.1
  out : r.2.out = r'.2.out
  ended : r.1.rc = .streamEnd →
    inflation.unused = some ((eager inflation inputLength hunused).availIn r.2.stream)

/-- One round of the loop over `Zlib.inflate`. -/
theorem round_of_room {s : Inflating} {size : Nat}
    (hgrow : (if s.out.length = s.size then grow s.size limit else some s.size) = some size) :
    Wire.runInflate inflation limit s =
      match Wire.inflateChunk inflation ⟨size, s.out, s.written⟩ with
      | (.ok, s') => Wire.runInflate inflation limit s'
      | (rc, s') => (⟨rc, false⟩, s') := by
  rw [Wire.runInflate]
  simp only [hgrow]
  rcases Wire.inflateChunk inflation ⟨size, s.out, s.written⟩ with ⟨rc, s'⟩
  cases rc with
  | ok | streamEnd | failed => rfl

theorem runInflate_eager (limit : Nat) (s : Inflating) :
    ∀ b : Buffer (eager inflation inputLength hunused), Alike b s →
      Agree ((eager inflation inputLength hunused).runInflate limit b)
        (Wire.runInflate inflation limit s) := by
  induction s using Wire.runInflate.induct inflation limit with
  | case1 s hfull =>
      intro b h
      have hroom := h.makeRoom limit
      rw [dite_eq_ite] at hfull
      rw [hfull, Option.map_none] at hroom
      rw [runInflate_of_full hroom, Wire.runInflate, hfull]
      exact ⟨rfl, h.out, fun hend => by cases hend⟩
  | case2 s size hgrow s' hpass ih =>
      intro b h
      have hroom := h.makeRoom limit
      rw [dite_eq_ite] at hgrow
      rw [hgrow, Option.map_some] at hroom
      obtain ⟨hrc, hnext, -⟩ := (h.grown size).inflateChunk
      rw [runInflate_of_room hroom, round_of_room hgrow]
      rw [hpass] at hrc hnext ⊢
      cases hchunk : (eager inflation inputLength hunused).inflateChunk
        ⟨size, b.out, b.stream⟩ with
      | mk rc b' =>
          rw [hchunk] at hrc hnext
          dsimp only at hrc hnext
          subst hrc
          exact ih b' hnext
  | case3 s size hgrow rc s' hstop hpass =>
      intro b h
      have hroom := h.makeRoom limit
      rw [dite_eq_ite] at hgrow
      rw [hgrow, Option.map_some] at hroom
      obtain ⟨hrc, hnext, hend⟩ := (h.grown size).inflateChunk
      rw [runInflate_of_room hroom, round_of_room hgrow]
      rw [hpass] at hrc hnext ⊢
      cases hchunk : (eager inflation inputLength hunused).inflateChunk
        ⟨size, b.out, b.stream⟩ with
      | mk rc' b' =>
          rw [hchunk] at hrc hnext hend
          dsimp only at hrc hnext hend
          subst hrc
          cases rc' with
          | ok => exact absurd rfl hstop
          | streamEnd => exact ⟨rfl, hnext.out, fun _ => hend rfl⟩
          | failed => exact ⟨rfl, hnext.out, fun hfailed => by cases hfailed⟩

/-- The loop over `Zlib.inflate` is the one over this zlib. -/
theorem gzipDecompress_eager (zlib : Zlib) (input : Bytes)
    (hunused : ∀ n ∈ (zlib.inflate input).unused, n ≤ input.length) (maxOutput : Nat) :
    Wire.gzipDecompress zlib input maxOutput =
      (eager (zlib.inflate input) input.length hunused).gzipDecompress maxOutput := by
  have hagree := runInflate_eager (hardLimit maxOutput) {}
    (eager (zlib.inflate input) input.length hunused).begin ⟨rfl, rfl, rfl⟩
  unfold Wire.gzipDecompress gzipDecompress
  have hlength : (eager (zlib.inflate input) input.length hunused).availIn
      (eager (zlib.inflate input) input.length hunused).start = input.length := rfl
  rw [hlength]
  by_cases hinput : kUIntMax < input.length
  · rw [if_pos hinput, if_pos hinput]
  · rw [if_neg hinput, if_neg hinput]
    cases hrun : (eager (zlib.inflate input) input.length hunused).runInflate
      (hardLimit maxOutput) (eager (zlib.inflate input) input.length hunused).begin with
    | mk outcome b =>
        cases hrun' : Wire.runInflate (zlib.inflate input) (hardLimit maxOutput) {} with
        | mk outcome' s =>
            rw [hrun, hrun'] at hagree
            obtain ⟨houtcome, hout, hended⟩ := hagree
            dsimp only at houtcome hout hended ⊢
            subst houtcome
            rw [hrun', hout]
            by_cases hlarge : outcome.tooLarge = true ∨ maxOutput < s.out.length
            · rw [if_pos hlarge, if_pos hlarge]
            · rw [if_neg hlarge, if_neg hlarge]
              by_cases hrc : outcome.rc = .streamEnd
              · rw [if_neg (not_not_intro hrc), if_neg (not_not_intro hrc), hended hrc]
                simp only [ne_eq, Option.some.injEq]
              · rw [if_pos hrc, if_pos hrc]

end Eager

end Inflater

end Microtel.Wire
