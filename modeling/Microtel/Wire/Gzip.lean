import Microtel.Wire.HttpWireCodec

/-!
One deflate pass, and an inflate loop into a buffer that grows under a ceiling
(`src/wire/gzip.cpp`). zlib is a parameter; its `uInt` lengths are cut here, where
the source casts to them. Allocation is taken to succeed.
-/

namespace Microtel.Wire

/-- What `inflate` makes of an input: the bytes it can write and, if the stream
ends, how much input lies after its end. -/
structure Inflation where
  output : Bytes
  unused : Option Nat
  deriving DecidableEq, Repr

structure Zlib where
  deflateBound : Nat → Nat
  /-- One `deflate` pass with `Z_FINISH` into so many bytes: what it wrote, if the
  stream ended. -/
  deflate : Bytes → Nat → Option Bytes
  inflate : Bytes → Inflation

def kUIntMax : Nat := 2 ^ 32 - 1
def kSizeMax : Nat := 2 ^ 64 - 1

/-- `static_cast<uInt>`. -/
def toUInt (n : Nat) : Nat := n % 2 ^ 32

/-- The buffer is `deflateBound` zero bytes, and loses what `avail_out` counts. -/
def gzipCompress (zlib : Zlib) (input : Bytes) : Option Bytes :=
  if kUIntMax < input.length then none
  else
    let bound := zlib.deflateBound input.length
    let availOut := toUInt bound
    (zlib.deflate input availOut).map fun written =>
      written ++ List.replicate (bound - availOut) 0

/-! ### The inflate loop -/

def kInitialOutputChunk : Nat := 8 * 1024

/-- One byte past the caller's ceiling. -/
def hardLimit (maxOutput : Nat) : Nat := if maxOutput = kSizeMax then kSizeMax else maxOutput + 1

def grow (size hardLimit : Nat) : Option Nat :=
  if hardLimit ≤ size then none
  else
    let doubled := if hardLimit / 2 < size then hardLimit else size * 2
    some (min hardLimit (max kInitialOutputChunk doubled))

/-- `out` holds the produced bytes of a buffer of `size`; zlib has written `written`
bytes of its output. -/
structure Inflating where
  size : Nat := 0
  out : Bytes := []
  written : Nat := 0

inductive InflateRc
  | ok | streamEnd | failed
  deriving DecidableEq, Repr

/-- What a pass that leaves zlib with `written` bytes out returns; no progress is a
`Z_BUF_ERROR`. -/
def Inflation.rc (inflation : Inflation) (progress written : Nat) : InflateRc :=
  if written < inflation.output.length then if progress = 0 then .failed else .ok
  else if inflation.unused.isSome then .streamEnd else .failed

def inflateChunk (inflation : Inflation) (s : Inflating) : InflateRc × Inflating :=
  let room := s.size - s.out.length
  let availOut := toUInt room
  let chunk := (inflation.output.drop s.written).take availOut
  (inflation.rc chunk.length (s.written + chunk.length),
    { s with
      out := s.out ++ chunk ++ List.replicate (room - availOut) 0
      written := s.written + chunk.length })

/-- A pass that returns `Z_OK` has written something and has more to write. -/
theorem inflateChunk_progress {inflation : Inflation} {s s' : Inflating}
    (h : inflateChunk inflation s = (.ok, s')) :
    s.written < s'.written ∧ s'.written < inflation.output.length := by
  obtain ⟨hrc, rfl⟩ := Prod.mk.inj h
  unfold Inflation.rc at hrc
  split at hrc
  · next hmore =>
    split at hrc
    · cases hrc
    · next hprogress => exact ⟨by dsimp only; omega, hmore⟩
  · split at hrc <;> cases hrc

structure InflateOutcome where
  rc : InflateRc
  tooLarge : Bool

/-- The loop of `RunInflate`. -/
def runInflate (inflation : Inflation) (hardLimit : Nat) (s : Inflating) :
    InflateOutcome × Inflating :=
  match if s.out.length = s.size then grow s.size hardLimit else some s.size with
  | none => ({ rc := .ok, tooLarge := true }, s)
  | some size =>
      match _hchunk : inflateChunk inflation { s with size } with
      | (.ok, s') => runInflate inflation hardLimit s'
      | (rc, s') => ({ rc, tooLarge := false }, s')
termination_by inflation.output.length - s.written
decreasing_by
  have hprogress := inflateChunk_progress _hchunk
  dsimp only at hprogress
  omega

def gzipDecompress (zlib : Zlib) (input : Bytes) (maxOutput : Nat) :
    Except GzipDecompressError Bytes :=
  if kUIntMax < input.length then .error .corrupt
  else
    let inflation := zlib.inflate input
    let (outcome, s) := runInflate inflation (hardLimit maxOutput) {}
    if outcome.tooLarge ∨ maxOutput < s.out.length then .error .tooLarge
    else if outcome.rc ≠ .streamEnd then .error .corrupt
    else if inflation.unused ≠ some 0 then .error .corrupt
    else .ok s.out

/-- The two functions over a zlib. -/
def Zlib.gzip (zlib : Zlib) : Gzip where
  compress := gzipCompress zlib
  decompress := gzipDecompress zlib

/-! ### With a correct zlib -/

/-- Inflating undoes deflating, no byte of a stream stands for more than 1032 bytes,
and a bound is little more than the input. -/
structure Zlib.Correct (zlib : Zlib) : Prop where
  inflate_deflate : ∀ {input room written}, zlib.deflate input room = some written →
    zlib.inflate written = ⟨input, some 0⟩
  fits : ∀ {input room written}, zlib.deflate input room = some written → written.length ≤ room
  ratio : ∀ {input room written}, zlib.deflate input room = some written →
    input.length ≤ 1032 * written.length
  bound : ∀ n, zlib.deflateBound n ≤ n + n / 2048 + 64

section Correct

variable {zlib : Zlib}

/-- A pass whose room was cut to 32 bits has too little of it to end. -/
theorem gzipCompress_spec (C : zlib.Correct) {input z : Bytes}
    (h : gzipCompress zlib input = some z) :
    z.length ≤ kUIntMax ∧ zlib.inflate z = ⟨input, some 0⟩ := by
  unfold gzipCompress at h
  split at h
  · cases h
  · next hguard =>
    obtain ⟨written, hpass, rfl⟩ := Option.map_eq_some_iff.mp h
    have hfits := C.fits hpass
    have hratio := C.ratio hpass
    have hbound := C.bound input.length
    unfold kUIntMax toUInt at *
    by_cases hsmall : zlib.deflateBound input.length < 2 ^ 32
    · have hwhole : zlib.deflateBound input.length % 2 ^ 32 = zlib.deflateBound input.length :=
        Nat.mod_eq_of_lt hsmall
      rw [hwhole, Nat.sub_self, List.replicate_zero, List.append_nil]
      rw [hwhole] at hfits
      exact ⟨by omega, C.inflate_deflate hpass⟩
    · omega

theorem grow_spec {size limit n : Nat} (hlimit : size < limit) (h : grow size limit = some n) :
    size < n ∧ n ≤ limit ∧ n - size ≤ max kInitialOutputChunk size := by
  unfold grow at h
  rw [if_neg (by omega)] at h
  obtain rfl := Option.some.inj h
  unfold kInitialOutputChunk
  split <;> omega

/-- One round from a full buffer. -/
theorem runInflate_round {inflation : Inflation} {limit n size : Nat} {out : Bytes}
    (hfull : out.length = n) (hgrow : grow n limit = some size) :
    runInflate inflation limit ⟨n, out, n⟩ =
      match inflateChunk inflation ⟨size, out, n⟩ with
      | (.ok, s) => runInflate inflation limit s
      | (rc, s) => (⟨rc, false⟩, s) := by
  rw [runInflate]
  simp only [hfull, if_true, hgrow]
  rcases inflateChunk inflation ⟨size, out, n⟩ with ⟨rc, s⟩
  cases rc <;> rfl

/-- The loop ends with the whole output, when that stays below the limit. -/
theorem runInflate_spec {inflation : Inflation} {limit : Nat}
    (hlimit : inflation.output.length < limit) (hlen : inflation.output.length ≤ kUIntMax)
    (hend : inflation.unused.isSome = true) (n : Nat) (hn : n ≤ inflation.output.length) :
    ∃ s, runInflate inflation limit ⟨n, inflation.output.take n, n⟩ =
        (⟨.streamEnd, false⟩, s) ∧ s.out = inflation.output := by
  have htake : (inflation.output.take n).length = n := by
    rw [List.length_take]
    omega
  obtain ⟨size, hgrow⟩ : ∃ size, grow n limit = some size := by
    unfold grow
    rw [if_neg (by omega)]
    exact ⟨_, rfl⟩
  obtain ⟨hmore, hmost, hroom⟩ := grow_spec (by omega) hgrow
  have hcut : toUInt (size - n) = size - n := by
    unfold toUInt
    unfold kInitialOutputChunk at hroom
    unfold kUIntMax at hlen
    omega
  have hchunk : inflateChunk inflation ⟨size, inflation.output.take n, n⟩ =
      (inflation.rc (min size inflation.output.length - n) (min size inflation.output.length),
        ⟨size, inflation.output.take size, min size inflation.output.length⟩) := by
    have hlength : ((inflation.output.drop n).take (size - n)).length =
        min size inflation.output.length - n := by
      rw [List.length_take, List.length_drop]
      omega
    have hjoin : inflation.output.take n ++ (inflation.output.drop n).take (size - n) =
        inflation.output.take size := by
      rw [← List.take_add]
      congr 1
      omega
    have hsum : n + (min size inflation.output.length - n) = min size inflation.output.length := by
      omega
    unfold inflateChunk
    dsimp only
    rw [htake, hcut, Nat.sub_self, List.replicate_zero, List.append_nil, hlength, hjoin, hsum]
  by_cases hrest : size < inflation.output.length
  · have hrc : inflation.rc (min size inflation.output.length - n)
        (min size inflation.output.length) = .ok := by
      unfold Inflation.rc
      rw [if_pos (by omega), if_neg (by omega)]
    rw [hrc, Nat.min_eq_left hrest.le] at hchunk
    rw [runInflate_round htake hgrow, hchunk]
    exact runInflate_spec hlimit hlen hend size hrest.le
  · have hrc : inflation.rc (min size inflation.output.length - n)
        (min size inflation.output.length) = .streamEnd := by
      unfold Inflation.rc
      rw [if_neg (by omega), if_pos hend]
    have hall : inflation.output.take size = inflation.output :=
      List.take_of_length_le (Nat.not_lt.mp hrest)
    rw [hrc, hall] at hchunk
    rw [runInflate_round htake hgrow, hchunk]
    exact ⟨_, rfl, rfl⟩
termination_by inflation.output.length - n

theorem gzipDecompress_spec {z output : Bytes} {maxOutput : Nat} (hz : z.length ≤ kUIntMax)
    (hstream : zlib.inflate z = ⟨output, some 0⟩) (hlen : output.length ≤ kUIntMax)
    (hfits : output.length ≤ maxOutput) : gzipDecompress zlib z maxOutput = .ok output := by
  have hlimit : output.length < hardLimit maxOutput := by
    unfold hardLimit
    split
    · exact lt_of_le_of_lt hlen (by decide)
    · omega
  have hended : (⟨output, some 0⟩ : Inflation).unused.isSome = true := rfl
  obtain ⟨s, hrun, hout⟩ := runInflate_spec hlimit hlen hended 0 (Nat.zero_le _)
  have hout' : s.out = output := hout
  have hstart : runInflate ⟨output, some 0⟩ (hardLimit maxOutput) {} = (⟨.streamEnd, false⟩, s) :=
    hrun
  unfold gzipDecompress
  rw [if_neg (by omega), hstream]
  simp only [hstart, hout', Bool.false_eq_true, false_or, if_neg (Nat.not_lt.mpr hfits), ne_eq,
    not_true_eq_false, if_false]

/-- Round trip. -/
theorem gzipDecompress_gzipCompress (C : zlib.Correct) {input z : Bytes} {maxOutput : Nat}
    (h : gzipCompress zlib input = some z) (hfits : input.length ≤ maxOutput) :
    gzipDecompress zlib z maxOutput = .ok input := by
  obtain ⟨hz, hstream⟩ := gzipCompress_spec C h
  refine gzipDecompress_spec hz hstream ?_ hfits
  unfold gzipCompress at h
  split at h
  · cases h
  · next hguard => exact Nat.not_lt.mp hguard

end Correct

end Microtel.Wire
