import Microtel.Pipeline.ExporterRuns
import Microtel.Wire.HttpResults
import Microtel.Wire.OtlpEncoder

/-!
`FanOutAndProcess` (`src/exporter/otlp_exporter.cpp`): a drain is encoded batch by
batch, cut into requests on the sizes of the encodings, sent, and settled request by
request. `Encode` gets the number of the call, so an encoder may answer differently
each time.
-/

namespace Microtel.Pipeline

variable {ρ : Type}

/-! ### The limits of a request -/

def spansOf (sizes : List (Nat × Nat)) (range : RequestRange) : Nat :=
  ((range.slice sizes).map Prod.fst).sum

def bytesOf (sizes : List (Nat × Nat)) (range : RequestRange) : Nat :=
  ((range.slice sizes).map Prod.snd).sum

/-- Within both limits; a byte limit of zero is none. -/
def Fits (config : OtlpExporterConfig) (spans bytes : Nat) : Prop :=
  spans ≤ config.maxSpansPerRequest ∧
    (config.maxRequestBytes ≠ 0 → bytes ≤ config.maxRequestBytes)

/-- A turn either starts a request, which the running one has no room to avoid, or
adds to it what fits. -/
theorem groupNext_cases (config : OtlpExporterConfig) (g : Grouping) (i spans bytes : Nat) :
    ((g.requests = [] ∨ ¬Fits config (g.spansInRequest + spans) (g.bytesInRequest + bytes)) ∧
      groupNext config g i spans bytes = ⟨g.requests ++ [⟨i, 1⟩], spans, bytes⟩) ∨
    ∃ rs r, g.requests = rs ++ [r] ∧
      Fits config (g.spansInRequest + spans) (g.bytesInRequest + bytes) ∧
      groupNext config g i spans bytes = ⟨rs ++ [{ r with count := r.count + 1 }],
        g.spansInRequest + spans, g.bytesInRequest + bytes⟩ := by
  unfold groupNext
  dsimp only
  split
  · next hover =>
    refine Or.inl ⟨?_, ?_⟩
    · rcases hover with hnil | hspans | ⟨hlimit, hbytes⟩
      · exact Or.inl hnil
      · exact Or.inr fun hfits => absurd hfits.1 (by omega)
      · exact Or.inr fun hfits => absurd (hfits.2 hlimit) (by omega)
    · rw [modify_last]
      simp only [Nat.zero_add]
  · next hstay =>
    push Not at hstay
    obtain ⟨hne, hspans, hbytes⟩ := hstay
    obtain ⟨rs, r, hrs⟩ := (List.eq_nil_or_concat g.requests).resolve_left hne
    rw [List.concat_eq_append] at hrs
    refine Or.inr ⟨rs, r, hrs, ⟨hspans, hbytes⟩, ?_⟩
    rw [hrs, modify_last]

/-- What the loop of `GroupIntoRequests` has after `i` batches. -/
structure Grouped (config : OtlpExporterConfig) (sizes : List (Nat × Nat)) (i : Nat)
    (g : Grouping) : Prop where
  tiles : Tiles 0 g.requests i
  running : ∀ rs r, g.requests = rs ++ [r] →
    g.spansInRequest = spansOf sizes r ∧ g.bytesInRequest = bytesOf sizes r
  within : ∀ r ∈ g.requests, 1 < r.count → Fits config (spansOf sizes r) (bytesOf sizes r)
  maximal : ∀ r ∈ g.requests, r.first + r.count < i →
    ∀ next, sizes[r.first + r.count]? = some next →
    ¬Fits config (spansOf sizes r + next.1) (bytesOf sizes r + next.2)

/-- Only the last request ends where the tiling does. -/
theorem Tiles.mem_end {a b : Nat} {rs : List RequestRange} {r : RequestRange} (h : Tiles a rs b)
    (hr : r ∈ rs) : r.first + r.count ≤ b ∧
      (r.first + r.count = b → ∃ before, rs = before ++ [r]) := by
  induction rs generalizing a with
  | nil => cases hr
  | cons r' rs ih =>
      obtain ⟨hfirst, hpos, hrest⟩ := h
      rcases List.mem_cons.mp hr with rfl | hr
      · refine ⟨by rw [hfirst]; exact hrest.le, fun hend => ?_⟩
        cases rs with
        | nil => exact ⟨[], rfl⟩
        | cons r'' rs =>
            have := hrest.2.2.le
            have := hrest.2.1
            omega
      · obtain ⟨hle, hlast⟩ := ih hrest hr
        refine ⟨hle, fun hend => ?_⟩
        obtain ⟨before, rfl⟩ := hlast hend
        exact ⟨r' :: before, rfl⟩

theorem slice_singleton {α : Type} {xs : List α} {i : Nat} {x : α} (h : xs[i]? = some x) :
    (⟨i, 1⟩ : RequestRange).slice xs = [x] := by
  rw [RequestRange.slice, List.take_one, List.head?_drop, h]
  rfl

theorem slice_succ {α : Type} {xs : List α} {r : RequestRange} {x : α}
    (h : xs[r.first + r.count]? = some x) :
    ({ r with count := r.count + 1 } : RequestRange).slice xs = r.slice xs ++ [x] := by
  rw [RequestRange.slice, RequestRange.slice, List.take_add_one, List.getElem?_drop, h]
  rfl

theorem Grouped.next {config : OtlpExporterConfig} {sizes : List (Nat × Nat)} {i spans bytes : Nat}
    {g : Grouping} (h : Grouped config sizes i g) (hi : sizes[i]? = some (spans, bytes)) :
    Grouped config sizes (i + 1) (groupNext config g i spans bytes) := by
  rcases groupNext_cases config g i spans bytes with ⟨hover, hnew⟩ | ⟨rs, r, hrs, hfits, hmore⟩
  · rw [hnew]
    have hslice : (⟨i, 1⟩ : RequestRange).slice sizes = [(spans, bytes)] := slice_singleton hi
    refine ⟨tiles_snoc.mpr ⟨h.tiles, Nat.one_pos, rfl⟩, ?_, ?_, ?_⟩
    · intro rs r hrs
      obtain ⟨-, hr⟩ := List.append_inj' hrs rfl
      cases hr
      rw [spansOf, bytesOf, hslice]
      exact ⟨rfl, rfl⟩
    · intro r hr hcount
      rcases List.mem_append.mp hr with hr | hr
      · exact h.within r hr hcount
      · cases List.mem_singleton.mp hr
        exact absurd hcount (Nat.lt_irrefl 1)
    · intro r hr hlt next hnext
      rcases List.mem_append.mp hr with hr | hr
      · -- the request that ran until now is the last one, and has no room
        obtain ⟨hle, hlast⟩ := h.tiles.mem_end hr
        by_cases hend : r.first + r.count = i
        · obtain ⟨before, hbefore⟩ := hlast hend
          obtain ⟨hspans, hbytes⟩ := h.running before r hbefore
          rw [hend, hi] at hnext
          cases hnext
          rw [← hspans, ← hbytes]
          refine hover.resolve_left ?_
          rw [hbefore]
          exact List.append_ne_nil_of_right_ne_nil _ (List.cons_ne_nil _ _)
        · exact h.maximal r hr (by omega) next hnext
      · cases List.mem_singleton.mp hr
        exact absurd hlt (Nat.lt_irrefl _)
  · rw [hmore]
    have htiles := h.tiles
    rw [hrs] at htiles
    obtain ⟨hbefore, hpos, hend⟩ := tiles_snoc.mp htiles
    obtain ⟨hspans, hbytes⟩ := h.running rs r hrs
    have hnext : sizes[r.first + r.count]? = some (spans, bytes) := by
      rw [hend]
      exact hi
    have hslice := slice_succ hnext
    have hspans' : spansOf sizes { r with count := r.count + 1 } = g.spansInRequest + spans := by
      rw [spansOf, hslice, List.map_append, List.sum_append, hspans]
      rfl
    have hbytes' : bytesOf sizes { r with count := r.count + 1 } = g.bytesInRequest + bytes := by
      rw [bytesOf, hslice, List.map_append, List.sum_append, hbytes]
      rfl
    refine ⟨tiles_snoc.mpr ⟨hbefore, Nat.succ_pos _, by dsimp only; omega⟩, ?_, ?_, ?_⟩
    · intro rs' r' hrs'
      obtain ⟨-, hr⟩ := List.append_inj' hrs' rfl
      cases hr
      exact ⟨hspans'.symm, hbytes'.symm⟩
    · intro r' hr' hcount
      rcases List.mem_append.mp hr' with hr' | hr'
      · exact h.within r' (by rw [hrs]; exact List.mem_append_left _ hr') hcount
      · cases List.mem_singleton.mp hr'
        rw [hspans', hbytes']
        exact hfits
    · intro r' hr' hlt next hnext
      rcases List.mem_append.mp hr' with hr' | hr'
      · have hle := (hbefore.mem_end hr').1
        exact h.maximal r' (by rw [hrs]; exact List.mem_append_left _ hr') (by omega) next hnext
      · cases List.mem_singleton.mp hr'
        dsimp only at hlt
        omega

theorem Grouped.from {config : OtlpExporterConfig} {sizes rest : List (Nat × Nat)} {i : Nat}
    {g : Grouping} (h : Grouped config sizes i g) (hrest : sizes.drop i = rest) :
    Grouped config sizes (i + rest.length) (groupFrom config i rest g) := by
  induction rest generalizing i g with
  | nil => exact h
  | cons size rest ih =>
      obtain ⟨spans, bytes⟩ := size
      have hi : sizes[i]? = some (spans, bytes) := by
        rw [← List.head?_drop, hrest]
        rfl
      have hdrop : sizes.drop (i + 1) = rest := by
        rw [← List.tail_drop, hrest]
        rfl
      have hlen : i + ((spans, bytes) :: rest).length = i + 1 + rest.length := by
        rw [List.length_cons]
        omega
      rw [hlen]
      exact ih (h.next hi) hdrop

theorem grouped (config : OtlpExporterConfig) (sizes : List (Nat × Nat)) :
    Grouped config sizes sizes.length (groupFrom config 0 sizes ⟨[], 0, 0⟩) := by
  have hinit : Grouped config sizes 0 ⟨[], 0, 0⟩ :=
    ⟨rfl, fun rs _ h => absurd h (by simp), nofun, nofun⟩
  have h := hinit.from List.drop_zero
  rw [Nat.zero_add] at h
  exact h

/-- The numbers of the batches a request carries. -/
def RequestRange.indices (range : RequestRange) : List Nat := List.range' range.first range.count

theorem Tiles.indices {a b : Nat} {rs : List RequestRange} (h : Tiles a rs b) :
    rs.flatMap RequestRange.indices = List.range' a (b - a) := by
  induction rs generalizing a with
  | nil =>
      rw [h.symm.le.antisymm h.le, Nat.sub_self]
      rfl
  | cons r rs ih =>
      obtain ⟨hfirst, -, hrest⟩ := h
      have hle := hrest.le
      rw [List.flatMap_cons, ih hrest, RequestRange.indices, hfirst, List.range'_append_1]
      congr 1
      omega

/-! ### The payloads of a drain -/

/-- `Encode` on each batch in turn, from call `call` on. -/
def encodeAll (encode : Nat → BatchHandle ρ → Bytes) : Nat → List (BatchHandle ρ) → List Bytes
  | _, [] => []
  | call, batch :: batches => encode call batch :: encodeAll encode (call + 1) batches

/-- `std::move(parts.at(i))`: the encoding, and the parts without it. -/
def movePart (parts : List Bytes) (i : Nat) : Option (Bytes × List Bytes) :=
  match parts[i]? with
  | none => none
  | some part => some (part, parts.set i [])

/-- The encodings of one request, moved out of the parts. -/
def moveGroup (parts : List Bytes) (i : Nat) : Nat → Option (List Bytes × List Bytes)
  | 0 => some ([], parts)
  | count + 1 =>
      match movePart parts i with
      | none => none
      | some (part, parts) =>
          match moveGroup parts (i + 1) count with
          | none => none
          | some (group, parts) => some (part :: group, parts)

/-- The payloads of the requests; `none` is an exception of `at`. -/
def buildPayloads : List RequestRange → List Bytes → Option (List Bytes)
  | [], _ => some []
  | request :: requests, parts =>
      match moveGroup parts request.first request.count with
      | none => none
      | some (group, parts) =>
          match buildPayloads requests parts with
          | none => none
          | some payloads => some (Wire.concatenateTraceRequests group :: payloads)

/-- The loop of `EncodeRequest`. -/
def encodeFrom (encode : Nat → BatchHandle ρ → Bytes) (batches : List (BatchHandle ρ))
    (call i : Nat) : Nat → Option (List Bytes)
  | 0 => some []
  | count + 1 =>
      match batches[i]? with
      | none => none
      | some batch =>
          match encodeFrom encode batches (call + 1) (i + 1) count with
          | none => none
          | some parts => some (encode call batch :: parts)

/-- `EncodeRequest`, with its first call to `Encode` numbered `call`. -/
def encodeRequest (encode : Nat → BatchHandle ρ → Bytes) (call : Nat)
    (batches : List (BatchHandle ρ)) (request : RequestRange) : Option Bytes :=
  (encodeFrom encode batches call request.first request.count).map Wire.concatenateTraceRequests

/-- The sizes `GroupIntoRequests` cuts by. -/
def sizesOf (encode : Nat → BatchHandle ρ → Bytes) (batches : List (BatchHandle ρ)) :
    List (Nat × Nat) :=
  (batches.map spanCount).zip ((encodeAll encode 0 batches).map List.length)

def requestsOf (config : OtlpExporterConfig) (encode : Nat → BatchHandle ρ → Bytes)
    (batches : List (BatchHandle ρ)) : List RequestRange :=
  groupIntoRequests config (sizesOf encode batches)

/-- The loop over the results: what is settled with which result. -/
def settlements (requests : List RequestRange) : Nat → List Wire.WireResult →
    Option (List (RequestRange × Wire.WireResult))
  | _, [] => some []
  | i, result :: results =>
      match requests[i]? with
      | none => none
      | some request =>
          match settlements requests (i + 1) results with
          | none => none
          | some rest => some ((request, result) :: rest)

/-- `FanOutAndProcess` over the HTTP codec, up to the settlements. -/
def fanOut (config : OtlpExporterConfig) (encode : Nat → BatchHandle ρ → Bytes)
    (codec : Wire.HttpWireCodec) (answers : Wire.Answers) (deadline : Int64)
    (batches : List (BatchHandle ρ)) : Option (List (RequestRange × Wire.WireResult)) :=
  let requests := requestsOf config encode batches
  match buildPayloads requests (encodeAll encode 0 batches) with
  | none => none
  | some payloads => settlements requests 0 (codec.sendAll answers payloads deadline).results

section Payloads

variable {encode : Nat → BatchHandle ρ → Bytes} {batches : List (BatchHandle ρ)}

@[simp] theorem length_encodeAll (call : Nat) (batches : List (BatchHandle ρ)) :
    (encodeAll encode call batches).length = batches.length := by
  induction batches generalizing call with
  | nil => rfl
  | cons batch batches ih => rw [encodeAll, List.length_cons, ih, List.length_cons]

theorem drop_encodeAll (call i : Nat) (batches : List (BatchHandle ρ)) :
    (encodeAll encode call batches).drop i = encodeAll encode (call + i) (batches.drop i) := by
  induction batches generalizing call i with
  | nil => rw [encodeAll, List.drop_nil, List.drop_nil, encodeAll]
  | cons batch batches ih =>
      cases i with
      | zero => rfl
      | succ i =>
          rw [encodeAll, List.drop_succ_cons, List.drop_succ_cons, ih]
          congr 1
          omega

theorem take_encodeAll (call n : Nat) (batches : List (BatchHandle ρ)) :
    (encodeAll encode call batches).take n = encodeAll encode call (batches.take n) := by
  induction batches generalizing call n with
  | nil => rw [encodeAll, List.take_nil, List.take_nil, encodeAll]
  | cons batch batches ih =>
      cases n with
      | zero => rfl
      | succ n => rw [encodeAll, List.take_succ_cons, List.take_succ_cons, encodeAll, ih]

/-- The encodings of a request are those of its batches. -/
theorem slice_encodeAll (request : RequestRange) : request.slice (encodeAll encode 0 batches) =
    encodeAll encode request.first (request.slice batches) := by
  rw [RequestRange.slice, drop_encodeAll, take_encodeAll, Nat.zero_add, RequestRange.slice]

theorem encodeAll_const (f : BatchHandle ρ → Bytes) (call : Nat) (batches : List (BatchHandle ρ)) :
    encodeAll (fun _ => f) call batches = batches.map f := by
  induction batches generalizing call with
  | nil => rfl
  | cons batch batches ih => rw [encodeAll, ih, List.map_cons]

theorem encodeFrom_eq (call i count : Nat) (h : i + count ≤ batches.length) :
    encodeFrom encode batches call i count =
      some (encodeAll encode call ((batches.drop i).take count)) := by
  induction count generalizing call i with
  | zero => rfl
  | succ count ih =>
      have hi : i < batches.length := by omega
      rw [encodeFrom, List.getElem?_eq_getElem hi]
      simp only [ih (call + 1) (i + 1) (by omega)]
      rw [List.drop_eq_getElem_cons hi, List.take_succ_cons, encodeAll]

theorem moveGroup_eq (parts : List Bytes) (i count : Nat) (h : i + count ≤ parts.length) :
    ∃ left, moveGroup parts i count = some ((parts.drop i).take count, left) ∧
      left.length = parts.length ∧ left.drop (i + count) = parts.drop (i + count) := by
  induction count generalizing parts i with
  | zero => exact ⟨parts, rfl, rfl, rfl⟩
  | succ count ih =>
      have hi : i < parts.length := by omega
      obtain ⟨left, hmove, hlength, hleft⟩ := ih (parts.set i []) (i + 1) (by
        rw [List.length_set]
        omega)
      rw [List.length_set] at hlength
      refine ⟨left, ?_, hlength, ?_⟩
      · rw [moveGroup, movePart, List.getElem?_eq_getElem hi]
        simp only [hmove]
        rw [List.drop_set_of_lt (Nat.lt_succ_self i), List.drop_eq_getElem_cons hi,
          List.take_succ_cons]
      · rw [show i + (count + 1) = i + 1 + count by omega, hleft, List.drop_set_of_lt (by omega)]

theorem slice_congr {α : Type} {xs ys : List α} {r : RequestRange} {a : Nat}
    (h : xs.drop a = ys.drop a) (ha : a ≤ r.first) : r.slice xs = r.slice ys := by
  obtain ⟨k, hk⟩ := Nat.exists_eq_add_of_le ha
  rw [RequestRange.slice, RequestRange.slice, hk, ← List.drop_drop, ← List.drop_drop, h]

theorem Tiles.first_ge {a b : Nat} {rs : List RequestRange} {r : RequestRange} (h : Tiles a rs b)
    (hr : r ∈ rs) : a ≤ r.first := by
  induction rs generalizing a with
  | nil => cases hr
  | cons r' rs ih =>
      rcases List.mem_cons.mp hr with rfl | hr
      · exact h.1.ge
      · exact le_trans (Nat.le_add_right _ _) (ih h.2.2 hr)

/-- Each encoding is moved out once, so the payloads are the encodings joined. -/
theorem buildPayloads_eq {a b : Nat} {requests : List RequestRange} (h : Tiles a requests b)
    (parts : List Bytes) (hb : b ≤ parts.length) :
    buildPayloads requests parts =
      some (requests.map fun request => Wire.concatenateTraceRequests (request.slice parts)) := by
  induction requests generalizing a parts with
  | nil => rfl
  | cons request requests ih =>
      obtain ⟨hfirst, hpos, hrest⟩ := h
      have hle := hrest.le
      obtain ⟨left, hmove, hlength, hleft⟩ := moveGroup_eq parts request.first request.count
        (by omega)
      rw [buildPayloads]
      simp only [hmove, ih hrest left (by omega)]
      rw [List.map_cons]
      congr 2
      apply List.map_congr_left
      intro r hr
      rw [slice_congr hleft (by rw [hfirst]; exact hrest.first_ge hr)]

theorem settlements_eq (requests : List RequestRange) (i : Nat) (results : List Wire.WireResult)
    (h : i + results.length ≤ requests.length) :
    settlements requests i results = some ((requests.drop i).zip results) := by
  induction results generalizing i with
  | nil => rw [settlements, List.zip_nil_right]
  | cons result results ih =>
      rw [List.length_cons] at h
      have hi : i < requests.length := by omega
      rw [settlements, List.getElem?_eq_getElem hi]
      simp only [ih (i + 1) (by omega)]
      rw [List.drop_eq_getElem_cons hi, List.zip_cons_cons]

end Payloads

/-! ### Every batch is settled by its request -/

/-- The requests cover the batches once, in order; one of several batches is within
the limits, and none has room for the batch after it. -/
structure GroupsExactly (config : OtlpExporterConfig) (sizes : List (Nat × Nat))
    (requests : List RequestRange) : Prop where
  nonempty : ∀ r ∈ requests, 0 < r.count
  covers : requests.flatMap RequestRange.indices = List.range sizes.length
  within : ∀ r ∈ requests, 1 < r.count → Fits config (spansOf sizes r) (bytesOf sizes r)
  maximal : ∀ r ∈ requests, ∀ next, sizes[r.first + r.count]? = some next →
    ¬Fits config (spansOf sizes r + next.1) (bytesOf sizes r + next.2)

theorem groupsExactly (config : OtlpExporterConfig) (sizes : List (Nat × Nat)) :
    GroupsExactly config sizes (groupIntoRequests config sizes) := by
  have hgrouped := grouped config sizes
  have htiles := groupIntoRequests_tiles config sizes
  refine ⟨?_, ?_, hgrouped.within, ?_⟩
  · intro r hr
    exact (htiles.slice_length (le_refl sizes.length) r hr).2
  · rw [htiles.indices, List.range_eq_range', Nat.sub_zero]
  · intro r hr next hnext
    exact hgrouped.maximal r hr (List.getElem?_eq_some_iff.mp hnext).1 next hnext

section FanOut

variable (config : OtlpExporterConfig) (encode : Nat → BatchHandle ρ → Bytes)
  (batches : List (BatchHandle ρ))

/-- What the first attempt of a request carries. -/
def payloadOf (request : RequestRange) : Bytes :=
  Wire.concatenateTraceRequests (encodeAll encode request.first (request.slice batches))

theorem length_sizesOf : (sizesOf encode batches).length = batches.length := by
  rw [sizesOf, List.length_zip, List.length_map, List.length_map, length_encodeAll, Nat.min_self]

theorem requestsOf_tiles : Tiles 0 (requestsOf config encode batches) batches.length := by
  have h := groupIntoRequests_tiles config (sizesOf encode batches)
  rw [length_sizesOf] at h
  exact h

theorem buildPayloads_requestsOf :
    buildPayloads (requestsOf config encode batches) (encodeAll encode 0 batches) =
      some ((requestsOf config encode batches).map (payloadOf encode batches)) := by
  rw [buildPayloads_eq (requestsOf_tiles config encode batches) _ (length_encodeAll 0 batches).ge]
  simp only [slice_encodeAll]
  rfl

variable {config encode batches}

/-- A retry encodes the batches its first attempt carried. -/
theorem encodeRequest_eq {request : RequestRange}
    (hrequest : request ∈ requestsOf config encode batches)
    (call : Nat) : encodeRequest encode call batches request =
      some (Wire.concatenateTraceRequests (encodeAll encode call (request.slice batches))) := by
  have hle := ((requestsOf_tiles config encode batches).mem_end hrequest).1
  rw [encodeRequest, encodeFrom_eq call request.first request.count hle, Option.map_some,
    RequestRange.slice]

variable (codec : Wire.HttpWireCodec) (answers : Wire.Answers) (deadline : Int64)

theorem fanOut_eq (config : OtlpExporterConfig) (encode : Nat → BatchHandle ρ → Bytes)
    (batches : List (BatchHandle ρ)) :
    fanOut config encode codec answers deadline batches =
      some ((requestsOf config encode batches).zip
        ((List.range (requestsOf config encode batches).length).map
          (codec.outcome answers
            ((requestsOf config encode batches).map (payloadOf encode batches)) deadline))) := by
  rw [fanOut]
  simp only [buildPayloads_requestsOf, Wire.HttpWireCodec.sendAll_results, List.length_map]
  rw [settlements_eq, List.drop_zero]
  rw [List.length_map, List.length_range, Nat.zero_add]

/-- A batch is carried by one request only. -/
theorem carried_once {requests : List RequestRange} {n b : Nat}
    (h : requests.flatMap RequestRange.indices = List.range n) {i j : Nat} {r r' : RequestRange}
    (hi : requests[i]? = some r) (hj : requests[j]? = some r') (hb : b ∈ r.indices)
    (hb' : b ∈ r'.indices) : i = j := by
  have hnodup : (requests.flatMap RequestRange.indices).Nodup := h ▸ List.nodup_range
  rw [List.nodup_flatMap] at hnodup
  have hdisjoint := List.pairwise_iff_getElem.mp hnodup.2
  obtain ⟨hilt, rfl⟩ := List.getElem?_eq_some_iff.mp hi
  obtain ⟨hjlt, rfl⟩ := List.getElem?_eq_some_iff.mp hj
  rcases Nat.lt_trichotomy i j with hlt | heq | hgt
  · exact absurd hb' (hdisjoint i j hilt hjlt hlt hb)
  · exact heq
  · exact absurd hb (hdisjoint j i hjlt hilt hgt hb')

end FanOut

/-- Grouping covers the drain exactly and greedily; a retry encodes the batches of
the first attempt; `SendAll` answers each payload in its place; and each batch is
settled by the outcome of the one request that carries it. -/
theorem requests_lose_nothing (config : OtlpExporterConfig) (encode : Nat → BatchHandle ρ → Bytes)
    (batches : List (BatchHandle ρ)) (codec : Wire.HttpWireCodec) (answers : Wire.Answers)
    (deadline : Int64) :
    let requests := requestsOf config encode batches
    let payloads := requests.map (payloadOf encode batches)
    (∀ sizes, GroupsExactly config sizes (groupIntoRequests config sizes)) ∧
    buildPayloads requests (encodeAll encode 0 batches) = some payloads ∧
    (∀ request ∈ requests, ∀ call, encodeRequest encode call batches request =
      some (Wire.concatenateTraceRequests (encodeAll encode call (request.slice batches)))) ∧
    (∀ f, encode = (fun _ => f) → ∀ request ∈ requests, ∀ call,
      encodeRequest encode call batches request = some (payloadOf encode batches request)) ∧
    (∀ payloads, (codec.sendAll answers payloads deadline).results =
        (List.range payloads.length).map (codec.outcome answers payloads deadline) ∧
      (Wire.HttpWireCodec.ensureConnected answers = none → ∀ i < payloads.length, ∀ spec storage,
        codec.requestOf answers payloads deadline i = .ok (spec, storage) →
          (codec.sendAll answers payloads deadline).sends[codec.handleOf answers payloads
            deadline i]?
            = some spec)) ∧
    ∃ settled, fanOut config encode codec answers deadline batches = some settled ∧
      ∀ b < batches.length, ∃ i request, requests[i]? = some request ∧ b ∈ request.indices ∧
        settled[i]? = some (request, codec.outcome answers payloads deadline i) ∧
        ∀ j other, (∃ result, settled[j]? = some (other, result)) → b ∈ other.indices → j = i := by
  intro requests payloads
  refine ⟨groupsExactly config, buildPayloads_requestsOf config encode batches,
    fun request hrequest => encodeRequest_eq hrequest, ?_, ?_, _,
    fanOut_eq codec answers deadline config encode batches, ?_⟩
  · rintro f rfl request hrequest call
    rw [encodeRequest_eq hrequest, payloadOf, encodeAll_const, encodeAll_const]
  · exact fun payloads => ⟨Wire.HttpWireCodec.sendAll_results,
      fun hconnect i hi spec storage hspec =>
        Wire.HttpWireCodec.sendAll_sends hconnect hi hspec⟩
  · intro b hb
    have hcovers := (groupsExactly config (sizesOf encode batches)).covers
    rw [length_sizesOf] at hcovers
    have hmem : b ∈ requests.flatMap RequestRange.indices := by
      rw [show requests.flatMap RequestRange.indices = List.range batches.length from hcovers]
      exact List.mem_range.mpr hb
    obtain ⟨request, hrequest, hcarried⟩ := List.mem_flatMap.mp hmem
    obtain ⟨i, hi, hget⟩ := List.mem_iff_getElem.mp hrequest
    have hsome : requests[i]? = some request := List.getElem?_eq_some_iff.mpr ⟨hi, hget⟩
    refine ⟨i, request, hsome, hcarried, ?_, ?_⟩
    · rw [List.getElem?_zip_eq_some]
      refine ⟨hsome, ?_⟩
      rw [List.getElem?_map, List.getElem?_range hi]
      rfl
    · rintro j other ⟨result, hsettled⟩ hother
      exact carried_once hcovers (List.getElem?_zip_eq_some.mp hsettled).1 hsome hother hcarried

/-! ### The step of the exporter -/

/-- What the retry engine reads of a result. -/
def WireResult.ofWire (result : Wire.WireResult) : WireResult where
  success := result.success
  retryable := result.retryable
  partialSuccessRejected := result.partialSuccessRejected.toNat
  error := result.error.map (·.message)

end Microtel.Pipeline
