import Microtel.Wire.HttpWireCodec

/-!
`SendAll` answers each payload in its place: whatever the auth provider refuses and
whatever the transport answers, entry `i` of the results is the outcome of payload
`i`.
-/

namespace Microtel.Wire.HttpWireCodec

open Transport

variable (codec : HttpWireCodec) (answers : Answers) (payloads : List Bytes) (deadline : Int64)

/-- The request of payload `i`, or the failure of the auth provider. -/
def requestOf (i : Nat) : Except Error (RequestSpec × Bytes) :=
  codec.request (payloads.getD i []) (answers.authorization i) deadline

/-- The payloads before `i` that go out. -/
def sentBefore (i : Nat) : List Nat :=
  (List.range i).filter fun j => (requestOf codec answers payloads deadline j).toBool

/-- The number of the transport's `Send` that takes payload `i`. -/
def handleOf (i : Nat) : Nat := (sentBefore codec answers payloads deadline i).length

/-- What becomes of payload `i` on its own. -/
def outcome (i : Nat) : WireResult :=
  match ensureConnected answers with
  | some (failure, _) => failure
  | none =>
      match requestOf codec answers payloads deadline i with
      | .error err => authFailure err
      | .ok _ =>
          (codec.collectOneResult (answers.result (handleOf codec answers payloads deadline i))).1

variable {codec answers payloads deadline}

/-! ### The loop that submits -/

variable (codec answers payloads deadline) in
theorem sentBefore_succ (i : Nat) : sentBefore codec answers payloads deadline (i + 1) =
    sentBefore codec answers payloads deadline i ++
      if (requestOf codec answers payloads deadline i).toBool then [i] else [] := by
  rw [sentBefore, List.range_succ, List.filter_append, ← sentBefore, List.filter_singleton]
  cases (requestOf codec answers payloads deadline i).toBool <;> rfl

/-- What the loop has after `i` rounds. -/
structure Submitted (codec : HttpWireCodec) (answers : Answers) (payloads : List Bytes)
    (deadline : Int64) (i : Nat) (s : Sending) : Prop where
  untouched : ∀ j, i ≤ j → s.payloads.getD j [] = payloads.getD j []
  length : s.results.length = payloads.length
  refused : ∀ j < i, j < payloads.length → ∀ err,
    requestOf codec answers payloads deadline j = .error err →
      s.results[j]? = some (authFailure err)
  inFlight : s.inFlight.map (fun item => (item.index, item.handle)) =
    (sentBefore codec answers payloads deadline i).map
      fun j => (j, handleOf codec answers payloads deadline j)
  sends_length : s.sends.length = handleOf codec answers payloads deadline i
  sends : ∀ j < i, ∀ spec storage, requestOf codec answers payloads deadline j =
    .ok (spec, storage) →
    s.sends[handleOf codec answers payloads deadline j]? = some spec

theorem Submitted.init : Submitted codec answers payloads deadline 0
    { payloads, results := List.replicate payloads.length {} } where
  untouched _ _ := rfl
  length := List.length_replicate
  refused _ h := absurd h (Nat.not_lt_zero _)
  inFlight := rfl
  sends_length := rfl
  sends _ h := absurd h (Nat.not_lt_zero _)

theorem Submitted.submit {i : Nat} {s : Sending}
    (h : Submitted codec answers payloads deadline i s) :
    Submitted codec answers payloads deadline (i + 1) (codec.submit answers deadline s i) := by
  have hrequest : codec.request (s.payloads.getD i []) (answers.authorization i) deadline =
      requestOf codec answers payloads deadline i := by
    rw [h.untouched i le_rfl, requestOf]
  have hsent := sentBefore_succ codec answers payloads deadline i
  unfold HttpWireCodec.submit
  simp only [hrequest]
  cases hof : requestOf codec answers payloads deadline i with
  | error err =>
      have hsame : sentBefore codec answers payloads deadline (i + 1) =
          sentBefore codec answers payloads deadline i := by
        rw [hsent, hof]
        exact List.append_nil _
      refine ⟨fun j hj => h.untouched j (by omega), ?_, ?_, ?_, ?_, ?_⟩
      · rw [List.length_set]
        exact h.length
      · intro j hj hlen err' herr
        by_cases hij : j = i
        · subst hij
          rw [hof] at herr
          cases herr
          rw [List.getElem?_set_self (by rw [h.length]; exact hlen)]
        · rw [List.getElem?_set_ne (Ne.symm hij)]
          exact h.refused j (by omega) hlen err' herr
      · rw [hsame]
        exact h.inFlight
      · rw [h.sends_length, handleOf, handleOf, hsame]
      · intro j hj spec storage hspec
        by_cases hij : j = i
        · subst hij
          rw [hof] at hspec
          cases hspec
        · exact h.sends j (by omega) spec storage hspec
  | ok out =>
      obtain ⟨spec, storage⟩ := out
      have hmore : sentBefore codec answers payloads deadline (i + 1) =
          sentBefore codec answers payloads deadline i ++ [i] := by
        rw [hsent, hof]
        rfl
      refine ⟨?_, h.length, ?_, ?_, ?_, ?_⟩
      · intro j hj
        rw [← h.untouched j (by omega), List.getD_eq_getElem?_getD, List.getD_eq_getElem?_getD,
          List.getElem?_set_ne (by omega), List.getD_eq_getElem?_getD]
      · intro j hj hlen err herr
        by_cases hij : j = i
        · subst hij
          rw [hof] at herr
          cases herr
        · exact h.refused j (by omega) hlen err herr
      · simp only [List.map_append, h.inFlight, hmore, List.map_cons, List.map_nil, h.sends_length]
      · rw [List.length_append, h.sends_length, handleOf, handleOf, hmore, List.length_append]
        rfl
      · intro j hj spec' storage' hspec
        by_cases hij : j = i
        · subst hij
          rw [hof] at hspec
          cases hspec
          rw [← h.sends_length, List.getElem?_concat_length]
        · have hlt := h.sends j (by omega) spec' storage' hspec
          rw [List.getElem?_append_left]
          · exact hlt
          · exact (List.getElem?_eq_some_iff.mp hlt).1

variable (codec answers payloads deadline) in
theorem submitted (n : Nat) : Submitted codec answers payloads deadline n
    ((List.range n).foldl (codec.submit answers deadline)
      { payloads, results := List.replicate payloads.length {} }) := by
  induction n with
  | zero => exact Submitted.init
  | succ n ih =>
      rw [List.range_succ, List.foldl_append]
      exact ih.submit

/-! ### The loop that collects -/

/-- Results put at distinct places: each is where it was put, and the others stay. -/
theorem collect_all (items : List InFlight) (s : Sending)
    (hnodup : (items.map (·.index)).Nodup) :
    let t := items.foldl (codec.collect answers) s
    t.results.length = s.results.length ∧ t.sends = s.sends ∧
      (∀ item ∈ items, item.index < s.results.length →
        t.results[item.index]? = some (codec.collectOneResult (answers.result item.handle)).1) ∧
      ∀ j, j ∉ items.map (·.index) → t.results[j]? = s.results[j]? := by
  induction items generalizing s with
  | nil => exact ⟨rfl, rfl, nofun, fun _ _ => rfl⟩
  | cons item items ih =>
      rw [List.map_cons, List.nodup_cons] at hnodup
      obtain ⟨hlength, hsends, hput, hkept⟩ := ih (codec.collect answers s item) hnodup.2
      have hset : (codec.collect answers s item).results = s.results.set item.index
          (codec.collectOneResult (answers.result item.handle)).1 := rfl
      rw [hset, List.length_set] at hlength
      rw [hset, List.length_set] at hput
      rw [hset] at hkept
      refine ⟨hlength, hsends, ?_, ?_⟩
      · intro other hother hlt
        rcases List.mem_cons.mp hother with rfl | hother
        · rw [List.foldl_cons, hkept _ hnodup.1, List.getElem?_set_self hlt]
        · exact hput other hother hlt
      · intro j hj
        rw [List.map_cons, List.mem_cons, not_or] at hj
        rw [List.foldl_cons, hkept j hj.2, List.getElem?_set_ne (Ne.symm hj.1)]

theorem Submitted.indexes {i : Nat} {s : Sending}
    (h : Submitted codec answers payloads deadline i s) :
    s.inFlight.map (·.index) = sentBefore codec answers payloads deadline i := by
  have hfirst := congrArg (List.map Prod.fst) h.inFlight
  simp only [List.map_map, Function.comp_def, List.map_id'] at hfirst
  exact hfirst

theorem Submitted.nodup {i : Nat} {s : Sending}
    (h : Submitted codec answers payloads deadline i s) : (s.inFlight.map (·.index)).Nodup := by
  rw [h.indexes]
  exact List.nodup_range.filter _

/-- What the loops leave at the place of a payload. -/
theorem Submitted.collected {s : Sending}
    (h : Submitted codec answers payloads deadline payloads.length s) {i : Nat}
    (hi : i < payloads.length) :
    (s.inFlight.foldl (codec.collect answers) s).results[i]? = some
      (match requestOf codec answers payloads deadline i with
        | .error err => authFailure err
        | .ok _ =>
            (codec.collectOneResult
              (answers.result (handleOf codec answers payloads deadline i))).1) := by
  obtain ⟨-, -, hput, hkept⟩ := collect_all s.inFlight s h.nodup
  have hmem : i ∈ sentBefore codec answers payloads deadline payloads.length ↔
      (requestOf codec answers payloads deadline i).toBool = true := by
    rw [sentBefore, List.mem_filter, List.mem_range]
    exact and_iff_right hi
  cases hof : requestOf codec answers payloads deadline i with
  | error err =>
      rw [hkept i]
      · exact h.refused i hi hi err hof
      · rw [h.indexes, hmem, hof]
        exact Bool.false_ne_true
  | ok out =>
      have hsent : (i, handleOf codec answers payloads deadline i) ∈
          s.inFlight.map fun item => (item.index, item.handle) := by
        rw [h.inFlight]
        exact List.mem_map.mpr ⟨i, hmem.mpr (by rw [hof]; rfl), rfl⟩
      obtain ⟨item, hitem, heq⟩ := List.mem_map.mp hsent
      obtain ⟨hindex, hhandle⟩ := Prod.mk.inj heq
      have hresult := hput item hitem (by rw [h.length, hindex]; exact hi)
      rw [hindex, hhandle] at hresult
      exact hresult

/-- One entry per payload, and entry `i` is the outcome of payload `i`. -/
theorem sendAll_results : (codec.sendAll answers payloads deadline).results =
    (List.range payloads.length).map (outcome codec answers payloads deadline) := by
  rw [sendAll]
  split
  · next hnil =>
    rw [hnil]
    rfl
  · unfold outcome
    cases hconnect : ensureConnected answers with
    | some refusal =>
        simp only [List.map_const', List.length_range]
    | none =>
        have hdone := submitted codec answers payloads deadline payloads.length
        dsimp only
        apply List.ext_getElem?
        intro i
        rw [List.getElem?_map]
        by_cases hi : i < payloads.length
        · rw [hdone.collected hi, List.getElem?_range hi]
          rfl
        · rw [List.getElem?_eq_none, List.getElem?_eq_none, Option.map_none]
          · rw [List.length_range]
            omega
          · rw [(collect_all _ _ hdone.nodup).1, hdone.length]
            omega

/-- The transport's `Send` of that number takes the payload. -/
theorem sendAll_sends (hconnect : ensureConnected answers = none) {i : Nat}
    (hi : i < payloads.length) {spec : RequestSpec} {storage : Bytes}
    (hspec : requestOf codec answers payloads deadline i = .ok (spec, storage)) :
    (codec.sendAll answers payloads deadline).sends[handleOf codec answers payloads deadline i]? =
      some spec := by
  have hne : payloads ≠ [] := by
    rintro rfl
    exact Nat.not_lt_zero _ hi
  have hdone := submitted codec answers payloads deadline payloads.length
  rw [sendAll, if_neg hne]
  simp only [hconnect]
  rw [(collect_all _ _ hdone.nodup).2.1]
  exact hdone.sends i hi spec storage hspec

end Microtel.Wire.HttpWireCodec
