import Microtel.Concentrator.Time
import Microtel.Lib.Recent
import Microtel.Lib.Signed64

/-!
The boot-relative anchor over whole histories: what `BootAnchor::Update` returns is the
corroborated offset of the samples that count. A history lists its calls newest first.
-/

namespace Microtel.Concentrator

open Recent Signed64

def BootSample.InInt64 (s : BootSample) : Prop := InRange s.offset ∧ InRange s.takenAt

namespace BootAnchor

/-- The anchor after the calls of a history. -/
def replay (window : Int) : List BootSample → BootAnchor
  | [] => empty
  | sample :: older => ((replay window older).update sample window).1

/-- What the last call of a history returns. -/
def lastAnchor (window : Int) : List BootSample → Option Int
  | [] => none
  | sample :: older => some ((replay window older).update sample window).2

/-- The samples that count: of the calls since the boot changed, those taken in the
window of the last one, and of these the last 16. -/
def recent (window : Int) : List BootSample → List BootSample
  | [] => []
  | sample :: older =>
      (((sample :: older).takeWhile fun s => s.bootId = sample.bootId).filter fun s =>
        saturatingSub sample.takenAt window ≤ s.takenAt).take maxSamples

/-- The calls come in the order of their times. -/
def Ordered (calls : List BootSample) : Prop :=
  calls.Pairwise fun newer older => older.takenAt ≤ newer.takenAt

/-- A sample as the anchor keeps it. -/
def kept (s : BootSample) : Int × Int := (s.offset, s.takenAt)

/-! ### One call -/

theorem lowestTwo_eq (samples : List (Int × Int)) :
    lowestTwo samples = (samples.map Prod.fst).foldl keepLowest (int64Max, int64Max) := by
  rw [lowestTwo, List.foldl_map]
  rfl

theorem reverse_dropOldest {samples : List (Int × Int)} (h : samples.length ≤ maxSamples) :
    (if samples.length = maxSamples then samples.drop 1 else samples).reverse =
      samples.reverse.take (maxSamples - 1) := by
  split
  · next hfull => rw [List.reverse_drop, hfull]
  · next hroom =>
    rw [List.take_of_length_le]
    rw [List.length_reverse]
    exact Nat.le_sub_one_of_lt (lt_of_le_of_ne h hroom)

/-- What a call leaves: the new sample before the ones of its boot that stay in the window. -/
theorem update_samples (a : BootAnchor) (sample : BootSample) (window : Int)
    (h : a.samples.length ≤ maxSamples) :
    (a.update sample window).1.samples.reverse = (kept sample ::
      ((if a.bootId = some sample.bootId then a.samples.reverse else []).filter fun s =>
        saturatingSub sample.takenAt window ≤ s.2)).take maxSamples := by
  have hsame : (if a.bootId = some sample.bootId then a.samples else []).reverse =
      if a.bootId = some sample.bootId then a.samples.reverse else [] := by
    split <;> rfl
  have hlength : (if a.bootId = some sample.bootId then a.samples else []).length ≤ maxSamples := by
    split
    · exact h
    · exact Nat.zero_le _
  unfold update
  dsimp only
  rw [← hsame]
  generalize (if a.bootId = some sample.bootId then a.samples else []) = samples at hlength ⊢
  have haged : (ageOut (saturatingSub sample.takenAt window) samples).length ≤ maxSamples :=
    le_trans (List.length_filter_le _ _) hlength
  rw [List.reverse_append, reverse_dropOldest haged, ageOut, List.filter_reverse]
  rfl

theorem saturatingSub_mono {a b window : Int} (hwindow : 0 ≤ window) (hle : a ≤ b) :
    saturatingSub a window ≤ saturatingSub b window := by
  unfold saturatingSub int64Max int64Min
  split_ifs <;> omega

theorem saturatingSub_le {a window : Int} (hwindow : 0 ≤ window) (ha : InRange a) :
    saturatingSub a window ≤ a := by
  obtain ⟨hlow, -⟩ := ha
  unfold saturatingSub int64Max int64Min
  split_ifs <;> omega

/-! ### Every history -/

section History

variable {window : Int} {calls older : List BootSample} {sample : BootSample}

theorem Ordered.elder (h : Ordered calls) (cutoff : Int) :
    calls.Pairwise fun newer older => decide (cutoff ≤ older.takenAt) = true →
      decide (cutoff ≤ newer.takenAt) = true := by
  refine h.imp fun hle hcutoff => ?_
  rw [decide_eq_true_eq] at hcutoff ⊢
  exact le_trans hcutoff hle

theorem recent_length_le (calls : List BootSample) : (recent window calls).length ≤ maxSamples := by
  cases calls with
  | nil => exact Nat.zero_le _
  | cons sample older => exact List.length_take_le _ _

theorem recent_subset {s : BootSample} (h : s ∈ recent window calls) : s ∈ calls := by
  cases calls with
  | nil => exact h
  | cons sample older =>
      exact List.takeWhile_subset _ (List.mem_of_mem_filter (List.mem_of_mem_take h))

/-- A call that stays with the boot of the one before keeps of its samples those still
in the window. -/
theorem recent_cons (hwindow : 0 ≤ window) (hsample : InRange sample.takenAt)
    (hordered : Ordered (sample :: older)) :
    recent window (sample :: older) = (sample ::
      ((match older with
        | [] => []
        | last :: _ => if last.bootId = sample.bootId then recent window older
            else []).filter fun s =>
          saturatingSub sample.takenAt window ≤ s.takenAt)).take maxSamples := by
  have hself : decide (saturatingSub sample.takenAt window ≤ sample.takenAt) = true :=
    decide_eq_true (saturatingSub_le hwindow hsample)
  obtain ⟨hlast, holder⟩ := List.pairwise_cons.mp hordered
  rw [recent, List.takeWhile_cons_of_pos (by simp), List.filter_cons_of_pos (by exact hself)]
  cases older with
  | nil => rfl
  | cons last older =>
      dsimp only
      by_cases hboot : last.bootId = sample.bootId
      · rw [if_pos hboot, recent, hboot]
        have hrun :=
          holder.sublist (List.takeWhile_sublist (fun s => decide (s.bootId = sample.bootId)))
        have hcutoff := saturatingSub_mono hwindow (hlast last (List.mem_cons_self ..))
        generalize (last :: older).takeWhile (fun s => decide (s.bootId = sample.bootId)) =
          run at hrun ⊢
        have hstays := (Ordered.elder hrun (saturatingSub sample.takenAt window)).sublist
          (List.filter_sublist (p := fun s =>
            decide (saturatingSub last.takenAt window ≤ s.takenAt)))
        have hfilter :
          run.filter (fun s => decide (saturatingSub sample.takenAt window ≤ s.takenAt)) =
            (run.filter fun s => decide (saturatingSub last.takenAt window ≤ s.takenAt)).filter
              fun s => decide (saturatingSub sample.takenAt window ≤ s.takenAt) := by
          rw [List.filter_filter]
          refine List.filter_congr fun s _ => ?_
          rw [eq_comm, Bool.and_eq_left_iff_imp]
          intro hs
          rw [decide_eq_true_eq] at hs ⊢
          exact le_trans hcutoff hs
        rw [hfilter, filter_take hstays, take_cons_take]
      · rw [if_neg hboot, List.takeWhile_cons_of_neg (by simpa using hboot)]

/-- Run lemma: the anchor holds the samples that count. -/
theorem replay_samples (hwindow : 0 ≤ window) (hrange : ∀ s ∈ calls, s.InInt64)
    (hordered : Ordered calls) :
    (replay window calls).samples.reverse = (recent window calls).map kept ∧
      (replay window calls).bootId = calls.head?.map (·.bootId) := by
  induction calls with
  | nil => exact ⟨rfl, rfl⟩
  | cons sample older ih =>
      obtain ⟨hsamples, hboot⟩ := ih (fun s hs => hrange s (List.mem_cons_of_mem _ hs))
        (List.pairwise_cons.mp hordered).2
      refine ⟨?_, rfl⟩
      have hlength : (replay window older).samples.length ≤ maxSamples := by
        rw [← List.length_reverse, hsamples, List.length_map]
        exact recent_length_le older
      rw [replay, update_samples _ _ _ hlength, hsamples, hboot,
        recent_cons hwindow (hrange sample (List.mem_cons_self ..)).2 hordered, List.map_take,
        List.map_cons]
      cases older with
      | nil => rfl
      | cons last older =>
          rw [List.head?_cons, Option.map_some]
          dsimp only
          simp only [Option.some.injEq]
          split
          · rw [List.filter_map]
            rfl
          · rfl

/-- What a call returns is the corroborated offset of the samples that count. -/
theorem lastAnchor_eq (hwindow : 0 ≤ window) (hrange : ∀ s ∈ calls, s.InInt64)
    (hordered : Ordered calls) :
    lastAnchor window calls = corroborated ((recent window calls).map (·.offset)) := by
  cases calls with
  | nil => rfl
  | cons sample older =>
      have hsamples := (replay_samples hwindow hrange hordered).1
      have hresult : lastAnchor window (sample :: older) =
          some (replay window (sample :: older)).anchor := rfl
      rw [hresult, anchor]
      generalize (replay window (sample :: older)).samples = samples at hsamples ⊢
      have hoffsets : (samples.map Prod.fst).reverse =
          (recent window (sample :: older)).map (·.offset) := by
        rw [← List.map_reverse, hsamples, List.map_map]
        rfl
      have hrecent : recent window (sample :: older) ≠ [] := by
        rw [recent_cons hwindow (hrange sample (List.mem_cons_self ..)).2 hordered]
        exact List.cons_ne_nil _ _
      have htop : ∀ x ∈ samples.map Prod.fst, x ≤ int64Max := by
        intro x hx
        rw [← List.mem_reverse, hoffsets] at hx
        obtain ⟨s, hs, rfl⟩ := List.mem_map.mp hx
        have hoffset := (hrange s (recent_subset hs)).1.2
        unfold int64Max
        omega
      have hne : samples.map Prod.fst ≠ [] := by
        intro hnil
        rw [hnil] at hoffsets
        exact hrecent (List.map_eq_nil_iff.mp hoffsets.symm)
      rw [← hoffsets, corroborated_perm (List.reverse_perm _), corroborated_scan htop hne,
        lowestTwo_eq, List.length_map]

/-- A sample counts after `last`: it is of the same boot and in the window. -/
def counts (window : Int) (last s : BootSample) : Bool :=
  decide (saturatingSub last.takenAt window ≤ s.takenAt) && decide (s.bootId = last.bootId)

theorem recent_eq_takeWhile (hordered : Ordered (sample :: older)) :
    recent window (sample :: older) =
      ((sample :: older).takeWhile (counts window sample)).take maxSamples := by
  have hrun :=
    hordered.sublist (List.takeWhile_sublist (fun s => decide (s.bootId = sample.bootId)))
  rw [recent, filter_eq_takeWhile (Ordered.elder hrun _), List.takeWhile_takeWhile]
  refine congrArg (List.take maxSamples) (congrArg (List.takeWhile · (sample :: older)) ?_)
  funext s
  simp [counts]

/-- Which samples count does not depend on their offsets. -/
theorem recent_replace_offset {before after counted : List BootSample} {s : BootSample}
    (offset : Int) (hordered : Ordered (before ++ s :: after))
    (hordered' : Ordered (before ++ { s with offset } :: after))
    (h : recent window (before ++ s :: after) = before ++ s :: counted) :
    recent window (before ++ { s with offset } :: after) =
      before ++ { s with offset } :: counted := by
  have hcounts : ∀ last, counts window last { s with offset } = counts window last s := fun _ => rfl
  cases before with
  | nil =>
      have hreplaced :=
        recent_replace _ (hcounts s) [] ((recent_eq_takeWhile hordered).symm.trans h)
      exact (recent_eq_takeWhile hordered').trans hreplaced
  | cons last before =>
      have hreplaced := recent_replace _ (hcounts last) (last :: before)
        ((recent_eq_takeWhile hordered).symm.trans h)
      exact (recent_eq_takeWhile hordered').trans hreplaced

theorem Ordered.replace_offset {before after : List BootSample} {s : BootSample} (offset : Int)
    (h : Ordered (before ++ s :: after)) : Ordered (before ++ { s with offset } :: after) := by
  have hmap : ∀ calls, Ordered calls ↔ (calls.map (·.takenAt)).Pairwise fun newer older =>
      older ≤ newer :=
    fun calls => (List.pairwise_map (f := BootSample.takenAt) (R := fun a b => b ≤ a)).symm
  rw [hmap] at h ⊢
  simpa using h

/-- Every call returns the corroborated offset of the samples that count, and no one
of them brings it below a bound of the others. -/
theorem lastAnchor_corroborated (hwindow : 0 ≤ window) (hrange : ∀ s ∈ calls, s.InInt64)
    (hordered : Ordered calls) :
    lastAnchor window calls = corroborated ((recent window calls).map (·.offset)) ∧
      ∀ before s after counted, calls = before ++ s :: after →
        recent window calls = before ++ s :: counted → before ++ counted ≠ [] →
        ∀ outlier, InRange outlier → ∀ low, (∀ other ∈ before ++ counted, low ≤ other.offset) →
          ∀ result, lastAnchor window (before ++ { s with offset := outlier } :: after) =
            some result →
            low ≤ result := by
  refine ⟨lastAnchor_eq hwindow hrange hordered, ?_⟩
  rintro before s after counted rfl hrecent hne outlier houtlier low hlow result hresult
  have hordered' := hordered.replace_offset outlier
  have hrange' : ∀ t ∈ before ++ { s with offset := outlier } :: after, t.InInt64 := by
    intro t ht
    rcases List.mem_append.mp ht with ht | ht
    · exact hrange t (List.mem_append_left _ ht)
    · rcases List.mem_cons.mp ht with rfl | ht
      · exact ⟨houtlier, (hrange s (List.mem_append_right _ (List.mem_cons_self ..))).2⟩
      · exact hrange t (List.mem_append_right _ (List.mem_cons_of_mem _ ht))
  rw [lastAnchor_eq hwindow hrange' hordered',
    recent_replace_offset outlier hordered hordered' hrecent,
    List.map_append, List.map_cons] at hresult
  refine le_corroborated ?_ ?_ hresult
  · rw [← List.map_append]
    intro y hy
    obtain ⟨other, hother, rfl⟩ := List.mem_map.mp hy
    exact hlow other hother
  · rw [← List.map_append]
    exact fun hnil => hne (List.map_eq_nil_iff.mp hnil)

end History

/-! ### One outlier -/

/-- Two samples of one boot, the last of which an outlier may replace. -/
def twoSamples : List BootSample := [⟨7, 30, 200⟩, ⟨7, 20, 100⟩]

theorem lastAnchor_corroborated_twoSamples :
    lastAnchor 1000 twoSamples = some 30 ∧
      ∀ result, lastAnchor 1000 [⟨7, -5000, 200⟩, ⟨7, 20, 100⟩] = some result → 20 ≤ result := by
  have hrange : ∀ s ∈ twoSamples, s.InInt64 := by simp [twoSamples, BootSample.InInt64, InRange]
  have hordered : Ordered twoSamples := by simp [twoSamples, Ordered]
  obtain ⟨-, houtlier⟩ := lastAnchor_corroborated (show (0 : Int) ≤ 1000 by decide) hrange hordered
  refine ⟨by decide, ?_⟩
  exact houtlier [] ⟨7, 30, 200⟩ [⟨7, 20, 100⟩] [⟨7, 20, 100⟩] rfl rfl (by simp) (-5000)
    ⟨by decide, by decide⟩ 20 (by simp)

end BootAnchor

end Microtel.Concentrator
