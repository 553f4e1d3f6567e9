import Mathlib.Algebra.Order.Field.Rat
import Mathlib.Data.Prod.Lex
import Mathlib.Tactic.Linarith
import FraudDetection.CpuScorer
import FraudDetection.Library.Outcomes
import FraudDetection.Library.Sorting

/-!
# The explanations of a score

`boundedExplanations` ranks contributions by magnitude and then by feature. On distinct features the
ranking separates all contributions, so an unstable sort has one result, and clipping comes after it.
-/

namespace FraudDetection.Proofs
open FraudDetection.Library
open FraudDetection.Worker

variable {K : Type} [Field K] [LinearOrder K]

section ranking

abbrev Contribution (K : Type) := Int × K

def explanationOf (c : Contribution K) : Explanation K := ⟨c.1, .finite c.2⟩

/-- A larger magnitude comes first, and the smaller feature of two with one magnitude. -/
def Outranks (a b : Contribution K) : Prop := |b.2| < |a.2| ∨ |a.2| = |b.2| ∧ a.1 < b.1

def rankKey (c : Contribution K) : K ×ₗ Int := toLex (-|c.2|, c.1)

lemma pairwise_rankKey_ne {cs : List (Contribution K)} (h : (cs.map Prod.fst).Nodup) :
    cs.Pairwise fun a b => rankKey a ≠ rankKey b := by
  refine (List.pairwise_map.mp h).imp ?_
  intro a b hne hkey
  exact hne (congrArg (fun k => (ofLex k).2) hkey)

def ranking (cs : List (Contribution K)) : List (Contribution K) := stableSort rankKey cs

lemma ranking_perm (cs : List (Contribution K)) : (ranking cs).Perm cs := stableSort_perm rankKey cs

lemma ranking_pairwise {cs : List (Contribution K)} (h : (cs.map Prod.fst).Nodup) :
    (ranking cs).Pairwise fun a b => rankKey a < rankKey b := by
  have hne := (ranking_perm cs).symm.pairwise (pairwise_rankKey_ne h) Ne.symm
  exact ((stableSort_sorted rankKey cs).and hne).imp fun hab => lt_of_le_of_ne hab.1 hab.2

lemma ranking_eq_of_perm {cs cs' : List (Contribution K)} (h : (cs.map Prod.fst).Nodup) (hperm : cs'.Perm cs) :
    ranking cs' = ranking cs := by
  have h' : (cs'.map Prod.fst).Nodup := (hperm.map Prod.fst).nodup_iff.mpr h
  refine List.Perm.eq_of_pairwise ?_ (ranking_pairwise h') (ranking_pairwise h)
    ((ranking_perm cs').trans (hperm.trans (ranking_perm cs).symm))
  intro a b _ _ hab hba
  exact absurd hab hba.asymm

variable [IsStrictOrderedRing K]

lemma rankKey_lt_iff {a b : Contribution K} : rankKey a < rankKey b ↔ Outranks a b := by
  unfold rankKey Outranks
  rw [Prod.Lex.toLex_lt_toLex, neg_lt_neg_iff, neg_inj]

lemma explanationLess_iff (a b : Contribution K) :
    explanationLess (explanationOf a) (explanationOf b) = true ↔ rankKey a < rankKey b := by
  rw [rankKey_lt_iff]
  unfold Outranks
  change (if decide (|a.2| = |b.2|) = true then decide (a.1 < b.1) else decide (|b.2| < |a.2|)) = true ↔ _
  by_cases heq : |a.2| = |b.2|
  · simp [heq]
  · simp [heq]

lemma explanationLess_eq_false_iff (a b : Contribution K) :
    explanationLess (explanationOf a) (explanationOf b) = false ↔ rankKey b ≤ rankKey a := by
  rw [← not_lt, ← explanationLess_iff, Bool.not_eq_true]

lemma strictWeakOn_explanationLess (cs : List (Contribution K)) :
    StrictWeakOn explanationLess (cs.map explanationOf) := by
  constructor
  · simp only [List.forall_mem_map, explanationLess_eq_false_iff, le_refl, implies_true]
  · simp only [List.forall_mem_map, explanationLess_iff]
    intro a _ b _ c _ hab hbc
    exact hab.trans hbc
  · simp only [List.forall_mem_map, explanationLess_eq_false_iff]
    intro a _ b _ c _ hab hbc
    exact hbc.trans hab

lemma sort_explanations {sort : SliceSort K} (hsort : SortsSlices sort) {cs : List (Contribution K)}
    (h : (cs.map Prod.fst).Nodup) : sort explanationLess (cs.map explanationOf) = (ranking cs).map explanationOf := by
  have hweak := strictWeakOn_explanationLess cs
  have hsep : (cs.map explanationOf).Pairwise fun a b => explanationLess a b ∨ explanationLess b a := by
    rw [List.pairwise_map]
    refine (pairwise_rankKey_ne h).imp ?_
    intro a b hne
    rw [explanationLess_iff, explanationLess_iff]
    exact lt_or_gt_of_ne hne
  have hranked : ((ranking cs).map explanationOf).Pairwise fun a b => explanationLess a b := by
    rw [List.pairwise_map]
    exact (ranking_pairwise h).imp fun hab => (explanationLess_iff _ _).mpr hab
  have hperm := hsort.perm explanationLess (cs.map explanationOf)
  exact perm_eq_of_pairwise_less (hweak.perm hperm) (hsort.pairwise_less hweak hsep) hranked
    (hperm.trans ((ranking_perm cs).map explanationOf).symm)

end ranking

section clipping

variable [IsStrictOrderedRing K]

def clip (x : K) : K := max (-1) (min 1 x)

lemma clipImpact_explanationOf (c : Contribution K) : clipImpact (explanationOf c) = explanationOf (c.1, clip c.2) := by
  have hmin : (Ieee.finite (1 : K)).min (.finite c.2) = .finite (min 1 c.2) := by
    change (if (1 : K) < c.2 then Ieee.finite (1 : K) else .finite c.2) = _
    split
    · rw [min_eq_left (by linarith)]
    · rw [min_eq_right (by linarith)]
  have hmax : (Ieee.finite (-1 : K)).max (.finite (min 1 c.2)) = .finite (clip c.2) := by
    change (if min 1 c.2 < (-1 : K) then Ieee.finite (-1 : K) else .finite (min 1 c.2)) = _
    unfold clip
    split
    · rw [max_eq_left (by linarith)]
    · rw [max_eq_right (by linarith)]
  unfold clipImpact explanationOf
  rw [hmin, hmax]

lemma clip_bounds (x : K) : -1 ≤ clip x ∧ clip x ≤ 1 := by
  refine ⟨le_max_left _ _, max_le (by linarith [zero_le_one (α := K)]) (min_le_left _ _)⟩

lemma clip_pos_iff (x : K) : 0 < clip x ↔ 0 < x := by
  unfold clip
  rw [lt_max_iff, lt_min_iff]
  constructor
  · rintro (h | h)
    · linarith [zero_lt_one (α := K)]
    · exact h.2
  · exact fun h => .inr ⟨zero_lt_one, h⟩

lemma clip_neg_iff (x : K) : clip x < 0 ↔ x < 0 := by
  unfold clip
  rw [max_lt_iff, min_lt_iff]
  constructor
  · rintro ⟨-, h | h⟩
    · linarith [zero_lt_one (α := K)]
    · exact h
  · exact fun h => ⟨by linarith [zero_lt_one (α := K)], .inr h⟩

lemma clip_of_abs_le {x : K} (h : |x| ≤ 1) : clip x = x := by
  obtain ⟨hlow, hhigh⟩ := abs_le.mp h
  unfold clip
  rw [min_eq_right hhigh, max_eq_right hlow]

lemma validExplanation_clip {n : Nat} (hn : n < maxFeatureWidth) (x : K) :
    validExplanation (clipImpact (explanationOf ((n : Int), x))) = true := by
  obtain ⟨hlow, hhigh⟩ := clip_bounds x
  have hrange : inRange (-1) 1 (Ieee.finite (clip x)) = true := by
    simp [inRange, nonFinite, Ieee.lt, Ieee.isNaN, Ieee.isInf, hlow, hhigh]
  rw [clipImpact_explanationOf]
  simp [validExplanation, explanationOf, hrange, hn]

end clipping

lemma length_boundedExplanations {sort : SliceSort K} (hsort : SortsSlices sort) (values : List (Explanation K)) :
    (boundedExplanations sort values).length = min maxExplanations values.length := by
  unfold boundedExplanations
  rw [List.length_map, List.length_take, (hsort.perm explanationLess values).length_eq]

section scorer

lemma validateRequests_width {requests : List (Request K)} {allowEmpty : Bool}
    (h : validateRequests requests allowEmpty = none) {r : Request K} (hr : r ∈ requests) :
    r.features.length ≤ maxFeatureWidth := by
  unfold validateRequests at h
  split at h
  · cases h
  · obtain ⟨i, hi⟩ := List.mem_iff_getElem?.mp hr
    have hmem : (r, i) ∈ requests.zipIdx := List.mem_zipIdx_iff_getElem?.mpr hi
    have hnone := List.findSome?_eq_none_iff.mp h (r, i) hmem
    simp only [validateRequest] at hnone
    split at hnone
    · cases hnone
    · omega

lemma infer_eq_map {ops : Rounding K} {sort : SliceSort K} {scorer : CPUScorer K} {ctxErr : Nat → Option GoError}
    {requests : List (Request K)} {results : List (Result K)}
    (h : scorer.infer ops sort ctxErr requests = .ok results) :
    validateRequests requests true = none ∧ results = requests.map (scorer.result ops sort) ∧
      ∀ r ∈ requests, r.features.length = scorer.weights.length := by
  unfold CPUScorer.infer at h
  rw [throw_if_eq_ok_iff] at h
  obtain ⟨-, h⟩ := h
  cases hvalid : validateRequests requests true with
  | some err =>
    rw [hvalid] at h
    cases h
  | none =>
    rw [hvalid] at h
    obtain ⟨hresults, hwidth⟩ := mapM_eq_map (g := fun item : Request K × Nat => scorer.result ops sort item.1)
      (P := fun item => item.1.features.length = scorer.weights.length) h fun item result hitem => by
        dsimp only at hitem
        cases herr : ctxErr item.2 with
        | some err =>
          rw [herr] at hitem
          cases hitem
        | none =>
          rw [herr] at hitem
          dsimp only at hitem
          rw [throw_if_eq_ok_iff] at hitem
          obtain ⟨hwidth, hitem⟩ := hitem
          cases hitem
          exact ⟨rfl, not_ne_iff.mp hwidth⟩
    refine ⟨rfl, ?_, ?_⟩
    · have hfst : requests.zipIdx.map Prod.fst = requests := List.zipIdx_map_fst ..
      calc results = (requests.zipIdx.map Prod.fst).map (scorer.result ops sort) := by rw [hresults, List.map_map]; rfl
        _ = requests.map (scorer.result ops sort) := by rw [hfst]
    · intro r hr
      obtain ⟨i, hi⟩ := List.mem_iff_getElem?.mp hr
      exact hwidth (r, i) (List.mem_zipIdx_iff_getElem?.mpr hi)

/-- Every explanation of a result is a clipped contribution of a feature of the request. -/
lemma mem_explanation {ops : Rounding K} {sort : SliceSort K} (hsort : SortsSlices sort) {scorer : CPUScorer K}
    {r : Request K} {e : Explanation K} (he : e ∈ (scorer.result ops sort r).explanation) :
    ∃ j < r.features.length, ∃ v ∈ scorer.contributions ops r, v.featureIndex = j ∧ e = clipImpact v := by
  obtain ⟨v, hv, rfl⟩ := List.mem_map.mp he
  have hmem := (hsort.perm explanationLess _).mem_iff.mp (List.mem_of_mem_take hv)
  obtain ⟨⟨contribution, j⟩, hj, rfl⟩ := List.mem_map.mp hmem
  have hlt := (List.getElem?_eq_some_iff.mp (List.mem_zipIdx_iff_getElem?.mp hj)).1
  unfold CPUScorer.products at hlt
  rw [List.length_zipWith] at hlt
  exact ⟨j, by omega, _, hmem, rfl, rfl⟩

end scorer

/-- For contributions of distinct features, every sort gives the first three of the one ranking by
magnitude and then by feature, clipped with their sign, in whichever order they came. So the
explanations of a scorer with finite contributions pass the checks of `validateResults`. -/
theorem explanations_top_three [IsStrictOrderedRing K] {sort : SliceSort K} (hsort : SortsSlices sort) :
    (∀ cs : List (Contribution K), (cs.map Prod.fst).Nodup → ∃ ranked : List (Contribution K),
      ranked.Perm cs ∧ ranked.Pairwise Outranks ∧
      (boundedExplanations sort (cs.map explanationOf)).length = min 3 cs.length ∧
      ∀ cs' : List (Contribution K), cs'.Perm cs → boundedExplanations sort (cs'.map explanationOf) =
        (ranked.take 3).map fun c => ⟨c.1, .finite (clip c.2)⟩) ∧
    (∀ x : K, (-1 ≤ clip x ∧ clip x ≤ 1) ∧ (0 < clip x ↔ 0 < x) ∧ (clip x < 0 ↔ x < 0) ∧ (|x| ≤ 1 → clip x = x)) ∧
    ∀ (ops : Rounding K) (scorer : CPUScorer K) (ctxErr : Nat → Option GoError) (requests : List (Request K))
      (results : List (Result K)), scorer.infer ops sort ctxErr requests = .ok results →
      (∀ r ∈ requests, ∀ e ∈ scorer.contributions ops r, ∃ x, e.impact = .finite x) →
      ∀ result ∈ results, result.explanation.length ≤ maxExplanations ∧
        result.explanation.all validExplanation = true := by
  refine ⟨?_, fun x => ⟨clip_bounds x, clip_pos_iff x, clip_neg_iff x, clip_of_abs_le⟩, ?_⟩
  · intro cs hnodup
    refine ⟨ranking cs, ranking_perm cs, (ranking_pairwise hnodup).imp rankKey_lt_iff.mp, ?_, ?_⟩
    · rw [length_boundedExplanations hsort, List.length_map]
      rfl
    · intro cs' hperm
      have hnodup' : (cs'.map Prod.fst).Nodup := (hperm.map Prod.fst).nodup_iff.mpr hnodup
      have hsame := ranking_eq_of_perm hnodup hperm
      unfold boundedExplanations
      rw [sort_explanations hsort hnodup', hsame, ← List.map_take, List.map_map]
      exact List.map_congr_left fun c _ => clipImpact_explanationOf c
  · intro ops scorer ctxErr requests results hinfer hfinite result hresult
    obtain ⟨hvalid, rfl, -⟩ := infer_eq_map hinfer
    obtain ⟨r, hr, rfl⟩ := List.mem_map.mp hresult
    have hwidth := validateRequests_width hvalid hr
    constructor
    · exact (length_boundedExplanations hsort _).le.trans (min_le_left _ _)
    · rw [List.all_eq_true]
      intro e he
      obtain ⟨j, hj, v, hv, hindex, rfl⟩ := mem_explanation hsort he
      obtain ⟨x, hx⟩ := hfinite r hr v hv
      have hv' : v = explanationOf ((j : Int), x) := by
        cases v
        simp only at hindex hx
        rw [hindex, hx]
        rfl
      rw [hv']
      exact validExplanation_clip (by omega) x

/-- Two contributions level in magnitude beyond the bound of clipping, and a small one. -/
def levelContributions : List (Contribution ℚ) := [(2, 3), (0, 1 / 2), (1, -3)]

def insertionSlices : SliceSort ℚ := fun less xs => xs.insertionSort fun a b => less b a = false

theorem explanations_top_three_level :
    boundedExplanations insertionSlices (levelContributions.map explanationOf) =
      [⟨1, .finite (-1)⟩, ⟨2, .finite 1⟩, ⟨0, .finite (1 / 2)⟩] ∧
    boundedExplanations insertionSlices (levelContributions.reverse.map explanationOf) =
      boundedExplanations insertionSlices (levelContributions.map explanationOf) := by
  have hsort : SortsSlices insertionSlices := insertionSort_sortsSlices
  have htop := (explanations_top_three hsort).1
  obtain ⟨ranked, -, -, -, hresult⟩ := htop levelContributions (by decide)
  refine ⟨by decide +kernel, ?_⟩
  rw [hresult _ (List.reverse_perm _), hresult _ (List.Perm.refl _)]

end FraudDetection.Proofs
