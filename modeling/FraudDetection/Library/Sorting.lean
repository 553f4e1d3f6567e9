import Mathlib.Data.List.Sort
import Mathlib.Data.List.TakeWhile
import Mathlib.Tactic.Common

/-!
# Sorting and binary search

`stableSort key xs` orders a list by a key and keeps the arrival order of equal keys.
A list is determined by being sorted together with its sublist at each key, which is how
every equation between stable sorts below is proved. `SortsSlices` is what any sort by comparison
promises, and a comparison that separates the elements leaves it no choice. `search` is the half-interval search
for the first index at which a predicate holds; on a list whose predicate is upward closed
it splits the list exactly where a filter does.
-/

namespace FraudDetection.Library

variable {α κ : Type*} [LinearOrder κ]

def stableSort (key : α → κ) (xs : List α) : List α :=
  xs.insertionSort (fun a b => key a ≤ key b)

def SortedBy (key : α → κ) (xs : List α) : Prop :=
  xs.Pairwise (fun a b => key a ≤ key b)

lemma stableSort_sorted (key : α → κ) (xs : List α) : SortedBy key (stableSort key xs) := by
  have htotal : Std.Total (fun a b => key a ≤ key b) := ⟨fun a b => le_total (key a) (key b)⟩
  have htrans : IsTrans α (fun a b => key a ≤ key b) := ⟨fun _ _ _ hab hbc => hab.trans hbc⟩
  exact List.pairwise_insertionSort _ xs

lemma stableSort_perm (key : α → κ) (xs : List α) : (stableSort key xs).Perm xs :=
  List.perm_insertionSort _ xs

lemma orderedInsert_filter_key (key : α → κ) (a : α) (xs : List α) (k : κ) :
    (xs.orderedInsert (fun a b => key a ≤ key b) a).filter (fun b => key b = k) =
      (a :: xs).filter (fun b => key b = k) := by
  induction xs with
  | nil => rfl
  | cons b xs ih =>
    rw [List.orderedInsert_cons]
    by_cases hab : key a ≤ key b
    · rw [if_pos hab]
    · rw [if_neg hab, List.filter_cons, ih]
      by_cases hb : key b = k
      · have ha : key a ≠ k := fun h => hab (by rw [h, hb])
        simp [ha, hb]
      · simp [hb, List.filter_cons]

/-- Stability: the elements of one key keep their order. -/
lemma stableSort_filter_key (key : α → κ) (xs : List α) (k : κ) :
    (stableSort key xs).filter (fun b => key b = k) = xs.filter (fun b => key b = k) := by
  unfold stableSort
  induction xs with
  | nil => rfl
  | cons a xs ih =>
    rw [List.insertionSort_cons, orderedInsert_filter_key, List.filter_cons, List.filter_cons, ih]

lemma mem_of_filter_key (key : α → κ) {xs ys : List α}
    (h : ∀ k, xs.filter (fun b => key b = k) = ys.filter (fun b => key b = k)) (a : α) :
    a ∈ xs ↔ a ∈ ys := by
  have ha : a ∈ xs.filter (fun b => key b = key a) ↔ a ∈ ys.filter (fun b => key b = key a) := by
    rw [h]
  simpa using ha

/-- A sorted list is determined by its sublists of equal keys. -/
theorem sortedBy_ext (key : α → κ) {xs ys : List α} (hx : SortedBy key xs) (hy : SortedBy key ys)
    (h : ∀ k, xs.filter (fun b => key b = k) = ys.filter (fun b => key b = k)) : xs = ys := by
  induction xs generalizing ys with
  | nil =>
    cases ys with
    | nil => rfl
    | cons b ys => exact absurd ((mem_of_filter_key key h b).mpr List.mem_cons_self) List.not_mem_nil
  | cons a xs ih =>
    have hmem := mem_of_filter_key key h
    cases ys with
    | nil => exact absurd ((hmem a).mp List.mem_cons_self) List.not_mem_nil
    | cons b ys =>
      obtain ⟨hax, hxs⟩ := List.pairwise_cons.mp hx
      obtain ⟨hby, hys⟩ := List.pairwise_cons.mp hy
      have hkey : key a = key b := by
        apply le_antisymm
        · rcases List.mem_cons.mp ((hmem b).mpr List.mem_cons_self) with hb | hb
          · rw [hb]
          · exact hax b hb
        · rcases List.mem_cons.mp ((hmem a).mp List.mem_cons_self) with ha | ha
          · rw [ha]
          · exact hby a ha
      have hhead := h (key a)
      rw [List.filter_cons_of_pos (by simp), List.filter_cons_of_pos (by simp [hkey])] at hhead
      obtain ⟨rfl, -⟩ := List.cons.inj hhead
      have htail : ∀ k, xs.filter (fun c => key c = k) = ys.filter (fun c => key c = k) := by
        intro k
        have hk := h k
        by_cases hak : key a = k
        · rw [List.filter_cons_of_pos (by simp [hak]), List.filter_cons_of_pos (by simp [hak])] at hk
          exact (List.cons.inj hk).2
        · rwa [List.filter_cons_of_neg (by simp [hak]), List.filter_cons_of_neg (by simp [hak])] at hk
      rw [ih hxs hys htail]

lemma stableSort_filter (key : α → κ) (p : α → Bool) (xs : List α) :
    (stableSort key xs).filter p = stableSort key (xs.filter p) := by
  apply sortedBy_ext key ((stableSort_sorted key xs).filter p) (stableSort_sorted key _)
  intro k
  rw [stableSort_filter_key, List.filter_filter, List.filter_filter]
  simp only [Bool.and_comm (decide _)]
  rw [← List.filter_filter, stableSort_filter_key, List.filter_filter]

lemma stableSort_append_left (key : α → κ) (xs ys : List α) :
    stableSort key (stableSort key xs ++ ys) = stableSort key (xs ++ ys) := by
  apply sortedBy_ext key (stableSort_sorted key _) (stableSort_sorted key _)
  intro k
  simp only [stableSort_filter_key, List.filter_append]

section comparison

variable {β : Type}

structure StrictWeakOn (less : β → β → Bool) (xs : List β) : Prop where
  irrefl : ∀ a ∈ xs, less a a = false
  trans : ∀ a ∈ xs, ∀ b ∈ xs, ∀ c ∈ xs, less a b → less b c → less a c
  negTrans : ∀ a ∈ xs, ∀ b ∈ xs, ∀ c ∈ xs, less a b = false → less b c = false → less a c = false

/-- A sort by comparison: it permutes its list and, for a strict weak order, leaves no element
before a smaller one. Equal elements may end up in any order. -/
structure SortsSlices (sort : (β → β → Bool) → List β → List β) : Prop where
  perm : ∀ less xs, (sort less xs).Perm xs
  sorted : ∀ less xs, StrictWeakOn less xs → (sort less xs).Pairwise fun a b => less b a = false

lemma SortsSlices.pairwise_less {sort : (β → β → Bool) → List β → List β} (hsort : SortsSlices sort)
    {less : β → β → Bool} {xs : List β} (hless : StrictWeakOn less xs)
    (hsep : xs.Pairwise fun a b => less a b ∨ less b a) : (sort less xs).Pairwise fun a b => less a b := by
  have hsep' := (hsort.perm less xs).symm.pairwise hsep Or.symm
  refine (hsep'.and (hsort.sorted less xs hless)).imp ?_
  rintro a b ⟨h | h, hnot⟩
  · exact h
  · rw [hnot] at h
    cases h

lemma StrictWeakOn.perm {less : β → β → Bool} {xs ys : List β} (h : StrictWeakOn less xs) (hp : ys.Perm xs) :
    StrictWeakOn less ys where
  irrefl a ha := h.irrefl a (hp.mem_iff.mp ha)
  trans a ha b hb c hc := h.trans a (hp.mem_iff.mp ha) b (hp.mem_iff.mp hb) c (hp.mem_iff.mp hc)
  negTrans a ha b hb c hc := h.negTrans a (hp.mem_iff.mp ha) b (hp.mem_iff.mp hb) c (hp.mem_iff.mp hc)

lemma perm_eq_of_pairwise_less {less : β → β → Bool} {xs ys : List β} (h : StrictWeakOn less xs)
    (hx : xs.Pairwise fun a b => less a b) (hy : ys.Pairwise fun a b => less a b) (hp : xs.Perm ys) : xs = ys := by
  refine hp.eq_of_pairwise ?_ hx hy
  intro a b ha hb hab hba
  have hb' := hp.mem_iff.mpr hb
  have haa := h.trans a ha b hb' a ha hab hba
  rw [h.irrefl a ha] at haa
  cases haa

lemma insertionSort_sortsSlices :
    SortsSlices fun (less : β → β → Bool) xs => xs.insertionSort fun a b => less b a = false where
  perm _ xs := List.perm_insertionSort _ xs
  sorted less xs h := by
    -- on the elements of the list the comparison is total and transitive
    let r : {a // a ∈ xs} → {a // a ∈ xs} → Prop := fun a b => less b a = false
    have htotal : Std.Total r := by
      refine ⟨fun a b => ?_⟩
      by_contra hcon
      simp only [r, not_or, Bool.not_eq_false] at hcon
      have haa := h.trans b b.2 a a.2 b b.2 hcon.1 hcon.2
      rw [h.irrefl b b.2] at haa
      cases haa
    have htrans : IsTrans {a // a ∈ xs} r :=
      ⟨fun a b c hab hbc => h.negTrans c c.2 b b.2 a a.2 hbc hab⟩
    have hmap := List.map_insertionSort (r := r) (s := fun a b => less b a = false) Subtype.val xs.attach
      fun _ _ _ _ => Iff.rfl
    rw [List.attach_map_subtype_val] at hmap
    rw [← hmap, List.pairwise_map]
    exact List.pairwise_insertionSort r xs.attach

end comparison

section search

/-- The loop of a half-interval search over `[i, j)`, with one unit of fuel an iteration. -/
def searchLoop (f : Nat → Bool) : Nat → Nat → Nat → Nat
  | 0, i, _ => i
  | fuel + 1, i, j =>
    if i < j then
      if f ((i + j) / 2) then searchLoop f fuel i ((i + j) / 2)
      else searchLoop f fuel ((i + j) / 2 + 1) j
    else i

def search (n : Nat) (f : Nat → Bool) : Nat :=
  searchLoop f n 0 n

lemma searchLoop_spec (f : Nat → Bool) (n : Nat)
    (hf : ∀ a b, a ≤ b → b < n → f a = true → f b = true) (fuel i j : Nat)
    (hij : i ≤ j) (hj : j ≤ n) (hfuel : j ≤ i + fuel)
    (hlow : ∀ k, k < i → f k = false) (hhigh : ∀ k, j ≤ k → k < n → f k = true) :
    searchLoop f fuel i j ≤ n ∧ (∀ k, k < searchLoop f fuel i j → f k = false) ∧
      ∀ k, searchLoop f fuel i j ≤ k → k < n → f k = true := by
  induction fuel generalizing i j with
  | zero =>
    have he : i = j := by omega
    subst he
    exact ⟨hj, hlow, hhigh⟩
  | succ fuel ih =>
    rw [searchLoop]
    by_cases hlt : i < j
    · rw [if_pos hlt]
      by_cases hm : f ((i + j) / 2) = true
      · rw [if_pos hm]
        apply ih i ((i + j) / 2) (by omega) (by omega) (by omega) hlow
        intro k hk hkn
        exact hf ((i + j) / 2) k hk hkn hm
      · rw [if_neg hm]
        apply ih ((i + j) / 2 + 1) j (by omega) hj (by omega) _ hhigh
        intro k hk
        by_contra hfk
        rw [Bool.not_eq_false] at hfk
        exact hm (hf k ((i + j) / 2) (by omega) (by omega) hfk)
    · rw [if_neg hlt]
      have he : i = j := by omega
      subst he
      exact ⟨hj, hlow, hhigh⟩

theorem search_spec (n : Nat) (f : Nat → Bool)
    (hf : ∀ a b, a ≤ b → b < n → f a = true → f b = true) :
    search n f ≤ n ∧ (∀ k, k < search n f → f k = false) ∧
      ∀ k, search n f ≤ k → k < n → f k = true :=
  searchLoop_spec f n hf n 0 n (by omega) le_rfl (by omega) (by omega) (by omega)

def searchList (p : α → Bool) (xs : List α) : Nat :=
  search xs.length (fun i => (xs[i]?).any p)

/-- On a list along which `p` is upward closed, the search index separates the elements
outside `p` from those inside. -/
theorem searchList_split (p : α → Bool) (xs : List α)
    (hp : xs.Pairwise (fun a b => p a = true → p b = true)) :
    searchList p xs = (xs.filter (fun a => !p a)).length ∧
      xs.take (searchList p xs) = xs.filter (fun a => !p a) ∧
      xs.drop (searchList p xs) = xs.filter p := by
  have hmono : ∀ a b, a ≤ b → b < xs.length → (xs[a]?).any p = true → (xs[b]?).any p = true := by
    intro a b hab hb ha
    rw [List.getElem?_eq_getElem (by omega)] at ha
    rw [List.getElem?_eq_getElem hb]
    rcases hab.lt_or_eq with hlt | rfl
    · exact List.pairwise_iff_getElem.mp hp a b (by omega) hb hlt ha
    · exact ha
  obtain ⟨hle, hlow, hhigh⟩ := search_spec xs.length (fun i => (xs[i]?).any p) hmono
  change searchList p xs ≤ _ at hle
  change ∀ k, k < searchList p xs → _ at hlow
  change ∀ k, searchList p xs ≤ k → _ at hhigh
  have htake : ∀ a ∈ xs.take (searchList p xs), p a = false := by
    intro a ha
    obtain ⟨k, hk, rfl⟩ := List.mem_iff_getElem.mp ha
    have hk' : k < searchList p xs ∧ k < xs.length := by simpa using hk
    have hf := hlow k hk'.1
    rw [List.getElem?_eq_getElem hk'.2] at hf
    simpa using hf
  have hdrop : ∀ a ∈ xs.drop (searchList p xs), p a = true := by
    intro a ha
    obtain ⟨k, hk, rfl⟩ := List.mem_iff_getElem.mp ha
    have hk' : searchList p xs + k < xs.length := by
      rw [List.length_drop] at hk
      omega
    have hf := hhigh (searchList p xs + k) (by omega) hk'
    rw [List.getElem?_eq_getElem hk'] at hf
    simpa using hf
  have hsplit := List.take_append_drop (searchList p xs) xs
  have htaken : xs.take (searchList p xs) = xs.filter (fun a => !p a) := by
    conv_rhs => rw [← hsplit]
    rw [List.filter_append, List.filter_eq_self.mpr (by simpa using htake),
      List.filter_eq_nil_iff.mpr (by simpa using hdrop), List.append_nil]
  refine ⟨?_, htaken, ?_⟩
  · rw [← htaken, List.length_take, Nat.min_eq_left hle]
  · conv_rhs => rw [← hsplit]
    rw [List.filter_append, List.filter_eq_self.mpr hdrop,
      List.filter_eq_nil_iff.mpr (by simpa using htake), List.nil_append]

end search

end FraudDetection.Library
