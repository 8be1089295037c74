import Mathlib.Data.List.FinRange
import RuleFlow.Proofs.EditDistance
import RuleFlow.Registry.Suggestion

/-!
# The nearest candidates

Suggestions are made by a stable sort, which leaves candidates at the same distance as they were
(`pairwise_mergeSort_key`). So what is offered are the first ones in the order of distances and,
among equal distances, of positions (`suggestions_nearest`).
-/

namespace RuleFlow

universe u

/-! ## Sorting by a key -/

section
variable {α : Type u} (f : α → Nat) {xs : List α}

theorem pairwise_mergeSort_le (xs : List α) :
    (xs.mergeSort fun x y => f x ≤ f y).Pairwise fun x y => f x ≤ f y := by
  have h : (xs.mergeSort fun x y => f x ≤ f y).Pairwise fun x y => decide (f x ≤ f y) = true :=
    List.pairwise_mergeSort (fun x y z => by simpa using Nat.le_trans)
      (fun x y => by simpa using Nat.le_total _ _) xs
  exact h.imp of_decide_eq_true

/-- Sorting by a key leaves the elements that have one key as they were. -/
theorem filter_mergeSort_key (xs : List α) (k : Nat) :
    (xs.mergeSort fun x y => f x ≤ f y).filter (f · = k) = xs.filter (f · = k) := by
  have hsorted : (xs.filter (f · = k)).Pairwise fun x y => decide (f x ≤ f y) = true := by
    refine List.pairwise_of_forall_mem_list fun x hx y hy => ?_
    have hx' : f x = k := of_decide_eq_true (List.mem_filter.1 hx).2
    have hy' : f y = k := of_decide_eq_true (List.mem_filter.1 hy).2
    rw [hx', hy']
    exact decide_eq_true (Nat.le_refl k)
  have hsub := List.sublist_mergeSort (fun x y z => by simpa using Nat.le_trans)
    (fun x y => by simpa using Nat.le_total _ _) hsorted List.filter_sublist
  have hsub' := hsub.filter (f · = k)
  simp only [List.filter_filter, Bool.and_self] at hsub'
  have hlength := ((List.mergeSort_perm xs fun x y => f x ≤ f y).filter (f · = k)).length_eq
  exact (hsub'.eq_of_length hlength.symm).symm

theorem pairwise_mergeSort_key {R : α → α → Prop} (h : xs.Pairwise R) :
    (xs.mergeSort fun x y => f x ≤ f y).Pairwise fun x y => f x < f y ∨ f x = f y ∧ R x y := by
  rw [List.pairwise_iff_forall_sublist]
  intro x y hxy
  rcases Nat.lt_or_eq_of_le ((pairwise_mergeSort_le f xs).forall_sublist hxy) with hlt | heq
  · exact .inl hlt
  · refine .inr ⟨heq, ?_⟩
    have hpair : [x, y].Sublist (xs.filter (f · = f y)) := by
      rw [← filter_mergeSort_key]
      simpa [heq] using hxy.filter (f · = f y)
    exact h.forall_sublist (hpair.trans List.filter_sublist)

end

/-! ## Candidates by their positions -/

namespace Suggestion

variable (missing : String) (available : List String)

/-- How far the candidate at a position is from the missing name. -/
def distanceAt (i : Fin available.length) : Nat :=
  Text.distance missing.toList (available.get i).toList

/-- Whether the candidate at a position may be offered: it is not the missing name itself and at
most one edit away from it, or two if the name has more than three bytes. -/
def Eligible (i : Fin available.length) : Prop :=
  0 < distanceAt missing available i ∧
    distanceAt missing available i ≤ if missing.utf8ByteSize ≤ 3 then 1 else 2

instance (i : Fin available.length) : Decidable (Eligible missing available i) :=
  inferInstanceAs (Decidable (_ ∧ _))

/-- The order in which positions are offered: by distance, and then as they come. -/
def Before (i j : Fin available.length) : Prop :=
  distanceAt missing available i < distanceAt missing available j ∨
    distanceAt missing available i = distanceAt missing available j ∧ i < j

/-- The positions whose candidates may be offered, as they come. -/
def eligible : List (Fin available.length) :=
  (List.finRange available.length).filter (Eligible missing available ·)

/-- The positions whose candidates may be offered, in the order in which they are. -/
def ranked : List (Fin available.length) :=
  (eligible missing available).mergeSort fun i j =>
    distanceAt missing available i ≤ distanceAt missing available j

variable {missing available}

theorem mem_ranked {i : Fin available.length} :
    i ∈ ranked missing available ↔ Eligible missing available i := by
  simp [ranked, eligible, List.mem_mergeSort]

theorem length_ranked :
    (ranked missing available).length = (eligible missing available).length :=
  List.length_mergeSort _

theorem pairwise_ranked : (ranked missing available).Pairwise (Before missing available) := by
  refine pairwise_mergeSort_key (distanceAt missing available) ?_
  exact (List.pairwise_lt_finRange _).sublist List.filter_sublist

/-- What the search for candidates finds, read off the positions. -/
theorem filterMap_nearCandidate? : available.filterMap (nearCandidate? missing) =
    (eligible missing available).map fun i =>
      (distanceAt missing available i, available.get i) := by
  calc available.filterMap (nearCandidate? missing)
    _ = ((List.finRange _).map available.get).filterMap (nearCandidate? missing) := by
      rw [List.map_get_finRange]
    _ = _ := by
      rw [List.filterMap_map, eligible, ← List.filterMap_eq_filter, List.map_filterMap]
      refine List.filterMap_congr fun i _ => ?_
      by_cases h : Eligible missing available i
      · have hnear : nearCandidate? missing (available.get i) =
            some (distanceAt missing available i, available.get i) := if_pos h
        simpa [Option.guard, h] using hnear
      · have hnear : nearCandidate? missing (available.get i) = none := if_neg h
        simpa [Option.guard, h] using hnear

theorem suggestions_eq :
    suggestions missing available = ((ranked missing available).take 3).map available.get := by
  have hsort : (available.filterMap (nearCandidate? missing)).mergeSort (fun a b => a.1 ≤ b.1) =
      (ranked missing available).map fun i =>
        (distanceAt missing available i, available.get i) := by
    rw [filterMap_nearCandidate?, ranked]
    refine (List.map_mergeSort (f := fun i => (distanceAt missing available i, available.get i))
      fun _ _ _ _ => ?_).symm
    rfl
  rw [suggestions, hsort, ← List.map_take, List.map_map]
  rfl

end Suggestion

open Suggestion in
/-- **The nearest candidates are offered.** The distance of texts is the least number of edits
between them. What is offered for a missing name are the candidates at the positions that come first
in the order of distances and then of positions, in this order: three of those that may be offered,
or all if there are less. No other position that may be offered comes before one of them, and the
name itself is not among them. -/
theorem suggestions_nearest (missing : String) (available : List String) :
    (∀ xs ys, IsLeast {n | Text.Edits n xs ys} (Text.distance xs ys)) ∧
    (∃ positions : List (Fin available.length),
      suggestions missing available = positions.map available.get ∧
      positions.length = min 3 (eligible missing available).length ∧
      (∀ i ∈ positions, Eligible missing available i) ∧
      positions.Pairwise (Before missing available) ∧
      ∀ j, Eligible missing available j → j ∉ positions →
        ∀ i ∈ positions, Before missing available i j) ∧
    missing ∉ suggestions missing available := by
  let ranks := ranked missing available
  have hmem : ∀ i ∈ ranks.take 3, Eligible missing available i := fun i hi =>
    mem_ranked.1 (List.mem_of_mem_take hi)
  refine ⟨Text.distance_isLeast, ⟨ranks.take 3, suggestions_eq, ?_, hmem, ?_, ?_⟩, ?_⟩
  · rw [List.length_take, length_ranked]
  · exact pairwise_ranked.sublist (List.take_sublist 3 ranks)
  · intro j hj hout i hi
    have hcut := List.take_append_drop 3 ranks
    have hlater : j ∈ ranks.drop 3 := by
      have hranked : j ∈ ranks.take 3 ++ ranks.drop 3 := hcut.symm ▸ mem_ranked.2 hj
      exact (List.mem_append.1 hranked).resolve_left hout
    exact (List.pairwise_append.1 (hcut.symm ▸ pairwise_ranked)).2.2 i hi j hlater
  · rw [suggestions_eq]
    intro h
    obtain ⟨i, hi, hname⟩ := List.mem_map.1 h
    have hpos := (hmem i hi).1
    rw [distanceAt, hname, Text.distance_self] at hpos
    exact Nat.lt_irrefl 0 hpos

end RuleFlow
