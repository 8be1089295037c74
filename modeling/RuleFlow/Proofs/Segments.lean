import RuleFlow.Path
import RuleFlow.Proofs.Cutting

/-!
# Paths and their segments

A text is the same as the list of its segments: joining these by dots gives the text again
(`intercalate_segmentsOf`), and cutting joined segments gives these again (`segmentsOf_intercalate`).
A path that goes on behind a dot has the segments of both parts (`segmentsOf_append_dot`).
-/

namespace RuleFlow.Path

variable {p q : String} {segments : List String}

/-- The segments of a text. -/
def segmentsOf (text : String) : List String := (ofText text).segments

theorem segmentsOf_eq (text : String) :
    segmentsOf text = (text.toList.splitOn '.').map String.ofList := segments_ofText text

theorem dot_notMem_of_mem_segmentsOf {segment : String} (h : segment ∈ segmentsOf p) :
    '.' ∉ segment.toList := by
  rw [segmentsOf_eq] at h
  obtain ⟨cs, hcs, rfl⟩ := List.mem_map.1 h
  rw [String.toList_ofList]
  exact Text.notMem_of_mem_splitOn hcs

theorem map_toList_segmentsOf (text : String) :
    (segmentsOf text).map String.toList = text.toList.splitOn '.' := by
  rw [segmentsOf_eq, List.map_map]
  exact List.map_id'' (fun _ => String.toList_ofList) _

theorem intercalate_segmentsOf (text : String) : ".".intercalate (segmentsOf text) = text := by
  apply String.toList_injective
  rw [String.toList_intercalate, map_toList_segmentsOf]
  exact List.intercalate_splitOn '.'

theorem segmentsOf_intercalate (hne : segments ≠ [])
    (hdots : ∀ segment ∈ segments, '.' ∉ segment.toList) :
    segmentsOf (".".intercalate segments) = segments := by
  have hcut : ∀ cs ∈ segments.map String.toList, '.' ∉ cs := by
    simpa using hdots
  have hsplit : (".".intercalate segments).toList.splitOn '.' = segments.map String.toList := by
    rw [String.toList_intercalate]
    exact List.splitOn_intercalate '.' hcut (by simpa using hne)
  rw [segmentsOf_eq, hsplit, List.map_map]
  exact List.map_id'' (fun _ => String.ofList_toList) _

theorem segmentsOf_inj : segmentsOf p = segmentsOf q ↔ p = q := by
  refine ⟨fun h => ?_, fun h => h ▸ rfl⟩
  rw [← intercalate_segmentsOf p, h, intercalate_segmentsOf]

theorem segmentsOf_append_dot (p rest : String) :
    segmentsOf (p ++ "." ++ rest) = segmentsOf p ++ segmentsOf rest := by
  have hcut : (p ++ "." ++ rest).toList.splitOn '.' =
      p.toList.splitOn '.' ++ rest.toList.splitOn '.' := by
    rw [String.toList_append, String.toList_append, List.append_assoc]
    exact List.splitOn_append_cons_self _ _
  rw [segmentsOf_eq, hcut, List.map_append, ← segmentsOf_eq, ← segmentsOf_eq]

theorem eq_append_dot_of_segmentsOf_eq {rest : List String} (hrest : rest ≠ [])
    (h : segmentsOf q = segmentsOf p ++ rest) :
    q = p ++ "." ++ ".".intercalate rest ∧ segmentsOf (".".intercalate rest) = rest := by
  have hdots : ∀ segment ∈ rest, '.' ∉ segment.toList := fun segment hmem =>
    dot_notMem_of_mem_segmentsOf (h ▸ List.mem_append_right _ hmem)
  have hcut := segmentsOf_intercalate hrest hdots
  refine ⟨segmentsOf_inj.1 ?_, hcut⟩
  rw [segmentsOf_append_dot, hcut, h]

end RuleFlow.Path
