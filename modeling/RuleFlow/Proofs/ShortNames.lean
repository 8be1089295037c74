import Mathlib.Data.String.Basic
import RuleFlow.Proofs.Nearest

/-!
# Suggestions for short names

What is suggested for a name is one or two edits away from it (`distance_of_mem_suggestions`). Just
for the names of at most three bytes it is never two (`suggestions_one_edit_iff`), as a longer name
is two edits away from the one with two more characters (`mem_suggestions_append`). A name of two
characters can have four bytes, so that short names can have such suggestions as well
(`suggestions_two_edits`).
-/

namespace RuleFlow

variable {missing candidate found : String} {available : List String}

/-! ## The bound -/

theorem suggestionBound_le_two (missing : String) : suggestionBound missing ≤ 2 := by
  rw [suggestionBound]
  split <;> omega

theorem suggestionBound_of_le (h : missing.utf8ByteSize ≤ 3) : suggestionBound missing = 1 :=
  if_pos h

theorem suggestionBound_of_lt (h : 3 < missing.utf8ByteSize) : suggestionBound missing = 2 :=
  if_neg (Nat.not_le.2 h)

theorem utf8Len_eq_length {cs : List Char} (h : ∀ c ∈ cs, c.utf8Size = 1) :
    String.utf8Len cs = cs.length := by
  induction cs with
  | nil => rfl
  | cons c cs ih =>
    obtain ⟨hc, hcs⟩ := List.forall_mem_cons.1 h
    rw [String.utf8Len_cons, ih hcs, hc, List.length_cons]

/-- Where each character is one byte, there are as many bytes as characters. -/
theorem utf8ByteSize_eq_length {text : String} (h : ∀ c ∈ text.toList, c.utf8Size = 1) :
    text.utf8ByteSize = text.length := by
  have hlen := utf8Len_eq_length h
  rwa [← String.utf8ByteSize_ofList, String.ofList_toList, String.length_toList] at hlen

/-! ## What is suggested -/

theorem distance_of_mem_suggestions (h : found ∈ suggestions missing available) :
    0 < Text.distance missing.toList found.toList ∧
      Text.distance missing.toList found.toList ≤ suggestionBound missing := by
  rw [Suggestion.suggestions_eq] at h
  obtain ⟨i, hi, rfl⟩ := List.mem_map.1 h
  exact Suggestion.mem_ranked.1 (List.mem_of_mem_take hi)

/-- A candidate that is near enough is suggested if there is no other. -/
theorem mem_suggestions_singleton (hpos : 0 < Text.distance missing.toList candidate.toList)
    (hle : Text.distance missing.toList candidate.toList ≤ suggestionBound missing) :
    candidate ∈ suggestions missing [candidate] := by
  simp [suggestions, nearCandidate?, hpos, hle]

/-- A name of more than three bytes has a suggestion that is two edits away. -/
theorem mem_suggestions_append (h : 3 < missing.utf8ByteSize) :
    missing ++ "aa" ∈ suggestions missing [missing ++ "aa"] ∧
      Text.distance missing.toList (missing ++ "aa").toList = 2 := by
  have hdistance : Text.distance missing.toList (missing ++ "aa").toList = 2 := by
    rw [String.toList_append, Text.distance_append]
    rfl
  refine ⟨mem_suggestions_singleton ?_ ?_, hdistance⟩
  · omega
  · rw [hdistance, suggestionBound_of_lt h]

/-- **Which names have suggestions one edit away only.** The distance of texts is the least number
of edits between them. What is suggested is one or two edits away. For a name of at most three
bytes, whatever is available, it is one edit away, and a longer name can have suggestions two edits
away. So a name of at most three characters has suggestions one edit away only, if each character is
one byte. -/
theorem suggestions_one_edit_iff (missing : String) :
    (∀ xs ys, IsLeast {n | Text.Edits n xs ys} (Text.distance xs ys)) ∧
    (∀ available, ∀ found ∈ suggestions missing available,
      Text.distance missing.toList found.toList = 1 ∨
        Text.distance missing.toList found.toList = 2) ∧
    ((∀ available, ∀ found ∈ suggestions missing available,
      Text.distance missing.toList found.toList = 1) ↔ missing.utf8ByteSize ≤ 3) ∧
    (missing.length ≤ 3 → (∀ c ∈ missing.toList, c.utf8Size = 1) →
      ∀ available, ∀ found ∈ suggestions missing available,
        Text.distance missing.toList found.toList = 1) := by
  have hshort : missing.utf8ByteSize ≤ 3 → ∀ available, ∀ found ∈ suggestions missing available,
      Text.distance missing.toList found.toList = 1 := by
    intro hbytes available found hfound
    obtain ⟨hpos, hle⟩ := distance_of_mem_suggestions hfound
    rw [suggestionBound_of_le hbytes] at hle
    omega
  refine ⟨Text.distance_isLeast, fun available found hfound => ?_, ⟨fun hone => ?_, hshort⟩,
    fun hlength hchars => hshort ?_⟩
  · obtain ⟨hpos, hle⟩ := distance_of_mem_suggestions hfound
    have htwo := suggestionBound_le_two missing
    omega
  · by_contra hbytes
    obtain ⟨hmem, hdistance⟩ := mem_suggestions_append (Nat.not_le.1 hbytes)
    have hone := hone [missing ++ "aa"] (missing ++ "aa") hmem
    omega
  · rwa [utf8ByteSize_eq_length hchars]

/-- A name of two characters and three bytes, and one of three characters that are one byte each. -/
theorem suggestions_one_edit_accented :
    "né".length = 2 ∧ "né".utf8ByteSize = 3 ∧ "nés" ∈ suggestions "né" ["nés"] ∧
      (∀ found ∈ suggestions "né" ["on", "né", "nés"],
        Text.distance "né".toList found.toList = 1) ∧
      ∀ found ∈ suggestions "abd" ["ba", "ab"], Text.distance "abd".toList found.toList = 1 := by
  have hbytes : "né".utf8ByteSize ≤ 3 := by decide
  have hchars : ∀ c ∈ ['a', 'b', 'd'], c.utf8Size = 1 :=
    List.forall_mem_cons.2 ⟨rfl, List.forall_mem_cons.2 ⟨rfl, List.forall_mem_singleton.2 rfl⟩⟩
  refine ⟨by decide, by decide, mem_suggestions_singleton (by decide) (by decide), ?_, ?_⟩
  · exact (suggestions_one_edit_iff "né").2.2.1.2 hbytes ["on", "né", "nés"]
  · exact (suggestions_one_edit_iff "abd").2.2.2 (by decide) hchars ["ba", "ab"]

/-- A name of two characters and four bytes has a suggestion that is two edits away. -/
theorem suggestions_two_edits :
    "éé".length = 2 ∧ "ab" ∈ suggestions "éé" ["ab"] ∧
      Text.distance "éé".toList "ab".toList = 2 :=
  ⟨by decide, mem_suggestions_singleton (by decide) (by decide), by decide⟩

end RuleFlow
