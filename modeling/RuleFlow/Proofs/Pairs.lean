import Mathlib.Data.List.Infix
import RuleFlow.Flags

/-!
# Pairs of marks in flag text

Flag text has two marks that are a pair of one character, `!!` and `&&`. A pair is taken out where
it first stands (`takePair_append`), if there is one (`takePair_of_not_pair`). The copies of other
characters stay as many as they were (`count_takePair_of_ne`), but what stood around the pair comes
together, so that a pair of another character may be new (`pair_takePair_iff`). This tells the flags
of a text without reading it. In particular `!!` is found just where it is written, and `&&` also
where its halves stand around the first `!!` (`pairs_found_iff`).
-/

namespace RuleFlow.Flags

variable {c d : Char} {cs before : List Char}

/-! ## Pairs in a text -/

theorem two_le_count_of_pair (h : [c, c] <:+: cs) : 2 ≤ cs.count c := by
  have hcount := h.sublist.count_le c
  simpa using hcount

/-- A pair in a text that is cut in two stands on one side of the cut or around it. -/
theorem pair_infix_append_iff {xs ys : List Char} : [c, c] <:+: xs ++ ys ↔
    [c, c] <:+: xs ∨ [c, c] <:+: ys ∨ (∃ front, xs = front ++ [c]) ∧ ∃ back, ys = c :: back := by
  rw [List.infix_append_iff]
  constructor
  · rintro (hxs | hys | ⟨left, right, hpair, hleft, hright⟩)
    · exact .inl hxs
    · exact .inr (.inl hys)
    · match left, right, hpair with
      | [], _, rfl => exact .inr (.inl hright.isInfix)
      | [_], [_], rfl =>
        obtain ⟨front, rfl⟩ := hleft
        obtain ⟨back, rfl⟩ := hright
        exact .inr (.inr ⟨⟨front, rfl⟩, back, rfl⟩)
      | [_, _], [], rfl => exact .inl hleft.isInfix
  · rintro (hxs | hys | ⟨⟨front, rfl⟩, back, rfl⟩)
    · exact .inl hxs
    · exact .inr (.inl hys)
    · exact .inr (.inr ⟨[c], [c], rfl, List.suffix_append front [c], List.prefix_append [c] back⟩)

/-- A text with a pair has a first one: what stands before it makes no pair with its first half. -/
theorem exists_first_pair (h : [c, c] <:+: cs) :
    ∃ before later, cs = before ++ c :: c :: later ∧ ¬ [c, c] <:+: before ++ [c] := by
  induction cs with
  | nil => simp at h
  | cons a cs ih =>
    by_cases hstart : [c, c] <+: a :: cs
    · obtain ⟨later, hlater⟩ := hstart
      refine ⟨[], later, hlater.symm, fun hpair => ?_⟩
      have hcount := two_le_count_of_pair hpair
      simp at hcount
    · obtain ⟨before, later, rfl, hbefore⟩ := ih ((List.infix_cons_iff.1 h).resolve_left hstart)
      refine ⟨a :: before, later, rfl, fun hpair => ?_⟩
      rcases List.infix_cons_iff.1 hpair with hfront | hback
      · exact hstart (hfront.trans ⟨c :: later, by simp⟩)
      · exact hbefore hback

/-! ## Taking out a pair -/

theorem takePair?_pair (c : Char) (later : List Char) :
    takePair? c (c :: c :: later) = some later := by
  simp [takePair?]

theorem takePair?_cons {a : Char} (h : ¬ [c, c] <+: a :: cs) :
    takePair? c (a :: cs) = (takePair? c cs).map (a :: ·) := by
  cases cs with
  | nil => rfl
  | cons b cs =>
    have hab : ¬ (a = c ∧ b = c) := by
      rintro ⟨rfl, rfl⟩
      exact h ⟨cs, rfl⟩
    rw [takePair?, if_neg hab]

theorem takePair?_of_not_pair (h : ¬ [c, c] <:+: cs) : takePair? c cs = none := by
  induction cs with
  | nil => rfl
  | cons a cs ih =>
    rw [List.infix_cons_iff, not_or] at h
    rw [takePair?_cons h.1, ih h.2]
    rfl

theorem takePair?_append (h : ¬ [c, c] <:+: before ++ [c]) (later : List Char) :
    takePair? c (before ++ c :: c :: later) = some (before ++ later) := by
  induction before with
  | nil => exact takePair?_pair c later
  | cons a before ih =>
    rw [List.cons_append, List.infix_cons_iff, not_or] at h
    have hstart : ¬ [c, c] <+: a :: (before ++ c :: c :: later) := fun hpair =>
      h.1 (List.prefix_of_prefix_length_le hpair ⟨c :: later, by simp⟩ (by simp))
    rw [List.cons_append, takePair?_cons hstart, ih h.2]
    rfl

/-- A text without a pair is left as it is. -/
theorem takePair_of_not_pair (h : ¬ [c, c] <:+: cs) : takePair c cs = (false, cs) := by
  rw [takePair, takePair?_of_not_pair h]

/-- The first pair of a text is taken out. -/
theorem takePair_append (h : ¬ [c, c] <:+: before ++ [c]) (later : List Char) :
    takePair c (before ++ c :: c :: later) = (true, before ++ later) := by
  rw [takePair, takePair?_append h]

theorem takePair_cases (c : Char) (cs : List Char) :
    (¬ [c, c] <:+: cs ∧ takePair c cs = (false, cs)) ∨
    ∃ before later, cs = before ++ c :: c :: later ∧ ¬ [c, c] <:+: before ++ [c] ∧
      takePair c cs = (true, before ++ later) := by
  by_cases hpair : [c, c] <:+: cs
  · obtain ⟨before, later, rfl, hbefore⟩ := exists_first_pair hpair
    exact .inr ⟨before, later, rfl, hbefore, takePair_append hbefore later⟩
  · exact .inl ⟨hpair, takePair_of_not_pair hpair⟩

theorem fst_takePair : (takePair c cs).1 = true ↔ [c, c] <:+: cs := by
  rcases takePair_cases c cs with ⟨hpair, htake⟩ | ⟨before, later, rfl, -, htake⟩
  · simp [htake, hpair]
  · simp only [htake, true_iff]
    exact ⟨before, later, by simp⟩

theorem count_takePair_of_ne (h : d ≠ c) : (takePair c cs).2.count d = cs.count d := by
  rcases takePair_cases c cs with ⟨-, htake⟩ | ⟨before, later, rfl, -, htake⟩
  · rw [htake]
  · simp [htake, Ne.symm h]

theorem count_takePair_self (c : Char) (cs : List Char) :
    (takePair c cs).2.count c + (if (takePair c cs).1 then 2 else 0) = cs.count c := by
  rcases takePair_cases c cs with ⟨-, htake⟩ | ⟨before, later, rfl, -, htake⟩
  · simp [htake]
  · simp only [htake, List.count_append, List.count_cons_self, if_true]
    omega

/-- The pairs of another character after a pair is taken out: one that was there already, or one
whose halves stood around the pair. -/
theorem pair_takePair_iff (h : d ≠ c) : [d, d] <:+: (takePair c cs).2 ↔
    [d, d] <:+: cs ∨
      ∃ before later, cs = before ++ d :: c :: c :: d :: later ∧ ¬ [c, c] <:+: before := by
  constructor
  · intro hpair
    rcases takePair_cases c cs with ⟨-, htake⟩ | ⟨before, later, rfl, hbefore, htake⟩
    · rw [htake] at hpair
      exact .inl hpair
    · rw [htake, pair_infix_append_iff] at hpair
      rcases hpair with hfront | hback | ⟨⟨front, rfl⟩, back, rfl⟩
      · exact .inl (hfront.trans (List.prefix_append _ _).isInfix)
      · exact .inl (hback.trans ⟨before ++ [c, c], [], by simp⟩)
      · refine .inr ⟨front, back, by simp, fun hearlier => hbefore (hearlier.trans ?_)⟩
        exact ⟨[], [d, c], by simp⟩
  · rintro (hpair | ⟨before, later, rfl, hbefore⟩)
    · rcases takePair_cases c cs with ⟨-, htake⟩ | ⟨before, later, rfl, -, htake⟩
      · rwa [htake]
      · rw [htake]
        rw [pair_infix_append_iff] at hpair ⊢
        rcases hpair with hfront | hback | ⟨-, back, hback⟩
        · exact .inl hfront
        · refine .inr (.inl ?_)
          simpa [List.infix_cons_iff, h] using hback
        · exact absurd (List.cons.inj hback).1.symm h
    · have hfirst : ¬ [c, c] <:+: before ++ [d] ++ [c] := by
        simp [pair_infix_append_iff, hbefore, h, h.symm, List.infix_cons_iff]
      have htake := takePair_append hfirst (d :: later)
      rw [List.append_assoc, List.singleton_append] at htake
      rw [htake]
      exact ⟨before, later, by simp⟩

/-! ## The flags of a text -/

/-- What is left of a text when its pairs are taken out. -/
def unpaired (cs : List Char) : List Char := (takePair '&' (takePair '!' cs).2).2

theorem ofChars_eq (cs : List Char) : ofChars cs =
    { negate := (unpaired cs).contains '~'
      optional := (unpaired cs).contains '?'
      breakField := (unpaired cs).contains '!'
      breakAll := (takePair '!' cs).1
      continuity := (unpaired cs).contains '&'
      fullContinuity := (takePair '&' (takePair '!' cs).2).1 } := rfl

theorem mem_unpaired (hbang : c ≠ '!') (hand : c ≠ '&') : c ∈ unpaired cs ↔ c ∈ cs := by
  rw [← List.count_pos_iff, unpaired, count_takePair_of_ne hand, count_takePair_of_ne hbang,
    List.count_pos_iff]

theorem negate_ofChars : (ofChars cs).negate = true ↔ '~' ∈ cs := by
  rw [ofChars_eq, List.contains_iff_mem, mem_unpaired (by decide) (by decide)]

theorem optional_ofChars : (ofChars cs).optional = true ↔ '?' ∈ cs := by
  rw [ofChars_eq, List.contains_iff_mem, mem_unpaired (by decide) (by decide)]

theorem breakAll_ofChars : (ofChars cs).breakAll = true ↔ ['!', '!'] <:+: cs := fst_takePair

theorem fullContinuity_ofChars : (ofChars cs).fullContinuity = true ↔ ['&', '&'] <:+: cs ∨
    ∃ before later, cs = before ++ '&' :: '!' :: '!' :: '&' :: later ∧ ¬ ['!', '!'] <:+: before := by
  rw [ofChars_eq, fst_takePair, pair_takePair_iff (by decide)]

/-- A `!` is left beside the pair of them, if there is such a pair. -/
theorem breakField_ofChars : (ofChars cs).breakField = true ↔
    (if (ofChars cs).breakAll then 2 else 0) < cs.count '!' := by
  have hpair := count_takePair_self '!' cs
  have hleft : (unpaired cs).count '!' = (takePair '!' cs).2.count '!' :=
    count_takePair_of_ne (by decide)
  rw [ofChars_eq, List.contains_iff_mem, ← List.count_pos_iff]
  dsimp only
  omega

/-- A `&` is left beside the pair of them, if one was found. -/
theorem continuity_ofChars : (ofChars cs).continuity = true ↔
    (if (ofChars cs).fullContinuity then 2 else 0) < cs.count '&' := by
  have hpair := count_takePair_self '&' (takePair '!' cs).2
  have hbefore : (takePair '!' cs).2.count '&' = cs.count '&' := count_takePair_of_ne (by decide)
  rw [ofChars_eq, List.contains_iff_mem, ← List.count_pos_iff, unpaired]
  dsimp only
  omega

/-- **Which pairs are found.** Flag text sets `breakAll` just if two `!` stand next to each other in
it. It sets `fullContinuity` just if two `&` do, or if two stand around the first `!!`. -/
theorem pairs_found_iff (text : String) :
    ((ofText text).breakAll = true ↔ ['!', '!'] <:+: text.toList) ∧
    ((ofText text).fullContinuity = true ↔ ['&', '&'] <:+: text.toList ∨
      ∃ before later, text.toList = before ++ '&' :: '!' :: '!' :: '&' :: later ∧
        ¬ ['!', '!'] <:+: before) :=
  ⟨breakAll_ofChars, fullContinuity_ofChars⟩

/-- Two `&` that stand apart are found as a pair. -/
theorem separated_halves_merge :
    ¬ ['&', '&'] <:+: "&!!&".toList ∧ (ofText "&!!&").fullContinuity = true := by
  decide

end RuleFlow.Flags
