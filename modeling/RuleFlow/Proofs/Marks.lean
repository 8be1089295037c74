import RuleFlow.Proofs.Pairs

/-!
# Marks in any order

A flag has a mark, and flag text may have marks in any order among characters that no mark has
(`Flags.Written`). Such a text has the characters of its marks and no other copies of them
(`Written.counts`). If no mark is repeated, two neighbouring copies of a character are thus a pair
that is one mark, and just the flags of the marks are set (`has_ofText_iff`).
-/

namespace RuleFlow.Flags

/-- What can be written into flag text. -/
inductive Mark where
  | negate
  | optional
  | breakField
  | breakAll
  | continuity
  | fullContinuity
  deriving DecidableEq

def Mark.chars : Mark → List Char
  | negate => ['~']
  | optional => ['?']
  | breakField => ['!']
  | breakAll => ['!', '!']
  | continuity => ['&']
  | fullContinuity => ['&', '&']

/-- Whether the flag of a mark is set. -/
def has (f : Flags) : Mark → Bool
  | .negate => f.negate
  | .optional => f.optional
  | .breakField => f.breakField
  | .breakAll => f.breakAll
  | .continuity => f.continuity
  | .fullContinuity => f.fullContinuity

/-- `Written marks cs`: the text has these marks in their order, and before, between and behind them
any characters that no mark has. -/
inductive Written : List Mark → List Char → Prop where
  | nil : Written [] []
  | junk {c : Char} {marks : List Mark} {cs : List Char} : c ∉ ['~', '?', '!', '&'] →
    Written marks cs → Written marks (c :: cs)
  | mark (m : Mark) {marks : List Mark} {cs : List Char} : Written marks cs →
    Written (m :: marks) (m.chars ++ cs)

namespace Written

variable {m : Mark} {marks : List Mark} {cs : List Char}

/-- The copies of a character in a text are those in its marks. -/
theorem counts (h : Written marks cs) :
    cs.count '~' = marks.count .negate ∧ cs.count '?' = marks.count .optional ∧
    cs.count '!' = marks.count .breakField + 2 * marks.count .breakAll ∧
    cs.count '&' = marks.count .continuity + 2 * marks.count .fullContinuity := by
  induction h with
  | nil => simp
  | junk hc _ ih =>
    simp only [List.mem_cons, List.not_mem_nil, or_false, not_or] at hc
    simpa [List.count_cons, hc] using ih
  | mark m _ ih =>
    obtain ⟨hnegate, hoptional, hbang, hand⟩ := ih
    cases m <;> simp [Mark.chars, hnegate, hoptional, hbang, hand] <;> omega

/-- Each mark stands in the text as it is. -/
theorem infix_chars (h : Written marks cs) (hm : m ∈ marks) : m.chars <:+: cs := by
  induction h with
  | nil => cases hm
  | junk _ _ ih => exact (ih hm).trans (List.suffix_cons _ _).isInfix
  | mark m' _ ih =>
    rcases List.mem_cons.1 hm with rfl | hm
    · exact (List.prefix_append _ _).isInfix
    · exact (ih hm).trans (List.suffix_append _ _).isInfix

end Written

/-! ## Flags of marks that are not repeated -/

section
variable {marks : List Mark} {cs : List Char} {single double : Mark}

/-- Of marks that are not repeated, only a pair has two copies of a character. -/
theorem mem_of_two_le (hnodup : marks.Nodup)
    (h : 2 ≤ marks.count single + 2 * marks.count double) : double ∈ marks := by
  have hone := List.nodup_iff_count.1 hnodup single
  exact List.count_pos_iff.1 (by omega)

/-- A copy of the character is left beside its pair just if its single mark is there. -/
theorem left_beside_pair_iff (hnodup : marks.Nodup) {paired : Bool}
    (h : paired = true ↔ double ∈ marks) :
    (if paired then 2 else 0) < marks.count single + 2 * marks.count double ↔ single ∈ marks := by
  have hdouble : marks.count double = if paired then 1 else 0 := by
    rw [hnodup.count]
    exact if_congr h.symm rfl rfl
  rw [hdouble, ← List.count_pos_iff]
  cases paired <;> simp

theorem breakAll_of_written (h : Written marks cs) (hnodup : marks.Nodup) :
    (ofChars cs).breakAll = true ↔ .breakAll ∈ marks := by
  refine breakAll_ofChars.trans ⟨fun hpair => ?_, h.infix_chars⟩
  have htwo := two_le_count_of_pair hpair
  rw [h.counts.2.2.1] at htwo
  exact mem_of_two_le hnodup htwo

/-- A `!!` cannot bring two `&` together here, as they would be two of one mark, or a pair. -/
theorem fullContinuity_of_written (h : Written marks cs) (hnodup : marks.Nodup) :
    (ofChars cs).fullContinuity = true ↔ .fullContinuity ∈ marks := by
  refine fullContinuity_ofChars.trans ⟨fun hpair => ?_, fun hm => .inl (h.infix_chars hm)⟩
  have htwo : 2 ≤ cs.count '&' := by
    rcases hpair with hpair | ⟨before, later, rfl, -⟩
    · exact two_le_count_of_pair hpair
    · simp (disch := decide) only [List.count_append, List.count_cons_self, List.count_cons_of_ne]
      omega
  rw [h.counts.2.2.2] at htwo
  exact mem_of_two_le hnodup htwo

end

/-- **The order of marks and other characters do not matter.** Where no mark is repeated, flag text
sets just the flags of its marks. -/
theorem has_ofText_iff {marks : List Mark} {text : String} (h : Written marks text.toList)
    (hnodup : marks.Nodup) (m : Mark) : (ofText text).has m = true ↔ m ∈ marks := by
  obtain ⟨hnegate, hoptional, hbang, hand⟩ := h.counts
  have hall := breakAll_of_written h hnodup
  have hfull := fullContinuity_of_written h hnodup
  cases m with
  | negate =>
    calc (ofText text).negate = true
      _ ↔ '~' ∈ text.toList := negate_ofChars
      _ ↔ .negate ∈ marks := by rw [← List.count_pos_iff, hnegate, List.count_pos_iff]
  | optional =>
    calc (ofText text).optional = true
      _ ↔ '?' ∈ text.toList := optional_ofChars
      _ ↔ .optional ∈ marks := by rw [← List.count_pos_iff, hoptional, List.count_pos_iff]
  | breakField =>
    refine breakField_ofChars.trans ?_
    rw [hbang]
    exact left_beside_pair_iff hnodup hall
  | breakAll => exact hall
  | continuity =>
    refine continuity_ofChars.trans ?_
    rw [hand]
    exact left_beside_pair_iff hnodup hfull
  | fullContinuity => exact hfull

/-- Both pairs between single copies, with characters that are no mark. -/
theorem has_ofText_overlapping :
    let marks : List Mark := [.continuity, .breakAll, .fullContinuity, .negate, .breakField]
    marks.Nodup ∧ Written marks "é&!!&&:~!".toList ∧
      (∀ m, (ofText "é&!!&&:~!").has m = true ↔ m ∈ marks) ∧
      ofText "é&!!&&:~!" = ⟨true, false, true, true, true, true⟩ := by
  intro marks
  have hnodup : marks.Nodup := by decide
  have hwritten : Written marks "é&!!&&:~!".toList :=
    .junk (by decide) (.mark .continuity (.mark .breakAll (.mark .fullContinuity
      (.junk (by decide) (.mark .negate (.mark .breakField .nil))))))
  exact ⟨hnodup, hwritten, has_ofText_iff hwritten hnodup, by decide⟩

end RuleFlow.Flags
