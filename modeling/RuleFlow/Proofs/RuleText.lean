import RuleFlow.Proofs.Cutting
import RuleFlow.Rule.Text

/-!
# Which texts are rule texts

`RuleText.WellFormed` says which parts `ofChars` can cut a text into: flags without a character that
could start a path, and a path that starts with such a character and has no colon. Cutting gives
such parts (`wellFormed_of_ofChars`), and gives back any such parts that are written one after the
other (`ofChars_chars`). It fails just if no character could start a path
(`ofChars_eq_missingPath_iff`), so that all is known of what a text is read as (`ofText_accepts`).
Parameters are cut at commas and joined by them (`splitParams_intercalate`,
`intercalate_splitParams`).
-/

namespace RuleFlow.RuleText

/-- Parts that can be told apart when they are written one after the other. -/
structure WellFormed (t : RuleText) : Prop where
  flags : ∀ c ∈ t.flags, isPathStart c = false
  start : ∃ c ∈ t.path.head?, isPathStart c
  colon : ':' ∉ t.path

/-- A path starts with an ASCII letter or an underscore. -/
theorem isPathStart_iff {c : Char} :
    isPathStart c ↔ 'A' ≤ c ∧ c ≤ 'Z' ∨ 'a' ≤ c ∧ c ≤ 'z' ∨ c = '_' := by
  have hupper : c.isUpper ↔ 'A' ≤ c ∧ c ≤ 'Z' := ⟨of_decide_eq_true, fun h => decide_eq_true h⟩
  have hlower : c.isLower ↔ 'a' ≤ c ∧ c ≤ 'z' := by
    have h : c.isLower = (decide ('a' ≤ c) && decide (c ≤ 'z')) := rfl
    rw [h, Bool.and_eq_true, decide_eq_true_iff, decide_eq_true_iff]
  have h : isPathStart c = (c.isUpper || c.isLower || c == '_') := rfl
  rw [h, Bool.or_eq_true, Bool.or_eq_true, hupper, hlower, beq_iff_eq, or_assoc]

/-! ## Cutting and writing -/

/-- What stands behind the path of a rule text, its colon included. -/
def suffix : Option (List Char) → List Char
  | none => []
  | some params => ':' :: params

theorem chars_eq (t : RuleText) : t.chars = t.flags ++ (t.path ++ suffix t.params) := by
  obtain ⟨flags, path, params⟩ := t
  cases params <;> simp [chars, suffix]

theorem takeWhile_suffix (params : Option (List Char)) :
    (suffix params).takeWhile (· != ':') = [] := by
  cases params <;> simp [suffix]

theorem dropWhile_suffix (params : Option (List Char)) :
    (suffix params).dropWhile (· != ':') = suffix params := by
  cases params <;> simp [suffix]

theorem afterColon_suffix (params : Option (List Char)) : afterColon (suffix params) = params := by
  cases params <;> rfl

theorem ofChars_chars {t : RuleText} (h : t.WellFormed) : ofChars t.chars = .ok t := by
  obtain ⟨flags, path, params⟩ := t
  obtain ⟨hflags, ⟨c, hc, hstart⟩, hcolon⟩ := h
  obtain ⟨rest, rfl⟩ : ∃ rest, path = c :: rest := List.head?_eq_some_iff.1 hc
  have hflag : ∀ d ∈ flags, (! isPathStart d) = true := fun d hd => by rw [hflags d hd]; rfl
  have hpath : ∀ d ∈ c :: rest, (d != ':') = true := fun d hd => by
    rw [bne_iff_ne]
    rintro rfl
    exact hcolon hd
  -- The flags end where the path starts, and the path ends where the suffix starts.
  have htake : (flags ++ (c :: rest ++ suffix params)).takeWhile (! isPathStart ·) = flags := by
    rw [List.takeWhile_append_of_pos hflag, List.cons_append,
      List.takeWhile_cons_of_neg (by simp [hstart]), List.append_nil]
  have hdrop : (flags ++ (c :: rest ++ suffix params)).dropWhile (! isPathStart ·) =
      c :: rest ++ suffix params := by
    rw [List.dropWhile_append_of_pos hflag, List.cons_append,
      List.dropWhile_cons_of_neg (by simp [hstart])]
  rw [chars_eq, ofChars, if_neg (by simp)]
  dsimp only
  rw [htake, hdrop, if_neg (by simp), List.takeWhile_append_of_pos hpath, takeWhile_suffix,
    List.append_nil, List.dropWhile_append_of_pos hpath, dropWhile_suffix, afterColon_suffix]

theorem wellFormed_of_ofChars {cs : List Char} {t : RuleText} (h : ofChars cs = .ok t) :
    t.WellFormed := by
  unfold ofChars at h
  split at h
  · cases h
  dsimp only at h
  split at h
  · cases h
  next hrest =>
    cases h
    obtain ⟨c, rest, hcons⟩ := List.exists_cons_of_ne_nil hrest
    have hstart : isPathStart c := by
      have := List.head?_dropWhile_not (! isPathStart ·) cs
      rw [hcons] at this
      simpa using this
    have hne : (c != ':') = true := by
      rw [bne_iff_ne]
      rintro rfl
      exact absurd hstart (by decide)
    refine ⟨fun d hd => ?_, ⟨c, ?_, hstart⟩, fun hmem => ?_⟩
    · simpa using List.mem_takeWhile_imp hd
    · dsimp only
      rw [hcons, List.takeWhile_cons_of_pos (p := (· != ':')) hne]
      rfl
    · exact absurd (List.mem_takeWhile_imp hmem) (by decide)

theorem ofChars_eq_ok_iff {cs : List Char} {t : RuleText} :
    ofChars cs = .ok t ↔ t.WellFormed ∧ t.chars = cs :=
  ⟨fun h => ⟨wellFormed_of_ofChars h, chars_of_ofChars h⟩, fun ⟨h, hcs⟩ => hcs ▸ ofChars_chars h⟩

/-- Parts that can be told apart are told by the text in which they are written. -/
theorem WellFormed.eq_of_chars_eq {t u : RuleText} (ht : t.WellFormed) (hu : u.WellFormed)
    (h : t.chars = u.chars) : t = u := by
  have hread : ofChars u.chars = .ok t := h ▸ ofChars_chars ht
  rw [ofChars_chars hu] at hread
  cases hread
  rfl

/-! ## Texts that are no rule texts -/

theorem ofChars_eq_empty_iff {cs : List Char} : ofChars cs = .error .empty ↔ cs = [] := by
  unfold ofChars
  split
  · next h => simp [h]
  · next h =>
    dsimp only
    split <;> simp [h]

theorem ofChars_eq_missingPath_iff {cs : List Char} {column : Nat} :
    ofChars cs = .error (.missingPath column) ↔ cs ≠ [] ∧ (∀ c ∈ cs, isPathStart c = false) ∧
      column = (String.ofList cs).utf8ByteSize + 1 := by
  have hnone : cs.dropWhile (! isPathStart ·) = [] ↔ ∀ c ∈ cs, isPathStart c = false := by simp
  rw [← hnone]
  unfold ofChars
  split
  · next h => simp [h]
  · next h =>
    dsimp only
    split
    · next hrest => simp [h, hrest, eq_comm]
    · next hrest => simp [hrest]

/-- A text is a rule text just if it has a character that could start a path. -/
theorem exists_ofChars_iff {cs : List Char} :
    (∃ t, ofChars cs = .ok t) ↔ ∃ c ∈ cs, isPathStart c := by
  constructor
  · rintro ⟨t, ht⟩
    obtain ⟨hwf, rfl⟩ := ofChars_eq_ok_iff.1 ht
    obtain ⟨c, hc, hstart⟩ := hwf.start
    obtain ⟨rest, hpath⟩ := List.head?_eq_some_iff.1 hc
    refine ⟨c, ?_, hstart⟩
    simp [chars_eq, hpath]
  · rintro ⟨c, hc, hstart⟩
    cases h : ofChars cs with
    | ok t => exact ⟨t, rfl⟩
    | error cause =>
      cases cause with
      | empty =>
        rw [ofChars_eq_empty_iff.1 h] at hc
        cases hc
      | missingPath column =>
        have hnone := (ofChars_eq_missingPath_iff.1 h).2.1 c hc
        rw [hstart] at hnone
        cases hnone

/-- **Reading accepts just what is written as a rule text, and loses nothing.** A text is read as
flags, path and parameters just if it consists of them: the flags have no ASCII letter and no
underscore, the path starts with one and has no colon, and a colon stands between it and the
parameters, if there are any. No text consists of such parts in two ways. The empty text is refused
as empty, any other text without a letter or an underscore for its missing path, behind its last
byte, and no other text is refused. -/
theorem ofText_accepts (text : String) :
    (∀ t, ofText text = .ok t ↔ t.WellFormed ∧ t.chars = text.toList) ∧
    (∀ t u : RuleText, t.WellFormed → u.WellFormed → t.chars = text.toList →
      u.chars = text.toList → t = u) ∧
    (ofText text = .error .empty ↔ text = "") ∧
    (∀ column, ofText text = .error (.missingPath column) ↔
      text ≠ "" ∧ (∀ c ∈ text.toList, isPathStart c = false) ∧ column = text.utf8ByteSize + 1) ∧
    ((∃ t, ofText text = .ok t) ↔ ∃ c ∈ text.toList, isPathStart c) ∧
    ∀ c, isPathStart c ↔ 'A' ≤ c ∧ c ≤ 'Z' ∨ 'a' ≤ c ∧ c ≤ 'z' ∨ c = '_' := by
  refine ⟨fun t => ofChars_eq_ok_iff, ?_, ?_, ?_, exists_ofChars_iff, fun c => isPathStart_iff⟩
  · intro t u ht hu htext hutext
    exact ht.eq_of_chars_eq hu (htext.trans hutext.symm)
  · rw [← String.toList_eq_nil_iff]
    exact ofChars_eq_empty_iff
  · intro column
    rw [Ne, ← String.toList_eq_nil_iff, ofText, ofChars_eq_missingPath_iff, String.ofList_toList]

/-! ## Parameters -/

theorem comma_notMem_of_mem_splitParams {params : Option (List Char)} {cs : List Char}
    (h : cs ∈ splitParams params) : ',' ∉ cs := by
  unfold splitParams at h
  split at h
  · cases h
  · cases h
  · exact Text.notMem_of_mem_splitOn h

theorem splitParams_some {params : List Char} (h : params ≠ []) :
    splitParams (some params) = params.splitOn ',' := by
  cases params with
  | nil => exact absurd rfl h
  | cons c cs => rfl

theorem intercalate_splitParams (params : List Char) :
    [','].intercalate (splitParams (some params)) = params := by
  cases params with
  | nil => rfl
  | cons c cs => exact List.intercalate_splitOn ','

/-- No parameter text has just one parameter that is empty. -/
theorem splitParams_ne_singleton_nil (params : Option (List Char)) :
    splitParams params ≠ [[]] := by
  intro h
  cases params with
  | none => cases h
  | some params =>
    have hnil : params = [] := by
      rw [← intercalate_splitParams params, h]
      rfl
    rw [hnil] at h
    cases h

theorem intercalate_ne_nil {ps : List (List Char)} (hps : ps ≠ []) (hempty : ps ≠ [[]]) :
    [','].intercalate ps ≠ [] := by
  match ps with
  | [] => exact absurd rfl hps
  | [p] => simpa using hempty
  | p :: q :: ps => simp [List.intercalate_cons_cons]

theorem splitParams_intercalate {ps : List (List Char)} (hcomma : ∀ cs ∈ ps, ',' ∉ cs)
    (hps : ps ≠ []) (hempty : ps ≠ [[]]) : splitParams (some ([','].intercalate ps)) = ps := by
  rw [splitParams_some (intercalate_ne_nil hps hempty), List.splitOn_intercalate ',' hcomma hps]

/-- Parameters are found again in their text, which is left out if there are none. -/
theorem splitParams_joined {ps : List (List Char)} (hcomma : ∀ cs ∈ ps, ',' ∉ cs)
    (hempty : ps ≠ [[]]) :
    splitParams (if ps = [] then none else some ([','].intercalate ps)) = ps := by
  split
  · next hps => exact hps.symm
  · next hps => exact splitParams_intercalate hcomma hps hempty

end RuleFlow.RuleText
