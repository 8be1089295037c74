import RuleFlow.Proofs.ReadBack

/-!
# Pipe text

The rule texts between the bars of a pipe text are not empty, have no bar and begin with no blank,
and only the last one may end with blanks (`IsPipe`). A text ends where a bar stands behind it
(`splitPipes_segment_append`), and blanks and bars in front of one count for nothing
(`splitPipes_filler_append`). So texts are found again when they are joined by bars, with or without
blanks about these (`splitPipes_intercalate`). The texts of the rules that are read from them are such
texts again (`IsPipe.map_chars`), so that the rules of a pipe text, joined by bars, are read again as
the same rules.
-/

namespace RuleFlow

universe u

variable {κ : Type u} {cs bs : List Char} {texts : List (List Char)}

/-! ## Segments of a pipe text -/

/-- A text that may stand between bars. -/
structure IsSegment (cs : List Char) : Prop where
  ne_nil : cs ≠ []
  start : Text.trimStart cs = cs
  bar : '|' ∉ cs

/-- Texts that bars tell apart. -/
inductive IsPipe : List (List Char) → Prop
  | nil : IsPipe []
  | last {cs : List Char} (h : IsSegment cs) : IsPipe [cs]
  | cons {cs : List Char} {texts : List (List Char)} (h : IsSegment cs)
    (hend : Text.trimEnd cs = cs) (hrest : IsPipe texts) : IsPipe (cs :: texts)

theorem isPipe_trimSegments (h : ∀ cs ∈ texts, '|' ∉ cs) :
    IsPipe ((trimSegments texts).filter (· ≠ [])) := by
  induction texts using trimSegments.induct with
  | case1 => exact .nil
  | case2 last =>
    have hbar : '|' ∉ Text.trimStart last := fun hmem =>
      h last List.mem_cons_self ((Text.trimStart_suffix_self last).subset hmem)
    rw [trimSegments, List.filter_cons]
    split
    · next hne => exact .last ⟨by simpa using hne, Text.trimStart_trimStart last, hbar⟩
    · exact .nil
  | case3 cs texts hne ih =>
    have hrest := ih fun d hd => h d (List.mem_cons_of_mem _ hd)
    have hbar : '|' ∉ Text.trim cs := fun hmem =>
      h cs List.mem_cons_self (Text.mem_of_mem_trim hmem)
    rw [trimSegments, List.filter_cons]
    · split
      · next hcs =>
        exact .cons ⟨by simpa using hcs, Text.trimStart_trim cs, hbar⟩ (Text.trimEnd_trim cs) hrest
      · exact hrest
    · exact hne

theorem isPipe_splitPipes (cs : List Char) : IsPipe (splitPipes cs) :=
  isPipe_trimSegments fun _ h => Text.notMem_of_mem_splitOn h

/-! ## Joining segments -/

theorem bar_notMem_of_blank (h : ∀ c ∈ bs, Text.isBlank c) : '|' ∉ bs := fun hmem =>
  absurd (h '|' hmem) (by decide)

theorem splitPipes_of_notMem (h : '|' ∉ cs) :
    splitPipes cs = [Text.trimStart cs].filter (· ≠ []) := by
  rw [splitPipes, List.splitOn_eq_singleton h, trimSegments]

theorem splitPipes_append_bar (h : '|' ∉ cs) (rest : List Char) :
    splitPipes (cs ++ '|' :: rest) = [Text.trim cs].filter (· ≠ []) ++ splitPipes rest := by
  obtain ⟨first, more, hcut⟩ := List.exists_cons_of_ne_nil (List.splitOn_ne_nil '|' rest)
  rw [splitPipes, List.splitOn_append_cons_self_of_not_mem h, splitPipes, hcut, trimSegments,
    ← List.filter_append]
  · rfl
  · simp

/-- Blanks at the start of a pipe text count for nothing. -/
theorem splitPipes_blanks_append (h : ∀ c ∈ bs, Text.isBlank c) (cs : List Char) :
    splitPipes (bs ++ cs) = splitPipes cs := by
  by_cases hmem : '|' ∈ cs
  · -- The blanks are trimmed off with the first segment.
    obtain ⟨first, rest, rfl, hfirst⟩ := List.eq_append_cons_of_mem hmem
    have hbs : '|' ∉ bs ++ first := by
      rw [List.mem_append, not_or]
      exact ⟨bar_notMem_of_blank h, hfirst⟩
    rw [← List.append_assoc, splitPipes_append_bar hbs, splitPipes_append_bar hfirst, Text.trim,
      Text.trimStart_append_blanks h, Text.trim]
  · have hbs : '|' ∉ bs ++ cs := by
      rw [List.mem_append, not_or]
      exact ⟨bar_notMem_of_blank h, hmem⟩
    rw [splitPipes_of_notMem hbs, splitPipes_of_notMem hmem, Text.trimStart_append_blanks h]

theorem IsSegment.splitPipes (h : IsSegment cs) : splitPipes cs = [cs] := by
  rw [splitPipes_of_notMem h.bar, h.start]
  simp [h.ne_nil]

theorem IsSegment.trim_append_blanks (h : IsSegment cs) (hend : Text.trimEnd cs = cs)
    (hbs : ∀ c ∈ bs, Text.isBlank c) : Text.trim (cs ++ bs) = cs := by
  have hstart : Text.trimStart (cs ++ bs) = cs ++ bs := by
    rw [Text.trimStart_eq_self_iff, List.head?_append_of_ne_nil cs h.ne_nil]
    exact Text.trimStart_eq_self_iff.1 h.start
  rw [Text.trim, hstart, Text.trimEnd_append_blanks hbs, hend]

/-- Blanks and bars, in any order. -/
def IsFiller (cs : List Char) : Prop := ∀ c ∈ cs, Text.isBlank c ∨ c = '|'

/-- Neither blanks nor bars at the start of a pipe text count for anything. -/
theorem splitPipes_filler_append {filler : List Char} (h : IsFiller filler) (cs : List Char) :
    splitPipes (filler ++ cs) = splitPipes cs := by
  induction filler with
  | nil => rfl
  | cons c filler ih =>
    obtain ⟨hc, hfiller⟩ := List.forall_mem_cons.1 h
    rcases hc with hblank | rfl
    · rw [← ih hfiller]
      exact splitPipes_blanks_append (List.forall_mem_singleton.2 hblank) (filler ++ cs)
    · rw [← ih hfiller]
      exact splitPipes_append_bar List.not_mem_nil (filler ++ cs)

/-- A text ends where there is a bar behind it, and blanks before this bar are not part of it. -/
theorem splitPipes_segment_append (h : IsSegment cs) (hend : Text.trimEnd cs = cs)
    {gap : List Char} (hgap : IsFiller gap) (hbar : '|' ∈ gap) (rest : List Char) :
    splitPipes (cs ++ (gap ++ rest)) = cs :: splitPipes rest := by
  obtain ⟨bs, filler, rfl, hbs⟩ := List.eq_append_cons_of_mem hbar
  obtain ⟨hblank, hfiller⟩ := List.forall_mem_append.1 hgap
  have hblanks : ∀ c ∈ bs, Text.isBlank c := fun c hc => by
    rcases hblank c hc with hc' | rfl
    · exact hc'
    · exact absurd hc hbs
  have hfirst : '|' ∉ cs ++ bs := by
    rw [List.mem_append, not_or]
    exact ⟨h.bar, hbs⟩
  have hcut : cs ++ ((bs ++ '|' :: filler) ++ rest) = (cs ++ bs) ++ '|' :: (filler ++ rest) := by
    simp
  rw [hcut, splitPipes_append_bar hfirst, h.trim_append_blanks hend hblanks,
    splitPipes_filler_append (List.forall_mem_cons.1 hfiller).2]
  simp [h.ne_nil]

/-- Texts that bars tell apart are found again between bars, whatever blanks stand about these. -/
theorem splitPipes_intercalate {left right : List Char} (hleft : ∀ c ∈ left, Text.isBlank c)
    (hright : ∀ c ∈ right, Text.isBlank c) (h : IsPipe texts) :
    splitPipes ((left ++ '|' :: right).intercalate texts) = texts := by
  have hgap : IsFiller (left ++ '|' :: right) := by
    intro c hc
    rcases List.mem_append.1 hc with hc | hc
    · exact .inl (hleft c hc)
    · exact (List.mem_cons.1 hc).elim .inr fun hc => .inl (hright c hc)
  induction h with
  | nil => rfl
  | last h => simpa using h.splitPipes
  | @cons cs texts h hend _ ih =>
    cases texts with
    | nil => simpa using h.splitPipes
    | cons d texts =>
      rw [List.intercalate_cons_cons, List.append_assoc,
        splitPipes_segment_append h hend hgap (by simp), ih]

/-! ## The texts of rules as segments -/

theorem Rule.paramsChars_of_ne_nil {ps : List Json} (h : ps ≠ []) :
    paramsChars ps = ':' :: [','].intercalate (ps.map paramChars) := by
  cases ps with
  | nil => exact absurd rfl h
  | cons p ps => rfl

theorem Flags.isBlank_of_mem_toChars {f : Flags} {c : Char} (h : c ∈ f.toChars) :
    Text.isBlank c = false := by
  rcases mem_toChars h with rfl | rfl | rfl | rfl <;> rfl

theorem Flags.bar_notMem_toChars (f : Flags) : '|' ∉ f.toChars := fun h =>
  absurd (mem_toChars h) (by decide)

namespace RuleText

variable {t : RuleText}

/-- The parameters that are read from a rule text are written as they were; an empty parameter text
loses its colon. -/
theorem paramsChars_paramValues (t : RuleText) :
    Rule.paramsChars t.paramValues = suffix (t.params.filter (· ≠ [])) := by
  obtain ⟨flags, path, _ | _ | ⟨c, params⟩⟩ := t
  · rfl
  · rfl
  · -- There is a first parameter, so that a colon is written.
    have hne : splitParams (some (c :: params)) ≠ [] := List.splitOn_ne_nil ',' (c :: params)
    obtain ⟨first, rest, hcut⟩ := List.exists_cons_of_ne_nil hne
    have hback : (paramValues ⟨flags, path, some (c :: params)⟩).map Rule.paramChars =
        splitParams (some (c :: params)) := by
      rw [paramValues, List.map_map]
      exact List.map_id'' (fun _ => String.toList_ofList) _
    rw [Rule.paramsChars_of_ne_nil (by simp [paramValues, hcut]), hback, intercalate_splitParams]
    rfl

theorem chars_rule [Named κ] (t : RuleText) : (t.rule t.paramValues : Rule κ).chars =
    (Flags.ofChars t.flags).toChars ++
      (Text.trimEnd t.path ++ suffix (t.params.filter (· ≠ []))) := by
  rw [Rule.chars, RuleText.rule, Rule.path, Target.name, paramsChars_paramValues]
  simp

theorem isSegment_chars_rule [Named κ] (h : t.WellFormed) (hbar : '|' ∉ t.chars) :
    IsSegment (t.rule t.paramValues : Rule κ).chars := by
  obtain ⟨c, hc, hstart⟩ := (isPath_trimEnd h).start
  obtain ⟨rest, hpath⟩ := List.head?_eq_some_iff.1 hc
  rw [chars_eq, List.mem_append, List.mem_append, not_or, not_or] at hbar
  rw [chars_rule]
  refine ⟨by simp [hpath], Text.trimStart_eq_self_iff.2 fun d hd => ?_, fun hmem => ?_⟩
  · -- The text starts with a mark of a flag or with the path.
    cases hmarks : (Flags.ofChars t.flags).toChars with
    | nil =>
      rw [hmarks, hpath] at hd
      cases hd
      exact isBlank_of_isPathStart hstart
    | cons m marks =>
      rw [hmarks] at hd
      cases hd
      exact Flags.isBlank_of_mem_toChars (hmarks ▸ List.mem_cons_self)
  · rw [List.mem_append, List.mem_append] at hmem
    rcases hmem with hmem | hmem | hmem
    · exact Flags.bar_notMem_toChars _ hmem
    · exact hbar.2.1 ((Text.trimEnd_prefix_self _).subset hmem)
    · cases hparams : t.params.filter (· ≠ []) with
      | none =>
        rw [hparams] at hmem
        cases hmem
      | some params =>
        rw [hparams] at hmem
        rw [(Option.filter_eq_some_iff.1 hparams).1] at hbar
        exact hbar.2.2 hmem

theorem trimEnd_chars_rule [Named κ] (h : t.WellFormed) (hend : Text.trimEnd t.chars = t.chars) :
    Text.trimEnd (t.rule t.paramValues : Rule κ).chars = (t.rule t.paramValues : Rule κ).chars := by
  rw [Text.trimEnd_eq_self_iff] at hend ⊢
  rw [chars_rule]
  cases hparams : t.params.filter (· ≠ []) with
  | none =>
    -- The path is trimmed and comes last.
    obtain ⟨c, hc, _⟩ := (isPath_trimEnd h).start
    obtain ⟨rest, hpath⟩ := List.head?_eq_some_iff.1 hc
    rw [suffix, List.append_nil, List.getLast?_append_of_ne_nil _ (by simp [hpath])]
    exact (isPath_trimEnd h).last
  | some params =>
    -- The last parameter comes last, as it does in the text that was read.
    have hsome : t.params = some params := (Option.filter_eq_some_iff.1 hparams).1
    rw [chars_eq, hsome, ← List.append_assoc,
      List.getLast?_append_of_ne_nil _ (by simp [suffix])] at hend
    rw [← List.append_assoc, List.getLast?_append_of_ne_nil _ (by simp [suffix])]
    exact hend

end RuleText

/-! ## Reading the rules of a pipe text again -/

variable {rules : List (Rule κ)}

theorem Rules.compile_text_eq_ok_iff {text : String} : (Rules.text text).compile = .ok rules ↔
    List.Forall₂ (fun cs rule => (Source.text (String.ofList cs)).compile = .ok rule)
      (splitPipes text.toList) rules :=
  mapM_eq_ok_iff

theorem Rules.plain_of_compile_text {text : String} (h : (Rules.text text).compile = .ok rules) :
    ∀ rule ∈ rules, rule.Plain := by
  intro rule hrule
  obtain ⟨cs, _, hread⟩ := exists_of_mem_mapM h hrule
  exact Rule.plain_of_compile hread

variable [Named κ]

/-- The texts of the rules of a pipe text are told apart by bars like the texts they are read
from. -/
theorem IsPipe.map_chars (h : IsPipe texts)
    (hrules : List.Forall₂ (fun cs rule => (Source.text (String.ofList cs)).compile = .ok rule)
      texts rules) : IsPipe (rules.map Rule.chars) := by
  induction h generalizing rules with
  | nil =>
    cases hrules
    exact .nil
  | last h =>
    obtain ⟨rule, rest, hrule, hrest, rfl⟩ := List.forall₂_cons_left_iff.1 hrules
    cases hrest
    obtain ⟨t, hwf, hchars, rfl⟩ := Source.compile_text_eq_ok_iff.1 hrule
    rw [String.toList_ofList] at hchars
    exact .last (RuleText.isSegment_chars_rule hwf (hchars ▸ h.bar))
  | cons h hend _ ih =>
    obtain ⟨rule, rest, hrule, hrest, rfl⟩ := List.forall₂_cons_left_iff.1 hrules
    obtain ⟨t, hwf, hchars, rfl⟩ := Source.compile_text_eq_ok_iff.1 hrule
    rw [String.toList_ofList] at hchars
    exact .cons (RuleText.isSegment_chars_rule hwf (hchars ▸ h.bar))
      (RuleText.trimEnd_chars_rule hwf (hchars ▸ hend)) (ih hrest)

theorem toList_intercalate_text (bar : String) (rules : List (Rule κ)) :
    (bar.intercalate (rules.map Rule.text)).toList =
      bar.toList.intercalate (rules.map Rule.chars) := by
  have htexts : String.toList ∘ Rule.text = Rule.chars (κ := κ) := funext Rule.toList_text
  rw [String.toList_intercalate, List.map_map, htexts]

/-- The rules of a pipe text are read again from their texts, whatever blanks stand about the bars
that join these. -/
theorem Rules.compile_text_intercalate {text bar : String} (left right : List Char)
    (h : (Rules.text text).compile = .ok rules) (hbar : bar.toList = left ++ '|' :: right)
    (hleft : ∀ c ∈ left, Text.isBlank c) (hright : ∀ c ∈ right, Text.isBlank c) :
    (Rules.text (bar.intercalate (rules.map Rule.text))).compile = .ok rules := by
  have hpipe : IsPipe (rules.map Rule.chars) :=
    (isPipe_splitPipes text.toList).map_chars (Rules.compile_text_eq_ok_iff.1 h)
  rw [Rules.compile_text_eq_ok_iff, toList_intercalate_text, hbar,
    splitPipes_intercalate hleft hright hpipe, List.forall₂_map_left_iff, List.forall₂_same]
  exact fun rule hrule => (Rules.plain_of_compile_text h rule hrule).compile_text

/-- **Pipe text settles after one reading.** The rules that a pipe text gives, written out and joined
by bars, with a blank on both sides of a bar or with none, are read again as the same rules. -/
theorem Rules.compile_text_joined {text : String} (h : (Rules.text text).compile = .ok rules) :
    (Rules.text (" | ".intercalate (rules.map Rule.text))).compile = .ok rules ∧
    (Rules.text ("|".intercalate (rules.map Rule.text))).compile = .ok rules := by
  constructor
  · have hblank : ∀ c ∈ [' '], Text.isBlank c := List.forall_mem_singleton.2 rfl
    exact compile_text_intercalate [' '] [' '] h rfl hblank hblank
  · have hnone : ∀ c ∈ ([] : List Char), Text.isBlank c := List.forall_mem_nil _
    exact compile_text_intercalate [] [] h rfl hnone hnone

/-- Blank segments, an empty parameter, characters among the flags and blanks in the last
parameter. -/
theorem Rules.compile_text_joined_padded :
    let rules : List (Rule Builtin) :=
      [{ flags := { negate := true }, target := .path "x?y"
         params := [.string " 1", .string " 2", .string ""] },
       { flags := { breakField := true, fullContinuity := true, continuity := true }
         target := .path "c", params := [] },
       { flags := .empty, target := .path "_d e", params := [.string "", .string " \t"] }]
    (Rules.text " ~x?y : 1, 2, | |\t&&-!&c:|| _d e:, \t").compile = .ok rules ∧
    (Rules.text (" | ".intercalate (rules.map Rule.text))).compile = .ok rules ∧
    (Rules.text ("|".intercalate (rules.map Rule.text))).compile = .ok rules := by
  intro rules
  have hsplit : splitPipes " ~x?y : 1, 2, | |\t&&-!&c:|| _d e:, \t".toList =
      ["~x?y : 1, 2,".toList, "&&-!&c:".toList, "_d e:, \t".toList] := rfl
  have h : (Rules.text " ~x?y : 1, 2, | |\t&&-!&c:|| _d e:, \t").compile = .ok rules := by
    rw [compile_text_eq_ok_iff, hsplit]
    simp only [rules, List.forall₂_cons, String.ofList_toList]
    exact ⟨rfl, rfl, rfl, .nil⟩
  exact ⟨h, compile_text_joined h⟩

end RuleFlow
