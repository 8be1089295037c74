import RuleFlow.Builtin
import RuleFlow.Proofs.Reading
import RuleFlow.Proofs.RuleText
import RuleFlow.Rule.Render

/-!
# Rules that read back from their text

The text of a rule does not always give the rule again: a path may look like flags or parameters,
and a parameter stands as it is, whether it is a string or not. `Rule.Plain` says of a rule that
nothing in it is lost. Every rule that a rule text gives is plain (`plain_of_compile`), and a plain
rule reads back (`compile_text`), so that these are the rules that read back.
-/

namespace RuleFlow

universe u

variable {κ : Type u}

/-! ## Plain rules -/

/-- A path that is not mistaken for anything else in a rule text. -/
structure RuleText.IsPath (path : List Char) : Prop where
  /-- It starts with a letter or an underscore. -/
  start : ∃ c ∈ path.head?, isPathStart c
  /-- The colon starts the parameters. -/
  colon : ':' ∉ path
  /-- Blanks at the end are dropped. -/
  last : ∀ c ∈ path.getLast?, Text.isBlank c = false

/-- A rule that its text tells in full. -/
structure Rule.Plain (rule : Rule κ) : Prop where
  /-- It calls what the registry has at a path. -/
  target : ∃ path : String, rule.target = .path path ∧ RuleText.IsPath path.toList
  /-- Its parameters are strings without the comma that stands between them. -/
  params : ∀ value ∈ rule.params, ∃ s : String, value = .string s ∧ ',' ∉ s.toList
  /-- The text of one empty parameter is that of none. -/
  params_ne : rule.params ≠ [.string ""]

/-! ## From texts to rules -/

namespace RuleText

theorem isBlank_of_isPathStart {c : Char} (h : isPathStart c) : Text.isBlank c = false := by
  have hle {a b : Char} (h : a ≤ b) : a.toNat ≤ b.toNat := UInt32.le_iff_toNat_le.1 h
  have hc : 65 ≤ c.toNat ∧ c.toNat ≤ 122 := by
    rcases isPathStart_iff.1 h with ⟨hge, hlt⟩ | ⟨hge, hlt⟩ | rfl
    · exact ⟨hle hge, (hle hlt).trans (by decide)⟩
    · exact ⟨le_trans (by decide) (hle hge), hle hlt⟩
    · decide
  simp [Text.isBlank, Text.blankRanges]
  omega

theorem isPath_trimEnd {t : RuleText} (h : t.WellFormed) : IsPath (Text.trimEnd t.path) := by
  obtain ⟨c, hc, hstart⟩ := h.start
  refine ⟨⟨c, Text.head?_trimEnd hc (isBlank_of_isPathStart hstart), hstart⟩, ?_, ?_⟩
  · exact fun hmem => h.colon ((Text.trimEnd_prefix_self _).subset hmem)
  · exact Text.trimEnd_eq_self_iff.1 (Text.trimEnd_trimEnd _)

theorem plain_rule {t : RuleText} (h : t.WellFormed) : (t.rule t.paramValues : Rule κ).Plain := by
  refine ⟨⟨_, rfl, ?_⟩, fun value hvalue => ?_, fun hparams => ?_⟩
  · rw [String.toList_ofList]
    exact isPath_trimEnd h
  · obtain ⟨cs, hcs, rfl⟩ := List.mem_map.1 hvalue
    refine ⟨_, rfl, ?_⟩
    rw [String.toList_ofList]
    exact comma_notMem_of_mem_splitParams hcs
  · obtain ⟨cs, hcs, hempty⟩ := List.map_eq_singleton_iff.1 hparams
    have hnil : cs = [] := by simpa using hempty
    exact splitParams_ne_singleton_nil t.params (hnil ▸ hcs)

end RuleText

/-- What a rule text gives, said on its parts. -/
theorem Source.compile_text_eq_ok_iff {text : String} {rule : Rule κ} :
    (Source.text text).compile = .ok rule ↔
      ∃ t : RuleText, t.WellFormed ∧ t.chars = text.toList ∧ t.rule t.paramValues = rule := by
  simp only [compile, map_eq_ok_iff, RuleText.read_eq_ok_iff, RuleText.ofText,
    RuleText.ofChars_eq_ok_iff, and_assoc]

theorem Rule.plain_of_compile {text : String} {rule : Rule κ}
    (h : (Source.text text).compile = .ok rule) : rule.Plain := by
  obtain ⟨t, hwf, _, rfl⟩ := Source.compile_text_eq_ok_iff.1 h
  exact RuleText.plain_rule hwf

/-! ## Equality of rules -/

namespace Rule

variable [BEq κ]

theorem params_beq_iff_eq {ps qs : List Json} (h : ∀ value ∈ ps, ∃ s : String, value = .string s) :
    (ps == qs) = true ↔ ps = qs := by
  induction ps generalizing qs with
  | nil => cases qs <;> simp
  | cons p ps ih =>
    obtain ⟨s, rfl⟩ := h p List.mem_cons_self
    have hps : ∀ value ∈ ps, ∃ s : String, value = .string s := fun value hvalue =>
      h value (List.mem_cons_of_mem _ hvalue)
    cases qs with
    | nil => simp
    | cons q qs =>
      have hhead : (Json.string s == q) = true ↔ Json.string s = q := by
        change Json.same (.string s) q = true ↔ _
        cases q <;> simp [Json.same]
      rw [List.cons_beq_cons, Bool.and_eq_true, hhead, ih hps, List.cons_eq_cons]

/-- A plain rule equals no rule but itself. -/
theorem Plain.beq_iff {a b : Rule κ} (h : a.Plain) : (a == b) = true ↔ a = b := by
  obtain ⟨flags, target, params⟩ := a
  obtain ⟨flags', target', params'⟩ := b
  obtain ⟨path, rfl, _⟩ := h.target
  have hparams : (params == params') = true ↔ params = params' :=
    params_beq_iff_eq fun value hvalue => (h.params value hvalue).imp fun s hs => hs.1
  have htarget : (Target.path path == target') = true ↔ Target.path path = target' := by
    change Target.same (.path path) target' = true ↔ _
    cases target' <;> simp [Target.same]
  change same _ _ = true ↔ _
  rw [same, Bool.and_eq_true, Bool.and_eq_true, hparams, htarget, beq_iff_eq, mk.injEq,
    and_assoc]

end Rule

/-! ## From rules to texts -/

theorem Flags.mem_toChars {f : Flags} {c : Char} (h : c ∈ f.toChars) :
    c = '~' ∨ c = '?' ∨ c = '!' ∨ c = '&' := by
  simp only [toChars, List.mem_append] at h
  rcases h with ((((h | h) | h) | h) | h) | h <;> split at h <;> simp_all

theorem Flags.isPathStart_of_mem_toChars {f : Flags} {c : Char} (h : c ∈ f.toChars) :
    RuleText.isPathStart c = false := by
  rcases mem_toChars h with rfl | rfl | rfl | rfl <;> rfl

namespace Rule

variable [Named κ]

/-- The parts of the text of a rule. -/
def parts (rule : Rule κ) : RuleText where
  flags := rule.flags.toChars
  path := rule.path.toList
  params := if rule.params = [] then none else some ([','].intercalate (rule.params.map paramChars))

theorem chars_parts (rule : Rule κ) : rule.parts.chars = rule.chars := by
  obtain ⟨flags, target, params⟩ := rule
  cases params <;> simp [parts, RuleText.chars, chars, paramsChars]

theorem Plain.wellFormed_parts {rule : Rule κ} (h : rule.Plain) : rule.parts.WellFormed := by
  obtain ⟨path, htarget, hpath⟩ := h.target
  have hname : rule.path = path := by rw [Rule.path, htarget]; rfl
  refine ⟨fun c hc => Flags.isPathStart_of_mem_toChars hc, ?_, ?_⟩
  · rw [parts, hname]
    exact hpath.start
  · rw [parts, hname]
    exact hpath.colon

theorem Plain.paramValues_parts {rule : Rule κ} (h : rule.Plain) :
    rule.parts.paramValues = rule.params := by
  have hcomma : ∀ cs ∈ rule.params.map paramChars, ',' ∉ cs := by
    intro cs hcs
    obtain ⟨value, hvalue, rfl⟩ := List.mem_map.1 hcs
    obtain ⟨s, rfl, hs⟩ := h.params value hvalue
    exact hs
  -- A single empty parameter would be written like none.
  have hempty : rule.params.map paramChars ≠ [[]] := by
    intro hmap
    obtain ⟨value, hsingle, hchars⟩ := List.map_eq_singleton_iff.1 hmap
    obtain ⟨s, rfl, _⟩ := h.params value (hsingle ▸ List.mem_singleton_self value)
    have hs : s = "" := String.toList_eq_nil_iff.1 hchars
    exact h.params_ne (hs ▸ hsingle)
  have hback : ∀ value ∈ rule.params, Json.string (String.ofList (paramChars value)) = value := by
    intro value hvalue
    obtain ⟨s, rfl, _⟩ := h.params value hvalue
    rw [paramChars, String.ofList_toList]
  have hsplit := RuleText.splitParams_joined hcomma hempty
  simp only [List.map_eq_nil_iff] at hsplit
  rw [RuleText.paramValues, parts, hsplit, List.map_map]
  exact (List.map_congr_left hback).trans (List.map_id rule.params)

theorem Plain.rule_parts {rule : Rule κ} (h : rule.Plain) :
    rule.parts.rule rule.parts.paramValues = rule := by
  obtain ⟨path, htarget, hpath⟩ := h.target
  have hname : rule.path = path := by rw [Rule.path, htarget]; rfl
  rw [h.paramValues_parts, RuleText.rule, parts, hname, Flags.ofChars_toChars,
    Text.trimEnd_eq_self_iff.2 hpath.last, String.ofList_toList, ← htarget]

theorem Plain.compile_text {rule : Rule κ} (h : rule.Plain) :
    (Source.text rule.text).compile = .ok rule :=
  Source.compile_text_eq_ok_iff.2
    ⟨rule.parts, h.wellFormed_parts, by rw [chars_parts, toList_text], h.rule_parts⟩

theorem compile_text_iff_plain {rule : Rule κ} :
    (Source.text rule.text).compile = .ok rule ↔ rule.Plain :=
  ⟨plain_of_compile, Plain.compile_text⟩

/-- **The rules that read back are the plain ones.** A rule is read again from its text just if its
path starts with a letter or an underscore, has no colon and does not end with a blank, and its
parameters are strings without commas and not a single empty one. All others are changed or
refused, also by the equality of rules. Every rule that some text gives is among those that read
back. -/
theorem reads_back_iff_plain [BEq κ] :
    (∀ rule : Rule κ, (Source.text rule.text).compile = .ok rule ↔ rule.Plain) ∧
    (∀ rule : Rule κ, (∃ read : Rule κ, (Source.text rule.text).compile = .ok read ∧
      (read == rule) = true) ↔ rule.Plain) ∧
    ∀ (text : String) (rule : Rule κ), (Source.text text).compile = .ok rule →
      (Source.text rule.text).compile = .ok rule := by
  refine ⟨fun _ => compile_text_iff_plain, fun rule => ⟨?_, ?_⟩, fun text rule h => ?_⟩
  · -- What is read is plain, and equals no other rule.
    rintro ⟨read, hread, heq⟩
    have hplain : read.Plain := plain_of_compile hread
    exact hplain.beq_iff.1 heq ▸ hplain
  · intro h
    exact ⟨rule, h.compile_text, h.beq_iff.2 rfl⟩
  · exact (plain_of_compile h).compile_text

/-- Characters among the flags, an empty parameter and blanks in the last one. -/
theorem reads_back_padded :
    let rule : Rule Builtin :=
      { flags := { negate := true, breakAll := true, continuity := true, fullContinuity := true }
        target := .path "a_b.c"
        params := [.string " 1", .string "", .string "\"2\" "] }
    (Source.text "1~&!! -&& a_b.c \t: 1,,\"2\" ").compile = .ok rule ∧
      rule.text = "~!!&&&a_b.c: 1,,\"2\" " ∧ rule.Plain ∧
      (Source.text rule.text).compile = .ok rule := by
  intro rule
  have h : (Source.text "1~&!! -&& a_b.c \t: 1,,\"2\" ").compile = .ok rule := rfl
  have hchars : rule.chars = "~!!&&&a_b.c: 1,,\"2\" ".toList := by
    rw [chars, Rule.path, Target.name]
    rfl
  have hback := reads_back_iff_plain.2.2 _ rule h
  have htext : rule.text = "~!!&&&a_b.c: 1,,\"2\" " := by
    rw [Rule.text, hchars, String.ofList_toList]
  exact ⟨h, htext, (reads_back_iff_plain.1 rule).1 hback, hback⟩

end Rule

end RuleFlow
