import RuleFlow.Builtin
import RuleFlow.Proofs.ReadBack
import RuleFlow.Rule.Decode

/-!
# The shapes of one rule

One rule can be written as a text, as a text with parameters, by its flags and its target, and in two
forms in JSON. The shapes are read by different means: a text is cut into its parts, a flag text is
taken as it is. Where flags and path can be told apart, what is cut out is what was written
(`RuleText.IsPath.rule_eq`), so that all shapes give the same rule (`Source.shapes_agree`).
-/

namespace RuleFlow

universe u

variable {κ : Type u}

namespace RuleText

variable {flags path : String} {params : List Json}

theorem IsPath.wellFormed (hpath : IsPath path.toList)
    (hflags : ∀ c ∈ flags.toList, isPathStart c = false) (given : Option (List Char)) :
    WellFormed ⟨flags.toList, path.toList, given⟩ :=
  ⟨hflags, hpath.start, hpath.colon⟩

/-- A path that ends with no blank is called as it stands in the text. -/
theorem IsPath.rule_eq (hpath : IsPath path.toList) (given : Option (List Char)) :
    (⟨flags.toList, path.toList, given⟩ : RuleText).rule params =
      (⟨.ofText flags, .path path, params⟩ : Rule κ) := by
  rw [rule, Text.trimEnd_eq_self_iff.2 hpath.last, String.ofList_toList, Flags.ofText]

end RuleText

namespace Source

variable {flags path : String}

/-- The parameters that the text of a positional rule gives do not count. -/
theorem compile_positional (hpath : RuleText.IsPath path.toList)
    (hflags : ∀ c ∈ flags.toList, RuleText.isPathStart c = false) {head : String}
    (given : Option (List Char))
    (hhead : head.toList = flags.toList ++ (path.toList ++ RuleText.suffix given))
    (params : List Json) :
    (Source.positional head params : Source κ).compile =
      .ok ⟨.ofText flags, .path path, params⟩ := by
  have hread : RuleText.read head = .ok ⟨flags.toList, path.toList, given⟩ :=
    RuleText.read_eq_ok_iff.2 <| RuleText.ofChars_eq_ok_iff.2
      ⟨hpath.wellFormed hflags given, by rw [RuleText.chars_eq, hhead]⟩
  have hrule : (⟨flags.toList, path.toList, given⟩ : RuleText).rule params = _ :=
    hpath.rule_eq (κ := κ) given
  rw [compile, hread, ← hrule]
  rfl

theorem compile_text_of_params (hpath : RuleText.IsPath path.toList)
    (hflags : ∀ c ∈ flags.toList, RuleText.isPathStart c = false) {texts : List String}
    (hcomma : ∀ s ∈ texts, ',' ∉ s.toList) (hempty : texts ≠ [""]) :
    (Source.text (flags ++ path ++ if texts = [] then "" else ":" ++ ",".intercalate texts) :
      Source κ).compile = .ok ⟨.ofText flags, .path path, texts.map .string⟩ := by
  let ps := texts.map String.toList
  let given := if ps = [] then none else some ([','].intercalate ps)
  have hps : ps ≠ [[]] := by
    intro h
    obtain ⟨s, hs, hnil⟩ := List.map_eq_singleton_iff.1 h
    exact hempty (String.toList_eq_nil_iff.1 hnil ▸ hs)
  have hvalues : RuleText.paramValues ⟨flags.toList, path.toList, given⟩ = texts.map .string := by
    rw [RuleText.paramValues, RuleText.splitParams_joined (List.forall_mem_map.2 hcomma) hps,
      List.map_map]
    exact List.map_congr_left fun s _ => congrArg Json.string String.ofList_toList
  apply Source.compile_text_eq_ok_iff.2
  refine ⟨_, hpath.wellFormed hflags given, ?_, ?_⟩
  · rw [RuleText.chars_eq]
    cases texts <;> simp [given, ps, RuleText.suffix, String.toList_intercalate]
  · rw [hvalues, hpath.rule_eq]

end Source

theorem Rules.compile_singleton {source : Source κ} {rule : Rule κ}
    (h : source.compile = .ok rule) : (Rules.list [source]).compile = .ok [rule] :=
  mapM_eq_ok_iff.2 (.cons h .nil)

/-- **All shapes of a rule give the same rule.** Take flags without a letter or an underscore and a
path that starts with one, has no colon and does not end with a blank. The rule is the same whether
it is written by a text of flags and path and its parameters, even where the text has parameters of
its own, by its flags, its path and its parameters, or in one of the two forms in JSON. Parameters
that are strings without commas, other than a single empty one, can be written into the text too. -/
theorem Source.shapes_agree {flags path : String}
    (hflags : ∀ c ∈ flags.toList, RuleText.isPathStart c = false)
    (hpath : RuleText.IsPath path.toList) (params : List Json) :
    let rule : Rule κ := ⟨.ofText flags, .path path, params⟩
    (positional (flags ++ path) params).compile = .ok rule ∧
    (∀ s : String, (positional (flags ++ path ++ ":" ++ s) params).compile = .ok rule) ∧
    (inline flags (.path path) params).compile = .ok rule ∧
    (Rules.ofJson (.array [.array (.string (flags ++ path) :: params)])).bind Rules.compile =
      .ok [rule] ∧
    (Rules.ofJson (.array [.array (.array [.string flags, .string path] :: params)])).bind
      Rules.compile = .ok [rule] ∧
    ∀ texts : List String, params = texts.map .string → (∀ s ∈ texts, ',' ∉ s.toList) →
      texts ≠ [""] →
      (text (flags ++ path ++ if texts = [] then "" else ":" ++ ",".intercalate texts)).compile =
        .ok rule := by
  intro rule
  have hplain : (positional (flags ++ path) params).compile = .ok rule :=
    compile_positional hpath hflags none (by simp [RuleText.suffix]) params
  have hinline : (inline flags (.path path) params).compile = .ok rule := rfl
  refine ⟨hplain, fun s => ?_, hinline, Rules.compile_singleton hplain,
    Rules.compile_singleton hinline, ?_⟩
  · exact compile_positional hpath hflags (some s.toList) (by simp [RuleText.suffix]) params
  · rintro texts rfl hcomma hempty
    exact compile_text_of_params hpath hflags hcomma hempty

/-- A colon among the flags, a blank inside the path, an empty parameter and blanks in the last
one. -/
theorem Source.shapes_agree_padded :
    let flags := "1~&!! -:&& "
    let path := "a_b.c d"
    let texts := [" 1", "", "\"2\" "]
    let rule : Rule Builtin :=
      { flags := { negate := true, breakAll := true, continuity := true, fullContinuity := true }
        target := .path path
        params := texts.map .string }
    (∀ c ∈ flags.toList, RuleText.isPathStart c = false) ∧ RuleText.IsPath path.toList ∧
    (positional (flags ++ path) rule.params).compile = .ok rule ∧
    (positional (flags ++ path ++ ":" ++ "3,~") rule.params).compile = .ok rule ∧
    (inline flags (.path path) rule.params).compile = .ok rule ∧
    (Rules.ofJson (.array [.array (.string (flags ++ path) :: rule.params)])).bind Rules.compile =
      .ok [rule] ∧
    (Rules.ofJson (.array [.array (.array [.string flags, .string path] :: rule.params)])).bind
      Rules.compile = .ok [rule] ∧
    (text (flags ++ path ++ ":" ++ " 1,,\"2\" ")).compile = .ok rule := by
  intro flags path texts rule
  have hflags : ∀ c ∈ "1~&!! -:&& ".toList, RuleText.isPathStart c = false := by
    have h : ("1~&!! -:&& ".toList.all fun c => !RuleText.isPathStart c) = true := rfl
    simpa using h
  have hpath : RuleText.IsPath "a_b.c d".toList :=
    ⟨⟨'a', rfl, rfl⟩, by decide, fun c hc => by cases hc; rfl⟩
  have hcomma : ∀ s ∈ texts, ',' ∉ s.toList := by
    simp only [texts, List.forall_mem_cons]
    exact ⟨by decide, by decide, by decide, List.forall_mem_nil _⟩
  obtain ⟨hhead, hgiven, hinline, hlist, hpair, htext⟩ :=
    shapes_agree (κ := Builtin) hflags hpath (texts.map .string)
  exact ⟨hflags, hpath, hhead, hgiven "3,~", hinline, hlist, hpair,
    htext texts rfl hcomma (by decide)⟩

end RuleFlow
