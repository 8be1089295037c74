import RuleFlow.Builtin
import RuleFlow.Proofs.PipeText

/-!
# Rule texts between bars

The rule texts of a field can be written one by one, or as one pipe text with bars between them
(`Joined`). Blanks about the bars, doubled bars, and bars before the first text or behind the last
one make no difference (`splitPipes_of_joined`): the pipe text is read as the list of the texts, also
when one of them is malformed (`Rules.compile_joined`).
-/

namespace RuleFlow

universe u

variable {κ : Type u} {texts : List (List Char)} {cs : List Char}

/-- A text that can stand between bars without losing anything. -/
structure IsEntry (cs : List Char) : Prop where
  ne_nil : cs ≠ []
  bar : '|' ∉ cs
  first : ∀ c ∈ cs.head?, Text.isBlank c = false
  last : ∀ c ∈ cs.getLast?, Text.isBlank c = false

theorem IsEntry.of_ends {a z : Char} (hbar : '|' ∉ cs) (ha : cs.head? = some a)
    (hz : cs.getLast? = some z) (hfirst : Text.isBlank a = false) (hlast : Text.isBlank z = false) :
    IsEntry cs := by
  refine ⟨fun hnil => ?_, hbar, fun c hc => ?_, fun c hc => ?_⟩
  · cases hnil ▸ ha
  · cases ha ▸ hc
    exact hfirst
  · cases hz ▸ hc
    exact hlast

theorem IsEntry.isSegment (h : IsEntry cs) : IsSegment cs :=
  ⟨h.ne_nil, Text.trimStart_eq_self_iff.2 h.first, h.bar⟩

theorem IsEntry.trimEnd (h : IsEntry cs) : Text.trimEnd cs = cs :=
  Text.trimEnd_eq_self_iff.2 h.last

/-- A pipe text that has these texts, in order. Between any two of them there is a bar, with any
blanks and further bars about it. Blanks and bars may stand before the first text, and behind the
last one if there is a bar among them. -/
inductive Joined : List (List Char) → List Char → Prop
  /-- There are no more texts. -/
  | nil {filler : List Char} (h : IsFiller filler) : Joined [] filler
  /-- The last text, with nothing behind it. -/
  | last (lead : List Char) {cs : List Char} (hlead : IsFiller lead) : Joined [cs] (lead ++ cs)
  /-- A text with a bar behind it. -/
  | cons (lead gap : List Char) {cs rest : List Char} {texts : List (List Char)}
    (hlead : IsFiller lead) (hgap : IsFiller gap) (hbar : '|' ∈ gap) (hrest : Joined texts rest) :
    Joined (cs :: texts) (lead ++ (cs ++ (gap ++ rest)))

/-- The texts are found again between the bars. -/
theorem splitPipes_of_joined (h : Joined texts cs) (hentries : ∀ t ∈ texts, IsEntry t) :
    splitPipes cs = texts := by
  induction h with
  | @nil filler h =>
    rw [← List.append_nil filler, splitPipes_filler_append h]
    rfl
  | last _ hlead =>
    have h := (List.forall_mem_cons.1 hentries).1
    rw [splitPipes_filler_append hlead, h.isSegment.splitPipes]
  | cons _ _ hlead hgap hbar _ ih =>
    obtain ⟨h, hrest⟩ := List.forall_mem_cons.1 hentries
    rw [splitPipes_filler_append hlead,
      splitPipes_segment_append h.isSegment h.trimEnd hgap hbar, ih hrest]

namespace Source

theorem compile_text_eq_error_iff {text : String} {e : Error} :
    (Source.text text : Source κ).compile = .error e ↔
      ∃ cause, RuleText.ofText text = .error cause ∧ e = .malformedRule text cause := by
  rw [compile, map_eq_error_iff, RuleText.read_eq_error_iff]

theorem exists_compile_text_iff {text : String} :
    (∃ rule : Rule κ, (Source.text text).compile = .ok rule) ↔
      ∃ parts, RuleText.ofText text = .ok parts := by
  simp only [compile, exists_map_eq_ok_iff, RuleText.read_eq_ok_iff]

end Source

/-- **Pipe text and a list of rule texts are read alike.** Take texts that are not empty, have no bar
and neither begin nor end with a blank, and join them by bars, whatever blanks and further bars
stand about these. The pipe text is read just as the list of the texts: as the rules of the texts, in
order, or with the mistake of the first text that is no rule text, which names this text and says
why. -/
theorem Rules.compile_joined {texts : List String} {text : String}
    (hjoined : Joined (texts.map String.toList) text.toList)
    (hentries : ∀ t ∈ texts, IsEntry t.toList) :
    (Rules.text text : Rules κ).compile = (Rules.list (texts.map .text)).compile ∧
    (∀ rules : List (Rule κ), (Rules.text text).compile = .ok rules ↔
      List.Forall₂ (fun t rule => (Source.text t).compile = .ok rule) texts rules) ∧
    ∀ e, (Rules.text text : Rules κ).compile = .error e ↔
      ∃ before t later, texts = before ++ t :: later ∧
        (∀ u ∈ before, ∃ parts, RuleText.ofText u = .ok parts) ∧
        ∃ cause, RuleText.ofText t = .error cause ∧ e = .malformedRule t cause := by
  have hsplit : splitPipes text.toList = texts.map String.toList :=
    splitPipes_of_joined hjoined (List.forall_mem_map.2 hentries)
  have hsources : (Rules.text text : Rules κ).sources = texts.map .text := by
    simp [sources, hsplit]
  have hlist : (Rules.text text : Rules κ).compile = (Rules.list (texts.map .text)).compile := by
    rw [compile_eq_mapM, hsources]
    rfl
  have hmapM : (Rules.text text : Rules κ).compile =
      texts.mapM fun t => (Source.text t).compile := by
    rw [compile_eq_mapM, hsources, List.mapM_map]
    rfl
  refine ⟨hlist, fun rules => ?_, fun e => ?_⟩
  · rw [hmapM, mapM_eq_ok_iff]
  · simp only [hmapM, mapM_eq_error_iff, Source.compile_text_eq_error_iff,
      Source.exists_compile_text_iff]

/-- Doubled bars, blanks of several kinds and a malformed text between two others. -/
theorem Rules.compile_joined_malformed :
    let texts := ["~x?y : 1, 2,", "?!é", "_d e:,"]
    let text := " ||~x?y : 1, 2, | |\t?!é|\u2003 _d e:, \n|\t"
    Joined (texts.map String.toList) text.toList ∧ (∀ t ∈ texts, IsEntry t.toList) ∧
    (Rules.text text : Rules Builtin).compile = (Rules.list (texts.map .text)).compile ∧
    (Rules.text text : Rules Builtin).compile =
      .error (.malformedRule "?!é" (.missingPath 5)) := by
  intro texts text
  have hfiller (cs : List Char) (h : (cs.all fun c => Text.isBlank c || c == '|') = true) :
      IsFiller cs := by simpa [IsFiller] using h
  have htext : " ||~x?y : 1, 2, | |\t?!é|\u2003 _d e:, \n|\t".toList =
      " ||".toList ++ ("~x?y : 1, 2,".toList ++ (" | |\t".toList ++
        ([] ++ ("?!é".toList ++ ("|".toList ++ ("\u2003 ".toList ++ ("_d e:,".toList ++
          (" \n|".toList ++ "\t".toList)))))))) := rfl
  have hjoined : Joined (texts.map String.toList) text.toList := by
    simp only [text, htext]
    apply Joined.cons _ _ (hfiller _ rfl) (hfiller _ rfl) (by decide)
    apply Joined.cons _ _ (hfiller _ rfl) (hfiller _ rfl) (by decide)
    apply Joined.cons _ _ (hfiller _ rfl) (hfiller _ rfl) (by decide)
    exact .nil (hfiller _ rfl)
  have hentries : ∀ t ∈ texts, IsEntry t.toList := by
    simp only [texts, List.forall_mem_cons]
    exact ⟨.of_ends (by decide) rfl rfl rfl rfl, .of_ends (by decide) rfl rfl rfl rfl,
      .of_ends (by decide) rfl rfl rfl rfl, List.forall_mem_nil _⟩
  obtain ⟨hlist, _, herror⟩ := compile_joined (κ := Builtin) hjoined hentries
  refine ⟨hjoined, hentries, hlist, (herror _).2 ?_⟩
  exact ⟨["~x?y : 1, 2,"], "?!é", ["_d e:,"], rfl,
    List.forall_mem_singleton.2 ⟨_, rfl⟩, _, rfl, rfl⟩

end RuleFlow
