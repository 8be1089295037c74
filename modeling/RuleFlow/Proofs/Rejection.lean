import RuleFlow.Proofs.Forms
import RuleFlow.Proofs.Started

/-!
# Rules that are refused

Rules are read before anything else is done with them: the rules of a field before the field starts,
and those of a record in JSON before the session forgets what it has. Running rules makes no mistake
of reading (`result_runField_eq_malformed_iff`, `conform_ne_nonConforming`). So where a command is
answered with such a mistake, it did nothing, wherever the mistake stands among other rules
(`Session.rejected_rules_change_nothing`).
-/

namespace RuleFlow

universe u

variable {κ : Type u}

/-! ## Mistakes of reading -/

namespace Setting

variable [Conformer κ] {s : Setting κ} {field : String} {own : Rules κ} {a : State κ}

/-- Running rules never finds a text malformed. -/
theorem result_runField_eq_malformed_iff {text : String} {cause : TextError} :
    (s.runField field own a).result = .error (.malformedRule text cause) ↔
      own.compile = .error (.malformedRule text cause) := by
  cases hown : own.compile with
  | error e =>
    rw [runField_of_error hown]
    exact ⟨fun h => by cases h; rfl, fun h => by cases h; rfl⟩
  | ok rules =>
    rw [runField_of_ok hown]
    refine ⟨fun h => ?_, fun h => by cases h⟩
    obtain ⟨path, hpath⟩ := exists_unknown_of_runRules h
    cases hpath

/-- Running a record finds malformed texts and unknown paths only. -/
theorem conform_ne_nonConforming (rules : RuleMap κ) (a : State κ) (rule : Json) :
    (s.conform rules a).result ≠ .error (.nonConformingRule rule) := by
  intro h
  obtain ⟨before, field, own, _, hrun⟩ := exists_turn_of_error h
  rcases error_runField_cases hrun with ⟨⟨text, cause, hmalformed⟩, _⟩ | ⟨⟨path, hunknown⟩, _⟩
  · cases hmalformed
  · cases hunknown

end Setting

/-! ## Commands that are refused -/

namespace Session

variable [Conformer κ] {s : Session κ}

theorem result_conformJson_eq_nonConforming_iff {json rule : Json} :
    (s.conformJson json).result = .error (.nonConformingRule rule) ↔
      (RuleMap.ofJson json : Except Error (RuleMap κ)) = .error (.nonConformingRule rule) := by
  cases hjson : (RuleMap.ofJson json : Except Error (RuleMap κ)) with
  | error e =>
    rw [conformJson_of_error hjson]
    exact ⟨fun h => by cases h; rfl, fun h => by cases h; rfl⟩
  | ok rules =>
    rw [conformJson_of_ok hjson]
    exact ⟨fun h => absurd h (Setting.conform_ne_nonConforming rules s.state rule),
      fun h => by cases h⟩

/-- A command whose rules cannot be read does nothing. -/
theorem perform_runField_of_error {own : Rules κ} {e : Error} (h : own.compile = .error e)
    (field : String) : s.perform (.runField field own) = ⟨.outcome (.error e), s, []⟩ := by
  rw [perform, runField, Setting.runField_of_error h]

theorem perform_conformJson_of_error {json : Json} {e : Error}
    (h : (RuleMap.ofJson json : Except Error (RuleMap κ)) = .error e) :
    s.perform (.conformJson json) = ⟨.output (.error e), s, []⟩ := by
  rw [perform, conformJson_of_error h]

theorem answer_runField_eq_malformed_iff {field : String} {own : Rules κ} {text : String}
    {cause : TextError} :
    (s.perform (.runField field own)).answer = .outcome (.error (.malformedRule text cause)) ↔
      own.compile = .error (.malformedRule text cause) := by
  rw [perform, Answer.outcome.injEq, runField, Setting.result_runField_eq_malformed_iff]

theorem answer_conformJson_eq_nonConforming_iff {json rule : Json} :
    (s.perform (.conformJson json)).answer = .output (.error (.nonConformingRule rule)) ↔
      (RuleMap.ofJson json : Except Error (RuleMap κ)) = .error (.nonConformingRule rule) := by
  rw [perform, Answer.output.injEq, result_conformJson_eq_nonConforming_iff]

/-- **Refused rules change nothing.** A field's run is answered with a malformed rule just if one of
the rules, behind any number of good ones, is the first that is malformed. Then the session is as it
was, and no conformer was called. Conforming by rules from JSON is answered with a value that has
the shape of no rule just if the rules of a field, behind any number of good ones, are the first in
which there is one. Then too the session is as it was, and no conformer was called: once anything
has happened, there is no such answer. -/
theorem rejected_rules_change_nothing (s : Session κ) :
    (∀ field own text cause,
      let performed := s.perform (.runField field own)
      (performed.answer = .outcome (.error (.malformedRule text cause)) →
        performed.session = s ∧ performed.events = []) ∧
      (performed.answer = .outcome (.error (.malformedRule text cause)) ↔
        ∃ before bad later, own.sources = before ++ bad :: later ∧
          (∀ source ∈ before, ∃ rule, source.compile = .ok rule) ∧
          bad.compile = .error (.malformedRule text cause))) ∧
    (∀ json rule,
      let performed := s.perform (.conformJson json)
      (performed.answer = .output (.error (.nonConformingRule rule)) →
        performed.session = s ∧ performed.events = []) ∧
      (performed.events ≠ [] → performed.answer ≠ .output (.error (.nonConformingRule rule)))) ∧
    ∀ members rule,
      (s.perform (.conformJson (.object members))).answer =
          .output (.error (.nonConformingRule rule)) ↔
        ∃ before field bad later, members = before ++ (field, bad) :: later ∧
          (∀ m ∈ before, ∃ rules : Rules κ, Rules.ofJson m.2 = .ok rules) ∧
          (Rules.ofJson bad : Except Error (Rules κ)) = .error (.nonConformingRule rule) := by
  refine ⟨fun field own text cause => ⟨fun h => ?_, ?_⟩, fun json rule => ?_, fun members rule => ?_⟩
  · rw [perform_runField_of_error (answer_runField_eq_malformed_iff.1 h)]
    exact ⟨rfl, rfl⟩
  · rw [answer_runField_eq_malformed_iff, Rules.compile_eq_error_iff]
  · have hidle (h : (s.perform (.conformJson json)).answer =
        .output (.error (.nonConformingRule rule))) :
        (s.perform (.conformJson json)).session = s ∧
          (s.perform (.conformJson json)).events = [] := by
      rw [perform_conformJson_of_error (answer_conformJson_eq_nonConforming_iff.1 h)]
      exact ⟨rfl, rfl⟩
    exact ⟨hidle, fun hevents h => hevents (hidle h).2⟩
  · rw [answer_conformJson_eq_nonConforming_iff, RuleMap.ofJson_object_eq_error_iff]

/-- In a session that has an error already, a malformed text behind a rule that would fail and one
whose path is unknown, and a null behind good rules. -/
theorem rejected_rules_change_nothing_behind_good :
    let reject : Builtin := ⟨0, "reject", .reject {}⟩
    let failing : Source Builtin := .inline "" (.inline reject) []
    let s := ((Session.new (.object []) .empty).perform (.runField "a" (.list [failing]))).session
    let own : Rules Builtin := .list [failing, .text "x", .text "?!"]
    let json : Json := .object [("b", .string "x"), ("c", .array [.string "y", .null])]
    s.state.errors.length = 1 ∧
    (s.perform (.runField "b" own)).answer =
      .outcome (.error (.malformedRule "?!" (.missingPath 3))) ∧
    (s.perform (.runField "b" own)).session = s ∧ (s.perform (.runField "b" own)).events = [] ∧
    (s.perform (.conformJson json)).answer = .output (.error (.nonConformingRule .null)) ∧
    (s.perform (.conformJson json)).session = s ∧ (s.perform (.conformJson json)).events = [] := by
  intro reject failing s own json
  have hown : (s.perform (.runField "b" own)).answer =
      .outcome (.error (.malformedRule "?!" (.missingPath 3))) := rfl
  have hjson : (s.perform (.conformJson json)).answer =
      .output (.error (.nonConformingRule .null)) := rfl
  obtain ⟨hfield, hrecord, _⟩ := rejected_rules_change_nothing s
  obtain ⟨hsession, hevents⟩ := (hfield "b" own "?!" (.missingPath 3)).1 hown
  obtain ⟨hsession', hevents'⟩ := (hrecord json .null).1 hjson
  exact ⟨rfl, hown, hsession, hevents, hjson, hsession', hevents'⟩

end Session
end RuleFlow
