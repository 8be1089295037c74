import RuleFlow.Json.Basic
import RuleFlow.Session.State

/-!
# Reports

A record reduced to what a caller needs. What the failure says counts; the rest comes from the rule
and the field.
-/

namespace RuleFlow

universe u

/-- An error as the caller sees it. -/
structure Report where
  errorType : String
  fields : List String
  message : String
  params : List Json

variable {κ : Type u}

/-- The report on a record. The type is the path of the rule unless the failure has one; a message
that is missing or empty gives way to the type. The type of a negated rule starts with `~`. -/
def Record.report [Named κ] (r : Record κ) : Report :=
  match r.cause with
  | .negated =>
    let errorType := "~" ++ r.rule.path
    { errorType, fields := [r.field], message := errorType, params := r.rule.params }
  | .failed failure =>
    let errorType := failure.errorType.getD r.rule.path
    { errorType
      fields := failure.fields.getD [r.field]
      message := (failure.message.filter (!·.isEmpty)).getD errorType
      params := failure.params.getD r.rule.params }

/-- The reports on all records of a state, in order. -/
def State.reports [Named κ] (s : State κ) : List Report := s.errors.map Record.report

namespace Report

/-- Reads a report from an object with the keys `type`, `fields`, `message` and `params`, where
other keys are ignored, or from an array of these four in this order. -/
def ofJson? (value : Json) : Option Report :=
  match value with
  | .object _ => do
    let errorType ← (← value.member? "type").string?
    let fields ← (← value.member? "fields").strings?
    let message ← (← value.member? "message").string?
    let params ← (← value.member? "params").items?
    return { errorType, fields, message, params }
  | .array [errorType, fields, message, params] => do
    let errorType ← errorType.string?
    let fields ← fields.strings?
    let message ← message.string?
    let params ← params.items?
    return { errorType, fields, message, params }
  | _ => none

end Report

end RuleFlow
