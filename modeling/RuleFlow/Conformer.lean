import RuleFlow.Session.State

/-!
# Conformers

A conformer is given a value, the parameters of the rule and a view of the session. It answers with
a value or a failure, and with the entries that it sets in the output.
-/

namespace RuleFlow

universe u

/-- The session as a conformer sees it. -/
structure View (κ : Type u) where
  /-- The field that is being run. -/
  field : String
  input : Json
  /-- Output and records so far. -/
  state : State κ

/-- What a conformer answers. -/
structure Reply where
  /-- The value for the next rule, or why the value does not conform. -/
  result : Except Failure Json
  /-- The entries that it sets in the output, in order; they stay set when the value fails. -/
  writes : List (String × Json) := []

namespace Reply

def value (v : Json) : Reply := { result := .ok v }

def failure (f : Failure) : Reply := { result := .error f }

/-- The reply of a test: the value as it is, or a failure that only notes that the test said no. -/
def ofTest (passed : Bool) (v : Json) : Reply :=
  if passed then value v else failure (.ofNote "transformed false function")

end Reply

/-- Types of conformers. -/
class Conformer (κ : Type u) extends Named κ where
  /-- What a conformer answers to a value, parameters and a view. -/
  run : κ → Json → List Json → View κ → Reply

namespace Conformer

variable {κ : Type u} [Conformer κ]

/-- A conformer that gives back the values of which a test holds. -/
def Tests (c : κ) (holds : Json → List Json → Bool) : Prop :=
  ∀ value params view, run c value params view = .ofTest (holds value params) value

/-- A conformer that does not look at the records. -/
def IgnoresRecords (c : κ) : Prop :=
  ∀ value params (view view' : View κ), view.field = view'.field → view.input = view'.input →
    view.state.output = view'.state.output →
      run c value params view = run c value params view'

end Conformer

end RuleFlow
