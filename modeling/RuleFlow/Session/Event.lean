import RuleFlow.Conformer
import RuleFlow.Rule.Render

/-!
# Events

What happens in a session, in order. An event carries the full facts, such as the call of a
conformer with its answer; `Event.line?` gives the line of the log, if the event has one.
-/

namespace RuleFlow

universe u

/-- Why the rest of a field was skipped. -/
inductive Gate where
  /-- The field has an error. -/
  | continuity
  /-- Some field has an error. -/
  | fullContinuity
  deriving DecidableEq, Repr

def Gate.name : Gate → String
  | .continuity => "continuity"
  | .fullContinuity => "full_continuity"

/-- How the rules of a field ended; each way has the last good value. -/
inductive Outcome where
  /-- All rules were run. -/
  | complete (value : Json)
  /-- A break or a gate stopped the field. -/
  | fieldBreak (value : Json)
  /-- A break stopped the session. -/
  | sessionBreak (value : Json)

namespace Outcome

def value : Outcome → Json
  | .complete v | .fieldBreak v | .sessionBreak v => v

def isComplete : Outcome → Bool
  | .complete _ => true
  | _ => false

end Outcome

structure Call (κ : Type u) where
  rule : Rule κ
  conformer : κ
  value : Json
  /-- What it saw. -/
  view : View κ
  /-- What it answered. -/
  reply : Reply

/-- Something that happens in a session. -/
inductive Event (κ : Type u) where
  /-- A record is about to be conformed; `fields` are declared. -/
  | conforming (fields : Nat)
  /-- A record was conformed; `errors` were recorded. -/
  | conformed (errors : Nat)
  | skipped (field : String) (rule : Rule κ) (gate : Gate)
  | applied (field : String) (call : Call κ)
  /-- The conformer of a negated rule failed, which is success. -/
  | negatedFailed (field : String) (rule : Rule κ) (failure : Failure)
  | failed (record : Record κ)
  | fieldBreak (field : String) (rule : Rule κ)
  | sessionBreak (field : String) (rule : Rule κ)
  | ended (field : String) (outcome : Outcome)

/-! ## The log -/

inductive Level where
  | debug
  | trace
  deriving DecidableEq, Repr

def Level.name : Level → String
  | .debug => "debug"
  | .trace => "trace"

structure LogLine where
  level : Level
  message : String
  /-- To what it happened. -/
  facts : List (String × Json)

namespace Event

variable {κ : Type u}

/-- The facts that place a line: the field and the rule. -/
def place [Named κ] (field : String) (rule : Rule κ) : List (String × Json) :=
  [("field", .string field), ("rule", .string rule.text)]

/-- The line of an event in the log. That a field ended shows in no line of its own. -/
def line? [Named κ] : Event κ → Option LogLine
  | conforming fields => some ⟨.debug, "conforming record", [("fields", .ofNat fields)]⟩
  | conformed errors => some ⟨.debug, "conformed record", [("errors", .ofNat errors)]⟩
  | skipped field rule gate =>
    some ⟨.trace, "skipping remaining rules", place field rule ++ [("gate", .string gate.name)]⟩
  | applied field call => some ⟨.trace, "applying rule", place field call.rule⟩
  | negatedFailed field rule failure =>
    some ⟨.trace, "negated rule failed", place field rule ++ [("failure", .string failure.text)]⟩
  | failed r =>
    some ⟨.debug, "rule failed", place r.field r.rule ++ [("cause", .string r.cause.text)]⟩
  | fieldBreak field rule => some ⟨.debug, "field break", place field rule⟩
  | sessionBreak field rule => some ⟨.debug, "session break", place field rule⟩
  | ended _ _ => none

def log [Named κ] (events : List (Event κ)) : List LogLine := events.filterMap line?

end Event

end RuleFlow
