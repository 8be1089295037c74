import RuleFlow.Json.Basic

/-!
# Failures of a conformer

What a conformer says when a value does not conform. Every part may be left out.
-/

namespace RuleFlow

/-- Why a value does not conform. -/
structure Failure where
  /-- The message for the caller. -/
  message : Option String := none
  errorType : Option String := none
  fields : Option (List String) := none
  params : Option (List Json) := none
  /-- A detail that is not for the caller. -/
  note : Option String := none
  /-- The text of the error behind the failure. -/
  source : Option String := none

namespace Failure

def ofMessage (message : String) : Failure := { message }

/-- A failure around another error: the text of that error is also the message. -/
def ofError (text : String) : Failure := { message := text, source := text }

def ofNote (note : String) : Failure := { note }

/-- The text of a failure: its message, else its type, else its note. -/
def text (failure : Failure) : String :=
  ((failure.message.or failure.errorType).or failure.note).getD "conformer failed"

end Failure

end RuleFlow
