import RuleFlow.Failure
import RuleFlow.Rule.Basic

/-!
# What a session accumulates

The output conformed so far, the records of failed rules in the order in which they were made, and
the same records by field. The lemmas say what each operation does to these three, of which a write
touches only the first, and a start or a record only the others.
-/

namespace RuleFlow

universe u

/-- Why a rule was recorded as failed. -/
inductive Cause where
  | failed (failure : Failure)
  /-- The conformer of a negated rule succeeded. -/
  | negated

namespace Cause

def isNegated : Cause → Bool
  | .failed _ => false
  | .negated => true

def text : Cause → String
  | .failed failure => failure.text
  | .negated => "negated rule succeeded"

end Cause

/-- A failed rule, with the field that it failed for. -/
structure Record (κ : Type u) where
  cause : Cause
  field : String
  rule : Rule κ

/-- What a session accumulates. -/
structure State (κ : Type u) where
  output : OrderedMap Json
  /-- All records, in order. -/
  errors : List (Record κ)
  /-- The records of each field that was started, in order. -/
  fieldErrors : OrderedMap (List (Record κ))

namespace State

variable {κ : Type u}

def empty : State κ := ⟨.empty, [], .empty⟩

def errorsFor (s : State κ) (field : String) : List (Record κ) := s.fieldErrors.getD field []

def hasErrors (s : State κ) : Bool := !s.errors.isEmpty

def reset (s : State κ) : State κ :=
  { s with output := .empty, errors := [], fieldErrors := .empty }

def write (s : State κ) (key : String) (value : Json) : State κ :=
  { s with output := s.output.insert key value }

/-- Sets entries of the output, one after the other. -/
def writeAll (s : State κ) (writes : List (String × Json)) : State κ :=
  writes.foldl (fun s w => s.write w.1 w.2) s

/-- Notes that a field was started: from here on it has records, though none yet. -/
def start (s : State κ) (field : String) : State κ :=
  { s with fieldErrors := s.fieldErrors.insert field (s.errorsFor field) }

/-- Adds a record, both to all records and to those of its field. -/
def record (s : State κ) (r : Record κ) : State κ :=
  { s with
    errors := s.errors ++ [r]
    fieldErrors := s.fieldErrors.insert r.field (s.errorsFor r.field ++ [r]) }

/-! ## What the operations do -/

@[simp] theorem reset_eq_empty (s : State κ) : s.reset = empty := rfl

@[simp] theorem output_write (s : State κ) (key : String) (value : Json) :
    (s.write key value).output = s.output.insert key value := rfl

@[simp] theorem errors_write (s : State κ) (key : String) (value : Json) :
    (s.write key value).errors = s.errors := rfl

@[simp] theorem fieldErrors_write (s : State κ) (key : String) (value : Json) :
    (s.write key value).fieldErrors = s.fieldErrors := rfl

@[simp] theorem errors_writeAll (s : State κ) (writes : List (String × Json)) :
    (s.writeAll writes).errors = s.errors := by
  induction writes generalizing s with
  | nil => rfl
  | cons w writes ih => exact ih (s.write w.1 w.2)

@[simp] theorem fieldErrors_writeAll (s : State κ) (writes : List (String × Json)) :
    (s.writeAll writes).fieldErrors = s.fieldErrors := by
  induction writes generalizing s with
  | nil => rfl
  | cons w writes ih => exact ih (s.write w.1 w.2)

theorem output_writeAll (s : State κ) (writes : List (String × Json)) :
    (s.writeAll writes).output = writes.foldl (fun m w => m.insert w.1 w.2) s.output := by
  induction writes generalizing s with
  | nil => rfl
  | cons w writes ih => exact ih (s.write w.1 w.2)

@[simp] theorem errorsFor_writeAll (s : State κ) (writes : List (String × Json)) (field : String) :
    (s.writeAll writes).errorsFor field = s.errorsFor field := by
  simp [errorsFor]

@[simp] theorem output_start (s : State κ) (field : String) :
    (s.start field).output = s.output := rfl

@[simp] theorem errors_start (s : State κ) (field : String) :
    (s.start field).errors = s.errors := rfl

@[simp] theorem errorsFor_start (s : State κ) (field f : String) :
    (s.start field).errorsFor f = s.errorsFor f := by
  by_cases h : field = f <;> simp [start, errorsFor, OrderedMap.getD, h]

@[simp] theorem output_record (s : State κ) (r : Record κ) :
    (s.record r).output = s.output := rfl

@[simp] theorem errors_record (s : State κ) (r : Record κ) :
    (s.record r).errors = s.errors ++ [r] := rfl

theorem errorsFor_record (s : State κ) (r : Record κ) (field : String) :
    (s.record r).errorsFor field =
      s.errorsFor field ++ if r.field = field then [r] else [] := by
  by_cases h : r.field = field <;> simp [record, errorsFor, OrderedMap.getD, h]

end State

end RuleFlow
