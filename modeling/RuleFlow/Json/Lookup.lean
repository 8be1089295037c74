import RuleFlow.Json.Basic
import RuleFlow.Path

/-!
# Fields of a record

`Json.lookup?` finds a field of a record by a name or a dotted path. A member of the record under
the whole path wins over the walk from segment to segment.
-/

namespace RuleFlow.Json

/-- The position that a segment names: at least one decimal digit, after an optional plus sign. -/
def position? (segment : String) : Option Nat :=
  let digits :=
    match segment.toList with
    | '+' :: digits => digits
    | digits => digits
  if digits ≠ [] ∧ digits.all Char.isDigit then
    some (digits.foldl (fun n d => n * 10 + (d.toNat - '0'.toNat)) 0)
  else none

/-- One step into a value: a member of an object, or an item of an array. -/
def step? : Json → String → Option Json
  | .object members, segment => Entries.get? members segment
  | .array items, segment => (position? segment).bind fun i => items[i]?
  | _, _ => none

def walk? : Json → List String → Option Json
  | value, [] => some value
  | value, segment :: segments => (value.step? segment).bind fun next => next.walk? segments

/-- The field of a record at a path. -/
def lookup? (record : Json) (path : String) : Option Json :=
  (record.member? path).or (record.walk? (Path.ofText path).segments)

theorem walk?_append (value : Json) (p q : List String) :
    value.walk? (p ++ q) = (value.walk? p).bind fun next => next.walk? q := by
  induction p generalizing value with
  | nil => rfl
  | cons segment p ih =>
    simp only [List.cons_append, walk?]
    cases value.step? segment <;> simp [ih]

end RuleFlow.Json
