import RuleFlow.Number.Double
import RuleFlow.OrderedMap

/-!
# JSON values

Values as the rules see them. Integers and doubles are different numbers, and the members of an
object keep their order, which `compact` text shows and equality (`==`) ignores.
-/

namespace RuleFlow

/-- A JSON number: an integer, or a double. -/
inductive Number where
  /-- An integral literal of at most 64 bits. -/
  | int (value : Int)
  /-- Any other literal. -/
  | double (value : Double)

namespace Number

/-- Equality of values. An integer never equals a double. -/
def same : Number → Number → Bool
  | .int a, .int b => a == b
  | .double a, .double b => a.sameValue b
  | _, _ => false

instance : BEq Number := ⟨same⟩

end Number

inductive Json where
  | null
  | bool (value : Bool)
  | number (value : Number)
  | string (value : String)
  | array (items : List Json)
  /-- The members in their order. Readers and writers keep the keys distinct; of a repeated key
  the first member counts. -/
  | object (members : List (String × Json))

namespace Json

instance : Inhabited Json := ⟨.null⟩

/-! ## Equality -/

mutual

/-- Equality of values, whatever the order of members. -/
def same : Json → Json → Bool
  | .null, .null => true
  | .bool a, .bool b => a == b
  | .number a, .number b => a == b
  | .string a, .string b => a == b
  | .array xs, .array ys => sameItems xs ys
  | .object xs, .object ys => xs.length == ys.length && sameMembers xs ys
  | _, _ => false

def sameItems : List Json → List Json → Bool
  | [], [] => true
  | x :: xs, y :: ys => same x y && sameItems xs ys
  | _, _ => false

/-- Whether each member of the first list is in the second with an equal value. -/
def sameMembers : List (String × Json) → List (String × Json) → Bool
  | [], _ => true
  | (key, x) :: xs, ys =>
    (match Entries.get? ys key with
      | some y => same x y
      | none => false) && sameMembers xs ys

end

instance : BEq Json := ⟨same⟩

/-! ## Views of a value -/

def ofNat (n : Nat) : Json := .number (.int n)

def string? : Json → Option String
  | .string s => some s
  | _ => none

def bool? : Json → Option Bool
  | .bool b => some b
  | _ => none

def items? : Json → Option (List Json)
  | .array items => some items
  | _ => none

def members? : Json → Option (List (String × Json))
  | .object members => some members
  | _ => none

def strings? (value : Json) : Option (List String) := do
  (← value.items?).mapM string?

def member? (value : Json) (key : String) : Option Json := do
  Entries.get? (← value.members?) key

end Json

end RuleFlow
