import RuleFlow.OrderedMap
import RuleFlow.Rule.Basic

/-!
# Rules as they are written

The shapes in which callers give rules, before any text in them is read.
-/

namespace RuleFlow

universe u

/-- One rule as written. -/
inductive Source (κ : Type u) where
  | text (text : String)
  /-- Flags and path as a rule text, whose own parameters do not count, and the parameters. -/
  | positional (head : String) (params : List Json)
  /-- Flag text, the target as it is, and the parameters. -/
  | inline (flags : String) (target : Target κ) (params : List Json)

/-- The rules of one field as written. -/
inductive Rules (κ : Type u) where
  /-- Rule texts with bars between them. -/
  | text (text : String)
  | list (sources : List (Source κ))

/-- The rules of each field, in the order in which the fields are declared. -/
abbrev RuleMap (κ : Type u) := OrderedMap (Rules κ)

end RuleFlow
