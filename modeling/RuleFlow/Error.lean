import RuleFlow.Json.Printer
import RuleFlow.Rule.Text

/-!
# Mistakes in rules

Errors that end a call, as against failures of values, which are recorded. Each says what is wrong;
`Error.message` words it.
-/

namespace RuleFlow

/-- A mistake in the rules or the registry. -/
inductive Error where
  | malformedRule (text : String) (cause : TextError)
  /-- A JSON value that has the shape of no rule. -/
  | nonConformingRule (rule : Json)
  /-- A path at which the registry has no conformer, with paths that are nearly the same. -/
  | unknownConformer (path : String) (suggestions : List String)

namespace Error

/-- The end of a message that offers paths instead. -/
def suggestionText : List String → String
  | [] => ""
  | suggestions => ", did you mean: " ++ ", ".intercalate suggestions ++ "?"

def message : Error → String
  | .malformedRule text _ => "rule text not conforming: \"" ++ text ++ "\""
  | .nonConformingRule rule => "non conforming rule: " ++ rule.compact
  | .unknownConformer path suggestions =>
    "unknown conformer '" ++ path ++ "'" ++ suggestionText suggestions

def source? : Error → Option String
  | .malformedRule _ cause => some cause.message
  | _ => none

end Error

end RuleFlow
