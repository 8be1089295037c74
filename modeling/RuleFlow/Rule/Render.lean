import RuleFlow.Json.Printer
import RuleFlow.Rule.Basic

/-!
# The text of a rule

`Rule.chars` writes a rule back as rule text: flags in canonical order, path, parameters. A string
parameter stands as it is, so that not every rule reads back from its text.
-/

namespace RuleFlow.Rule

universe u

variable {κ : Type u}

/-- A parameter inside a rule text: a string as it stands, any other value as compact JSON. -/
def paramChars : Json → List Char
  | .string s => s.toList
  | value => value.compact.toList

/-- The parameters of a rule text: a colon before the first, commas between them. -/
def paramsChars : List Json → List Char
  | [] => []
  | params => ':' :: [','].intercalate (params.map paramChars)

def chars [Named κ] (rule : Rule κ) : List Char :=
  rule.flags.toChars ++ rule.path.toList ++ paramsChars rule.params

def text [Named κ] (rule : Rule κ) : String := String.ofList rule.chars

@[simp] theorem toList_text [Named κ] (rule : Rule κ) : rule.text.toList = rule.chars := by
  simp [text]

end RuleFlow.Rule
