import RuleFlow.Error
import RuleFlow.Rule.Source
import RuleFlow.Text.Blank

/-!
# From written rules to rules

`Source.compile` reads one written rule and `Rules.compile` those of a field, in order; the first
malformed one is the error. No path is resolved here.
-/

namespace RuleFlow

universe u

variable {κ : Type u}

/-! ## Single rules -/

/-- Reads a rule text, or says which text is malformed. -/
def RuleText.read (text : String) : Except Error RuleText :=
  match RuleText.ofText text with
  | .ok parts => .ok parts
  | .error cause => .error (.malformedRule text cause)

/-- The flags and the target that a rule text names; the path loses its trailing blanks. -/
def RuleText.rule (parts : RuleText) (params : List Json) : Rule κ :=
  { flags := .ofChars parts.flags
    target := .path (String.ofList (Text.trimEnd parts.path))
    params }

/-- The parameters that a rule text gives. -/
def RuleText.paramValues (parts : RuleText) : List Json :=
  (splitParams parts.params).map fun cs => .string (String.ofList cs)

def Source.compile : Source κ → Except Error (Rule κ)
  | .text t => (RuleText.read t).map fun parts => parts.rule parts.paramValues
  | .positional head params => (RuleText.read head).map fun parts => parts.rule params
  | .inline flags target params => .ok { flags := .ofText flags, target, params }

/-! ## Pipe text -/

/-- Trims the segments of a pipe text: the last one only at its start. -/
def trimSegments : List (List Char) → List (List Char)
  | [] => []
  | [last] => [Text.trimStart last]
  | segment :: segments => Text.trim segment :: trimSegments segments

/-- The rule texts of a pipe text: its segments between bars, trimmed, without the empty ones. -/
def splitPipes (cs : List Char) : List (List Char) :=
  (trimSegments (cs.splitOn '|')).filter (· ≠ [])

def Rules.compile : Rules κ → Except Error (List (Rule κ))
  | .text t => (splitPipes t.toList).mapM fun cs => (Source.text (String.ofList cs)).compile
  | .list sources => sources.mapM Source.compile

end RuleFlow
