import RuleFlow.Registry.Basic
import RuleFlow.Rule.Basic
import RuleFlow.Text.Quoted

/-!
# Descriptions for developers

Targets and registries as they are shown to the author of rules, with quoted names.
-/

namespace RuleFlow

universe u

variable {κ : Type u}

/-- What a target is and which name it goes by. -/
def Target.describe [Named κ] : Target κ → String
  | .path p => "Path(" ++ Text.quoted p ++ ")"
  | .inline c => "Inline(" ++ Text.quoted (Named.name c) ++ ")"

def Registry.describe (r : Registry κ) : String :=
  "ConformerRegistry \x7b paths: [" ++ ", ".intercalate (r.paths.map Text.quoted) ++ "] \x7d"

end RuleFlow
