import RuleFlow.Error
import RuleFlow.Registry.Basic
import RuleFlow.Registry.Suggestion

/-!
# Resolving paths

A path that leads to no conformer is an error that offers the paths nearest to it.
-/

namespace RuleFlow.Registry

universe u

variable {κ : Type u}

/-- The error for a path that leads to no conformer. -/
def unknown (r : Registry κ) (path : String) : Error :=
  .unknownConformer path (suggestions path r.paths)

/-- The conformer at a path, or an error. -/
def resolve (r : Registry κ) (path : String) : Except Error κ :=
  match r.get? path with
  | some value => .ok value
  | none => .error (r.unknown path)

end RuleFlow.Registry
