import RuleFlow.Flags

/-!
# Rules

A rule has flags, a target that it calls and parameters for the call. Rules are parametric in the
type `κ` of conformers, which a rule may hold in place of a path.
-/

namespace RuleFlow

universe u

/-- Conformers that have a name, which stands for a conformer inside rule text. -/
class Named (κ : Type u) where
  name : κ → String

/-- What a rule calls. -/
inductive Target (κ : Type u) where
  /-- The conformer that the registry has at this path when the rule is run. -/
  | path (path : String)
  | inline (conformer : κ)

/-- A rule that is ready to run. -/
structure Rule (κ : Type u) where
  flags : Flags
  target : Target κ
  /-- What the call is given beside the value. -/
  params : List Json

variable {κ : Type u}

/-- The path of a target, or the name of its conformer. -/
def Target.name [Named κ] : Target κ → String
  | .path p => p
  | .inline c => Named.name c

/-- Equality of targets. No path equals a conformer, whatever the registry has at it. -/
def Target.same [BEq κ] : Target κ → Target κ → Bool
  | .path p, .path q => p == q
  | .inline c, .inline d => c == d
  | _, _ => false

instance [BEq κ] : BEq (Target κ) := ⟨Target.same⟩

namespace Rule

def path [Named κ] (rule : Rule κ) : String := rule.target.name

/-- Equality of rules. Parameters are compared as values. -/
def same [BEq κ] (a b : Rule κ) : Bool :=
  a.flags == b.flags && a.target == b.target && a.params == b.params

instance [BEq κ] : BEq (Rule κ) := ⟨same⟩

end Rule

end RuleFlow
