import RuleFlow.Path
import RuleFlow.Registry.Scope

/-!
# Registries

A registry holds conformers at dotted paths. `get?` finds the conformer at a path, `insert` and
`mount` put a conformer or a whole registry there, and `paths` lists where the conformers are.
-/

namespace RuleFlow

universe u

/-- Conformers at dotted paths. -/
structure Registry (κ : Type u) where
  /-- The names of the first segments. -/
  root : Scope κ
  /-- The names of each scope are strictly increasing. -/
  ordered : root.Ordered

namespace Registry

variable {κ : Type u}

def empty : Registry κ := ⟨.empty, trivial⟩

instance : EmptyCollection (Registry κ) := ⟨empty⟩

instance : Inhabited (Registry κ) := ⟨empty⟩

/-- Whether there is no name at all. A name may be left that leads to no conformer. -/
def isEmpty (r : Registry κ) : Bool := r.root.names.isEmpty

def get? (r : Registry κ) (path : String) : Option κ :=
  let p := Path.ofText path
  match r.root.find? p.first p.rest with
  | some (.conformer value) => some value
  | _ => none

/-- Whether a path leads to a conformer. -/
def contains (r : Registry κ) (path : String) : Bool := (r.get? path).isSome

/-- Puts a conformer at a path, in place of what stands there. -/
def insert (r : Registry κ) (path : String) (value : κ) : Registry κ :=
  let p := Path.ofText path
  ⟨r.root.set p.first p.rest (.conformer value), Scope.ordered_set r.ordered trivial⟩

/-- Puts all that another registry holds under a path, in place of what stands there. -/
def mount (r : Registry κ) (path : String) (other : Registry κ) : Registry κ :=
  let p := Path.ofText path
  ⟨r.root.set p.first p.rest (.scope other.root), Scope.ordered_set r.ordered other.ordered⟩

/-- The registry with these conformers, put in one after the other. -/
def ofList (entries : List (String × κ)) : Registry κ :=
  entries.foldl (fun r entry => r.insert entry.1 entry.2) empty

/-- The paths of all conformers. -/
def paths (r : Registry κ) : List String := r.root.paths ""

end Registry

end RuleFlow
