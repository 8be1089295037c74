import RuleFlow.Error
import RuleFlow.Rule.Source

/-!
# Rules from JSON

A field's rules are a pipe text or an array of forms, and each form is one of

* a rule text,
* an array of a rule text and parameters,
* an array of a pair, flag text or null and a path, and parameters.

Anything else is an error that carries the first value of the wrong shape.
-/

namespace RuleFlow

universe u

variable {κ : Type u}

def Source.ofJson (value : Json) : Except Error (Source κ) :=
  match value with
  | .string t => .ok (.text t)
  | .array (.string head :: params) => .ok (.positional head params)
  | .array (.array [.string flags, .string path] :: params) =>
    .ok (.inline flags (.path path) params)
  | .array (.array [.null, .string path] :: params) => .ok (.inline "" (.path path) params)
  | _ => .error (.nonConformingRule value)

def Rules.ofJson (value : Json) : Except Error (Rules κ) :=
  match value with
  | .string t => .ok (.text t)
  | .array items => (items.mapM Source.ofJson).map .list
  | _ => .error (.nonConformingRule value)

/-- A rule map from JSON: an object from fields to their rules. -/
def RuleMap.ofJson (value : Json) : Except Error (RuleMap κ) :=
  match value with
  | .object members =>
    (members.mapM fun member => (Rules.ofJson member.2).map fun rules => (member.1, rules)).map
      OrderedMap.ofList
  | _ => .error (.nonConformingRule value)

end RuleFlow
