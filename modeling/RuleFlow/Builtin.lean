import RuleFlow.Json.Lookup
import RuleFlow.Conformer
import RuleFlow.Rule.Render

/-!
# Built-in conformers

Small conformers that need no code of the caller: some pass, change or refuse a value, some read or
write the output, some test the value, and `inspect` shows what a conformer sees. Two of them are
the same only if they are the same instance, whatever they do.
-/

namespace RuleFlow

/-- What a built-in conformer does. -/
inductive Action where
  | pass
  /-- Appends a suffix to a string, or to nothing if the value is no string. -/
  | append (suffix : String)
  | const (value : Json)
  | params
  | reject (failure : Failure)
  /-- Sets an output entry to the second parameter, or to the value, and gives the value back. -/
  | setOutput
  /-- Sets an output entry to the value and gives what it was. -/
  | swapOutput
  | getOutput
  | inputField
  /-- Gives the value back if it equals an output entry. -/
  | matchOutput
  /-- Gives an account of what it sees. -/
  | inspect
  | isString
  | nonEmpty
  /-- Tests for the value of the first parameter. -/
  | eqParam

/-- A built-in conformer. -/
structure Builtin where
  /-- Tells instances apart. -/
  id : Nat
  /-- Its name in rule text. -/
  name : String
  action : Action

namespace Builtin

instance : BEq Builtin := ⟨fun a b => a.id == b.id⟩

instance : Named Builtin := ⟨Builtin.name⟩

/-- The first parameter if it is a string, else the empty string: the name that a conformer works
on. -/
def keyParam (params : List Json) : String := (params.head?.bind Json.string?).getD ""

def pairs (m : OrderedMap Json) : Json :=
  .array (m.entries.map fun e => .array [.string e.1, e.2])

/-- What a conformer sees: field, value, parameters, input, output, all records, how many of them
belong to the field, and how many to each field that a string parameter names. -/
def account (value : Json) (params : List Json) (view : View Builtin) : Json :=
  let record (r : Record Builtin) : Json :=
    .array [.string r.field, .string r.rule.text, .string r.cause.text]
  let count (field : String) : Json := .ofNat (view.state.errorsFor field).length
  .object [("field", .string view.field), ("value", value), ("params", .array params),
    ("input", view.input), ("output", pairs view.state.output),
    ("errors", .array (view.state.errors.map record)), ("own_errors", count view.field),
    ("param_errors", .array ((params.filterMap Json.string?).map count))]

def reply (action : Action) (value : Json) (params : List Json) (view : View Builtin) : Reply :=
  let key := keyParam params
  match action with
  | .pass => .value value
  | .append suffix => .value (.string (value.string?.getD "" ++ suffix))
  | .const fixed => .value fixed
  | .params => .value (.array params)
  | .reject failure => .failure failure
  | .setOutput => { result := .ok value, writes := [(key, params[1]?.getD value)] }
  | .swapOutput =>
    { result := .ok (view.state.output.getD key .null), writes := [(key, value)] }
  | .getOutput =>
    match view.state.output.get? key with
    | some entry => .value entry
    | none => .failure (.ofMessage ("no output " ++ key))
  | .inputField =>
    match view.input.lookup? key with
    | some entry => .value entry
    | none => .failure (.ofMessage ("no input " ++ key))
  | .matchOutput =>
    if view.state.output.get? key == some value then .value value
    else .failure { message := "must match " ++ key, errorType := "mismatch" }
  | .inspect => .value (account value params view)
  | .isString => .ofTest value.string?.isSome value
  | .nonEmpty => .ofTest (value.string?.any (!·.isEmpty)) value
  | .eqParam => .ofTest (params.head?.any (· == value)) value

instance : Conformer Builtin where
  run c := reply c.action

end Builtin

end RuleFlow
