import RuleFlow.Json.Lookup
import RuleFlow.Registry.Resolve
import RuleFlow.Rule.Compile
import RuleFlow.Session.Event

/-!
# Running rules

A value goes through the rules of its field one by one. Before each rule the gates are checked,
then its target is resolved, then its conformer is called; a failure never changes the value.
`Setting.runRules` runs rules, `Setting.runField` the written rules of one field, and
`Setting.runFields` those of one field after another.
-/

namespace RuleFlow

universe u v

variable {κ : Type u}

/-- What stays the same while rules are run. -/
structure Setting (κ : Type u) where
  input : Json := .object []
  registry : Registry κ := .empty

/-- What a run leads to: its result, the state that it leaves and what happened. -/
structure Run (κ : Type u) (α : Type v) where
  /-- The result, or the mistake that ended the run. -/
  result : Except Error α
  /-- The state that is left, also by a mistake. -/
  state : State κ
  events : List (Event κ)

/-- The run with earlier events in front. -/
def Run.after {α : Type v} (events : List (Event κ)) (run : Run κ α) : Run κ α :=
  { run with events := events ++ run.events }

@[simp] theorem Run.result_after {α : Type v} (events : List (Event κ)) (run : Run κ α) :
    (run.after events).result = run.result := rfl

@[simp] theorem Run.state_after {α : Type v} (events : List (Event κ)) (run : Run κ α) :
    (run.after events).state = run.state := rfl

@[simp] theorem Run.events_after {α : Type v} (events : List (Event κ)) (run : Run κ α) :
    (run.after events).events = events ++ run.events := rfl

/-! ## One rule -/

/-- The gate that a rule closes in a state. The field's own errors are looked at first. -/
def Gate.closed? (flags : Flags) (field : String) (state : State κ) : Option Gate :=
  if flags.continuity ∧ !(state.errorsFor field).isEmpty then some .continuity
  else if flags.fullContinuity ∧ state.hasErrors then some .fullContinuity
  else none

/-- What the answer of a conformer means for the rule that called it. -/
inductive Verdict where
  /-- Success with a new value. -/
  | advance (value : Json)
  /-- Success with the value as it was: the conformer of a negated rule failed. -/
  | hold (failure : Failure)
  | fail (cause : Cause)

def Verdict.of (negate : Bool) : Except Failure Json → Verdict
  | .ok value => if negate then .fail .negated else .advance value
  | .error failure => if negate then .hold failure else .fail (.failed failure)

/-- How a field goes on after a rule. -/
inductive Flow where
  | next (value : Json)
  | stop (outcome : Outcome)

structure Step (κ : Type u) where
  flow : Flow
  state : State κ
  events : List (Event κ)

namespace Step

/-- What a failed rule leads to: a record unless the rule is optional, then a break if the rule
asks for one. The break of the field comes before the break of the session. -/
def ofFailure (field : String) (rule : Rule κ) (cause : Cause) (value : Json) (state : State κ) :
    Step κ :=
  let r : Record κ := ⟨cause, field, rule⟩
  let state := if rule.flags.optional then state else state.record r
  let recorded := if rule.flags.optional then [] else [Event.failed r]
  if rule.flags.breakField then
    ⟨.stop (.fieldBreak value), state, recorded ++ [.fieldBreak field rule]⟩
  else if rule.flags.breakAll then
    ⟨.stop (.sessionBreak value), state, recorded ++ [.sessionBreak field rule]⟩
  else ⟨.next value, state, recorded⟩

def ofVerdict (field : String) (rule : Rule κ) (value : Json) (state : State κ) :
    Verdict → Step κ
  | .advance new => ⟨.next new, state, []⟩
  | .hold failure => ⟨.next value, state, [.negatedFailed field rule failure]⟩
  | .fail cause => ofFailure field rule cause value state

/-- What a call leads to: the writes are made, then the answer is judged. -/
def ofCall (field : String) (call : Call κ) : Step κ :=
  let step := ofVerdict field call.rule call.value (call.view.state.writeAll call.reply.writes)
    (Verdict.of call.rule.flags.negate call.reply.result)
  { step with events := .applied field call :: step.events }

end Step

namespace Setting

def target (s : Setting κ) : Target κ → Except Error κ
  | .path p => s.registry.resolve p
  | .inline c => .ok c

variable [Conformer κ]

def call (s : Setting κ) (field : String) (rule : Rule κ) (c : κ) (value : Json)
    (state : State κ) : Call κ :=
  let view : View κ := ⟨field, s.input, state⟩
  ⟨rule, c, value, view, Conformer.run c value rule.params view⟩

/-! ## One field -/

/-- Runs rules of a field from a value. -/
def runRules (s : Setting κ) (field : String) : List (Rule κ) → Json → State κ → Run κ Outcome
  | [], value, state => ⟨.ok (.complete value), state, []⟩
  | rule :: rules, value, state =>
    match Gate.closed? rule.flags field state with
    | some gate => ⟨.ok (.fieldBreak value), state, [.skipped field rule gate]⟩
    | none =>
      match s.target rule.target with
      | .error e => ⟨.error e, state, []⟩
      | .ok c =>
        let step := Step.ofCall field (s.call field rule c value state)
        match step.flow with
        | .stop outcome => ⟨.ok outcome, step.state, step.events⟩
        | .next value => (s.runRules field rules value step.state).after step.events

/-- The value with which a field starts: what the input has at the field's name, or null. -/
def fieldValue (s : Setting κ) (field : String) : Json := (s.input.lookup? field).getD .null

/-- Runs the written rules of a field. They are all read before the field starts, so that a
malformed one leaves the state as it was. -/
def runField (s : Setting κ) (field : String) (rules : Rules κ) (state : State κ) :
    Run κ Outcome :=
  match rules.compile with
  | .error e => ⟨.error e, state, []⟩
  | .ok rules => s.runRules field rules (s.fieldValue field) (state.start field)

/-! ## A record -/

/-- Runs fields one after the other. The value of a completed field enters the output; a break of
the session leaves out the fields after it. -/
def runFields (s : Setting κ) : List (String × Rules κ) → State κ → Run κ Unit
  | [], state => ⟨.ok (), state, []⟩
  | (field, rules) :: fields, state =>
    let run := s.runField field rules state
    match run.result with
    | .error e => ⟨.error e, run.state, run.events⟩
    | .ok outcome =>
      let events := run.events ++ [.ended field outcome]
      match outcome with
      | .complete value => (s.runFields fields (run.state.write field value)).after events
      | .fieldBreak _ => (s.runFields fields run.state).after events
      | .sessionBreak _ => ⟨.ok (), run.state, events⟩

/-- Conforms the input: forgets what the state holds and runs all fields. -/
def conform (s : Setting κ) (rules : RuleMap κ) (state : State κ) : Run κ (OrderedMap Json) :=
  let run := s.runFields rules.entries state.reset
  let events := .conforming rules.size :: run.events
  match run.result with
  | .error e => ⟨.error e, run.state, events⟩
  | .ok () => ⟨.ok run.state.output, run.state, events ++ [.conformed run.state.errors.length]⟩

end Setting

end RuleFlow
