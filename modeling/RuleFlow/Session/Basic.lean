import RuleFlow.Rule.Decode
import RuleFlow.Session.Run

/-!
# Sessions

A session holds a setting and the state that its last command left. `Session.perform` carries out a
command; a mistake in it ends the command and keeps the state reached until then.
-/

namespace RuleFlow

universe u

/-- A record under conformance. -/
structure Session (κ : Type u) extends Setting κ where
  state : State κ := .empty

/-- What a session can be asked for. -/
inductive Command (κ : Type u) where
  /-- Conform the record, starting afresh. -/
  | conform (rules : RuleMap κ)
  /-- Conform the record by rules from JSON, starting afresh once they are read. -/
  | conformJson (rules : Json)
  /-- Run the rules of one field, going on from where the session is. -/
  | runField (field : String) (rules : Rules κ)
  | reset
  /-- Put a conformer into the session's registry. -/
  | addConformer (path : String) (conformer : κ)

inductive Answer where
  | output (result : Except Error (OrderedMap Json))
  | outcome (result : Except Error Outcome)
  | done

structure Performed (κ : Type u) where
  answer : Answer
  session : Session κ
  events : List (Event κ)

namespace Session

variable {κ : Type u}

/-- A session that has done nothing yet. -/
def new (input : Json) (registry : Registry κ) : Session κ := { input, registry }

variable [Conformer κ]

/-- The run that conforms the record, starting afresh. -/
def conform (s : Session κ) (rules : RuleMap κ) : Run κ (OrderedMap Json) :=
  s.toSetting.conform rules s.state

/-- The run that conforms the record by rules from JSON. Rules that cannot be read leave the state
as it was. -/
def conformJson (s : Session κ) (rules : Json) : Run κ (OrderedMap Json) :=
  match RuleMap.ofJson rules with
  | .error e => ⟨.error e, s.state, []⟩
  | .ok rules => s.conform rules

/-- The run of one field, going on from where the session is. -/
def runField (s : Session κ) (field : String) (rules : Rules κ) : Run κ Outcome :=
  s.toSetting.runField field rules s.state

def perform (s : Session κ) : Command κ → Performed κ
  | .conform rules =>
    let run := s.conform rules
    ⟨.output run.result, { s with state := run.state }, run.events⟩
  | .conformJson rules =>
    let run := s.conformJson rules
    ⟨.output run.result, { s with state := run.state }, run.events⟩
  | .runField field rules =>
    let run := s.runField field rules
    ⟨.outcome run.result, { s with state := run.state }, run.events⟩
  | .reset => ⟨.done, { s with state := s.state.reset }, []⟩
  | .addConformer path c => ⟨.done, { s with registry := s.registry.insert path c }, []⟩

/-- Carries out commands one after the other. -/
def performAll (s : Session κ) (commands : List (Command κ)) : Session κ :=
  commands.foldl (fun s command => (s.perform command).session) s

end Session

end RuleFlow
