import RuleFlow.Proofs.Places
import RuleFlow.Session.Pool

/-!
# The history of a session

The events of its commands, one after the other, tell all that happens in a session
(`Session.history`). A session has moments (`Session.Moment`): between its commands, and where a
command calls a conformer. At each moment the records are among those that the calls until then lead
to (`Moment.exists_call`), and each call is made for a rule that a command gives
(`exists_rules_of_mem_history`).
-/

namespace RuleFlow

universe u

variable {κ : Type u}

/-- The rules that a command gives to fields, as they are written. Values that have the shape of no
rules give none. -/
def Command.rules : Command κ → List (Rules κ)
  | conform rules => rules.entries.map Prod.snd
  | conformJson json =>
    match RuleMap.ofJson json with
    | .ok rules => rules.entries.map Prod.snd
    | .error _ => []
  | runField _ own => [own]
  | reset | addConformer _ _ => []

namespace Session

variable [Conformer κ]

/-- What happens while a session carries out commands one after the other. -/
def history (s : Session κ) (commands : List (Command κ)) : List (Event κ) :=
  (s.answers commands).flatMap (·.events)

/-- A moment of a session, with what happened until then and the state that the session has. -/
inductive Moment (s : Session κ) : List (Event κ) → State κ → Prop
  /-- Some commands are carried out. -/
  | between (commands : List (Command κ)) :
    Moment s (s.history commands) (s.performAll commands).state
  /-- A conformer is called while a further command is carried out. -/
  | calling {commands : List (Command κ)} {command : Command κ} {before after : List (Event κ)}
    {field : String} {call : Call κ}
    (h : ((s.performAll commands).perform command).events =
      before ++ .applied field call :: after) :
    Moment s (s.history commands ++ before) call.view.state

theorem history_cons (s : Session κ) (command : Command κ) (commands : List (Command κ)) :
    s.history (command :: commands) =
      (s.perform command).events ++ (s.perform command).session.history commands := rfl

/-! ## Records -/

section
variable {s : Session κ} {told es : List (Event κ)} {a : State κ}

/-- What a command does until it reaches a state adds the records of its calls. -/
theorem errors_subset_of_path {command : Command κ} {on : String → Prop}
    (hs : s.state.errors ⊆ Event.records told)
    (h : s.toSetting.Path on (s.startOf command) es a) :
    a.errors ⊆ Event.records (told ++ es) := by
  rw [h.errors, Event.records_append]
  refine List.append_subset.2 ⟨?_, List.subset_append_right _ _⟩
  unfold startOf
  split
  · exact List.nil_subset _
  · exact List.Subset.trans hs (List.subset_append_left _ _)

theorem performAll_errors_subset (hs : s.state.errors ⊆ Event.records told)
    (commands : List (Command κ)) :
    (s.performAll commands).state.errors ⊆ Event.records (told ++ s.history commands) := by
  induction commands generalizing s told with
  | nil =>
    rw [Event.records_append]
    exact List.Subset.trans hs (List.subset_append_left _ _)
  | cons command commands ih =>
    have hnext := errors_subset_of_path hs (s.perform_path command)
    rw [history_cons, ← List.append_assoc]
    exact ih hnext

theorem Moment.errors_subset {input : Json} {registry : Registry κ}
    (h : (new input registry).Moment es a) : a.errors ⊆ Event.records es := by
  have hdone (commands : List (Command κ)) :
      ((new input registry).performAll commands).state.errors ⊆
        Event.records ((new input registry).history commands) :=
    @performAll_errors_subset κ _ (new input registry) [] (List.nil_subset _) commands
  cases h with
  | between commands => exact hdone commands
  | @calling commands command _ _ _ _ h =>
    exact errors_subset_of_path (hdone commands) ((perform_path _ command).before_call h)

/-- Each record of a session was made by a call that came before. -/
theorem Moment.exists_call {input : Json} {registry : Registry κ}
    (h : (new input registry).Moment es a) {r : Record κ} (hr : r ∈ a.errors) :
    ∃ field, ∃ call ∈ Event.calls es, call.record? field = some r := by
  obtain ⟨field, call, he, hrecord⟩ := Event.mem_records.1 (h.errors_subset hr)
  exact ⟨field, call, Event.mem_calls.2 ⟨field, he⟩, hrecord⟩

end

/-! ## Rules -/

/-- A command calls conformers for rules that it gives. -/
theorem exists_rules_of_mem_calls {s : Session κ} {command : Command κ} {call : Call κ}
    (h : call ∈ Event.calls (s.perform command).events) :
    ∃ own ∈ command.rules, call.rule ∈ own.compiled := by
  have hconform {rules : RuleMap κ} (h : call ∈ Event.calls (s.conform rules).events) :
      ∃ own ∈ rules.entries.map Prod.snd, call.rule ∈ own.compiled := by
    obtain ⟨p, hp, hrule⟩ := s.toSetting.exists_place_of_mem_calls_conform rules s.state h
    obtain ⟨own, hown, hposition⟩ := Place.mem_ofFields.1 hp
    exact ⟨own, List.mem_map_of_mem hown, hrule ▸ List.mem_of_getElem? hposition⟩
  cases command with
  | conform rules => exact hconform h
  | conformJson json =>
    change call ∈ Event.calls (s.conformJson json).events at h
    rw [Command.rules]
    cases hjson : (RuleMap.ofJson json : Except Error (RuleMap κ)) with
    | error e =>
      rw [conformJson_of_error hjson] at h
      cases h
    | ok rules =>
      rw [conformJson_of_ok hjson] at h
      exact hconform h
  | runField field own =>
    change call ∈ Event.calls (s.toSetting.runField field own s.state).events at h
    rw [← Event.map_call_placedCalls 0] at h
    obtain ⟨c, hc, rfl⟩ := List.mem_map.1 h
    have hplace := (Setting.placedCalls_runField_prefix field own s.state).subset
      (List.mem_map_of_mem hc)
    exact ⟨own, List.mem_singleton_self own, (Place.mem_number hplace).2⟩
  | reset => cases h
  | addConformer path c => cases h

/-- All rules that a session applies are rules that its commands give. -/
theorem exists_rules_of_mem_history {s : Session κ} {commands : List (Command κ)} {call : Call κ}
    (h : call ∈ Event.calls (s.history commands)) :
    ∃ command ∈ commands, ∃ own ∈ command.rules, call.rule ∈ own.compiled := by
  induction commands generalizing s with
  | nil => cases h
  | cons command commands ih =>
    rw [history_cons, Event.calls_append, List.mem_append] at h
    rcases h with h | h
    · exact ⟨command, List.mem_cons_self, exists_rules_of_mem_calls h⟩
    · obtain ⟨later, hlater, hrules⟩ := ih h
      exact ⟨later, List.mem_cons_of_mem _ hlater, hrules⟩

end Session
end RuleFlow
