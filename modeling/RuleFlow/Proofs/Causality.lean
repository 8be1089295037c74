import RuleFlow.Builtin
import RuleFlow.Proofs.Records
import RuleFlow.Proofs.Output

/-!
# What conforming a record depends on

Nothing that comes later counts: fields behind others never change what these do. They are not even
read once the run is stopped (`conform_append_of_stopped`), and else go on from the state that the
others leave (`conform_append_of_not_stopped`). Nothing that came before counts either: a record is
conformed as the input and the registry say (`perform_conform_congr`), and commands change of these
only the registry, by the conformers that they add (`performAll_toSetting`).
-/

namespace RuleFlow

universe u

variable {κ : Type u}

/-! ## Later fields -/

namespace Setting

variable [Conformer κ] {s : Setting κ} {rules later : RuleMap κ} {a : State κ}

theorem runFields_keys_path (rules : RuleMap κ) (a : State κ) :
    s.Path (· ∈ rules.keys) a (s.runFields rules.entries a).events
      (s.runFields rules.entries a).state :=
  runFields_path rules.entries (fun _ he => List.mem_map_of_mem he) a

/-- The run of the fields of a map: the records go on by records of its fields, and no key of the
output leaves its place. -/
theorem runFields_extends (rules : RuleMap κ) (a : State κ) :
    a.Extends (· ∈ rules.keys) (s.runFields rules.entries a).state :=
  runFields_extends_keys rules.entries a

theorem runFields_keys_prefix (rules : RuleMap κ) (a : State κ) :
    a.output.keys <+: (s.runFields rules.entries a).state.output.keys := by
  rw [(runFields_keys_path (s := s) rules a).output]
  exact OrderedMap.keys_prefix_insertAll _ _

/-- Fields behind a run that is stopped count for nothing, whatever they are. -/
theorem conform_append_of_stopped {h : ∀ field ∈ rules.keys, field ∉ later.keys}
    (hstop : (s.conform rules a).Stopped) :
    (s.conform (rules.append later h) a).result = (s.conform rules a).result ∧
    (s.conform (rules.append later h) a).state = (s.conform rules a).state ∧
    Event.calls (s.conform (rules.append later h) a).events =
      Event.calls (s.conform rules a).events := by
  rw [stopped_conform_iff] at hstop
  have hrun : s.runFields (rules.append later h).entries .empty =
      s.runFields rules.entries .empty := by
    rw [OrderedMap.entries_append, runFields_append_of_stopped hstop]
  refine ⟨?_, ?_, ?_⟩
  · rw [result_conform, hrun, result_conform]
  · rw [state_conform, hrun, state_conform]
  · rw [calls_conform, hrun, calls_conform]

/-- Fields behind a run that is not stopped go on from the state that it leaves. -/
theorem conform_append_of_not_stopped {h : ∀ field ∈ rules.keys, field ∉ later.keys}
    (hgo : ¬ (s.conform rules a).Stopped) :
    let rest := s.runFields later.entries (s.conform rules a).state
    (s.conform (rules.append later h) a).result = rest.result.map (fun _ => rest.state.output) ∧
    (s.conform (rules.append later h) a).state = rest.state ∧
    Event.calls (s.conform (rules.append later h) a).events =
      Event.calls (s.conform rules a).events ++ Event.calls rest.events := by
  intro rest
  rw [stopped_conform_iff] at hgo
  have hrun : s.runFields (rules.append later h).entries .empty =
      rest.after (s.runFields rules.entries .empty).events := by
    rw [OrderedMap.entries_append, runFields_append_of_not_stopped hgo, ← state_conform s rules a]
  refine ⟨?_, ?_, ?_⟩
  · rw [result_conform, hrun, Run.result_after, Run.state_after]
  · rw [state_conform, hrun, Run.state_after]
  · rw [calls_conform, hrun, Run.events_after, Event.calls_append, calls_conform]

end Setting

/-- **Fields depend on nothing behind them.** If conforming by some rules is stopped, by a mistake
or by a break of the session, rules of further fields behind them change neither the result nor the
state that is left, and call nothing. Else the further fields are run from the very state that
conforming by the first rules leaves; so its records and the keys of its output stay in front, and
the records of its fields stay as they are. -/
theorem Session.conform_append [Conformer κ] (s : Session κ) (rules later : RuleMap κ)
    (h : ∀ field ∈ rules.keys, field ∉ later.keys) :
    let run := s.conform rules
    let both := s.conform (rules.append later h)
    let rest := s.toSetting.runFields later.entries run.state
    (run.Stopped → both.result = run.result ∧ both.state = run.state ∧
      Event.calls both.events = Event.calls run.events) ∧
    (¬ run.Stopped → both.result = rest.result.map (fun _ => rest.state.output) ∧
      both.state = rest.state ∧
      Event.calls both.events = Event.calls run.events ++ Event.calls rest.events ∧
      run.state.errors <+: both.state.errors ∧
      (∀ field ∈ rules.keys, both.state.errorsFor field = run.state.errorsFor field) ∧
      run.state.output.keys <+: both.state.output.keys) := by
  intro run both rest
  refine ⟨fun hstop => Setting.conform_append_of_stopped hstop, fun hgo => ?_⟩
  obtain ⟨hresult, hstate, hcalls⟩ := Setting.conform_append_of_not_stopped (h := h) hgo
  have hextends : run.state.Extends (· ∈ later.keys) rest.state :=
    Setting.runFields_extends later run.state
  refine ⟨hresult, hstate, hcalls, ?_, ?_, ?_⟩
  · exact hstate ▸ hextends.errors_prefix
  · intro field hfield
    exact hstate ▸ hextends.errorsFor field (h field hfield)
  · exact hstate ▸ Setting.runFields_keys_prefix later run.state

/-- Behind a field that breaks the session a malformed rule is not even read. -/
theorem Session.conform_append_malformed :
    let reject : Builtin := ⟨0, "reject", .reject {}⟩
    let rules : RuleMap Builtin := .ofList [("a", .list [.inline "!!" (.inline reject) []])]
    let later : RuleMap Builtin := .ofList [("b", .text "?!")]
    let s : Session Builtin := .new (.object []) .empty
    (s.conform later).result = .error (.malformedRule "?!" (.missingPath 3)) ∧
    ∃ h : ∀ field ∈ rules.keys, field ∉ later.keys,
      (s.conform (rules.append later h)).result = (s.conform rules).result ∧
      (s.conform (rules.append later h)).state = (s.conform rules).state := by
  intro reject rules later s
  have h : ∀ field ∈ rules.keys, field ∉ later.keys := by decide
  have hends : Event.endings (s.conform rules).events = [("a", .sessionBreak .null)] := rfl
  have hstop : (s.conform rules).Stopped :=
    .inr ⟨"a", .null, hends ▸ List.mem_singleton_self _⟩
  obtain ⟨hresult, hstate, _⟩ := (Session.conform_append s rules later h).1 hstop
  exact ⟨rfl, h, hresult, hstate⟩

/-! ## Earlier commands -/

/-- The conformer that a command adds to the registry. -/
def Command.addition? : Command κ → Option (String × κ)
  | .addConformer path c => some (path, c)
  | _ => none

/-- The registry with these conformers put in, one after the other. -/
def Registry.insertAll (r : Registry κ) (es : List (String × κ)) : Registry κ :=
  es.foldl (fun r e => r.insert e.1 e.2) r

namespace Session

variable [Conformer κ]

/-- Commands change nothing of the setting but add their conformers to the registry. -/
theorem performAll_toSetting (s : Session κ) (commands : List (Command κ)) :
    (s.performAll commands).toSetting =
      ⟨s.input, s.registry.insertAll (commands.filterMap Command.addition?)⟩ := by
  induction commands generalizing s with
  | nil => rfl
  | cons command commands ih =>
    cases command with
    | addConformer path c => exact ih _
    | _ => exact ih _

/-- What conforming answers, leaves and tells is fixed by the input and the registry. -/
theorem perform_conform_congr {s t : Session κ} (h : s.toSetting = t.toSetting)
    (rules : RuleMap κ) : s.perform (.conform rules) = t.perform (.conform rules) := by
  obtain ⟨setting, a⟩ := s
  obtain ⟨_, b⟩ := t
  cases h
  rfl

/-- **Conforming forgets the past.** Two sessions over one input and one registry conform a record
alike, whatever they did before: they answer the same, leave the same and tell the same. So doing it
again changes nothing, and after any commands it is done as in a new session that has the conformers
that the commands added. -/
theorem conform_forgets (s t : Session κ) (hinput : s.input = t.input)
    (hregistry : s.registry = t.registry) (rules : RuleMap κ) :
    s.perform (.conform rules) = t.perform (.conform rules) ∧
    (s.perform (.conform rules)).session.perform (.conform rules) = s.perform (.conform rules) ∧
    ∀ past, (s.performAll past).perform (.conform rules) =
      (new t.input (t.registry.insertAll (past.filterMap Command.addition?))).perform
        (.conform rules) := by
  refine ⟨perform_conform_congr ?_ rules, perform_conform_congr rfl rules, fun past => ?_⟩
  · -- A setting is its input and its registry.
    obtain ⟨⟨input, registry⟩, a⟩ := s
    cases hinput
    cases hregistry
    rfl
  · refine perform_conform_congr ?_ rules
    rw [performAll_toSetting, hinput, hregistry]
    rfl

/-- An error that an earlier run left closes no gate. -/
theorem conform_forgets_error :
    let reject : Builtin := ⟨0, "reject", .reject {}⟩
    let pass : Builtin := ⟨1, "pass", .pass⟩
    let rules : RuleMap Builtin := .ofList [("b", .list [.inline "&&" (.inline pass) []])]
    let s : Session Builtin := .new (.object []) .empty
    let t := (s.perform (.runField "a" (.list [.inline "" (.inline reject) []]))).session
    t.state.errors.length = 1 ∧ s.input = t.input ∧ s.registry = t.registry ∧
      s.perform (.conform rules) = t.perform (.conform rules) := by
  intro reject pass rules s t
  exact ⟨rfl, rfl, rfl, (conform_forgets s t rfl rfl rules).1⟩

end Session
end RuleFlow
