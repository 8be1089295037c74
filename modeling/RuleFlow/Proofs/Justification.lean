import RuleFlow.Proofs.Places

/-!
# Why a record is made

A record is justified (`Record.Justified`) if its rule is one that records failures and its cause is
the one that the rule can have: success of the conformer for a negated rule, and failure for any
other. All that calls lead to is justified (`Record.justified_of_mem_records`), and so are the
records of a session at all moments. What is recorded while a record is conformed stands in the order
of declaration, each rule at most once.
-/

namespace RuleFlow

universe u

variable {κ : Type u}

/-- What makes a failure a record: the rule is not optional, and it was the success of its conformer
just if the rule is negated. -/
structure Record.Justified (r : Record κ) : Prop where
  not_optional : r.rule.flags.optional = false
  negated_iff : r.cause = .negated ↔ r.rule.flags.negate = true

theorem Verdict.negated_iff_of_fail {negate : Bool} {result : Except Failure Json} {cause : Cause}
    (h : of negate result = .fail cause) : cause = .negated ↔ negate = true := by
  cases result <;> cases negate <;> cases h
  · exact ⟨nofun, nofun⟩
  · exact ⟨fun _ => rfl, fun _ => rfl⟩

theorem Record.justified_of_mem_records {events : List (Event κ)} {r : Record κ}
    (h : r ∈ Event.records events) : r.Justified := by
  obtain ⟨field, call, _, hr⟩ := Event.mem_records.1 h
  obtain ⟨cause, hverdict, hoptional, rfl⟩ := Call.record?_eq_some_iff.1 hr
  exact ⟨hoptional, Verdict.negated_iff_of_fail hverdict⟩

/-! ## Runs and sessions -/

/-- All records of a state are justified. -/
def State.Justified (a : State κ) : Prop := ∀ r ∈ a.errors, r.Justified

theorem State.justified_empty : (empty : State κ).Justified := fun _ h => nomatch h

section
variable [Conformer κ] {s : Setting κ} {on : String → Prop} {a b : State κ} {es : List (Event κ)}

theorem Setting.Move.justified (h : s.Move on a es b) (ha : a.Justified) : b.Justified := by
  intro r hr
  rw [h.errors, List.mem_append] at hr
  rcases hr with hr | hr
  · exact ha r hr
  · exact Record.justified_of_mem_records hr

end

namespace Session

variable [Conformer κ]

theorem perform_justified {s : Session κ} (hs : s.state.Justified) (command : Command κ) :
    ∀ a ∈ Event.seen (s.perform command).events ++ [(s.perform command).session.state],
      a.Justified :=
  perform_forall_seen State.justified_empty Setting.Move.justified hs command

theorem performAll_justified {s : Session κ} (hs : s.state.Justified)
    (commands : List (Command κ)) : (s.performAll commands).state.Justified :=
  performAll_keeps State.justified_empty Setting.Move.justified hs commands

/-- **Every record is justified and in order.** After any commands, and whenever the next command
calls a conformer, no record is one of an optional rule, and the cause of a record is that the
conformer succeeded just if the rule is negated. When a record has been conformed, also if a mistake
ended it, fields and rules of the records follow the declared fields and rules in their order; each
record has a place there, and no two have the same. -/
theorem errors_justified (input : Json) (registry : Registry κ) (commands : List (Command κ)) :
    let s := (new input registry).performAll commands
    (∀ r ∈ s.state.errors, r.Justified) ∧
    (∀ command, ∀ a ∈ Event.seen (s.perform command).events, ∀ r ∈ a.errors, r.Justified) ∧
    (∀ rules, let run := s.conform rules
      (run.state.errors.map fun r => (r.field, r.rule)).Sublist
        (rules.places.map fun p => (p.field, p.rule)) ∧
      run.state.errors = (Event.placedRecords run.events).map (·.record) ∧
      ((Event.placedRecords run.events).map PlacedRecord.place).Sublist rules.places ∧
      ((Event.placedRecords run.events).map fun r => (r.record.field, r.position)).Nodup) := by
  intro s
  have hs : s.state.Justified := performAll_justified State.justified_empty commands
  refine ⟨hs, ?_, ?_⟩
  · intro command a ha
    exact perform_justified hs command a (List.mem_append_left _ ha)
  · intro rules run
    have herrors : run.state.errors = (Event.placedRecords run.events).map (·.record) :=
      s.toSetting.errors_conform_eq_placedRecords rules s.state
    have hplaces : ((Event.placedRecords run.events).map PlacedRecord.place).Sublist rules.places :=
      s.toSetting.placedRecords_conform_sublist rules s.state
    refine ⟨?_, herrors, hplaces, ?_⟩
    · have hpairs := hplaces.map fun p => (p.field, p.rule)
      rw [List.map_map] at hpairs
      rw [herrors, List.map_map]
      exact hpairs
    · have hpositions := hplaces.map fun p => (p.field, p.position)
      rw [List.map_map] at hpositions
      exact rules.nodup_places.sublist hpositions

end Session
end RuleFlow
