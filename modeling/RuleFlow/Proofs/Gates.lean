import RuleFlow.Builtin
import RuleFlow.Proofs.Output
import RuleFlow.Proofs.Places
import RuleFlow.Proofs.Records

/-!
# Gates

A rule with a gate is called only if the gate is open in the state that the conformer sees
(`Path.of_mem_applied`, `Gate.closed?_eq_none_iff`), and at a closed gate the run of the field ends
as it is (`runField_of_closed`). So a call behind a gate is the first to be recorded: if all rules
have the gate over all records, a run records at most once (`Move.errors_length_le_one`), and if all
have one of the gates, at most once in each field (`Move.errorsFor_length_le_one`).
-/

namespace RuleFlow

universe u

variable {κ : Type u}

/-! ## When a gate is closed -/

namespace Gate

variable {flags : Flags} {field : String} {a : State κ}

theorem closed?_eq_none_iff : closed? flags field a = none ↔
    (flags.continuity = true → a.errorsFor field = []) ∧
    (flags.fullContinuity = true → a.errors = []) := by
  unfold closed? State.hasErrors
  cases flags.continuity <;> cases flags.fullContinuity <;> cases a.errorsFor field <;>
    cases a.errors <;> simp

theorem exists_closed?_iff : (∃ gate, closed? flags field a = some gate) ↔
    flags.continuity = true ∧ a.errorsFor field ≠ [] ∨
    flags.fullContinuity = true ∧ a.errors ≠ [] := by
  rw [← Option.isSome_iff_exists, Option.isSome_iff_ne_none, Ne, closed?_eq_none_iff,
    Classical.not_and_iff_not_or_not, Classical.not_imp, Classical.not_imp]

end Gate

namespace Setting

variable [Conformer κ] {s : Setting κ} {on : String → Prop} {a b : State κ} {es : List (Event κ)}

/-! ## At a closed gate -/

/-- Where the rules before have all been run, a closed gate ends the field with the value and the
state that they leave. -/
theorem runField_of_closed {field : String} {own : Rules κ} {before later : List (Rule κ)}
    {rule : Rule κ} {value : Json} {gate : Gate} (h : own.compile = .ok (before ++ rule :: later))
    (hprior : (s.runRules field before (s.fieldValue field) (a.start field)).result =
      .ok (.complete value))
    (hg : Gate.closed? rule.flags field
      (s.runRules field before (s.fieldValue field) (a.start field)).state = some gate) :
    s.runField field own a =
      ⟨.ok (.fieldBreak value),
        (s.runRules field before (s.fieldValue field) (a.start field)).state,
        (s.runRules field before (s.fieldValue field) (a.start field)).events ++
          [.skipped field rule gate]⟩ := by
  rw [runField_of_ok h, runRules_append_of_complete hprior, runRules_cons_of_closed hg]
  rfl

/-! ## What is recorded behind gates -/

/-- A move records at most once, namely what a call leads to that saw the state before the move. -/
theorem Move.records_cases (h : s.Move on a es b) : Event.records es = [] ∨
    ∃ field call r, .applied field call ∈ es ∧ call.view.state = a ∧
      call.record? field = some r ∧ Event.records es = [r] := by
  cases h with
  | @rule field rule c _ value _ _ _ =>
    rw [Step.records_ofCall]
    cases hr : (s.call field rule c value a).record? field with
    | none => exact .inl rfl
    | some r => exact .inr ⟨field, _, r, List.mem_cons_self, rfl, hr, rfl⟩
  | _ => exact .inl rfl

theorem Move.errors_length_le_one (h : s.Move on a es b)
    (hcalls : ∀ call ∈ Event.calls es, call.rule.flags.fullContinuity = true)
    (ha : a.errors.length ≤ 1) : b.errors.length ≤ 1 := by
  rw [h.errors]
  rcases h.records_cases with hnil | ⟨field, call, r, he, rfl, hr, hone⟩
  · rw [hnil, List.append_nil]
    exact ha
  · -- The gate was open, so that nothing had been recorded before.
    obtain ⟨_, hg, _⟩ := h.of_mem_applied he
    have hflag := hcalls call (Event.mem_calls.2 ⟨field, he⟩)
    have hempty := (Gate.closed?_eq_none_iff.1 hg).2 hflag
    rw [hempty, hone]
    exact Nat.le_refl 1

theorem Move.errorsFor_length_le_one (h : s.Move on a es b)
    (hcalls : ∀ call ∈ Event.calls es,
      call.rule.flags.continuity = true ∨ call.rule.flags.fullContinuity = true)
    (ha : a.Indexed ∧ ∀ f, (a.errorsFor f).length ≤ 1) :
    b.Indexed ∧ ∀ f, (b.errorsFor f).length ≤ 1 := by
  obtain ⟨hindexed, hone⟩ := ha
  refine ⟨h.indexed hindexed, fun f => ?_⟩
  rw [(h.indexed hindexed).errorsFor_eq, h.errors, List.filter_append, ← hindexed.errorsFor_eq]
  rcases h.records_cases with hnil | ⟨field, call, r, he, rfl, hr, hrecords⟩
  · rw [hnil, List.filter_nil, List.append_nil]
    exact hone f
  · rw [hrecords]
    by_cases hf : r.field = f
    · obtain ⟨_, hg, _⟩ := h.of_mem_applied he
      obtain ⟨hown, hall⟩ := Gate.closed?_eq_none_iff.1 hg
      have hfield : field = f := (Call.field_record? hr).symm.trans hf
      have hempty : call.view.state.errorsFor f = [] := by
        rcases hcalls call (Event.mem_calls.2 ⟨field, he⟩) with hflag | hflag
        · exact hfield ▸ hown hflag
        · rw [hindexed.errorsFor_eq, hall hflag, List.filter_nil]
      rw [hempty, List.nil_append]
      exact List.length_filter_le _ _
    · rw [List.filter_cons_of_neg (by simpa using hf), List.filter_nil, List.append_nil]
      exact hone f

end Setting

/-! ## Sessions -/

/-- **The gates are never passed by.** After any commands, each rule that a command applies has its
gates open where its conformer sees the state: with `&` no error of its field, with `&&` no error at
all is recorded. In the run of a field from any state, where the rules before have been run and the
gate of the next rule is closed, the field breaks with the current value in the state as it is; this
is so for any target of that rule, and nothing follows but the event that tells of it. So a record
whose rules all have `&&` gets at most one error, and one whose rules all have a gate gets at most
one for each field. -/
theorem Session.gates_hold [Conformer κ] (input : Json) (registry : Registry κ)
    (commands : List (Command κ)) :
    let s := (new input registry).performAll commands
    (∀ command field call, .applied field call ∈ (s.perform command).events →
      (call.rule.flags.continuity = true → call.view.state.errorsFor field = [] ∧
        ∀ r ∈ call.view.state.errors, r.field ≠ field) ∧
      (call.rule.flags.fullContinuity = true → call.view.state.errors = [])) ∧
    (∀ field own a before rule later value, own.compile = .ok (before ++ rule :: later) →
      let prior := s.toSetting.runRules field before (s.fieldValue field) (a.start field)
      prior.result = .ok (.complete value) →
      (rule.flags.continuity = true ∧ prior.state.errorsFor field ≠ [] ∨
        rule.flags.fullContinuity = true ∧ prior.state.errors ≠ []) →
      ∃ gate, s.toSetting.runField field own a =
        ⟨.ok (.fieldBreak value), prior.state, prior.events ++ [.skipped field rule gate]⟩) ∧
    (∀ rules : RuleMap κ, (∀ p ∈ rules.places, p.rule.flags.fullContinuity = true) →
      (s.conform rules).state.errors.length ≤ 1) ∧
    (∀ rules : RuleMap κ, (∀ p ∈ rules.places,
        p.rule.flags.continuity = true ∨ p.rule.flags.fullContinuity = true) →
      ∀ field, ((s.conform rules).state.errorsFor field).length ≤ 1) := by
  intro s
  have hs : s.state.Indexed := performAll_indexed State.indexed_empty commands
  refine ⟨?_, ?_, ?_, ?_⟩
  · intro command field call he
    obtain ⟨_, hg, _⟩ := (s.perform_path command).of_mem_applied he
    obtain ⟨hown, hall⟩ := Gate.closed?_eq_none_iff.1 hg
    refine ⟨fun hflag => ⟨hown hflag, ?_⟩, hall⟩
    have hseen : call.view.state ∈ Event.seen (s.perform command).events :=
      List.mem_map_of_mem (Event.mem_calls.2 ⟨field, he⟩)
    have hindexed := perform_indexed hs command _ (List.mem_append_left _ hseen)
    intro r hr hfield
    have hnone := hown hflag
    rw [hindexed.errorsFor_eq, List.filter_eq_nil_iff] at hnone
    exact hnone r hr (decide_eq_true hfield)
  · intro field own a before rule later value hcompile prior hprior hclosed
    obtain ⟨gate, hg⟩ := Gate.exists_closed?_iff.2 hclosed
    exact ⟨gate, Setting.runField_of_closed hcompile hprior hg⟩
  · intro rules hrules
    apply (s.toSetting.path_conform rules s.state).keeps Setting.Move.errors_length_le_one
    · intro call hcall
      obtain ⟨p, hp, hrule⟩ := s.toSetting.exists_place_of_mem_calls_conform rules s.state hcall
      exact hrule ▸ hrules p hp
    · exact Nat.zero_le 1
  · intro rules hrules
    refine ((s.toSetting.path_conform rules s.state).keeps
      Setting.Move.errorsFor_length_le_one ?_ ?_).2
    · intro call hcall
      obtain ⟨p, hp, hrule⟩ := s.toSetting.exists_place_of_mem_calls_conform rules s.state hcall
      exact hrule ▸ hrules p hp
    · exact ⟨State.indexed_empty, fun _ => Nat.zero_le 1⟩

/-- Behind a closed gate an unknown path is no mistake. -/
example :
    let reject : Builtin := ⟨0, "reject", .reject {}⟩
    let rules : RuleMap Builtin := .ofList
      [("a", .list [.inline "" (.inline reject) []]), ("b", .list [.inline "&&" (.path "x") []])]
    Event.endings ((Session.new (.object []) .empty).conform rules).events =
      [("a", .complete .null), ("b", .fieldBreak .null)] := rfl

end RuleFlow
