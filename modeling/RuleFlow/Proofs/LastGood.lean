import RuleFlow.Builtin
import RuleFlow.Proofs.FieldEvents

/-!
# The value that a field carries

A field carries one value from rule to rule. Only the success of a rule that is not negated gives it
a new one (`Call.good?`); failures, silenced or not, and all that negated rules lead to leave it as
it was (`Step.value_ofCall`). So the calls of a run are threaded (`Threaded`): each is made with
what the calls before it gave last (`lastGood`), and a run that no mistake ends leaves what all its
calls gave last (`Setting.runRules_threaded`). Tests give nothing but the value that they are given.
-/

namespace RuleFlow

universe u

variable {κ : Type u}

/-! ## What calls give -/

/-- The value that a call gives its field: what its conformer made of the value, if the rule is not
negated. -/
def Call.good? (call : Call κ) : Option Json :=
  if call.rule.flags.negate then none else call.reply.result.toOption

/-- The value that calls gave last, or the one to start with if they gave none. -/
def lastGood (start : Json) (calls : List (Call κ)) : Json :=
  (calls.filterMap Call.good?).getLast?.getD start

/-- The value of a field after a rule. -/
def Flow.value : Flow → Json
  | .next value => value
  | .stop outcome => outcome.value

theorem Call.good?_eq_some_iff {call : Call κ} {v : Json} :
    call.good? = some v ↔ call.rule.flags.negate = false ∧ call.reply.result = .ok v := by
  unfold good?
  cases call.rule.flags.negate <;> cases call.reply.result <;> simp [Except.toOption]

@[simp] theorem lastGood_nil (start : Json) : lastGood start ([] : List (Call κ)) = start := rfl

theorem lastGood_cons (start : Json) (call : Call κ) (calls : List (Call κ)) :
    lastGood start (call :: calls) = lastGood (call.good?.getD start) calls := by
  unfold lastGood
  cases h : call.good? with
  | none => rw [List.filterMap_cons_none h]; rfl
  | some v => rw [List.filterMap_cons_some h, List.getLast?_cons]; rfl

/-- A failure leaves the value as it is, also if it breaks the field or the session. -/
theorem Flow.value_ofVerdict_fail (flags : Flags) (value : Json) (cause : Cause) :
    (ofVerdict flags value (.fail cause)).value = value := by
  rw [ofVerdict]
  split
  · rfl
  · split <;> rfl

/-- The value after a rule is what its call gave, or else the value that the call was made with. -/
theorem Step.value_ofCall (field : String) (call : Call κ) :
    (Step.ofCall field call).flow.value = call.good?.getD call.value := by
  rw [flow_ofCall, Call.good?]
  cases call.reply.result with
  | ok v =>
    cases call.rule.flags.negate with
    | false => rfl
    | true => exact Flow.value_ofVerdict_fail _ _ _
  | error failure =>
    cases call.rule.flags.negate with
    | false => exact Flow.value_ofVerdict_fail _ _ _
    | true => rfl

/-! ## Threaded calls -/

/-- Calls through which one value goes: what it is at the start, the calls, and what it is then. -/
inductive Threaded : Json → List (Call κ) → Json → Prop
  | nil (value : Json) : Threaded value [] value
  | cons (call : Call κ) {calls : List (Call κ)} {last : Json} :
    Threaded (call.good?.getD call.value) calls last → Threaded call.value (call :: calls) last

namespace Threaded

variable {start last : Json} {before later : List (Call κ)}

theorem last_eq {calls : List (Call κ)} (h : Threaded start calls last) :
    last = lastGood start calls := by
  induction h with
  | nil value => rw [lastGood_nil]
  | cons call _ ih => rw [ih, lastGood_cons]

theorem split (h : Threaded start (before ++ later) last) :
    ∃ mid, Threaded start before mid ∧ Threaded mid later last := by
  induction before generalizing start with
  | nil => exact ⟨start, .nil start, h⟩
  | cons call before ih =>
    cases h with
    | cons _ h =>
      obtain ⟨mid, hbefore, hlater⟩ := ih h
      exact ⟨mid, .cons call hbefore, hlater⟩

/-- A call is made with what the calls before it gave last. -/
theorem value_eq {call : Call κ} (h : Threaded start (before ++ call :: later) last) :
    call.value = lastGood start before := by
  obtain ⟨mid, hbefore, hlater⟩ := h.split
  rw [← hbefore.last_eq]
  cases hlater
  rfl

/-- Calls that give only what they are given leave the value as it is. -/
theorem value_eq_start {calls : List (Call κ)} (h : Threaded start calls last)
    (hkeep : ∀ call ∈ calls, ∀ v, call.good? = some v → v = call.value) :
    last = start ∧ ∀ call ∈ calls, call.value = start := by
  induction h with
  | nil value => exact ⟨rfl, List.forall_mem_nil _⟩
  | cons call _ ih =>
    obtain ⟨hcall, hcalls⟩ := List.forall_mem_cons.1 hkeep
    have hvalue : call.good?.getD call.value = call.value := by
      cases hg : call.good? with
      | none => rfl
      | some v => exact hcall v hg
    obtain ⟨hlast, hrest⟩ := ih hcalls
    rw [hvalue] at hlast hrest
    exact ⟨hlast, List.forall_mem_cons.2 ⟨rfl, hrest⟩⟩

end Threaded

/-! ## Runs -/

theorem Step.calls_ofCall (field : String) (call : Call κ) :
    Event.calls (Step.ofCall field call).events = [call] := by
  obtain ⟨told, he, hquiet⟩ := Step.events_ofCall field call
  have htold : Event.calls told = [] := List.filterMap_eq_nil_iff.2 fun e h => (hquiet e h).1
  rw [he, Event.calls_applied, htold]

/-- A test gives at most the value that it is given. -/
theorem Conformer.Tests.good_eq [Conformer κ] {c : κ} {holds : Json → List Json → Bool}
    (hc : Conformer.Tests c holds) {call : Call κ} {params : List Json} {view : View κ}
    (hreply : call.reply = Conformer.run c call.value params view) {v : Json}
    (hgood : call.good? = some v) : v = call.value := by
  obtain ⟨_, hresult⟩ := Call.good?_eq_some_iff.1 hgood
  rw [hreply, hc] at hresult
  cases hholds : holds call.value params with
  | true => rw [hholds] at hresult; cases hresult; rfl
  | false => rw [hholds] at hresult; cases hresult

namespace Setting

variable [Conformer κ] {s : Setting κ} {field : String}

/-- The calls of a run are threaded, and an outcome has the value that they leave. -/
theorem runRules_threaded (rules : List (Rule κ)) (value : Json) (a : State κ) :
    ∃ last, Threaded value (Event.calls (s.runRules field rules value a).events) last ∧
      ∀ outcome, (s.runRules field rules value a).result = .ok outcome → outcome.value = last := by
  induction rules generalizing value a with
  | nil =>
    refine ⟨value, .nil value, ?_⟩
    rintro _ ⟨⟩
    rfl
  | cons rule rules ih =>
    rcases s.rule_cases field rule value a with ⟨gate, hg⟩ | ⟨hg, ⟨e, ht⟩ | ⟨c, ht, hflow⟩⟩
    · rw [runRules_cons_of_closed hg]
      refine ⟨value, .nil value, ?_⟩
      rintro _ ⟨⟩
      rfl
    · rw [runRules_cons_of_unresolved hg ht]
      exact ⟨value, .nil value, nofun⟩
    · have hvalue := Step.value_ofCall field (s.call field rule c value a)
      have hcalls := Step.calls_ofCall field (s.call field rule c value a)
      rcases hflow with ⟨outcome, hf⟩ | ⟨v, hf⟩
      · rw [runRules_cons_of_stop hg ht hf, hcalls]
        refine ⟨outcome.value, ?_, ?_⟩
        · rw [hf, Flow.value] at hvalue
          rw [hvalue]
          exact .cons (s.call field rule c value a) (.nil _)
        · rintro _ ⟨⟩
          rfl
      · obtain ⟨last, hthreaded, houtcome⟩ :=
          ih v (Step.ofCall field (s.call field rule c value a)).state
        rw [runRules_cons_of_next hg ht hf, Run.events_after, Run.result_after, Event.calls_append,
          hcalls]
        rw [hf, Flow.value] at hvalue
        refine ⟨last, ?_, houtcome⟩
        rw [hvalue] at hthreaded
        rw [hvalue]
        exact .cons (s.call field rule c value a) hthreaded

/-- The rules that call their conformers are the first ones of the field, in order. -/
theorem rules_calls_runRules_prefix (s : Setting κ) (field : String) (rules : List (Rule κ))
    (value : Json) (a : State κ) :
    (Event.calls (s.runRules field rules value a).events).map (·.rule) <+: rules := by
  obtain ⟨applied, later, told, closing, hrules, hevents, happlied, _, hcloses⟩ :=
    s.runRules_closes field rules value a
  rw [hevents, Event.calls_append, hcloses.calls_eq_nil, List.append_nil, happlied, hrules]
  exact List.prefix_append applied later

theorem runField_threaded (s : Setting κ) (field : String) (own : Rules κ) (a : State κ) :
    ∃ last, Threaded (s.fieldValue field) (Event.calls (s.runField field own a).events) last ∧
      ∀ outcome, (s.runField field own a).result = .ok outcome → outcome.value = last := by
  cases hown : own.compile with
  | error e =>
    rw [runField_of_error hown]
    refine ⟨_, .nil _, fun outcome hok => ?_⟩
    cases hok
  | ok rules =>
    rw [runField_of_ok hown]
    exact runRules_threaded rules _ (a.start field)

theorem call_of_mem_calls_runField {own : Rules κ} {a : State κ} {call : Call κ}
    (h : call ∈ Event.calls (s.runField field own a).events) :
    s.target call.rule.target = .ok call.conformer ∧
      call.reply = Conformer.run call.conformer call.value call.rule.params call.view := by
  have hpath := @runField_path κ _ s (fun _ => True) field trivial own a
  exact hpath.answer_of_mem_calls h

/-- A call for a rule that is negated or targets a test gives at most the value it is made with. -/
theorem good_eq_of_mem_calls_runField {own : Rules κ} {rules : List (Rule κ)} {a : State κ}
    (hown : own.compile = .ok rules)
    (hrules : ∀ rule ∈ rules, rule.flags.negate = true ∨
      ∀ c, s.target rule.target = .ok c → ∃ holds, Conformer.Tests c holds)
    {call : Call κ} (h : call ∈ Event.calls (s.runField field own a).events) {v : Json}
    (hgood : call.good? = some v) : v = call.value := by
  obtain ⟨htarget, hreply⟩ := call_of_mem_calls_runField h
  rw [runField_of_ok hown] at h
  have hrule : call.rule ∈ rules :=
    (s.rules_calls_runRules_prefix field rules _ _).subset (List.mem_map_of_mem h)
  rcases hrules call.rule hrule with hnegate | htests
  · rw [(Call.good?_eq_some_iff.1 hgood).1] at hnegate
    cases hnegate
  · obtain ⟨holds, hc⟩ := htests _ htarget
    exact hc.good_eq hreply hgood

/-- **A field carries its last good value.** Run a field in any setting and any state. Each rule
that is applied calls its conformer with what the calls before it gave last, that is, with the
answer of the last one that succeeded for a rule that is not negated; if there is none, with what
the input has at the name of the field, or null if it has nothing there. The outcome, if no mistake
ends the run, has the value that all its calls gave last. So if all rules are negated or call tests,
whatever other flags they have, all are called with the input value and the outcome has it too, and
there is an outcome if all targets are found. -/
theorem runField_carries_last_good (s : Setting κ) (field : String) (own : Rules κ) (a : State κ) :
    let run := s.runField field own a
    let calls := Event.calls run.events
    let start := (s.input.lookup? field).getD .null
    (∀ before call later, calls = before ++ call :: later →
      call.value = lastGood start before ∧
      call.reply = Conformer.run call.conformer call.value call.rule.params call.view) ∧
    (∀ outcome, run.result = .ok outcome → outcome.value = lastGood start calls) ∧
    (∀ rules, own.compile = .ok rules →
      (∀ rule ∈ rules, rule.flags.negate = true ∨
        ∀ c, s.target rule.target = .ok c → ∃ holds, Conformer.Tests c holds) →
      (∀ call ∈ calls, call.value = start) ∧
      (∀ outcome, run.result = .ok outcome → outcome.value = start) ∧
      ((∀ rule ∈ rules, ∃ c, s.target rule.target = .ok c) →
        ∃ outcome, run.result = .ok outcome)) := by
  intro run calls start
  obtain ⟨last, hthreaded, houtcome⟩ := s.runField_threaded field own a
  refine ⟨?_, ?_, ?_⟩
  · intro before call later hcalls
    have hmem : call ∈ calls := by
      rw [hcalls]
      exact List.mem_append_right before List.mem_cons_self
    simp only [calls, run] at hcalls
    rw [hcalls] at hthreaded
    exact ⟨hthreaded.value_eq, (call_of_mem_calls_runField hmem).2⟩
  · intro outcome hok
    rw [houtcome outcome hok, hthreaded.last_eq]
    rfl
  · intro rules hown hrules
    obtain ⟨hlast, hvalues⟩ := hthreaded.value_eq_start
      fun call hmem v => good_eq_of_mem_calls_runField hown hrules hmem
    refine ⟨hvalues, ?_, ?_⟩
    · intro outcome hok
      rw [houtcome outcome hok, hlast]
      rfl
    · intro htargets
      simp only [run, runField_of_ok hown]
      exact exists_outcome_runRules htargets field start (a.start field)

/-- Of two successes the one for a negated rule is not carried on, nor is a silenced failure. -/
example :
    let append : Builtin := ⟨0, "append", .append "b"⟩
    let reject : Builtin := ⟨1, "reject", .reject {}⟩
    let s : Session Builtin := .new (.object [("a", .string "a")]) .empty
    let rules : Rules Builtin := .list [.inline "" (.inline append) [],
      .inline "~" (.inline append) [], .inline "?" (.inline reject) []]
    (s.runField "a" rules).result = .ok (.complete (.string "ab")) := rfl

end Setting
end RuleFlow
