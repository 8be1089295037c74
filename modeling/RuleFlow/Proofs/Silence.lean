import RuleFlow.Builtin
import RuleFlow.Proofs.Reading
import RuleFlow.Proofs.Records
import RuleFlow.Proofs.SideBySide

/-!
# Silenced rules

Setting the `?` of a rule silences it: its failures are no longer recorded. Where no rule has a gate
and no conformer looks at the records, a rule and the silenced one go the same way
(`Rule.Unguarded.alike_silence`), for neither the value that is passed on nor a break depends on
whether a failure is recorded. So any rules of a map can be silenced and a record is conformed as
before; only the records of these rules are missing (`Session.conform_silenced`).
-/

namespace RuleFlow

universe u

variable {κ : Type u}

/-! ## Silencing -/

/-- The rule, silenced if `quiet`. -/
def Rule.silence (rule : Rule κ) (quiet : Bool) : Rule κ :=
  { rule with flags := { rule.flags with optional := rule.flags.optional || quiet } }

/-- Two maps of the same rules, of which the second one has those at the `quiet` places silenced. -/
def RuleMap.Silenced (quiet : String → Nat → Bool) : RuleMap κ → RuleMap κ → Prop :=
  Paired fun field n rule rule' => rule' = rule.silence (quiet field n)

/-- The rules of a field, silenced at the `quiet` positions, if `n` rules stand before them. -/
def Rule.silenceAll (quiet : Nat → Bool) : Nat → List (Rule κ) → List (Rule κ)
  | _, [] => []
  | n, rule :: rules => rule.silence (quiet n) :: silenceAll quiet (n + 1) rules

theorem Rule.paired_silenceAll (quiet : Nat → Bool) (n : Nat) (rules : List (Rule κ)) :
    Paired (fun n rule rule' => rule' = rule.silence (quiet n)) n rules
      (silenceAll quiet n rules) := by
  induction rules generalizing n with
  | nil => exact .nil
  | cons rule rules ih => exact .cons rfl (ih (n + 1))

/-- The map with the rules at the `quiet` places silenced. -/
def RuleMap.silence (rules : RuleMap κ) (quiet : String → Nat → Bool) : RuleMap κ where
  entries := rules.entries.map fun e =>
    (e.1, .ofRules (Rule.silenceAll (quiet e.1) 0 e.2.compiled))
  nodup := by
    rw [Entries.keys, List.map_map]
    exact rules.nodup

/-- Rules that can be read can be silenced at any places. -/
theorem RuleMap.silenced_silence {rules : RuleMap κ}
    (h : ∀ e ∈ rules.entries, ∃ own, e.2.compile = .ok own) (quiet : String → Nat → Bool) :
    Silenced quiet rules (rules.silence quiet) := by
  apply List.forall₂_map_right_iff.2
  refine List.forall₂_same.2 fun e he => ?_
  obtain ⟨own, hown⟩ := h e he
  refine ⟨rfl, own, _, hown, Rules.compile_ofRules _, ?_⟩
  rw [Rules.compiled_of_ok hown]
  exact Rule.paired_silenceAll (quiet e.1) 0 own

/-! ## Calls of silenced rules -/

/-- A call made again for the rule that is silenced at the `quiet` places: the same conformer is
called with the same value at the same place, and answers the same. -/
structure PlacedCall.Repeated (quiet : String → Nat → Bool) (c c' : PlacedCall κ) : Prop where
  field : c'.field = c.field
  position : c'.position = c.position
  conformer : c'.call.conformer = c.call.conformer
  value : c'.call.value = c.call.value
  reply : c'.call.reply = c.call.reply
  rule : c'.call.rule = c.call.rule.silence (quiet c.field c.position)

theorem Call.record?_of_silence {call call' : Call κ} {quiet : Bool}
    (hreply : call'.reply = call.reply) (hrule : call'.rule = call.rule.silence quiet)
    (field : String) :
    call'.record? field = if quiet then none else call.record? field := by
  cases quiet with
  | false =>
    -- Nothing is silenced, so that the two calls are made for one rule.
    have hsame : call'.rule = call.rule := by
      rw [hrule, Rule.silence, Bool.or_false]
    exact record?_congr (congrArg Reply.result hreply) hsame field
  | true =>
    have hoptional : call'.rule.flags.optional = true := by
      rw [hrule, Rule.silence, Bool.or_true]
    unfold record?
    rw [hoptional]
    split <;> rfl

theorem PlacedCall.Repeated.record? {quiet : String → Nat → Bool} {c c' : PlacedCall κ}
    (h : Repeated quiet c c') :
    c'.record? = c.record?.filter fun r => !quiet r.record.field r.position := by
  unfold PlacedCall.record?
  rw [h.field, h.position, Call.record?_of_silence h.reply h.rule]
  cases hr : c.call.record? c.field with
  | none => cases quiet c.field c.position <;> rfl
  | some r =>
    have hfield : r.field = c.field := Call.field_record? hr
    cases hq : quiet c.field c.position <;> simp [Option.filter, hfield, hq]

/-- Calls that are made again lead to the same records, without those of the silenced rules. -/
theorem PlacedCall.filterMap_record?_of_repeated {quiet : String → Nat → Bool}
    {cs cs' : List (PlacedCall κ)} (h : List.Forall₂ (Repeated quiet) cs cs') :
    cs'.filterMap PlacedCall.record? =
      (cs.filterMap PlacedCall.record?).filter fun r => !quiet r.record.field r.position := by
  rw [List.filter_filterMap]
  induction h with
  | nil => rfl
  | cons hc _ ih => rw [List.filterMap_cons, List.filterMap_cons, hc.record?, ih]

/-! ## Two rules -/

/-- A rule without gates that calls no conformer that looks at the records. -/
structure Rule.Unguarded [Conformer κ] (s : Setting κ) (rule : Rule κ) : Prop where
  continuity : rule.flags.continuity = false
  fullContinuity : rule.flags.fullContinuity = false
  ignores : ∀ c, s.target rule.target = .ok c → Conformer.IgnoresRecords c

theorem Gate.closed?_of_no_gates {flags : Flags} (hown : flags.continuity = false)
    (hall : flags.fullContinuity = false) (field : String) (a : State κ) :
    closed? flags field a = none := by
  simp only [closed?, hown, hall, Bool.false_eq_true, false_and, if_false]

theorem State.link_output : Link fun a b : State κ => a.output = b.output where
  output h := h
  start _ h := h
  write key value h := congrArg (OrderedMap.insert · key value) h

theorem Step.output_ofCall (field : String) (call : Call κ) :
    (ofCall field call).state.output = call.view.state.output.insertAll call.reply.writes := by
  have hwritten : call.written.output = call.view.state.output.insertAll call.reply.writes :=
    State.output_writeAll _ _
  rw [state_ofCall]
  cases call.record? field with
  | none => exact hwritten
  | some r => exact hwritten

theorem Rule.Unguarded.alike_silence [Conformer κ] {s : Setting κ} {rule : Rule κ}
    (h : rule.Unguarded s) (quiet : String → Nat → Bool) (field : String) (n : Nat) :
    rule.Alike s s (fun a b => a.output = b.output) (PlacedCall.Repeated quiet) field n
      (rule.silence (quiet field n)) := by
  refine ⟨fun {a b} _ => ?_, ?_⟩
  · exact (Gate.closed?_of_no_gates h.continuity h.fullContinuity field a).trans
      (Gate.closed?_of_no_gates h.continuity h.fullContinuity field b).symm
  · cases ht : s.target rule.target with
    | error e => exact .inl ⟨e, rfl, ht⟩
    | ok c =>
      refine .inr ⟨c, c, rfl, ht, fun {a b} value hab => ?_⟩
      have hreply : (s.call field (rule.silence (quiet field n)) c value b).reply =
          (s.call field rule c value a).reply :=
        h.ignores c ht value rule.params ⟨field, s.input, b⟩ ⟨field, s.input, a⟩ rfl rfl hab.symm
      refine ⟨?_, ?_, ⟨rfl, rfl, rfl, rfl, hreply, rfl⟩⟩
      · -- How the field goes on does not depend on the flag that was set.
        rw [Step.flow_ofCall, Step.flow_ofCall, hreply]
        cases Verdict.of rule.flags.negate (s.call field rule c value a).reply.result <;> rfl
      · rw [Step.output_ofCall, Step.output_ofCall, hreply]
        exact congrArg (OrderedMap.insertAll · _) hab

/-! ## Two records -/

/-- **A silenced rule only goes unrecorded.** Let all rules of a map be readable, none of them have
a gate and none call a conformer that looks at the records. Then its rules can be silenced at any
places, and a record is conformed as before: with the same result and the same output, each field
ends alike with the same value, and the same conformers are called with the same values. The records
are those that were made before without those of the silenced places, in the same order, and so are
the records of each field. -/
theorem Session.conform_silenced [Conformer κ] (s : Session κ) {rules : RuleMap κ}
    (hread : ∀ e ∈ rules.entries, ∃ own, e.2.compile = .ok own)
    (hrules : ∀ p ∈ rules.places, p.rule.Unguarded s.toSetting) (quiet : String → Nat → Bool) :
    rules.Silenced quiet (rules.silence quiet) ∧
    ∀ rules', rules.Silenced quiet rules' →
      let run := s.conform rules
      let run' := s.conform rules'
      run'.result = run.result ∧ run'.state.output = run.state.output ∧
      Event.endings run'.events = Event.endings run.events ∧
      List.Forall₂ (PlacedCall.Repeated quiet) (Event.placedCalls 0 run.events)
        (Event.placedCalls 0 run'.events) ∧
      run.state.errors = (Event.placedRecords run.events).map (·.record) ∧
      ((Event.placedRecords run.events).map PlacedRecord.place).Sublist rules.places ∧
      run'.state.errors = ((Event.placedRecords run.events).filter fun r =>
        !quiet r.record.field r.position).map (·.record) ∧
      run.state.Indexed ∧ run'.state.Indexed := by
  refine ⟨RuleMap.silenced_silence hread quiet, ?_⟩
  intro rules' hsilenced run run'
  have hpaired : RuleMap.Paired (Rule.Alike s.toSetting s.toSetting
      (fun a b => a.output = b.output) (PlacedCall.Repeated quiet)) rules rules' := by
    refine (hsilenced.and_left hrules).imp fun {field n rule rule'} hrule => ?_
    obtain ⟨hunguarded, rfl⟩ := hrule
    exact hunguarded.alike_silence quiet field n
  obtain ⟨⟨hresult, houtput, hcalls⟩, hendings⟩ :=
    Setting.conform_alike rfl State.link_output rfl hpaired s.state s.state
  have hrecords : Event.placedRecords run'.events = (Event.placedRecords run.events).filter fun r =>
      !quiet r.record.field r.position := PlacedCall.filterMap_record?_of_repeated hcalls
  have herrors' : run'.state.errors = (Event.placedRecords run'.events).map (·.record) :=
    s.toSetting.errors_conform_eq_placedRecords rules' s.state
  refine ⟨hresult.symm, houtput.symm, hendings.symm, hcalls, ?_, ?_, ?_, ?_, ?_⟩
  · exact s.toSetting.errors_conform_eq_placedRecords rules s.state
  · exact s.toSetting.placedRecords_conform_sublist rules s.state
  · rw [herrors', hrecords]
  · exact s.toSetting.indexed_conform rules s.state
  · exact s.toSetting.indexed_conform rules' s.state

/-- Silencing the first rules of two fields takes one record out of each, and the breaks of the
fields stay. -/
theorem Session.conform_silenced_first :
    let pass : Builtin := ⟨0, "pass", .pass⟩
    let reject : Builtin := ⟨1, "reject", .reject {}⟩
    let rules : RuleMap Builtin := .ofList
      [("a", .list [.inline "~" (.inline pass) [], .inline "!" (.inline reject) []]),
       ("b", .list [.inline "" (.inline reject) [], .inline "!!" (.inline reject) []])]
    let quiet : String → Nat → Bool := fun _ n => n == 0
    let s : Session Builtin := .new (.object []) .empty
    let run := s.conform rules
    let run' := s.conform (rules.silence quiet)
    (∀ e ∈ rules.entries, ∃ own, e.2.compile = .ok own) ∧
      (∀ p ∈ rules.places, p.rule.Unguarded s.toSetting) ∧
      Event.endings run'.events = [("a", .fieldBreak .null), ("b", .sessionBreak .null)] ∧
      (Event.placedRecords run.events).map (fun r => (r.record.field, r.position)) =
        [("a", 0), ("a", 1), ("b", 0), ("b", 1)] ∧
      run'.state.errors.map (fun r => (r.field, r.cause.isNegated)) =
        [("a", false), ("b", false)] := by
  intro pass reject rules quiet s run run'
  have hread : ∀ e ∈ rules.entries, ∃ own, e.2.compile = .ok own :=
    List.forall_mem_cons.2 ⟨⟨_, rfl⟩, List.forall_mem_cons.2 ⟨⟨_, rfl⟩, List.forall_mem_nil _⟩⟩
  have hpass : Conformer.IgnoresRecords pass := fun _ _ _ _ _ _ _ => rfl
  have hreject : Conformer.IgnoresRecords reject := fun _ _ _ _ _ _ _ => rfl
  have hrules : ∀ p ∈ rules.places, p.rule.Unguarded s.toSetting := by
    have hplaces : rules.places = [⟨"a", 0, { negate := true }, .inline pass, []⟩,
        ⟨"a", 1, { breakField := true }, .inline reject, []⟩,
        ⟨"b", 0, .empty, .inline reject, []⟩,
        ⟨"b", 1, { breakAll := true }, .inline reject, []⟩] := rfl
    rw [hplaces]
    refine List.forall_mem_cons.2 ⟨⟨rfl, rfl, ?_⟩, List.forall_mem_cons.2 ⟨⟨rfl, rfl, ?_⟩,
      List.forall_mem_cons.2 ⟨⟨rfl, rfl, ?_⟩, List.forall_mem_cons.2 ⟨⟨rfl, rfl, ?_⟩,
        List.forall_mem_nil _⟩⟩⟩⟩
    · rintro _ ⟨⟩
      exact hpass
    · rintro _ ⟨⟩
      exact hreject
    · rintro _ ⟨⟩
      exact hreject
    · rintro _ ⟨⟩
      exact hreject
  obtain ⟨hsilenced, hall⟩ := Session.conform_silenced s hread hrules quiet
  obtain ⟨_, _, hendings, _, _, _, herrors, _⟩ := hall _ hsilenced
  refine ⟨hread, hrules, hendings, rfl, ?_⟩
  rw [herrors]
  rfl

end RuleFlow
