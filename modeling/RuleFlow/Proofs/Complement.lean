import RuleFlow.Proofs.SideBySide

/-!
# Negation and complement

A rule that calls a test and the rule with the negation switched that calls the complement of the
test go the same way: their verdicts on a value are dual (`Verdict.dual_ofTest`), so that both pass
the value on, or one fails as its conformer does and the other one as it does not. So any rules that
call tests can be exchanged in this way and a record is conformed alike, if no other conformer looks
at the records; only the causes of the records of these rules change sides
(`Session.conform_complemented`).
-/

namespace RuleFlow

universe u

variable {κ : Type u}

/-! ## Tests and their complements -/

/-- A rule that calls a test and, in another setting, the rule with the negation switched that calls
the complement of the test. -/
structure Rule.Complement [Conformer κ] (s t : Setting κ) (rule rule' : Rule κ) : Prop where
  flags : rule'.flags = { rule.flags with negate := !rule.flags.negate }
  params : rule'.params = rule.params
  test : ∃ c d holds, s.target rule.target = .ok c ∧ t.target rule'.target = .ok d ∧
    Conformer.Tests c holds ∧ Conformer.Tests d fun value params => !holds value params

/-- A rule that calls the same conformer in two settings, and one that does not look at the
records. -/
structure Rule.Kept [Conformer κ] (s t : Setting κ) (rule rule' : Rule κ) : Prop where
  same : rule' = rule
  ignores : ∃ c, s.target rule.target = .ok c ∧ t.target rule.target = .ok c ∧
    Conformer.IgnoresRecords c

/-! Tests themselves, as conformers -/

/-- A test as a conformer. -/
structure Test where
  name : String
  holds : Json → List Json → Bool

namespace Test

instance : Conformer Test where
  name := Test.name
  run c value params _ := .ofTest (c.holds value params) value

def not (c : Test) : Test := { c with holds := fun value params => !c.holds value params }

theorem complement (c : Test) (s t : Setting Test) (flags : Flags) (params : List Json) :
    Rule.Complement s t ⟨flags, .inline c, params⟩
      ⟨{ flags with negate := !flags.negate }, .inline c.not, params⟩ :=
  ⟨rfl, rfl, c, c.not, c.holds, rfl, rfl, fun _ _ _ => rfl, fun _ _ _ => rfl⟩

theorem kept (c : Test) (s t : Setting Test) (flags : Flags) (params : List Json) :
    Rule.Kept s t ⟨flags, .inline c, params⟩ ⟨flags, .inline c, params⟩ :=
  ⟨rfl, c, rfl, rfl, fun _ _ _ _ _ _ _ => rfl⟩

end Test

/-- Two maps with one another's complements at the chosen places and the same rules elsewhere. -/
def RuleMap.Complemented [Conformer κ] (s t : Setting κ) (chosen : String → Nat → Prop) :
    RuleMap κ → RuleMap κ → Prop :=
  Paired fun field n rule rule' =>
    (chosen field n → rule.Complement s t rule') ∧ (¬ chosen field n → rule.Kept s t rule')

/-! ## Dual verdicts -/

/-- Verdicts on a value that both pass it on, or of which one is a failure of the conformer and the
other one a success against the negation. -/
inductive Verdict.Dual (value : Json) : Verdict → Verdict → Prop
  | advance_hold (failure : Failure) : Dual value (.advance value) (.hold failure)
  | hold_advance (failure : Failure) : Dual value (.hold failure) (.advance value)
  | failed_negated (failure : Failure) : Dual value (.fail (.failed failure)) (.fail .negated)
  | negated_failed (failure : Failure) : Dual value (.fail .negated) (.fail (.failed failure))

theorem Verdict.dual_ofTest (negate passed : Bool) (value : Json) :
    Dual value (of negate (Reply.ofTest passed value).result)
      (of (!negate) (Reply.ofTest (!passed) value).result) := by
  cases negate <;> cases passed <;> constructor

theorem Verdict.Dual.flow {value : Json} {v v' : Verdict} (h : Dual value v v') (flags : Flags) :
    Flow.ofVerdict flags value v =
      Flow.ofVerdict { flags with negate := !flags.negate } value v' := by
  cases h <;> rfl

/-! ## Records on two sides -/

/-- Records of two runs for one place. If the place is chosen, one is of a failure of the conformer and
the other one of a success, and else they are the same. -/
structure PlacedRecord.Counterpart (chosen : String → Nat → Prop) (r r' : PlacedRecord κ) :
    Prop where
  position : r.position = r'.position
  field : r.record.field = r'.record.field
  flipped : chosen r.record.field r.position →
    r.record.cause.isNegated = !r'.record.cause.isNegated
  kept : ¬ chosen r.record.field r.position → r.record = r'.record

/-- Calls of two runs that lead to counterparts, or both to no record. -/
def PlacedCall.Counterpart (chosen : String → Nat → Prop) (c c' : PlacedCall κ) : Prop :=
  Option.Rel (PlacedRecord.Counterpart chosen) c.record? c'.record?

section
variable {chosen : String → Nat → Prop} {field : String} {n : Nat} {call call' : Call κ}

theorem PlacedCall.Counterpart.isSome
    (h : Counterpart chosen ⟨field, n, call⟩ ⟨field, n, call'⟩) :
    (call.record? field).isSome = (call'.record? field).isSome := by
  unfold Counterpart record? at h
  generalize call.record? field = r at h ⊢
  generalize call'.record? field = r' at h ⊢
  cases r with
  | none => cases r' with
    | none => rfl
    | some r' => cases h
  | some r => cases r' with
    | none => cases h
    | some r' => rfl

/-- Calls that lead to the same record are counterparts where no place is chosen. -/
theorem PlacedCall.counterpart_of_eq (hn : ¬ chosen field n)
    (h : call.record? field = call'.record? field) :
    Counterpart chosen ⟨field, n, call⟩ ⟨field, n, call'⟩ := by
  unfold Counterpart record?
  rw [h]
  cases hr : call'.record? field with
  | none => exact .none
  | some r =>
    have hfield : r.field = field := Call.field_record? hr
    exact .some ⟨rfl, rfl, fun hc => absurd (hfield ▸ hc) hn, fun _ => rfl⟩

/-- Calls with dual verdicts are counterparts at a chosen place. -/
theorem PlacedCall.counterpart_of_dual {value : Json} (hn : chosen field n)
    (hopt : call.rule.flags.optional = call'.rule.flags.optional)
    (h : Verdict.Dual value (Verdict.of call.rule.flags.negate call.reply.result)
      (Verdict.of call'.rule.flags.negate call'.reply.result)) :
    Counterpart chosen ⟨field, n, call⟩ ⟨field, n, call'⟩ := by
  unfold Counterpart record? Call.record?
  rw [hopt]
  generalize Verdict.of call.rule.flags.negate call.reply.result = v at h
  generalize Verdict.of call'.rule.flags.negate call'.reply.result = v' at h
  cases h with
  | advance_hold _ | hold_advance _ => exact .none
  | failed_negated _ | negated_failed _ =>
    cases call'.rule.flags.optional with
    | true => exact .none
    | false => exact .some ⟨rfl, rfl, fun _ => rfl, fun h => absurd hn h⟩

end

/-- States with the same output and with records in the same fields. -/
structure State.Matched (a b : State κ) : Prop where
  output : a.output = b.output
  errors : a.errors.isEmpty = b.errors.isEmpty
  errorsFor : ∀ f, (a.errorsFor f).isEmpty = (b.errorsFor f).isEmpty

namespace State

variable {a b : State κ}

theorem Matched.writeAll (h : Matched a b) (ws : List (String × Json)) :
    Matched (a.writeAll ws) (b.writeAll ws) := by
  refine ⟨?_, ?_, fun f => ?_⟩
  · rw [output_writeAll, output_writeAll, h.output]
  · rw [errors_writeAll, errors_writeAll, h.errors]
  · rw [errorsFor_writeAll, errorsFor_writeAll, h.errorsFor]

theorem Matched.record (h : Matched a b) {r r' : Record κ} (hf : r.field = r'.field) :
    Matched (a.record r) (b.record r') := by
  have hsome : ∀ (rs : List (Record κ)) q, (rs ++ [q]).isEmpty = false :=
    fun rs q => List.isEmpty_eq_false_iff.2 (List.concat_ne_nil q rs)
  refine ⟨h.output, ?_, fun f => ?_⟩
  · rw [errors_record, errors_record, hsome, hsome]
  · rw [errorsFor_record, errorsFor_record, hf]
    split
    · rw [hsome, hsome]
    · rw [List.append_nil, List.append_nil, h.errorsFor]

theorem link_matched : Link (Matched (κ := κ)) where
  output h := h.output
  start field h := by
    refine ⟨h.output, h.errors, fun f => ?_⟩
    rw [errorsFor_start, errorsFor_start, h.errorsFor]
  write key value h := h.writeAll [(key, value)]

/-- Gates look only at whether there are records. -/
theorem Matched.gate (h : Matched a b) {flags flags' : Flags} (field : String)
    (hown : flags.continuity = flags'.continuity)
    (hall : flags.fullContinuity = flags'.fullContinuity) :
    Gate.closed? flags field a = Gate.closed? flags' field b := by
  unfold Gate.closed? hasErrors
  rw [h.errors, h.errorsFor, hown, hall]

/-- Calls with the same writes that both lead to a record, or both not, keep states matched. -/
theorem Matched.ofCall {field : String} {call call' : Call κ}
    (h : Matched call.view.state call'.view.state) (hw : call.reply.writes = call'.reply.writes)
    (hr : (call.record? field).isSome = (call'.record? field).isSome) :
    Matched (Step.ofCall field call).state (Step.ofCall field call').state := by
  have hwritten : Matched call.written call'.written := by
    rw [Call.written, Call.written, hw]
    exact h.writeAll _
  rw [Step.state_ofCall, Step.state_ofCall]
  cases hc : call.record? field with
  | none =>
    cases hc' : call'.record? field with
    | none => exact hwritten
    | some r' => rw [hc, hc'] at hr; cases hr
  | some r =>
    cases hc' : call'.record? field with
    | none => rw [hc, hc'] at hr; cases hr
    | some r' =>
      exact hwritten.record ((Call.field_record? hc).trans (Call.field_record? hc').symm)

end State

/-! ## Two rules -/

section
variable [Conformer κ] {s t : Setting κ} {chosen : String → Nat → Prop} {field : String} {n : Nat}
  {rule rule' : Rule κ}

theorem Rule.Kept.alike (hinput : s.input = t.input) (h : rule.Kept s t rule')
    (hn : ¬ chosen field n) :
    rule.Alike s t State.Matched (PlacedCall.Counterpart chosen) field n rule' := by
  obtain ⟨rfl, c, hs, ht, hignores⟩ := h
  refine ⟨fun hab => hab.gate field rfl rfl, .inr ⟨c, c, hs, ht, fun {a b} value hab => ?_⟩⟩
  -- The conformer answers the same, so that the calls differ only in the state that they see.
  have hreply : (s.call field rule' c value a).reply = (t.call field rule' c value b).reply :=
    hignores value rule'.params ⟨field, s.input, a⟩ ⟨field, t.input, b⟩ rfl hinput hab.output
  have hresult := congrArg Reply.result hreply
  have hcalls := PlacedCall.counterpart_of_eq hn (Call.record?_congr hresult rfl field)
  exact ⟨Step.flow_ofCall_congr hresult rfl rfl field,
    hab.ofCall (congrArg Reply.writes hreply) hcalls.isSome, hcalls⟩

theorem Rule.Complement.alike (h : rule.Complement s t rule') (hn : chosen field n) :
    rule.Alike s t State.Matched (PlacedCall.Counterpart chosen) field n rule' := by
  obtain ⟨hflags, hparams, c, d, holds, hs, ht, hc, hd⟩ := h
  refine ⟨fun hab => ?_, .inr ⟨c, d, hs, ht, fun {a b} value hab => ?_⟩⟩
  · exact hab.gate field (by rw [hflags]) (by rw [hflags])
  · have hreply : (s.call field rule c value a).reply =
        .ofTest (holds value rule.params) value := hc _ _ _
    have hreply' : (t.call field rule' d value b).reply =
        .ofTest (!holds value rule.params) value := hparams ▸ hd _ _ _
    have hnegate : rule'.flags.negate = !rule.flags.negate := by rw [hflags]
    have hdual : Verdict.Dual value
        (Verdict.of rule.flags.negate (s.call field rule c value a).reply.result)
        (Verdict.of rule'.flags.negate (t.call field rule' d value b).reply.result) := by
      rw [hreply, hreply', hnegate]
      exact Verdict.dual_ofTest _ _ _
    have hcalls : PlacedCall.Counterpart chosen ⟨field, n, s.call field rule c value a⟩
        ⟨field, n, t.call field rule' d value b⟩ :=
      PlacedCall.counterpart_of_dual hn (congrArg Flags.optional hflags).symm hdual
    refine ⟨?_, hab.ofCall ?_ hcalls.isSome, hcalls⟩
    · rw [Step.flow_ofCall, Step.flow_ofCall]
      exact (hdual.flow rule.flags).trans (by rw [← hflags]; rfl)
    · -- A test writes nothing.
      rw [hreply, hreply']
      cases holds value rule.params <;> rfl

theorem RuleMap.Complemented.alike {rules rules' : RuleMap κ} (hinput : s.input = t.input)
    (h : Complemented s t chosen rules rules') :
    Paired (Rule.Alike s t State.Matched (PlacedCall.Counterpart chosen)) rules rules' := by
  refine Paired.imp (fun {field n rule rule'} hrule => ?_) h
  by_cases hn : chosen field n
  · exact (hrule.1 hn).alike hn
  · exact (hrule.2 hn).alike hinput hn

theorem RuleMap.Complemented.exists_target {rules rules' : RuleMap κ}
    (h : Complemented s t chosen rules rules') : ∀ e ∈ rules.entries, ∃ own,
      e.2.compile = .ok own ∧ ∀ rule ∈ own, ∃ c, s.target rule.target = .ok c := by
  refine Paired.left (fun {field n rule rule'} hrule => ?_) h
  by_cases hn : chosen field n
  · obtain ⟨c, _, _, hc, _⟩ := (hrule.1 hn).test
    exact ⟨c, hc⟩
  · obtain ⟨c, hc, _⟩ := (hrule.2 hn).ignores
    exact ⟨c, hc⟩

end

/-! ## Two records -/

/-- **Negation is complement.** In two sessions over one input, let two maps have the same rules
except at chosen places, where one has a test and the other one its complement with the negation
switched; let all rules be readable, all targets be found and no other conformer look at the records.
Then both sessions conform the record with the same output, and each field ends alike with the same
value. They record for the same fields and rules in the same order, and at a chosen place one of the
two records says that a negated rule succeeded and the other one that the conformer failed; elsewhere
the records are the same. -/
theorem Session.conform_complemented [Conformer κ] {s t : Session κ} (hinput : s.input = t.input)
    {chosen : String → Nat → Prop} {rules rules' : RuleMap κ}
    (h : RuleMap.Complemented s.toSetting t.toSetting chosen rules rules') :
    let run := s.conform rules
    let run' := t.conform rules'
    (∃ output, run.result = .ok output ∧ run'.result = .ok output) ∧
    run.state.output = run'.state.output ∧
    Event.endings run.events = Event.endings run'.events ∧
    run.state.errors.length = run'.state.errors.length ∧
    run.state.errors = (Event.placedRecords run.events).map (·.record) ∧
    run'.state.errors = (Event.placedRecords run'.events).map (·.record) ∧
    ((Event.placedRecords run.events).map PlacedRecord.place).Sublist rules.places ∧
    ((Event.placedRecords run'.events).map PlacedRecord.place).Sublist rules'.places ∧
    List.Forall₂ (PlacedRecord.Counterpart chosen) (Event.placedRecords run.events)
      (Event.placedRecords run'.events) := by
  intro run run'
  obtain ⟨⟨hresult, hstate, hcalls⟩, hendings⟩ := Setting.conform_alike hinput State.link_matched
    ⟨rfl, rfl, fun _ => rfl⟩ (h.alike hinput) s.state t.state
  have hrecords : List.Forall₂ (PlacedRecord.Counterpart chosen) (Event.placedRecords run.events)
      (Event.placedRecords run'.events) :=
    List.rel_filterMap (fun _ _ hc => hc) hcalls
  have herrors : run.state.errors = (Event.placedRecords run.events).map (·.record) :=
    s.toSetting.errors_conform_eq_placedRecords rules s.state
  have herrors' : run'.state.errors = (Event.placedRecords run'.events).map (·.record) :=
    t.toSetting.errors_conform_eq_placedRecords rules' t.state
  refine ⟨?_, hstate.output, hendings, ?_, herrors, herrors', ?_, ?_, hrecords⟩
  · have hok : run.result = .ok (s.toSetting.runFields rules.entries .empty).state.output := by
      apply (s.toSetting.result_conform rules s.state).trans
      rw [Setting.runFields_eq_ok h.exists_target]
      rfl
    exact ⟨_, hok, hresult.symm.trans hok⟩
  · rw [herrors, herrors', List.length_map, List.length_map]
    exact hrecords.length_eq
  · exact s.toSetting.placedRecords_conform_sublist rules s.state
  · exact t.toSetting.placedRecords_conform_sublist rules' t.state

/-- Where a test holds, a plain rule and its complement both pass the value on, and a negated rule and
its complement both fail. -/
theorem Session.conform_complemented_null :
    let null : Test := ⟨"null", fun value _ => value == .null⟩
    let rules : RuleMap Test := .ofList
      [("a", .list [.inline "" (.inline null) [], .inline "" (.inline null.not) []]),
       ("b", .list [.inline "~" (.inline null) [], .inline "&" (.inline null) []])]
    let rules' : RuleMap Test := .ofList
      [("a", .list [.inline "~" (.inline null.not) [], .inline "" (.inline null.not) []]),
       ("b", .list [.inline "" (.inline null.not) [], .inline "&" (.inline null) []])]
    let s : Session Test := .new (.object []) .empty
    let places (run : Run Test (OrderedMap Json)) := (Event.placedRecords run.events).map
      fun r => (r.record.field, r.position, r.record.cause.isNegated)
    RuleMap.Complemented s.toSetting s.toSetting (fun _ n => n = 0) rules rules' ∧
      Event.endings (s.conform rules).events = Event.endings (s.conform rules').events ∧
      places (s.conform rules) = [("a", 1, false), ("b", 0, true)] ∧
      places (s.conform rules') = [("a", 1, false), ("b", 0, false)] := by
  intro null rules rules' s places
  have h : RuleMap.Complemented s.toSetting s.toSetting (fun _ n => n = 0) rules rules' := by
    refine .cons ⟨rfl, _, _, rfl, rfl, ?_⟩ (.cons ⟨rfl, _, _, rfl, rfl, ?_⟩ .nil)
    · refine .cons ⟨fun _ => ?_, fun hn => absurd rfl hn⟩
        (.cons ⟨fun hn => absurd hn Nat.one_ne_zero, fun _ => ?_⟩ .nil)
      · exact null.complement _ _ _ _
      · exact null.not.kept _ _ _ _
    · refine .cons ⟨fun _ => ?_, fun hn => absurd rfl hn⟩
        (.cons ⟨fun hn => absurd hn Nat.one_ne_zero, fun _ => ?_⟩ .nil)
      · exact null.complement _ _ _ _
      · exact null.kept _ _ _ _
  obtain ⟨_, _, hendings, _⟩ := Session.conform_complemented (s := s) (t := s) rfl h
  exact ⟨h, hendings, by decide, by decide⟩

end RuleFlow
