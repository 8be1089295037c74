import Mathlib.Data.List.Forall2
import RuleFlow.Builtin
import RuleFlow.Proofs.History
import RuleFlow.Proofs.PipeText
import RuleFlow.Report

/-!
# What reports say

There is one report for each record, which tells of it (`Record.ToldBy`): what the failure says, and
for the rest the rule and the field. A report has an empty type or message just if the failure sets
an empty type, or leaves the type to a rule without a path (`Record.speaks_report_iff`). A rule that
was read from text has a path (`Rule.FromText.path_ne_empty`), and every record comes from a call
(`Moment.exists_call`). So a session whose rules are read from text gives reports that speak, unless
a conformer wants it otherwise (`Session.reports_complete`).
-/

namespace RuleFlow

universe u

variable {κ : Type u}

/-! ## Rules read from text -/

/-- A rule that was read from text: from a pipe text, from a text of its own, or from a text that
stands before its parameters. -/
inductive Rule.FromText : Rule κ → Prop
  | pipe {text : String} {rules : List (Rule κ)} {rule : Rule κ}
    (h : (Rules.text text).compile = .ok rules) (hr : rule ∈ rules) : FromText rule
  | text {text : String} {rule : Rule κ} (h : (Source.text text).compile = .ok rule) :
    FromText rule
  | positional {head : String} {params : List Json} {rule : Rule κ}
    (h : (Source.positional head params).compile = .ok rule) : FromText rule

/-- Every rule that is read from text calls what the registry has at a path. -/
theorem Rule.FromText.exists_path {rule : Rule κ} (h : rule.FromText) :
    ∃ path : String, rule.target = .path path ∧ RuleText.IsPath path.toList := by
  cases h with
  | pipe h hr => exact (Rules.plain_of_compile_text h rule hr).target
  | text h => exact (plain_of_compile h).target
  | positional h =>
    obtain ⟨t, hread, rfl⟩ := map_eq_ok_iff.1 h
    have hwf : t.WellFormed := RuleText.wellFormed_of_ofChars (RuleText.read_eq_ok_iff.1 hread)
    refine ⟨_, rfl, ?_⟩
    rw [String.toList_ofList]
    exact RuleText.isPath_trimEnd hwf

theorem Rule.FromText.path_ne_empty [Named κ] {rule : Rule κ} (h : rule.FromText) :
    rule.path ≠ "" := by
  obtain ⟨path, htarget, hpath⟩ := h.exists_path
  rw [Rule.path, htarget]
  rintro rfl
  obtain ⟨c, hc, _⟩ := hpath.start
  cases hc

/-- Flags and path are written in one text. -/
def Source.InText : Source κ → Prop
  | text _ | positional _ _ => True
  | inline _ _ _ => False

def Rules.InText : Rules κ → Prop
  | .text _ => True
  | .list sources => ∀ source ∈ sources, source.InText

theorem Rules.InText.fromText {own : Rules κ} (h : own.InText) {rule : Rule κ}
    (hrule : rule ∈ own.compiled) : rule.FromText := by
  unfold compiled at hrule
  split at hrule
  · next rules hrules =>
    cases own with
    | text t => exact .pipe hrules hrule
    | list sources =>
      obtain ⟨source, hsource, hread⟩ := exists_of_mem_mapM hrules hrule
      cases source with
      | text t => exact .text hread
      | positional head params => exact .positional hread
      | inline flags target params => exact (h _ hsource).elim
  · cases hrule

/-! ## One report -/

/-- What a report has to say of a record. -/
structure Record.ToldBy [Named κ] (r : Record κ) (report : Report) : Prop where
  /-- That a negated rule succeeded. -/
  negated : r.cause = .negated →
    report.errorType = "~" ++ r.rule.path ∧ report.message = report.errorType ∧
      report.fields = [r.field] ∧ report.params = r.rule.params
  /-- What a failure says; an empty message says nothing. -/
  said : ∀ failure, r.cause = .failed failure →
    (∀ errorType ∈ failure.errorType, report.errorType = errorType) ∧
    (∀ message ∈ failure.message, message ≠ "" → report.message = message) ∧
    (∀ fields ∈ failure.fields, report.fields = fields) ∧
    ∀ params ∈ failure.params, report.params = params
  /-- What a failure leaves to the rule and the field. -/
  unsaid : ∀ failure, r.cause = .failed failure →
    (failure.errorType = none → report.errorType = r.rule.path) ∧
    ((∀ message ∈ failure.message, message = "") → report.message = report.errorType) ∧
    (failure.fields = none → report.fields = [r.field]) ∧
    (failure.params = none → report.params = r.rule.params)

/-- Neither the type nor the message is empty. -/
structure Report.Speaks (report : Report) : Prop where
  errorType_ne : report.errorType ≠ ""
  message_ne : report.message ≠ ""

theorem Failure.filter_message_eq_some_iff {failure : Failure} {message : String} :
    failure.message.filter (!·.isEmpty) = some message ↔
      failure.message = some message ∧ message ≠ "" := by
  simp [Option.filter_eq_some_iff]

theorem Failure.filter_message_eq_none_iff {failure : Failure} :
    failure.message.filter (!·.isEmpty) = none ↔
      ∀ message ∈ failure.message, message = "" := by
  simp [Option.filter_eq_none_iff]

namespace Record

variable [Named κ]

theorem toldBy_report (r : Record κ) : r.ToldBy r.report := by
  obtain ⟨cause, field, rule⟩ := r
  cases cause with
  | negated => exact ⟨fun _ => ⟨rfl, rfl, rfl, rfl⟩, nofun, nofun⟩
  | failed failure =>
    have hset {α : Type} {x : Option α} {y d : α} (h : x = some y) : x.getD d = y := by
      rw [h, Option.getD_some]
    have hunset {α : Type} {x : Option α} {d : α} (h : x = none) : x.getD d = d := by
      rw [h, Option.getD_none]
    refine ⟨nofun, ?_, ?_⟩
    · rintro _ ⟨⟩
      exact ⟨fun _ => hset, fun _ h hne => hset (Failure.filter_message_eq_some_iff.2 ⟨h, hne⟩),
        fun _ => hset, fun _ => hset⟩
    · rintro _ ⟨⟩
      exact ⟨hunset, fun h => hunset (Failure.filter_message_eq_none_iff.2 h), hunset, hunset⟩

/-- Only the type that a failure leads to can make a report silent; its message cannot. -/
theorem speaks_report_iff {r : Record κ} : r.report.Speaks ↔
    ∀ failure, r.cause = .failed failure → failure.errorType.getD r.rule.path ≠ "" := by
  obtain ⟨cause, field, rule⟩ := r
  cases cause with
  | negated =>
    have htype : "~" ++ rule.path ≠ "" := by simp
    exact ⟨fun _ => nofun, fun _ => ⟨htype, htype⟩⟩
  | failed failure =>
    constructor
    · rintro h _ ⟨⟩
      exact h.errorType_ne
    · intro h
      have htype : failure.errorType.getD rule.path ≠ "" := h failure rfl
      refine ⟨htype, ?_⟩
      change (failure.message.filter (!·.isEmpty)).getD (failure.errorType.getD rule.path) ≠ ""
      cases hmessage : failure.message.filter (!·.isEmpty) with
      | none => exact htype
      | some message => exact (Failure.filter_message_eq_some_iff.1 hmessage).2

end Record

theorem State.forall₂_toldBy [Named κ] (a : State κ) :
    List.Forall₂ Record.ToldBy a.errors a.reports := by
  rw [State.reports, List.forall₂_map_right_iff]
  exact List.forall₂_same.2 fun r _ => r.toldBy_report

/-! ## Sessions -/

theorem Verdict.eq_error_of_fail {negate : Bool} {result : Except Failure Json} {failure : Failure}
    (h : of negate result = .fail (.failed failure)) : result = .error failure := by
  cases result <;> cases negate <;> cases h
  rfl

/-- The record of a call has its rule, and its failure if it has one. -/
theorem Call.of_record? {field : String} {call : Call κ} {r : Record κ}
    (h : call.record? field = some r) : r.rule = call.rule ∧
      ∀ failure, r.cause = .failed failure → call.reply.result = .error failure := by
  obtain ⟨cause, hverdict, _, rfl⟩ := Call.record?_eq_some_iff.1 h
  refine ⟨rfl, ?_⟩
  rintro failure rfl
  exact Verdict.eq_error_of_fail hverdict

/-- **Reports are complete and never blank.** At all moments of a session there is one report for
each record, in their order, and it tells of the record. If each rule that was applied until then
was read from text, and no failure set an empty type, no report has an empty type or message. In a
session whose commands give all rules in text, each rule that is applied was read from text. -/
theorem Session.reports_complete [Conformer κ] (input : Json) (registry : Registry κ) :
    let s := new input registry
    (∀ es a, s.Moment es a →
      List.Forall₂ Record.ToldBy a.errors a.reports ∧
      ((∀ call ∈ Event.calls es, call.rule.FromText) →
        (∀ call ∈ Event.calls es, ∀ failure, call.reply.result = .error failure →
          failure.errorType ≠ some "") →
        ∀ report ∈ a.reports, report.Speaks)) ∧
    (∀ commands, (∀ command ∈ commands, ∀ own ∈ command.rules, own.InText) →
      ∀ call ∈ Event.calls (s.history commands), call.rule.FromText) := by
  intro s
  refine ⟨fun es a h => ⟨a.forall₂_toldBy, fun hrules hfailures report hreport => ?_⟩, ?_⟩
  · obtain ⟨r, hr, rfl⟩ := List.mem_map.1 hreport
    obtain ⟨field, call, hcall, hrecord⟩ := h.exists_call hr
    obtain ⟨hrule, hfailure⟩ := Call.of_record? hrecord
    refine Record.speaks_report_iff.2 fun failure hcause => ?_
    have hset := hfailures call hcall failure (hfailure failure hcause)
    -- The type is the one that is set, or else the path of the rule.
    cases htype : failure.errorType with
    | none => exact hrule ▸ (hrules call hcall).path_ne_empty
    | some errorType =>
      rintro rfl
      exact hset htype
  · intro commands hcommands call hcall
    obtain ⟨command, hcommand, own, hown, hrule⟩ := exists_rules_of_mem_history hcall
    exact (hcommands command hcommand own hown).fromText hrule

/-- A failure with an empty message, whose rule has blanks behind its path; a negated rule; and from
a later command a failure with a type only. -/
theorem Session.reports_complete_silent :
    let silent : Builtin := ⟨0, "silent", .reject { message := "" }⟩
    let short : Builtin := ⟨1, "short", .reject { errorType := "too_short" }⟩
    let pass : Builtin := ⟨2, "pass", .pass⟩
    let s := Session.new (.object [])
      (.ofList [("num.above", silent), ("short", short), ("pass", pass)])
    let rules : RuleMap Builtin :=
      .ofList [("age", .text "?~num.above | num.above \t:18 | ~pass:1 |")]
    let own : Rules Builtin := .list [.text "&pass", .positional "short:9" [.null]]
    let commands : List (Command Builtin) := [.conform rules, .runField "name" own]
    let es := s.history commands
    let a := (s.performAll commands).state
    s.Moment es a ∧ (∀ call ∈ Event.calls es, call.rule.FromText) ∧
    (∀ call ∈ Event.calls es, ∀ failure, call.reply.result = .error failure →
      failure.errorType ≠ some "") ∧
    a.reports = [⟨"num.above", ["age"], "num.above", [.string "18"]⟩,
      ⟨"~pass", ["age"], "~pass", [.string "1"]⟩,
      ⟨"too_short", ["name"], "too_short", [.null]⟩] ∧
    List.Forall₂ Record.ToldBy a.errors a.reports ∧ ∀ report ∈ a.reports, report.Speaks := by
  intro silent short pass s rules own commands es a
  have hown : own.InText := by
    intro source hsource
    rcases List.mem_pair.1 hsource with rfl | rfl <;> trivial
  have hcommands : ∀ command ∈ commands, ∀ given ∈ command.rules, given.InText := by
    intro command hcommand given hgiven
    rcases List.mem_pair.1 hcommand with rfl | rfl
    · cases List.mem_singleton.1 hgiven
      trivial
    · exact List.mem_singleton.1 hgiven ▸ hown
  have htypes : ((Event.calls es).all fun call => match call.reply.result with
      | .error failure => failure.errorType != some ""
      | .ok _ => true) = true := by decide
  have hfailures : ∀ call ∈ Event.calls es, ∀ failure, call.reply.result = .error failure →
      failure.errorType ≠ some "" := by
    intro call hcall failure hfailure
    have htype := List.all_eq_true.1 htypes call hcall
    rw [hfailure] at htype
    exact bne_iff_ne.1 htype
  obtain ⟨hmoments, hread⟩ := reports_complete (.object [])
    (.ofList [("num.above", silent), ("short", short), ("pass", pass)])
  have hrules : ∀ call ∈ Event.calls es, call.rule.FromText := hread commands hcommands
  obtain ⟨htold, hspeak⟩ := hmoments es a (.between commands)
  refine ⟨.between commands, hrules, hfailures, ?_, htold, hspeak hrules hfailures⟩
  -- The texts are compared with the values of the variables in place.
  subst a commands own rules s pass short silent
  rfl

end RuleFlow
