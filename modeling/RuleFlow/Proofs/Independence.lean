import Mathlib.Data.List.Perm.Basic
import RuleFlow.Builtin
import RuleFlow.Proofs.Output
import RuleFlow.Proofs.Records
import RuleFlow.Proofs.SideBySide
import RuleFlow.Proofs.Started

/-!
# Fields that stand apart

A rule stands apart if it has no flag that reaches over its field and calls a conformer that looks
at the value, the parameters, the field and the input only, and writes nothing (`Rule.Apart`). A
field of such rules runs as if it were alone (`runField_apart`): its own records are all that its
gates see. So a record of such fields is what they are alone, put together in the order of
declaration (`runFields_apart`), and in another order the parts are the same
(`Session.conform_perm`).
-/

namespace RuleFlow

universe u

variable {κ : Type u}

/-! ## Rules that stand apart -/

/-- A conformer that answers by value, parameters, field and input, and writes nothing. -/
structure Conformer.Local [Conformer κ] (c : κ) : Prop where
  result : ∀ value params (view view' : View κ), view.field = view'.field →
    view.input = view'.input →
      (Conformer.run c value params view).result = (Conformer.run c value params view').result
  writes : ∀ value params view, (Conformer.run c value params view).writes = []

/-- A rule that has neither `&&` nor `!!` and calls a local conformer. -/
structure Rule.Apart [Conformer κ] (s : Setting κ) (rule : Rule κ) : Prop where
  fullContinuity : rule.flags.fullContinuity = false
  breakAll : rule.flags.breakAll = false
  calls_local : ∀ c, s.target rule.target = .ok c → Conformer.Local c

variable [Conformer κ] {s : Setting κ}

/-- A rule that stands apart goes the same way from states with the same records of its field. -/
theorem Rule.Apart.alike {rule : Rule κ} (h : rule.Apart s) (field : String) (n : Nat) :
    rule.Alike s s (fun a b => a.errorsFor field = b.errorsFor field) (fun _ _ => True) field n
      rule := by
  refine ⟨fun {a b} hab => ?_, ?_⟩
  · unfold Gate.closed?
    simp only [h.fullContinuity, hab, Bool.false_eq_true, false_and, if_false]
  · cases ht : s.target rule.target with
    | error e => exact .inl ⟨e, rfl, rfl⟩
    | ok c =>
      refine .inr ⟨c, c, rfl, rfl, fun {a b} value hab => ?_⟩
      have hresult : (s.call field rule c value a).reply.result =
          (s.call field rule c value b).reply.result :=
        (h.calls_local c ht).result value rule.params ⟨field, s.input, a⟩ ⟨field, s.input, b⟩ rfl rfl
      refine ⟨Step.flow_ofCall_congr hresult rfl rfl field, ?_, trivial⟩
      rw [Step.errorsFor_ofCall, Step.errorsFor_ofCall, Call.record?_congr hresult rfl]
      exact congrArg (· ++ _) hab

theorem Rule.paired_apart {rules : List (Rule κ)} (h : ∀ rule ∈ rules, rule.Apart s)
    (field : String) (n : Nat) :
    Paired (Alike s s (fun a b => a.errorsFor field = b.errorsFor field) (fun _ _ => True) field) n
      rules rules := by
  refine List.forall₂_same.2 fun x hx => ?_
  exact (h _ (List.fst_mem_of_mem_zipIdx hx)).alike field x.2

namespace Setting

/-! ## A field alone -/

/-- The run of a field as the first one. -/
def alone (s : Setting κ) (e : String × Rules κ) : Run κ Outcome := s.runField e.1 e.2 .empty

/-- How a field ends alone, if no mistake ends its run. -/
def ending? (s : Setting κ) (e : String × Rules κ) : Option (String × Outcome) :=
  match (s.alone e).result with
  | .ok outcome => some (e.1, outcome)
  | .error _ => none

theorem runField_apart {e : String × Rules κ} (h : ∀ rule ∈ e.2.compiled, rule.Apart s)
    {a : State κ} (ha : a.errorsFor e.1 = []) :
    (s.runField e.1 e.2 a).result = (s.alone e).result ∧
      (s.runField e.1 e.2 a).state.errorsFor e.1 = (s.alone e).state.errorsFor e.1 := by
  obtain ⟨field, own⟩ := e
  cases hown : own.compile with
  | error e =>
    simp only [alone, runField, hown]
    exact ⟨trivial, ha⟩
  | ok rules =>
    rw [Rules.compiled_of_ok hown] at h
    have hstart : (a.start field).errorsFor field = (State.empty.start field).errorsFor field := by
      rw [State.errorsFor_start, State.errorsFor_start, ha]
      rfl
    have halike := runField_alike rfl hown hown (Rule.paired_apart h field 0) hstart
    exact ⟨halike.result, halike.state⟩

theorem runField_ne_sessionBreak {e : String × Rules κ} (h : ∀ rule ∈ e.2.compiled, rule.Apart s)
    (a : State κ) (v : Json) : (s.runField e.1 e.2 a).result ≠ .ok (.sessionBreak v) := by
  intro hbreak
  obtain ⟨rules, hown⟩ := exists_compile_of_runField hbreak
  rw [Rules.compiled_of_ok hown] at h
  rw [runField_of_ok hown] at hbreak
  exact runRules_ne_sessionBreak (fun rule hrule => (h rule hrule).breakAll) _ _ v hbreak

/-! ## Fields one after the other -/

/-- The first field of several runs as if it were alone, and the others run from a state in which it
has left its own records and changed none of the others. -/
theorem runFields_cons_apart {e : String × Rules κ} (h : ∀ rule ∈ e.2.compiled, rule.Apart s)
    {a : State κ} (ha : a.errorsFor e.1 = []) (fields : List (String × Rules κ)) :
    (∃ mistake, (s.alone e).result = .error mistake ∧
      (s.runFields (e :: fields) a).result = .error mistake) ∨
    ∃ outcome b told, (s.alone e).result = .ok outcome ∧
      s.runFields (e :: fields) a = (s.runFields fields b).after told ∧
      Event.endings told = [(e.1, outcome)] ∧
      b.errorsFor e.1 = (s.alone e).state.errorsFor e.1 ∧
      ∀ f ≠ e.1, b.errorsFor f = a.errorsFor f := by
  obtain ⟨hresult, herrors⟩ := runField_apart h ha
  rcases s.runField_cases e.1 e.2 a with ⟨mistake, he⟩ | ⟨value, he⟩ | ⟨outcome, he, ho⟩
  · refine .inl ⟨mistake, hresult.symm.trans he, ?_⟩
    rw [runFields_cons_of_error he]
  · exact absurd he (runField_ne_sessionBreak h a value)
  · refine .inr ⟨outcome, _, _, hresult.symm.trans he, runFields_cons_of_goesOn he ho fields,
      endings_runField_ended _ _ _ _, ?_, fun f hf => ?_⟩
    · rw [State.errorsFor_writeAll, herrors]
    · rw [State.errorsFor_writeAll, (runField_extends e a).errorsFor f hf]

/-- Fields of rules that stand apart run without a mistake if each does so alone, and then they end as
they do alone and leave the records that they leave alone. -/
theorem runFields_apart {fields : List (String × Rules κ)}
    (h : ∀ e ∈ fields, ∀ rule ∈ e.2.compiled, rule.Apart s) (hnodup : (Entries.keys fields).Nodup)
    {a : State κ} (ha : ∀ e ∈ fields, a.errorsFor e.1 = []) :
    ((s.runFields fields a).result = .ok () ↔ ∀ e ∈ fields, ∃ o, (s.alone e).result = .ok o) ∧
    ((s.runFields fields a).result = .ok () →
      Event.endings (s.runFields fields a).events = fields.filterMap s.ending? ∧
      ∀ e ∈ fields, (s.runFields fields a).state.errorsFor e.1 =
        (s.alone e).state.errorsFor e.1) := by
  induction fields generalizing a with
  | nil => exact ⟨⟨fun _ => List.forall_mem_nil _, fun _ => rfl⟩, fun _ => ⟨rfl, List.forall_mem_nil _⟩⟩
  | cons e fields ih =>
    obtain ⟨hfirst, hothers⟩ := List.forall_mem_cons.1 h
    obtain ⟨hnew, hdistinct⟩ := List.nodup_cons.1 hnodup
    obtain ⟨hstart, hstarts⟩ := List.forall_mem_cons.1 ha
    rcases runFields_cons_apart hfirst hstart fields with
      ⟨mistake, halone, hrun⟩ | ⟨outcome, b, told, halone, hrun, htold, hown, hkept⟩
    · rw [hrun, List.forall_mem_cons, halone]
      exact ⟨⟨nofun, fun hall => nomatch hall.1⟩, nofun⟩
    · have hclean : ∀ f ∈ fields, b.errorsFor f.1 = [] := by
        intro f hf
        have hne : f.1 ≠ e.1 := fun heq => hnew (heq ▸ List.mem_map_of_mem hf)
        rw [hkept f.1 hne, hstarts f hf]
      obtain ⟨hok, hends⟩ := ih hothers hdistinct hclean
      rw [hrun, Run.result_after, Run.events_after, Run.state_after]
      refine ⟨?_, fun hrest => ?_⟩
      · rw [hok, List.forall_mem_cons, halone]
        exact ⟨fun hall => ⟨⟨outcome, rfl⟩, hall⟩, And.right⟩
      · obtain ⟨hendings, herrors⟩ := hends hrest
        refine ⟨?_, List.forall_mem_cons.2 ⟨?_, herrors⟩⟩
        · rw [Event.endings_append, htold, hendings, List.filterMap_cons, ending?, halone]
          rfl
        · -- The other fields leave the records of the first one as they are.
          rw [(runFields_extends_keys fields b).errorsFor e.1 hnew, hown]

/-! ## A record -/

theorem errorsFor_conform_of_notMem {rules : RuleMap κ} (a : State κ) {f : String}
    (hf : f ∉ rules.keys) :
    (s.conform rules a).state.errorsFor f = [] := by
  rw [state_conform]
  exact (runFields_extends_keys rules.entries .empty).errorsFor f hf

section
variable {rules : RuleMap κ} (h : ∀ p ∈ rules.places, p.rule.Apart s) (a : State κ)
include h

theorem apart_of_mem_entries : ∀ e ∈ rules.entries, ∀ rule ∈ e.2.compiled, rule.Apart s := by
  intro e he rule hrule
  obtain ⟨i, hi⟩ := List.mem_iff_getElem?.1 hrule
  exact h ⟨e.1, i, rule⟩ (Place.mem_ofFields.2 ⟨e.2, he, hi⟩)

/-- Rules that stand apart write nothing. -/
theorem writes_eq_nil_of_apart : ∀ call ∈ Event.calls (s.conform rules a).events,
    call.reply.writes = [] := by
  intro call hcall
  obtain ⟨p, hp, hrule⟩ := s.exists_place_of_mem_calls_conform rules a hcall
  obtain ⟨htarget, hreply⟩ := (s.path_conform rules a).answer_of_mem_calls hcall
  rw [hreply]
  exact ((hrule ▸ h p hp).calls_local call.conformer htarget).writes _ _ _

theorem exists_output_iff_alone : (∃ output, (s.conform rules a).result = .ok output) ↔
    ∀ e ∈ rules.entries, ∃ o, (s.alone e).result = .ok o := by
  rw [← (runFields_apart (apart_of_mem_entries h) rules.nodup (a := .empty) fun _ _ => rfl).1,
    result_conform]
  cases (s.runFields rules.entries .empty).result with
  | error e => exact ⟨nofun, nofun⟩
  | ok u => exact ⟨fun _ => rfl, fun _ => ⟨_, rfl⟩⟩

/-- What a record of such rules comes to is put together from what its fields come to alone. -/
theorem conform_apart {output : OrderedMap Json} (hok : (s.conform rules a).result = .ok output) :
    Event.endings (s.conform rules a).events = rules.entries.filterMap s.ending? ∧
    output.entries = completed (rules.entries.filterMap s.ending?) ∧
    ∀ e ∈ rules.entries, (s.conform rules a).state.errorsFor e.1 =
      (s.alone e).state.errorsFor e.1 := by
  have hfields := runFields_apart (apart_of_mem_entries h) rules.nodup (a := .empty) fun _ _ => rfl
  have hrun : (s.runFields rules.entries .empty).result = .ok () :=
    hfields.1.2 ((exists_output_iff_alone h a).1 ⟨output, hok⟩)
  obtain ⟨hendings, herrors⟩ := hfields.2 hrun
  rw [← endings_conform s rules a] at hendings
  refine ⟨hendings, ?_, ?_⟩
  · rw [eq_output_of_result_conform s rules a hok, ← hendings]
    exact s.entries_output_of_no_writers rules a (writes_eq_nil_of_apart h a)
  · rwa [state_conform]

/-- All fields start, and the output has its keys in their order. -/
theorem keys_conform_apart {output : OrderedMap Json}
    (hok : (s.conform rules a).result = .ok output) : output.keys.Sublist rules.keys ∧
    (s.conform rules a).state.fieldErrors.keys = rules.keys := by
  obtain ⟨hendings, hentries, _⟩ := conform_apart h a hok
  constructor
  · rw [← hendings] at hentries
    rw [OrderedMap.keys, hentries]
    exact (keys_completed_sublist _).trans (s.endings_conform_prefix rules a).sublist
  · refine keys_conform_of_not_stopped rules a ?_
    rintro (⟨e, he⟩ | ⟨f, v, hv⟩)
    · rw [hok] at he
      cases he
    · -- No field breaks the session when it runs alone.
      rw [hendings] at hv
      obtain ⟨e, he, hend⟩ := List.mem_filterMap.1 hv
      unfold ending? at hend
      split at hend
      · next outcome ho =>
        cases hend
        exact runField_ne_sessionBreak (apart_of_mem_entries h e he) .empty v ho
      · cases hend

end

end Setting

/-! ## The order of the fields -/

/-- **Fields are independent.** Let all rules of a record stand apart. If it is conformed without a
mistake, so it is with its fields in any other order: the output has the same entries, each field has
the same records, and in both the fields of the output and the started fields follow the order of
declaration. -/
theorem Session.conform_perm (s : Session κ) {rules rules' : RuleMap κ}
    (hperm : rules'.entries.Perm rules.entries)
    (hapart : ∀ p ∈ rules.places, p.rule.Apart s.toSetting) {output : OrderedMap Json}
    (hok : (s.conform rules).result = .ok output) :
    let run := s.conform rules
    let run' := s.conform rules'
    ∃ output', run'.result = .ok output' ∧ output'.entries.Perm output.entries ∧
      (∀ field, run'.state.errorsFor field = run.state.errorsFor field) ∧
      output.keys.Sublist rules.keys ∧ output'.keys.Sublist rules'.keys ∧
      run.state.fieldErrors.keys = rules.keys ∧ run'.state.fieldErrors.keys = rules'.keys := by
  intro run run'
  have hapart' : ∀ p ∈ rules'.places, p.rule.Apart s.toSetting := by
    intro p hp
    obtain ⟨own, he, hrule⟩ := Place.mem_ofFields.1 hp
    exact hapart p (Place.mem_ofFields.2 ⟨own, hperm.mem_iff.1 he, hrule⟩)
  have halone := (Setting.exists_output_iff_alone hapart s.state).1 ⟨output, hok⟩
  obtain ⟨output', hok'⟩ := (Setting.exists_output_iff_alone hapart' s.state).2
    fun e he => halone e (hperm.mem_iff.1 he)
  obtain ⟨_, hentries, herrors⟩ := Setting.conform_apart hapart s.state hok
  obtain ⟨_, hentries', herrors'⟩ := Setting.conform_apart hapart' s.state hok'
  obtain ⟨hkeys, hstarted⟩ := Setting.keys_conform_apart hapart s.state hok
  obtain ⟨hkeys', hstarted'⟩ := Setting.keys_conform_apart hapart' s.state hok'
  refine ⟨output', hok', ?_, ?_, hkeys, hkeys', hstarted, hstarted'⟩
  · rw [hentries, hentries']
    exact (hperm.filterMap _).filterMap _
  · intro field
    by_cases hf : field ∈ rules.keys
    · obtain ⟨e, he, rfl⟩ := List.mem_map.1 hf
      exact (herrors' e (hperm.mem_iff.2 he)).trans (herrors e he).symm
    · have hf' : field ∉ rules'.keys := fun hmem => hf ((hperm.map Prod.fst).mem_iff.1 hmem)
      exact (Setting.errorsFor_conform_of_notMem s.state hf').trans
        (Setting.errorsFor_conform_of_notMem s.state hf).symm

/-- A field that an error of its own cuts short, before and behind one that completes. -/
theorem Session.conform_perm_swap :
    let reject : Builtin := ⟨0, "reject", .reject {}⟩
    let fixed : Builtin := ⟨1, "fixed", .const .null⟩
    let a : String × Rules Builtin :=
      ("a", .list [.inline "" (.inline reject) [], .inline "&" (.inline fixed) []])
    let b : String × Rules Builtin := ("b", .list [.inline "&" (.inline fixed) []])
    let s : Session Builtin := .new (.object []) .empty
    let rules : RuleMap Builtin := .ofList [a, b]
    let rules' : RuleMap Builtin := .ofList [b, a]
    rules'.entries.Perm rules.entries ∧ (∀ p ∈ rules.places, p.rule.Apart s.toSetting) ∧
      ∃ output output', (s.conform rules).result = .ok output ∧
        (s.conform rules').result = .ok output' ∧ output'.entries.Perm output.entries ∧
        (s.conform rules').state.errorsFor "a" = (s.conform rules).state.errorsFor "a" ∧
        (s.conform rules).state.errorsFor "a" ≠ [] := by
  intro reject fixed a b s rules rules'
  have hperm : rules'.entries.Perm rules.entries := .swap a b []
  have hreject : Conformer.Local reject := ⟨fun _ _ _ _ _ _ => rfl, fun _ _ _ => rfl⟩
  have hfixed : Conformer.Local fixed := ⟨fun _ _ _ _ _ _ => rfl, fun _ _ _ => rfl⟩
  have hapart : ∀ p ∈ rules.places, p.rule.Apart s.toSetting := by
    have hplaces : rules.places = [⟨"a", 0, .empty, .inline reject, []⟩,
        ⟨"a", 1, { continuity := true }, .inline fixed, []⟩,
        ⟨"b", 0, { continuity := true }, .inline fixed, []⟩] := rfl
    rw [hplaces]
    refine List.forall_mem_cons.2 ⟨⟨rfl, rfl, ?_⟩, List.forall_mem_cons.2 ⟨⟨rfl, rfl, ?_⟩,
      List.forall_mem_cons.2 ⟨⟨rfl, rfl, ?_⟩, List.forall_mem_nil _⟩⟩⟩
    · rintro _ ⟨⟩
      exact hreject
    · rintro _ ⟨⟩
      exact hfixed
    · rintro _ ⟨⟩
      exact hfixed
  have hok : (s.conform rules).result = .ok (.ofList [("b", .null)]) := rfl
  obtain ⟨output', hok', hentries, herrors, _⟩ := Session.conform_perm s hperm hapart hok
  exact ⟨hperm, hapart, _, output', hok, hok', hentries, herrors "a", nofun⟩

end RuleFlow
