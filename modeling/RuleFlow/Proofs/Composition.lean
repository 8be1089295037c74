import RuleFlow.Builtin
import RuleFlow.Proofs.FieldEvents
import RuleFlow.Proofs.Gates
import RuleFlow.Proofs.Reading

/-!
# Rules behind others

The run of a field can be cut between any two rules. Rules that are not all run leave out those
behind them (`runRules_append_of_incomplete`), and else these go on from the value and the state
that are left (`Session.runField_append`). So a path is looked up only when its rule is reached: a
run makes a mistake just at a rule whose path leads nowhere, when the rules before it are all run
and its gates are open (`runRules_eq_error_iff`), and leaves what the rules before it leave
(`Session.runField_unknown_iff`).
-/

namespace RuleFlow

universe u

variable {κ : Type u}

namespace Setting

variable [Conformer κ] {s : Setting κ} {field : String} {a : State κ}

/-- Rules that are not all run leave out those behind them. -/
theorem runRules_append_of_incomplete {before : List (Rule κ)} {value : Json}
    (h : ∀ v, (s.runRules field before value a).result ≠ .ok (.complete v))
    (later : List (Rule κ)) :
    s.runRules field (before ++ later) value a = s.runRules field before value a := by
  induction before generalizing value a with
  | nil => exact absurd rfl (h value)
  | cons rule before ih =>
    rw [List.cons_append]
    rcases s.rule_cases field rule value a with ⟨gate, hg⟩ | ⟨hg, ⟨e, ht⟩ | ⟨c, ht, hflow⟩⟩
    · rw [runRules_cons_of_closed hg, runRules_cons_of_closed hg]
    · rw [runRules_cons_of_unresolved hg ht, runRules_cons_of_unresolved hg ht]
    · rcases hflow with ⟨outcome, hf⟩ | ⟨v, hf⟩
      · rw [runRules_cons_of_stop hg ht hf, runRules_cons_of_stop hg ht hf]
      · rw [runRules_cons_of_next hg ht hf] at h ⊢
        rw [runRules_cons_of_next hg ht hf, ih h]

/-- A mistake is made just at a rule that is reached, with open gates, and whose target is not
found. -/
theorem runRules_eq_error_iff {rules : List (Rule κ)} {value : Json} {e : Error} :
    (s.runRules field rules value a).result = .error e ↔
      ∃ before rule later v, rules = before ++ rule :: later ∧
        (s.runRules field before value a).result = .ok (.complete v) ∧
        Gate.closed? rule.flags field (s.runRules field before value a).state = none ∧
        s.target rule.target = .error e := by
  constructor
  · intro h
    induction rules generalizing value a with
    | nil => cases h
    | cons rule rules ih =>
      rcases s.rule_cases field rule value a with ⟨gate, hg⟩ | ⟨hg, ⟨e', ht⟩ | ⟨c, ht, hflow⟩⟩
      · rw [runRules_cons_of_closed hg] at h
        cases h
      · rw [runRules_cons_of_unresolved hg ht] at h
        cases h
        exact ⟨[], rule, rules, value, rfl, rfl, hg, ht⟩
      · rcases hflow with ⟨outcome, hf⟩ | ⟨v, hf⟩
        · rw [runRules_cons_of_stop hg ht hf] at h
          cases h
        · rw [runRules_cons_of_next hg ht hf, Run.result_after] at h
          obtain ⟨before, late, later, v', rfl, hprior, hopen, hlate⟩ := ih h
          refine ⟨rule :: before, late, later, v', rfl, ?_, ?_, hlate⟩
          · rwa [runRules_cons_of_next hg ht hf]
          · rwa [runRules_cons_of_next hg ht hf]
  · rintro ⟨before, rule, later, v, rfl, hprior, hopen, ht⟩
    rw [runRules_append_of_complete hprior, runRules_cons_of_unresolved hopen ht]
    rfl

end Setting

/-! ## Rules of one list behind those of another -/

section
variable {xs ys : List (Source κ)}

theorem Rules.compile_append_of_error {e : Error} (hx : (list xs).compile = .error e) :
    (list (xs ++ ys)).compile = .error e := by
  rw [compile] at hx ⊢
  rw [List.mapM_append, hx]
  rfl

theorem Rules.compile_append_of_ok {rules later : List (Rule κ)}
    (hx : (list xs).compile = .ok rules) (hy : (list ys).compile = .ok later) :
    (list (xs ++ ys)).compile = .ok (rules ++ later) := by
  rw [compile] at hx hy ⊢
  rw [List.mapM_append, hx, hy]
  rfl

end

theorem Session.runField_of_ok [Conformer κ] {own : Rules κ} {rules : List (Rule κ)}
    (h : own.compile = .ok rules) (s : Session κ) (field : String) : s.runField field own =
      s.toSetting.runRules field rules (s.fieldValue field) (s.state.start field) :=
  Setting.runField_of_ok h field s.state

/-- **Rules behind others go on where these end.** Run a field by two lists of rules, one behind the
other, where those behind can be read. If the first list by itself ends with a break or a mistake,
the rules behind it change nothing: the result, the state that is left and the events are those of
the first list. If it completes with a value, the rules behind it are run from this value, in the
state that the first list leaves. -/
theorem Session.runField_append [Conformer κ] (s : Session κ) (field : String)
    (xs ys : List (Source κ)) {later : List (Rule κ)} (hy : (Rules.list ys).compile = .ok later) :
    let first := s.runField field (.list xs)
    let both := s.runField field (.list (xs ++ ys))
    ((∀ v, first.result ≠ .ok (.complete v)) → both = first) ∧
    (∀ v, first.result = .ok (.complete v) →
      both = (s.toSetting.runRules field later v first.state).after first.events) := by
  intro first both
  cases hx : (Rules.list xs).compile with
  | error e =>
    have hfirst : first = ⟨.error e, s.state, []⟩ := Setting.runField_of_error hx field s.state
    have hboth : both = ⟨.error e, s.state, []⟩ :=
      Setting.runField_of_error (Rules.compile_append_of_error hx) field s.state
    refine ⟨fun _ => hboth.trans hfirst.symm, fun v hv => ?_⟩
    rw [hfirst] at hv
    cases hv
  | ok rules =>
    have hfirst : first = _ := runField_of_ok hx s field
    have hboth : both = _ := runField_of_ok (Rules.compile_append_of_ok hx hy) s field
    rw [hboth]
    refine ⟨fun hstop => ?_, fun v hv => ?_⟩
    · rw [hfirst] at hstop ⊢
      exact Setting.runRules_append_of_incomplete hstop later
    · rw [hfirst] at hv ⊢
      exact Setting.runRules_append_of_complete hv later

/-- Behind a break an unknown path is no mistake; behind a rule that passes it is one. -/
theorem Session.runField_append_unknown :
    let reject : Builtin := ⟨0, "reject", .reject {}⟩
    let append : Builtin := ⟨1, "append", .append "b"⟩
    let s : Session Builtin := .new (.object [("a", .string "a")]) .empty
    let broken : List (Source Builtin) := [.inline "!" (.inline reject) []]
    let passed : List (Source Builtin) := [.inline "" (.inline append) []]
    let ys : List (Source Builtin) := [.inline "" (.path "x") []]
    let later : List (Rule Builtin) := [⟨.ofText "", .path "x", []⟩]
    (Rules.list ys).compile = .ok later ∧
    s.runField "a" (.list (broken ++ ys)) = s.runField "a" (.list broken) ∧
    (s.runField "a" (.list passed)).result = .ok (.complete (.string "ab")) ∧
    s.runField "a" (.list (passed ++ ys)) =
      (s.toSetting.runRules "a" later (.string "ab") (s.runField "a" (.list passed)).state).after
        (s.runField "a" (.list passed)).events ∧
    (s.runField "a" (.list (passed ++ ys))).result = .error (s.registry.unknown "x") := by
  intro reject append s broken passed ys later
  have hy : (Rules.list ys).compile = .ok later := rfl
  have hbreak : (s.runField "a" (.list broken)).result = .ok (.fieldBreak (.string "a")) := rfl
  have hpassed : (s.runField "a" (.list passed)).result = .ok (.complete (.string "ab")) := rfl
  refine ⟨hy, ?_, hpassed, (Session.runField_append s "a" passed ys hy).2 _ hpassed, rfl⟩
  apply (Session.runField_append s "a" broken ys hy).1
  intro v hv
  rw [hbreak] at hv
  cases hv

/-! ## Where a path is looked up -/

theorem take_append_cons_drop {α : Type*} {xs : List α} {k : Nat} {x : α}
    (h : xs[k]? = some x) : xs.take k ++ x :: xs.drop (k + 1) = xs := by
  obtain ⟨hk, rfl⟩ := List.getElem?_eq_some_iff.1 h
  rw [← List.drop_eq_getElem_cons hk, List.take_append_drop]

namespace Session

variable [Conformer κ] {s : Session κ} {field : String} {rules : List (Rule κ)} {own : Rules κ}

/-- The run of the rules before a position, by themselves. -/
def runBefore (s : Session κ) (field : String) (rules : List (Rule κ)) (k : Nat) : Run κ Outcome :=
  s.runField field (.ofRules (rules.take k))

/-- The run of a field reaches a rule whose path leads nowhere: the rules before it, run by
themselves, are all run, and then both gates of the rule are open. -/
structure Unresolved (s : Session κ) (field : String) (rules : List (Rule κ)) (k : Nat)
    (rule : Rule κ) (path : String) : Prop where
  position : rules[k]? = some rule
  target : rule.target = .path path
  unregistered : s.registry.get? path = none
  completes : ∃ value, (s.runBefore field rules k).result = .ok (.complete value)
  continuity : rule.flags.continuity = true → (s.runBefore field rules k).state.errorsFor field = []
  fullContinuity : rule.flags.fullContinuity = true → (s.runBefore field rules k).state.errors = []

theorem runBefore_eq (s : Session κ) (field : String) (rules : List (Rule κ)) (k : Nat) :
    s.runBefore field rules k =
      s.toSetting.runRules field (rules.take k) (s.fieldValue field) (s.state.start field) :=
  runField_of_ok (Rules.compile_ofRules _) s field

/-- A run goes on at a rule as the rules before it leave it. -/
theorem runField_eq_of_getElem? (h : own.compile = .ok rules) {k : Nat} {rule : Rule κ}
    (hk : rules[k]? = some rule) {value : Json}
    (hprior : (s.runBefore field rules k).result = .ok (.complete value)) :
    s.runField field own = (s.toSetting.runRules field (rule :: rules.drop (k + 1)) value
      (s.runBefore field rules k).state).after (s.runBefore field rules k).events := by
  rw [runBefore_eq] at hprior ⊢
  rw [runField_of_ok h, ← Setting.runRules_append_of_complete hprior, take_append_cons_drop hk]

theorem Unresolved.runField_eq {k : Nat} {rule : Rule κ} {path : String}
    (hlate : s.Unresolved field rules k rule path) (h : own.compile = .ok rules) :
    s.runField field own = ⟨.error (s.registry.unknown path), (s.runBefore field rules k).state,
      (s.runBefore field rules k).events⟩ := by
  obtain ⟨value, hprior⟩ := hlate.completes
  have hopen : Gate.closed? rule.flags field (s.runBefore field rules k).state = none :=
    Gate.closed?_eq_none_iff.2 ⟨hlate.continuity, hlate.fullContinuity⟩
  have htarget : s.toSetting.target rule.target = .error (s.registry.unknown path) :=
    Setting.target_eq_error_iff.2 ⟨path, hlate.target, hlate.unregistered, rfl⟩
  rw [runField_eq_of_getElem? h hlate.position hprior,
    Setting.runRules_cons_of_unresolved hopen htarget, Run.after, List.append_nil]

/-- A mistake of rules that could be read is made at one that is reached and whose path leads
nowhere. -/
theorem exists_unresolved_of_error (h : own.compile = .ok rules) {e : Error}
    (he : (s.runField field own).result = .error e) :
    ∃ k rule path, s.Unresolved field rules k rule path := by
  rw [runField_of_ok h] at he
  obtain ⟨before, rule, later, value, rfl, hprior, hopen, htarget⟩ :=
    Setting.runRules_eq_error_iff.1 he
  obtain ⟨path, hpath, hnone, _⟩ := Setting.target_eq_error_iff.1 htarget
  have hbefore : s.runBefore field (before ++ rule :: later) before.length =
      s.toSetting.runRules field before (s.fieldValue field) (s.state.start field) := by
    rw [runBefore_eq, List.take_left]
  rw [← hbefore] at hprior hopen
  obtain ⟨hown, hall⟩ := Gate.closed?_eq_none_iff.1 hopen
  exact ⟨before.length, rule, path, by simp, hpath, hnone, ⟨value, hprior⟩, hown, hall⟩

/-- **Paths are bound late.** Run a field by rules that can be read. There is a mistake, an unknown
path, just if the run reaches a rule whose path leads nowhere: the rules before it complete when
they are run by themselves, and then no gate stops it. The mistake names this path, and it is not
recorded: the state that is left is the one that the rules before leave. So a path that leads
nowhere is no mistake behind a break, of the field or of the session, or behind a closed gate: the
rules behind a run that does not complete are left out, and at a closed gate the field breaks. -/
theorem runField_unknown_iff (h : own.compile = .ok rules) :
    let run := s.runField field own
    let before := s.runBefore field rules
    ((∃ path near, run.result = .error (.unknownConformer path near)) ↔
      ∃ k rule path, s.Unresolved field rules k rule path) ∧
    (∀ k rule path, s.Unresolved field rules k rule path →
      run.result = .error (.unknownConformer path (suggestions path s.registry.paths)) ∧
      run.state = (before k).state ∧ run.events = (before k).events) ∧
    (∀ k, (∀ v, (before k).result ≠ .ok (.complete v)) → run = before k) ∧
    (∀ k rule value, rules[k]? = some rule → (before k).result = .ok (.complete value) →
      (rule.flags.continuity = true ∧ (before k).state.errorsFor field ≠ [] ∨
        rule.flags.fullContinuity = true ∧ (before k).state.errors ≠ []) →
      run.result = .ok (.fieldBreak value) ∧ run.state = (before k).state) := by
  intro run before
  refine ⟨⟨?_, ?_⟩, ?_, ?_, ?_⟩
  · rintro ⟨path, near, he⟩
    exact exists_unresolved_of_error h he
  · rintro ⟨k, rule, path, hlate⟩
    exact ⟨path, _, congrArg Run.result (hlate.runField_eq h)⟩
  · intro k rule path hlate
    have hrun : run = _ := hlate.runField_eq h
    rw [hrun]
    exact ⟨rfl, rfl, rfl⟩
  · intro k hstop
    have hrun : run = _ := runField_of_ok h s field
    have hbefore : before k = _ := runBefore_eq s field rules k
    rw [hbefore] at hstop ⊢
    rw [hrun, ← Setting.runRules_append_of_incomplete hstop (rules.drop k), List.take_append_drop]
  · intro k rule value hk hprior hclosed
    obtain ⟨gate, hg⟩ := Gate.exists_closed?_iff.2 hclosed
    have hrun : run = _ := runField_eq_of_getElem? h hk hprior
    rw [hrun, Setting.runRules_cons_of_closed hg]
    exact ⟨rfl, rfl⟩

/-- A failure that is not recorded closes no gate, so that the path behind it is looked up. -/
theorem runField_unknown_optional :
    let reject : Builtin := ⟨0, "reject", .reject {}⟩
    let s : Session Builtin := .new (.object []) .empty
    let own : Rules Builtin := .list [.inline "?" (.inline reject) [], .inline "&&" (.path "x") []]
    let late : Rule Builtin := ⟨.ofText "&&", .path "x", []⟩
    let rules : List (Rule Builtin) := [⟨.ofText "?", .inline reject, []⟩, late]
    own.compile = .ok rules ∧ s.Unresolved "a" rules 1 late "x" ∧
      (s.runField "a" own).result =
        .error (.unknownConformer "x" (suggestions "x" s.registry.paths)) ∧
      (s.runField "a" own).state = (s.runBefore "a" rules 1).state := by
  intro reject s own late rules
  have h : own.compile = .ok rules := rfl
  have hlate : s.Unresolved "a" rules 1 late "x" := by
    refine ⟨rfl, rfl, rfl, ⟨.null, ?_⟩, fun _ => ?_, fun _ => ?_⟩ <;> rw [runBefore_eq] <;> rfl
  obtain ⟨hresult, hstate, _⟩ := (runField_unknown_iff h).2.1 1 late "x" hlate
  exact ⟨h, hlate, hresult, hstate⟩

end Session
end RuleFlow
