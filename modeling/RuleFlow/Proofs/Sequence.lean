import RuleFlow.Proofs.Moves

/-!
# Rules and fields one after the other

How the run of a field is put together from its rules (`rule_cases`, `runRules_append_of_complete`),
and the run of a record from the runs of its fields. Fields that stop the run
(`Run.Stopped`) leave out all others (`runFields_append_of_stopped`), and else the others go on from
the state that is left (`runFields_append_of_not_stopped`). Rules without `!!` never break the session
(`runRules_ne_sessionBreak`), and rules whose targets are found make no mistake (`runFields_eq_ok`).
The fields end in the order in which they are declared (`endings_runFields_prefix`), each as its own
run says (`mem_endings_runFields`).
-/

namespace RuleFlow

universe u v

variable {κ : Type u} {α : Type v}

/-- A mistake or a break of the session ended the run. -/
def Run.Stopped (run : Run κ α) : Prop :=
  (∃ e, run.result = .error e) ∨
    ∃ field value, (field, Outcome.sessionBreak value) ∈ Event.endings run.events

theorem Run.stopped_after_iff {run : Run κ α} {events : List (Event κ)}
    (h : ∀ field value, (field, Outcome.sessionBreak value) ∉ Event.endings events) :
    (run.after events).Stopped ↔ run.Stopped := by
  simp only [Run.Stopped, Run.result_after, Run.events_after, Event.endings_append,
    List.mem_append, h, false_or]

theorem Run.after_after (run : Run κ α) (es fs : List (Event κ)) :
    (run.after fs).after es = run.after (es ++ fs) := by
  simp only [Run.after, List.append_assoc]

/-! ## Endings -/

theorem Step.endings_ofCall (field : String) (call : Call κ) :
    Event.endings (Step.ofCall field call).events = [] := by
  obtain ⟨told, he, hquiet⟩ := Step.events_ofCall field call
  rw [he]
  exact List.filterMap_eq_nil_iff.2 (List.forall_mem_cons.2 ⟨rfl, fun e h => (hquiet e h).2.2⟩)

/-- No rule completes its field: a field is complete when no rule is left. -/
theorem Step.flow_ofCall_ne_complete (field : String) (call : Call κ) (value : Json) :
    (Step.ofCall field call).flow ≠ .stop (.complete value) := by
  rw [flow_ofCall]
  intro h
  cases hv : Verdict.of call.rule.flags.negate call.reply.result with
  | advance value => rw [hv] at h; cases h
  | hold failure => rw [hv] at h; cases h
  | fail cause =>
    rw [hv, Flow.ofVerdict] at h
    split at h
    · cases h
    · split at h <;> cases h

/-- Without `!!` no verdict breaks the session. -/
theorem Flow.ofVerdict_ne_sessionBreak {flags : Flags} (h : flags.breakAll = false) (value : Json)
    (verdict : Verdict) (v : Json) :
    Flow.ofVerdict flags value verdict ≠ .stop (.sessionBreak v) := by
  intro hbreak
  cases verdict with
  | advance new => cases hbreak
  | hold failure => cases hbreak
  | fail cause =>
    rw [ofVerdict, h] at hbreak
    split at hbreak <;> cases hbreak

namespace Setting

variable [Conformer κ] {s : Setting κ}

/-- The run of a field ends no field of a record: that is told by who runs the record. -/
theorem endings_runRules (field : String) (rules : List (Rule κ)) (value : Json) (a : State κ) :
    Event.endings (s.runRules field rules value a).events = [] := by
  induction rules generalizing value a with
  | nil => rfl
  | cons rule rules ih =>
    rw [runRules]
    split
    · rfl
    · split
      · rfl
      · -- The events of the call come first, whether or not the rules after it are run.
        dsimp only
        split
        · exact Step.endings_ofCall field _
        · rw [Run.events_after, Event.endings_append, Step.endings_ofCall, ih, List.append_nil]

theorem endings_runField (field : String) (rules : Rules κ) (a : State κ) :
    Event.endings (s.runField field rules a).events = [] := by
  unfold runField
  split
  · rfl
  · exact endings_runRules _ _ _ _

theorem endings_runField_ended (field : String) (rules : Rules κ) (a : State κ)
    (outcome : Outcome) :
    Event.endings ((s.runField field rules a).events ++ [.ended field outcome]) =
      [(field, outcome)] := by
  rw [Event.endings_append, endings_runField]
  rfl

/-! ## The first rule -/

/-- A field whose rules cannot be read does not start. -/
theorem runField_of_error {own : Rules κ} {e : Error} (h : own.compile = .error e) (field : String)
    (a : State κ) : s.runField field own a = ⟨.error e, a, []⟩ := by
  rw [runField, h]

theorem runField_of_ok {own : Rules κ} {rules : List (Rule κ)} (h : own.compile = .ok rules)
    (field : String) (a : State κ) :
    s.runField field own a = s.runRules field rules (s.fieldValue field) (a.start field) := by
  rw [runField, h]

section
variable {field : String} {rule : Rule κ} {value : Json} {a : State κ}

theorem runRules_cons_of_closed {gate : Gate} (hg : Gate.closed? rule.flags field a = some gate)
    (rules : List (Rule κ)) : s.runRules field (rule :: rules) value a =
      ⟨.ok (.fieldBreak value), a, [.skipped field rule gate]⟩ := by
  simp only [runRules, hg]

theorem runRules_cons_of_unresolved {e : Error} (hg : Gate.closed? rule.flags field a = none)
    (ht : s.target rule.target = .error e) (rules : List (Rule κ)) :
    s.runRules field (rule :: rules) value a = ⟨.error e, a, []⟩ := by
  simp only [runRules, hg, ht]

theorem runRules_cons_of_stop {c : κ} {outcome : Outcome}
    (hg : Gate.closed? rule.flags field a = none) (ht : s.target rule.target = .ok c)
    (hf : (Step.ofCall field (s.call field rule c value a)).flow = .stop outcome)
    (rules : List (Rule κ)) : s.runRules field (rule :: rules) value a =
      ⟨.ok outcome, (Step.ofCall field (s.call field rule c value a)).state,
        (Step.ofCall field (s.call field rule c value a)).events⟩ := by
  simp only [runRules, hg, ht, hf]

theorem runRules_cons_of_next {c : κ} {v : Json} (hg : Gate.closed? rule.flags field a = none)
    (ht : s.target rule.target = .ok c)
    (hf : (Step.ofCall field (s.call field rule c value a)).flow = .next v)
    (rules : List (Rule κ)) : s.runRules field (rule :: rules) value a =
      (s.runRules field rules v (Step.ofCall field (s.call field rule c value a)).state).after
        (Step.ofCall field (s.call field rule c value a)).events := by
  simp only [runRules, hg, ht, hf]

/-- A rule is skipped, or its target is a mistake, or it calls a conformer, after which the field
stops or goes on. -/
theorem rule_cases (s : Setting κ) (field : String) (rule : Rule κ) (value : Json) (a : State κ) :
    (∃ gate, Gate.closed? rule.flags field a = some gate) ∨
    Gate.closed? rule.flags field a = none ∧ ((∃ e, s.target rule.target = .error e) ∨
      ∃ c, s.target rule.target = .ok c ∧
        ((∃ outcome, (Step.ofCall field (s.call field rule c value a)).flow = .stop outcome) ∨
          ∃ v, (Step.ofCall field (s.call field rule c value a)).flow = .next v)) := by
  cases Gate.closed? rule.flags field a with
  | some gate => exact .inl ⟨gate, rfl⟩
  | none =>
    refine .inr ⟨rfl, ?_⟩
    cases s.target rule.target with
    | error e => exact .inl ⟨e, rfl⟩
    | ok c =>
      refine .inr ⟨c, rfl, ?_⟩
      cases (Step.ofCall field (s.call field rule c value a)).flow with
      | stop outcome => exact .inl ⟨outcome, rfl⟩
      | next v => exact .inr ⟨v, rfl⟩

end

/-- After rules that are all run the others go on from the value and the state that these leave. -/
theorem runRules_append_of_complete {field : String} {before : List (Rule κ)} {value v : Json}
    {a : State κ} (h : (s.runRules field before value a).result = .ok (.complete v))
    (later : List (Rule κ)) :
    s.runRules field (before ++ later) value a =
      (s.runRules field later v (s.runRules field before value a).state).after
        (s.runRules field before value a).events := by
  induction before generalizing value a with
  | nil =>
    cases h
    rfl
  | cons rule before ih =>
    rw [List.cons_append]
    rcases s.rule_cases field rule value a with ⟨gate, hg⟩ | ⟨hg, ⟨e, ht⟩ | ⟨c, ht, hflow⟩⟩
    · rw [runRules_cons_of_closed hg] at h
      cases h
    · rw [runRules_cons_of_unresolved hg ht] at h
      cases h
    · rcases hflow with ⟨outcome, hf⟩ | ⟨v', hf⟩
      · rw [runRules_cons_of_stop hg ht hf] at h
        cases h
        exact absurd hf (Step.flow_ofCall_ne_complete field _ v)
      · rw [runRules_cons_of_next hg ht hf] at h ⊢
        rw [runRules_cons_of_next hg ht hf, ih h, Run.after_after]
        rfl

/-- No rule of a field breaks the session if none asks for it. -/
theorem runRules_ne_sessionBreak {field : String} {rules : List (Rule κ)}
    (h : ∀ rule ∈ rules, rule.flags.breakAll = false) (value : Json) (a : State κ) (v : Json) :
    (s.runRules field rules value a).result ≠ .ok (.sessionBreak v) := by
  induction rules generalizing value a with
  | nil => exact nofun
  | cons rule rules ih =>
    obtain ⟨hrule, hrest⟩ := List.forall_mem_cons.1 h
    rcases s.rule_cases field rule value a with ⟨gate, hg⟩ | ⟨hg, ⟨e, ht⟩ | ⟨c, ht, hflow⟩⟩
    · rw [runRules_cons_of_closed hg]
      exact nofun
    · rw [runRules_cons_of_unresolved hg ht]
      exact nofun
    · rcases hflow with ⟨outcome, hf⟩ | ⟨v', hf⟩
      · rw [runRules_cons_of_stop hg ht hf]
        rintro ⟨⟩
        rw [Step.flow_ofCall] at hf
        exact Flow.ofVerdict_ne_sessionBreak hrule _ _ _ hf
      · rw [runRules_cons_of_next hg ht hf]
        exact ih hrest _ _

/-! ## The first field -/

section
variable {field : String} {rules : Rules κ} {a : State κ}

theorem runFields_cons_of_error {e : Error} (h : (s.runField field rules a).result = .error e)
    (fields : List (String × Rules κ)) :
    s.runFields ((field, rules) :: fields) a =
      ⟨.error e, (s.runField field rules a).state, (s.runField field rules a).events⟩ := by
  simp only [runFields, h]

theorem runFields_cons_of_sessionBreak {value : Json}
    (h : (s.runField field rules a).result = .ok (.sessionBreak value))
    (fields : List (String × Rules κ)) :
    s.runFields ((field, rules) :: fields) a =
      ⟨.ok (), (s.runField field rules a).state,
        (s.runField field rules a).events ++ [.ended field (.sessionBreak value)]⟩ := by
  simp only [runFields, h]

/-- After a field that does not break the session the others are run, in the state that has the
value of the field if it completed. -/
theorem runFields_cons_of_goesOn {outcome : Outcome}
    (h : (s.runField field rules a).result = .ok outcome)
    (ho : ∀ value, outcome ≠ .sessionBreak value) (fields : List (String × Rules κ)) :
    s.runFields ((field, rules) :: fields) a =
      (s.runFields fields ((s.runField field rules a).state.writeAll
        (Event.ended (κ := κ) field outcome).writes)).after
          ((s.runField field rules a).events ++ [.ended field outcome]) := by
  cases outcome with
  | complete value => simp only [runFields, h]; rfl
  | fieldBreak value => simp only [runFields, h]; rfl
  | sessionBreak value => exact absurd rfl (ho value)

/-- A field ends with a mistake, with a break of the session or so that the run goes on. -/
theorem runField_cases (s : Setting κ) (field : String) (rules : Rules κ) (a : State κ) :
    (∃ e, (s.runField field rules a).result = .error e) ∨
    (∃ value, (s.runField field rules a).result = .ok (.sessionBreak value)) ∨
    ∃ outcome, (s.runField field rules a).result = .ok outcome ∧
      ∀ value, outcome ≠ .sessionBreak value := by
  cases h : (s.runField field rules a).result with
  | error e => exact .inl ⟨e, rfl⟩
  | ok outcome =>
    cases outcome with
    | sessionBreak value => exact .inr (.inl ⟨value, rfl⟩)
    | _ => exact .inr (.inr ⟨_, rfl, nofun⟩)

end

/-! ## Fields before others -/

section
variable {fields before : List (String × Rules κ)} {a : State κ}

theorem not_stopped_runFields_nil (a : State κ) : ¬ (s.runFields [] a).Stopped := by
  rintro (⟨e, h⟩ | ⟨field, value, h⟩) <;> cases h

/-- A field after which the run goes on stops nothing. -/
theorem stopped_runFields_cons_iff {field : String} {rules : Rules κ} {outcome : Outcome}
    (h : (s.runField field rules a).result = .ok outcome)
    (ho : ∀ value, outcome ≠ .sessionBreak value) :
    (s.runFields ((field, rules) :: fields) a).Stopped ↔
      (s.runFields fields ((s.runField field rules a).state.writeAll
        (Event.ended (κ := κ) field outcome).writes)).Stopped := by
  rw [runFields_cons_of_goesOn h ho, Run.stopped_after_iff]
  intro f value hmem
  rw [endings_runField_ended] at hmem
  exact ho value (congrArg Prod.snd (List.mem_singleton.1 hmem)).symm

/-- Fields do not stop the run only if the first one lets it go on. -/
theorem exists_goesOn_of_not_stopped {field : String} {rules : Rules κ}
    (h : ¬ (s.runFields ((field, rules) :: fields) a).Stopped) :
    ∃ outcome, (s.runField field rules a).result = .ok outcome ∧
      ∀ value, outcome ≠ .sessionBreak value := by
  rcases s.runField_cases field rules a with ⟨e, he⟩ | ⟨value, he⟩ | hgo
  · rw [runFields_cons_of_error he] at h
    exact absurd (.inl ⟨e, rfl⟩) h
  · rw [runFields_cons_of_sessionBreak he] at h
    -- A break of the session is among the endings, so that the run is stopped after all.
    refine absurd (.inr ⟨field, value, ?_⟩) h
    rw [endings_runField_ended]
    exact List.mem_singleton_self _
  · exact hgo

/-- Fields that stop the run leave out all others. -/
theorem runFields_append_of_stopped (h : (s.runFields before a).Stopped)
    (later : List (String × Rules κ)) :
    s.runFields (before ++ later) a = s.runFields before a := by
  induction before generalizing a with
  | nil => exact absurd h (not_stopped_runFields_nil a)
  | cons e before ih =>
    obtain ⟨field, rules⟩ := e
    rw [List.cons_append]
    rcases s.runField_cases field rules a with ⟨e, he⟩ | ⟨value, he⟩ | ⟨outcome, he, ho⟩
    · rw [runFields_cons_of_error he, runFields_cons_of_error he]
    · rw [runFields_cons_of_sessionBreak he, runFields_cons_of_sessionBreak he]
    · rw [stopped_runFields_cons_iff he ho] at h
      rw [runFields_cons_of_goesOn he ho, runFields_cons_of_goesOn he ho, ih h]

/-- After fields that do not stop the run the others go on from the state that is left. -/
theorem runFields_append_of_not_stopped (h : ¬ (s.runFields before a).Stopped)
    (later : List (String × Rules κ)) :
    s.runFields (before ++ later) a =
      (s.runFields later (s.runFields before a).state).after (s.runFields before a).events := by
  induction before generalizing a with
  | nil => rfl
  | cons e before ih =>
    obtain ⟨field, rules⟩ := e
    rw [List.cons_append]
    obtain ⟨outcome, he, ho⟩ := exists_goesOn_of_not_stopped h
    rw [stopped_runFields_cons_iff he ho] at h
    rw [runFields_cons_of_goesOn he ho, runFields_cons_of_goesOn he ho, ih h, Run.after_after]
    rfl

end

/-! ## Without mistakes -/

theorem exists_outcome_runRules {rules : List (Rule κ)}
    (h : ∀ rule ∈ rules, ∃ c, s.target rule.target = .ok c) (field : String) (value : Json)
    (a : State κ) : ∃ outcome, (s.runRules field rules value a).result = .ok outcome := by
  induction rules generalizing value a with
  | nil => exact ⟨_, rfl⟩
  | cons rule rules ih =>
    obtain ⟨⟨c, ht⟩, hrest⟩ := List.forall_mem_cons.1 h
    rcases s.rule_cases field rule value a with ⟨gate, hg⟩ | ⟨hg, ⟨e, he⟩ | ⟨d, hd, hflow⟩⟩
    · rw [runRules_cons_of_closed hg]
      exact ⟨_, rfl⟩
    · rw [ht] at he
      cases he
    · rcases hflow with ⟨outcome, hf⟩ | ⟨v, hf⟩
      · rw [runRules_cons_of_stop hg hd hf]
        exact ⟨_, rfl⟩
      · rw [runRules_cons_of_next hg hd hf]
        exact ih hrest _ _

/-- Fields whose rules can be read and whose targets are all found run without a mistake. -/
theorem runFields_eq_ok {fields : List (String × Rules κ)}
    (h : ∀ e ∈ fields, ∃ rules, e.2.compile = .ok rules ∧
      ∀ rule ∈ rules, ∃ c, s.target rule.target = .ok c) (a : State κ) :
    (s.runFields fields a).result = .ok () := by
  induction fields generalizing a with
  | nil => rfl
  | cons e fields ih =>
    obtain ⟨field, own⟩ := e
    obtain ⟨⟨rules, hcompile, htargets⟩, hrest⟩ := List.forall_mem_cons.1 h
    obtain ⟨outcome, ho⟩ :=
      exists_outcome_runRules htargets field (s.fieldValue field) (a.start field)
    rw [← runField_of_ok hcompile] at ho
    rcases s.runField_cases field own a with ⟨e, he⟩ | ⟨value, he⟩ | ⟨outcome', he, hne⟩
    · rw [ho] at he
      cases he
    · rw [runFields_cons_of_sessionBreak he]
    · rw [runFields_cons_of_goesOn he hne]
      exact ih hrest _

/-! ## The fields that end -/

/-- The fields end in the order in which they are declared. -/
theorem endings_runFields_prefix (fields : List (String × Rules κ)) (a : State κ) :
    (Event.endings (s.runFields fields a).events).map Prod.fst <+: Entries.keys fields := by
  induction fields generalizing a with
  | nil => exact List.prefix_rfl
  | cons e fields ih =>
    obtain ⟨field, rules⟩ := e
    rcases s.runField_cases field rules a with ⟨e, he⟩ | ⟨value, he⟩ | ⟨outcome, he, ho⟩
    · rw [runFields_cons_of_error he, endings_runField]
      exact List.nil_prefix
    · rw [runFields_cons_of_sessionBreak he, endings_runField_ended]
      exact ⟨Entries.keys fields, rfl⟩
    · rw [runFields_cons_of_goesOn he ho, Run.events_after, Event.endings_append,
        endings_runField_ended]
      exact List.cons_prefix_cons.2 ⟨rfl, ih _⟩

theorem mem_endings_runFields_cons {field : String} {rules : Rules κ} {a : State κ}
    {outcome : Outcome} (h : (s.runField field rules a).result = .ok outcome)
    (fields : List (String × Rules κ)) :
    (field, outcome) ∈ Event.endings (s.runFields ((field, rules) :: fields) a).events := by
  have hended : (field, outcome) ∈
      Event.endings ((s.runField field rules a).events ++ [.ended field outcome]) := by
    rw [endings_runField_ended]
    exact List.mem_singleton_self _
  rcases s.runField_cases field rules a with ⟨e, he⟩ | ⟨value, he⟩ | ⟨o, he, ho⟩
  · rw [h] at he
    cases he
  · rw [h] at he
    cases he
    rwa [runFields_cons_of_sessionBreak h]
  · rw [h] at he
    cases he
    rw [runFields_cons_of_goesOn h ho, Run.events_after, Event.endings_append]
    exact List.mem_append_left _ hended

/-- A field ends with an outcome if the fields before it do not stop the run and its own run, from
the state that they leave, has this outcome. -/
theorem mem_endings_runFields {fields : List (String × Rules κ)} {a : State κ} {field : String}
    {outcome : Outcome} :
    (field, outcome) ∈ Event.endings (s.runFields fields a).events ↔
      ∃ before rules later, fields = before ++ (field, rules) :: later ∧
        ¬ (s.runFields before a).Stopped ∧
        (s.runField field rules (s.runFields before a).state).result = .ok outcome := by
  constructor
  · intro h
    -- The fields before the one that ends are found by induction on the declared fields, as the
    -- run goes on after each of them; the state changes with them.
    induction fields generalizing a with
    | nil => cases h
    | cons e fields ih =>
      obtain ⟨f, rs⟩ := e
      have hfirst : ∀ {o}, (s.runField f rs a).result = .ok o → (field, outcome) = (f, o) →
          ∃ before rules later, (f, rs) :: fields = before ++ (field, rules) :: later ∧
            ¬ (s.runFields before a).Stopped ∧
            (s.runField field rules (s.runFields before a).state).result = .ok outcome := by
        rintro o he ⟨⟩
        exact ⟨[], rs, fields, rfl, not_stopped_runFields_nil a, he⟩
      rcases s.runField_cases f rs a with ⟨e, he⟩ | ⟨value, he⟩ | ⟨o, he, ho⟩
      · rw [runFields_cons_of_error he, endings_runField] at h
        cases h
      · rw [runFields_cons_of_sessionBreak he, endings_runField_ended] at h
        exact hfirst he (List.mem_singleton.1 h)
      · rw [runFields_cons_of_goesOn he ho, Run.events_after, Event.endings_append,
          endings_runField_ended, List.singleton_append, List.mem_cons] at h
        rcases h with h | h
        · exact hfirst he h
        · obtain ⟨before, rules, later, rfl, hgo, hresult⟩ := ih h
          refine ⟨(f, rs) :: before, rules, later, rfl, ?_, ?_⟩
          · rwa [stopped_runFields_cons_iff he ho]
          · rwa [runFields_cons_of_goesOn he ho]
  · rintro ⟨before, rules, later, rfl, hgo, hresult⟩
    rw [runFields_append_of_not_stopped hgo, Run.events_after, Event.endings_append]
    exact List.mem_append_right _ (mem_endings_runFields_cons hresult later)

/-! ## The field that makes a mistake -/

/-- A mistake ends the run if the fields before some field do not stop the run and its own run, from
the state that they leave, makes the mistake. -/
theorem result_runFields_eq_error_iff {fields : List (String × Rules κ)} {a : State κ} {e : Error} :
    (s.runFields fields a).result = .error e ↔
      ∃ before field rules later, fields = before ++ (field, rules) :: later ∧
        ¬ (s.runFields before a).Stopped ∧
        (s.runField field rules (s.runFields before a).state).result = .error e := by
  constructor
  · intro h
    induction fields generalizing a with
    | nil => cases h
    | cons first fields ih =>
      obtain ⟨f, rs⟩ := first
      rcases s.runField_cases f rs a with ⟨e', he⟩ | ⟨value, he⟩ | ⟨o, he, ho⟩
      · rw [runFields_cons_of_error he] at h
        cases h
        exact ⟨[], f, rs, fields, rfl, not_stopped_runFields_nil a, he⟩
      · rw [runFields_cons_of_sessionBreak he] at h
        cases h
      · rw [runFields_cons_of_goesOn he ho, Run.result_after] at h
        obtain ⟨before, field, rules, later, rfl, hgo, hresult⟩ := ih h
        refine ⟨(f, rs) :: before, field, rules, later, rfl, ?_, ?_⟩
        · rwa [stopped_runFields_cons_iff he ho]
        · rwa [runFields_cons_of_goesOn he ho]
  · rintro ⟨before, field, rules, later, rfl, hgo, hresult⟩
    rw [runFields_append_of_not_stopped hgo, Run.result_after, runFields_cons_of_error hresult]

/-! ## A record -/

section
variable (s) (rules : RuleMap κ) (a : State κ)

@[simp] theorem state_conform :
    (s.conform rules a).state = (s.runFields rules.entries .empty).state := by
  unfold conform
  dsimp only
  split <;> rfl

/-- The result of a record that no mistake ends is the output that is left. -/
theorem result_conform : (s.conform rules a).result =
    (s.runFields rules.entries .empty).result.map fun _ =>
      (s.runFields rules.entries .empty).state.output := by
  simp only [conform, State.reset_eq_empty]
  split
  · next h => rw [h]; rfl
  · next h => rw [h]; rfl

theorem eq_output_of_result_conform {output : OrderedMap Json}
    (h : (s.conform rules a).result = .ok output) : output = (s.conform rules a).state.output := by
  rw [result_conform] at h
  rw [state_conform]
  cases hr : (s.runFields rules.entries .empty).result with
  | error e => rw [hr] at h; cases h
  | ok u => rw [hr] at h; cases h; rfl

/-- The events of a record are those of its fields, with one in front and at most one behind. -/
theorem events_conform : ∃ told, (s.conform rules a).events =
    .conforming rules.size :: ((s.runFields rules.entries .empty).events ++ told) ∧
    ∀ e ∈ told, e.call? = none ∧ e.writes = [] ∧ e.ending? = none := by
  simp only [conform, State.reset_eq_empty]
  split
  · exact ⟨[], by simp only [List.append_nil], List.forall_mem_nil _⟩
  · refine ⟨_, rfl, fun e he => ?_⟩
    rw [List.mem_singleton.1 he]
    exact ⟨rfl, rfl, rfl⟩

@[simp] theorem calls_conform : Event.calls (s.conform rules a).events =
    Event.calls (s.runFields rules.entries .empty).events := by
  obtain ⟨told, he, hquiet⟩ := s.events_conform rules a
  have htold : Event.calls told = [] := List.filterMap_eq_nil_iff.2 fun e h => (hquiet e h).1
  rw [he, Event.calls_conforming, Event.calls_append, htold, List.append_nil]

@[simp] theorem endings_conform : Event.endings (s.conform rules a).events =
    Event.endings (s.runFields rules.entries .empty).events := by
  obtain ⟨told, he, hquiet⟩ := s.events_conform rules a
  have htold : Event.endings told = [] :=
    List.filterMap_eq_nil_iff.2 fun e h => (hquiet e h).2.2
  rw [he, Event.endings_conforming, Event.endings_append, htold, List.append_nil]

theorem stopped_conform_iff :
    (s.conform rules a).Stopped ↔ (s.runFields rules.entries .empty).Stopped := by
  unfold Run.Stopped
  rw [endings_conform, result_conform]
  cases (s.runFields rules.entries .empty).result with
  | error e => exact or_congr_left ⟨fun _ => ⟨e, rfl⟩, fun _ => ⟨e, rfl⟩⟩
  | ok u => exact or_congr_left ⟨nofun, nofun⟩

end

end Setting
end RuleFlow
