import RuleFlow.Builtin
import RuleFlow.Proofs.FieldEvents
import RuleFlow.Proofs.Reading
import RuleFlow.Proofs.Records

/-!
# The fields that started

A state keeps the records of each field under an entry of its own. A field gets its entry when it
starts, and nothing else makes one (`Path.keys_fieldErrors`), so that the run of a field whose rules
can be read adds at most its own (`keys_runField_of_ok`), and a run that is not stopped adds those of
all its fields, in order (`keys_runFields_of_not_stopped`). A run that is stopped is stopped by a
field whose turn comes (`Turn`): this field has its entry unless its rules cannot be read
(`Turn.keys_of_error`), and no field behind it has one (`Turn.state_conform_of_stop`). The records
under the entry of a field are those that its own run makes (`Turn.exists_added`).
-/

namespace RuleFlow

universe u

variable {κ : Type u}

theorem State.get?_fieldErrors {a : State κ} {field : String} (h : field ∈ a.fieldErrors.keys) :
    a.fieldErrors.get? field = some (a.errorsFor field) := by
  rw [errorsFor, OrderedMap.getD]
  cases hg : a.fieldErrors.get? field with
  | none => exact absurd h (OrderedMap.get?_eq_none_iff.1 hg)
  | some rs => rfl

theorem State.mem_keys_start (a : State κ) (field : String) :
    field ∈ (a.start field).fieldErrors.keys := OrderedMap.mem_keys_insert.2 (.inl rfl)

theorem State.keys_start_of_notMem {a : State κ} {field : String}
    (h : field ∉ a.fieldErrors.keys) :
    (a.start field).fieldErrors.keys = a.fieldErrors.keys ++ [field] := by
  rw [start, OrderedMap.keys_insert, if_neg h]

/-- A field is declared once, so that it is neither before nor behind itself. -/
theorem RuleMap.nodup_of_declared {rules : RuleMap κ} {before later : List (String × Rules κ)}
    {field : String} {own : Rules κ} (h : rules.entries = before ++ (field, own) :: later) :
    (Entries.keys before).Nodup ∧ field ∉ Entries.keys before ∧ field ∉ Entries.keys later := by
  have hnodup := rules.nodup
  rw [h, Entries.keys, List.map_append, List.map_cons, List.nodup_append, List.nodup_cons] at hnodup
  obtain ⟨hbefore, ⟨hlater, _⟩, hdisjoint⟩ := hnodup
  exact ⟨hbefore, fun hmem => hdisjoint field hmem field List.mem_cons_self rfl, hlater⟩

namespace Setting

variable [Conformer κ] {s : Setting κ} {on : String → Prop} {a b : State κ} {es : List (Event κ)}

/-- Moves make no new entry for fields that have one. -/
theorem Move.keys_fieldErrors (h : s.Move on a es b) (hon : ∀ f, on f → f ∈ a.fieldErrors.keys) :
    b.fieldErrors.keys = a.fieldErrors.keys := by
  cases h with
  | @start field _ hf =>
    rw [State.start, OrderedMap.keys_insert, if_pos (hon field hf)]
  | skip _ _ => rfl
  | @rule field rule c _ value hf _ _ =>
    rw [Step.state_ofCall]
    have hwritten : (s.call field rule c value a).written.fieldErrors = a.fieldErrors :=
      State.fieldErrors_writeAll _ _
    cases hr : (s.call field rule c value a).record? field with
    | none => exact congrArg OrderedMap.keys hwritten
    | some r =>
      have hfield : r.field = field := Call.field_record? hr
      change (OrderedMap.insert _ r.field _).keys = _
      rw [OrderedMap.keys_insert, hwritten, hfield, if_pos (hon field hf)]
  | finish _ _ => exact congrArg OrderedMap.keys (State.fieldErrors_writeAll _ _)
  | conforming _ => rfl
  | conformed => rfl

theorem Path.keys_fieldErrors (h : s.Path on a es b) (hon : ∀ f, on f → f ∈ a.fieldErrors.keys) :
    b.fieldErrors.keys = a.fieldErrors.keys := by
  induction h with
  | nil => rfl
  | cons hm _ ih =>
    have hkeys := hm.keys_fieldErrors hon
    rw [← hkeys] at hon ⊢
    exact ih hon

theorem keys_runField_of_ok {field : String} {own : Rules κ} {rules : List (Rule κ)}
    (h : own.compile = .ok rules) (a : State κ) :
    (s.runField field own a).state.fieldErrors.keys = (a.start field).fieldErrors.keys := by
  rw [runField_of_ok h]
  have hpath := @runRules_path κ _ s (· = field) field rfl rules (s.fieldValue field) (a.start field)
  apply hpath.keys_fieldErrors
  rintro _ rfl
  exact a.mem_keys_start _

theorem exists_compile_of_runField {field : String} {own : Rules κ} {outcome : Outcome}
    (h : (s.runField field own a).result = .ok outcome) : ∃ rules, own.compile = .ok rules := by
  unfold runField at h
  split at h
  · cases h
  · next rules hown => exact ⟨rules, hown⟩

/-- Fields that do not stop the run have all started, in order. -/
theorem keys_runFields_of_not_stopped {fields : List (String × Rules κ)}
    (hnodup : (a.fieldErrors.keys ++ Entries.keys fields).Nodup)
    (hgo : ¬ (s.runFields fields a).Stopped) :
    (s.runFields fields a).state.fieldErrors.keys = a.fieldErrors.keys ++ Entries.keys fields := by
  induction fields generalizing a with
  | nil => exact (List.append_nil _).symm
  | cons e fields ih =>
    obtain ⟨field, own⟩ := e
    obtain ⟨outcome, he, ho⟩ := exists_goesOn_of_not_stopped hgo
    obtain ⟨rules, hown⟩ := exists_compile_of_runField he
    have hnew : field ∉ a.fieldErrors.keys := fun hmem =>
      (List.nodup_append.1 hnodup).2.2 _ hmem _ List.mem_cons_self rfl
    have hkeys : ((s.runField field own a).state.writeAll
        (Event.ended (κ := κ) field outcome).writes).fieldErrors.keys =
          a.fieldErrors.keys ++ [field] := by
      rw [State.fieldErrors_writeAll, keys_runField_of_ok hown, State.keys_start_of_notMem hnew]
    rw [Entries.keys_cons, List.append_cons, ← hkeys] at hnodup ⊢
    rw [stopped_runFields_cons_iff he ho] at hgo
    rw [runFields_cons_of_goesOn he ho, Run.state_after]
    exact ih hnodup hgo

theorem keys_conform_of_not_stopped (rules : RuleMap κ) (a : State κ)
    (hgo : ¬ (s.conform rules a).Stopped) :
    (s.conform rules a).state.fieldErrors.keys = rules.keys := by
  rw [stopped_conform_iff] at hgo
  rw [state_conform]
  exact keys_runFields_of_not_stopped rules.nodup hgo

/-! ## Where a run stops -/

/-- Rules that cannot be read make a mistake before their field starts, and an unknown path makes one
after that. -/
theorem error_runField_cases {field : String} {own : Rules κ} {e : Error}
    (h : (s.runField field own a).result = .error e) :
    e.IsMalformed ∧ (s.runField field own a).state = a ∨
    (∃ path, e = s.registry.unknown path) ∧ ∃ rules, own.compile = .ok rules := by
  cases hown : own.compile with
  | error mistake =>
    rw [runField_of_error hown] at h ⊢
    cases h
    exact .inl ⟨Rules.malformed_of_compile_eq_error hown, rfl⟩
  | ok rules =>
    rw [runField_of_ok hown] at h
    exact .inr ⟨exists_unknown_of_runRules h, rules, rfl⟩

/-- The turn of a field comes after the fields that are declared before it, unless these stop the
run. -/
structure Turn (s : Setting κ) (rules : RuleMap κ) (before : List (String × Rules κ))
    (field : String) (own : Rules κ) : Prop where
  declared : ∃ later, rules.entries = before ++ (field, own) :: later
  goesOn : ¬ (s.runFields before .empty).Stopped

/-- The run of a field whose turn comes after others. -/
def runAfter (s : Setting κ) (before : List (String × Rules κ)) (field : String) (own : Rules κ) :
    Run κ Outcome :=
  s.runField field own (s.runFields before .empty).state

section
variable {rules : RuleMap κ} {before : List (String × Rules κ)} {field : String} {own : Rules κ}

namespace Turn

theorem keys_before (h : s.Turn rules before field own) :
    (s.runFields before .empty).state.fieldErrors.keys = Entries.keys before := by
  obtain ⟨⟨later, hdeclared⟩, hgo⟩ := h
  exact keys_runFields_of_not_stopped (a := State.empty) (RuleMap.nodup_of_declared hdeclared).1 hgo

/-- A field whose rules can be read has its entry behind those of the fields before it. -/
theorem keys_of_ok (h : s.Turn rules before field own) {compiled : List (Rule κ)}
    (hown : own.compile = .ok compiled) :
    (s.runAfter before field own).state.fieldErrors.keys = Entries.keys before ++ [field] := by
  obtain ⟨later, hdeclared⟩ := h.declared
  have hnew := (RuleMap.nodup_of_declared hdeclared).2.1
  rw [← h.keys_before] at hnew ⊢
  rw [runAfter, keys_runField_of_ok hown, State.keys_start_of_notMem hnew]

/-- A field has its entry, unless its rules cannot be read. -/
theorem keys_of_error (h : s.Turn rules before field own) {e : Error}
    (he : (s.runAfter before field own).result = .error e) :
    e.IsMalformed ∧ (s.runAfter before field own).state.fieldErrors.keys = Entries.keys before ∨
    (∃ path, e = s.registry.unknown path) ∧
      (s.runAfter before field own).state.fieldErrors.keys = Entries.keys before ++ [field] := by
  rcases error_runField_cases he with ⟨hmalformed, hstate⟩ | ⟨hunknown, compiled, hown⟩
  · refine .inl ⟨hmalformed, ?_⟩
    rw [runAfter, hstate, h.keys_before]
  · exact .inr ⟨hunknown, h.keys_of_ok hown⟩

theorem mem_keys (h : s.Turn rules before field own) {f : String}
    (hf : f ∈ (s.runAfter before field own).state.fieldErrors.keys) :
    f ∈ Entries.keys before ∨ f = field := by
  rw [← List.mem_singleton, ← List.mem_append]
  cases hr : (s.runAfter before field own).result with
  | error e =>
    rcases h.keys_of_error hr with ⟨_, hkeys⟩ | ⟨_, hkeys⟩
    · rw [hkeys] at hf
      exact List.mem_append_left _ hf
    · rwa [hkeys] at hf
  | ok outcome =>
    obtain ⟨compiled, hown⟩ := exists_compile_of_runField hr
    rwa [h.keys_of_ok hown] at hf

/-- The state that a record is left in is the one of the field that stops its run. -/
theorem state_conform_of_stop (h : s.Turn rules before field own)
    (hstop : (∃ e, (s.runAfter before field own).result = .error e) ∨
      ∃ value, (s.runAfter before field own).result = .ok (.sessionBreak value)) (a : State κ) :
    (s.conform rules a).state = (s.runAfter before field own).state := by
  obtain ⟨⟨later, hdeclared⟩, hgo⟩ := h
  rw [state_conform, hdeclared, runFields_append_of_not_stopped hgo, Run.state_after]
  rcases hstop with ⟨e, he⟩ | ⟨value, hbreak⟩
  · rw [runFields_cons_of_error he]
    rfl
  · rw [runFields_cons_of_sessionBreak hbreak]
    rfl

/-- The records of a field are those that its own run makes. -/
theorem exists_added (h : s.Turn rules before field own) (a : State κ) :
    ∃ added, (s.runAfter before field own).state.errors =
        (s.runFields before .empty).state.errors ++ added ∧
      (s.conform rules a).state.errorsFor field = added := by
  obtain ⟨⟨later, hdeclared⟩, hgo⟩ := h
  obtain ⟨_, hbefore, hlater⟩ := RuleMap.nodup_of_declared hdeclared
  have hprior : s.Path (fun _ => True) .empty _ (s.runFields before .empty).state :=
    runFields_path before (fun _ _ => trivial) .empty
  have hown : s.Path (fun _ => True) _ _ (s.runAfter before field own).state :=
    runField_path trivial own _
  have hindexed := hprior.indexed State.indexed_empty
  obtain ⟨added, herrors, hfield⟩ :=
    (runField_extends (s := s) (field, own) (s.runFields before .empty).state).errors
  refine ⟨added, herrors, ?_⟩
  -- Neither the fields behind nor the fields before have records of this one.
  have hlast : (s.conform rules a).state.errorsFor field =
      (s.runAfter before field own).state.errorsFor field := by
    rw [state_conform, hdeclared, runFields_append_of_not_stopped hgo, Run.state_after]
    exact (runFields_cons_extends (field, own) later _).errorsFor field hlater
  have hnone : (s.runFields before .empty).state.errorsFor field = [] :=
    (runFields_extends_keys before .empty).errorsFor field hbefore
  have hall : added.filter (·.field = field) = added :=
    List.filter_eq_self.2 fun r hr => decide_eq_true (hfield r hr)
  rw [hlast, (hown.indexed hindexed).errorsFor_eq, runAfter, herrors, List.filter_append,
    ← hindexed.errorsFor_eq, hnone, hall, List.nil_append]

end Turn

theorem exists_turn_of_error {a : State κ} {e : Error} (h : (s.conform rules a).result = .error e) :
    ∃ before field own, s.Turn rules before field own ∧
      (s.runAfter before field own).result = .error e := by
  have hfields : (s.runFields rules.entries .empty).result = .error e := by
    rw [result_conform] at h
    cases hr : (s.runFields rules.entries .empty).result with
    | error e' => rw [hr] at h; cases h; rfl
    | ok u => rw [hr] at h; cases h
  obtain ⟨before, field, own, later, hdeclared, hgo, hresult⟩ :=
    result_runFields_eq_error_iff.1 hfields
  exact ⟨before, field, own, ⟨⟨later, hdeclared⟩, hgo⟩, hresult⟩

theorem exists_turn_of_mem_endings {a : State κ} {outcome : Outcome}
    (h : (field, outcome) ∈ Event.endings (s.conform rules a).events) :
    ∃ before own, s.Turn rules before field own ∧
      (s.runAfter before field own).result = .ok outcome := by
  rw [endings_conform] at h
  obtain ⟨before, own, later, hdeclared, hgo, hresult⟩ := mem_endings_runFields.1 h
  exact ⟨before, own, ⟨⟨later, hdeclared⟩, hgo⟩, hresult⟩

theorem exists_turn_of_mem {fields later : List (String × Rules κ)}
    (hdeclared : rules.entries = fields ++ later) (hgo : ¬ (s.runFields fields .empty).Stopped)
    (hmem : field ∈ Entries.keys fields) : ∃ before own, s.Turn rules before field own := by
  obtain ⟨⟨_, own⟩, he, rfl⟩ := List.mem_map.1 hmem
  obtain ⟨before, rest, rfl⟩ := List.append_of_mem he
  refine ⟨before, own, ⟨rest ++ later, ?_⟩, fun hstop => hgo ?_⟩
  · rw [hdeclared, List.append_assoc, List.cons_append]
  · rwa [runFields_append_of_stopped hstop]

/-- Only fields whose turn comes have entries. -/
theorem exists_turn_of_mem_keys {a : State κ}
    (h : field ∈ (s.conform rules a).state.fieldErrors.keys) :
    ∃ before own, s.Turn rules before field own := by
  by_cases hgo : (s.conform rules a).Stopped
  · obtain ⟨before, last, own, hturn, hstop⟩ : ∃ before last own, s.Turn rules before last own ∧
        ((∃ e, (s.runAfter before last own).result = .error e) ∨
          ∃ value, (s.runAfter before last own).result = .ok (.sessionBreak value)) := by
      rcases hgo with ⟨e, he⟩ | ⟨last, value, hend⟩
      · obtain ⟨before, last, own, hturn, hresult⟩ := exists_turn_of_error he
        exact ⟨before, last, own, hturn, .inl ⟨e, hresult⟩⟩
      · obtain ⟨before, own, hturn, hresult⟩ := exists_turn_of_mem_endings hend
        exact ⟨before, last, own, hturn, .inr ⟨value, hresult⟩⟩
    rw [hturn.state_conform_of_stop hstop] at h
    rcases hturn.mem_keys h with hmem | rfl
    · obtain ⟨later, hdeclared⟩ := hturn.declared
      exact exists_turn_of_mem hdeclared hturn.goesOn hmem
    · exact ⟨before, own, hturn⟩
  · rw [keys_conform_of_not_stopped rules a hgo] at h
    rw [stopped_conform_iff] at hgo
    exact exists_turn_of_mem (List.append_nil _).symm hgo h

end

end Setting

/-! ## Sessions -/

/-- **Just the fields that started have entries.** Conform a record in any session. If no mistake
ends the run and no field breaks the session, all declared fields have entries, in order. If a field
breaks the session, these are the fields up to it; a mistake is made by a field whose turn came, and
if it is a malformed rule, they are the fields before that one, and if it is an unknown path, the
fields up to it. The entry of a field has just the records that its own run made, so that it is the
empty list if there are none. -/
theorem Session.fieldErrors_conform [Conformer κ] (s : Session κ) (rules : RuleMap κ) :
    let run := s.conform rules
    let started := run.state.fieldErrors.keys
    (∀ output, run.result = .ok output →
      (∀ field value, (field, .sessionBreak value) ∉ Event.endings run.events) →
      started = rules.keys) ∧
    (∀ field value, (field, .sessionBreak value) ∈ Event.endings run.events →
      ∃ before own, s.Turn rules before field own ∧ started = Entries.keys before ++ [field]) ∧
    (∀ e, run.result = .error e → ∃ before field own, s.Turn rules before field own ∧
      (s.runAfter before field own).result = .error e ∧
      (e.IsMalformed ∧ started = Entries.keys before ∨
        (∃ path, e = s.registry.unknown path) ∧ started = Entries.keys before ++ [field])) ∧
    (∀ field ∈ started, ∃ before own added, s.Turn rules before field own ∧
      (s.runAfter before field own).state.errors =
        (s.runFields before .empty).state.errors ++ added ∧
      run.state.fieldErrors.get? field = some added) := by
  intro run started
  refine ⟨?_, ?_, ?_, ?_⟩
  · intro output hok hbreak
    apply Setting.keys_conform_of_not_stopped
    rintro (⟨e, he⟩ | ⟨field, value, hend⟩)
    · cases hok.symm.trans he
    · exact hbreak field value hend
  · intro field value hend
    obtain ⟨before, own, hturn, hresult⟩ := Setting.exists_turn_of_mem_endings hend
    obtain ⟨compiled, hown⟩ := Setting.exists_compile_of_runField hresult
    have hstate : run.state = (s.runAfter before field own).state :=
      hturn.state_conform_of_stop (.inr ⟨value, hresult⟩) s.state
    refine ⟨before, own, hturn, ?_⟩
    rw [← hturn.keys_of_ok hown, ← hstate]
  · intro e he
    obtain ⟨before, field, own, hturn, hresult⟩ := Setting.exists_turn_of_error he
    have hstate : run.state = (s.runAfter before field own).state :=
      hturn.state_conform_of_stop (.inl ⟨e, hresult⟩) s.state
    have hkeys := hturn.keys_of_error hresult
    rw [← hstate] at hkeys
    exact ⟨before, field, own, hturn, hresult, hkeys⟩
  · intro field hfield
    obtain ⟨before, own, hturn⟩ := Setting.exists_turn_of_mem_keys hfield
    obtain ⟨added, herrors, hadded⟩ := hturn.exists_added s.state
    refine ⟨before, own, added, hturn, herrors, ?_⟩
    rw [State.get?_fieldErrors hfield]
    exact congrArg some hadded

/-- The rules of a field are read before it starts, and its paths are looked up after that. -/
example :
    let pass : Builtin := ⟨0, "pass", .pass⟩
    let started (rules : Rules Builtin) : List String :=
      ((Session.new (.object []) .empty).conform (.ofList
        [("a", .list [.inline "" (.inline pass) []]), ("b", rules)])).state.fieldErrors.keys
    started (.text "?") = ["a"] ∧ started (.text "x") = ["a", "b"] := ⟨rfl, rfl⟩

end RuleFlow
