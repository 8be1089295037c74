import RuleFlow.Proofs.Sequence
import RuleFlow.Proofs.Writes

/-!
# Two indexes of records

A state holds its records twice: all of them in order (`errors`) and those of each field
(`errorsFor`). `State.Indexed` says that the second index is the first one cut by field, and
`State.Extends` that records were only added, and only for certain fields. Every move keeps the one
and makes the other true (`Move.indexed`, `Move.extends`), so that they hold along runs and commands,
and at all that conformers see.
-/

namespace RuleFlow

universe u

variable {κ : Type u}

namespace State

/-- The records by field are the records, cut by field. -/
structure Indexed (a : State κ) : Prop where
  errorsFor_eq : ∀ field, a.errorsFor field = a.errors.filter (·.field = field)
  field_mem_keys : ∀ r ∈ a.errors, r.field ∈ a.fieldErrors.keys

/-- The records go on from one state to another: records of fields that `on` allows are added at
the end, and the records of the other fields stay as they are. -/
structure Extends (on : String → Prop) (a b : State κ) : Prop where
  errors : ∃ added, b.errors = a.errors ++ added ∧ ∀ r ∈ added, on r.field
  errorsFor : ∀ field, ¬ on field → b.errorsFor field = a.errorsFor field

/-! ## Indexed states -/

theorem indexed_empty : (empty : State κ).Indexed := ⟨fun _ => rfl, fun _ h => nomatch h⟩

theorem Indexed.writeAll {a : State κ} (h : a.Indexed) (ws : List (String × Json)) :
    (a.writeAll ws).Indexed := by
  refine ⟨fun field => ?_, fun r hr => ?_⟩
  · rw [errorsFor_writeAll, errors_writeAll, h.errorsFor_eq]
  · rw [errors_writeAll] at hr
    rw [fieldErrors_writeAll]
    exact h.field_mem_keys r hr

theorem Indexed.start {a : State κ} (h : a.Indexed) (field : String) : (a.start field).Indexed := by
  refine ⟨fun f => ?_, fun r hr => ?_⟩
  · rw [errorsFor_start, errors_start, h.errorsFor_eq]
  · exact OrderedMap.mem_keys_insert.2 (.inr (h.field_mem_keys r hr))

theorem Indexed.record {a : State κ} (h : a.Indexed) (r : Record κ) : (a.record r).Indexed := by
  refine ⟨fun f => ?_, fun q hq => ?_⟩
  · -- Both sides gain the record if it is one of `f`, and nothing if not.
    rw [errorsFor_record, errors_record, List.filter_append, h.errorsFor_eq]
    by_cases hf : r.field = f <;> simp [hf]
  · rw [errors_record, List.mem_append, List.mem_singleton] at hq
    refine OrderedMap.mem_keys_insert.2 ?_
    rcases hq with hq | rfl
    · exact .inr (h.field_mem_keys q hq)
    · exact .inl rfl

/-! ## Extensions -/

section
variable {on : String → Prop} {a b c : State κ}

theorem Extends.of_eq (he : b.errors = a.errors) (hf : ∀ f, b.errorsFor f = a.errorsFor f) :
    a.Extends on b :=
  ⟨⟨[], by rw [he, List.append_nil], fun _ h => nomatch h⟩, fun f _ => hf f⟩

theorem Extends.refl (a : State κ) : a.Extends on a := .of_eq rfl fun _ => rfl

theorem Extends.trans (h : a.Extends on b) (h' : b.Extends on c) : a.Extends on c := by
  obtain ⟨⟨added, he, hon⟩, hf⟩ := h
  obtain ⟨⟨added', he', hon'⟩, hf'⟩ := h'
  refine ⟨⟨added ++ added', ?_, ?_⟩, fun f h => (hf' f h).trans (hf f h)⟩
  · rw [he', he, List.append_assoc]
  · intro r hr
    exact (List.mem_append.1 hr).elim (hon r) (hon' r)

theorem Extends.writeAll (ws : List (String × Json)) : a.Extends on (a.writeAll ws) :=
  .of_eq (errors_writeAll a ws) (errorsFor_writeAll a ws)

theorem Extends.start (field : String) : a.Extends on (a.start field) :=
  .of_eq rfl (errorsFor_start a field)

theorem Extends.record {r : Record κ} (h : on r.field) : a.Extends on (a.record r) := by
  refine ⟨⟨[r], errors_record a r, fun q hq => List.mem_singleton.1 hq ▸ h⟩, fun f hf => ?_⟩
  have hne : r.field ≠ f := fun e => hf (e ▸ h)
  rw [errorsFor_record, if_neg hne, List.append_nil]

theorem Extends.errors_prefix (h : a.Extends on b) : a.errors <+: b.errors := by
  obtain ⟨added, he, _⟩ := h.errors
  exact ⟨added, he.symm⟩

end

end State

/-! ## Moves and paths -/

/-- A call adds to the records of its field what it leads to. -/
theorem Step.errorsFor_ofCall (field : String) (call : Call κ) :
    (ofCall field call).state.errorsFor field =
      call.view.state.errorsFor field ++ (call.record? field).toList := by
  have hwritten : call.written.errorsFor field = call.view.state.errorsFor field :=
    State.errorsFor_writeAll _ _ _
  rw [state_ofCall]
  cases hr : call.record? field with
  | none => exact hwritten.trans (List.append_nil _).symm
  | some r =>
    change (call.written.record r).errorsFor field = _
    rw [State.errorsFor_record, if_pos (Call.field_record? hr), hwritten]
    rfl

namespace Setting

variable [Conformer κ] {s : Setting κ} {on : String → Prop} {a b : State κ} {es : List (Event κ)}

theorem Move.indexed (h : s.Move on a es b) (ha : a.Indexed) : b.Indexed := by
  cases h with
  | start _ => exact ha.start _
  | skip _ _ => exact ha
  | @rule field rule c _ value _ _ _ =>
    rw [Step.state_ofCall]
    have hwritten : (s.call field rule c value a).written.Indexed := ha.writeAll _
    cases (s.call field rule c value a).record? field with
    | none => exact hwritten
    | some r => exact hwritten.record r
  | finish _ _ => exact ha.writeAll _
  | conforming _ => exact ha
  | conformed => exact ha

theorem Move.extends (h : s.Move on a es b) : a.Extends on b := by
  cases h with
  | start _ => exact .start _
  | skip _ _ => exact .refl _
  | @rule field rule c _ value hf _ _ =>
    rw [Step.state_ofCall]
    have hwritten : a.Extends on (s.call field rule c value a).written := .writeAll _
    cases hr : (s.call field rule c value a).record? field with
    | none => exact hwritten
    | some r => exact hwritten.trans (.record (Call.field_record? hr ▸ hf))
  | finish _ _ => exact .writeAll _
  | conforming _ => exact .refl _
  | conformed => exact .refl _

theorem Path.extends (h : s.Path on a es b) :
    (a :: (Event.seen es ++ [b])).Pairwise (State.Extends on) :=
  h.pairwise State.Extends.refl State.Extends.trans Move.extends

theorem Path.extends_last (h : s.Path on a es b) : a.Extends on b :=
  (List.pairwise_cons.1 h.extends).1 b (List.mem_append_right _ List.mem_cons_self)

theorem runField_extends (e : String × Rules κ) (a : State κ) :
    a.Extends (· = e.1) (s.runField e.1 e.2 a).state :=
  (@runField_path κ _ s (· = e.1) e.1 rfl e.2 a).extends_last

theorem runFields_extends_keys (fields : List (String × Rules κ)) (a : State κ) :
    a.Extends (· ∈ Entries.keys fields) (s.runFields fields a).state :=
  (runFields_path fields (fun _ he => List.mem_map_of_mem he) a).extends_last

/-- Fields leave the records of a field that was run before them as they are. -/
theorem runFields_cons_extends (e : String × Rules κ) (fields : List (String × Rules κ))
    (a : State κ) : (s.runField e.1 e.2 a).state.Extends (· ∈ Entries.keys fields)
      (s.runFields (e :: fields) a).state := by
  obtain ⟨field, own⟩ := e
  rcases s.runField_cases field own a with ⟨e, he⟩ | ⟨value, he⟩ | ⟨outcome, he, ho⟩
  · rw [runFields_cons_of_error he]
    exact .refl _
  · rw [runFields_cons_of_sessionBreak he]
    exact .refl _
  · rw [runFields_cons_of_goesOn he ho, Run.state_after]
    exact (State.Extends.writeAll _).trans (runFields_extends_keys fields _)

theorem Path.indexed (h : s.Path on a es b) (ha : a.Indexed) : b.Indexed :=
  h.forall_seen Move.indexed ha b (List.mem_append_right _ List.mem_cons_self)

/-- Conforming a record leaves an indexed state. -/
theorem indexed_conform (s : Setting κ) (rules : RuleMap κ) (a : State κ) :
    (s.conform rules a).state.Indexed := by
  have hpath : s.Path (fun _ => True) _ _ _ := conform_path rules (fun _ _ => trivial) a
  exact hpath.indexed State.indexed_empty

end Setting

/-! ## Sessions -/

namespace Session

variable [Conformer κ]

theorem perform_indexed {s : Session κ} (hs : s.state.Indexed) (command : Command κ) :
    ∀ a ∈ Event.seen (s.perform command).events ++ [(s.perform command).session.state],
      a.Indexed :=
  perform_forall_seen State.indexed_empty Setting.Move.indexed hs command

theorem performAll_indexed {s : Session κ} (hs : s.state.Indexed) (commands : List (Command κ)) :
    (s.performAll commands).state.Indexed :=
  performAll_keeps State.indexed_empty Setting.Move.indexed hs commands

theorem perform_errors_pairwise (s : Session κ) (command : Command κ) :
    (s.startOf command :: (Event.seen (s.perform command).events ++
      [(s.perform command).session.state])).Pairwise (fun a b => a.errors <+: b.errors) :=
  (s.perform_path command).extends.imp State.Extends.errors_prefix

theorem performAll_errors_prefix {s : Session κ} {commands : List (Command κ)}
    (h : ∀ command ∈ commands, command.restarts = false) :
    s.state.errors <+: (s.performAll commands).state.errors := by
  induction commands generalizing s with
  | nil => exact List.prefix_rfl
  | cons command commands ih =>
    have hstart : s.startOf command = s.state := by
      rw [startOf, if_neg (by simp [h command List.mem_cons_self])]
    have hgrow := (List.pairwise_cons.1 (s.perform_errors_pairwise command)).1 _
      (List.mem_append_right _ List.mem_cons_self)
    rw [hstart] at hgrow
    exact hgrow.trans (ih fun c hc => h c (List.mem_cons_of_mem _ hc))

/-- **The two indexes never drift apart.** After any commands, the records by field are the records
cut by field, and so they are whenever the next command calls a conformer. From where a command goes
on, the records only grow, at their end, until a command restarts the session; and a run of a field
leaves the records of the other fields as they are at all moments. -/
theorem indexed_at_all_moments (input : Json) (registry : Registry κ)
    (commands : List (Command κ)) :
    let s := (new input registry).performAll commands
    s.state.Indexed ∧
    (∀ command, ∀ a ∈ Event.seen (s.perform command).events, a.Indexed) ∧
    (∀ command, (s.startOf command :: (Event.seen (s.perform command).events ++
      [(s.perform command).session.state])).Pairwise (fun a b => a.errors <+: b.errors)) ∧
    (∀ more, (∀ command ∈ more, command.restarts = false) →
      s.state.errors <+: (s.performAll more).state.errors) ∧
    (∀ field rules a, ∀ b ∈ Event.seen (s.toSetting.runField field rules a).events ++
      [(s.toSetting.runField field rules a).state],
      ∀ other ≠ field, b.errorsFor other = a.errorsFor other) := by
  intro s
  have hs : s.state.Indexed := performAll_indexed State.indexed_empty commands
  -- What a command goes through is indexed, for it starts from an indexed state or from none. The
  -- last part is about a path on which only `field` moves.
  refine ⟨hs, ?_, s.perform_errors_pairwise, fun more => performAll_errors_prefix, ?_⟩
  · intro command a ha
    exact perform_indexed hs command a (List.mem_append_left _ ha)
  · intro field rules a b hb other hne
    have hpath := @Setting.runField_path κ _ s.toSetting (· = field) field rfl rules a
    exact ((List.pairwise_cons.1 hpath.extends).1 b hb).errorsFor other hne

end Session
end RuleFlow
