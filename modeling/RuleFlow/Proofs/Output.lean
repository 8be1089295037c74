import Mathlib.Data.List.Nodup
import RuleFlow.Proofs.Sequence
import RuleFlow.Proofs.Writes

/-!
# The output as a replay of writes

The output of a record comes from two sources, the conformers that set entries and the fields that
complete, and both tell of it in events. `Path.output` says that the events of a run, replayed, give
the output that it leaves. So conforming a record leaves the replay of all that was written, and
what is not among the writes is not in the output: `exists_writer_of_not_complete` for the fields
that do not complete, and `entries_output_of_no_writers` if no conformer writes.
-/

namespace RuleFlow

universe u

variable {κ : Type u}

/-! ## Completed fields -/

/-- The fields that completed, with their values. -/
def completed (endings : List (String × Outcome)) : List (String × Json) :=
  endings.filterMap fun e =>
    match e.2 with
    | .complete value => some (e.1, value)
    | _ => none

theorem keys_completed_sublist (endings : List (String × Outcome)) :
    (Entries.keys (completed endings)).Sublist (endings.map Prod.fst) := by
  induction endings with
  | nil => exact .slnil
  | cons e endings ih =>
    obtain ⟨field, outcome⟩ := e
    cases outcome with
    | complete value => exact ih.cons_cons field
    | fieldBreak value => exact ih.cons field
    | sessionBreak value => exact ih.cons field

namespace Event

/-- What is in the writes of events was written by a conformer or is a completed field. -/
theorem mem_flatMap_writes {events : List (Event κ)} {w : String × Json}
    (h : w ∈ events.flatMap writes) : (∃ call ∈ calls events, w ∈ call.reply.writes) ∨
    (w.1, .complete w.2) ∈ endings events := by
  obtain ⟨e, he, hw⟩ := List.mem_flatMap.1 h
  cases e with
  | applied field call => exact .inl ⟨call, mem_calls.2 ⟨field, he⟩, hw⟩
  | ended field outcome =>
    cases outcome with
    | complete value =>
      rw [List.mem_singleton.1 hw]
      exact .inr (mem_endings.2 he)
    | _ => cases hw
  | _ => cases hw

/-- If no conformer writes, the writes are the completed fields. -/
theorem flatMap_writes_eq_completed {events : List (Event κ)}
    (h : ∀ call ∈ calls events, call.reply.writes = []) :
    events.flatMap writes = completed (endings events) := by
  induction events with
  | nil => rfl
  | cons e events ih =>
    cases e with
    | applied field call =>
      rw [calls_applied, List.forall_mem_cons] at h
      rw [List.flatMap_cons, writes, h.1]
      exact ih h.2
    | ended field outcome =>
      cases outcome with
      | complete value => exact congrArg ((field, value) :: ·) (ih h)
      | fieldBreak value => exact ih h
      | sessionBreak value => exact ih h
    | _ => exact ih h

end Event

/-! ## Moves and paths -/

namespace Setting

variable [Conformer κ] {s : Setting κ} {on : String → Prop} {a b : State κ} {es : List (Event κ)}

theorem Move.output (h : s.Move on a es b) :
    b.output = a.output.insertAll (es.flatMap Event.writes) := by
  cases h with
  | start _ => rfl
  | skip _ _ => rfl
  | @rule field rule c _ value _ _ _ =>
    obtain ⟨told, he, hquiet⟩ := Step.events_ofCall field (s.call field rule c value a)
    have htold : told.flatMap Event.writes = [] :=
      List.flatMap_eq_nil_iff.2 fun e h => (hquiet e h).2.1
    -- What follows the call writes nothing, and the record that the call may leave is no output.
    rw [he, List.flatMap_cons, htold, List.append_nil, Step.state_ofCall]
    have hwritten : (s.call field rule c value a).written.output =
        a.output.insertAll (s.call field rule c value a).reply.writes := State.output_writeAll _ _
    cases (s.call field rule c value a).record? field with
    | none => exact hwritten
    | some r => exact hwritten
  | finish _ _ =>
    rw [List.flatMap_singleton]
    exact State.output_writeAll _ _
  | conforming _ => rfl
  | conformed => rfl

/-- The output is what it was, with the writes of the run made to it in order. -/
theorem Path.output (h : s.Path on a es b) :
    b.output = a.output.insertAll (es.flatMap Event.writes) := by
  induction h with
  | nil => rfl
  | cons hm _ ih => rw [List.flatMap_append, OrderedMap.insertAll_append, ih, hm.output]

theorem Move.output_keys_prefix (h : s.Move on a es b) : a.output.keys <+: b.output.keys := by
  rw [h.output]
  exact a.output.keys_prefix_insertAll _

/-- A run takes no key of the output out of its place. -/
theorem Path.output_keys_pairwise (h : s.Path on a es b) :
    (a :: (Event.seen es ++ [b])).Pairwise (fun a b => a.output.keys <+: b.output.keys) :=
  h.pairwise (fun _ => List.prefix_rfl) List.IsPrefix.trans Move.output_keys_prefix

end Setting

/-! ## Records -/

namespace Setting

variable [Conformer κ] (s : Setting κ) (rules : RuleMap κ) (a : State κ)

theorem path_conform :
    s.Path (fun _ => True) .empty (s.conform rules a).events (s.conform rules a).state :=
  conform_path rules (fun _ _ => trivial) a

theorem output_conform_eq_replay : (s.conform rules a).state.output =
    .ofList ((s.conform rules a).events.flatMap Event.writes) := (s.path_conform rules a).output

/-- No field ends twice, and the fields end in the order in which they are declared. -/
theorem endings_conform_prefix :
    (Event.endings (s.conform rules a).events).map Prod.fst <+: rules.keys := by
  rw [endings_conform]
  exact endings_runFields_prefix rules.entries .empty

theorem nodup_endings_conform :
    ((Event.endings (s.conform rules a).events).map Prod.fst).Nodup :=
  rules.nodup.sublist (s.endings_conform_prefix rules a).sublist

/-- A field that does not complete is in the output only if a conformer set it. -/
theorem exists_writer_of_not_complete {field : String} {outcome : Outcome}
    (hend : (field, outcome) ∈ Event.endings (s.conform rules a).events)
    (hbreak : outcome.isComplete = false) (hkey : field ∈ (s.conform rules a).state.output.keys) :
    ∃ call ∈ Event.calls (s.conform rules a).events, field ∈ Entries.keys call.reply.writes := by
  rw [output_conform_eq_replay, OrderedMap.mem_keys_ofList] at hkey
  obtain ⟨w, hw, rfl⟩ := List.mem_map.1 hkey
  rcases Event.mem_flatMap_writes hw with ⟨call, hcall, hwrite⟩ | hcomplete
  · exact ⟨call, hcall, List.mem_map_of_mem hwrite⟩
  · -- The field completed as well, but no field ends twice.
    have he := List.inj_on_of_nodup_map (s.nodup_endings_conform rules a) hend hcomplete rfl
    cases he
    cases hbreak

/-- If no conformer writes, the output is the completed fields. -/
theorem entries_output_of_no_writers
    (h : ∀ call ∈ Event.calls (s.conform rules a).events, call.reply.writes = []) :
    (s.conform rules a).state.output.entries =
      completed (Event.endings (s.conform rules a).events) := by
  rw [output_conform_eq_replay, Event.flatMap_writes_eq_completed h]
  exact OrderedMap.entries_ofList
    ((s.nodup_endings_conform rules a).sublist (keys_completed_sublist _))

end Setting

/-- **The output is the replay of the writes.** Conforming a record from any state leaves the replay
of all that conformers and completed fields wrote, in order, and returns it if no mistake ends the
run. Each call has the answer of the conformer that its rule targets, which sees the replay of what
was written before. Each field ends as its own run says, in the state that the fields before it
leave. A field that does not complete is in the output only if a conformer set it; if no conformer
writes, the output is the completed fields in declaration order. No key leaves its place, neither
from one conformer to the next nor from one write to the next. -/
theorem Session.output_conform [Conformer κ] (s : Session κ) (rules : RuleMap κ) :
    let run := s.conform rules
    let written := run.events.flatMap Event.writes
    run.state.output = .ofList written ∧
    (∀ output, run.result = .ok output → output = .ofList written) ∧
    (∀ es field call fs, run.events = es ++ .applied field call :: fs →
      call.view.state.output = .ofList (es.flatMap Event.writes)) ∧
    (∀ call ∈ Event.calls run.events, s.toSetting.target call.rule.target = .ok call.conformer ∧
      call.reply = Conformer.run call.conformer call.value call.rule.params call.view) ∧
    (∀ field outcome, (field, outcome) ∈ Event.endings run.events ↔
      ∃ before own later, rules.entries = before ++ (field, own) :: later ∧
        ¬ (s.toSetting.runFields before .empty).Stopped ∧
        (s.toSetting.runField field own (s.toSetting.runFields before .empty).state).result =
          .ok outcome) ∧
    (∀ field outcome, (field, outcome) ∈ Event.endings run.events → outcome.isComplete = false →
      field ∈ run.state.output.keys →
        ∃ call ∈ Event.calls run.events, field ∈ Entries.keys call.reply.writes) ∧
    ((∀ call ∈ Event.calls run.events, call.reply.writes = []) →
      run.state.output.entries = completed (Event.endings run.events) ∧
        run.state.output.keys.Sublist rules.keys) ∧
    (.empty :: (Event.seen run.events ++ [run.state])).Pairwise
      (fun a b => a.output.keys <+: b.output.keys) ∧
    (∀ early late, early <+: late → late <+: written →
      (OrderedMap.ofList early).keys <+: (OrderedMap.ofList late).keys) := by
  intro run written
  have hpath : s.toSetting.Path (fun _ => True) .empty run.events run.state :=
    s.toSetting.path_conform rules s.state
  have hreplay : run.state.output = .ofList written := hpath.output
  refine ⟨hreplay, ?_, ?_, ?_, ?_, ?_, ?_, hpath.output_keys_pairwise, ?_⟩
  · intro output h
    rw [← hreplay]
    exact s.toSetting.eq_output_of_result_conform rules s.state h
  · intro es field call fs he
    exact (hpath.before_call he).output
  · exact fun _ => hpath.answer_of_mem_calls
  · intro field outcome
    have hends : Event.endings run.events = _ := s.toSetting.endings_conform rules s.state
    rw [hends]
    exact Setting.mem_endings_runFields
  · intro field outcome
    exact s.toSetting.exists_writer_of_not_complete rules s.state
  · intro hwriters
    have hentries := s.toSetting.entries_output_of_no_writers rules s.state hwriters
    have hkeys : run.state.output.keys = Entries.keys (completed (Event.endings run.events)) :=
      congrArg Entries.keys hentries
    refine ⟨hentries, ?_⟩
    rw [hkeys]
    exact (keys_completed_sublist _).trans (s.toSetting.endings_conform_prefix rules s.state).sublist
  · rintro early _ ⟨more, rfl⟩ _
    rw [OrderedMap.ofList_append]
    exact OrderedMap.keys_prefix_insertAll _ _

end RuleFlow
