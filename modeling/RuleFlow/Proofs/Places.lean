import Mathlib.Data.List.Nodup
import RuleFlow.Proofs.Sequence

/-!
# Rules, calls and records at their places

A rule has a place: its field and its position among the rules of the field. `RuleMap.places` lists
the rules of a map at their places, in the order of declaration. Events tell at which place a call
was made (`Event.placedCalls`) and for which place a record (`Event.placedRecords`). The rules of a
field are called one after the other from the first (`placedCalls_runRules_prefix`), so that a record
run goes through the places in order (`placedCalls_conform_sublist`); and what it records is what the
calls lead to (`Path.errors`, `errors_conform_eq_placedRecords`).
-/

namespace RuleFlow

universe u

variable {κ : Type u}

/-! ## Places -/

/-- A rule with its field and its position in the field. -/
structure Place (κ : Type u) where
  field : String
  position : Nat
  rule : Rule κ

/-- The rules of a field at their places, if `n` rules stand before them. -/
def Place.number (field : String) (n : Nat) (rules : List (Rule κ)) : List (Place κ) :=
  (rules.zipIdx n).map fun x => ⟨field, x.2, x.1⟩

theorem Place.number_cons (field : String) (n : Nat) (rule : Rule κ) (rules : List (Rule κ)) :
    number field n (rule :: rules) = ⟨field, n, rule⟩ :: number field (n + 1) rules := rfl

/-- The rules of a field, none if they cannot be read. -/
def Rules.compiled (rules : Rules κ) : List (Rule κ) :=
  match rules.compile with
  | .ok rules => rules
  | .error _ => []

theorem Rules.compiled_of_ok {own : Rules κ} {rules : List (Rule κ)} (h : own.compile = .ok rules) :
    own.compiled = rules := by
  rw [compiled, h]

/-- The rules of fields at their places, in order. -/
def Place.ofFields (fields : List (String × Rules κ)) : List (Place κ) :=
  fields.flatMap fun e => number e.1 0 e.2.compiled

theorem Place.ofFields_cons (e : String × Rules κ) (fields : List (String × Rules κ)) :
    ofFields (e :: fields) = number e.1 0 e.2.compiled ++ ofFields fields := rfl

/-- The rules of all fields at their places, in the order of declaration. -/
def RuleMap.places (rules : RuleMap κ) : List (Place κ) := Place.ofFields rules.entries

theorem Place.mem_number {field : String} {n : Nat} {rules : List (Rule κ)} {p : Place κ}
    (h : p ∈ number field n rules) : p.field = field ∧ p.rule ∈ rules := by
  obtain ⟨⟨rule, i⟩, hx, rfl⟩ := List.mem_map.1 h
  exact ⟨rfl, List.fst_mem_of_mem_zipIdx hx⟩

theorem Place.mem_ofFields {fields : List (String × Rules κ)} {p : Place κ} :
    p ∈ ofFields fields ↔ ∃ own, (p.field, own) ∈ fields ∧ own.compiled[p.position]? = some p.rule := by
  obtain ⟨field, position, rule⟩ := p
  simp only [ofFields, number, List.mem_flatMap, List.mem_map, Prod.exists, mk.injEq]
  constructor
  · rintro ⟨f, own, he, r, i, hx, rfl, rfl, rfl⟩
    exact ⟨own, he, List.mem_zipIdx_iff_getElem?.1 hx⟩
  · rintro ⟨own, he, hr⟩
    exact ⟨field, own, he, rule, position, List.mem_zipIdx_iff_getElem?.2 hr, rfl, rfl, rfl⟩

theorem Place.nodup_number (field : String) (n : Nat) (rules : List (Rule κ)) :
    ((number field n rules).map fun p => (p.field, p.position)).Nodup := by
  have hpositions : (rules.zipIdx n).map Prod.snd = List.range' n rules.length :=
    List.zipIdx_map_snd n rules
  have hplaces : (number field n rules).map (fun p => (p.field, p.position)) =
      (List.range' n rules.length).map (field, ·) := by
    rw [← hpositions, number, List.map_map, List.map_map]
    rfl
  rw [hplaces]
  exact (List.nodup_range' 1).map fun i j h => (Prod.mk.inj h).2

theorem Place.nodup_ofFields {fields : List (String × Rules κ)} (h : (Entries.keys fields).Nodup) :
    ((ofFields fields).map fun p => (p.field, p.position)).Nodup := by
  induction fields with
  | nil => exact .nil
  | cons e fields ih =>
    obtain ⟨he, hrest⟩ := List.nodup_cons.1 h
    rw [ofFields_cons, List.map_append]
    refine List.nodup_append.2 ⟨nodup_number _ _ _, ih hrest, ?_⟩
    rintro x hx y hy rfl
    obtain ⟨p, hp, rfl⟩ := List.mem_map.1 hx
    obtain ⟨q, hq, heq⟩ := List.mem_map.1 hy
    obtain ⟨own, hown, _⟩ := mem_ofFields.1 hq
    -- The place would belong to the first field and to one of the others.
    have hfield : q.field = e.1 := (Prod.mk.inj heq).1.trans (mem_number hp).1
    exact he (hfield ▸ List.mem_map_of_mem hown)

/-- No two rules of a map have one place. -/
theorem RuleMap.nodup_places (rules : RuleMap κ) :
    (rules.places.map fun p => (p.field, p.position)).Nodup :=
  Place.nodup_ofFields rules.nodup

/-! ## Calls and records at their places -/

/-- A call for the rule at a position of a field. -/
structure PlacedCall (κ : Type u) where
  field : String
  position : Nat
  call : Call κ

/-- A record for the rule at a position of its field. -/
structure PlacedRecord (κ : Type u) where
  position : Nat
  record : Record κ

def PlacedCall.place (c : PlacedCall κ) : Place κ := ⟨c.field, c.position, c.call.rule⟩

def PlacedRecord.place (r : PlacedRecord κ) : Place κ := ⟨r.record.field, r.position, r.record.rule⟩

/-- The record that a call leads to, if it leads to one. -/
def PlacedCall.record? (c : PlacedCall κ) : Option (PlacedRecord κ) :=
  (c.call.record? c.field).map (⟨c.position, ·⟩)

/-- A call leads to a record if its answer is a failure of the rule and the rule is not optional. -/
theorem Call.record?_eq_some_iff {field : String} {call : Call κ} {r : Record κ} :
    call.record? field = some r ↔ ∃ cause,
      Verdict.of call.rule.flags.negate call.reply.result = .fail cause ∧
      call.rule.flags.optional = false ∧ r = ⟨cause, field, call.rule⟩ := by
  unfold record?
  cases Verdict.of call.rule.flags.negate call.reply.result with
  | fail cause =>
    cases call.rule.flags.optional with
    | false => simp [eq_comm]
    | true => simp
  | _ => simp

theorem PlacedCall.place_of_record? {c : PlacedCall κ} {r : PlacedRecord κ}
    (h : c.record? = some r) : r.place = c.place := by
  obtain ⟨record, hr, rfl⟩ := Option.map_eq_some_iff.1 h
  obtain ⟨cause, _, _, rfl⟩ := Call.record?_eq_some_iff.1 hr
  rfl

namespace Event

/-- The calls that events tell of, at their places, if `n` calls of the current field came before.
The calls of a field are those of its first rules, in order. -/
def placedCalls : Nat → List (Event κ) → List (PlacedCall κ)
  | _, [] => []
  | n, .applied field call :: es => ⟨field, n, call⟩ :: placedCalls (n + 1) es
  | _, .ended _ _ :: es => placedCalls 0 es
  | n, _ :: es => placedCalls n es

@[simp] theorem placedCalls_conforming (n fields : Nat) (es : List (Event κ)) :
    placedCalls n (.conforming fields :: es) = placedCalls n es := rfl

/-- The records that events tell of, at their places. -/
def placedRecords (events : List (Event κ)) : List (PlacedRecord κ) :=
  (placedCalls 0 events).filterMap PlacedCall.record?

/-- The record that an event leads to: that of a call. -/
def record? : Event κ → Option (Record κ)
  | applied field call => call.record? field
  | _ => none

/-- The records that events lead to, in order. -/
def records (events : List (Event κ)) : List (Record κ) := events.filterMap record?

@[simp] theorem records_append (es fs : List (Event κ)) :
    records (es ++ fs) = records es ++ records fs := List.filterMap_append

theorem mem_records {events : List (Event κ)} {r : Record κ} :
    r ∈ records events ↔ ∃ field call, .applied field call ∈ events ∧ call.record? field = some r := by
  rw [records, List.mem_filterMap]
  constructor
  · rintro ⟨e, he, hr⟩
    cases e with
    | applied field call => exact ⟨field, call, he, hr⟩
    | _ => cases hr
  · rintro ⟨field, call, he, hr⟩
    exact ⟨_, he, hr⟩

theorem records_of_calls_eq_nil {events : List (Event κ)} (h : calls events = []) :
    records events = [] := by
  refine List.filterMap_eq_nil_iff.2 fun e he => ?_
  cases e with
  | applied field call => cases List.filterMap_eq_nil_iff.1 h _ he
  | _ => rfl

theorem map_record_filterMap_placedCalls (n : Nat) (events : List (Event κ)) :
    ((placedCalls n events).filterMap PlacedCall.record?).map (·.record) = records events := by
  induction events generalizing n with
  | nil => rfl
  | cons e events ih =>
    cases e with
    | applied field call =>
      rw [placedCalls, records, List.filterMap_cons, List.filterMap_cons, PlacedCall.record?, record?]
      cases call.record? field with
      | none => exact ih (n + 1)
      | some r => exact congrArg (r :: ·) (ih (n + 1))
    | ended field outcome => exact ih 0
    | _ => exact ih n

theorem map_record_placedRecords (events : List (Event κ)) :
    (placedRecords events).map (·.record) = records events :=
  map_record_filterMap_placedCalls 0 events

theorem map_call_placedCalls (n : Nat) (events : List (Event κ)) :
    (placedCalls n events).map (·.call) = calls events := by
  induction events generalizing n with
  | nil => rfl
  | cons e events ih =>
    cases e with
    | applied field call => exact congrArg (call :: ·) (ih (n + 1))
    | ended field outcome => exact ih 0
    | _ => exact ih n

/-- The records have the places of calls, in the order of these. -/
theorem map_place_placedRecords_sublist (events : List (Event κ)) :
    ((placedRecords events).map PlacedRecord.place).Sublist
      ((placedCalls 0 events).map PlacedCall.place) := by
  unfold placedRecords
  induction placedCalls 0 events with
  | nil => exact .slnil
  | cons c cs ih =>
    rw [List.filterMap_cons, List.map_cons]
    cases hr : c.record? with
    | none => exact ih.cons _
    | some r =>
      rw [← PlacedCall.place_of_record? hr]
      exact ih.cons_cons _

/-! Calls of events in parts: those of one call, of a field that ended, and events without calls. -/

theorem placedCalls_of_calls_eq_nil {es : List (Event κ)} (h : calls es = []) (n : Nat) :
    placedCalls n es = [] := by
  have hcalls := map_call_placedCalls n es
  rw [h] at hcalls
  exact List.map_eq_nil_iff.1 hcalls

/-- Later events go on at the position that the earlier ones reach. -/
theorem exists_placedCalls_append (n : Nat) (es fs : List (Event κ)) :
    ∃ m, placedCalls n (es ++ fs) = placedCalls n es ++ placedCalls m fs := by
  induction es generalizing n with
  | nil => exact ⟨n, rfl⟩
  | cons e es ih =>
    cases e with
    | applied field call =>
      obtain ⟨m, hm⟩ := ih (n + 1)
      exact ⟨m, congrArg (PlacedCall.mk field n call :: ·) hm⟩
    | ended field outcome => exact ih 0
    | _ => exact ih n

theorem placedCalls_append_of_calls_eq_nil {fs : List (Event κ)} (h : calls fs = []) (n : Nat)
    (es : List (Event κ)) : placedCalls n (es ++ fs) = placedCalls n es := by
  obtain ⟨m, hm⟩ := exists_placedCalls_append n es fs
  rw [hm, placedCalls_of_calls_eq_nil h, List.append_nil]

theorem placedCalls_quiet_append {told : List (Event κ)}
    (h : ∀ e ∈ told, e.call? = none ∧ e.writes = [] ∧ e.ending? = none) (n : Nat)
    (es : List (Event κ)) : placedCalls n (told ++ es) = placedCalls n es := by
  induction told with
  | nil => rfl
  | cons e told ih =>
    obtain ⟨he, hrest⟩ := List.forall_mem_cons.1 h
    cases e with
    | applied field call => cases he.1
    | ended field outcome => cases he.2.2
    | _ => exact ih hrest

theorem placedCalls_append_ended (n : Nat) (es fs : List (Event κ)) (field : String)
    (outcome : Outcome) :
    placedCalls n (es ++ .ended field outcome :: fs) = placedCalls n es ++ placedCalls 0 fs := by
  obtain ⟨_, hm⟩ := exists_placedCalls_append n es (.ended field outcome :: fs)
  exact hm

end Event

theorem Step.placedCalls_ofCall_append (n : Nat) (field : String) (call : Call κ)
    (es : List (Event κ)) :
    Event.placedCalls n ((ofCall field call).events ++ es) =
      ⟨field, n, call⟩ :: Event.placedCalls (n + 1) es := by
  obtain ⟨told, he, hquiet⟩ := events_ofCall field call
  rw [he, List.cons_append, Event.placedCalls, Event.placedCalls_quiet_append hquiet]

theorem Step.placedCalls_ofCall (n : Nat) (field : String) (call : Call κ) :
    Event.placedCalls n (ofCall field call).events = [⟨field, n, call⟩] := by
  have hcall := placedCalls_ofCall_append n field call []
  rwa [List.append_nil] at hcall

/-- The events of a call lead to what the call leads to. -/
theorem Step.records_ofCall (field : String) (call : Call κ) :
    Event.records (ofCall field call).events = (call.record? field).toList := by
  obtain ⟨told, he, hquiet⟩ := events_ofCall field call
  have htold : Event.records told = [] :=
    Event.records_of_calls_eq_nil (List.filterMap_eq_nil_iff.2 fun e h => (hquiet e h).1)
  rw [Event.records] at htold
  rw [he, Event.records, List.filterMap_cons, Event.record?, htold]
  cases call.record? field <;> rfl

/-! ## Runs -/

namespace Setting

variable [Conformer κ] {s : Setting κ} {on : String → Prop} {a b : State κ} {es : List (Event κ)}

theorem Move.errors (h : s.Move on a es b) : b.errors = a.errors ++ Event.records es := by
  cases h with
  | @rule field rule c _ value _ _ _ =>
    have hwritten : (s.call field rule c value a).written.errors = a.errors :=
      State.errors_writeAll _ _
    rw [Step.state_ofCall, Step.records_ofCall]
    cases (s.call field rule c value a).record? field with
    | none => exact hwritten.trans (List.append_nil _).symm
    | some r => exact congrArg (· ++ [r]) hwritten
  | finish _ _ => exact (State.errors_writeAll _ _).trans (List.append_nil _).symm
  | _ => exact (List.append_nil _).symm

/-- A run records what its calls lead to, in order. -/
theorem Path.errors (h : s.Path on a es b) : b.errors = a.errors ++ Event.records es := by
  induction h with
  | nil => exact (List.append_nil _).symm
  | cons hm _ ih => rw [ih, hm.errors, Event.records_append, List.append_assoc]

/-- The rules of a field are called one after the other, from the first. -/
theorem placedCalls_runRules_prefix (field : String) (n : Nat) (rules : List (Rule κ))
    (value : Json) (a : State κ) :
    (Event.placedCalls n (s.runRules field rules value a).events).map PlacedCall.place <+:
      Place.number field n rules := by
  induction rules generalizing n value a with
  | nil => exact List.prefix_rfl
  | cons rule rules ih =>
    rw [runRules, Place.number_cons]
    split
    · exact List.nil_prefix
    · split
      · exact List.nil_prefix
      · -- The call is the one at this place, and those after it come one position later.
        dsimp only
        split
        · rw [Step.placedCalls_ofCall]
          exact List.cons_prefix_cons.2 ⟨rfl, List.nil_prefix⟩
        · rw [Run.events_after, Step.placedCalls_ofCall_append]
          exact List.cons_prefix_cons.2 ⟨rfl, ih _ _ _⟩

theorem placedCalls_runField_prefix (field : String) (own : Rules κ) (a : State κ) :
    (Event.placedCalls 0 (s.runField field own a).events).map PlacedCall.place <+:
      Place.number field 0 own.compiled := by
  unfold runField
  cases h : own.compile with
  | error e => exact List.nil_prefix
  | ok rules =>
    rw [Rules.compiled_of_ok h]
    exact placedCalls_runRules_prefix field 0 rules _ _

theorem placedCalls_runFields_sublist (fields : List (String × Rules κ)) (a : State κ) :
    ((Event.placedCalls 0 (s.runFields fields a).events).map PlacedCall.place).Sublist
      (Place.ofFields fields) := by
  induction fields generalizing a with
  | nil => exact .slnil
  | cons e fields ih =>
    obtain ⟨field, own⟩ := e
    have hprefix := placedCalls_runField_prefix (s := s) field own a
    have hfirst := hprefix.sublist
    rw [Place.ofFields_cons]
    rcases s.runField_cases field own a with ⟨e, he⟩ | ⟨value, he⟩ | ⟨outcome, he, ho⟩
    · rw [runFields_cons_of_error he]
      exact hfirst.trans (List.sublist_append_left _ _)
    · rw [runFields_cons_of_sessionBreak he, Event.placedCalls_append_ended]
      rw [Event.placedCalls, List.append_nil]
      exact hfirst.trans (List.sublist_append_left _ _)
    · rw [runFields_cons_of_goesOn he ho, Run.events_after, List.append_assoc]
      rw [List.singleton_append, Event.placedCalls_append_ended, List.map_append]
      exact hfirst.append (ih _)

section
variable (s) (rules : RuleMap κ) (a : State κ)

@[simp] theorem placedCalls_conform : Event.placedCalls 0 (s.conform rules a).events =
    Event.placedCalls 0 (s.runFields rules.entries .empty).events := by
  obtain ⟨told, he, hquiet⟩ := s.events_conform rules a
  have htold : Event.calls told = [] := List.filterMap_eq_nil_iff.2 fun e h => (hquiet e h).1
  rw [he, Event.placedCalls_conforming, Event.placedCalls_append_of_calls_eq_nil htold]

/-- The calls for a record are made in the order in which the rules are declared. -/
theorem placedCalls_conform_sublist :
    ((Event.placedCalls 0 (s.conform rules a).events).map PlacedCall.place).Sublist rules.places := by
  rw [placedCalls_conform]
  exact placedCalls_runFields_sublist rules.entries .empty

theorem placedRecords_conform_sublist :
    ((Event.placedRecords (s.conform rules a).events).map PlacedRecord.place).Sublist rules.places :=
  (Event.map_place_placedRecords_sublist _).trans (s.placedCalls_conform_sublist rules a)

theorem errors_conform_eq_placedRecords : (s.conform rules a).state.errors =
    (Event.placedRecords (s.conform rules a).events).map (·.record) := by
  have hpath : s.Path (fun _ => True) _ _ _ := conform_path rules (fun _ _ => trivial) a
  rw [Event.map_record_placedRecords, hpath.errors]
  rfl

/-- Each call for a record is made for one of its rules. -/
theorem exists_place_of_mem_calls_conform {call : Call κ}
    (h : call ∈ Event.calls (s.conform rules a).events) : ∃ p ∈ rules.places, p.rule = call.rule := by
  rw [← Event.map_call_placedCalls 0] at h
  obtain ⟨c, hc, rfl⟩ := List.mem_map.1 h
  exact ⟨_, (s.placedCalls_conform_sublist rules a).subset (List.mem_map_of_mem hc), rfl⟩

end

end Setting
end RuleFlow
