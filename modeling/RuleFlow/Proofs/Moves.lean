import RuleFlow.Session.Basic

/-!
# The moves of a run

All runs, of a field as of a record, consist of the same few moves: a field starts, a gate closes,
a rule calls its conformer, a field ends, and a run says that it begins and that it is done.
`Setting.Move` says once what each of them does to the state, under which condition, and which
events tell of it. `Setting.Path` is a series of moves, and every run is one (`runField_path`,
`runFields_path`, `conform_path`, `Session.perform_path`). What holds of the moves holds of all that
happens in a run: `Path.pairwise` carries a relation over the states that conformers see,
`Path.forall_seen` and `Session.performAll_keeps` carry an invariant along runs and commands,
`Path.keeps` one that only calls of some kind keep, and `Path.before_call` cuts a run where a
conformer is called. `Path.answer_of_mem_calls` says of each call whom it asks and what it is told.
-/

namespace RuleFlow

universe u

variable {κ : Type u}

/-! ## What events tell -/

namespace Event

/-- The call that an event tells of. -/
def call? : Event κ → Option (Call κ)
  | applied _ call => some call
  | _ => none

/-- The entries that an event sets in the output: those that a conformer sets, or the value of a
field that completed. -/
def writes : Event κ → List (String × Json)
  | applied _ call => call.reply.writes
  | ended field (.complete value) => [(field, value)]
  | _ => []

/-- The field that an event ends, with its outcome. -/
def ending? : Event κ → Option (String × Outcome)
  | ended field outcome => some (field, outcome)
  | _ => none

/-- The calls of conformers, in order. -/
def calls (events : List (Event κ)) : List (Call κ) := events.filterMap call?

/-- The states that conformers see, in order. -/
def seen (events : List (Event κ)) : List (State κ) := (calls events).map (·.view.state)

/-- The fields that ended, in order, with their outcomes. -/
def endings (events : List (Event κ)) : List (String × Outcome) := events.filterMap ending?

@[simp] theorem calls_append (es fs : List (Event κ)) : calls (es ++ fs) = calls es ++ calls fs :=
  List.filterMap_append

@[simp] theorem seen_append (es fs : List (Event κ)) : seen (es ++ fs) = seen es ++ seen fs := by
  rw [seen, calls_append, List.map_append, seen, seen]

@[simp] theorem endings_append (es fs : List (Event κ)) :
    endings (es ++ fs) = endings es ++ endings fs := List.filterMap_append

@[simp] theorem calls_applied (field : String) (call : Call κ) (es : List (Event κ)) :
    calls (.applied field call :: es) = call :: calls es := rfl

@[simp] theorem calls_conforming (fields : Nat) (es : List (Event κ)) :
    calls (.conforming fields :: es) = calls es := rfl

@[simp] theorem endings_conforming (fields : Nat) (es : List (Event κ)) :
    endings (.conforming fields :: es) = endings es := rfl

theorem mem_endings {events : List (Event κ)} {field : String} {outcome : Outcome} :
    (field, outcome) ∈ endings events ↔ .ended field outcome ∈ events := by
  rw [endings, List.mem_filterMap]
  constructor
  · rintro ⟨e, he, ho⟩
    cases e with
    | ended f o => cases ho; exact he
    | _ => cases ho
  · exact fun h => ⟨_, h, rfl⟩

theorem mem_calls {events : List (Event κ)} {call : Call κ} :
    call ∈ calls events ↔ ∃ field, .applied field call ∈ events := by
  rw [calls, List.mem_filterMap]
  constructor
  · rintro ⟨e, he, hc⟩
    cases e with
    | applied field c => cases hc; exact ⟨field, he⟩
    | _ => cases hc
  · rintro ⟨field, h⟩
    exact ⟨_, h, rfl⟩

end Event

/-! ## What a call leads to -/

namespace Call

/-- The state in which the writes of a call are made. -/
def written (call : Call κ) : State κ := call.view.state.writeAll call.reply.writes

/-- The record that a call leads to, if it leads to one. -/
def record? (field : String) (call : Call κ) : Option (Record κ) :=
  match Verdict.of call.rule.flags.negate call.reply.result with
  | .fail cause => if call.rule.flags.optional then none else some ⟨cause, field, call.rule⟩
  | _ => none

theorem field_record? {field : String} {call : Call κ} {r : Record κ}
    (h : call.record? field = some r) : r.field = field := by
  unfold record? at h
  split at h
  · split at h
    · cases h
    · cases h; rfl
  · cases h

/-- The record does not depend on the state in which a call is made, if its answer does not. -/
theorem record?_congr {call call' : Call κ} (hresult : call.reply.result = call'.reply.result)
    (hrule : call.rule = call'.rule) (field : String) :
    call.record? field = call'.record? field := by
  unfold record?
  rw [hrule, hresult]

end Call

/-- A call makes its writes and then leaves at most one record. -/
theorem Step.state_ofCall (field : String) (call : Call κ) :
    (Step.ofCall field call).state = (call.record? field).elim call.written call.written.record := by
  unfold Step.ofCall Call.record?
  cases Verdict.of call.rule.flags.negate call.reply.result with
  | advance value => rfl
  | hold failure => rfl
  | fail cause =>
    simp only [Step.ofVerdict, Step.ofFailure, Call.written]
    split <;> split <;> (try split) <;> rfl

/-- How a field goes on after a verdict on the value that its rule was given. -/
def Flow.ofVerdict (flags : Flags) (value : Json) : Verdict → Flow
  | .advance new => .next new
  | .hold _ => .next value
  | .fail _ =>
    if flags.breakField then .stop (.fieldBreak value)
    else if flags.breakAll then .stop (.sessionBreak value)
    else .next value

theorem Step.flow_ofCall (field : String) (call : Call κ) :
    (Step.ofCall field call).flow = Flow.ofVerdict call.rule.flags call.value
      (Verdict.of call.rule.flags.negate call.reply.result) := by
  unfold Step.ofCall
  cases Verdict.of call.rule.flags.negate call.reply.result with
  | advance value => rfl
  | hold failure => rfl
  | fail cause =>
    simp only [Step.ofVerdict, Step.ofFailure, Flow.ofVerdict]
    split
    · rfl
    · split <;> rfl

theorem Step.flow_ofCall_congr {call call' : Call κ}
    (hresult : call.reply.result = call'.reply.result) (hrule : call.rule = call'.rule)
    (hvalue : call.value = call'.value) (field : String) :
    (Step.ofCall field call).flow = (Step.ofCall field call').flow := by
  rw [flow_ofCall, flow_ofCall, hrule, hvalue, hresult]

/-- The first event of a call is the call. The others call nothing, write nothing and end no field
of a record. -/
theorem Step.events_ofCall (field : String) (call : Call κ) :
    ∃ told, (Step.ofCall field call).events = .applied field call :: told ∧
      ∀ e ∈ told, e.call? = none ∧ e.writes = [] ∧ e.ending? = none := by
  refine ⟨_, rfl, ?_⟩
  cases Verdict.of call.rule.flags.negate call.reply.result with
  | advance value => simp [Step.ofVerdict]
  | hold failure => simp [Step.ofVerdict, Event.call?, Event.writes, Event.ending?]
  | fail cause =>
    simp only [Step.ofVerdict, Step.ofFailure]
    split <;> split <;> (try split) <;> simp [Event.call?, Event.writes, Event.ending?]

/-! ## Moves -/

namespace Setting

variable [Conformer κ]

/-- One move of a run over fields that `on` allows, with the events that tell of it. -/
inductive Move (s : Setting κ) (on : String → Prop) : State κ → List (Event κ) → State κ → Prop
  /-- A field starts. -/
  | start {field : String} {a : State κ} (hf : on field) : Move s on a [] (a.start field)
  /-- A gate closes before a rule. -/
  | skip {field : String} {rule : Rule κ} {gate : Gate} {a : State κ} (hf : on field)
    (hg : Gate.closed? rule.flags field a = some gate) : Move s on a [.skipped field rule gate] a
  /-- A rule, at which no gate is closed, calls its conformer. -/
  | rule {field : String} {rule : Rule κ} {c : κ} {a : State κ} (value : Json) (hf : on field)
    (hg : Gate.closed? rule.flags field a = none) (ht : s.target rule.target = .ok c) :
    Move s on a (Step.ofCall field (s.call field rule c value a)).events
      (Step.ofCall field (s.call field rule c value a)).state
  /-- A field of a record ends. -/
  | finish {field : String} {a : State κ} (outcome : Outcome) (hf : on field) :
    Move s on a [.ended field outcome] (a.writeAll (Event.ended (κ := κ) field outcome).writes)
  /-- The conforming of a record begins. -/
  | conforming {a : State κ} (fields : Nat) : Move s on a [.conforming fields] a
  /-- A record is conformed. -/
  | conformed {a : State κ} : Move s on a [.conformed a.errors.length] a

/-- A series of moves, with the events that tell of them. -/
inductive Path (s : Setting κ) (on : String → Prop) : State κ → List (Event κ) → State κ → Prop
  | nil {a : State κ} : Path s on a [] a
  | cons {a b c : State κ} {es fs : List (Event κ)} :
    Move s on a es b → Path s on b fs c → Path s on a (es ++ fs) c

variable {s : Setting κ} {on : String → Prop} {a b c : State κ} {es fs : List (Event κ)}

theorem Move.path (h : s.Move on a es b) : s.Path on a es b := by
  simpa using Path.cons h .nil

theorem Path.append (h : s.Path on a es b) (h' : s.Path on b fs c) : s.Path on a (es ++ fs) c := by
  induction h with
  | nil => exact h'
  | cons hm _ ih =>
    rw [List.append_assoc]
    exact .cons hm (ih h')

/-! ## Runs are paths -/

theorem runRules_path {field : String} (hf : on field) (rules : List (Rule κ)) (value : Json)
    (a : State κ) :
    s.Path on a (s.runRules field rules value a).events (s.runRules field rules value a).state := by
  induction rules generalizing value a with
  | nil => exact .nil
  | cons rule rules ih =>
    rw [runRules]
    split
    · next gate hg => exact (Move.skip hf hg).path
    · next hg =>
      split
      · exact .nil
      · next c ht =>
        -- The call is one move, whatever comes of it; the rules after it are run from its state.
        have hm := Move.rule (s := s) value hf hg ht
        dsimp only
        split
        · exact hm.path
        · exact .cons hm (ih _ _)

theorem runField_path {field : String} (hf : on field) (rules : Rules κ) (a : State κ) :
    s.Path on a (s.runField field rules a).events (s.runField field rules a).state := by
  unfold runField
  split
  · exact .nil
  · exact .cons (.start hf) (runRules_path hf _ _ _)

theorem runFields_path (fields : List (String × Rules κ)) (hf : ∀ e ∈ fields, on e.1)
    (a : State κ) :
    s.Path on a (s.runFields fields a).events (s.runFields fields a).state := by
  induction fields generalizing a with
  | nil => exact .nil
  | cons e fields ih =>
    obtain ⟨field, rules⟩ := e
    have hfield : on field := hf _ List.mem_cons_self
    have hrun := runField_path (s := s) hfield rules a
    have hrest := ih fun e he => hf e (List.mem_cons_of_mem _ he)
    rw [runFields]
    split
    · exact hrun
    · next outcome _ =>
      have hended := hrun.append (Move.finish outcome hfield).path
      cases outcome with
      | complete value => exact hended.append (hrest _)
      | fieldBreak value => exact hended.append (hrest _)
      | sessionBreak value => exact hended

theorem conform_path (rules : RuleMap κ) (hf : ∀ field ∈ rules.keys, on field) (a : State κ) :
    s.Path on a.reset (s.conform rules a).events (s.conform rules a).state := by
  have hfields : ∀ e ∈ rules.entries, on e.1 := fun e he => hf _ (List.mem_map_of_mem he)
  have hrun := Path.cons (.conforming rules.size) (runFields_path (s := s) _ hfields a.reset)
  unfold conform
  dsimp only
  split
  · exact hrun
  · exact hrun.append Move.conformed.path

/-! ## What moves tell -/

/-- Only a rule calls a conformer. The call is the first event and the only call of its move, and
the conformer sees the state before the move. -/
theorem Move.calls_cases (h : s.Move on a es b) : Event.calls es = [] ∨
    ∃ field call told, es = .applied field call :: told ∧ Event.calls told = [] ∧
      call.view.state = a := by
  cases h with
  | @rule field rule c _ value _ _ _ =>
    obtain ⟨told, he, hquiet⟩ := Step.events_ofCall field (s.call field rule c value a)
    exact .inr ⟨field, _, told, he, List.filterMap_eq_nil_iff.2 fun e h => (hquiet e h).1, rfl⟩
  | _ => exact .inl rfl

theorem Move.seen (h : s.Move on a es b) : Event.seen es = [] ∨ Event.seen es = [a] := by
  rcases h.calls_cases with h | ⟨field, call, told, rfl, htold, rfl⟩
  · rw [Event.seen, h]; exact .inl rfl
  · rw [Event.seen, Event.calls_applied, htold]; exact .inr rfl

theorem Move.of_applied {field : String} {call : Call κ}
    (h : s.Move on a (es ++ .applied field call :: fs) b) : es = [] ∧ call.view.state = a := by
  rcases h.calls_cases with h | ⟨field', call', told, he, htold, hview⟩
  · rw [Event.calls_append, Event.calls_applied] at h
    cases List.append_eq_nil_iff.1 h |>.2
  · cases es with
    | nil => cases he; exact ⟨rfl, hview⟩
    | cons e es =>
      have hmem : call ∈ Event.calls told :=
        Event.mem_calls.2 ⟨field, (List.cons.inj he).2 ▸ List.mem_append_right _ List.mem_cons_self⟩
      rw [htold] at hmem
      cases hmem

/-- What is told of a call: it was made in a field of the run, at no closed gate, to the conformer that
the rule targets, and the conformer gave the answer. -/
theorem Move.of_mem_applied {field : String} {call : Call κ} (h : s.Move on a es b)
    (he : .applied field call ∈ es) :
    on field ∧ Gate.closed? call.rule.flags field call.view.state = none ∧
      s.target call.rule.target = .ok call.conformer ∧
      call = s.call field call.rule call.conformer call.value call.view.state := by
  cases h with
  | @rule f rule c _ value hf hg ht =>
    obtain ⟨told, htold, hquiet⟩ := Step.events_ofCall f (s.call f rule c value a)
    rw [htold, List.mem_cons] at he
    rcases he with he | he
    · cases he
      exact ⟨hf, hg, ht, rfl⟩
    · cases (hquiet _ he).1
  | start _ => cases he
  | _ => cases List.mem_singleton.1 he

/-! ## What paths keep -/

theorem Path.of_mem_applied {field : String} {call : Call κ} (h : s.Path on a es b)
    (he : .applied field call ∈ es) :
    on field ∧ Gate.closed? call.rule.flags field call.view.state = none ∧
      s.target call.rule.target = .ok call.conformer ∧
      call = s.call field call.rule call.conformer call.value call.view.state := by
  induction h with
  | nil => cases he
  | cons hm _ ih => exact (List.mem_append.1 he).elim hm.of_mem_applied ih

/-- A call was made to the conformer that its rule targets, and has its answer. -/
theorem Path.answer_of_mem_calls {call : Call κ} (h : s.Path on a es b)
    (hcall : call ∈ Event.calls es) : s.target call.rule.target = .ok call.conformer ∧
      call.reply = Conformer.run call.conformer call.value call.rule.params call.view := by
  obtain ⟨_, happlied⟩ := Event.mem_calls.1 hcall
  obtain ⟨_, _, htarget, hmade⟩ := h.of_mem_applied happlied
  refine ⟨htarget, ?_⟩
  rw [hmade]
  rfl

/-- What moves keep whose calls are all of some kind is kept by runs whose calls are of this kind. -/
theorem Path.keeps {I : State κ → Prop} {P : Call κ → Prop}
    (move : ∀ {a es b}, s.Move on a es b → (∀ call ∈ Event.calls es, P call) → I a → I b)
    (h : s.Path on a es b) (hcalls : ∀ call ∈ Event.calls es, P call) (ha : I a) : I b := by
  induction h with
  | nil => exact ha
  | cons hm _ ih =>
    rw [Event.calls_append, List.forall_mem_append] at hcalls
    exact ih hcalls.2 (move hm hcalls.1 ha)

/-- A relation that every move keeps holds between any two of the states that a run goes through:
the first one, those that conformers see and the last one, in this order. -/
theorem Path.pairwise {R : State κ → State κ → Prop} (refl : ∀ a, R a a)
    (trans : ∀ {a b c}, R a b → R b c → R a c) (move : ∀ {a es b}, s.Move on a es b → R a b)
    (h : s.Path on a es b) : (a :: (Event.seen es ++ [b])).Pairwise R := by
  induction h with
  | @nil a => exact .cons (fun b hb => List.mem_singleton.1 hb ▸ refl a) (List.pairwise_singleton _ _)
  | @cons a b c es fs hm _ ih =>
    -- `a` reaches `b` by one move, and `b` is related to all that comes after it.
    obtain ⟨hb, hrest⟩ := List.pairwise_cons.1 ih
    have ha : ∀ d ∈ Event.seen fs ++ [c], R a d := fun d hd => trans (move hm) (hb d hd)
    rw [Event.seen_append]
    rcases hm.seen with h | h
    · rw [h]
      exact .cons ha hrest
    · rw [h]
      exact .cons (List.forall_mem_cons.2 ⟨refl a, ha⟩) (.cons ha hrest)

/-- What every move keeps holds of all that a run goes through if it holds at the start. -/
theorem Path.forall_seen {I : State κ → Prop} (move : ∀ {a es b}, s.Move on a es b → I a → I b)
    (h : s.Path on a es b) (ha : I a) : ∀ c ∈ Event.seen es ++ [b], I c := by
  intro c hc
  have hkept := h.pairwise (R := fun a b => I a → I b) (fun _ => id) (fun h h' => h' ∘ h) move
  exact (List.pairwise_cons.1 hkept).1 c hc ha

/-- A run up to the call of a conformer is a run to the state that the conformer sees. -/
theorem Path.before_call {field : String} {call : Call κ} {all : List (Event κ)}
    (h : s.Path on a all b) (he : all = es ++ .applied field call :: fs) :
    s.Path on a es call.view.state := by
  induction h generalizing es with
  | nil => cases (List.append_eq_nil_iff.1 he.symm).2
  | @cons a b c es₁ es₂ hm _ ih =>
    -- The call is told either by a later move or by this one, and then it is its first event.
    rcases List.append_eq_append_iff.1 he with ⟨mid, rfl, hmid⟩ | ⟨mid, rfl, hmid⟩
    · exact .cons hm (ih hmid)
    · cases mid with
      | nil =>
        have hrest : s.Path on b [] call.view.state := ih hmid.symm
        simpa using Path.cons hm hrest
      | cons e mid =>
        cases hmid
        obtain ⟨rfl, hview⟩ := hm.of_applied
        exact hview ▸ .nil

end Setting

/-! ## Commands are paths -/

namespace Command

/-- Whether a command forgets what the session has before it does anything else. -/
def restarts : Command κ → Bool
  | conform _ | reset => true
  | conformJson rules => (RuleMap.ofJson (κ := κ) rules).isOk
  | runField _ _ | addConformer _ _ => false

end Command

namespace Session

/-- The state that a command goes on from. -/
def startOf (s : Session κ) (command : Command κ) : State κ :=
  if command.restarts then s.state.reset else s.state

variable [Conformer κ]

theorem conformJson_of_error {s : Session κ} {json : Json} {e : Error}
    (h : RuleMap.ofJson (κ := κ) json = .error e) :
    s.conformJson json = ⟨.error e, s.state, []⟩ := by
  rw [conformJson, h]

theorem conformJson_of_ok {s : Session κ} {json : Json} {rules : RuleMap κ}
    (h : RuleMap.ofJson json = .ok rules) : s.conformJson json = s.conform rules := by
  rw [conformJson, h]

theorem conformJson_path (s : Session κ) (json : Json) :
    s.toSetting.Path (fun _ => True) (s.startOf (.conformJson json)) (s.conformJson json).events
      (s.conformJson json).state := by
  cases h : RuleMap.ofJson (κ := κ) json with
  | error e =>
    have hs : s.startOf (.conformJson json) = s.state := by
      rw [startOf, Command.restarts, h]; rfl
    rw [hs, conformJson_of_error h]
    exact .nil
  | ok rules =>
    have hs : s.startOf (.conformJson json) = s.state.reset := by
      rw [startOf, Command.restarts, h]; rfl
    rw [hs, conformJson_of_ok h]
    exact Setting.conform_path rules (fun _ _ => trivial) s.state

theorem perform_path (s : Session κ) (command : Command κ) :
    s.toSetting.Path (fun _ => True) (s.startOf command) (s.perform command).events
      (s.perform command).session.state := by
  cases command with
  | conform rules => exact Setting.conform_path rules (fun _ _ => trivial) s.state
  | conformJson json => exact s.conformJson_path json
  | runField field rules => exact Setting.runField_path trivial rules s.state
  | reset => exact .nil
  | addConformer path c => exact .nil

/-- What every move keeps and what holds of the empty state is kept by commands, and holds of all
that they go through. -/
theorem perform_forall_seen {I : State κ → Prop} (empty : I .empty)
    (move : ∀ {t : Setting κ} {a es b}, t.Move (fun _ => True) a es b → I a → I b) {s : Session κ}
    (hs : I s.state) (command : Command κ) :
    ∀ a ∈ Event.seen (s.perform command).events ++ [(s.perform command).session.state], I a := by
  apply (s.perform_path command).forall_seen move
  unfold startOf
  split
  · exact empty
  · exact hs

theorem performAll_keeps {I : State κ → Prop} (empty : I .empty)
    (move : ∀ {t : Setting κ} {a es b}, t.Move (fun _ => True) a es b → I a → I b) {s : Session κ}
    (hs : I s.state) (commands : List (Command κ)) : I (s.performAll commands).state := by
  induction commands generalizing s with
  | nil => exact hs
  | cons command commands ih =>
    apply ih
    exact perform_forall_seen empty move hs command _ (List.mem_append_right _ List.mem_cons_self)

end Session
end RuleFlow
