import Mathlib.Data.List.Forall2
import RuleFlow.Proofs.Places

/-!
# Two runs side by side

Two runs of rules that differ can go the same way. `Rule.Alike` says of two rules that they do so
from any two states that a relation `S` holds of: they face the same gate, their targets are resolved
alike, and their calls lead the field on alike, to states that `S` relates again. If the rules of two
fields or two maps are alike place by place, so are their runs (`runRules_alike`, `runField_alike`,
`runFields_alike`, `conform_alike`): they have one result, end in related states, and their calls are
made at the same places and are related by `C`.
-/

namespace RuleFlow

universe u v

variable {κ : Type u} {α : Type v}

/-- Two runs with one result that leave related states and made related calls, if `n` calls of the
current field came before them. -/
structure Run.Alike (S : State κ → State κ → Prop) (C : PlacedCall κ → PlacedCall κ → Prop) (n : Nat)
    (run run' : Run κ α) : Prop where
  result : run.result = run'.result
  state : S run.state run'.state
  calls : List.Forall₂ C (Event.placedCalls n run.events) (Event.placedCalls n run'.events)

/-- A relation of states with one output that starting a field and writing an entry keep. -/
structure State.Link (S : State κ → State κ → Prop) : Prop where
  output : ∀ {a b}, S a b → a.output = b.output
  start : ∀ {a b} field, S a b → S (a.start field) (b.start field)
  write : ∀ {a b} key value, S a b → S (a.write key value) (b.write key value)

/-- Two lists of rules of one length, of which `R` relates the rules of each position. -/
def Rule.Paired (R : Nat → Rule κ → Rule κ → Prop) (n : Nat) (rules rules' : List (Rule κ)) : Prop :=
  List.Forall₂ (fun x y => R x.2 x.1 y.1) (rules.zipIdx n) (rules'.zipIdx n)

/-- Two fields of one name whose rules can be read and are paired. -/
def Rules.Paired (R : String → Nat → Rule κ → Rule κ → Prop) (e e' : String × Rules κ) : Prop :=
  e.1 = e'.1 ∧ ∃ rules rules', e.2.compile = .ok rules ∧ e'.2.compile = .ok rules' ∧
    Rule.Paired (R e.1) 0 rules rules'

/-- Two maps of the same fields whose rules can be read and of which `R` relates the rules of each
place. -/
def RuleMap.Paired (R : String → Nat → Rule κ → Rule κ → Prop) (rules rules' : RuleMap κ) : Prop :=
  List.Forall₂ (Rules.Paired R) rules.entries rules'.entries

theorem RuleMap.Paired.imp {R R' : String → Nat → Rule κ → Rule κ → Prop} {rules rules' : RuleMap κ}
    (hR : ∀ {field n rule rule'}, R field n rule rule' → R' field n rule rule')
    (h : Paired R rules rules') : Paired R' rules rules' := by
  refine List.Forall₂.imp (fun e e' he => ?_) h
  obtain ⟨heq, rs, rs', hcompile, hcompile', hrules⟩ := he
  exact ⟨heq, rs, rs', hcompile, hcompile', List.Forall₂.imp (fun _ _ => hR) hrules⟩

/-- The rules of the first map can be read, and what `R` says of the first of two rules holds of
them. -/
theorem RuleMap.Paired.left {R : String → Nat → Rule κ → Rule κ → Prop} {P : Rule κ → Prop}
    {rules rules' : RuleMap κ} (hR : ∀ {field n rule rule'}, R field n rule rule' → P rule)
    (h : Paired R rules rules') :
    ∀ e ∈ rules.entries, ∃ own, e.2.compile = .ok own ∧ ∀ rule ∈ own, P rule := by
  have hfields : List.Forall₂ (fun (e e' : String × Rules κ) =>
      (∃ own, e.2.compile = .ok own ∧ ∀ rule ∈ own, P rule) ∧ Rules.Paired R e e')
      rules.entries rules'.entries := by
    refine List.Forall₂.imp (fun e e' he => ⟨?_, he⟩) h
    obtain ⟨_, own, own', hcompile, _, hown⟩ := he
    refine ⟨own, hcompile, fun rule hrule => ?_⟩
    have hpairs := List.Forall₂.imp (fun x y hxy => And.intro (hR hxy) hxy) hown
    rw [← List.zipIdx_map_fst 0 own] at hrule
    obtain ⟨x, hx, rfl⟩ := List.mem_map.1 hrule
    exact ((List.forall₂_and_left _ _).1 hpairs).1 x hx
  exact ((List.forall₂_and_left _ _).1 hfields).1

/-- What holds of all rules of the first map holds of the first of two paired rules. -/
theorem RuleMap.Paired.and_left {R : String → Nat → Rule κ → Rule κ → Prop} {P : Rule κ → Prop}
    {rules rules' : RuleMap κ} (h : Paired R rules rules') (hP : ∀ p ∈ rules.places, P p.rule) :
    Paired (fun field n rule rule' => P rule ∧ R field n rule rule') rules rules' := by
  have hmem : List.Forall₂ (fun e e' => e ∈ rules.entries ∧ Rules.Paired R e e') rules.entries
      rules'.entries := (List.forall₂_and_left _ _).2 ⟨fun _ he => he, h⟩
  refine List.Forall₂.imp (fun e e' he => ?_) hmem
  obtain ⟨hentry, heq, own, own', hcompile, hcompile', hown⟩ := he
  refine ⟨heq, own, own', hcompile, hcompile', (List.forall₂_and_left _ _).2 ⟨fun x hx => ?_, hown⟩⟩
  apply hP ⟨e.1, x.2, x.1⟩
  refine Place.mem_ofFields.2 ⟨e.2, hentry, ?_⟩
  rw [Rules.compiled_of_ok hcompile]
  exact List.mem_zipIdx_iff_getElem?.1 hx

/-- Two rules at the place `n` of a field, in one run each, that go the same way from related
states. -/
structure Rule.Alike [Conformer κ] (s t : Setting κ) (S : State κ → State κ → Prop)
    (C : PlacedCall κ → PlacedCall κ → Prop) (field : String) (n : Nat) (rule rule' : Rule κ) :
    Prop where
  gate : ∀ {a b}, S a b → Gate.closed? rule.flags field a = Gate.closed? rule'.flags field b
  target : (∃ e, s.target rule.target = .error e ∧ t.target rule'.target = .error e) ∨
    ∃ c d, s.target rule.target = .ok c ∧ t.target rule'.target = .ok d ∧
      ∀ {a b} value, S a b →
        (Step.ofCall field (s.call field rule c value a)).flow =
          (Step.ofCall field (t.call field rule' d value b)).flow ∧
        S (Step.ofCall field (s.call field rule c value a)).state
          (Step.ofCall field (t.call field rule' d value b)).state ∧
        C ⟨field, n, s.call field rule c value a⟩ ⟨field, n, t.call field rule' d value b⟩

namespace Setting

variable [Conformer κ] {s t : Setting κ} {S : State κ → State κ → Prop}
  {C : PlacedCall κ → PlacedCall κ → Prop} {a b : State κ}

/-! ## One field -/

theorem runRules_alike {field : String} {n : Nat} {rules rules' : List (Rule κ)}
    (h : Rule.Paired (Rule.Alike s t S C field) n rules rules') (value : Json) (hab : S a b) :
    Run.Alike S C n (s.runRules field rules value a) (t.runRules field rules' value b) := by
  induction rules generalizing rules' n value a b with
  | nil =>
    cases rules' with
    | nil => exact ⟨rfl, hab, .nil⟩
    | cons rule' rules' => cases h
  | cons rule rules ih =>
    cases rules' with
    | nil => cases h
    | cons rule' rules' =>
      obtain ⟨hrule, hrest⟩ := List.forall₂_cons.1 h
      have hgate := hrule.gate hab
      rcases s.rule_cases field rule value a with ⟨gate, hg⟩ | ⟨hg, _⟩
      · rw [runRules_cons_of_closed hg, runRules_cons_of_closed (hgate.symm.trans hg)]
        exact ⟨rfl, hab, .nil⟩
      · have hg' := hgate.symm.trans hg
        rcases hrule.target with ⟨e, ht, ht'⟩ | ⟨c, d, ht, ht', hcall⟩
        · rw [runRules_cons_of_unresolved hg ht, runRules_cons_of_unresolved hg' ht']
          exact ⟨rfl, hab, .nil⟩
        · -- The calls are at the same place; the rules after them are run from related states.
          obtain ⟨hflow, hstate, hcalls⟩ := hcall value hab
          cases hf : (Step.ofCall field (s.call field rule c value a)).flow with
          | stop outcome =>
            rw [runRules_cons_of_stop hg ht hf, runRules_cons_of_stop hg' ht' (hflow.symm.trans hf)]
            refine ⟨rfl, hstate, ?_⟩
            rw [Step.placedCalls_ofCall, Step.placedCalls_ofCall]
            exact .cons hcalls .nil
          | next v =>
            rw [runRules_cons_of_next hg ht hf, runRules_cons_of_next hg' ht' (hflow.symm.trans hf)]
            obtain ⟨hresult, hleft, hlater⟩ := ih hrest v hstate
            refine ⟨hresult, hleft, ?_⟩
            rw [Run.events_after, Run.events_after, Step.placedCalls_ofCall_append,
              Step.placedCalls_ofCall_append]
            exact .cons hcalls hlater

theorem runField_alike (hinput : s.input = t.input) {field : String} {own own' : Rules κ}
    {rules rules' : List (Rule κ)} (hown : own.compile = .ok rules)
    (hown' : own'.compile = .ok rules')
    (h : Rule.Paired (Rule.Alike s t S C field) 0 rules rules')
    (hab : S (a.start field) (b.start field)) :
    Run.Alike S C 0 (s.runField field own a) (t.runField field own' b) := by
  have hvalue : s.fieldValue field = t.fieldValue field := by rw [fieldValue, fieldValue, hinput]
  rw [runField_of_ok hown, runField_of_ok hown', hvalue]
  exact runRules_alike h _ hab

/-! ## A record -/

theorem runFields_alike (hinput : s.input = t.input) (hS : State.Link S)
    {fields fields' : List (String × Rules κ)}
    (h : List.Forall₂ (Rules.Paired (Rule.Alike s t S C)) fields fields') (hab : S a b) :
    Run.Alike S C 0 (s.runFields fields a) (t.runFields fields' b) ∧
    Event.endings (s.runFields fields a).events = Event.endings (t.runFields fields' b).events := by
  induction h generalizing a b with
  | nil => exact ⟨⟨rfl, hab, .nil⟩, rfl⟩
  | @cons e e' fields fields' he _ ih =>
    obtain ⟨field, own⟩ := e
    obtain ⟨field', own'⟩ := e'
    obtain ⟨heq, rules, rules', hown, hown', hrules⟩ := he
    dsimp only at heq hown hown' hrules
    subst heq
    obtain ⟨hresult, hstate, hcalls⟩ :=
      runField_alike hinput hown hown' hrules (hS.start field hab)
    rcases s.runField_cases field own a with ⟨e, hr⟩ | ⟨value, hr⟩ | ⟨outcome, hr, ho⟩
    · rw [runFields_cons_of_error hr, runFields_cons_of_error (hresult.symm.trans hr)]
      refine ⟨⟨rfl, hstate, hcalls⟩, ?_⟩
      rw [endings_runField, endings_runField]
    · rw [runFields_cons_of_sessionBreak hr, runFields_cons_of_sessionBreak (hresult.symm.trans hr)]
      refine ⟨⟨rfl, hstate, ?_⟩, ?_⟩
      · rw [Event.placedCalls_append_ended, Event.placedCalls_append_ended]
        exact List.rel_append hcalls .nil
      · rw [endings_runField_ended, endings_runField_ended]
    · rw [runFields_cons_of_goesOn hr ho, runFields_cons_of_goesOn (hresult.symm.trans hr) ho]
      have hwritten : S
          ((s.runField field own a).state.writeAll (Event.ended (κ := κ) field outcome).writes)
          ((t.runField field own' b).state.writeAll (Event.ended (κ := κ) field outcome).writes) := by
        cases outcome with
        | complete value => exact hS.write field value hstate
        | _ => exact hstate
      obtain ⟨⟨hresult', hstate', hcalls'⟩, hendings⟩ := ih hwritten
      refine ⟨⟨hresult', hstate', ?_⟩, ?_⟩
      · simp only [Run.events_after, List.append_assoc, List.singleton_append]
        rw [Event.placedCalls_append_ended, Event.placedCalls_append_ended]
        exact List.rel_append hcalls hcalls'
      · rw [Run.events_after, Run.events_after, Event.endings_append, endings_runField_ended,
          Event.endings_append, endings_runField_ended, hendings]

theorem conform_alike (hinput : s.input = t.input) (hS : State.Link S)
    {rules rules' : RuleMap κ} (hempty : S .empty .empty)
    (h : RuleMap.Paired (Rule.Alike s t S C) rules rules') (a b : State κ) :
    Run.Alike S C 0 (s.conform rules a) (t.conform rules' b) ∧
    Event.endings (s.conform rules a).events = Event.endings (t.conform rules' b).events := by
  obtain ⟨⟨hresult, hstate, hcalls⟩, hendings⟩ := runFields_alike hinput hS h hempty
  refine ⟨⟨?_, ?_, ?_⟩, ?_⟩
  · rw [result_conform, result_conform, hresult, hS.output hstate]
  · rwa [state_conform, state_conform]
  · rwa [placedCalls_conform, placedCalls_conform]
  · rw [endings_conform, endings_conform, hendings]

end Setting
end RuleFlow
