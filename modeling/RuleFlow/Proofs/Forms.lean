import RuleFlow.Builtin
import RuleFlow.Proofs.Reading
import RuleFlow.Proofs.Writes
import RuleFlow.Rule.Decode

/-!
# Which JSON values are rules

The shapes that are rules are told apart without reading them: the forms of one rule
(`Json.IsForm`), and the rules of a field as a text or an array of forms (`Json.IsRules`). Just
these are read, and for any other value the error names the value that is to blame
(`Json.Offender`), which is the first one that stands where a form should. A rule map is an object
of such rules (`RuleMap.accepted_by_shape`).
-/

namespace RuleFlow

universe u

variable {κ : Type u}

/-! ## Shapes -/

namespace Json

/-- One rule: a text, or an array that starts with a text or with a pair. A pair holds flags, which
may be null, and a path. -/
inductive IsForm : Json → Prop where
  | text (t : String) : IsForm (.string t)
  | positional (head : String) (params : List Json) : IsForm (.array (.string head :: params))
  | inline (flags path : String) (params : List Json) :
    IsForm (.array (.array [.string flags, .string path] :: params))
  | unflagged (path : String) (params : List Json) :
    IsForm (.array (.array [.null, .string path] :: params))

/-- The rules of a field: a text, or an array of forms. -/
inductive IsRules : Json → Prop where
  | text (t : String) : IsRules (.string t)
  | list {items : List Json} : (∀ item ∈ items, item.IsForm) → IsRules (.array items)

/-- `Offender v bad`: as the rules of a field, `v` is wrong because of `bad`. That is `v` itself
where it is no text and no array, and else its first item that is no form. -/
inductive Offender : Json → Json → Prop where
  | shape {v : Json} : v.string? = none → v.items? = none → Offender v v
  | item (before : List Json) {bad : Json} (later : List Json) :
    (∀ item ∈ before, item.IsForm) → ¬ bad.IsForm → Offender (.array (before ++ bad :: later)) bad

/-- `MapOffender v bad`: as a rule map, `v` is wrong because of `bad`. That is `v` itself where it
is no object, and else what is to blame in the first field whose rules are wrong. -/
inductive MapOffender : Json → Json → Prop where
  | shape {v : Json} : v.members? = none → MapOffender v v
  | field (before : List (String × Json)) (field : String) {rules bad : Json}
    (later : List (String × Json)) : (∀ m ∈ before, m.2.IsRules) → rules.Offender bad →
    MapOffender (.object (before ++ (field, rules) :: later)) bad

end Json

/-! ## One rule -/

namespace Source

variable {v : Json} {e : Error}

theorem ofJson_of_isForm (h : v.IsForm) : ∃ source : Source κ, ofJson v = .ok source := by
  cases h with
  | text t => exact ⟨_, rfl⟩
  | positional head params => exact ⟨_, rfl⟩
  | inline flags path params => exact ⟨_, rfl⟩
  | unflagged path params => exact ⟨_, rfl⟩

theorem ofJson_of_not_isForm (h : ¬ v.IsForm) :
    (ofJson v : Except Error (Source κ)) = .error (.nonConformingRule v) := by
  unfold ofJson
  split
  · exact absurd (.text _) h
  · exact absurd (.positional _ _) h
  · exact absurd (.inline _ _ _) h
  · exact absurd (.unflagged _ _) h
  · rfl

theorem exists_ofJson_iff : (∃ source : Source κ, ofJson v = .ok source) ↔ v.IsForm := by
  refine ⟨fun ⟨source, hsource⟩ => ?_, ofJson_of_isForm⟩
  by_contra hform
  rw [ofJson_of_not_isForm hform] at hsource
  cases hsource

theorem ofJson_eq_error_iff : (ofJson v : Except Error (Source κ)) = .error e ↔
    ¬ v.IsForm ∧ e = .nonConformingRule v := by
  by_cases hform : v.IsForm
  · obtain ⟨source, hsource⟩ := ofJson_of_isForm (κ := κ) hform
    simp [hsource, hform]
  · simp [ofJson_of_not_isForm hform, hform, eq_comm]

end Source

/-! ## The rules of a field -/

namespace Rules

variable {v : Json} {e : Error}

theorem ofJson_array_eq_error_iff {items : List Json} :
    (ofJson (.array items) : Except Error (Rules κ)) = .error e ↔
      ∃ before bad later, items = before ++ bad :: later ∧ (∀ item ∈ before, item.IsForm) ∧
        ¬ bad.IsForm ∧ e = .nonConformingRule bad := by
  simp only [ofJson, map_eq_error_iff, mapM_eq_error_iff, Source.exists_ofJson_iff,
    Source.ofJson_eq_error_iff]

theorem ofJson_eq_error_iff : (ofJson v : Except Error (Rules κ)) = .error e ↔
    ∃ bad, v.Offender bad ∧ e = .nonConformingRule bad := by
  constructor
  · intro h
    cases v with
    | string t => cases h
    | array items =>
      obtain ⟨before, bad, later, rfl, hbefore, hbad, rfl⟩ := ofJson_array_eq_error_iff.1 h
      exact ⟨bad, .item before later hbefore hbad, rfl⟩
    | null | bool | number | object =>
      cases h
      exact ⟨_, .shape rfl rfl, rfl⟩
  · rintro ⟨bad, hbad, rfl⟩
    cases hbad with
    | shape hstring hitems =>
      cases v with
      | string t => cases hstring
      | array items => cases hitems
      | null | bool | number | object => rfl
    | item before later hbefore hbad =>
      exact ofJson_array_eq_error_iff.2 ⟨_, _, _, rfl, hbefore, hbad, rfl⟩

theorem exists_ofJson_array_iff {items : List Json} :
    (∃ rules : Rules κ, ofJson (.array items) = .ok rules) ↔ ∀ item ∈ items, item.IsForm := by
  simp only [ofJson, exists_map_eq_ok_iff, exists_mapM_eq_ok_iff, Source.exists_ofJson_iff]

theorem exists_ofJson_iff : (∃ rules : Rules κ, ofJson v = .ok rules) ↔ v.IsRules := by
  constructor
  · intro h
    cases v with
    | string t => exact .text t
    | array items => exact .list (exists_ofJson_array_iff.1 h)
    | null | bool | number | object =>
      obtain ⟨rules, h⟩ := h
      cases h
  · intro h
    cases h with
    | text t => exact ⟨_, rfl⟩
    | list hitems => exact exists_ofJson_array_iff.2 hitems

end Rules

/-! ## Rule maps -/

namespace RuleMap

variable {v : Json} {e : Error} {members : List (String × Json)}

theorem exists_ofJson_object_iff :
    (∃ m : RuleMap κ, ofJson (.object members) = .ok m) ↔ ∀ m ∈ members, m.2.IsRules := by
  simp only [ofJson, exists_map_eq_ok_iff, exists_mapM_eq_ok_iff, Rules.exists_ofJson_iff]

/-- The mistake of rules in JSON is that of the first field whose rules cannot be read. -/
theorem ofJson_object_eq_error_iff :
    (ofJson (.object members) : Except Error (RuleMap κ)) = .error e ↔
      ∃ before field bad later, members = before ++ (field, bad) :: later ∧
        (∀ m ∈ before, ∃ rules : Rules κ, Rules.ofJson m.2 = .ok rules) ∧
        (Rules.ofJson bad : Except Error (Rules κ)) = .error e := by
  simp only [ofJson, map_eq_error_iff, mapM_eq_error_iff, exists_map_eq_ok_iff, Prod.exists]

theorem ofJson_eq_error_iff : (ofJson v : Except Error (RuleMap κ)) = .error e ↔
    ∃ bad, v.MapOffender bad ∧ e = .nonConformingRule bad := by
  constructor
  · intro h
    cases v with
    | object members =>
      obtain ⟨before, field, rules, later, rfl, hbefore, hrules⟩ := ofJson_object_eq_error_iff.1 h
      obtain ⟨bad, hbad, rfl⟩ := Rules.ofJson_eq_error_iff.1 hrules
      refine ⟨bad, .field before field later (fun m hm => ?_) hbad, rfl⟩
      exact Rules.exists_ofJson_iff.1 (hbefore m hm)
    | null | bool | number | string | array =>
      cases h
      exact ⟨_, .shape rfl, rfl⟩
  · rintro ⟨bad, hbad, rfl⟩
    cases hbad with
    | shape hmembers =>
      cases v with
      | object members => cases hmembers
      | null | bool | number | string | array => rfl
    | field before field later hbefore hbad =>
      exact ofJson_object_eq_error_iff.2 ⟨_, _, _, _, rfl,
        fun m hm => Rules.exists_ofJson_iff.2 (hbefore m hm),
        Rules.ofJson_eq_error_iff.2 ⟨bad, hbad, rfl⟩⟩

theorem keys_of_ofJson_object {m : RuleMap κ} (h : ofJson (.object members) = .ok m) :
    m.keys = (OrderedMap.ofList members).keys := by
  obtain ⟨entries, hentries, rfl⟩ := map_eq_ok_iff.1 h
  have hsame : Entries.keys entries = Entries.keys members := by
    have hpairs : List.Forall₂ (fun member entry => entry.1 = member.1) members entries := by
      refine (mapM_eq_ok_iff.1 hentries).imp fun member entry hentry => ?_
      obtain ⟨rules, -, rfl⟩ := map_eq_ok_iff.1 hentry
      rfl
    rw [Entries.keys, Entries.keys, ← List.forall₂_eq_eq_eq, List.forall₂_map_left_iff,
      List.forall₂_map_right_iff]
    exact hpairs.flip
  exact OrderedMap.keys_insertAll_congr rfl hsame

/-- **JSON is accepted by its shape.** As the rules of a field, just the texts and the arrays of
forms are accepted. As a rule map, just the objects are whose members are all accepted; the map has
their keys in their order. What is refused is refused for the value that is to blame, which the
error names and writes as compact JSON. -/
theorem accepted_by_shape (v : Json) :
    (((∃ rules : Rules κ, Rules.ofJson v = .ok rules) ↔ v.IsRules) ∧
      ∀ e, (Rules.ofJson v : Except Error (Rules κ)) = .error e ↔
        ∃ bad, v.Offender bad ∧ e = .nonConformingRule bad) ∧
    (((∃ m : RuleMap κ, ofJson v = .ok m) ↔
        ∃ members, v = .object members ∧ ∀ m ∈ members, m.2.IsRules) ∧
      (∀ members (m : RuleMap κ), v = .object members → ofJson v = .ok m →
        m.keys = (OrderedMap.ofList members).keys ∧
        ((Entries.keys members).Nodup → m.keys = Entries.keys members)) ∧
      ∀ e, (ofJson v : Except Error (RuleMap κ)) = .error e ↔
        ∃ bad, v.MapOffender bad ∧ e = .nonConformingRule bad) ∧
    ∀ bad, (Error.nonConformingRule bad).message = "non conforming rule: " ++ bad.compact := by
  refine ⟨⟨Rules.exists_ofJson_iff, fun e => Rules.ofJson_eq_error_iff⟩,
    ⟨⟨fun ⟨m, hm⟩ => ?_, ?_⟩, ?_, fun e => ofJson_eq_error_iff⟩, fun bad => rfl⟩
  · cases v with
    | object members => exact ⟨members, rfl, exists_ofJson_object_iff.1 ⟨m, hm⟩⟩
    | null | bool | number | string | array => cases hm
  · rintro ⟨members, rfl, hmembers⟩
    exact exists_ofJson_object_iff.2 hmembers
  · rintro members m rfl hm
    have hkeys := keys_of_ofJson_object hm
    refine ⟨hkeys, fun hnodup => ?_⟩
    rw [hkeys, OrderedMap.keys, OrderedMap.entries_ofList hnodup]

/-- A map whose keys are not in the order of texts, and one with a pair whose path is null, behind a
form and before other values that are wrong. -/
theorem accepted_by_shape_first_offender :
    let good := [("b", .string ""), ("a", .array [.array [.array [.null, .string "p"], .null]])]
    let bad : Json := .array [.array [.string "?", .null], .null]
    let wrong : Json := .object [("a", .array [.string "x", bad, .null]), ("b", .null)]
    (∃ m : RuleMap Builtin, ofJson (.object good) = .ok m ∧ m.keys = ["b", "a"]) ∧
    wrong.MapOffender bad ∧
    (ofJson wrong : Except Error (RuleMap Builtin)) = .error (.nonConformingRule bad) ∧
    (Error.nonConformingRule bad).message = "non conforming rule: [[\"?\",null],null]" := by
  intro good bad wrong
  have hgood : ∀ m ∈ good, m.2.IsRules := by
    refine List.forall_mem_cons.2 ⟨.text "", List.forall_mem_singleton.2 (.list ?_)⟩
    exact List.forall_mem_singleton.2 (.unflagged "p" [.null])
  have hbad : ¬ (Json.array [.array [.string "?", .null], .null]).IsForm := fun h => by cases h
  have hitems : (Json.array [.string "x", bad, .null]).Offender bad :=
    .item [.string "x"] [.null] (List.forall_mem_singleton.2 (.text "x")) hbad
  have hwrong : wrong.MapOffender bad :=
    .field [] "a" [("b", .null)] (List.forall_mem_nil _) hitems
  obtain ⟨-, ⟨hmaps, hkeys, -⟩, -⟩ := accepted_by_shape (κ := Builtin) (.object good)
  obtain ⟨-, ⟨-, -, herror⟩, hmessage⟩ := accepted_by_shape (κ := Builtin) wrong
  obtain ⟨m, hm⟩ := hmaps.2 ⟨good, rfl, hgood⟩
  have hnodup : (Entries.keys good).Nodup := by decide
  exact ⟨⟨m, hm, (hkeys good m rfl hm).2 hnodup⟩, hwrong, (herror _).2 ⟨bad, hwrong, rfl⟩,
    hmessage bad⟩

end RuleMap
end RuleFlow
