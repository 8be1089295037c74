import RuleFlow.Json.Lookup
import RuleFlow.Proofs.Segments

/-!
# Fields by dotted path

Where no key has a dot (`Json.Undotted`), a member of the record under the whole path is also what
the walk from segment to segment finds, so that each field is found by walking
(`Undotted.lookup?_eq_walk?`), and a path can be followed to its end in two parts
(`Undotted.lookup?_append_dot`). A key with a dot is met by no walk. It counts at the path that is
the same text, and nowhere else (`lookup?_insert`).
-/

namespace RuleFlow

theorem Path.segmentsOf_of_undotted {text : String} (h : '.' ∉ text.toList) :
    segmentsOf text = [text] := by
  have hdots : ∀ segment ∈ [text], '.' ∉ segment.toList := List.forall_mem_singleton.2 h
  have hcut := segmentsOf_intercalate (List.cons_ne_nil text []) hdots
  rwa [String.intercalate_singleton] at hcut

namespace Json

/-- No key of an object in the value has a dot, at any depth. -/
inductive Undotted : Json → Prop where
  | null : Undotted .null
  | bool (b : Bool) : Undotted (.bool b)
  | number (n : Number) : Undotted (.number n)
  | string (s : String) : Undotted (.string s)
  | array {items : List Json} : (∀ item ∈ items, Undotted item) → Undotted (.array items)
  | object {members : List (String × Json)} : (∀ key ∈ Entries.keys members, '.' ∉ key.toList) →
    (∀ m ∈ members, Undotted m.2) → Undotted (.object members)

variable {r v : Json} {members : List (String × Json)} {key : String}

/-! ## Walks where no key has a dot -/

theorem walk?_singleton (r : Json) (segment : String) : r.walk? [segment] = r.step? segment :=
  Option.bind_fun_some _

namespace Undotted

theorem of_step? {segment : String} (h : r.Undotted) (hstep : r.step? segment = some v) :
    v.Undotted := by
  cases h with
  | null | bool | number | string => cases hstep
  | array hitems =>
    obtain ⟨i, -, hi⟩ := Option.bind_eq_some_iff.1 hstep
    exact hitems v (List.mem_of_getElem? hi)
  | object _ hmembers => exact hmembers (segment, v) (Entries.mem_of_get? hstep)

theorem of_walk? {segments : List String} (h : r.Undotted) (hwalk : r.walk? segments = some v) :
    v.Undotted := by
  induction segments generalizing r with
  | nil =>
    cases hwalk
    exact h
  | cons segment segments ih =>
    obtain ⟨next, hstep, hnext⟩ := Option.bind_eq_some_iff.1 hwalk
    exact ih (h.of_step? hstep) hnext

/-- Each field is found by walking. -/
theorem lookup?_eq_walk? (h : r.Undotted) (path : String) :
    r.lookup? path = r.walk? (Path.segmentsOf path) := by
  cases hmember : r.member? path with
  | none => rw [lookup?, hmember, Option.none_or, Path.segmentsOf]
  | some v =>
    cases h with
    | null | bool | number | string | array => cases hmember
    | @object members hkeys _ =>
      have hget : Entries.get? members path = some v := hmember
      have hpath : path ∈ Entries.keys members := List.mem_map_of_mem (Entries.mem_of_get? hget)
      -- The key has no dot, so that the path is one segment.
      rw [lookup?, hmember, Option.some_or, Path.segmentsOf_of_undotted (hkeys path hpath),
        walk?_singleton]
      exact hget.symm

/-- A path is followed to its end in two parts. -/
theorem lookup?_append_dot (h : r.Undotted) (p q : String) :
    r.lookup? (p ++ "." ++ q) = (r.lookup? p).bind fun v => v.lookup? q := by
  rw [h.lookup?_eq_walk?, h.lookup?_eq_walk?, Path.segmentsOf_append_dot, walk?_append]
  refine Option.bind_congr fun v hwalk => ?_
  rw [(h.of_walk? hwalk).lookup?_eq_walk?, Path.segmentsOf]

end Undotted

/-! ## Keys of the record -/

theorem lookup?_of_get? (h : Entries.get? members key = some v) :
    (object members).lookup? key = some v := by
  have hmember : (object members).member? key = some v := h
  rw [lookup?, hmember, Option.some_or]

/-- A walk never comes to a member whose key has a dot. -/
theorem walk?_insert (hdot : '.' ∈ key.toList) (v : Json) (path : String) :
    (object (Entries.insert members key v)).walk? (Path.segmentsOf path) =
      (object members).walk? (Path.segmentsOf path) := by
  have hcons : Path.segmentsOf path = (Path.ofText path).first :: (Path.ofText path).rest := rfl
  have hfirst : key ≠ (Path.ofText path).first := by
    rintro rfl
    exact Path.dot_notMem_of_mem_segmentsOf (hcons ▸ List.mem_cons_self) hdot
  have hstep : (object (Entries.insert members key v)).step? (Path.ofText path).first =
      (object members).step? (Path.ofText path).first := by
    rw [step?, step?, Entries.get?_insert, if_neg hfirst]
  rw [hcons, walk?, walk?, hstep]

theorem lookup?_insert (hdot : '.' ∈ key.toList) (v : Json) (path : String) :
    (object (Entries.insert members key v)).lookup? path =
      if path = key then some v else (object members).lookup? path := by
  split
  · next h =>
    refine lookup?_of_get? ?_
    rw [Entries.get?_insert, if_pos h.symm]
  · next h =>
    have hmember : (object (Entries.insert members key v)).member? path =
        (object members).member? path := by
      have hget := Entries.get?_insert members key v path
      rwa [if_neg (Ne.symm h)] at hget
    rw [lookup?, lookup?, hmember]
    exact congrArg _ (walk?_insert hdot v path)

/-- **Lookup composes, and a key with a dot is only itself.** In a value where no key has a dot, a
path that goes on behind a dot leads to where its second part leads in what its first part finds.
Each key of a record is found as it is, with any dots. Setting a member whose key has a dot changes
what is found at this key, which is then the new value, and at no other path. -/
theorem lookup?_composes :
    (∀ r : Json, r.Undotted → ∀ p q,
      r.lookup? (p ++ "." ++ q) = (r.lookup? p).bind fun v => v.lookup? q) ∧
    (∀ members, ∀ key ∈ Entries.keys members, ∃ v, Entries.get? members key = some v ∧
      (object members).lookup? key = some v) ∧
    ∀ members key v, '.' ∈ key.toList → ∀ path,
      (object (Entries.insert members key v)).lookup? path =
        if path = key then some v else (object members).lookup? path := by
  refine ⟨fun r h => h.lookup?_append_dot, fun members key hkey => ?_,
    fun members key v hdot => lookup?_insert hdot v⟩
  cases hget : Entries.get? members key with
  | none => exact absurd hkey (Entries.get?_eq_none_iff.1 hget)
  | some v => exact ⟨v, rfl, lookup?_of_get? hget⟩

/-- A path through an object, an array and an empty key, and the same path as a key beside it. -/
theorem lookup?_composes_through_array :
    let inner : Json := .object [("", .string "x"), ("b", .null)]
    let members := [("a", .array [.bool true, inner])]
    (object members).Undotted ∧
    (object members).lookup? "a.+01." = inner.lookup? "" ∧ inner.lookup? "" = some (.string "x") ∧
    (object (Entries.insert members "a.1" .null)).lookup? "a.1" = some .null ∧
    (object (Entries.insert members "a.1" .null)).lookup? "a.1.b" =
      (object members).lookup? "a.1.b" := by
  intro inner members
  have hinner : inner.Undotted := by
    refine .object (by decide) (List.forall_mem_cons.2 ⟨.string "x", ?_⟩)
    exact List.forall_mem_singleton.2 .null
  have hundotted : (object members).Undotted := by
    refine .object (by decide) (List.forall_mem_singleton.2 (.array ?_))
    exact List.forall_mem_cons.2 ⟨.bool true, List.forall_mem_singleton.2 hinner⟩
  obtain ⟨hparts, -, hset⟩ := lookup?_composes
  have hpath := hparts (object members) hundotted "a.+01" ""
  have hnew := hset members "a.1" .null (by decide)
  exact ⟨hundotted, hpath, rfl, hnew "a.1", hnew "a.1.b"⟩

end Json
end RuleFlow
