import Mathlib.Data.List.Forall2
import RuleFlow.Rule.Compile

/-!
# Reading the rules of a field

The rules of a field are read one after the other, in whichever shape they are written
(`Rules.compile_eq_mapM`). All of them can be read just if each can (`mapM_eq_ok_iff`), and else the
mistake is that of the first rule that cannot be read (`mapM_eq_error_iff`): its text is malformed
(`Rules.malformed_of_compile_eq_error`). Any rules can be written so that they are read as they are
(`Rules.compile_ofRules`).
-/

namespace RuleFlow

universe u

variable {κ : Type u}

/-! ## Traversals that can fail -/

section
variable {α β ε : Type*} {f : α → Except ε β} {xs : List α}

theorem mapM_cons_eq_ok_iff {x : α} {ys : List β} : (x :: xs).mapM f = .ok ys ↔
    ∃ y rest, f x = .ok y ∧ xs.mapM f = .ok rest ∧ ys = y :: rest := by
  rw [List.mapM_cons]
  cases f x with
  | error e => simp [bind, Except.bind]
  | ok y => cases xs.mapM f <;> simp [bind, Except.bind, pure, Except.pure, eq_comm]

theorem mapM_cons_eq_error_iff {x : α} {e : ε} : (x :: xs).mapM f = .error e ↔
    f x = .error e ∨ (∃ y, f x = .ok y) ∧ xs.mapM f = .error e := by
  rw [List.mapM_cons]
  cases f x with
  | error e' => simp [bind, Except.bind]
  | ok y => cases xs.mapM f <;> simp [bind, Except.bind, pure, Except.pure]

theorem mapM_eq_ok_iff {ys : List β} :
    xs.mapM f = .ok ys ↔ List.Forall₂ (fun x y => f x = .ok y) xs ys := by
  induction xs generalizing ys with
  | nil =>
    rw [List.forall₂_nil_left_iff, List.mapM_nil]
    exact ⟨fun h => by cases h; rfl, fun h => h ▸ rfl⟩
  | cons x xs ih => simp only [mapM_cons_eq_ok_iff, List.forall₂_cons_left_iff, ih]

/-- What a traversal gives, it gives for one of its elements. -/
theorem exists_of_mem_mapM {ys : List β} (h : xs.mapM f = .ok ys) {y : β} (hy : y ∈ ys) :
    ∃ x ∈ xs, f x = .ok y := by
  induction xs generalizing ys with
  | nil =>
    cases h
    cases hy
  | cons x xs ih =>
    obtain ⟨first, rest, hfirst, hrest, rfl⟩ := mapM_cons_eq_ok_iff.1 h
    rcases List.mem_cons.1 hy with rfl | hy
    · exact ⟨x, List.mem_cons_self, hfirst⟩
    · obtain ⟨x', hx', hread⟩ := ih hrest hy
      exact ⟨x', List.mem_cons_of_mem _ hx', hread⟩

theorem exists_mapM_eq_ok_iff : (∃ ys, xs.mapM f = .ok ys) ↔ ∀ x ∈ xs, ∃ y, f x = .ok y := by
  induction xs with
  | nil => exact ⟨fun _ => List.forall_mem_nil _, fun _ => ⟨[], rfl⟩⟩
  | cons x xs ih =>
    rw [List.forall_mem_cons, ← ih]
    constructor
    · rintro ⟨_, h⟩
      obtain ⟨y, rest, hy, hrest, -⟩ := mapM_cons_eq_ok_iff.1 h
      exact ⟨⟨y, hy⟩, rest, hrest⟩
    · rintro ⟨⟨y, hy⟩, rest, hrest⟩
      exact ⟨y :: rest, mapM_cons_eq_ok_iff.2 ⟨y, rest, hy, hrest, rfl⟩⟩

/-- What ends a traversal is the mistake of the first element that makes one. -/
theorem mapM_eq_error_iff {e : ε} : xs.mapM f = .error e ↔
    ∃ before x later, xs = before ++ x :: later ∧ (∀ b ∈ before, ∃ y, f b = .ok y) ∧
      f x = .error e := by
  induction xs with
  | nil => simp [pure, Except.pure]
  | cons x xs ih =>
    rw [mapM_cons_eq_error_iff, ih]
    constructor
    · rintro (hx | ⟨hok, before, x', later, rfl, hbefore, hx'⟩)
      · exact ⟨[], x, xs, rfl, List.forall_mem_nil _, hx⟩
      · exact ⟨x :: before, x', later, rfl, List.forall_mem_cons.2 ⟨hok, hbefore⟩, hx'⟩
    · rintro ⟨before, x', later, hcut, hbefore, hx'⟩
      cases before with
      | nil =>
        cases hcut
        exact .inl hx'
      | cons b before =>
        cases hcut
        obtain ⟨hok, hrest⟩ := List.forall_mem_cons.1 hbefore
        exact .inr ⟨hok, before, x', later, rfl, hrest, hx'⟩

theorem map_eq_error_iff {x : Except ε α} {g : α → β} {e : ε} :
    x.map g = .error e ↔ x = .error e := by
  cases x with
  | error e' => exact ⟨fun h => by cases h; rfl, fun h => by cases h; rfl⟩
  | ok y => exact ⟨fun h => (by cases h), fun h => (by cases h)⟩

theorem map_eq_ok_iff {x : Except ε α} {g : α → β} {y : β} :
    x.map g = .ok y ↔ ∃ z, x = .ok z ∧ g z = y := by
  cases x with
  | error e => exact ⟨fun h => (by cases h), fun ⟨_, h, _⟩ => (by cases h)⟩
  | ok z => exact ⟨fun h => ⟨z, rfl, by cases h; rfl⟩, fun ⟨_, h, hy⟩ => by cases h; rw [← hy]; rfl⟩

theorem exists_map_eq_ok_iff {x : Except ε α} {g : α → β} :
    (∃ y, x.map g = .ok y) ↔ ∃ z, x = .ok z := by
  simp [map_eq_ok_iff]

end

/-! ## Mistakes -/

/-- A mistake about the text of a rule. -/
def Error.IsMalformed (e : Error) : Prop := ∃ text cause, e = .malformedRule text cause

theorem RuleText.read_eq_ok_iff {text : String} {t : RuleText} :
    read text = .ok t ↔ ofText text = .ok t := by
  unfold read
  cases ofText text <;> simp

theorem RuleText.read_eq_error_iff {text : String} {e : Error} : read text = .error e ↔
    ∃ cause, ofText text = .error cause ∧ e = .malformedRule text cause := by
  unfold read
  cases ofText text with
  | ok parts => simp
  | error cause => simp [eq_comm]

theorem RuleText.malformed_of_read_eq_error {text : String} {e : Error}
    (h : read text = .error e) : e.IsMalformed := by
  obtain ⟨cause, _, rfl⟩ := read_eq_error_iff.1 h
  exact ⟨text, cause, rfl⟩

theorem Source.malformed_of_compile_eq_error {source : Source κ} {e : Error}
    (h : source.compile = .error e) : e.IsMalformed := by
  cases source with
  | text t => exact RuleText.malformed_of_read_eq_error (map_eq_error_iff.1 h)
  | positional head params => exact RuleText.malformed_of_read_eq_error (map_eq_error_iff.1 h)
  | inline flags target params => cases h

/-! ## One rule after the other -/

/-- The rules of a field, each written by itself. -/
def Rules.sources : Rules κ → List (Source κ)
  | .text t => (splitPipes t.toList).map fun cs => .text (String.ofList cs)
  | .list sources => sources

theorem Rules.compile_eq_mapM (rules : Rules κ) :
    rules.compile = rules.sources.mapM Source.compile := by
  cases rules with
  | text t =>
    rw [sources, List.mapM_map]
    rfl
  | list sources => rfl

/-- The mistake of a field is that of its first rule that cannot be read. -/
theorem Rules.compile_eq_error_iff {rules : Rules κ} {e : Error} : rules.compile = .error e ↔
    ∃ before bad later, rules.sources = before ++ bad :: later ∧
      (∀ source ∈ before, ∃ rule, source.compile = .ok rule) ∧ bad.compile = .error e := by
  rw [compile_eq_mapM, mapM_eq_error_iff]

/-- Rules that cannot be read have a malformed text. -/
theorem Rules.malformed_of_compile_eq_error {rules : Rules κ} {e : Error}
    (h : rules.compile = .error e) : e.IsMalformed := by
  obtain ⟨_, bad, _, _, _, hbad⟩ := compile_eq_error_iff.1 h
  exact Source.malformed_of_compile_eq_error hbad

/-! ## Writing rules -/

/-- Rules as they can be written: the flags as text, the targets as they are. -/
def Rules.ofRules (rules : List (Rule κ)) : Rules κ :=
  .list (rules.map fun rule => .inline rule.flags.text rule.target rule.params)

theorem Rules.compile_ofRules (rules : List (Rule κ)) : (ofRules rules).compile = .ok rules := by
  apply mapM_eq_ok_iff.2
  rw [List.forall₂_map_left_iff]
  refine List.forall₂_same.2 fun rule _ => ?_
  have hflags : Flags.ofText rule.flags.text = rule.flags := by
    rw [Flags.ofText, Flags.text, String.toList_ofList, Flags.ofChars_toChars]
  rw [Source.compile, hflags]

end RuleFlow
