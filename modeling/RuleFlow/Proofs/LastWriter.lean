import RuleFlow.Proofs.Segments
import RuleFlow.Registry.Basic

/-!
# The last writer decides

What a registry has at a path is decided by one change alone: the last one at a path that is
`Comparable`, which is the same path, one on the way to it or one that it is on the way to.
`Scope.conformer?_set` says what one change does, all paths considered, and `get?_changeAll` what
comes of a series of changes.
-/

namespace RuleFlow

universe u

variable {κ : Type u}

/-! ## Conformers by segments -/

namespace Scope

/-- The conformer at the end of a list of segments. -/
def conformer? (s : Scope κ) : List String → Option κ
  | [] => none
  | first :: rest =>
    match s.find? first rest with
    | some (.conformer value) => some value
    | _ => none

end Scope

/-- The conformer that an entry has at the end of a list of segments: itself, if there are none, or
one of its scope. -/
def Entry.conformer? : Entry κ → List String → Option κ
  | .conformer value, [] => some value
  | .conformer _, _ :: _ => none
  | .scope members, segments => members.conformer? segments

namespace Scope

theorem conformer?_cons (s : Scope κ) (first : String) (rest : List String) :
    s.conformer? (first :: rest) = (s.get? first).bind (·.conformer? rest) := by
  cases rest with
  | nil =>
    rw [conformer?, find?]
    rcases s.get? first with _ | _ | _ <;> rfl
  | cons next rest =>
    rw [conformer?, find?]
    rcases s.get? first with _ | _ | members <;> rfl

@[simp] theorem conformer?_empty (segments : List String) :
    (empty : Scope κ).conformer? segments = none := by
  cases segments with
  | nil => rfl
  | cons first rest => rw [conformer?_cons]; rfl

theorem conformer?_membersAt (s : Scope κ) (first : String) {rest : List String} (h : rest ≠ []) :
    (s.membersAt first).conformer? rest = s.conformer? (first :: rest) := by
  obtain ⟨next, rest, rfl⟩ := List.exists_cons_of_ne_nil h
  rw [conformer?_cons s, membersAt]
  rcases s.get? first with _ | _ | members
  · exact conformer?_empty _
  · exact conformer?_empty _
  · rfl

/-- What stands at a path decides over all that the path leads to and clears the way to it; nothing
else changes. -/
theorem conformer?_set (s : Scope κ) (first : String) (rest : List String) (e : Entry κ)
    (segments : List String) :
    (s.set first rest e).conformer? segments =
      if first :: rest <+: segments then e.conformer? (segments.drop (rest.length + 1))
      else if segments <+: first :: rest then none
      else s.conformer? segments := by
  induction rest generalizing s first segments with
  | nil =>
    cases segments with
    | nil => simp [conformer?]
    | cons key tail =>
      rw [set, conformer?_cons, get?_put, conformer?_cons]
      by_cases hkey : first = key
      · subst hkey; simp
      · simp [List.cons_prefix_cons, hkey, Ne.symm hkey]
  | cons next rest ih =>
    cases segments with
    | nil => simp [conformer?]
    | cons key tail =>
      rw [set, conformer?_cons, get?_put]
      by_cases hkey : first = key
      · -- The change goes on inside the scope at `first`, and so does the path.
        subst hkey
        have hstep := ih (s.membersAt first) next tail
        rw [if_pos rfl, Option.bind_some, Entry.conformer?, hstep]
        simp only [List.cons_prefix_cons, true_and, List.length_cons, List.drop_succ_cons]
        split
        · rfl
        split
        · rfl
        next hnot =>
          have hne : tail ≠ [] := fun h => hnot (h ▸ List.nil_prefix)
          exact s.conformer?_membersAt first hne
      · rw [if_neg hkey, ← conformer?_cons]
        simp [List.cons_prefix_cons, hkey, Ne.symm hkey]

end Scope

/-! ## Paths on one line -/

namespace Path

/-- Whether two paths lie on one line: one is the other, or is on the way to it. -/
def Comparable (p q : String) : Prop :=
  segmentsOf p <+: segmentsOf q ∨ segmentsOf q <+: segmentsOf p

instance (p q : String) : Decidable (Comparable p q) := inferInstanceAs (Decidable (_ ∨ _))

/-- What follows a path and a dot. -/
def behind? (p q : String) : Option String :=
  if p.toList ++ ['.'] <+: q.toList then some (String.ofList (q.toList.drop (p.toList.length + 1)))
  else none

theorem behind?_eq_some_iff {p q rest : String} :
    behind? p q = some rest ↔ q = p ++ "." ++ rest := by
  have hlist : q = p ++ "." ++ rest ↔ q.toList = p.toList ++ ['.'] ++ rest.toList := by
    rw [← String.toList_inj]
    simp
  rw [behind?, hlist]
  constructor
  · intro h
    split at h
    · next hpre =>
      cases h
      rw [String.toList_ofList]
      simpa using (List.prefix_iff_eq_append.1 hpre).symm
    · cases h
  · intro h
    rw [h, if_pos (List.prefix_append _ _)]
    simp

end Path

/-! ## Changes of a registry -/

namespace Registry

/-- A change of a registry. -/
inductive Change (κ : Type u) where
  | insert (path : String) (value : κ)
  | mount (path : String) (other : Registry κ)

namespace Change

def path : Change κ → String
  | insert path _ => path
  | mount path _ => path

def entry : Change κ → Entry κ
  | insert _ value => .conformer value
  | mount _ other => .scope other.root

/-- What is at a path when this change alone decides: the conformer that was inserted at this very
path, or what the mounted registry has behind the path of the change. -/
def answer : Change κ → String → Option κ
  | insert path value, q => if q = path then some value else none
  | mount path other, q => (Path.behind? path q).bind other.get?

end Change

def change (r : Registry κ) : Change κ → Registry κ
  | .insert path value => r.insert path value
  | .mount path other => r.mount path other

/-- The registry after a series of changes. -/
def changeAll (r : Registry κ) (changes : List (Change κ)) : Registry κ := changes.foldl change r

theorem get?_eq (r : Registry κ) (q : String) : r.get? q = r.root.conformer? (Path.segmentsOf q) :=
  rfl

theorem root_change (r : Registry κ) (c : Change κ) : (r.change c).root =
    r.root.set (Path.ofText c.path).first (Path.ofText c.path).rest c.entry := by
  cases c <;> rfl

theorem conformer?_change (r : Registry κ) (c : Change κ) (segments : List String) :
    (r.change c).root.conformer? segments =
      if Path.segmentsOf c.path <+: segments then
        c.entry.conformer? (segments.drop (Path.segmentsOf c.path).length)
      else if segments <+: Path.segmentsOf c.path then none
      else r.root.conformer? segments := by
  rw [root_change, Scope.conformer?_set]
  rfl

theorem Change.answer_eq (c : Change κ) (q : String) : c.answer q =
    if Path.segmentsOf c.path <+: Path.segmentsOf q then
      c.entry.conformer? ((Path.segmentsOf q).drop (Path.segmentsOf c.path).length)
    else none := by
  split
  · next hpre =>
    obtain ⟨rest, hrest⟩ := hpre
    rw [← hrest, List.drop_left]
    cases rest with
    | nil =>
      -- The path of the change itself.
      obtain rfl : c.path = q := Path.segmentsOf_inj.1 (by simpa using hrest)
      cases c with
      | insert p value => exact if_pos rfl
      | mount p other =>
        have hnone : Path.behind? p p = none := by
          refine Option.eq_none_iff_forall_ne_some.2 fun rest h => ?_
          have hlength := congrArg String.length (Path.behind?_eq_some_iff.1 h)
          have hdot : ".".length = 1 := rfl
          rw [String.length_append, String.length_append] at hlength
          omega
        rw [answer, path, hnone]
        rfl
    | cons next rest =>
      obtain ⟨hq, hsegments⟩ := Path.eq_append_dot_of_segmentsOf_eq (List.cons_ne_nil next rest)
        hrest.symm
      cases c with
      | insert p value =>
        have hne : q ≠ p := fun h => by
          rw [h] at hrest
          exact List.cons_ne_nil next rest (List.append_right_eq_self.1 hrest)
        exact if_neg hne
      | mount p other =>
        have hbehind : Path.behind? p q = some _ := Path.behind?_eq_some_iff.2 hq
        rw [answer, hbehind, Option.bind_some, get?_eq, hsegments]
        rfl
  · next hpre =>
    cases c with
    | insert p value => exact if_neg fun h : q = p => hpre (h ▸ List.prefix_rfl)
    | mount p other =>
      have hnone : Path.behind? p q = none := by
        refine Option.eq_none_iff_forall_ne_some.2 fun rest h => hpre ?_
        rw [Path.behind?_eq_some_iff.1 h, Path.segmentsOf_append_dot]
        exact List.prefix_append _ _
      rw [answer, hnone]
      rfl

/-- One change decides at the paths that are comparable with its own, and changes nothing at any
other. -/
theorem get?_change (r : Registry κ) (c : Change κ) (q : String) :
    (r.change c).get? q = if Path.Comparable c.path q then c.answer q else r.get? q := by
  rw [get?_eq, conformer?_change, c.answer_eq, get?_eq]
  by_cases hdown : Path.segmentsOf c.path <+: Path.segmentsOf q <;>
    by_cases hup : Path.segmentsOf q <+: Path.segmentsOf c.path <;>
      simp [Path.Comparable, hdown, hup]

/-- A series of changes leaves at a path what the last change that is comparable with it says, or
what was there if there is none. -/
theorem get?_changeAll (r : Registry κ) (changes : List (Change κ)) (q : String) :
    (r.changeAll changes).get? q =
      ((changes.filter (Path.Comparable ·.path q)).getLast?).elim (r.get? q) (·.answer q) := by
  induction changes generalizing r with
  | nil => rfl
  | cons c changes ih =>
    have hstep : (r.changeAll (c :: changes)).get? q = ((r.change c).changeAll changes).get? q := rfl
    rw [hstep, ih, get?_change, List.filter_cons]
    by_cases hc : Path.Comparable c.path q
    · simp only [hc, decide_true, if_true, List.getLast?_cons]
      cases (changes.filter (Path.Comparable ·.path q)).getLast? <;> rfl
    · simp only [hc, decide_false, if_false, Bool.false_eq_true]

/-- **The last writer decides.** What a series of changes leaves at a path in a registry that was
empty is said by the last change whose path is the path itself, is on the way to it or has it on the
way, and nothing is there if there is no such change. No change has any effect at a path that is not
comparable with its own. -/
theorem get?_last_writer :
    (∀ (changes : List (Change κ)) (q : String), (empty.changeAll changes).get? q =
      ((changes.filter (Path.Comparable ·.path q)).getLast?).bind (·.answer q)) ∧
    ∀ (r : Registry κ) (c : Change κ) (q : String), ¬ Path.Comparable c.path q →
      (r.change c).get? q = r.get? q := by
  refine ⟨fun changes q => ?_, fun r c q h => ?_⟩
  · have hempty : (empty : Registry κ).get? q = none :=
      Scope.conformer?_empty (Path.segmentsOf q)
    rw [get?_changeAll, hempty]
    cases (changes.filter (Path.Comparable ·.path q)).getLast? <;> rfl
  · rw [get?_change, if_neg h]

/-- A mounted registry takes the place of what was there, and a conformer beside it changes
nothing. -/
theorem get?_last_writer_mount :
    let inner : Registry Nat := empty.insert "c.d" 2
    let changes : List (Change Nat) := [.insert "a.b" 1, .mount "a" inner]
    let beside : Change Nat := .insert "a.c.e" 3
    (empty.changeAll changes).get? "a.b" = none ∧
    (empty.changeAll changes).get? "a.c.d" = some 2 ∧
    ¬ Path.Comparable beside.path "a.c.d" ∧
    ((empty.changeAll changes).change beside).get? "a.c.d" = some 2 := by
  intro inner changes beside
  have hlastb : (changes.filter (Path.Comparable ·.path "a.b")).getLast? =
      some (.mount "a" inner) := by
    have hmount : Path.Comparable "a" "a.b" := by decide
    have hinsert : Path.Comparable "a.b" "a.b" := by decide
    simp [changes, Change.path, hmount, hinsert]
  have hlastd : (changes.filter (Path.Comparable ·.path "a.c.d")).getLast? =
      some (.mount "a" inner) := by
    have hmount : Path.Comparable "a" "a.c.d" := by decide
    have hinsert : ¬ Path.Comparable "a.b" "a.c.d" := by decide
    simp [changes, Change.path, hmount, hinsert]
  have hb : (empty.changeAll changes).get? "a.b" = none := by
    have hbehind : Path.behind? "a" "a.b" = some "b" := Path.behind?_eq_some_iff.2 rfl
    rw [get?_last_writer.1 changes, hlastb, Option.bind_some, Change.answer, hbehind]
    rfl
  have hd : (empty.changeAll changes).get? "a.c.d" = some 2 := by
    have hbehind : Path.behind? "a" "a.c.d" = some "c.d" := Path.behind?_eq_some_iff.2 rfl
    rw [get?_last_writer.1 changes, hlastd, Option.bind_some, Change.answer, hbehind]
    rfl
  have hbeside : ¬ Path.Comparable beside.path "a.c.d" := by decide
  exact ⟨hb, hd, hbeside, (get?_last_writer.2 _ beside _ hbeside).trans hd⟩

end Registry
end RuleFlow
