import Mathlib.Data.List.Pairwise
import RuleFlow.Proofs.ListingOrder
import RuleFlow.Registry.Resolve

/-!
# Registries with the same paths

What a registry lists, and what it offers for a path that it has not, depends on nothing but the
paths to its conformers (`Registry.paths_of_contains`). So it does not matter in which order changes
are made whose paths are not comparable: the registries have the same conformers at the same paths
(`Registry.get?_changeAll_of_perm`).
-/

namespace RuleFlow.Registry

universe u

variable {κ : Type u} {r s : Registry κ} {on : String → Prop} {c d : Change κ}
variable {changes changes' : List (Change κ)} {q : String}

/-! ## The paths decide -/

theorem Built.leaves_subset (hr : r.Built on) (hcontains : ∀ q, r.contains q = s.contains q) :
    r.root.leaves ⊆ s.root.leaves := by
  intro segments hmem
  have hr' : r.contains (".".intercalate segments) = true :=
    (hr.mem_places_iff _).1 (List.mem_map_of_mem hmem)
  rw [hcontains, contains, get?_eq, hr.segmentsOf_intercalate hmem] at hr'
  exact mem_leaves_iff.2 hr'

/-- Registries that have conformers at the same paths have the same leaves, in the one order that
leaves have. -/
theorem leaves_of_contains (hr : r.Built on) (hs : s.Built on)
    (hcontains : ∀ q, r.contains q = s.contains q) : r.root.leaves = s.root.leaves := by
  have hperm : r.root.leaves.Perm s.root.leaves :=
    (List.perm_ext_iff_of_nodup (Scope.nodup_leaves r.ordered) (Scope.nodup_leaves s.ordered)).2
      fun segments => ⟨fun h => hr.leaves_subset hcontains h,
        fun h => hs.leaves_subset (fun q => (hcontains q).symm) h⟩
  refine hperm.eq_of_pairwise ?_ (Scope.pairwise_leaves r.ordered) (Scope.pairwise_leaves s.ordered)
  exact fun _ _ _ _ h h' => absurd h' (List.lt_asymm h)

theorem paths_of_contains (hr : r.Built on) (hs : s.Built on)
    (hcontains : ∀ q, r.contains q = s.contains q) : r.paths = s.paths := by
  rw [paths, paths, Scope.paths_eq_map_leaves, Scope.paths_eq_map_leaves,
    leaves_of_contains hr hs hcontains]

theorem resolve_of_not_contains (h : r.contains q = false) :
    r.resolve q = .error (.unknownConformer q (suggestions q r.paths)) := by
  have hnone : r.get? q = none := by simpa [contains] using h
  rw [resolve, hnone]
  rfl

/-! ## Changes in any order -/

/-- Whether a change is made at a path of a certain kind, and with a registry that is built at such
paths. -/
def Change.Builds (on : String → Prop) : Change κ → Prop
  | .insert path _ => on path
  | .mount path other => on path ∧ other.Built on

theorem Built.change (hr : r.Built on) (hc : c.Builds on) : (r.change c).Built on := by
  cases c with
  | insert path value => exact .insert value hr hc
  | mount path other => exact .mount hr hc.2 hc.1

theorem Built.changeAll (hr : r.Built on) (h : ∀ c ∈ changes, c.Builds on) :
    (r.changeAll changes).Built on := by
  induction changes generalizing r with
  | nil => exact hr
  | cons c changes ih =>
    obtain ⟨hc, hchanges⟩ := List.forall_mem_cons.1 h
    exact ih (hr.change hc) hchanges

/-- A change leaves nothing at a path that is comparable with a path that its own is not comparable
with. -/
theorem Change.answer_eq_none (hcd : ¬ Path.Comparable c.path d.path)
    (hd : Path.Comparable d.path q) : c.answer q = none := by
  rw [Change.answer_eq, if_neg]
  intro hpre
  rcases hd with hd | hd
  · exact hcd (List.prefix_or_prefix_of_prefix hpre hd)
  · exact hcd (.inl (hpre.trans hd))

theorem get?_changeAll_eq_foldl (r : Registry κ) (changes : List (Change κ)) (q : String) :
    (r.changeAll changes).get? q = changes.foldl
      (fun found c => if Path.Comparable c.path q then c.answer q else found) (r.get? q) := by
  induction changes generalizing r with
  | nil => rfl
  | cons c changes ih => rw [List.foldl_cons, ← get?_change]; exact ih (r.change c)

/-- Changes whose paths are not comparable can be made in any order. -/
theorem get?_changeAll_of_perm (hperm : changes.Perm changes')
    (happart : changes.Pairwise fun c d => ¬ Path.Comparable c.path d.path) :
    (r.changeAll changes).get? q = (r.changeAll changes').get? q := by
  rw [get?_changeAll_eq_foldl, get?_changeAll_eq_foldl]
  have : Std.Symm fun c d : Change κ => ¬ Path.Comparable c.path d.path :=
    ⟨fun _ _ h h' => h h'.symm⟩
  refine hperm.foldl_eq' (fun c hc d hd found => ?_) _
  by_cases hcd : c = d
  · rw [hcd]
  have hnot : ¬ Path.Comparable c.path d.path := happart.forall hc hd hcd
  by_cases hcq : Path.Comparable c.path q <;> by_cases hdq : Path.Comparable d.path q
  · -- Both are changes behind `q`, and leave nothing there.
    rw [if_pos hcq, if_pos hdq, if_pos hcq, Change.answer_eq_none hnot hdq,
      Change.answer_eq_none (fun h => hnot h.symm) hcq]
  · simp only [hcq, hdq, if_true, if_false]
  · simp only [hcq, hdq, if_true, if_false]
  · simp only [hcq, hdq, if_false]

/-- **Listings and errors depend on what a registry has.** Two registries that have conformers at
the same paths have the same listing, and the same error, with the same paths offered in the same
order, for every path at which they have none. Changes at paths that are not comparable give, in any
order, a registry with the same conformers at the same paths, and so the same listing. -/
theorem same_listing (hr : r.Built on) :
    (∀ s : Registry κ, s.Built on → (∀ q, r.contains q = s.contains q) →
      r.paths = s.paths ∧
      ∀ q, r.contains q = false → ∃ near, r.resolve q = .error (.unknownConformer q near) ∧
        s.resolve q = .error (.unknownConformer q near)) ∧
    ∀ changes changes' : List (Change κ), (∀ c ∈ changes, c.Builds on) →
      changes.Pairwise (fun c d => ¬ Path.Comparable c.path d.path) → changes.Perm changes' →
      (r.changeAll changes).paths = (r.changeAll changes').paths ∧
      ∀ q, (r.changeAll changes).get? q = (r.changeAll changes').get? q := by
  refine ⟨fun s hs hcontains => ?_, fun changes changes' hbuilds happart hperm => ?_⟩
  · have hpaths := paths_of_contains hr hs hcontains
    refine ⟨hpaths, fun q hq => ⟨_, resolve_of_not_contains hq, ?_⟩⟩
    rw [hpaths]
    exact resolve_of_not_contains (hcontains q ▸ hq)
  · have hget q : (r.changeAll changes).get? q = (r.changeAll changes').get? q :=
      get?_changeAll_of_perm hperm happart
    have hbuilds' : ∀ c ∈ changes', c.Builds on := fun c hc => hbuilds c (hperm.mem_iff.2 hc)
    refine ⟨paths_of_contains (hr.changeAll hbuilds) (hr.changeAll hbuilds') fun q => ?_, hget⟩
    rw [contains, contains, hget]

/-- A registry beside one where a conformer has given way to a scope and a scope has lost what it
had, and three changes from the last one to the first. -/
theorem same_listing_replaced :
    let r : Registry Nat := empty.insert "a.b" 1
    let s : Registry Nat := (((empty.insert "a" 2).insert "a.b" 3).insert "c.d" 4).mount "c" empty
    let changes : List (Change Nat) := [.insert "a.c" 5, .mount ".e" r, .insert "c" 6]
    r.Built (fun _ => True) ∧ s.Built (fun _ => True) ∧ (∀ q, r.contains q = s.contains q) ∧
    r.paths = s.paths ∧
    (∃ near, r.resolve "a" = .error (.unknownConformer "a" near) ∧
      s.resolve "a" = .error (.unknownConformer "a" near)) ∧
    (changes.Pairwise fun c d => ¬ Path.Comparable c.path d.path) ∧
    (r.changeAll changes).paths = (r.changeAll changes.reverse).paths ∧
    ∀ q, (r.changeAll changes).get? q = (r.changeAll changes.reverse).get? q := by
  intro r s changes
  have hr : r.Built fun _ => True := .insert 1 .empty trivial
  have hs : s.Built fun _ => True :=
    .mount (.insert 4 (.insert 3 (.insert 2 .empty trivial) trivial) trivial) .empty trivial
  have hplaces : r.places = s.places := by decide
  have hcontains q : r.contains q = s.contains q := by
    rw [Bool.eq_iff_iff, ← hr.mem_places_iff, ← hs.mem_places_iff, hplaces]
  have hbuilds : ∀ c ∈ changes, c.Builds fun _ => True := by
    refine List.forall_mem_cons.2 ⟨trivial, List.forall_mem_cons.2 ⟨⟨trivial, hr⟩, ?_⟩⟩
    exact List.forall_mem_singleton.2 trivial
  have happart : changes.Pairwise fun c d => ¬ Path.Comparable c.path d.path := by decide
  obtain ⟨hpaths, herror⟩ := (same_listing hr).1 s hs hcontains
  obtain ⟨hpaths', hget⟩ := (same_listing hr).2 changes changes.reverse hbuilds happart
    changes.reverse_perm.symm
  exact ⟨hr, hs, hcontains, hpaths, herror "a" (by decide), happart, hpaths', hget⟩

end RuleFlow.Registry
