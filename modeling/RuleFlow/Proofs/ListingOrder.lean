import RuleFlow.Proofs.ByteOrder
import RuleFlow.Proofs.Listing

/-!
# The order of a listing

A registry lists its paths in the order of their segments (`Scope.pairwise_leaves`). That is the
order of texts with the dot before all other characters (`Path.segmentsOf_lt_iff`), so that it
differs from the order of the paths themselves only where one path goes on with a dot and the other
with a character that comes before the dot (`Path.Crosses`). A listing is in the order of bytes just
if there are no such two paths in it (`Registry.paths_ordered_iff`).
-/

namespace RuleFlow

universe u

variable {κ : Type u}

/-! ## Segments and texts -/

namespace Text

variable {cs ds : List Char}

/-- The order of characters with the dot in front. -/
def DotFirst (c d : Char) : Prop := d ≠ '.' ∧ (c = '.' ∨ c < d)

/-- The parts between dots are compared like the texts with the dot in front. -/
theorem splitOn_lt_iff : cs.splitOn '.' < ds.splitOn '.' ↔ List.Lex DotFirst cs ds := by
  induction cs generalizing ds with
  | nil =>
    cases ds with
    | nil => simp
    | cons d ds =>
      obtain ⟨first, rest, hcut⟩ := List.exists_cons_of_ne_nil (List.splitOn_ne_nil '.' ds)
      rw [List.splitOn_nil, List.splitOn_cons_eq_if_modifyHead, hcut]
      by_cases hd : d = '.' <;> simp [hd, List.cons_lt_cons_iff]
  | cons c cs ih =>
    obtain ⟨first, rest, hcut⟩ := List.exists_cons_of_ne_nil (List.splitOn_ne_nil '.' cs)
    cases ds with
    | nil =>
      rw [List.splitOn_nil, List.splitOn_cons_eq_if_modifyHead, hcut]
      by_cases hc : c = '.' <;> simp [hc, List.cons_lt_cons_iff]
    | cons d ds =>
      have hrest := @ih ds
      obtain ⟨first', rest', hcut'⟩ := List.exists_cons_of_ne_nil (List.splitOn_ne_nil '.' ds)
      rw [List.cons_lex_cons_iff, ← hrest, List.splitOn_cons_eq_if_modifyHead,
        List.splitOn_cons_eq_if_modifyHead, hcut, hcut']
      by_cases hc : c = '.'
      · by_cases hd : d = '.' <;> simp [hc, hd, List.cons_lt_cons_iff, DotFirst]
      by_cases hd : d = '.'
      · simp [hc, hd, List.cons_lt_cons_iff, DotFirst]
      · -- The first characters belong to the first parts, which are compared before the others.
        simp [hc, hd, List.cons_lt_cons_iff, DotFirst, or_assoc, and_assoc, and_or_left]

/-- From some place on, one text goes on with a dot and the other with a character that comes before
the dot. -/
def Crosses (cs ds : List Char) : Prop :=
  ∃ (stem : List Char) (c : Char) (cs' ds' : List Char),
    c < '.' ∧ cs = stem ++ '.' :: cs' ∧ ds = stem ++ c :: ds'

theorem Crosses.lt (h : Crosses cs ds) : ds < cs := by
  obtain ⟨stem, c, cs', ds', hc, rfl, rfl⟩ := h
  exact List.append_left_lt (.rel hc)

theorem Crosses.dotFirst (h : Crosses cs ds) : List.Lex DotFirst cs ds := by
  obtain ⟨stem, c, cs', ds', hc, rfl, rfl⟩ := h
  induction stem with
  | nil => exact .rel ⟨Char.ne_of_lt hc, .inl rfl⟩
  | cons b stem ih => exact .cons ih

theorem lt_or_crosses_of_dotFirst (h : List.Lex DotFirst cs ds) : cs < ds ∨ Crosses cs ds := by
  induction h with
  | nil => exact .inl .nil
  | @rel c cs d ds h =>
    obtain ⟨hd, rfl | hlt⟩ := h
    · by_cases hlt : d < '.'
      · exact .inr ⟨[], d, cs, ds, hlt, rfl, rfl⟩
      · exact .inl (.rel (Std.lt_of_le_of_ne (Char.not_lt.1 hlt) (Ne.symm hd)))
    · exact .inl (.rel hlt)
  | @cons b cs ds _ ih =>
    rcases ih with hlt | ⟨stem, c, cs', ds', hc, rfl, rfl⟩
    · exact .inl (.cons hlt)
    · exact .inr ⟨b :: stem, c, cs', ds', hc, rfl, rfl⟩

end Text

namespace Path

theorem map_toList_lt_iff {as bs : List String} :
    as.map String.toList < bs.map String.toList ↔ as < bs := by
  induction as generalizing bs with
  | nil => cases bs <;> simp
  | cons a as ih =>
    cases bs with
    | nil => simp
    | cons b bs =>
      have hlt : a.toList < b.toList ↔ a < b := .rfl
      simp only [List.map_cons, List.cons_lt_cons_iff, ih, hlt, String.toList_inj]

/-- Whether no segment of a path is empty. -/
def Filled (path : String) : Prop := ∀ segment ∈ segmentsOf path, segment ≠ ""

instance (path : String) : Decidable (Filled path) :=
  inferInstanceAs (Decidable (∀ _ ∈ _, _))

theorem segmentsOf_lt_iff {p q : String} :
    segmentsOf p < segmentsOf q ↔ List.Lex Text.DotFirst p.toList q.toList := by
  rw [← map_toList_lt_iff, map_toList_segmentsOf, map_toList_segmentsOf, Text.splitOn_lt_iff]

end Path

/-! ## Listings in order -/

/-- What relates each element of a list to all later ones relates any two that some order of the
list has in this order. -/
theorem rel_of_pairwise {α : Type u} {R S : α → α → Prop} {xs : List α} {x y : α}
    (hR : xs.Pairwise R) (hS : xs.Pairwise S) (asymm : ∀ x y, R x y → ¬ R y x) (hx : x ∈ xs)
    (hy : y ∈ xs) (h : R x y) : S x y := by
  refine List.Pairwise.forall_of_forall_of_flip (R := fun x y => R x y → S x y) ?_ ?_ ?_ hx hy h
  · exact fun x _ h => absurd h (asymm x x h)
  · exact hS.imp fun {x y} h => (fun _ => h : R x y → S x y)
  · exact hR.imp fun {y x} h h' => absurd h' (asymm y x h)

theorem Scope.pairwise_leaves {s : Scope κ} (hs : s.Ordered) : s.leaves.Pairwise (· < ·) := by
  induction s with
  | empty => exact .nil
  | conformer name value others ih =>
    obtain ⟨hnames, hothers⟩ := hs
    refine List.pairwise_cons.2 ⟨fun segments hmem => ?_, ih hothers⟩
    obtain ⟨first, rest, rfl, hfirst⟩ := exists_cons_of_mem_leaves hmem
    exact .rel (hnames first hfirst)
  | inner name members others ihm ih =>
    obtain ⟨hnames, hmembers, hothers⟩ := hs
    have hbelow : (members.leaves.map (name :: ·)).Pairwise (· < ·) :=
      List.pairwise_map.2 ((ihm hmembers).imp .cons)
    refine List.pairwise_append.2 ⟨hbelow, ih hothers, ?_⟩
    intro below hbelow segments hmem
    obtain ⟨rest, _, rfl⟩ := List.mem_map.1 hbelow
    obtain ⟨first, rest', rfl, hfirst⟩ := exists_cons_of_mem_leaves hmem
    exact .rel (hnames first hfirst)

namespace Registry

variable {r : Registry κ} {on : String → Prop}

/-- The paths to all conformers are in the order of their segments. -/
theorem Built.pairwise_places (h : r.Built on) :
    r.places.Pairwise fun p q => Path.segmentsOf p < Path.segmentsOf q := by
  refine List.pairwise_map.2 ((Scope.pairwise_leaves r.ordered).imp_of_mem ?_)
  intro as bs has hbs hlt
  rwa [h.segmentsOf_intercalate has, h.segmentsOf_intercalate hbs]

/-- Where no segment is empty, the listing has the paths as they are. -/
theorem Built.paths_eq_places (h : r.Built Path.Filled) : r.paths = r.places := by
  rw [h.paths_eq_map_places]
  refine (List.map_congr_left fun q hq => ?_).trans (List.map_id _)
  obtain ⟨segments, hmem, rfl⟩ := List.mem_map.1 hq
  have hsome := mem_leaves_iff.1 hmem
  have hfilled := h.forall_mem_segments (fun _ hpath => hpath) hsome
  have hdots := h.dot_notMem hsome
  obtain ⟨first, rest, rfl⟩ := List.exists_cons_of_ne_nil (ne_nil_of_mem_leaves hmem)
  exact Path.undotted_intercalate (hfilled first List.mem_cons_self)
    (hdots first List.mem_cons_self) rest

/-- **The order of a listing.** A registry that is built at paths without empty segments lists its
paths strictly in the order of their segments. This is the order of their bytes just if no path goes
on with a dot where another one goes on with a character that comes before the dot, as it is where
there are no such characters. -/
theorem paths_ordered_iff (h : r.Built Path.Filled) :
    r.paths.Pairwise (fun p q => Path.segmentsOf p < Path.segmentsOf q) ∧
    (r.paths.Pairwise (fun p q => Text.bytes p < Text.bytes q) ↔
      ∀ p ∈ r.paths, ∀ q ∈ r.paths, ¬ Text.Crosses p.toList q.toList) ∧
    ((∀ p ∈ r.paths, ∀ c ∈ p.toList, '.' ≤ c) →
      r.paths.Pairwise fun p q => Text.bytes p < Text.bytes q) := by
  have hsegments : r.paths.Pairwise fun p q => Path.segmentsOf p < Path.segmentsOf q :=
    h.paths_eq_places ▸ h.pairwise_places
  have hiff : r.paths.Pairwise (fun p q => Text.bytes p < Text.bytes q) ↔
      ∀ p ∈ r.paths, ∀ q ∈ r.paths, ¬ Text.Crosses p.toList q.toList := by
    constructor
    · -- Of two paths that cross, the one with the dot is listed first and has the greater bytes.
      intro hbytes p hp q hq hcross
      have hlt : Path.segmentsOf p < Path.segmentsOf q := Path.segmentsOf_lt_iff.2 hcross.dotFirst
      have hless := rel_of_pairwise hsegments hbytes (fun _ _ => List.lt_asymm) hp hq hlt
      exact List.lt_asymm hless (Text.bytes_lt_of_lt hcross.lt)
    · intro hcross
      refine hsegments.imp_of_mem fun {p q} hp hq hlt => ?_
      have hcases := Text.lt_or_crosses_of_dotFirst (Path.segmentsOf_lt_iff.1 hlt)
      exact Text.bytes_lt_of_lt (hcases.resolve_right (hcross p hp q hq))
  refine ⟨hsegments, hiff, fun hchars => hiff.2 fun p _ q hq hcross => ?_⟩
  obtain ⟨stem, c, _, _, hc, -, hmem⟩ := hcross
  have hle : '.' ≤ c := hchars q hq c (hmem ▸ List.mem_append_right stem List.mem_cons_self)
  exact Char.not_lt.2 hle hc

/-- A namespace beside names that go on with a letter and a digit. -/
theorem paths_ordered_mount :
    let inner : Registry Nat := empty.insert "x.y" 2
    let r : Registry Nat := ((empty.insert "a_b" 1).insert "a0" 3).mount "a" inner
    r.Built Path.Filled ∧ r.paths = ["a.x.y", "a0", "a_b"] ∧
      r.paths.Pairwise fun p q => Text.bytes p < Text.bytes q := by
  intro inner r
  have hinner : inner.Built Path.Filled := .insert 2 .empty (by decide)
  have hr : r.Built Path.Filled :=
    .mount (.insert 3 (.insert 1 .empty (by decide)) (by decide)) hinner (by decide)
  have hpaths : r.paths = ["a.x.y", "a0", "a_b"] := by decide
  refine ⟨hr, hpaths, (paths_ordered_iff hr).2.2 ?_⟩
  simp [hpaths]

/-- A path with a dot is listed before one that has a hyphen in the same place, whose bytes come
first. -/
theorem paths_not_ordered :
    let r : Registry Nat := (empty.insert "a.b" 1).insert "a-b" 2
    r.Built Path.Filled ∧ r.paths = ["a.b", "a-b"] ∧
      ¬ r.paths.Pairwise fun p q => Text.bytes p < Text.bytes q := by
  intro r
  have hr : r.Built Path.Filled := .insert 2 (.insert 1 .empty (by decide)) (by decide)
  have hpaths : r.paths = ["a.b", "a-b"] := by decide
  refine ⟨hr, hpaths, ?_⟩
  rw [hpaths, List.pairwise_pair, Text.bytes_lt_iff]
  decide

end Registry
end RuleFlow
