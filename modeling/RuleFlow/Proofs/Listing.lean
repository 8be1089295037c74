import Mathlib.Data.List.Nodup
import RuleFlow.Proofs.LastWriter

/-!
# What a registry lists

A registry lists one path for each conformer that it has, and no other (`paths_eq_map_places`), but
without the dots that the path starts with. The listing is exact just if no path to a conformer
starts with a dot (`paths_exact_iff`).
-/

namespace RuleFlow

universe u

variable {κ : Type u}

/-! ## Leaves of a scope -/

namespace Scope

variable {s : Scope κ} {segments : List String}

/-- The segments of the paths to all conformers. -/
def leaves : Scope κ → List (List String)
  | empty => []
  | conformer name _ rest => [name] :: rest.leaves
  | inner name members rest => members.leaves.map (name :: ·) ++ rest.leaves

theorem paths_eq_map_leaves (s : Scope κ) (path : String) :
    s.paths path = s.leaves.map (List.foldl qualify path) := by
  induction s generalizing path with
  | empty => rfl
  | conformer name value rest ih => rw [paths, leaves, List.map_cons, ih]; rfl
  | inner name members rest ihm ih =>
    rw [paths, leaves, List.map_append, List.map_map, ihm, ih]
    rfl

theorem exists_cons_of_mem_leaves (h : segments ∈ s.leaves) :
    ∃ first rest, segments = first :: rest ∧ first ∈ s.names := by
  induction s with
  | empty => cases h
  | conformer name value others ih =>
    rcases List.mem_cons.1 h with rfl | h
    · exact ⟨name, [], rfl, List.mem_cons_self⟩
    · obtain ⟨first, rest, rfl, hfirst⟩ := ih h
      exact ⟨first, rest, rfl, List.mem_cons_of_mem _ hfirst⟩
  | inner name members others _ ih =>
    rcases List.mem_append.1 h with h | h
    · obtain ⟨rest, _, rfl⟩ := List.mem_map.1 h
      exact ⟨name, rest, rfl, List.mem_cons_self⟩
    · obtain ⟨first, rest, rfl, hfirst⟩ := ih h
      exact ⟨first, rest, rfl, List.mem_cons_of_mem _ hfirst⟩

theorem nil_notMem_leaves (s : Scope κ) : [] ∉ s.leaves := by
  intro h
  obtain ⟨first, rest, hcons, _⟩ := exists_cons_of_mem_leaves h
  cases hcons

/-- Nothing below a name that comes before all others of a scope is a leaf of these. -/
theorem cons_notMem_leaves {name : String} (h : ∀ n ∈ s.names, name < n) (rest : List String) :
    name :: rest ∉ s.leaves := by
  intro hmem
  obtain ⟨first, _, hcons, hfirst⟩ := exists_cons_of_mem_leaves hmem
  cases hcons
  exact String.lt_irrefl name (h name hfirst)

theorem conformer?_cons_cons (name : String) (e : Entry κ) (s : Scope κ) (key : String)
    (rest : List String) : (cons name e s).conformer? (key :: rest) =
      if name = key then e.conformer? rest else s.conformer? (key :: rest) := by
  rw [conformer?_cons, get?_cons, conformer?_cons]
  split <;> rfl

theorem mem_leaves_iff (hs : s.Ordered) :
    segments ∈ s.leaves ↔ (s.conformer? segments).isSome := by
  cases segments with
  | nil => simp [nil_notMem_leaves, conformer?]
  | cons key rest =>
    induction s generalizing key rest with
    | empty => simp [leaves]
    | conformer name value others ih =>
      obtain ⟨hnames, hothers⟩ := hs
      -- The other names come after this one, so that nothing below it is a leaf of theirs.
      have hhead := conformer?_cons_cons name (.conformer value) others key rest
      rw [cons] at hhead
      rw [leaves, List.mem_cons, hhead]
      by_cases hkey : name = key
      · subst hkey
        have hrest := cons_notMem_leaves hnames rest
        cases rest <;> simp [Entry.conformer?, hrest]
      · simp [hkey, Ne.symm hkey, ih hothers]
    | inner name members others ihm ih =>
      obtain ⟨hnames, hmembers, hothers⟩ := hs
      have hhead := conformer?_cons_cons name (.scope members) others key rest
      rw [cons] at hhead
      rw [leaves, List.mem_append, List.mem_map, hhead]
      by_cases hkey : name = key
      · subst hkey
        have hrest := cons_notMem_leaves hnames rest
        cases rest with
        | nil => simp [Entry.conformer?, hrest, nil_notMem_leaves, conformer?]
        | cons next rest => simp [Entry.conformer?, hrest, ihm hmembers]
      · simp [hkey, ih hothers]

theorem nodup_leaves (hs : s.Ordered) : s.leaves.Nodup := by
  induction s with
  | empty => exact List.nodup_nil
  | conformer name value others ih =>
    exact List.nodup_cons.2 ⟨cons_notMem_leaves hs.1 [], ih hs.2⟩
  | inner name members others ihm ih =>
    obtain ⟨hnames, hmembers, hothers⟩ := hs
    have hbelow : (members.leaves.map (name :: ·)).Nodup :=
      (ihm hmembers).map fun _ _ h => (List.cons.inj h).2
    refine List.nodup_append.2 ⟨hbelow, ih hothers, ?_⟩
    rintro _ hmem other hother rfl
    obtain ⟨rest, _, rfl⟩ := List.mem_map.1 hmem
    exact cons_notMem_leaves hnames rest hother

end Scope

/-! ## Qualified names -/

namespace Path

/-- A path without the dots that it starts with. -/
def undotted (q : String) : String := String.ofList (q.toList.dropWhile (· == '.'))

theorem undotted_eq_self_iff {q : String} : undotted q = q ↔ q.toList.head? ≠ some '.' := by
  rw [undotted, ← String.toList_inj, String.toList_ofList]
  cases q.toList with
  | nil => simp
  | cons c cs =>
    by_cases hc : c = '.'
    · have hlength : (cs.dropWhile (· == '.')).length < (c :: cs).length :=
        Nat.lt_succ_of_le (List.dropWhile_suffix _).length_le
      have hne : cs.dropWhile (· == '.') ≠ c :: cs := fun h => Nat.ne_of_lt hlength (h ▸ rfl)
      simpa [hc] using hne
    · simp [hc]

theorem undotted_dot_append (q : String) : undotted ("." ++ q) = undotted q := by
  rw [undotted, String.toList_append]
  rfl

theorem head?_undotted (q : String) : (undotted q).toList.head? ≠ some '.' := by
  rw [undotted, String.toList_ofList]
  intro h
  have hnot := List.head?_dropWhile_not (· == '.') q.toList
  rw [h] at hnot
  cases hnot

/-- Segments without dots, of which the first is not empty, make a path that does not start with a
dot. -/
theorem undotted_intercalate {first : String} (hne : first ≠ "") (hdot : '.' ∉ first.toList)
    (rest : List String) :
    undotted (".".intercalate (first :: rest)) = ".".intercalate (first :: rest) := by
  obtain ⟨tail, htail⟩ : ∃ tail, ".".intercalate (first :: rest) = first ++ tail := by
    cases rest with
    | nil => exact ⟨"", by simp⟩
    | cons next rest => exact ⟨"." ++ ".".intercalate (next :: rest), by simp [String.append_assoc]⟩
  obtain ⟨c, cs, hfirst⟩ : ∃ c cs, first.toList = c :: cs :=
    List.exists_cons_of_ne_nil (by simpa using hne)
  have hc : c ≠ '.' := fun h => hdot (hfirst ▸ h ▸ List.mem_cons_self)
  rw [undotted_eq_self_iff, htail, String.toList_append, hfirst]
  simpa using hc

end Path

namespace Scope

theorem qualify_empty (name : String) : qualify "" name = name := rfl

theorem foldl_qualify_of_ne {path : String} (hpath : path ≠ "") (segments : List String) :
    segments.foldl qualify path = ".".intercalate (path :: segments) := by
  induction segments generalizing path with
  | nil => simp
  | cons first rest ih =>
    have hqualify : qualify path first = path ++ "." ++ first := by simp [qualify, hpath]
    have hne : path ++ "." ++ first ≠ "" := by simp
    rw [List.foldl_cons, hqualify, ih hne]
    simp [String.append_assoc]

/-- At the top, empty names are passed over until one is not. -/
theorem foldl_qualify_empty {segments : List String} (hne : segments ≠ [])
    (hdots : ∀ segment ∈ segments, '.' ∉ segment.toList) :
    segments.foldl qualify "" = Path.undotted (".".intercalate segments) := by
  induction segments with
  | nil => exact absurd rfl hne
  | cons first rest ih =>
    obtain ⟨hfirst, hrest⟩ := List.forall_mem_cons.1 hdots
    rw [List.foldl_cons, qualify_empty]
    by_cases hempty : first = ""
    · -- The path is empty still, and the dot behind it is not written.
      subst hempty
      by_cases hnil : rest = []
      · subst hnil; rfl
      · rw [ih hnil hrest, String.intercalate_cons_of_ne_nil hnil, String.empty_append,
          Path.undotted_dot_append]
    · rw [foldl_qualify_of_ne hempty, Path.undotted_intercalate hempty hfirst]

end Scope

/-! ## Listings -/

namespace Registry

variable {r : Registry κ} {on : String → Prop}

/-- The registries that come of insertions and mounts at certain paths; what is mounted comes about
in the same way. -/
inductive Built (on : String → Prop) : Registry κ → Prop where
  | empty : Built on empty
  | insert {r : Registry κ} {path : String} (value : κ) :
    Built on r → on path → Built on (r.insert path value)
  | mount {r other : Registry κ} {path : String} :
    Built on r → Built on other → on path → Built on (r.mount path other)

theorem forall_mem_segments_change {P : String → Prop} {c : Change κ} {segments : List String}
    (hpath : ∀ segment ∈ Path.segmentsOf c.path, P segment)
    (hentry : ∀ {rest}, (c.entry.conformer? rest).isSome → ∀ segment ∈ rest, P segment)
    (hr : (r.root.conformer? segments).isSome → ∀ segment ∈ segments, P segment)
    (hsome : ((r.change c).root.conformer? segments).isSome) : ∀ segment ∈ segments, P segment := by
  rw [conformer?_change] at hsome
  split at hsome
  · next hpre =>
    obtain ⟨rest, rfl⟩ := hpre
    rw [List.drop_left] at hsome
    exact List.forall_mem_append.2 ⟨hpath, hentry hsome⟩
  split at hsome
  · cases hsome
  · exact hr hsome

/-- What holds of all segments of the paths that a registry is built at, holds of all segments of
the paths to its conformers. -/
theorem Built.forall_mem_segments {P : String → Prop} (h : r.Built on)
    (hon : ∀ path, on path → ∀ segment ∈ Path.segmentsOf path, P segment) {segments : List String}
    (hsome : (r.root.conformer? segments).isSome) : ∀ segment ∈ segments, P segment := by
  induction h generalizing segments with
  | empty =>
    have hnone : (Registry.empty : Registry κ).root.conformer? segments = none :=
      Scope.conformer?_empty segments
    rw [hnone] at hsome
    cases hsome
  | @insert r path value _ hpath ih =>
    refine forall_mem_segments_change (c := .insert path value) (hon path hpath) ?_ ih hsome
    intro rest hrest
    cases rest with
    | nil => exact fun _ h => absurd h List.not_mem_nil
    | cons next rest => cases hrest
  | @mount r other path _ _ hpath ihr ihother =>
    exact forall_mem_segments_change (c := .mount path other) (hon path hpath) ihother ihr hsome

theorem Built.dot_notMem (h : r.Built on) {segments : List String}
    (hsome : (r.root.conformer? segments).isSome) : ∀ segment ∈ segments, '.' ∉ segment.toList :=
  h.forall_mem_segments (fun _ _ _ hmem => Path.dot_notMem_of_mem_segmentsOf hmem) hsome

/-- The paths to all conformers. -/
def places (r : Registry κ) : List String := r.root.leaves.map ".".intercalate

theorem mem_leaves_iff {segments : List String} :
    segments ∈ r.root.leaves ↔ (r.root.conformer? segments).isSome :=
  Scope.mem_leaves_iff r.ordered

theorem ne_nil_of_mem_leaves {segments : List String} (h : segments ∈ r.root.leaves) :
    segments ≠ [] := fun hnil => r.root.nil_notMem_leaves (hnil ▸ h)

theorem Built.segmentsOf_intercalate (h : r.Built on) {segments : List String}
    (hmem : segments ∈ r.root.leaves) :
    Path.segmentsOf (".".intercalate segments) = segments :=
  Path.segmentsOf_intercalate (ne_nil_of_mem_leaves hmem) (h.dot_notMem (mem_leaves_iff.1 hmem))

theorem Built.mem_places_iff (h : r.Built on) (q : String) :
    q ∈ r.places ↔ r.contains q = true := by
  have hcontains : r.contains q = true ↔ Path.segmentsOf q ∈ r.root.leaves := by
    rw [contains, get?_eq, mem_leaves_iff]
  rw [hcontains, places, List.mem_map]
  constructor
  · rintro ⟨segments, hmem, rfl⟩
    rwa [h.segmentsOf_intercalate hmem]
  · exact fun hmem => ⟨_, hmem, Path.intercalate_segmentsOf q⟩

theorem Built.nodup_places (h : r.Built on) : r.places.Nodup := by
  -- Equal paths would be cut into equal leaves.
  have hback : r.places.map Path.segmentsOf = r.root.leaves := by
    rw [places, List.map_map]
    exact (List.map_congr_left fun _ => h.segmentsOf_intercalate).trans (List.map_id _)
  refine .of_map Path.segmentsOf ?_
  rw [hback]
  exact Scope.nodup_leaves r.ordered

theorem Built.paths_eq_map_places (h : r.Built on) : r.paths = r.places.map Path.undotted := by
  rw [paths, Scope.paths_eq_map_leaves, places, List.map_map]
  refine List.map_congr_left fun segments hmem => ?_
  exact Scope.foldl_qualify_empty (ne_nil_of_mem_leaves hmem) (h.dot_notMem (mem_leaves_iff.1 hmem))

/-- **What a listing tells.** A registry has a list of all paths to its conformers, each one once,
and lists just these without the dots that they start with. So the listing itself has all paths to
conformers, only these and each one once, just if none of them starts with a dot. -/
theorem paths_exact_iff (h : r.Built on) :
    (r.places.Nodup ∧ (∀ q, q ∈ r.places ↔ r.contains q = true) ∧
      r.paths = r.places.map Path.undotted) ∧
    (((∀ q, q ∈ r.paths ↔ r.contains q = true) ∧ r.paths.Nodup) ↔
      ∀ q, r.contains q = true → q.toList.head? ≠ some '.') := by
  have hpaths := h.paths_eq_map_places
  refine ⟨⟨h.nodup_places, h.mem_places_iff, hpaths⟩, ?_, ?_⟩
  · -- Nothing that is listed starts with a dot.
    rintro ⟨hexact, -⟩ q hq
    have hmem := (hexact q).2 hq
    rw [hpaths] at hmem
    obtain ⟨place, -, rfl⟩ := List.mem_map.1 hmem
    exact Path.head?_undotted place
  · intro hdots
    have hsame : r.paths = r.places := by
      rw [hpaths]
      refine (List.map_congr_left fun q hq => ?_).trans (List.map_id _)
      exact Path.undotted_eq_self_iff.2 (hdots q ((h.mem_places_iff q).1 hq))
    rw [hsame]
    exact ⟨h.mem_places_iff, h.nodup_places⟩

/-- The listing is exact for a path with an empty segment that is not the first one. -/
theorem paths_exact_mount :
    let inner : Registry Nat := empty.insert "x." 2
    let r : Registry Nat := (empty.insert "b..c" 1).mount "a" inner
    r.Built (fun _ => True) ∧ r.paths = ["a.x.", "b..c"] ∧ r.paths.Nodup ∧
      ∀ q, q ∈ r.paths ↔ r.contains q = true := by
  intro inner r
  have hinner : inner.Built fun _ => True := .insert 2 .empty trivial
  have hr : r.Built fun _ => True := .mount (.insert 1 .empty trivial) hinner trivial
  have hplaces : r.places = ["a.x.", "b..c"] := by decide
  have hdots : ∀ q, r.contains q = true → q.toList.head? ≠ some '.' := by
    intro q hq
    have hmem := ((paths_exact_iff hr).1.2.1 q).2 hq
    rw [hplaces] at hmem
    exact (by decide : ∀ q ∈ ["a.x.", "b..c"], q.toList.head? ≠ some '.') q hmem
  have hexact := (paths_exact_iff hr).2.2 hdots
  exact ⟨hr, by decide, hexact.2, hexact.1⟩

/-- A conformer at a path that starts with a dot is listed at the path behind the dot, where there
may be none, or another one. -/
theorem paths_not_exact :
    let r : Registry Nat := empty.insert ".a" 1
    let both : Registry Nat := r.insert "a" 2
    r.Built (fun _ => True) ∧ r.contains ".a" = true ∧ r.contains "a" = false ∧ r.paths = ["a"] ∧
      (¬ ∀ q, q ∈ r.paths ↔ r.contains q = true) ∧
      both.Built (fun _ => True) ∧ both.paths = ["a", "a"] ∧ ¬ both.paths.Nodup := by
  intro r both
  have hr : r.Built fun _ => True := .insert 1 .empty trivial
  have hlisted : ¬ (".a" ∈ r.paths ↔ r.contains ".a" = true) := by decide
  exact ⟨hr, by decide, by decide, by decide, fun hexact => hlisted (hexact ".a"),
    .insert 2 hr trivial, by decide, by decide⟩

end Registry

end RuleFlow
