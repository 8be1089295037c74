import Mathlib.Order.Bounds.Defs
import RuleFlow.Text.Distance

/-!
# Edit distance

`Text.distance` is the least number of edits that lead from one text to another
(`distance_isLeast`). The table that it fills is a recursion on both texts (`distance_cons_cons`).
An edit anywhere in a text changes its distance to any other by one at most (`Edit.distance_le`), so
that no series of edits is shorter, and the recursion itself tells a series that is as short
(`edits_distance`). A text that goes on is as far away as it is longer (`distance_append`).
-/

namespace RuleFlow.Text

variable {xs ys : List Char} {n : Nat}

/-! ## The table as a recursion -/

/-- A row for a longer text has one more distance in front. -/
theorem distances_cons (xs ys : List Char) (y : Char) :
    distances xs (y :: ys) = distance xs (y :: ys) :: distances xs ys := by
  induction xs with
  | nil => rfl
  | cons x xs ih =>
    have hrow (zs : List Char) : distances (x :: xs) zs = nextRow x zs (distances xs zs) := rfl
    rw [distance, hrow, ih, hrow]
    rfl

theorem distance_nil (ys : List Char) : distance [] ys = ys.length := by
  cases ys <;> rfl

theorem distance_cons_nil (x : Char) (xs : List Char) :
    distance (x :: xs) [] = distance xs [] + 1 := rfl

theorem distance_cons_cons (x y : Char) (xs ys : List Char) :
    distance (x :: xs) (y :: ys) = min (min (distance xs (y :: ys) + 1) (distance (x :: xs) ys + 1))
      (distance xs ys + if x = y then 0 else 1) := by
  have hrow : distance (x :: xs) (y :: ys) =
      (nextRow x (y :: ys) (distances xs (y :: ys))).headD 0 := rfl
  rw [hrow, distances_cons]
  rfl

/-! ## Edits -/

/-- One edit of a text: a character is put in, taken out or replaced, in front or later. -/
inductive Edit : List Char → List Char → Prop where
  | insert (c : Char) (cs : List Char) : Edit cs (c :: cs)
  | delete (c : Char) (cs : List Char) : Edit (c :: cs) cs
  | replace (c d : Char) (cs : List Char) : Edit (c :: cs) (d :: cs)
  | later (c : Char) {cs ds : List Char} : Edit cs ds → Edit (c :: cs) (c :: ds)

/-- A series of edits with their number. -/
inductive Edits : Nat → List Char → List Char → Prop where
  | nil (cs : List Char) : Edits 0 cs cs
  | cons {n : Nat} {xs ys zs : List Char} : Edit xs ys → Edits n ys zs → Edits (n + 1) xs zs

theorem Edits.later (c : Char) (h : Edits n xs ys) : Edits n (c :: xs) (c :: ys) := by
  induction h with
  | nil cs => exact .nil (c :: cs)
  | cons hedit _ ih => exact .cons (.later c hedit) ih

theorem Edits.insert (c : Char) (h : Edits n xs ys) : Edits (n + 1) xs (c :: ys) :=
  .cons (.insert c xs) (h.later c)

theorem Edits.delete (c : Char) (h : Edits n xs ys) : Edits (n + 1) (c :: xs) ys :=
  .cons (.delete c xs) h

theorem Edits.replace (c d : Char) (h : Edits n xs ys) :
    Edits (n + if c = d then 0 else 1) (c :: xs) (d :: ys) := by
  by_cases hcd : c = d
  · subst hcd
    simpa using h.later c
  · simpa [hcd] using Edits.cons (.replace c d xs) (h.later d)

/-- The table finds a series of edits. -/
theorem edits_distance (xs ys : List Char) : Edits (distance xs ys) xs ys := by
  induction xs generalizing ys with
  | nil =>
    rw [distance_nil]
    induction ys with
    | nil => exact .nil []
    | cons y ys ih => exact ih.insert y
  | cons x xs ih =>
    induction ys with
    | nil => exact (ih []).delete x
    | cons y ys ihy =>
      have hcases : distance (x :: xs) (y :: ys) = distance xs (y :: ys) + 1 ∨
          distance (x :: xs) (y :: ys) = distance (x :: xs) ys + 1 ∨
          distance (x :: xs) (y :: ys) = distance xs ys + if x = y then 0 else 1 := by
        rw [distance_cons_cons]
        omega
      rcases hcases with h | h | h <;> rw [h]
      · exact (ih (y :: ys)).delete x
      · exact ihy.insert y
      · exact (ih ys).replace x y

/-! ## No series is shorter -/

theorem distance_cons_right_le (y : Char) (xs ys : List Char) :
    distance xs (y :: ys) ≤ distance xs ys + 1 := by
  cases xs with
  | nil => rw [distance_nil, distance_nil]; exact Nat.le_refl _
  | cons x xs => rw [distance_cons_cons]; omega

theorem distance_cons_left_le (x : Char) (xs ys : List Char) :
    distance (x :: xs) ys ≤ distance xs ys + 1 := by
  cases ys with
  | nil => exact Nat.le_refl _
  | cons y ys => rw [distance_cons_cons]; omega

theorem distance_cons_cons_le (x y : Char) (xs ys : List Char) :
    distance (x :: xs) (y :: ys) ≤ distance xs ys + 1 := by
  rw [distance_cons_cons]
  split <;> omega

theorem distance_le_cons_left (x : Char) (xs ys : List Char) :
    distance xs ys ≤ distance (x :: xs) ys + 1 := by
  induction ys with
  | nil => rw [distance_cons_nil]; omega
  | cons y ys ih =>
    have hright := distance_cons_right_le y xs ys
    rw [distance_cons_cons]
    omega

/-- One edit changes the distance to any other text by one at most. -/
theorem Edit.distance_le (h : Edit xs ys) (zs : List Char) :
    distance xs zs ≤ distance ys zs + 1 := by
  induction h generalizing zs with
  | insert c cs => exact distance_le_cons_left c cs zs
  | delete c cs => exact distance_cons_left_le c cs zs
  | replace c d cs =>
    induction zs with
    | nil => rw [distance_cons_nil, distance_cons_nil]; omega
    | cons z zs ih =>
      have hleft := distance_cons_left_le c cs (z :: zs)
      have hright := distance_cons_right_le z (c :: cs) zs
      have hboth := distance_cons_cons_le c z cs zs
      rw [distance_cons_cons d]
      omega
  | @later c cs ds _ ih =>
    induction zs with
    | nil =>
      have hnil := ih []
      rw [distance_cons_nil, distance_cons_nil]
      omega
    | cons z zs ihz =>
      have hwhole := ih (z :: zs)
      have hrest := ih zs
      rw [distance_cons_cons, distance_cons_cons]
      omega

theorem distance_self (xs : List Char) : distance xs xs = 0 := by
  induction xs with
  | nil => rfl
  | cons x xs ih => simp [distance_cons_cons, ih]

theorem Edits.distance_le (h : Edits n xs ys) : distance xs ys ≤ n := by
  induction h with
  | nil cs => exact Nat.le_of_eq (distance_self cs)
  | @cons n xs ys zs hedit _ ih =>
    have hstep := hedit.distance_le zs
    omega

/-- The distance is the least number of edits. -/
theorem distance_isLeast (xs ys : List Char) : IsLeast {n | Edits n xs ys} (distance xs ys) :=
  ⟨edits_distance xs ys, fun _ h => Edits.distance_le h⟩

/-! ## Texts that go on -/

theorem Edit.length_le (h : Edit xs ys) : ys.length ≤ xs.length + 1 := by
  induction h with
  | insert c cs => exact Nat.le_refl _
  | delete c cs => exact Nat.le_add_right_of_le (Nat.le_succ _)
  | replace c d cs => exact Nat.le_succ _
  | later c _ ih => exact Nat.succ_le_succ ih

theorem Edits.length_le (h : Edits n xs ys) : ys.length ≤ xs.length + n := by
  induction h with
  | nil => exact Nat.le_refl _
  | cons hedit _ ih =>
    have hstep := hedit.length_le
    omega

theorem edits_append (xs ys : List Char) : Edits ys.length xs (xs ++ ys) := by
  induction xs with
  | nil => exact distance_nil ys ▸ edits_distance [] ys
  | cons x xs ih => exact ih.later x

/-- What is put at the end of a text is put there one by one. -/
theorem distance_append (xs ys : List Char) : distance xs (xs ++ ys) = ys.length := by
  have hle := (edits_append xs ys).distance_le
  have hge := (edits_distance xs (xs ++ ys)).length_le
  rw [List.length_append] at hge
  omega

end RuleFlow.Text
