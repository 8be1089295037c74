/-!
# Edit distance

The least number of insertions, deletions and replacements of single characters that turn one text
into another. `distance` fills the usual table row by row, from the last character to the first.
-/

namespace RuleFlow.Text

/-- The distances from the empty text to all suffixes of a text, the longest suffix first. -/
def lastRow : List Char → List Nat
  | [] => [0]
  | _ :: ys => (ys.length + 1) :: lastRow ys

/-- One row of the table from the row below it: the distances from `x :: xs` to all suffixes of a
text, given those from `xs`. -/
def nextRow (x : Char) : List Char → List Nat → List Nat
  | y :: ys, here :: below =>
    let row := nextRow x ys below
    let replaced := below.headD 0 + if x = y then 0 else 1
    min (min (here + 1) (row.headD 0 + 1)) replaced :: row
  | _, below => [below.headD 0 + 1]

/-- The distances from a text to all suffixes of another, the longest suffix first. -/
def distances (xs ys : List Char) : List Nat :=
  xs.foldr (fun x row => nextRow x ys row) (lastRow ys)

/-- The edit distance, counted in characters. -/
def distance (xs ys : List Char) : Nat := (distances xs ys).headD 0

end RuleFlow.Text
