/-!
# Dotted paths

A path is written with dots between its segments and has at least one segment, which may be empty.
`ofText` cuts a text at its dots, and `segments_ofText` says what the parts are.
-/

namespace RuleFlow

/-- A path: a first segment and the segments after it. -/
@[ext]
structure Path where
  first : String
  rest : List String
  deriving DecidableEq

namespace Path

def segments (p : Path) : List String := p.first :: p.rest

/-- The path of a text: its parts between dots. -/
def ofText (text : String) : Path :=
  match text.toList.splitOn '.' with
  | [] => ⟨"", []⟩
  | first :: rest => ⟨String.ofList first, rest.map String.ofList⟩

theorem segments_ofText (text : String) :
    (ofText text).segments = (text.toList.splitOn '.').map String.ofList := by
  unfold ofText segments
  split
  · next h => exact absurd h (by simp [List.splitOn, List.splitOnP_ne_nil])
  · next h => simp [h]

end Path

end RuleFlow
