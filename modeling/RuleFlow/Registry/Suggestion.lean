import RuleFlow.Text.Distance

/-!
# Suggestions

The paths that are nearly the same as one that is missing, the nearest first.
-/

namespace RuleFlow

/-- The greatest distance at which a path is offered for a missing one: names of at most three
UTF-8 bytes allow for one edit, longer names for two. -/
def suggestionBound (missing : String) : Nat := if missing.utf8ByteSize ≤ 3 then 1 else 2

/-- A candidate with its distance, if it is near enough and not the missing name itself. -/
def nearCandidate? (missing candidate : String) : Option (Nat × String) :=
  let d := Text.distance missing.toList candidate.toList
  if 0 < d ∧ d ≤ suggestionBound missing then some (d, candidate) else none

/-- At most three of the available paths, ordered by distance and then as they come. -/
def suggestions (missing : String) (available : List String) : List String :=
  (((available.filterMap (nearCandidate? missing)).mergeSort (fun a b => a.1 ≤ b.1)).take 3).map
    Prod.snd

end RuleFlow
