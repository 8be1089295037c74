import RuleFlow.OrderedMap

/-!
# Rule text

A rule is written `flags path` or `flags path:param,param`. The flags are all that stands before
the first ASCII letter or underscore, and the path ends at the first colon after that. Main
statement: `RuleText.ofChars` only cuts, so that `RuleText.chars` of its result is its input.
-/

namespace RuleFlow

/-- The three parts of a rule text, as they stand. -/
structure RuleText where
  /-- What stands before the path. -/
  flags : List Char
  path : List Char
  params : Option (List Char)
  deriving DecidableEq

/-- Why a text is no rule text. -/
inductive TextError where
  | empty
  /-- There is no path; `column` is one more than the length of the text in UTF-8 bytes. -/
  | missingPath (column : Nat)
  deriving DecidableEq, Repr

def TextError.message : TextError → String
  | .empty => "empty rule text"
  | .missingPath column => "missing function path at column " ++ toString column

namespace RuleText

/-- Whether a path can start with this character. -/
def isPathStart (c : Char) : Bool := c.isAlpha || c == '_'

/-- What follows the colon at the start of a list, if the list goes on. -/
def afterColon : List Char → Option (List Char)
  | [] => none
  | _ :: cs => some cs

/-- Cuts a rule text into its parts. -/
def ofChars (cs : List Char) : Except TextError RuleText :=
  if cs = [] then .error .empty
  else
    let flags := cs.takeWhile (! isPathStart ·)
    let rest := cs.dropWhile (! isPathStart ·)
    if rest = [] then .error (.missingPath ((String.ofList cs).utf8ByteSize + 1))
    else .ok ⟨flags, rest.takeWhile (· != ':'), afterColon (rest.dropWhile (· != ':'))⟩

def ofText (text : String) : Except TextError RuleText := ofChars text.toList

def chars (t : RuleText) : List Char :=
  t.flags ++ t.path ++
    match t.params with
    | none => []
    | some params => ':' :: params

/-- The first character that a test leaves is a colon. -/
theorem colon_afterColon (cs : List Char) :
    (match afterColon (cs.dropWhile (· != ':')) with
      | none => []
      | some params => ':' :: params) = cs.dropWhile (· != ':') := by
  induction cs with
  | nil => rfl
  | cons c cs ih =>
    by_cases h : c = ':'
    · simp [h, afterColon]
    · simpa [h] using ih

/-- Cutting loses nothing. -/
theorem chars_of_ofChars {cs : List Char} {t : RuleText} (h : ofChars cs = .ok t) :
    t.chars = cs := by
  unfold ofChars at h
  split at h
  · cases h
  · simp only at h
    split at h
    · cases h
    · cases h
      simp only [chars, colon_afterColon, List.append_assoc, List.takeWhile_append_dropWhile]

/-! ## Parameters -/

/-- The parameters of a parameter text: its parts between commas. No text and an empty text have
no parameters. -/
def splitParams : Option (List Char) → List (List Char)
  | none => []
  | some [] => []
  | some cs => cs.splitOn ','

end RuleText

end RuleFlow
