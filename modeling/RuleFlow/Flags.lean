import RuleFlow.Json.Basic

/-!
# Flow flags

Six independent switches of a rule and their three written forms: flag text such as `~?!!`, its
canonical spelling, and JSON.
-/

namespace RuleFlow

/-- What steers the flow at one rule. -/
structure Flags where
  /-- `~`: a failure of the conformer counts as success, and success as failure. -/
  negate : Bool := false
  /-- `?`: a failure is not recorded. -/
  optional : Bool := false
  /-- `!`: a failure stops the remaining rules of the field. -/
  breakField : Bool := false
  /-- `!!`: a failure stops the session. -/
  breakAll : Bool := false
  /-- `&`: the rest of the field is skipped once the field has an error. -/
  continuity : Bool := false
  /-- `&&`: the rest of the field is skipped once any field has an error. -/
  fullContinuity : Bool := false
  deriving DecidableEq, Repr

namespace Flags

def empty : Flags := {}

instance : EmptyCollection Flags := ⟨empty⟩

def isEmpty (f : Flags) : Bool := f == empty

/-! ## Flag text -/

/-- Takes out the first two neighbouring copies of a character, if there are such. -/
def takePair? (c : Char) : List Char → Option (List Char)
  | a :: b :: cs => if a = c ∧ b = c then some cs else (takePair? c (b :: cs)).map (a :: ·)
  | _ => none

/-- Whether a pair could be taken out, and what is left. -/
def takePair (c : Char) (cs : List Char) : Bool × List Char :=
  match takePair? c cs with
  | some rest => (true, rest)
  | none => (false, cs)

/-- Reads flag text. First one `!!` is taken out, then from what is left one `&&`; each remaining
character is read on its own, and one that names no flag is ignored. -/
def ofChars (cs : List Char) : Flags :=
  let (breakAll, cs) := takePair '!' cs
  let (fullContinuity, cs) := takePair '&' cs
  { negate := cs.contains '~'
    optional := cs.contains '?'
    breakField := cs.contains '!'
    breakAll
    continuity := cs.contains '&'
    fullContinuity }

def ofText (text : String) : Flags := ofChars text.toList

/-- The canonical flag text: one mark for each flag that is set, in a fixed order. -/
def toChars (f : Flags) : List Char :=
  (if f.negate then ['~'] else []) ++ (if f.optional then ['?'] else []) ++
  (if f.breakAll then ['!', '!'] else []) ++ (if f.breakField then ['!'] else []) ++
  (if f.fullContinuity then ['&', '&'] else []) ++ (if f.continuity then ['&'] else [])

def text (f : Flags) : String := String.ofList f.toChars

/-- Canonical text reads back. -/
theorem ofChars_toChars (f : Flags) : ofChars f.toChars = f := by
  rcases f with ⟨a, b, c, d, e, g⟩
  cases a <;> cases b <;> cases c <;> cases d <;> cases e <;> cases g <;> rfl

/-! ## JSON -/

def switch? : Option Json → Option Bool
  | none => some false
  | some value => value.bool?

/-- Reads flags from an object of Booleans, where a key left out is false and other keys are
ignored, or from an array of at most six Booleans in the order of the fields. -/
def ofJson? (value : Json) : Option Flags :=
  match value with
  | .object _ => do
    let negate ← switch? (value.member? "negate")
    let optional ← switch? (value.member? "optional")
    let breakField ← switch? (value.member? "break")
    let breakAll ← switch? (value.member? "break_all")
    let continuity ← switch? (value.member? "continuity")
    let fullContinuity ← switch? (value.member? "full_continuity")
    return { negate, optional, breakField, breakAll, continuity, fullContinuity }
  | .array items => do
    guard (items.length ≤ 6)
    let negate ← switch? items[0]?
    let optional ← switch? items[1]?
    let breakField ← switch? items[2]?
    let breakAll ← switch? items[3]?
    let continuity ← switch? items[4]?
    let fullContinuity ← switch? items[5]?
    return { negate, optional, breakField, breakAll, continuity, fullContinuity }
  | _ => none

end Flags

end RuleFlow
