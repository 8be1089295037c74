import RuleFlow.Json.Basic

/-!
# Reading JSON text

`Json.read?` reads one value and nothing after it. A repeated key keeps its first place and takes
its last value. Each step returns its result and the characters after it; the recursion over nested
values is bounded by the length of the text.
-/

namespace RuleFlow.Json.Reader

/-- Drops the blanks that JSON allows between tokens. -/
def skipBlanks (cs : List Char) : List Char :=
  cs.dropWhile fun c => c == ' ' || c == '\n' || c == '\r' || c == '\t'

def word? : List Char → List Char → Option (List Char)
  | [], cs => some cs
  | w :: ws, c :: cs => if w = c then word? ws cs else none
  | _ :: _, [] => none

/-! ## Strings -/

def hexDigit? (c : Char) : Option Nat :=
  if '0' ≤ c ∧ c ≤ '9' then some (c.toNat - '0'.toNat)
  else if 'a' ≤ c ∧ c ≤ 'f' then some (c.toNat - 'a'.toNat + 10)
  else if 'A' ≤ c ∧ c ≤ 'F' then some (c.toNat - 'A'.toNat + 10)
  else none

def hexUnit? (a b c d : Char) : Option Nat := do
  return (((← hexDigit? a) * 16 + (← hexDigit? b)) * 16 + (← hexDigit? c)) * 16 + (← hexDigit? d)

/-- The character of a short escape. -/
def shortEscape? : Char → Option Char
  | '"' => some '"'
  | '\\' => some '\\'
  | '/' => some '/'
  | 'b' => some '\x08'
  | 'f' => some '\x0c'
  | 'n' => some '\n'
  | 'r' => some '\r'
  | 't' => some '\t'
  | _ => none

/-- The character of a code point that is no surrogate. -/
def scalar? (n : Nat) : Option Char :=
  if n.isValidChar then some (Char.ofNat n) else none

/-- The body of a string and the characters after its closing quote. Two escaped surrogates make
one character; a lone one is refused. -/
def string? : List Char → Option (List Char × List Char)
  | [] => none
  | '"' :: rest => some ([], rest)
  | '\\' :: 'u' :: a :: b :: c :: d :: rest =>
    match hexUnit? a b c d with
    | none => none
    | some high =>
      if high < 0xD800 ∨ 0xDC00 ≤ high then do
        let ch ← scalar? high
        let (chars, rest) ← string? rest
        return (ch :: chars, rest)
      else
        match rest with
        | '\\' :: 'u' :: a' :: b' :: c' :: d' :: rest => do
          let low ← hexUnit? a' b' c' d'
          guard (0xDC00 ≤ low ∧ low < 0xE000)
          let ch ← scalar? (0x10000 + (high - 0xD800) * 0x400 + (low - 0xDC00))
          let (chars, rest) ← string? rest
          return (ch :: chars, rest)
        | _ => none
  | '\\' :: e :: rest => do
    let ch ← shortEscape? e
    let (chars, rest) ← string? rest
    return (ch :: chars, rest)
  | c :: rest =>
    if c.toNat < 0x20 ∨ c = '\\' then none else do
      let (chars, rest) ← string? rest
      return (c :: chars, rest)

/-! ## Numbers -/

/-- Appends digits to a significand as long as it stays below `2 ^ 64`: the significand, and the
digits from the first that did not fit. -/
def appendDigits : Nat → List Char → Nat × List Char
  | significand, [] => (significand, [])
  | significand, d :: ds =>
    let next := significand * 10 + (d.toNat - '0'.toNat)
    if next < Double.twoTo 64 then appendDigits next ds else (significand, d :: ds)

def digitsValue (ds : List Char) : Nat := ds.foldl (fun n d => n * 10 + (d.toNat - '0'.toNat)) 0

/-- A number without point and exponent: an integer if it fits 64 bits, signed when negative;
else, and for minus zero, a double. -/
def integral? (negative : Bool) (significand dropped : Nat) : Option Number :=
  if dropped = 0 ∧ !negative then some (.int significand)
  else if dropped = 0 ∧ 0 < significand ∧ significand ≤ Double.twoTo 63 then
    some (.int (-(significand : Int)))
  else (Double.ofScientific? negative significand dropped).map .double

/-- The exponent part, if there is one: its value and the characters after it. -/
def exponent? (cs : List Char) : Option (Option Int × List Char) :=
  match cs with
  | e :: rest =>
    if e = 'e' ∨ e = 'E' then
      let (negative, rest) :=
        match rest with
        | '+' :: rest => (false, rest)
        | '-' :: rest => (true, rest)
        | rest => (false, rest)
      let digits := rest.takeWhile Char.isDigit
      if digits = [] then none
      else
        let n : Int := digitsValue digits
        some (some (if negative then -n else n), rest.dropWhile Char.isDigit)
    else some (none, cs)
  | [] => some (none, [])

/-- A number. Digits beyond the sixty-fourth bit of the significand are dropped; those of the whole
part count in the exponent. -/
def number? (cs : List Char) : Option (Number × List Char) := do
  let (negative, cs) :=
    match cs with
    | '-' :: rest => (true, rest)
    | cs => (false, cs)
  let whole := cs.takeWhile Char.isDigit
  let cs := cs.dropWhile Char.isDigit
  guard (whole ≠ [] ∧ (whole.head? = some '0' → whole.length = 1))
  let (significand, unread) := appendDigits 0 whole
  match cs with
  | '.' :: cs =>
    let fraction := cs.takeWhile Char.isDigit
    guard (fraction ≠ [])
    let (longer, unreadFraction) := appendDigits significand fraction
    let (exponent, cs) ← exponent? (cs.dropWhile Char.isDigit)
    let places : Int := fraction.length - unreadFraction.length
    let x ← Double.ofScientific? negative longer (unread.length - places + exponent.getD 0)
    return (.double x, cs)
  | cs =>
    match ← exponent? cs with
    | (none, cs) => return (← integral? negative significand unread.length, cs)
    | (some exponent, cs) =>
      let x ← Double.ofScientific? negative significand (unread.length + exponent)
      return (.double x, cs)

/-! ## Values -/

mutual

/-- One value, at most `fuel` levels of nesting and neighbours deep. -/
def value? : (fuel : Nat) → List Char → Option (Json × List Char)
  | 0, _ => none
  | fuel + 1, cs =>
    match skipBlanks cs with
    | [] => none
    | c :: rest =>
      match c with
      | '"' => (string? rest).map fun (chars, rest) => (.string (String.ofList chars), rest)
      | '[' =>
        match skipBlanks rest with
        | ']' :: rest => some (.array [], rest)
        | rest => (items? fuel rest).map fun (items, rest) => (.array items, rest)
      | '\x7b' =>
        match skipBlanks rest with
        | '\x7d' :: rest => some (.object [], rest)
        | rest => (members? fuel [] rest).map fun (members, rest) => (.object members, rest)
      | 'n' => (word? ['u', 'l', 'l'] rest).map fun rest => (.null, rest)
      | 't' => (word? ['r', 'u', 'e'] rest).map fun rest => (.bool true, rest)
      | 'f' => (word? ['a', 'l', 's', 'e'] rest).map fun rest => (.bool false, rest)
      | c => (number? (c :: rest)).map fun (n, rest) => (.number n, rest)

/-- The items of an array up to its closing bracket. -/
def items? : (fuel : Nat) → List Char → Option (List Json × List Char)
  | 0, _ => none
  | fuel + 1, cs =>
    match value? fuel cs with
    | none => none
    | some (item, rest) =>
      match skipBlanks rest with
      | ',' :: rest => (items? fuel rest).map fun (items, rest) => (item :: items, rest)
      | ']' :: rest => some ([item], rest)
      | _ => none

/-- The members of an object up to its closing brace, put into those that came before. -/
def members? : (fuel : Nat) → List (String × Json) → List Char →
    Option (List (String × Json) × List Char)
  | 0, _, _ => none
  | fuel + 1, before, cs =>
    match skipBlanks cs with
    | '"' :: rest =>
      match string? rest with
      | none => none
      | some (key, rest) =>
        match skipBlanks rest with
        | ':' :: rest =>
          match value? fuel rest with
          | none => none
          | some (value, rest) =>
            let members := Entries.insert before (String.ofList key) value
            match skipBlanks rest with
            | ',' :: rest => members? fuel members rest
            | '\x7d' :: rest => some (members, rest)
            | _ => none
        | _ => none
    | _ => none

end

end RuleFlow.Json.Reader

namespace RuleFlow.Json

/-- Reads a text that holds one value. Each level of nesting and each neighbour takes characters of
its own, so that twice the length of the text bounds the recursion. -/
def read? (text : String) : Option Json :=
  let cs := text.toList
  match Reader.value? (2 * cs.length + 1) cs with
  | some (value, rest) => if Reader.skipBlanks rest = [] then some value else none
  | none => none

end RuleFlow.Json
