import RuleFlow.Json.Basic
import RuleFlow.Number.Shortest

/-!
# Compact JSON text

`Json.compact` writes a value without blanks. Strings escape the quote, the backslash and the
controls below U+0020; every other character stands for itself.
-/

namespace RuleFlow.Json

/-- Doubles are plain between `0.00001` and `10 ^ 16`, always show a point or an exponent, and an
exponent always shows its sign. -/
def doubleStyle : DecimalStyle :=
  { plainFrom := -5, plainTo := 15, integralEnd := ".0"
    positiveMark := "e+", negativeMark := "e-" }

def escapeChar (c : Char) : List Char :=
  match c with
  | '"' => ['\\', '"']
  | '\\' => ['\\', '\\']
  | '\x08' => ['\\', 'b']
  | '\x0c' => ['\\', 'f']
  | '\n' => ['\\', 'n']
  | '\r' => ['\\', 'r']
  | '\t' => ['\\', 't']
  | c =>
    if c.toNat < 0x20 then
      ['\\', 'u', '0', '0', Nat.digitChar (c.toNat / 16), Nat.digitChar (c.toNat % 16)]
    else [c]

def quote (s : String) : String :=
  "\"" ++ String.ofList (s.toList.flatMap escapeChar) ++ "\""

def renderNumber : Number → String
  | .int value => toString value
  | .double value => value.render doubleStyle

mutual

def compact : Json → String
  | .null => "null"
  | .bool true => "true"
  | .bool false => "false"
  | .number n => renderNumber n
  | .string s => quote s
  | .array items => "[" ++ compactItems items ++ "]"
  | .object members => "\x7b" ++ compactMembers members ++ "\x7d"

def compactItems : List Json → String
  | [] => ""
  | [item] => compact item
  | item :: items => compact item ++ "," ++ compactItems items

def compactMembers : List (String × Json) → String
  | [] => ""
  | [(key, value)] => quote key ++ ":" ++ compact value
  | (key, value) :: members => quote key ++ ":" ++ compact value ++ "," ++ compactMembers members

end

end RuleFlow.Json
