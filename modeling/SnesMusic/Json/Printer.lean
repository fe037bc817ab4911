import SnesMusic.Json.Value

/-!
# Writing JSON

Values on lines of their own, two blanks of indentation for each level. In strings, only quotes,
backslashes and control characters are escaped.
-/
namespace SnesMusic.Json

/-- A character inside a string. -/
def escape (c : Char) : List Char :=
  match c with
  | '\x22' => ['\x5c', '\x22']
  | '\x5c' => ['\x5c', '\x5c']
  | '\x08' => ['\x5c', 'b']
  | '\x0c' => ['\x5c', 'f']
  | '\n' => ['\x5c', 'n']
  | '\r' => ['\x5c', 'r']
  | '\t' => ['\x5c', 't']
  | _ =>
    if c < ' ' then ['\x5c', 'u', '0', '0', (c.toNat / 16).digitChar, (c.toNat % 16).digitChar]
    else [c]

/-- A string with its quotes. Without a text it is half of a surrogate pair. -/
def stringChars (text : Option String) : List Char :=
  '\x22' :: (match text with
    | some s => s.toList.flatMap escape
    | none => ['\x5c', 'u', 'd', '8', '0', '0']) ++ ['\x22']

def Number.chars (n : Number) : List Char :=
  (if n.negative then ['-'] else []) ++ Nat.toDigits 10 n.mantissa ++
    if n.plain then []
    else 'e' :: (if n.exponent < 0 then ['-'] else []) ++ Nat.toDigits 10 n.exponent.natAbs

/-- A line break and the indentation of a level. -/
def lineBreak (level : Nat) : List Char := '\n' :: List.replicate (2 * level) ' '

mutual

/-- A value inside `level` open brackets. -/
def Value.chars (level : Nat) : Value → List Char
  | .null => ['n', 'u', 'l', 'l']
  | .bool true => ['t', 'r', 'u', 'e']
  | .bool false => ['f', 'a', 'l', 's', 'e']
  | .number n => n.chars
  | .string text => stringChars text
  | .array [] => ['[', ']']
  | .array (item :: rest) =>
    '[' :: lineBreak (level + 1) ++ item.chars (level + 1) ++ itemChars (level + 1) rest ++
      lineBreak level ++ [']']
  | .object [] => ['\x7b', '\x7d']
  | .object ((key, value) :: rest) =>
    '\x7b' :: lineBreak (level + 1) ++ stringChars key ++ [':', ' '] ++ value.chars (level + 1) ++
      memberChars (level + 1) rest ++ lineBreak level ++ ['\x7d']

/-- Further items of an array. -/
def itemChars (level : Nat) : List Value → List Char
  | [] => []
  | item :: rest => ',' :: lineBreak level ++ item.chars level ++ itemChars level rest

/-- Further members of an object. -/
def memberChars (level : Nat) : List (Option String × Value) → List Char
  | [] => []
  | (key, value) :: rest =>
    ',' :: lineBreak level ++ stringChars key ++ [':', ' '] ++ value.chars level ++
      memberChars level rest

end

/-- The text of a value, without a line break at its end. -/
def Value.toText (v : Value) : String := String.ofList (v.chars 0)

end SnesMusic.Json
