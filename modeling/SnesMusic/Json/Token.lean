import SnesMusic.Json.Value

/-!
# JSON tokens

A text as brackets, separators and scalar values. Only blank, tab, line feed and carriage return may
stand between tokens.
-/
namespace SnesMusic.Json

inductive Token where
  | openArray
  | closeArray
  | openObject
  | closeObject
  | comma
  | colon
  | scalar (value : Value)

/-! ### Strings -/

/-- The character of a one-letter escape. -/
def escaped? (letter : Char) : Option Char :=
  match letter with
  | '\x22' => some '\x22'
  | '\x5c' => some '\x5c'
  | '/' => some '/'
  | 'b' => some '\x08'
  | 'f' => some '\x0c'
  | 'n' => some '\n'
  | 'r' => some '\r'
  | 't' => some '\t'
  | _ => none

/-- The value of a hexadecimal digit. -/
def hexValue? (c : Char) : Option Nat :=
  if '0' ≤ c ∧ c ≤ '9' then some (c.toNat - 48)
  else if 'a' ≤ c ∧ c ≤ 'f' then some (c.toNat - 87)
  else if 'A' ≤ c ∧ c ≤ 'F' then some (c.toNat - 55)
  else none

/-- The value of four hexadecimal digits. -/
def unit? (a b c d : Char) : Option Nat := do
  let a ← hexValue? a
  let b ← hexValue? b
  let c ← hexValue? c
  let d ← hexValue? d
  return ((a * 16 + b) * 16 + c) * 16 + d

def isHighSurrogate (unit : Nat) : Bool := 0xD800 ≤ unit && unit < 0xDC00

def isLowSurrogate (unit : Nat) : Bool := 0xDC00 ≤ unit && unit < 0xE000

/-- The character of a surrogate pair. -/
def pairChar (high low : Nat) : Char :=
  Char.ofNat (0x10000 + (high - 0xD800) * 0x400 + (low - 0xDC00))

/-- Adds a character to those read, newest first; nothing can be added to a text without meaning. -/
def push (before : Option (List Char)) (c : Char) : Option (List Char) := before.map (c :: ·)

/-- Reads a string behind its opening quote: its characters, if it stands for a text, and what
follows the closing quote. A string that does not end, a raw control character and an unknown escape
are refused. -/
def readString (before : Option (List Char)) :
    List Char → Option (Option (List Char) × List Char)
  | [] => none
  | '\x22' :: rest => some (before.map List.reverse, rest)
  | '\x5c' :: 'u' :: a :: b :: c :: d :: rest =>
    match unit? a b c d with
    | none => none
    | some high =>
      if isHighSurrogate high then
        match rest with
        | '\x5c' :: 'u' :: e :: f :: g :: h :: after =>
          match unit? e f g h with
          | none => none
          | some low =>
            if isLowSurrogate low then readString (push before (pairChar high low)) after
            else readString none ('\x5c' :: 'u' :: e :: f :: g :: h :: after)
        | other => readString none other
      else if isLowSurrogate high then readString none rest
      else readString (push before (Char.ofNat high)) rest
  | '\x5c' :: letter :: rest =>
    match escaped? letter with
    | none => none
    | some c => readString (push before c) rest
  | c :: rest => if c < ' ' ∨ c = '\x5c' then none else readString (push before c) rest
termination_by text => text.length

/-- What follows a string is shorter than the string. -/
theorem length_of_readString {before result : Option (List Char)} {text rest : List Char}
    (h : readString before text = some (result, rest)) : rest.length < text.length := by
  fun_induction readString before text <;>
    simp_all only [Option.some.injEq, Prod.mk.injEq, reduceCtorEq, List.length_cons,
      forall_const] <;>
    omega

/-! ### Numbers -/

/-- The value of decimal digits. -/
def digitsValue (digits : List Char) : Nat :=
  digits.foldl (fun value c => value * 10 + (c.toNat - 48)) 0

/-- The digits after a point, if there is one; a point without digits is refused. -/
def fraction? : List Char → Option (List Char × List Char)
  | '.' :: rest =>
    match rest.takeWhile Char.isDigit with
    | [] => none
    | digits => some (digits, rest.dropWhile Char.isDigit)
  | text => some ([], text)

/-- The exponent at the end of a number, zero if there is none. -/
def exponent? : List Char → Option Int
  | [] => some 0
  | mark :: rest =>
    if mark ≠ 'e' ∧ mark ≠ 'E' then none
    else
      let (negative, digits) := match rest with
        | '-' :: digits => (true, digits)
        | '+' :: digits => (false, digits)
        | digits => (false, digits)
      if digits.isEmpty || !digits.all Char.isDigit then none
      else some (if negative then -(digitsValue digits : Int) else digitsValue digits)

/-- A number. Its integer part has no leading zeros. -/
def number? (text : List Char) : Option Number :=
  let (negative, text) := match text with
    | '-' :: rest => (true, rest)
    | _ => (false, text)
  let whole := text.takeWhile Char.isDigit
  let rest := text.dropWhile Char.isDigit
  if whole.isEmpty || (whole.head? == some '0' && 1 < whole.length) then none
  else do
    let (fraction, after) ← fraction? rest
    let exponent ← exponent? after
    return {
      negative
      mantissa := digitsValue (whole ++ fraction)
      exponent := exponent - fraction.length
      plain := rest.isEmpty }

/-- The characters that numbers are made of. -/
def isNumberChar (c : Char) : Bool :=
  c.isDigit || c == '-' || c == '+' || c == '.' || c == 'e' || c == 'E'

/-! ### Texts -/

def isSpace (c : Char) : Bool := c == ' ' || c == '\n' || c == '\t' || c == '\r'

/-- A bracket or separator. -/
def mark? (c : Char) : Option Token :=
  match c with
  | '[' => some .openArray
  | ']' => some .closeArray
  | '\x7b' => some .openObject
  | '\x7d' => some .closeObject
  | ',' => some .comma
  | ':' => some .colon
  | _ => none

/-- Reads a token that begins with `c` and is neither a bracket nor a separator. -/
def readScalar (c : Char) (rest : List Char) : Option (Value × List Char) :=
  match c, rest with
  | '\x22', _ => (readString (some []) rest).map fun (text, after) =>
    (.string (text.map String.ofList), after)
  | 'n', 'u' :: 'l' :: 'l' :: after => some (.null, after)
  | 't', 'r' :: 'u' :: 'e' :: after => some (.bool true, after)
  | 'f', 'a' :: 'l' :: 's' :: 'e' :: after => some (.bool false, after)
  | _, _ =>
    (number? (c :: rest.takeWhile isNumberChar)).map fun n =>
      (.number n, rest.dropWhile isNumberChar)

theorem length_dropWhile_le (p : Char → Bool) (text : List Char) :
    (text.dropWhile p).length ≤ text.length := by
  induction text with
  | nil => simp
  | cons c rest ih =>
    rw [List.dropWhile_cons]
    split
    · simp only [List.length_cons]; omega
    · exact Nat.le_refl _

theorem length_of_readScalar {c : Char} {rest after : List Char} {value : Value}
    (h : readScalar c rest = some (value, after)) : after.length ≤ rest.length := by
  unfold readScalar at h
  split at h
  · obtain ⟨⟨text, tail⟩, found, same⟩ := Option.map_eq_some_iff.1 h
    simp only [Prod.mk.injEq] at same
    obtain ⟨_, rfl⟩ := same
    exact Nat.le_of_lt (length_of_readString found)
  · simp only [Option.some.injEq, Prod.mk.injEq] at h
    obtain ⟨_, rfl⟩ := h
    simp only [List.length_cons]; omega
  · simp only [Option.some.injEq, Prod.mk.injEq] at h
    obtain ⟨_, rfl⟩ := h
    simp only [List.length_cons]; omega
  · simp only [Option.some.injEq, Prod.mk.injEq] at h
    obtain ⟨_, rfl⟩ := h
    simp only [List.length_cons]; omega
  · obtain ⟨n, _, same⟩ := Option.map_eq_some_iff.1 h
    simp only [Prod.mk.injEq] at same
    obtain ⟨_, rfl⟩ := same
    exact length_dropWhile_le _ _

/-- Reads the tokens of a text; `before` holds those read, newest first. -/
def lexFrom (before : List Token) : List Char → Option (List Token)
  | [] => some before.reverse
  | c :: rest =>
    if isSpace c then lexFrom before rest
    else match mark? c with
      | some token => lexFrom (token :: before) rest
      | none =>
        match _found : readScalar c rest with
        | none => none
        | some (value, after) => lexFrom (.scalar value :: before) after
termination_by text => text.length
decreasing_by
  · simp
  · simp
  · have := length_of_readScalar _found
    simp only [List.length_cons]
    omega

/-- The tokens of a text. -/
def lex (text : List Char) : Option (List Token) := lexFrom [] text

end SnesMusic.Json
