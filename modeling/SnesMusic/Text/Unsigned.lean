/-!
# Unsigned numerals

The grammar of an unsigned numeral: an optional plus sign and at least one digit of the radix.
Leading zeros count for nothing; blanks, separators and minus signs are refused. `numeral` also says
why.
-/
namespace SnesMusic.Text

/-- Why a text is no numeral below the given limit. -/
inductive NumeralFault where
  | empty
  | invalidDigit
  | tooLarge
  deriving DecidableEq, Repr

def NumeralFault.message : NumeralFault → String
  | .empty => "cannot parse integer from empty string"
  | .invalidDigit => "invalid digit found in string"
  | .tooLarge => "number too large to fit in target type"

/-- The value of a digit, letters of either case counting from ten. -/
def digitValue (radix : Nat) (c : Char) : Option Nat :=
  let value :=
    if '0' ≤ c ∧ c ≤ '9' then c.toNat - 48
    else if 'A' ≤ c ∧ c ≤ 'Z' then c.toNat - 55
    else if 'a' ≤ c ∧ c ≤ 'z' then c.toNat - 87
    else radix
  if value < radix then some value else none

/-- Reads the digits after those that made `value`. Of two faults the one further left is reported,
and of two at the same digit the invalid digit. -/
def digits (radix limit : Nat) (value : Nat) : List Char → Except NumeralFault Nat
  | [] => .ok value
  | c :: rest =>
    match digitValue radix c with
    | none => .error .invalidDigit
    | some d =>
      if value * radix + d < limit then digits radix limit (value * radix + d) rest
      else .error .tooLarge

/-- A numeral with a value below `limit`. A sign without digits is an invalid digit. -/
def numeral (radix limit : Nat) : List Char → Except NumeralFault Nat
  | [] => .error .empty
  | ['+'] => .error .invalidDigit
  | '+' :: rest => digits radix limit 0 rest
  | text => digits radix limit 0 text

/-- The numeral's value, for callers that do not report why there is none. -/
def numeral? (radix limit : Nat) (text : List Char) : Option Nat :=
  (numeral radix limit text).toOption

end SnesMusic.Text
