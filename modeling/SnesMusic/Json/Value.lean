/-!
# JSON values

Values as a text spells them: numbers keep their digits and exponent, members keep their order and
may repeat. A string with an escape for half of a surrogate pair is well formed but stands for no
text.
-/
namespace SnesMusic.Json

/-- The number `mantissa * 10 ^ exponent`, negated if so marked. A `plain` number was written
without point and exponent. -/
structure Number where
  negative : Bool := false
  mantissa : Nat
  exponent : Int := 0
  plain : Bool := true
  deriving DecidableEq, Repr

inductive Value where
  | null
  | bool (b : Bool)
  | number (n : Number)
  | string (text : Option String)
  | array (items : List Value)
  | object (members : List (Option String × Value))

namespace Number

def ofNat (n : Nat) : Number := { mantissa := n }

def ofInt (n : Int) : Number := { negative := n < 0, mantissa := n.natAbs }

/-- The value of a plain number without sign below `limit`. -/
def nat? (limit : Nat) (n : Number) : Option Nat :=
  if n.plain && !n.negative && n.mantissa < limit then some n.mantissa else none

/-- The value of a plain number of `bits` bits with sign. Zero has no sign. -/
def int? (bits : Nat) (n : Number) : Option Int :=
  if !n.plain then none
  else if n.negative then
    if n.mantissa ≠ 0 ∧ n.mantissa ≤ 1 <<< (bits - 1) then some (-n.mantissa) else none
  else if n.mantissa < 1 <<< (bits - 1) then some n.mantissa
  else none

/-- Numbers from here on round to no finite number of double precision. -/
def overflowBound : Nat := 1 <<< 1024 - 1 <<< 970

/-- Whether a number has a finite value in double precision. Numbers whose length settles it are not
multiplied out. -/
def isFinite (n : Number) : Bool :=
  if n.mantissa = 0 then true
  else
    let length : Int := (Nat.toDigits 10 n.mantissa).length + n.exponent
    if length < 300 then true
    else if 320 < length then false
    else if 0 ≤ n.exponent then n.mantissa * Nat.pow 10 n.exponent.toNat < overflowBound
    else n.mantissa < overflowBound * Nat.pow 10 (-n.exponent).toNat

end Number

namespace Value

def nat (n : Nat) : Value := .number (.ofNat n)

def int (n : Int) : Value := .number (.ofInt n)

def text (s : String) : Value := .string (some s)

/-- An object with the given members. -/
def record (members : List (String × Value)) : Value :=
  .object (members.map fun (key, value) => (some key, value))

mutual

/-- Whether all texts and numbers of a value have a meaning and it nests at most `levels` deep. -/
def isSound (levels : Nat) : Value → Bool
  | .null | .bool _ => true
  | .number n => n.isFinite
  | .string text => text.isSome
  | .array items => 0 < levels && areSound (levels - 1) items
  | .object members => 0 < levels && membersSound (levels - 1) members

def areSound (levels : Nat) : List Value → Bool
  | [] => true
  | item :: rest => item.isSound levels && areSound levels rest

def membersSound (levels : Nat) : List (Option String × Value) → Bool
  | [] => true
  | (key, value) :: rest => key.isSome && value.isSound levels && membersSound levels rest

end

end Value
end SnesMusic.Json
