import SnesMusic.Json.Value

/-!
# Records

Records as JSON: objects with a member for each field in any order, or arrays of the fields in the
order of their declaration. Members that are no fields are ignored; a field that is there twice is
refused.
-/
namespace SnesMusic.Json

/-- A field of a record and what stands in for it where it is missing. -/
structure Field where
  name : String
  /-- Stands in where an object lacks the field. -/
  absent : Option Value := none
  /-- Stands in where an array ends before the field. -/
  beyond : Option Value := none

namespace Field

/-- A field that may be missing. -/
def withDefault (name : String) (value : Value) : Field :=
  { name, absent := some value, beyond := some value }

/-- The field's value among the members of an object. -/
def find? (members : List (Option String × Value)) (f : Field) : Option Value :=
  match members.filter (·.1 == some f.name) with
  | [] => f.absent
  | [(_, value)] => some value
  | _ => none

end Field

/-- The fields' values in an array. Surplus items are refused. -/
def positional? : List Field → List Value → Option (List Value)
  | [], [] => some []
  | [], _ :: _ => none
  | f :: fields, [] => do return (← f.beyond) :: (← positional? fields [])
  | _ :: fields, item :: items => (positional? fields items).map (item :: ·)

namespace Value

/-- The values of a record's fields, in the order of their declaration. -/
def fields? (fields : List Field) : Value → Option (List Value)
  | .object members => if members.all (·.1.isSome) then fields.mapM (·.find? members) else none
  | .array items => positional? fields items
  | _ => none

/-- The tag of a value of several kinds, and the value without it: the member named `key`, or the
first item of an array. -/
def tagged? (key : String) : Value → Option (String × Value)
  | .object members =>
    match members.filter (·.1 == some key) with
    | [(_, .string (some tag))] => some (tag, .object (members.filter (·.1 != some key)))
    | _ => none
  | .array (.string (some tag) :: items) => some (tag, .array items)
  | _ => none

/-- A number without sign below `limit`. -/
def nat? (limit : Nat) : Value → Option Nat
  | .number n => n.nat? limit
  | _ => none

/-- A number of `bits` bits with sign. -/
def int? (bits : Nat) : Value → Option Int
  | .number n => n.int? bits
  | _ => none

def bool? : Value → Option Bool
  | .bool b => some b
  | _ => none

def text? : Value → Option String
  | .string text => text
  | _ => none

/-- The items of an array, each read by `item?`. -/
def list? {α : Type} (item? : Value → Option α) : Value → Option (List α)
  | .array items => items.mapM item?
  | _ => none

/-- A value that may be null. -/
def option? {α : Type} (some? : Value → Option α) : Value → Option (Option α)
  | .null => some none
  | v => (some? v).map some

end Value
end SnesMusic.Json
