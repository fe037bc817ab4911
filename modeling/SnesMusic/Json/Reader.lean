import SnesMusic.Json.Token

/-!
# Reading JSON

The grammar of values as a machine over tokens: a stack of the arrays and objects that are open, and
what may come next. Nesting is limited by nothing but the text.
-/
namespace SnesMusic.Json

/-- An open array or object with what was read of it, newest first. -/
inductive Frame where
  | array (before : List Value)
  | object (before : List (Option String × Value)) (key : Option String)

/-- What may come next. -/
inductive Expectation where
  /-- A value, or the end of the array that was just opened. -/
  | value (mayClose : Bool)
  /-- The key of a member, or the end of the object that was just opened. -/
  | key (before : List (Option String × Value)) (mayClose : Bool)
  | colon (before : List (Option String × Value)) (key : Option String)
  /-- A value is complete; a separator or the end of what is open follows. -/
  | next (value : Value)

structure Reader where
  expected : Expectation
  frames : List Frame

namespace Reader

/-- Takes a token; none where the grammar does not allow it. -/
def step (r : Reader) (token : Token) : Option Reader :=
  match r.expected, token, r.frames with
  | .value _, .scalar v, frames => some ⟨.next v, frames⟩
  | .value _, .openArray, frames => some ⟨.value true, .array [] :: frames⟩
  | .value _, .openObject, frames => some ⟨.key [] true, frames⟩
  | .value true, .closeArray, .array _ :: frames => some ⟨.next (.array []), frames⟩
  | .key before _, .scalar (.string key), frames => some ⟨.colon before key, frames⟩
  | .key _ true, .closeObject, frames => some ⟨.next (.object []), frames⟩
  | .colon before key, .colon, frames => some ⟨.value false, .object before key :: frames⟩
  | .next v, .comma, .array before :: frames =>
    some ⟨.value false, .array (v :: before) :: frames⟩
  | .next v, .closeArray, .array before :: frames =>
    some ⟨.next (.array (v :: before).reverse), frames⟩
  | .next v, .comma, .object before key :: frames =>
    some ⟨.key ((key, v) :: before) false, frames⟩
  | .next v, .closeObject, .object before key :: frames =>
    some ⟨.next (.object ((key, v) :: before).reverse), frames⟩
  | _, _, _ => none

/-- Takes tokens in order. -/
def run (r : Reader) : List Token → Option Reader
  | [] => some r
  | token :: rest =>
    match r.step token with
    | none => none
    | some r => r.run rest

/-- The value that was read, when it is complete. -/
def result? (r : Reader) : Option Value :=
  match r.expected, r.frames with
  | .next v, [] => some v
  | _, _ => none

end Reader

/-- The value of a text that holds one value and nothing else. -/
def Value.ofText? (text : String) : Option Value := do
  let tokens ← lex text.toList
  let r ← Reader.run ⟨.value false, []⟩ tokens
  r.result?

end SnesMusic.Json
