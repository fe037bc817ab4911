/-!
# Glob patterns

Patterns over the bytes of a name, matched as a whole: `*` is any run without a slash, `**` as a
whole path component or at the end any run at all, `?` any byte but a slash, `[a-z]` and `[!a-z]` a
set of bytes, `{a,b}` a choice, a backslash quotes, and a leading `!` negates.

Pattern and name are read side by side. Where they part, the last star takes one more byte and
reading goes on behind it. A choice is made for good: of its options the one that reaches furthest
counts.
-/
namespace SnesMusic.Glob

abbrev Bytes := Array UInt8

def slash : UInt8 := 0x2F

/-! ### Bytes and sets -/

/-- A quoted letter may stand for a control character. -/
def control (byte : UInt8) : UInt8 :=
  if byte = 0x62 then 0x08
  else if byte = 0x6E then 0x0A
  else if byte = 0x72 then 0x0D
  else if byte = 0x74 then 0x09
  else byte

/-- The first byte of a pattern, unquoted, and what follows it. A backslash at the end quotes
nothing and is ill-formed. -/
def unquote : List UInt8 → Option (UInt8 × List UInt8)
  | [] => none
  | 0x5C :: byte :: rest => some (control byte, rest)
  | [0x5C] => none
  | byte :: rest => some (byte, rest)

theorem length_of_unquote {text rest : List UInt8} {byte : UInt8}
    (h : unquote text = some (byte, rest)) : rest.length < text.length := by
  unfold unquote at h
  split at h <;> simp_all only [reduceCtorEq, Option.some.injEq, Prod.mk.injEq, List.length_cons]
  · omega
  · omega

/-- Whether a byte is in a bracketed set, and what follows the closing bracket, which the first
member cannot be. `found` tells whether a member before has held the byte. -/
def readSet (byte : UInt8) (first found : Bool) (text : List UInt8) : Option (Bool × List UInt8) :=
  if !first && text.head? == some 0x5D then some (found, text.tail)
  else match _low : unquote text with
    | none => none
    | some (low, rest) =>
      match _shape : rest with
      | dash :: high :: after =>
        if dash = 0x2D ∧ high ≠ 0x5D then
          match _high : unquote (high :: after) with
          | none => none
          | some (top, tail) => readSet byte false (found || (low ≤ byte && byte ≤ top)) tail
        else readSet byte false (found || low == byte) (dash :: high :: after)
      | short => readSet byte false (found || low == byte) short
termination_by text.length
decreasing_by
  · have first := length_of_unquote _low
    have second := length_of_unquote _high
    simp only [List.length_cons] at first second
    omega
  · exact length_of_unquote _low
  · exact length_of_unquote _low

/-- Where a search through an open brace ended: behind a comma of that brace, or behind its end. -/
inductive BraceEnd where
  | option (index : Nat)
  | close (index : Nat)
  deriving DecidableEq, Repr

/-- Looks for the end of the innermost of `depth` open braces, and for a comma in it if `options`
asks for that. Sets are passed over. An open brace without end is ill-formed. -/
def skipBraces (options : Bool) (depth : Nat) (inSet : Bool) (index : Nat) :
    List UInt8 → Option BraceEnd
  | [] => none
  | [0x5C] => none
  | 0x5C :: _ :: rest => skipBraces options depth inSet (index + 2) rest
  | byte :: rest =>
    if byte = 0x5D then skipBraces options depth false (index + 1) rest
    else if inSet then skipBraces options depth true (index + 1) rest
    else if byte = 0x5B then skipBraces options depth true (index + 1) rest
    else if byte = 0x7B then skipBraces options (depth + 1) false (index + 1) rest
    else if byte = 0x7D then
      if depth ≤ 1 then some (.close (index + 1))
      else skipBraces options (depth - 1) false (index + 1) rest
    else if options && byte == 0x2C && depth == 1 then some (.option (index + 1))
    else skipBraces options depth false (index + 1) rest

/-! ### Matching -/

/-- A star of the pattern, and where in the name what follows it is tried next. A star cannot be
tried again when that is zero, or beyond the end. -/
structure Star where
  pattern : Nat := 0
  name : Nat := 0
  deriving DecidableEq, Repr

/-- How far pattern and name are read, the last star, and the last star that crosses slashes. -/
structure Place where
  pattern : Nat := 0
  name : Nat := 0
  star : Star := {}
  wide : Star := {}
  deriving DecidableEq, Repr

/-- A matching under way: the places of the open braces, innermost first, and how far in the name
the options reached that were matched in them. -/
structure Matcher where
  place : Place
  braces : List Place := []
  reach : Nat := 0
  deriving DecidableEq, Repr

/-- What came of a step. -/
inductive Step where
  | next (m : Matcher)
  | mismatch (m : Matcher)
  | illFormed
  deriving DecidableEq, Repr

/-- Braces may be nested up to this depth. -/
def maxBraces : Nat := 10

namespace Matcher

/-- Moves on in the pattern and the name. -/
def advance (m : Matcher) (pattern name : Nat) : Matcher :=
  { m with place := { m.place with pattern, name } }

/-- Searches an open brace from the place in the pattern on. -/
def braceEnd (pattern : Bytes) (options : Bool) (p : Place) : Option BraceEnd :=
  skipBraces options 1 false p.pattern (pattern.toList.drop p.pattern)

/-- The last of several double stars that only slashes part. -/
def lastDouble (index : Nat) : List UInt8 → Nat
  | 0x2F :: 0x2A :: 0x2A :: rest => lastDouble (index + 3) rest
  | _ => index

/-- The place behind a double star at `index`. It crosses slashes at the end of the pattern and as a
whole component; there the slash behind it is optional. -/
def behindDouble (pattern name : Bytes) (p : Place) (index : Nat) : Place :=
  let behind := index + 2
  if behind = pattern.size then { p with pattern := behind, wide := p.star }
  else if (index = 0 ∨ pattern[index - 1]? = some slash) ∧ pattern[behind]? = some slash then
    let optional := p.name = 0 ∨ (p.name < name.size ∧ name[p.name - 1]? = some slash)
    { p with pattern := if optional then behind + 1 else behind, wide := p.star }
  else { p with pattern := behind }

/-- A star that would have to cross a slash gives way to the last one that may, or is given up. -/
def atSlash (name : Bytes) (p : Place) : Place :=
  if p.wide.name ≠ p.star.name ∧ name[p.name]? = some slash then
    if 0 < p.wide.name ∧ p.name + 1 < name.size then
      { p with pattern := p.wide.pattern, star := { p.star with pattern := p.wide.pattern } }
    else { p with star := { p.star with name := 0 } }
  else p

/-- Reads a star. One that ends an option ends the choice. -/
def readStar (pattern name : Bytes) (m : Matcher) : Step :=
  let double := pattern[m.place.pattern + 1]? = some 0x2A
  let index :=
    if double then lastDouble m.place.pattern (pattern.toList.drop (m.place.pattern + 2))
    else m.place.pattern
  let p := { m.place with star := { pattern := index, name := m.place.name + 1 } }
  let p := atSlash name <|
    if double then behindDouble pattern name p index else { p with pattern := index + 1 }
  let following := pattern[p.pattern]?
  if !m.braces.isEmpty && (following == some 0x2C || following == some 0x7D) then
    match braceEnd pattern false p with
    | some (.close index) | some (.option index) =>
      .next { m with place := { p with pattern := index } }
    | none => .illFormed
  else .next { m with place := p }

/-- Leaves the innermost brace. Reading goes on where its options reached. -/
def leave (m : Matcher) (outer : Place) (others : List Place) (pattern : Nat) : Matcher :=
  { place := { pattern, name := m.reach, star := outer.star, wide := outer.wide }
    braces := others
    reach := if others.isEmpty then 0 else m.reach }

/-- Reads a byte that stands for itself, or an escape. -/
def readByte (pattern : Bytes) (m : Matcher) (byte : UInt8) : Step :=
  match unquote (pattern.toList.drop m.place.pattern) with
  | none => .illFormed
  | some (expected, rest) =>
    let behind := pattern.size - rest.length
    if expected = byte then
      let p := { m.place with pattern := behind, name := m.place.name + 1 }
      .next { m with place :=
        if expected = slash then p else { p with wide := { p.wide with name := 0 } } }
    else .mismatch (m.advance (behind - 1) m.place.name)

/-- Reads a set. -/
def readClass (pattern : Bytes) (m : Matcher) (byte : UInt8) : Step :=
  let text := pattern.toList.drop (m.place.pattern + 1)
  let negated := text.head? == some 0x5E || text.head? == some 0x21
  match readSet byte true false (if negated then text.tail else text) with
  | none => .illFormed
  | some (found, rest) =>
    let behind := pattern.size - rest.length
    if found ≠ negated then .next (m.advance behind (m.place.name + 1))
    else .mismatch (m.advance behind m.place.name)

/-- Opens a brace. Its options are matched on their own. -/
def openBrace (m : Matcher) : Step :=
  if maxBraces ≤ m.braces.length then .illFormed
  else .next {
    place := { pattern := m.place.pattern + 1, name := m.place.name }
    braces := m.place :: m.braces
    reach := m.reach }

/-- Reads what the pattern says next. -/
def step (pattern name : Bytes) (m : Matcher) : Step :=
  match pattern[m.place.pattern]?, name[m.place.name]?, m.braces with
  | none, _, _ => .mismatch m
  | some 0x2A, _, _ => readStar pattern name m
  | some 0x3F, some byte, _ =>
    if byte = slash then .mismatch m
    else .next (m.advance (m.place.pattern + 1) (m.place.name + 1))
  | some 0x5B, some byte, _ => readClass pattern m byte
  | some 0x7B, some _, _ => openBrace m
  | some 0x7D, _, outer :: others =>
    .next (({ m with reach := max m.reach m.place.name }).leave outer others (m.place.pattern + 1))
  | some 0x2C, _, outer :: _ => .next { m with
      place := { pattern := m.place.pattern + 1, name := outer.name }
      reach := max m.reach m.place.name }
  | some _, some byte, _ => readByte pattern m byte
  | some _, none, _ => .mismatch m

/-- The place where the last star takes one more byte, if it can. -/
def retry? (name : Bytes) (p : Place) : Option Place :=
  if 0 < p.star.name ∧ p.star.name ≤ name.size then
    some { p with pattern := p.star.pattern, name := p.star.name }
  else none

/-- Goes on after a mismatch: with the last star, the next option, the options matched before, or
the last star in front of the brace. -/
def recover (pattern name : Bytes) (m : Matcher) : Step :=
  match retry? name m.place, m.braces with
  | some p, _ => .next { m with place := p }
  | none, [] => .mismatch m
  | none, outer :: others =>
    match braceEnd pattern true m.place with
    | none => .illFormed
    | some (.option index) => .next (m.advance index outer.name)
    | some (.close index) =>
      if 0 < m.reach then .next (m.leave outer others index)
      else match retry? name outer with
        | some p => .next { m with place := p, braces := others }
        | none => .mismatch m

/-- Matches to the end, in at most `fuel` steps. An ill-formed pattern matches nothing, even
negated. -/
def run (pattern name : Bytes) (negated : Bool) : Nat → Matcher → Bool
  | 0, _ => false
  | fuel + 1, m =>
    if pattern.size ≤ m.place.pattern && name.size ≤ m.place.name then !negated
    else match step pattern name m with
      | .next m => run pattern name negated fuel m
      | .illFormed => false
      | .mismatch m =>
        match recover pattern name m with
        | .next m => run pattern name negated fuel m
        | .illFormed => false
        | .mismatch _ => negated

end Matcher

/-- More steps than a matching takes: within each brace, every place of the pattern is passed at
most once for each two places of stars in the name. -/
def stepBound (pattern name : Bytes) : Nat :=
  Nat.pow ((pattern.size + 2) * (name.size + 2) * (name.size + 2)) (maxBraces + 1)

/-- Whether the pattern matches the name. -/
def accepts (pattern name : String) : Bool :=
  let pattern := pattern.toUTF8.data
  let name := name.toUTF8.data
  let marks := (pattern.toList.takeWhile (· == 0x21)).length
  Matcher.run pattern name (marks % 2 == 1) (stepBound pattern name)
    { place := { pattern := marks } }

end SnesMusic.Glob
