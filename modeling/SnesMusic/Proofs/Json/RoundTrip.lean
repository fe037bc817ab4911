import SnesMusic.Json.Printer
import SnesMusic.Json.Reader

/-!
# Written values read back

The text of a value is read as that value: the text falls apart into the tokens the value is made of
(`lexFrom_chars`), and the machine builds the value from them (`run_tokens`). A number that is
marked as plain but has an exponent is the only thing that has no text of its own, which
`Value.isRegular` excludes. Main statement: `Value.ofText?_toText`.
-/
namespace SnesMusic.Json

/-! ### Strings -/

theorem hexValue?_digitChar {digit : Nat} (small : digit < 16) :
    hexValue? digit.digitChar = some digit := by
  have all : ∀ d : Fin 16, hexValue? d.val.digitChar = some d.val := by decide
  exact all ⟨digit, small⟩

theorem unit?_of_control {code : Nat} (control : code < 32) :
    unit? '0' '0' (code / 16).digitChar (code % 16).digitChar = some code := by
  have zero : hexValue? '0' = some 0 := by decide
  have high := hexValue?_digitChar (show code / 16 < 16 by omega)
  have low := hexValue?_digitChar (show code % 16 < 16 by omega)
  have value : ((0 * 16 + 0) * 16 + code / 16) * 16 + code % 16 = code := by omega
  simp only [unit?, zero, high, low, Option.bind_eq_bind, Option.bind_some, value]
  rfl

/-- A character is read back from the way it is written. -/
theorem readString_escape (before : List Char) (c : Char) (rest : List Char) :
    readString (some before) (escape c ++ rest) = readString (some (c :: before)) rest := by
  unfold escape
  split
  case h_8 quote backslash _ _ _ _ _ =>
    split
    · rename_i control
      have small : c.toNat < 32 := control
      have high : isHighSurrogate c.toNat = false := by
        rw [isHighSurrogate, decide_eq_false (by omega), Bool.false_and]
      have low : isLowSurrogate c.toNat = false := by
        rw [isLowSurrogate, decide_eq_false (by omega), Bool.false_and]
      simp only [List.cons_append, List.nil_append]
      rw [readString.eq_3, unit?_of_control small]
      simp only [high, low, Bool.false_eq_true, if_false, Char.ofNat_toNat]
      rfl
    · rename_i printed
      rw [List.singleton_append, readString.eq_5 _ _ _ quote
        (fun _ _ _ _ _ same => absurd same backslash) (fun _ _ same => absurd same backslash),
        if_neg (not_or.mpr ⟨printed, backslash⟩)]
      rfl
  all_goals
    simp only [List.cons_append, List.nil_append]
    rw [readString.eq_4 _ _ _ (by simp)]
    rfl

theorem readString_flatMap_escape (before text rest : List Char) :
    readString (some before) (text.flatMap escape ++ '\x22' :: rest) =
      some (some (before.reverse ++ text), rest) := by
  induction text generalizing before with
  | nil =>
    rw [List.flatMap_nil, List.nil_append, readString.eq_2, List.append_nil]
    rfl
  | cons c text ih =>
    rw [List.flatMap_cons, List.append_assoc, readString_escape, ih]
    simp

/-! ### Numbers -/

theorem isDigit_of_mem {n : Nat} : ∀ c ∈ Nat.toDigits 10 n, c.isDigit = true :=
  fun _ member => Nat.isDigit_of_mem_toDigits (by decide) (by decide) member

theorem digitsValue_toDigits (n : Nat) : digitsValue (Nat.toDigits 10 n) = n := by
  have value := Nat.ofDigitChars_ten_toDigits (n := n)
  rw [Nat.ofDigitChars_eq_foldl] at value
  simp only [Nat.mul_comm 10] at value
  exact value

/-- Only the number zero begins with a zero. -/
theorem eq_zero_of_head?_toDigits {n : Nat} (zero : (Nat.toDigits 10 n).head? = some '0') :
    n = 0 := by
  induction n using Nat.strongRecOn with
  | ind n ih =>
    by_cases short : n < 10
    · rw [Nat.toDigits_of_lt_base short] at zero
      exact Nat.digitChar_eq_zero.mp (Option.some.inj zero)
    · rw [Nat.toDigits_of_base_le (by decide) (by omega), List.head?_append] at zero
      obtain front | ⟨empty, -⟩ := Option.or_eq_some_iff.mp zero
      · have := ih (n / 10) (by omega) front
        omega
      · exact absurd (List.head?_eq_none_iff.mp empty) Nat.toDigits_ne_nil

/-- The characters of a number behind its digits. -/
def Number.tail (n : Number) : List Char :=
  if n.plain then []
  else 'e' :: (if n.exponent < 0 then ['-'] else []) ++ Nat.toDigits 10 n.exponent.natAbs

/-- A number that has a text. -/
def Number.isRegular (n : Number) : Bool := !n.plain || n.exponent == 0

theorem isEmpty_toDigits (n : Nat) : (Nat.toDigits 10 n).isEmpty = false :=
  List.isEmpty_eq_false_iff.mpr Nat.toDigits_ne_nil

theorem all_isDigit_toDigits (n : Nat) : (Nat.toDigits 10 n).all Char.isDigit = true :=
  List.all_eq_true.mpr isDigit_of_mem

theorem exponent?_negative (n : Nat) :
    exponent? ('e' :: '-' :: Nat.toDigits 10 n) = some (-(n : Int)) := by
  simp [exponent?, isEmpty_toDigits, all_isDigit_toDigits, digitsValue_toDigits]

theorem exponent?_positive (n : Nat) : exponent? ('e' :: Nat.toDigits 10 n) = some (n : Int) := by
  have first : ∀ c rest, Nat.toDigits 10 n = c :: rest → c.isDigit = true :=
    fun c rest same => isDigit_of_mem c (same ▸ List.mem_cons_self)
  have value : some (digitsValue (Nat.toDigits 10 n) : Int) = some (n : Int) := by
    rw [digitsValue_toDigits]
  simp only [exponent?, ne_eq, not_true_eq_false, false_and, if_false]
  split
  · exact absurd (first _ _ ‹_›) (by decide)
  · exact absurd (first _ _ ‹_›) (by decide)
  · simpa [isEmpty_toDigits, all_isDigit_toDigits] using value

theorem exponent?_tail {n : Number} (regular : n.isRegular = true) :
    exponent? n.tail = some n.exponent := by
  unfold Number.tail
  cases plain : n.plain with
  | true =>
    have zero : n.exponent = 0 := by simpa [Number.isRegular, plain] using regular
    rw [zero]
    rfl
  | false =>
    by_cases negative : n.exponent < 0
    · have value : -(n.exponent.natAbs : Int) = n.exponent := by omega
      simp only [negative, Bool.false_eq_true, if_false, if_true, List.cons_append,
        List.nil_append, exponent?_negative, value]
    · have value : (n.exponent.natAbs : Int) = n.exponent := by omega
      simp only [negative, Bool.false_eq_true, if_false, List.nil_append, List.cons_append,
        exponent?_positive, value]

theorem takeWhile_append {p : Char → Bool} {text rest : List Char} (inside : ∀ c ∈ text, p c = true)
    (outside : ∀ c ∈ rest.head?, p c = false) : (text ++ rest).takeWhile p = text := by
  rw [List.takeWhile_append_of_pos inside]
  cases rest with
  | nil => simp
  | cons c rest => rw [List.takeWhile_cons_of_neg (by simp [outside c rfl]), List.append_nil]

theorem dropWhile_append {p : Char → Bool} {text rest : List Char} (inside : ∀ c ∈ text, p c = true)
    (outside : ∀ c ∈ rest.head?, p c = false) : (text ++ rest).dropWhile p = rest := by
  rw [List.dropWhile_append_of_pos inside]
  cases rest with
  | nil => rfl
  | cons c rest => rw [List.dropWhile_cons_of_neg (by simp [outside c rfl])]

/-- Where the digits of a number end, its tail begins. -/
theorem head?_tail {n : Number} : ∀ c ∈ n.tail.head?, c.isDigit = false ∧ c ≠ '.' := by
  unfold Number.tail
  split <;> simp

/-- A number behind its sign. -/
def unsigned? (negative : Bool) (text : List Char) : Option Number :=
  let whole := text.takeWhile Char.isDigit
  let rest := text.dropWhile Char.isDigit
  if whole.isEmpty || (whole.head? == some '0' && 1 < whole.length) then none
  else do
    let (fraction, after) ← fraction? rest
    let exponent ← exponent? after
    return {
      negative
      mantissa := digitsValue (whole ++ fraction)
      exponent := exponent - fraction.length
      plain := rest.isEmpty }

theorem number?_of_ne {text : List Char} (unsigned : ∀ rest, text ≠ '-' :: rest) :
    number? text = unsigned? false text := by
  unfold number?
  split
  rename_i same
  split at same
  · exact absurd rfl (unsigned _)
  · rw [Prod.mk.injEq] at same
    rw [← same.1, ← same.2]
    rfl

theorem unsigned?_chars {n : Number} (regular : n.isRegular = true) (negative : Bool) :
    unsigned? negative (Nat.toDigits 10 n.mantissa ++ n.tail) = some { n with negative } := by
  have whole : (Nat.toDigits 10 n.mantissa ++ n.tail).takeWhile Char.isDigit =
      Nat.toDigits 10 n.mantissa :=
    takeWhile_append isDigit_of_mem fun c member => (head?_tail c member).1
  have rest : (Nat.toDigits 10 n.mantissa ++ n.tail).dropWhile Char.isDigit = n.tail :=
    dropWhile_append isDigit_of_mem fun c member => (head?_tail c member).1
  have leading : ((Nat.toDigits 10 n.mantissa).head? == some '0' &&
      1 < (Nat.toDigits 10 n.mantissa).length) = false := by
    rw [Bool.and_eq_false_imp]
    intro zero
    rw [eq_zero_of_head?_toDigits (beq_iff_eq.mp zero)]
    rfl
  have fraction : fraction? n.tail = some ([], n.tail) := by
    unfold fraction?
    split
    · rename_i same
      exact absurd rfl (head?_tail '.' (by rw [same]; rfl)).2
    · rfl
  have plain : n.tail.isEmpty = n.plain := by
    unfold Number.tail
    split <;> simp_all
  simp [unsigned?, whole, rest, isEmpty_toDigits, leading, fraction, exponent?_tail regular,
    digitsValue_toDigits, plain]

/-- A number is read back from its characters. -/
theorem number?_chars {n : Number} (regular : n.isRegular = true) : number? n.chars = some n := by
  have spelled : n.chars =
      (if n.negative then ['-'] else []) ++ (Nat.toDigits 10 n.mantissa ++ n.tail) := by
    rw [Number.chars, Number.tail, List.append_assoc]
  cases sign : n.negative with
  | true =>
    rw [spelled, sign]
    exact (unsigned?_chars regular true).trans (by rw [← sign])
  | false =>
    rw [spelled, sign]
    refine (number?_of_ne ?_).trans ((unsigned?_chars regular false).trans (by rw [← sign]))
    intro rest same
    cases digits : Nat.toDigits 10 n.mantissa with
    | nil => exact Nat.toDigits_ne_nil digits
    | cons c others =>
      have digit : c.isDigit = true := isDigit_of_mem c (digits ▸ List.mem_cons_self)
      simp only [digits, Bool.false_eq_true, if_false, List.nil_append, List.cons_append,
        List.cons.injEq] at same
      rw [same.1] at digit
      exact absurd digit (by decide)

/-! ### Scalars -/

/-- A text that goes on behind a number without being part of it. -/
def EndsNumber (rest : List Char) : Prop := ∀ c ∈ rest.head?, isNumberChar c = false

theorem endsNumber_cons {c : Char} {rest : List Char} (other : isNumberChar c = false) :
    EndsNumber (c :: rest) := by
  rintro _ ⟨⟩
  exact other

theorem isNumberChar_of_isDigit {c : Char} (digit : c.isDigit = true) : isNumberChar c = true := by
  simp [isNumberChar, digit]

theorem isNumberChar_of_mem {n : Number} : ∀ c ∈ n.chars, isNumberChar c = true := by
  have digits : ∀ m, ∀ c ∈ Nat.toDigits 10 m, isNumberChar c = true :=
    fun m c member => isNumberChar_of_isDigit (isDigit_of_mem c member)
  have sign : ∀ negative : Prop, ∀ [Decidable negative],
      ∀ c ∈ (if negative then ['-'] else []), isNumberChar c = true := by
    intro negative _ c member
    split at member
    · rw [List.mem_singleton.mp member]
      rfl
    · cases member
  intro c member
  simp only [Number.chars, List.mem_append, or_assoc] at member
  rcases member with member | member | member
  · exact sign _ c member
  · exact digits _ c member
  · split at member
    · cases member
    · simp only [List.cons_append, List.mem_cons, List.mem_append] at member
      rcases member with rfl | member | member
      · rfl
      · exact sign _ c member
      · exact digits _ c member

/-- Numbers begin with a digit or a sign, which no other token does. -/
theorem chars_eq_cons (n : Number) :
    ∃ c rest, n.chars = c :: rest ∧ (c.isDigit = true ∨ c = '-') := by
  rw [Number.chars]
  cases digits : Nat.toDigits 10 n.mantissa with
  | nil => exact absurd digits Nat.toDigits_ne_nil
  | cons d ds =>
    cases n.negative with
    | true => exact ⟨_, _, rfl, .inr rfl⟩
    | false => exact ⟨_, _, rfl, .inl (isDigit_of_mem d (digits ▸ List.mem_cons_self))⟩

theorem readScalar_number {n : Number} {c : Char} {chars rest : List Char}
    (regular : n.isRegular = true) (same : n.chars = c :: chars) (ends : EndsNumber rest) :
    readScalar c (chars ++ rest) = some (.number n, rest) := by
  have inside : ∀ d ∈ chars, isNumberChar d = true :=
    fun d member => isNumberChar_of_mem d (same ▸ List.mem_cons_of_mem c member)
  have first : isNumberChar c = true := isNumberChar_of_mem c (same ▸ List.mem_cons_self)
  have value : number? (c :: chars) = some n := same ▸ number?_chars regular
  unfold readScalar
  split
  all_goals first
    | exact absurd first (by decide)
    | rw [takeWhile_append inside ends, dropWhile_append inside ends, value]
      rfl

theorem readScalar_string (text : Option String) (rest : List Char) :
    readScalar '\x22' ((stringChars text).tail ++ rest) = some (.string text, rest) := by
  cases text with
  | some s =>
    have body : (stringChars (some s)).tail ++ rest =
        s.toList.flatMap escape ++ '\x22' :: rest := by
      simp [stringChars]
    rw [body, readScalar, readString_flatMap_escape]
    simp
  | none =>
    have unit : unit? 'd' '8' '0' '0' = some 0xD800 := by decide
    have body : (stringChars none).tail ++ rest =
        '\x5c' :: 'u' :: 'd' :: '8' :: '0' :: '0' :: '\x22' :: rest := rfl
    rw [body, readScalar, readString.eq_3, unit]
    have closing : readString none ('\x22' :: rest) = some (none, rest) := readString.eq_2 ..
    exact congrArg (Option.map _) closing

/-! ### Tokens -/

section Lexing

variable (before : List Token) {c : Char} {rest after : List Char}

theorem lexFrom_space (space : isSpace c = true) :
    lexFrom before (c :: rest) = lexFrom before rest := by
  rw [lexFrom.eq_2, if_pos space]

theorem lexFrom_mark {token : Token} (mark : mark? c = some token) (space : isSpace c = false) :
    lexFrom before (c :: rest) = lexFrom (token :: before) rest := by
  rw [lexFrom.eq_2, if_neg (by simp [space]), mark]

theorem lexFrom_scalar {value : Value} (other : mark? c = none) (space : isSpace c = false)
    (read : readScalar c rest = some (value, after)) :
    lexFrom before (c :: rest) = lexFrom (.scalar value :: before) after := by
  rw [lexFrom.eq_2, if_neg (by simp [space]), other]
  simp only
  split
  · rename_i failed
    rw [read] at failed
    cases failed
  · rename_i found
    rw [read] at found
    cases found
    rfl

theorem lexFrom_lineBreak (level : Nat) :
    lexFrom before (lineBreak level ++ rest) = lexFrom before rest := by
  have spaces : ∀ n, lexFrom before (List.replicate n ' ' ++ rest) = lexFrom before rest := by
    intro n
    induction n with
    | zero => rfl
    | succ n ih =>
      rw [List.replicate_succ, List.cons_append, lexFrom_space before rfl]
      exact ih
  rw [lineBreak, List.cons_append, lexFrom_space before rfl]
  exact spaces _

theorem lexFrom_number {n : Number} (regular : n.isRegular = true) (ends : EndsNumber rest) :
    lexFrom before (n.chars ++ rest) = lexFrom (.scalar (.number n) :: before) rest := by
  obtain ⟨c, chars, same, first⟩ := chars_eq_cons n
  have plain : mark? c = none ∧ isSpace c = false := by
    rcases first with digit | rfl
    · constructor
      · unfold mark?
        split <;> first | rfl | exact absurd digit (by decide)
      · have : ∀ d : Char, d.isDigit = false → c ≠ d := by
          rintro d other rfl
          rw [digit] at other
          cases other
        simp [isSpace, this]
    · exact ⟨rfl, rfl⟩
  rw [same, List.cons_append]
  exact lexFrom_scalar before plain.1 plain.2 (readScalar_number regular same ends)

theorem lexFrom_stringChars (text : Option String) :
    lexFrom before (stringChars text ++ rest) =
      lexFrom (.scalar (.string text) :: before) rest :=
  lexFrom_scalar before rfl rfl (readScalar_string text rest)

end Lexing

mutual

/-- Whether all numbers of a value have a text. -/
def Value.isRegular : Value → Bool
  | .number n => n.isRegular
  | .array items => areRegular items
  | .object members => membersRegular members
  | _ => true

def areRegular : List Value → Bool
  | [] => true
  | item :: rest => item.isRegular && areRegular rest

def membersRegular : List (Option String × Value) → Bool
  | [] => true
  | (_, value) :: rest => value.isRegular && membersRegular rest

end

mutual

/-- The tokens a value is made of. -/
def Value.tokens : Value → List Token
  | .array [] => [.openArray, .closeArray]
  | .array (item :: rest) => .openArray :: (item.tokens ++ itemTokens rest ++ [.closeArray])
  | .object [] => [.openObject, .closeObject]
  | .object ((key, value) :: rest) =>
    .openObject :: .scalar (.string key) :: .colon ::
      (value.tokens ++ memberTokens rest ++ [.closeObject])
  | value => [.scalar value]

/-- The tokens of further items of an array. -/
def itemTokens : List Value → List Token
  | [] => []
  | item :: rest => .comma :: (item.tokens ++ itemTokens rest)

/-- The tokens of further members of an object. -/
def memberTokens : List (Option String × Value) → List Token
  | [] => []
  | (key, value) :: rest =>
    .comma :: .scalar (.string key) :: .colon :: (value.tokens ++ memberTokens rest)

end

theorem endsNumber_itemChars {level : Nat} (items : List Value) {rest : List Char}
    (ends : EndsNumber rest) : EndsNumber (itemChars level items ++ rest) := by
  cases items with
  | nil => exact ends
  | cons item items => exact endsNumber_cons rfl

theorem endsNumber_memberChars {level : Nat} (members : List (Option String × Value))
    {rest : List Char} (ends : EndsNumber rest) :
    EndsNumber (memberChars level members ++ rest) := by
  cases members with
  | nil => exact ends
  | cons member members => exact endsNumber_cons rfl

theorem endsNumber_lineBreak (level : Nat) (rest : List Char) :
    EndsNumber (lineBreak level ++ rest) :=
  endsNumber_cons rfl

mutual

/-- The text of a value falls apart into its tokens, whatever follows it. -/
theorem lexFrom_chars (value : Value) (regular : value.isRegular = true) (level : Nat)
    (before : List Token) {rest : List Char} (ends : EndsNumber rest) :
    lexFrom before (value.chars level ++ rest) =
      lexFrom (value.tokens.reverse ++ before) rest := by
  match value with
  | .null | .bool true | .bool false => exact lexFrom_scalar before rfl rfl rfl
  | .number n => exact lexFrom_number before regular ends
  | .string text => exact lexFrom_stringChars before text
  | .array [] =>
    simp only [Value.chars, Value.tokens, List.cons_append, List.nil_append, List.reverse_cons,
      List.reverse_nil]
    rw [lexFrom_mark before rfl rfl, lexFrom_mark _ rfl rfl]
  | .array (item :: items) =>
    have split := Bool.and_eq_true_iff.mp regular
    simp only [Value.chars, Value.tokens, List.cons_append, List.append_assoc,
      List.reverse_cons, List.reverse_append, List.nil_append]
    rw [lexFrom_mark before rfl rfl, lexFrom_lineBreak,
      lexFrom_chars item split.1 _ _ (endsNumber_itemChars items (endsNumber_lineBreak _ _)),
      lexFrom_itemChars items split.2 _ _ (endsNumber_lineBreak _ _), lexFrom_lineBreak,
      lexFrom_mark _ rfl rfl]
    rfl
  | .object [] =>
    simp only [Value.chars, Value.tokens, List.cons_append, List.nil_append, List.reverse_cons,
      List.reverse_nil]
    rw [lexFrom_mark before rfl rfl, lexFrom_mark _ rfl rfl]
  | .object ((key, item) :: members) =>
    have split := Bool.and_eq_true_iff.mp regular
    simp only [Value.chars, Value.tokens, List.cons_append, List.append_assoc,
      List.reverse_cons, List.reverse_append, List.nil_append]
    rw [lexFrom_mark before rfl rfl, lexFrom_lineBreak, lexFrom_stringChars,
      lexFrom_mark _ rfl rfl, lexFrom_space _ rfl,
      lexFrom_chars item split.1 _ _ (endsNumber_memberChars members (endsNumber_lineBreak _ _)),
      lexFrom_memberChars members split.2 _ _ (endsNumber_lineBreak _ _), lexFrom_lineBreak,
      lexFrom_mark _ rfl rfl]
    rfl

theorem lexFrom_itemChars (items : List Value) (regular : areRegular items = true) (level : Nat)
    (before : List Token) {rest : List Char} (ends : EndsNumber rest) :
    lexFrom before (itemChars level items ++ rest) =
      lexFrom ((itemTokens items).reverse ++ before) rest := by
  match items with
  | [] => rfl
  | item :: items =>
    have split := Bool.and_eq_true_iff.mp regular
    simp only [itemChars, itemTokens, List.cons_append, List.append_assoc, List.reverse_cons,
      List.reverse_append]
    rw [lexFrom_mark before rfl rfl, lexFrom_lineBreak,
      lexFrom_chars item split.1 _ _ (endsNumber_itemChars items ends),
      lexFrom_itemChars items split.2 _ _ ends]
    rfl

theorem lexFrom_memberChars (members : List (Option String × Value))
    (regular : membersRegular members = true) (level : Nat) (before : List Token)
    {rest : List Char} (ends : EndsNumber rest) :
    lexFrom before (memberChars level members ++ rest) =
      lexFrom ((memberTokens members).reverse ++ before) rest := by
  match members with
  | [] => rfl
  | (key, item) :: members =>
    have split := Bool.and_eq_true_iff.mp regular
    simp only [memberChars, memberTokens, List.cons_append, List.append_assoc,
      List.reverse_cons, List.reverse_append, List.nil_append]
    rw [lexFrom_mark before rfl rfl, lexFrom_lineBreak, lexFrom_stringChars,
      lexFrom_mark _ rfl rfl, lexFrom_space _ rfl,
      lexFrom_chars item split.1 _ _ (endsNumber_memberChars members ends),
      lexFrom_memberChars members split.2 _ _ ends]

end

/-! ### The machine -/

theorem Reader.run_cons {r next : Reader} {token : Token} (steps : r.step token = some next)
    (rest : List Token) : r.run (token :: rest) = next.run rest := by
  rw [run, steps]

mutual

/-- From the tokens of a value the machine builds that value, whatever is open around it. -/
theorem run_tokens (value : Value) (mayClose : Bool) (frames : List Frame) (rest : List Token) :
    Reader.run ⟨.value mayClose, frames⟩ (value.tokens ++ rest) =
      Reader.run ⟨.next value, frames⟩ rest := by
  match value with
  | .null | .bool _ | .number _ | .string _ => exact Reader.run_cons rfl rest
  | .array [] => exact (Reader.run_cons rfl _).trans (Reader.run_cons rfl rest)
  | .array (item :: items) =>
    simp only [Value.tokens, List.cons_append, List.append_assoc, List.nil_append]
    rw [Reader.run_cons rfl, run_tokens item true, run_itemTokens items]
    rfl
  | .object [] => exact (Reader.run_cons rfl _).trans (Reader.run_cons rfl rest)
  | .object ((key, item) :: members) =>
    simp only [Value.tokens, List.cons_append, List.append_assoc, List.nil_append]
    rw [Reader.run_cons rfl, Reader.run_cons rfl, Reader.run_cons rfl, run_tokens item false,
      run_memberTokens members]
    rfl

theorem run_itemTokens (items : List Value) (item : Value) (before : List Value)
    (frames : List Frame) (rest : List Token) :
    Reader.run ⟨.next item, .array before :: frames⟩ (itemTokens items ++ .closeArray :: rest) =
      Reader.run ⟨.next (.array ((item :: before).reverse ++ items)), frames⟩ rest := by
  match items with
  | [] =>
    rw [List.append_nil]
    exact Reader.run_cons rfl rest
  | next :: items =>
    simp only [itemTokens, List.cons_append, List.append_assoc]
    rw [Reader.run_cons rfl, run_tokens next false, run_itemTokens items]
    simp

theorem run_memberTokens (members : List (Option String × Value)) (key : Option String)
    (value : Value) (before : List (Option String × Value)) (frames : List Frame)
    (rest : List Token) :
    Reader.run ⟨.next value, .object before key :: frames⟩
        (memberTokens members ++ .closeObject :: rest) =
      Reader.run ⟨.next (.object (((key, value) :: before).reverse ++ members)), frames⟩ rest := by
  match members with
  | [] =>
    rw [List.append_nil]
    exact Reader.run_cons rfl rest
  | (next, item) :: members =>
    simp only [memberTokens, List.cons_append, List.append_assoc]
    rw [Reader.run_cons rfl, Reader.run_cons rfl, Reader.run_cons rfl, run_tokens item false,
      run_memberTokens members]
    simp

end

/-- The text of a value is read as that value. -/
theorem Value.ofText?_toText {value : Value} (regular : value.isRegular = true) :
    Value.ofText? value.toText = some value := by
  have lexed : lex value.toText.toList = some value.tokens := by
    have spelled := lexFrom_chars value regular 0 [] (show EndsNumber [] by rintro _ ⟨⟩)
    rw [List.append_nil, List.append_nil] at spelled
    rw [Value.toText, String.toList_ofList, lex, spelled, lexFrom.eq_1, List.reverse_reverse]
  have built : Reader.run ⟨.value false, []⟩ value.tokens = some ⟨.next value, []⟩ := by
    have run := run_tokens value false [] []
    rwa [List.append_nil] at run
  rw [Value.ofText?, lexed, Option.bind_eq_bind, Option.bind_some, built]
  rfl

end SnesMusic.Json
