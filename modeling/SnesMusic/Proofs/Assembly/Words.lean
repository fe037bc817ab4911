import SnesMusic.Assembly.Export
import SnesMusic.Assembly.Import

/-!
# Words read back

Every word that an exported song is written with is read as what it stands for, and as nothing else
that is tried before it: numbers (`number?_byteToken`, `number?_wordToken`, `number?_toString`),
pitches (`pitch?_noteToken`), durations (`durationValue_durationToken`) and commands
(`opcode?_commandName`). Their characters mean nothing else where they stand (`IsWord`).
-/
namespace SnesMusic

/-! ### Numerals -/

namespace Text

/-- Reading digits adds up their values. -/
theorem digits_of_values {radix limit value : Nat} {text : List Char} {values : List Nat}
    (positive : 0 < radix) (same : text.map (digitValue radix) = values.map some)
    (below : values.foldl (fun v d => v * radix + d) value < limit) :
    digits radix limit value text = .ok (values.foldl (fun v d => v * radix + d) value) := by
  induction values generalizing text value with
  | nil =>
    rw [List.map_nil, List.map_eq_nil_iff] at same
    rw [same]
    rfl
  | cons d rest ih =>
    cases text with
    | nil => simp at same
    | cons c others =>
      rw [List.map_cons, List.map_cons, List.cons.injEq] at same
      rw [List.foldl_cons] at below ⊢
      -- The value only grows with the digits that follow.
      have grows : ∀ (ds : List Nat) (v : Nat), v ≤ ds.foldl (fun v d => v * radix + d) v := by
        intro ds
        induction ds with
        | nil => exact fun v => Nat.le_refl v
        | cons e es ih =>
          intro v
          have first : v ≤ v * radix := Nat.le_mul_of_pos_right v positive
          exact Nat.le_trans (Nat.le_trans first (Nat.le_add_right _ e)) (ih _)
      have bound := grows rest (value * radix + d)
      rw [digits, same.1]
      simp only
      rw [if_pos (by omega)]
      exact ih same.2 below

/-- A text of digits is a numeral. -/
theorem numeral?_of_values {radix limit : Nat} {text : List Char} {values : List Nat}
    (positive : 0 < radix) (same : text.map (digitValue radix) = values.map some)
    (filled : text ≠ []) (below : values.foldl (fun v d => v * radix + d) 0 < limit) :
    numeral? radix limit text = some (values.foldl (fun v d => v * radix + d) 0) := by
  have read : numeral radix limit text = digits radix limit 0 text := by
    unfold numeral
    split
    · exact absurd rfl filled
    all_goals first
      | rfl
      | cases values with
        | nil => simp at same
        | cons d ds => simp [digitValue] at same
  rw [numeral?, read, digits_of_values positive same below]
  rfl

theorem digitValue_hexDigit {value : Nat} (small : value < 16) :
    digitValue 16 (hexDigit value) = some value := by
  have all : ∀ v : Fin 16, digitValue 16 (hexDigit v) = some v.val := by decide
  exact all ⟨value, small⟩

theorem toList_hexByte (byte : UInt8) :
    (hexByte byte).toList = [hexDigit (byte.toNat / 16), hexDigit (byte.toNat % 16)] := by
  rw [hexByte, String.toList_ofList]

theorem numeral?_hexByte (byte : UInt8) :
    numeral? 16 UInt32.size (hexByte byte).toList = some byte.toNat := by
  have bound := byte.toNat_lt
  have values : (hexByte byte).toList.map (digitValue 16) =
      [byte.toNat / 16, byte.toNat % 16].map some := by
    rw [toList_hexByte]
    simp only [List.map_cons, List.map_nil]
    rw [digitValue_hexDigit (by omega), digitValue_hexDigit (by omega)]
  have sum : [byte.toNat / 16, byte.toNat % 16].foldl (fun v d => v * 16 + d) 0 = byte.toNat := by
    simp only [List.foldl_cons, List.foldl_nil]
    omega
  rw [numeral?_of_values (by decide) values (by simp [hexByte]) (by
    rw [sum]
    unfold UInt32.size
    omega), sum]

theorem numeral?_hexWord (word : UInt16) :
    numeral? 16 UInt32.size (hexWord word).toList = some word.toNat := by
  have bound := word.toNat_lt
  have values : (hexWord word).toList.map (digitValue 16) =
      [word.toNat / 4096, word.toNat / 256 % 16, word.toNat / 16 % 16, word.toNat % 16].map
        some := by
    rw [hexWord, String.toList_ofList]
    simp only [List.map_cons, List.map_nil]
    rw [digitValue_hexDigit (by omega), digitValue_hexDigit (by omega),
      digitValue_hexDigit (by omega), digitValue_hexDigit (by omega)]
  have sum : [word.toNat / 4096, word.toNat / 256 % 16, word.toNat / 16 % 16,
      word.toNat % 16].foldl (fun v d => v * 16 + d) 0 = word.toNat := by
    simp only [List.foldl_cons, List.foldl_nil]
    omega
  rw [numeral?_of_values (by decide) values (by simp [hexWord]) (by
    rw [sum]
    unfold UInt32.size
    omega), sum]

/-- The value of a decimal digit. -/
theorem digitValue_of_isDigit {c : Char} (digit : c.isDigit = true) :
    digitValue 10 c = some (c.toNat - 48) := by
  have range : 48 ≤ c.toNat ∧ c.toNat ≤ 57 := Char.isDigit_iff_toNat.mp digit
  have between : '0' ≤ c ∧ c ≤ '9' := range
  unfold digitValue
  rw [if_pos between, if_pos (by omega)]

/-- The decimal digits of a number are a numeral of its value. -/
theorem numeral?_toDigits {n limit : Nat} (below : n < limit) :
    numeral? 10 limit (Nat.toDigits 10 n) = some n := by
  have values : (Nat.toDigits 10 n).map (digitValue 10) =
      ((Nat.toDigits 10 n).map (·.toNat - 48)).map some := by
    rw [List.map_map]
    apply List.map_congr_left
    intro c member
    exact digitValue_of_isDigit (Nat.isDigit_of_mem_toDigits (by decide) (by decide) member)
  have sum : ((Nat.toDigits 10 n).map (·.toNat - 48)).foldl (fun v d => v * 10 + d) 0 = n := by
    have value := Nat.ofDigitChars_ten_toDigits (n := n)
    rw [Nat.ofDigitChars_eq_foldl] at value
    simp only [Nat.mul_comm 10] at value
    rw [List.foldl_map]
    exact value
  rw [numeral?_of_values (by decide) values Nat.toDigits_ne_nil (sum.symm ▸ below), sum]

end Text

namespace Assembly

open Text Importer

/-! ### Numbers -/

theorem toList_byteToken (byte : UInt8) : (byteToken byte).toList =
    ['$', hexDigit (byte.toNat / 16), hexDigit (byte.toNat % 16)] := by
  rw [byteToken, String.toList_append, toList_hexByte]
  rfl

theorem number?_byteToken (byte : UInt8) : number? (byteToken byte) = some byte.toNat := by
  rw [number?, byteToken, String.toList_append]
  exact numeral?_hexByte byte

theorem number?_wordToken (word : UInt16) : number? (wordToken word) = some word.toNat := by
  rw [number?, wordToken, String.toList_append]
  exact numeral?_hexWord word

theorem number?_toString {n : Nat} (below : n < UInt32.size) : number? (toString n) = some n := by
  have digits : (toString n).toList = Nat.toDigits 10 n := Nat.toList_repr
  have each : ∀ c ∈ Nat.toDigits 10 n, c.isDigit = true :=
    fun c member => Nat.isDigit_of_mem_toDigits (by decide) (by decide) member
  have value := numeral?_toDigits below
  rw [number?, digits]
  cases text : Nat.toDigits 10 n with
  | nil => exact absurd text Nat.toDigits_ne_nil
  | cons c rest =>
    rw [text] at each value
    have first : c.isDigit = true := each c (List.mem_cons_self ..)
    unfold numberChars?
    split
    · rename_i same
      rw [List.cons.injEq] at same
      rw [same.1] at first
      exact absurd first (by decide)
    · rename_i same
      rw [List.cons.injEq] at same
      have second := each 'x' (by rw [same.2]; simp)
      exact absurd second (by decide)
    · rename_i same
      rw [List.cons.injEq] at same
      rw [← same.1, ← same.2, if_pos first]
      exact value
    · contradiction

theorem byteValue_byteToken (byte : UInt8) : byteValue (byteToken byte) = .ok byte := by
  rw [byteValue, number?_byteToken]
  simp only
  rw [if_pos byte.toNat_lt, UInt8.ofNat_toNat]

/-! ### Characters of words -/

/-- A character that words are made of. It means nothing else in a statement. -/
def isWordChar (c : Char) : Bool := isLabelChar c || c == '$' || c == '!' || c == '.'

/-- A word of a statement. -/
def IsWord (word : String) : Prop := word.toList ≠ [] ∧ ∀ c ∈ word.toList, isWordChar c = true

/-- A word that may name a label or a command. -/
def IsName (word : String) : Prop := word.toList ≠ [] ∧ ∀ c ∈ word.toList, isLabelChar c = true

instance (word : String) : Decidable (IsWord word) :=
  decidable_of_iff ((!word.toList.isEmpty && word.toList.all isWordChar) = true) (by
    simp [IsWord])

instance (word : String) : Decidable (IsName word) :=
  decidable_of_iff ((!word.toList.isEmpty && word.toList.all isLabelChar) = true) (by
    simp [IsName])

theorem isWordChar_of_isLabelChar {c : Char} (h : isLabelChar c = true) : isWordChar c = true := by
  simp [isWordChar, h]

theorem isBlank_of_isWordChar {c : Char} (h : isWordChar c = true) : isBlank c = false := by
  simp only [isWordChar, isLabelChar, Bool.or_eq_true, beq_iff_eq, or_assoc] at h
  rcases h with letter | rfl | rfl | rfl | rfl
  · have low : 48 ≤ c.toNat ∧ c.toNat ≤ 122 := by
      change (decide (65 ≤ c.toNat ∧ c.toNat ≤ 90) ||
        (decide (97 ≤ c.toNat) && decide (c.toNat ≤ 122)) ||
          (decide (48 ≤ c.toNat) && decide (c.toNat ≤ 57))) = true at letter
      simp only [Bool.or_eq_true, Bool.and_eq_true, decide_eq_true_eq] at letter
      omega
    simp only [isBlank, Bool.or_eq_false_iff, Bool.and_eq_false_iff, decide_eq_false_iff_not,
      beq_eq_false_iff_ne]
    omega
  all_goals decide

theorem isLabelChar_hexDigit {value : Nat} (small : value < 16) :
    isLabelChar (hexDigit value) = true := by
  have all : ∀ v : Fin 16, isLabelChar (hexDigit v) = true := by decide
  exact all ⟨value, small⟩

theorem IsName.isWord {word : String} (name : IsName word) : IsWord word :=
  ⟨name.1, fun c member => isWordChar_of_isLabelChar (name.2 c member)⟩

theorem IsName.append {word other : String} (name : IsName word) (more : IsName other) :
    IsName (word ++ other) := by
  constructor
  · rw [String.toList_append]
    exact List.append_ne_nil_of_left_ne_nil name.1 _
  · intro c member
    rw [String.toList_append, List.mem_append] at member
    rcases member with first | second
    · exact name.2 c first
    · exact more.2 c second

/-- A mark in front of a name makes a word. -/
theorem IsName.marked {mark word : String} (name : IsName word) (marks : IsWord mark) :
    IsWord (mark ++ word) := by
  constructor
  · rw [String.toList_append]
    exact List.append_ne_nil_of_right_ne_nil _ name.1
  · intro c member
    rw [String.toList_append, List.mem_append] at member
    rcases member with first | second
    · exact marks.2 c first
    · exact isWordChar_of_isLabelChar (name.2 c second)

theorem isName_toString (n : Nat) : IsName (toString n) := by
  have digits : (toString n).toList = Nat.toDigits 10 n := Nat.toList_repr
  constructor
  · rw [digits]
    exact Nat.toDigits_ne_nil
  · intro c member
    rw [digits] at member
    have digit : c.isDigit = true := Nat.isDigit_of_mem_toDigits (by decide) (by decide) member
    simp [isLabelChar, Char.isAlphanum, digit]

theorem isName_hexByte (byte : UInt8) : IsName (hexByte byte) := by
  have bound := byte.toNat_lt
  constructor
  · simp [toList_hexByte]
  · intro c member
    simp only [toList_hexByte, List.mem_cons, List.not_mem_nil, or_false] at member
    rcases member with rfl | rfl
    · exact isLabelChar_hexDigit (by omega)
    · exact isLabelChar_hexDigit (by omega)

theorem isName_hexWord (word : UInt16) : IsName (hexWord word) := by
  have bound := word.toNat_lt
  constructor
  · simp [hexWord]
  · intro c member
    simp only [hexWord, String.toList_ofList, List.mem_cons, List.not_mem_nil, or_false] at member
    rcases member with rfl | rfl | rfl | rfl
    all_goals exact isLabelChar_hexDigit (by omega)

theorem isWord_byteToken (byte : UInt8) : IsWord (byteToken byte) :=
  (isName_hexByte byte).marked (by decide)

theorem isWord_wordToken (word : UInt16) : IsWord (wordToken word) :=
  (isName_hexWord word).marked (by decide)

/-- What is decided for each byte is decided for all of them. -/
instance decidableForallByte {p : UInt8 → Prop} [DecidablePred p] : Decidable (∀ byte, p byte) :=
  decidable_of_iff (∀ n : Fin 256, p (UInt8.ofNat n.val)) (by
    constructor
    · intro all byte
      have same := all ⟨byte.toNat, byte.toNat_lt⟩
      rwa [UInt8.ofNat_toNat] at same
    · exact fun all n => all _)

/-! ### Notes -/

set_option maxRecDepth 4000 in
theorem pitch?_noteToken : ∀ pitch : UInt8, isPitch pitch = true →
    pitch? ((noteToken? pitch).getD (byteToken pitch)) = some pitch := by
  decide

/-- A sharp is not all of a token, so that its first character stays. -/
theorem cutSharp_cons {c : Char} (rest : List Char) (other : c.isDigit = false) :
    ∃ behind, (cutSharp (c :: rest)).1 = c :: behind := by
  unfold cutSharp
  split
  · rename_i d front reversed
    split
    · rename_i digit
      have whole : c :: rest = front.reverse ++ [d] ++ ['s'] := by
        rw [← List.reverse_reverse (c :: rest), reversed, List.reverse_cons, List.reverse_cons]
      cases body : front.reverse with
      | nil =>
        rw [body, List.nil_append, List.singleton_append, List.cons.injEq] at whole
        rw [whole.1, digit] at other
        contradiction
      | cons first others =>
        rw [body, List.cons_append, List.cons_append, List.cons.injEq] at whole
        exact ⟨others ++ [d], by rw [List.reverse_cons, body, List.cons_append, whole.1]⟩
    · exact ⟨rest, rfl⟩
  · exact ⟨rest, rfl⟩

/-- A number in hexadecimal is no note: no note begins with its mark. -/
theorem pitch?_of_mark {token : String} {digits : List Char} (text : token.toList = '$' :: digits) :
    pitch? token = none := by
  have other : ∀ word : String, word.toList.head? ≠ some '$' → token ≠ word := by
    intro word first same
    rw [← same, text] at first
    exact first rfl
  have letterless : ∀ letters sharp, step? ('$' :: letters) sharp = none := by
    intro letters sharp
    have none : stepTokens.idxOf? (String.ofList ('$' :: letters)) = none := by
      rw [List.idxOf?_eq_none_iff]
      intro member
      have all : ∀ word ∈ stepTokens, word.toList.head? ≠ some '$' := by decide
      apply all _ member
      rw [String.toList_ofList]
      rfl
    rw [step?, none]
  obtain ⟨behind, body⟩ := cutSharp_cons digits (by decide : '$'.isDigit = false)
  unfold pitch?
  rw [if_neg (other _ (by decide)), if_neg (other _ (by decide)), if_neg (other _ (by decide)),
    text]
  simp only
  rw [body, List.takeWhile_cons_of_pos (by decide), letterless]

theorem pitch?_byteToken (byte : UInt8) : pitch? (byteToken byte) = none :=
  pitch?_of_mark (toList_byteToken byte)

set_option maxRecDepth 4000 in
theorem isWord_noteToken : ∀ pitch : UInt8, isPitch pitch = true →
    IsWord ((noteToken? pitch).getD (byteToken pitch)) := by
  decide

/-! ### Durations -/

/-- A number in hexadecimal is no named duration. -/
theorem duration?_of_mark {token : String} {digits : List Char}
    (text : token.toList = '$' :: digits) : duration? token = none := by
  have unnamed : durations.find? (·.1 == token) = none := by
    rw [List.find?_eq_none]
    intro entry member same
    have all : ∀ entry ∈ durations, entry.1.toList.head? ≠ some '$' := by decide
    rw [beq_iff_eq] at same
    apply all entry member
    rw [same, text]
    rfl
  rw [duration?, text]
  exact congrArg (Option.map (·.2)) unnamed

theorem duration?_byteToken (byte : UInt8) : duration? (byteToken byte) = none :=
  duration?_of_mark (toList_byteToken byte)

theorem pitch?_durationToken (duration : UInt8) : pitch? (durationToken duration) = none := by
  rw [durationToken, durationName?]
  cases found : durations.find? (·.2 == duration) with
  | none => exact pitch?_byteToken duration
  | some entry =>
    have all : ∀ entry ∈ durations, pitch? ("!" ++ entry.1) = none := by decide
    exact all entry (List.mem_of_find?_eq_some found)

/-- A duration is read by its name, or as the number that it is. -/
theorem duration?_durationToken (duration : UInt8) :
    duration? (durationToken duration) = some duration ∨
      durationToken duration = byteToken duration := by
  rw [durationToken, durationName?]
  cases found : durations.find? (·.2 == duration) with
  | none => exact .inr rfl
  | some entry =>
    have all : ∀ entry ∈ durations, duration? ("!" ++ entry.1) = some entry.2 := by decide
    have same : entry.2 = duration := by simpa using List.find?_some found
    left
    rw [← same]
    exact all entry (List.mem_of_find?_eq_some found)

theorem isWord_durationToken (duration : UInt8) : IsWord (durationToken duration) := by
  rw [durationToken, durationName?]
  cases found : durations.find? (·.2 == duration) with
  | none => exact isWord_byteToken duration
  | some entry =>
    have all : ∀ entry ∈ durations, IsWord ("!" ++ entry.1) := by decide
    exact all entry (List.mem_of_find?_eq_some found)

theorem durationValue_durationToken {duration : UInt8} (lasts : isDuration duration = true) :
    durationValue (durationToken duration) = .ok duration := by
  rcases duration?_durationToken duration with named | numeral
  · rw [durationValue, named]
  · rw [numeral, durationValue, duration?_byteToken, byteValue_byteToken]
    simp only [lasts, Bool.true_or, if_true]

theorem velocityValue_byteToken {velocity : UInt8} (strikes : isDuration velocity = true) :
    velocityValue (byteToken velocity) = .ok velocity := by
  rw [velocityValue, byteValue_byteToken]
  simp only [strikes, if_true]

/-! ### Commands and instruments -/

/-- A name in the table of commands stands at the place of its opcode. -/
theorem place_of_commandName {opcode : UInt8} {name : String}
    (named : commandName? opcode = some name) :
    ∃ place : Fin CommandType.all.length, UInt8.ofNat (0xE0 + place.val) = opcode ∧
      CommandType.all[place].name = name := by
  rw [commandName?, Option.map_eq_some_iff] at named
  obtain ⟨type, found, same⟩ := named
  unfold CommandType.ofOpcode? at found
  split at found
  · rename_i opens
    obtain ⟨below, stands⟩ := List.getElem?_eq_some_iff.mp found
    have least : 0xE0 ≤ opcode.toNat := of_decide_eq_true opens
    have whole : 0xE0 + (opcode.toNat - firstOpcode.toNat) = opcode.toNat :=
      Nat.add_sub_of_le least
    refine ⟨⟨opcode.toNat - firstOpcode.toNat, below⟩, ?_, ?_⟩
    · rw [whole, UInt8.ofNat_toNat]
    · rw [← same, ← stands]
      rfl
  · contradiction

theorem opcode?_commandName {opcode : UInt8} {name : String}
    (named : commandName? opcode = some name) : opcode? name = some opcode := by
  have all : ∀ place : Fin CommandType.all.length,
      opcode? CommandType.all[place].name = some (UInt8.ofNat (0xE0 + place.val)) := by
    decide
  obtain ⟨place, same, stands⟩ := place_of_commandName named
  rw [← same, ← stands]
  exact all place

set_option maxRecDepth 4000 in
theorem opcode_of_setInstrument : ∀ opcode : UInt8,
    CommandType.ofOpcode? opcode = some .setInstrument → opcode = firstOpcode := by
  decide

/-- The name of a command means nothing else that is tried before. -/
theorem instrument?_name (type : CommandType) :
    instrument? type.name = none ∧ type.name ≠ "SetDuration" ∧ type.name ≠ "SetDurationN" := by
  cases type <;> decide

theorem isName_name (type : CommandType) : IsName type.name := by
  cases type <;> decide

theorem instrument?_instrumentName {id : UInt8} {name : String}
    (named : instrumentName? id = some name) : instrument? name = some id := by
  have all : ∀ place : Fin instrumentNames.length,
      instrument? instrumentNames[place] = some (UInt8.ofNat place.val) := by
    decide
  obtain ⟨below, stands⟩ := List.getElem?_eq_some_iff.mp named
  rw [← stands]
  exact (all ⟨id.toNat, below⟩).trans (congrArg some (UInt8.ofNat_toNat ..))

theorem isName_instrumentName {id : UInt8} {name : String}
    (named : instrumentName? id = some name) : IsName name := by
  have all : ∀ name ∈ instrumentNames, IsName name := by decide
  exact all name (List.mem_of_getElem? named)

set_option maxRecDepth 4000 in
/-- The opcodes without a name have no parameters, but for one. -/
theorem arity_of_nameless : ∀ opcode : UInt8, isOpcode opcode = true → commandName? opcode = none →
    opcode ≠ 0xFB → arity opcode = 0 := by
  decide

/-! ### Labels -/

theorem isName_songLabel (name : String) : IsName (songLabel name) := by
  unfold songLabel
  cases kept : name.toList.filter isLabelChar with
  | nil => decide
  | cons first rest =>
    have each : ∀ c ∈ first :: rest, isLabelChar c = true := by
      intro c member
      rw [← kept] at member
      exact (List.mem_filter.mp member).2
    simp only
    constructor
    · rw [String.toList_ofList]
      split <;> simp
    · intro c member
      rw [String.toList_ofList] at member
      split at member
      · rw [List.mem_append] at member
        rcases member with front | member
        · have all : "Song".toList.all isLabelChar = true := by decide
          exact List.all_eq_true.mp all c front
        · exact each c member
      · exact each c member

/-- A label is its own label. -/
theorem songLabel_songLabel (name : String) : songLabel (songLabel name) = songLabel name := by
  have letters := isName_songLabel name
  have letter : (songLabel name).toList.head?.any Char.isDigit = false := by
    unfold songLabel
    cases name.toList.filter isLabelChar with
    | nil => decide
    | cons first rest =>
      simp only
      rw [String.toList_ofList]
      split
      · rfl
      · rename_i letter
        exact Bool.eq_false_iff.mpr letter
  generalize songLabel name = label at letters letter
  have kept : label.toList.filter isLabelChar = label.toList :=
    List.filter_eq_self.mpr letters.2
  rw [songLabel, kept]
  cases text : label.toList with
  | nil => exact absurd text letters.1
  | cons first rest =>
    rw [text] at letter
    have other : ¬first.isDigit = true := Bool.eq_false_iff.mp letter
    simp only
    rw [if_neg other, ← text, String.ofList_toList]

end Assembly
end SnesMusic
