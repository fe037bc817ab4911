import SnesMusic.Proofs.Assembly.Words

/-!
# Lines read back

Main statements: the line of a statement that is made of words is read as that statement, a comment
as a blank line (`Statement.ofLine_render`), and the lines of a text are those of its statements
(`lines_text`).
-/
namespace SnesMusic

/-! ### Cutting and trimming -/

namespace Text

theorem pieces_of_not_mem {mark : Char} {text : List Char} (free : mark ∉ text) :
    pieces mark text = [text] := by
  induction text with
  | nil => rfl
  | cons c rest ih =>
    rw [List.mem_cons, not_or] at free
    rw [pieces, if_neg (Ne.symm free.1), ih free.2]

/-- A mark ends a stretch, whatever stretches stand in front of it. -/
theorem pieces_append_mark (mark : Char) (before after : List Char) :
    pieces mark (before ++ mark :: after) = pieces mark before ++ pieces mark after := by
  induction before with
  | nil => simp [pieces]
  | cons c rest ih =>
    rw [List.cons_append, pieces, pieces, ih]
    split
    · rfl
    · obtain ⟨piece, others, cut⟩ := List.exists_cons_of_ne_nil (pieces_ne_nil mark rest)
      simp only [cut, List.cons_append]

theorem pieces_append {mark : Char} {before : List Char} (free : mark ∉ before)
    (after : List Char) : pieces mark (before ++ mark :: after) = before :: pieces mark after := by
  rw [pieces_append_mark, pieces_of_not_mem free, List.singleton_append]

/-- Text that is ended is read by itself. -/
theorem lines_append_newline (text rest : List Char) :
    lines (text ++ '\n' :: rest) = pieces '\n' text ++ lines rest := by
  have filled := pieces_ne_nil '\n' rest
  have last : (pieces '\n' text ++ pieces '\n' rest).getLast? = (pieces '\n' rest).getLast? := by
    rw [List.getLast?_append, List.getLast?_eq_some_getLast filled, Option.some_or]
  simp only [lines, pieces_append_mark, last]
  split
  · rw [List.dropLast_append_of_ne_nil filled]
  · rfl

/-- A line that is ended is read by itself. -/
theorem lines_line {line : List Char} (single : '\n' ∉ line) (rest : List Char) :
    lines (line ++ '\n' :: rest) = line :: lines rest := by
  rw [lines_append_newline, pieces_of_not_mem single, List.singleton_append]

/-- Lines that are ended one by one are read one by one. -/
theorem lines_append {ended : List (List Char)} (each : ∀ line ∈ ended, '\n' ∉ line)
    (rest : List Char) : lines (ended.flatMap (· ++ ['\n']) ++ rest) = ended ++ lines rest := by
  induction ended with
  | nil => rfl
  | cons line others ih =>
    rw [List.forall_mem_cons] at each
    rw [List.flatMap_cons, List.append_assoc, List.append_assoc, List.singleton_append,
      lines_line each.1, ih each.2, List.cons_append]

/-- Blanks in front are trimmed. -/
theorem trim_append_left {blanks : List Char} (blank : blanks.all isBlank = true)
    (text : List Char) : trim (blanks ++ text) = trim text := by
  rw [trim, List.dropWhile_append_of_pos (List.all_eq_true.mp blank), ← trim]

/-- Blanks behind a text are trimmed. -/
theorem trim_append_right {blanks : List Char} (blank : blanks.all isBlank = true)
    {c : Char} {text : List Char} (first : isBlank c = false)
    (last : ∀ d ∈ (c :: text).getLast?, isBlank d = false) :
    trim (c :: text ++ blanks) = c :: text := by
  have alone := trim_of_ends first last
  have front : (c :: text).dropWhile isBlank = c :: text :=
    List.dropWhile_cons_of_neg (by rw [first]; decide)
  rw [trim, front] at alone
  have whole : (c :: text ++ blanks).dropWhile isBlank = c :: text ++ blanks :=
    List.dropWhile_cons_of_neg (by rw [first]; decide)
  rw [trim, whole, List.reverse_append, List.dropWhile_append_of_pos, alone]
  intro d member
  exact List.all_eq_true.mp blank d (List.mem_reverse.mp member)

end Text

namespace Assembly

open Text

/-! ### Words in lines -/

theorem IsWord.not_mem {word : String} (h : IsWord word) {mark : Char}
    (other : isWordChar mark = false) : mark ∉ word.toList := by
  intro member
  rw [h.2 mark member] at other
  contradiction

theorem IsWord.getLast? {word : String} (h : IsWord word) :
    ∀ c ∈ word.toList.getLast?, isWordChar c = true :=
  fun c same => h.2 c (List.mem_of_getLast? same)

/-- Blanks behind a word are trimmed. -/
theorem IsWord.trim_right {word : String} (h : IsWord word) {back : List Char}
    (blank : back.all isBlank = true) : trim (word.toList ++ back) = word.toList := by
  have last : ∀ c ∈ word.toList.getLast?, isBlank c = false :=
    fun c same => isBlank_of_isWordChar (h.getLast? c same)
  cases text : word.toList with
  | nil => exact absurd text h.1
  | cons c rest =>
    have first : isBlank c = false := by
      apply isBlank_of_isWordChar
      apply h.2 c
      rw [text]
      exact List.mem_cons_self ..
    rw [text] at last
    exact trim_append_right blank first last

theorem IsWord.trim_self {word : String} (h : IsWord word) : trim word.toList = word.toList := by
  have trimmed : trim (word.toList ++ []) = word.toList := h.trim_right rfl
  rwa [List.append_nil] at trimmed

/-- Blanks in front of a word are trimmed. -/
theorem IsWord.trim_left {word : String} (h : IsWord word) {front : List Char}
    (blank : front.all isBlank = true) : trim (front ++ word.toList) = word.toList := by
  rw [trim_append_left blank, h.trim_self]

/-! ### Lists of words -/

/-- A list of words has no characters but theirs and the separators. -/
theorem not_mem_intercalate {words : List String} (each : ∀ word ∈ words, IsWord word)
    {mark : Char} (other : isWordChar mark = false) (separate : mark ∉ ", ".toList) :
    mark ∉ (", ".intercalate words).toList := by
  induction words with
  | nil => simp
  | cons word rest ih =>
    rw [List.forall_mem_cons] at each
    cases rest with
    | nil =>
      rw [String.intercalate_singleton]
      exact each.1.not_mem other
    | cons next others =>
      rw [String.intercalate_cons_cons, String.toList_append, String.toList_append,
        List.mem_append, List.mem_append]
      rintro ((first | second) | third)
      · exact each.1.not_mem other first
      · exact separate second
      · exact ih each.2 third

/-- The last character of a list of words is that of a word. -/
theorem getLast?_intercalate {words : List String} (each : ∀ word ∈ words, IsWord word) :
    ∀ c ∈ (", ".intercalate words).toList.getLast?, isWordChar c = true := by
  induction words with
  | nil => simp
  | cons word rest ih =>
    rw [List.forall_mem_cons] at each
    cases rest with
    | nil =>
      rw [String.intercalate_singleton]
      exact each.1.getLast?
    | cons next others =>
      intro c last
      rw [String.intercalate_cons_cons, String.toList_append, List.getLast?_append] at last
      cases later : (", ".intercalate (next :: others)).toList.getLast? with
      | some d =>
        rw [later] at last
        apply ih each.2 c
        rw [later]
        exact last
      | none =>
        -- A list of words is not empty.
        rw [List.getLast?_eq_none_iff] at later
        have filled := (each.2 next (List.mem_cons_self ..)).1
        cases others with
        | nil => exact absurd (by simpa using later) filled
        | cons _ _ =>
          rw [String.intercalate_cons_cons, String.toList_append, String.toList_append] at later
          exact absurd (List.append_eq_nil_iff.mp (List.append_eq_nil_iff.mp later).1).1 filled

namespace Statement

theorem parts_append {before : List Char} {word : String} (h : IsWord word)
    (trimmed : trim before = word.toList) (free : ',' ∉ before) (after : List Char) :
    parts (before ++ ',' :: after) = word :: parts after := by
  have filled : word.toList.isEmpty = false := List.isEmpty_eq_false_iff.mpr h.1
  rw [parts, pieces_append free, List.map_cons, trimmed, List.filter_cons]
  simp only [filled, Bool.not_false, if_true]
  rw [List.map_cons, String.ofList_toList, ← parts]

/-- The words of a list are its parts. -/
theorem parts_intercalate {words : List String} (each : ∀ word ∈ words, IsWord word)
    {front : List Char} (blank : front.all isBlank = true) :
    parts (front ++ (", ".intercalate words).toList) = words := by
  have comma : isBlank ',' = false := by decide
  have space : [' '].all isBlank = true := by decide
  induction words generalizing front with
  | nil =>
    have free : ',' ∉ front := fun member => by simp [List.all_eq_true.mp blank _ member] at comma
    have nothing : trim front = [] := by
      have trimmed := trim_append_left blank []
      rwa [List.append_nil, trim_nil] at trimmed
    rw [String.intercalate_nil, String.toList_empty, List.append_nil, parts,
      pieces_of_not_mem free, List.map_singleton, nothing]
    rfl
  | cons word rest ih =>
    rw [List.forall_mem_cons] at each
    have trimmed : trim (front ++ word.toList) = word.toList := each.1.trim_left blank
    have free : ',' ∉ front ++ word.toList := by
      rw [List.mem_append]
      rintro (member | member)
      · simp [List.all_eq_true.mp blank _ member] at comma
      · exact each.1.not_mem (by decide) member
    cases rest with
    | nil =>
      have filled : word.toList.isEmpty = false := List.isEmpty_eq_false_iff.mpr each.1.1
      rw [String.intercalate_singleton, parts, pieces_of_not_mem free, List.map_singleton,
        trimmed, List.filter_cons]
      simp only [filled, Bool.not_false, if_true]
      rw [List.filter_nil, List.map_singleton, String.ofList_toList]
    | cons next others =>
      have whole : front ++ (", ".intercalate (word :: next :: others)).toList =
          front ++ word.toList ++ ',' :: ([' '] ++ (", ".intercalate (next :: others)).toList) := by
        rw [String.intercalate_cons_cons, String.toList_append, String.toList_append,
          List.append_assoc, List.append_assoc]
        rfl
      rw [whole, parts_append each.1 trimmed free, ih each.2 space]

/-! ### Statements -/

/-- A statement that is made of words. -/
def Written : Statement → Prop
  | .blank => True
  | .comment text => '\n' ∉ text.toList
  | .label name => IsName name
  | .localLabel name => IsName name ∧ channel? name.toList = none
  | .channel index => index < 8
  | .setting name value => IsWord name ∧ IsWord value
  | .bytes values => values ≠ [] ∧ ∀ value ∈ values, IsWord value
  | .words values => values ≠ [] ∧ ∀ value ∈ values, IsWord value
  | .invocation name arguments => IsName name ∧ ∀ argument ∈ arguments, IsWord argument
  | .broken _ | .unrecognized _ => False

/-- What is left of a statement in its line. -/
def reading : Statement → Statement
  | .comment _ => .blank
  | s => s

/-- What is written between words. -/
def punctuation : List Char := " ,%():=".toList

/-- The line of a statement that is no comment has no characters but those of words and
punctuation. -/
theorem not_mem_render {s : Statement} (written : s.Written) (said : ∀ text, s ≠ .comment text)
    {mark : Char} (other : isWordChar mark = false) (foreign : mark ∉ punctuation) :
    mark ∉ s.render.toList := by
  have fixed : ∀ text : String, text.toList.all (fun c => isWordChar c || c ∈ punctuation) = true →
      mark ∉ text.toList := by
    intro text each member
    have either := List.all_eq_true.mp each mark member
    rw [other, Bool.false_or, decide_eq_true_eq] at either
    exact foreign either
  have separate : mark ∉ ", ".toList := fixed _ (by decide)
  have front : mark ∉ indent.toList := fixed _ (by decide)
  cases s with
  | blank => simp [render]
  | comment text => exact absurd rfl (said text)
  | label name =>
    simp only [render, String.toList_append, List.mem_append, not_or]
    exact ⟨IsWord.not_mem (IsName.isWord written) other, fixed _ (by decide)⟩
  | localLabel name =>
    simp only [render, String.toList_append, List.mem_append, not_or]
    exact ⟨⟨fixed _ (by decide), written.1.isWord.not_mem other⟩, fixed _ (by decide)⟩
  | channel index =>
    simp only [render, String.toList_append, List.mem_append, not_or]
    exact ⟨⟨⟨fixed _ (by decide), fixed _ (by decide)⟩,
      (isName_toString index).isWord.not_mem other⟩, fixed _ (by decide)⟩
  | setting name value =>
    simp only [render, String.toList_append, List.mem_append, not_or]
    exact ⟨⟨⟨fixed _ (by decide), written.1.not_mem other⟩, fixed _ (by decide)⟩,
      written.2.not_mem other⟩
  | bytes values =>
    simp only [render, String.toList_append, List.mem_append, not_or]
    exact ⟨⟨front, fixed _ (by decide)⟩, not_mem_intercalate written.2 other separate⟩
  | words values =>
    simp only [render, String.toList_append, List.mem_append, not_or]
    exact ⟨⟨front, fixed _ (by decide)⟩, not_mem_intercalate written.2 other separate⟩
  | invocation name arguments =>
    simp only [render, String.toList_append, List.mem_append, not_or]
    exact ⟨⟨⟨⟨⟨front, fixed _ (by decide)⟩, written.1.isWord.not_mem other⟩,
      fixed _ (by decide)⟩, not_mem_intercalate written.2 other separate⟩, fixed _ (by decide)⟩
  | broken text => exact absurd written id
  | unrecognized text => exact absurd written id

/-- The line of a statement is one line. -/
theorem newline_not_mem_render {s : Statement} (written : s.Written) :
    '\n' ∉ s.render.toList := by
  by_cases said : ∀ text, s ≠ .comment text
  · exact not_mem_render written said (by decide) (by decide)
  · rw [Classical.not_forall] at said
    obtain ⟨text, same⟩ := said
    rw [Classical.not_not.mp same] at written ⊢
    rw [render, String.toList_append, List.mem_append, not_or]
    exact ⟨by decide, written⟩

/-! ### Lines -/

/-- Code is read without the blanks in front of it. -/
theorem ofLine_code {front code : List Char} (blank : front.all isBlank = true)
    (uncommented : ';' ∉ front ++ code) (first : ∀ c ∈ code.head?, isBlank c = false)
    (last : ∀ c ∈ code.getLast?, isBlank c = false) : ofLine (front ++ code) = ofCode code := by
  have trimmed : trim (front ++ code) = code := by
    rw [trim_append_left blank]
    cases code with
    | nil => rfl
    | cons c rest => exact trim_of_ends (first c rfl) last
  rw [ofLine, cutAt_of_not_mem uncommented]
  simp only
  rw [trimmed]

/-- Code ends as what it ends with. -/
theorem getLast?_append_word {front text : List Char} (filled : text ≠ [])
    (last : ∀ c ∈ text.getLast?, isWordChar c = true) :
    ∀ c ∈ (front ++ text).getLast?, isWordChar c = true := by
  intro c same
  apply last c
  rw [List.getLast?_append] at same
  cases behind : text.getLast? with
  | none => exact absurd (List.getLast?_eq_none_iff.mp behind) filled
  | some d =>
    rw [behind] at same
    exact same

/-- A word with a colon is a label. -/
theorem ofLine_label {label : String} (word : IsWord label) :
    ofLine (label.toList ++ [':']) = ofLabel label.toList := by
  have uncommented : ';' ∉ [] ++ (label.toList ++ [':']) := by
    rw [List.nil_append, List.mem_append, not_or]
    exact ⟨word.not_mem (by decide), by decide⟩
  have last : (label.toList ++ [':']).getLast? = some ':' := List.getLast?_concat ..
  have trimmed : trim label.toList = label.toList := word.trim_self
  have each := word.2
  rw [← List.nil_append (label.toList ++ [':']), ofLine_code (by simp) uncommented]
  · cases text : label.toList with
    | nil => exact absurd text word.1
    | cons c rest =>
      rw [text] at last trimmed
      unfold ofCode
      simp only [List.cons_append]
      rw [List.cons_append] at last
      rw [if_pos last, ← List.cons_append, List.dropLast_concat, trimmed]
  · intro c first
    cases text : label.toList with
    | nil => exact absurd text word.1
    | cons d rest =>
      rw [text] at first each
      obtain rfl : d = c := Option.some.inj first
      exact isBlank_of_isWordChar (each d (List.mem_cons_self ..))
  · intro c same
    rw [last, Option.mem_some_iff] at same
    rw [← same]
    decide

/-- Code that ends with a word is no label. -/
theorem ne_label {code : List Char} (last : ∀ c ∈ code.getLast?, isWordChar c = true) :
    code.getLast? ≠ some ':' := by
  intro same
  have word := last ':' same
  revert word
  decide

theorem ofCode_setting {name value : String} (named : IsWord name) (valued : IsWord value)
    (last : ∀ c ∈ ('!' :: (name.toList ++ " = ".toList ++ value.toList)).getLast?,
      isWordChar c = true) :
    ofCode ('!' :: (name.toList ++ " = ".toList ++ value.toList)) = .setting name value := by
  have cut : cutAt '=' (name.toList ++ " = ".toList ++ value.toList) =
      some (name.toList ++ [' '], [' '] ++ value.toList) := by
    have free : '=' ∉ name.toList ++ [' '] := by
      rw [List.mem_append, not_or]
      exact ⟨named.not_mem (by decide), by decide⟩
    have whole : name.toList ++ " = ".toList ++ value.toList =
        (name.toList ++ [' ']) ++ '=' :: ([' '] ++ value.toList) := by
      rw [List.append_assoc, List.append_assoc]
      rfl
    rw [whole, cutAt_append free]
  have before : trim (name.toList ++ [' ']) = name.toList := named.trim_right (by decide)
  have behind : trim ([' '] ++ value.toList) = value.toList := valued.trim_left (by decide)
  unfold ofCode
  simp only
  rw [if_neg (ne_label last), if_neg (by decide)]
  simp only [if_true, cut]
  rw [before, behind, String.ofList_toList, String.ofList_toList]

/-- The code of data: its directive and the values. -/
def dataCode (directive : Char) (values : List String) : List Char :=
  'd' :: directive :: ' ' :: (", ".intercalate values).toList

theorem getLast?_dataCode (directive : Char) {values : List String} (filled : values ≠ [])
    (each : ∀ value ∈ values, IsWord value) :
    ∀ c ∈ (dataCode directive values).getLast?, isWordChar c = true := by
  have behind : (", ".intercalate values).toList ≠ [] := by
    cases values with
    | nil => exact absurd rfl filled
    | cons value rest =>
      rw [List.forall_mem_cons] at each
      cases rest with
      | nil =>
        rw [String.intercalate_singleton]
        exact each.1.1
      | cons next others =>
        rw [String.intercalate_cons_cons, String.toList_append]
        simp
  have split : dataCode directive values =
      ['d', directive, ' '] ++ (", ".intercalate values).toList := rfl
  rw [split]
  exact getLast?_append_word behind (getLast?_intercalate each)

theorem ofCode_bytes {values : List String} (filled : values ≠ [])
    (each : ∀ value ∈ values, IsWord value) : ofCode (dataCode 'b' values) = .bytes values := by
  have last := getLast?_dataCode 'b' filled each
  have listed : parts ([' '] ++ (", ".intercalate values).toList) = values :=
    parts_intercalate each (by decide)
  unfold dataCode at last ⊢
  unfold ofCode
  simp only
  rw [if_neg (ne_label last), if_neg (by decide), if_neg (by decide)]
  exact congrArg _ listed

theorem ofCode_words {values : List String} (filled : values ≠ [])
    (each : ∀ value ∈ values, IsWord value) : ofCode (dataCode 'w' values) = .words values := by
  have last := getLast?_dataCode 'w' filled each
  have listed : parts ([' '] ++ (", ".intercalate values).toList) = values :=
    parts_intercalate each (by decide)
  unfold dataCode at last ⊢
  unfold ofCode
  simp only
  rw [if_neg (ne_label last), if_neg (by decide), if_neg (by decide)]
  exact congrArg _ listed

theorem ofCode_invocation {name : String} {arguments : List String} (named : IsName name)
    (each : ∀ argument ∈ arguments, IsWord argument) :
    ofCode ('%' :: (name.toList ++ '(' :: ((", ".intercalate arguments).toList ++ [')']))) =
      .invocation name arguments := by
  have word := named.isWord
  have last : ('%' :: (name.toList ++ '(' :: ((", ".intercalate arguments).toList ++
      [')']))).getLast? = some ')' := by
    rw [← List.cons_append, ← List.cons_append, ← List.append_assoc, List.getLast?_concat]
  have closed : cutAt ')' ((", ".intercalate arguments).toList ++ [')']) =
      some ((", ".intercalate arguments).toList, []) :=
    cutAt_append (not_mem_intercalate each (by decide) (by decide)) []
  have trimmed : trim name.toList = name.toList := word.trim_self
  have listed : parts ([] ++ (", ".intercalate arguments).toList) = arguments :=
    parts_intercalate each (by simp)
  unfold ofCode
  simp only
  rw [last, if_neg (by decide), if_neg (by decide), if_neg (by decide)]
  simp only
  rw [ofInvocation, cutAt_append (word.not_mem (by decide))]
  simp only [closed]
  rw [trimmed, String.ofList_toList]
  exact congrArg _ listed

/-- A name is the label of a segment. -/
theorem ofLabel_name {name : String} (named : IsName name) :
    ofLabel name.toList = .label name := by
  have each := named.2
  cases text : name.toList with
  | nil => exact absurd text named.1
  | cons c rest =>
    rw [text] at each
    have letter := each c (List.mem_cons_self ..)
    unfold ofLabel
    split
    · rename_i same
      rw [List.cons.injEq] at same
      rw [same.1] at letter
      exact absurd letter (by decide)
    · rw [← text, String.ofList_toList]

theorem channel?_channelLabel {index : Nat} (below : index < 8) :
    channel? (channelLabel.toList ++ (toString index).toList) = some index := by
  have digits : (toString index).toList = Nat.toDigits 10 index := Nat.toList_repr
  have behind : (channelLabel.toList ++ (toString index).toList).drop channelLabel.toList.length =
      (toString index).toList := List.drop_left
  rw [channel?, if_pos (by simp), ← String.length_toList, behind, digits]
  exact numeral?_toDigits below

/-- The line of a statement is read as that statement. -/
theorem ofLine_render {s : Statement} (written : s.Written) :
    ofLine s.render.toList = s.reading := by
  have uncommented : (∀ text, s ≠ .comment text) → ';' ∉ s.render.toList :=
    fun said => not_mem_render written said (by decide) (by decide)
  have blanks : indent.toList.all isBlank = true := by decide
  have visible : ∀ c, isWordChar c = true → isBlank c = false := fun _ => isBlank_of_isWordChar
  -- Code is found in its line by what it begins and ends with.
  have found : ∀ {front code : List Char} {c : Char}, s.render.toList = front ++ code →
      (∀ text, s ≠ .comment text) → front.all isBlank = true → code.head? = some c →
      isBlank c = false → (∀ c ∈ code.getLast?, isBlank c = false) →
      ofLine s.render.toList = ofCode code := by
    intro front code c line said blank begins first last
    have free := uncommented said
    rw [line] at free ⊢
    apply ofLine_code blank free _ last
    intro d same
    rw [begins, Option.mem_some_iff] at same
    rw [← same]
    exact first
  cases s with
  | blank => rfl
  | comment text =>
    have line : (render (.comment text)).toList = [] ++ ';' :: ' ' :: text.toList := by
      rw [render, String.toList_append]
      rfl
    rw [ofLine, line, cutAt_append (by simp)]
    rfl
  | label name =>
    rw [render, String.toList_append]
    exact (ofLine_label (IsName.isWord written)).trans (ofLabel_name written)
  | localLabel name =>
    have word : IsWord ("." ++ name) := written.1.marked (by decide)
    rw [render, String.toList_append]
    refine (ofLine_label word).trans ?_
    rw [String.toList_append]
    show ofLabel ('.' :: name.toList) = _
    rw [ofLabel, written.2]
    exact congrArg localLabel String.ofList_toList
  | channel index =>
    have word : IsWord ("." ++ channelLabel ++ toString index) :=
      (isName_toString index).marked (by decide)
    rw [render, String.toList_append]
    refine (ofLine_label word).trans ?_
    rw [String.toList_append, String.toList_append, List.append_assoc]
    show ofLabel ('.' :: (channelLabel.toList ++ (toString index).toList)) = _
    rw [ofLabel, channel?_channelLabel written]
    rfl
  | setting name value =>
    have line : (render (.setting name value)).toList =
        [] ++ '!' :: (name.toList ++ " = ".toList ++ value.toList) := by
      simp only [render, String.toList_append, List.append_assoc]
      rfl
    have last : ∀ c ∈ ('!' :: (name.toList ++ " = ".toList ++ value.toList)).getLast?,
        isWordChar c = true := by
      rw [← List.cons_append]
      exact getLast?_append_word written.2.1 written.2.getLast?
    rw [found line (by simp) (by simp) rfl (by decide) (fun c same => visible c (last c same))]
    exact ofCode_setting written.1 written.2 last
  | bytes values =>
    have line : (render (.bytes values)).toList = indent.toList ++ dataCode 'b' values := by
      simp only [render, String.toList_append, List.append_assoc]
      rfl
    have last := getLast?_dataCode 'b' written.1 written.2
    rw [found line (by simp) blanks rfl (by decide) (fun c same => visible c (last c same))]
    exact ofCode_bytes written.1 written.2
  | words values =>
    have line : (render (.words values)).toList = indent.toList ++ dataCode 'w' values := by
      simp only [render, String.toList_append, List.append_assoc]
      rfl
    have last := getLast?_dataCode 'w' written.1 written.2
    rw [found line (by simp) blanks rfl (by decide) (fun c same => visible c (last c same))]
    exact ofCode_words written.1 written.2
  | invocation name arguments =>
    have line : (render (.invocation name arguments)).toList = indent.toList ++
        '%' :: (name.toList ++ '(' :: ((", ".intercalate arguments).toList ++ [')'])) := by
      simp only [render, String.toList_append, List.append_assoc]
      rfl
    have last : ∀ c ∈ ('%' :: (name.toList ++ '(' :: ((", ".intercalate arguments).toList ++
        [')']))).getLast?, isBlank c = false := by
      intro c same
      rw [← List.cons_append, ← List.cons_append, ← List.append_assoc, List.getLast?_concat]
        at same
      rw [← Option.some.inj same]
      decide
    rw [found line (by simp) blanks rfl (by decide) last]
    exact ofCode_invocation written.1 written.2
  | broken text => exact absurd written id
  | unrecognized text => exact absurd written id

end Statement

theorem toList_text (statements : List Statement) : (text statements).toList =
    (statements.map (·.render.toList)).flatMap (· ++ ['\n']) := by
  rw [text, String.toList_join, List.flatMap_map, List.flatMap_map]
  congr 1
  funext s
  rw [String.toList_append]
  rfl

/-- The lines of statements come first, whatever follows. -/
theorem lines_text_append {statements : List Statement} (written : ∀ s ∈ statements, s.Written)
    (behind : List Statement) :
    lines (text (statements ++ behind)).toList =
      statements.map (·.render.toList) ++ lines (text behind).toList := by
  have each : ∀ line ∈ statements.map (·.render.toList), '\n' ∉ line := by
    intro line member
    obtain ⟨s, inside, rfl⟩ := List.mem_map.mp member
    exact Statement.newline_not_mem_render (written s inside)
  rw [toList_text, List.map_append, List.flatMap_append, lines_append each, toList_text]

/-- The lines of a text are those of its statements. -/
theorem lines_text {statements : List Statement} (written : ∀ s ∈ statements, s.Written) :
    lines (text statements).toList = statements.map (·.render.toList) := by
  have alone := lines_text_append written []
  rw [List.append_nil] at alone
  exact alone.trans (List.append_nil _)

end Assembly
end SnesMusic
