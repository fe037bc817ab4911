import Mathlib.Data.List.Chain
import Mathlib.Data.List.Forall2
import SnesMusic.Proofs.Assembly.Reading
import SnesMusic.Proofs.Report
import SnesMusic.Proofs.Upload

/-!
# Raw bytes in text and in memory

A line of raw bytes is read by its own rules: a byte that sets the duration never announces a
velocity, as it does in a track's bytecode. Main statements: below the commands, the text gives the
track that bytecode gives for the same bytes without the durations that are directly overridden
(`import_literals`), and where no duration follows a duration these are all of them
(`latest_eq_self`).
-/
namespace SnesMusic

open Text

/-! ### Bytes below the commands -/

/-- A byte that sets a duration or plays a note. -/
def IsPlain (byte : UInt8) : Prop := 0x01 ≤ byte ∧ byte ≤ 0xC9

theorem isPitch_of_isPlain {byte : UInt8} (plain : IsPlain byte) (long : isDuration byte = false) :
    isPitch byte = true := by
  obtain ⟨least, most⟩ := plain
  rw [UInt8.le_iff_toNat_le] at least most
  rw [← Bool.not_eq_true, isDuration_iff] at long
  rw [isPitch_iff]
  change 1 ≤ byte.toNat at least
  change byte.toNat ≤ 201 at most
  omega

/-- The notes of plain bytes from the timing in force and that of the note before on, when velocity
is never stated. -/
def plainEvents (t emitted : Timing) : List UInt8 → List Event
  | [] => []
  | byte :: rest =>
    if isDuration byte then plainEvents { t with duration := byte } emitted rest
    else .note (t.note emitted byte) :: plainEvents t t rest

/-- The bytes without the durations that the byte behind them overrides. -/
def latest : List UInt8 → List UInt8
  | [] => []
  | byte :: rest =>
    if isDuration byte && rest.head?.any isDuration then latest rest else byte :: latest rest

/-- No two durations follow each other. -/
def Apart (bytes : List UInt8) : Prop :=
  bytes.IsChain fun first second => ¬(isDuration first = true ∧ isDuration second = true)

theorem head?_latest (bytes : List UInt8) :
    (latest bytes).head?.any isDuration = bytes.head?.any isDuration := by
  induction bytes with
  | nil => rfl
  | cons byte rest ih =>
    rw [latest]
    split
    · rename_i overridden
      rw [Bool.and_eq_true] at overridden
      rw [ih, overridden.2, List.head?_cons, Option.any_some, overridden.1]
    · rfl

theorem apart_latest (bytes : List UInt8) : Apart (latest bytes) := by
  induction bytes with
  | nil => exact .nil
  | cons byte rest ih =>
    rw [latest]
    split
    · exact ih
    · rename_i kept
      rw [Apart, List.isChain_cons]
      refine ⟨fun second next both => kept ?_, ih⟩
      rw [← head?_latest, next, Option.any_some, both.1, both.2]
      rfl

theorem latest_eq_self {bytes : List UInt8} (apart : Apart bytes) : latest bytes = bytes := by
  induction bytes with
  | nil => rfl
  | cons byte rest ih =>
    rw [Apart, List.isChain_cons] at apart
    have kept : ¬(isDuration byte && rest.head?.any isDuration) = true := by
      intro overridden
      rw [Bool.and_eq_true, Option.any_eq_true] at overridden
      obtain ⟨first, second, next, follows⟩ := overridden
      exact apart.1 second next ⟨first, follows⟩
    rw [latest, if_neg kept, ih apart.2]

theorem isPlain_latest {bytes : List UInt8} (plain : ∀ byte ∈ bytes, IsPlain byte) :
    ∀ byte ∈ latest bytes, IsPlain byte := by
  induction bytes with
  | nil => exact plain
  | cons byte rest ih =>
    rw [List.forall_mem_cons] at plain
    rw [latest]
    split
    · exact ih plain.2
    · exact List.forall_mem_cons.mpr ⟨plain.1, ih plain.2⟩

/-- A duration that is overridden before a note is not heard. -/
theorem plainEvents_latest (t emitted : Timing) (bytes : List UInt8) :
    plainEvents t emitted (latest bytes) = plainEvents t emitted bytes := by
  induction bytes generalizing t emitted with
  | nil => rfl
  | cons byte rest ih =>
    rw [latest]
    split
    · rename_i overridden
      rw [Bool.and_eq_true] at overridden
      rw [ih, plainEvents, if_pos overridden.1]
      cases rest with
      | nil => simp at overridden
      | cons second others =>
        have follows : isDuration second = true := overridden.2
        rw [plainEvents, plainEvents, if_pos follows, if_pos follows]
    · rw [plainEvents, plainEvents, ih, ih]

/-! ### As bytecode -/

/-- Playing plain bytes up to the end marker gives their notes, when the ticks suffice. -/
theorem Playback.run_plain {call : UInt16 → UInt8 → Nat → Timing → Report Nat} {origin : UInt16}
    {budget index : Nat} {p : Playback} {bytes behind : List UInt8} (apart : Apart bytes)
    (plain : ∀ byte ∈ bytes, IsPlain byte)
    (short : p.ticks + (Track.ofEvents (plainEvents p.timing p.emitted bytes)).ticks < budget) :
    (run call origin budget p (Token.lexFrom [] index (bytes ++ 0 :: behind))).outcome.map
        Fragment.track =
      .ok (.ofEvents (p.events.reverse ++ plainEvents p.timing p.emitted bytes ++ [.finish])) := by
  induction bytes generalizing p index with
  | nil =>
    have early : ¬budget ≤ p.ticks := by omega
    rw [List.nil_append, Token.lexFrom_cons, Token.read_zero, run, if_neg early]
    simp [push, done, plainEvents, Except.map]
  | cons byte rest ih =>
    have early : ¬budget ≤ p.ticks := by omega
    rw [Apart, List.isChain_cons] at apart
    rw [List.forall_mem_cons] at plain
    rw [List.cons_append, Token.lexFrom_cons]
    cases lasts : isDuration byte with
    | true =>
      have alone : (rest ++ 0 :: behind).head?.filter isDuration = none := by
        cases rest with
        | nil => rfl
        | cons second others =>
          have plays : isDuration second = false :=
            Bool.eq_false_iff.mpr fun follows => apart.1 second rfl ⟨lasts, follows⟩
          exact Option.filter_some_neg plays
      rw [plainEvents, if_pos lasts] at short ⊢
      rw [Token.read_of_isDuration lasts, alone, run, if_neg early]
      exact ih (p := p.setTiming byte none) apart.2 plain.2 short
    | false =>
      have plays := isPitch_of_isPlain plain.1 lasts
      have mute : ¬isDuration byte = true := Bool.eq_false_iff.mp lasts
      rw [plainEvents, if_neg mute] at short ⊢
      change p.ticks + ((Event.note (p.timing.note p.emitted byte)).ticks +
        (Track.ofEvents (plainEvents p.timing p.timing rest)).ticks) < budget at short
      have later : (p.note byte).ticks ≤
          p.ticks + (Event.note (p.timing.note p.emitted byte)).ticks := Nat.min_le_left ..
      rw [Token.read_of_isPitch plays, run, if_neg early]
      rw [List.append_cons p.events.reverse, ← List.reverse_cons]
      exact ih (p := p.note byte) apart.2 plain.2 (by
        change (p.note byte).ticks +
          (Track.ofEvents (plainEvents p.timing p.timing rest)).ticks < budget
        omega)

/-- The track of plain bytes at an address. -/
theorem Image.track_plain {image : Image} {bank : UploadBank} {uploads : Uploads} {limits : Limits}
    {address : UInt16} {bytes behind : List UInt8} (loaded : image.uploads bank = .ok uploads)
    (stored : uploads.from? address = some (bytes ++ 0 :: behind)) (set : address ≠ 0)
    (depth : 0 < limits.depth) (apart : Apart bytes) (plain : ∀ byte ∈ bytes, IsPlain byte)
    (short : (Track.ofEvents (plainEvents {} {} bytes)).ticks < limits.ticks) :
    (image.track bank limits address).outcome =
      .ok (.ofEvents (plainEvents {} {} bytes ++ [.finish])) := by
  obtain ⟨levels, enough⟩ := Nat.exists_eq_succ_of_ne_zero (Nat.ne_of_gt depth)
  have found : uploads.require address = .ok (bytes ++ 0 :: behind) := by
    rw [Uploads.require, stored]
  rw [Image.track, loaded]
  simp only [Report.outcome_bind, Report.outcome_ofExcept, Uploads.track, Report.outcome_map,
    Uploads.fragment]
  show (Fragment.read uploads limits limits.depth [] address limits.ticks {}).outcome.map
    Fragment.track = _
  rw [enough, Fragment.read, if_neg set, if_neg List.not_mem_nil, found]
  exact Playback.run_plain (p := { timing := {} }) apart plain (by rw [Nat.zero_add]; exact short)

namespace Assembly

/-! ### As text -/

/-- The byte as a number of two hexadecimal digits, in letters of either case. -/
def IsLiteral (token : String) (byte : UInt8) : Prop :=
  ∃ high low, token.toList = ['$', high, low] ∧
    digitValue 16 high = some (byte.toNat / 16) ∧ digitValue 16 low = some (byte.toNat % 16)

theorem isLabelChar_of_digitValue {c : Char} {value : Nat}
    (digit : digitValue 16 c = some value) : isLabelChar c = true := by
  have ranges : ('0' ≤ c ∧ c ≤ '9') ∨ ('A' ≤ c ∧ c ≤ 'Z') ∨ ('a' ≤ c ∧ c ≤ 'z') := by
    by_contra other
    simp only [not_or] at other
    rw [digitValue, if_neg other.1, if_neg other.2.1, if_neg other.2.2] at digit
    simp at digit
  change (decide (65 ≤ c.toNat ∧ c.toNat ≤ 90) ||
    (decide (97 ≤ c.toNat) && decide (c.toNat ≤ 122)) ||
      (decide (48 ≤ c.toNat) && decide (c.toNat ≤ 57)) || c == '_') = true
  simp only [Bool.or_eq_true, Bool.and_eq_true, decide_eq_true_eq]
  rcases ranges with number | capital | small
  · exact .inl (.inr number)
  · exact .inl (.inl (.inl capital))
  · exact .inl (.inl (.inr small))

namespace IsLiteral

variable {token : String} {byte : UInt8}

theorem isWord (literal : IsLiteral token byte) : IsWord token := by
  obtain ⟨high, low, text, first, second⟩ := literal
  rw [IsWord, text]
  refine ⟨by simp, ?_⟩
  simp only [List.forall_mem_cons, List.not_mem_nil, IsEmpty.forall_iff, implies_true, and_true]
  exact ⟨by decide, isWordChar_of_isLabelChar (isLabelChar_of_digitValue first),
    isWordChar_of_isLabelChar (isLabelChar_of_digitValue second)⟩

theorem byteValue (literal : IsLiteral token byte) : Importer.byteValue token = .ok byte := by
  obtain ⟨high, low, text, first, second⟩ := literal
  have bound := byte.toNat_lt
  have value : (0 * 16 + byte.toNat / 16) * 16 + byte.toNat % 16 = byte.toNat := by omega
  have read : numeral? 16 UInt32.size [high, low] =
      some ([byte.toNat / 16, byte.toNat % 16].foldl (fun v d => v * 16 + d) 0) :=
    numeral?_of_values (by decide) (by simp [first, second]) (by simp)
      (by simp only [List.foldl_cons, List.foldl_nil, value, UInt32.size]; omega)
  simp only [List.foldl_cons, List.foldl_nil, value] at read
  rw [Importer.byteValue, number?, text, numberChars?, read]
  simp only
  rw [if_pos bound, UInt8.ofNat_toNat]

theorem datum (literal : IsLiteral token byte) (options : ImportOptions) (s : Importer) :
    s.datum options token = (s.count 1).rawByte options byte := by
  have ⟨_, _, text, _⟩ := literal
  rw [Importer.datum, pitch?_of_mark text, duration?_of_mark text, literal.byteValue]
  rfl

end IsLiteral

theorem isWord_of_literals {tokens : List String} {bytes : List UInt8}
    (literals : List.Forall₂ IsLiteral tokens bytes) : ∀ token ∈ tokens, IsWord token := by
  induction literals with
  | nil => simp
  | cons literal _ ih => exact List.forall_mem_cons.mpr ⟨literal.isWord, ih⟩

/-- Reading plain bytes up to the end marker puts their notes behind the channel's events. -/
theorem Importer.data_literals (options : ImportOptions) {s : Importer} {tokens : List String}
    {bytes : List UInt8} (literals : List.Forall₂ IsLiteral tokens (bytes ++ [0]))
    (plain : ∀ byte ∈ bytes, IsPlain byte) :
    ∃ t, s.data options tokens = .ok t ∧ t.finished = s.finished ∧
      t.current =
        extend s.current s.channel (plainEvents s.timing s.emitted bytes ++ [.finish]) := by
  induction bytes generalizing s tokens with
  | nil =>
    cases literals with
    | cons literal none =>
      cases none
      refine ⟨(s.count 1).push .finish, ?_, rfl, ?_⟩
      · rw [data, literal.datum]
        rfl
      · exact (extend_eq _ s.channel.isLt _).symm
  | cons byte rest ih =>
    cases literals with
    | cons literal others =>
      rw [List.forall_mem_cons] at plain
      rw [data, literal.datum, rawByte]
      cases lasts : isDuration byte with
      | true =>
        rw [if_neg (ne_zero_of_isDuration lasts), if_pos rfl, plainEvents, if_pos lasts]
        exact ih others plain.2
      | false =>
        have plays := isPitch_of_isPlain plain.1 lasts
        rw [if_neg (ne_zero_of_isPitch plays), if_neg Bool.false_ne_true, if_pos plays, plainEvents,
          lasts, if_neg Bool.false_ne_true, List.cons_append, ← extend_push]
        exact ih (s := (s.count 1).note byte) others plain.2

/-- A line of data is read by itself. -/
theorem ofLine_data {tokens : List String} (filled : tokens ≠ [])
    (words : ∀ token ∈ tokens, IsWord token) :
    Statement.ofLine ("db " ++ ", ".intercalate tokens).toList = .bytes tokens := by
  have code : ("db " ++ ", ".intercalate tokens).toList = Statement.dataCode 'b' tokens := by
    rw [String.toList_append]
    rfl
  have separate : ';' ∉ (", ".intercalate tokens).toList :=
    not_mem_intercalate words (by decide) (by decide)
  have uncommented : ';' ∉ [] ++ Statement.dataCode 'b' tokens := by
    simp only [Statement.dataCode, List.nil_append, List.mem_cons, not_or]
    exact ⟨by decide, by decide, by decide, separate⟩
  rw [code, ← List.nil_append (Statement.dataCode 'b' tokens),
    Statement.ofLine_code rfl uncommented, Statement.ofCode_bytes filled words]
  · intro c first
    obtain rfl : 'd' = c := Option.some.inj first
    decide
  · exact fun c last => isBlank_of_isWordChar (Statement.getLast?_dataCode 'b' filled words c last)

/-- A text without a line feed is one line. -/
theorem lines_single {text : List Char} (filled : text ≠ []) (single : '\n' ∉ text) :
    lines text = [text] := by
  rw [lines, pieces_of_not_mem single]
  exact if_neg fun none => filled (Option.some.inj none)

/-- A line of raw bytes below the commands, of whatever length and arrangement, gives the first
channel of a single segment the track that bytecode gives for the bytes without the durations that
the next byte overrides: in bytecode that next byte is a velocity, in text it is not. Where no
duration directly follows a duration, the bytes are the same. -/
theorem import_literals (options : ImportOptions) {tokens : List String} {bytes : List UInt8}
    (literals : List.Forall₂ IsLiteral tokens (bytes ++ [0]))
    (plain : ∀ byte ∈ bytes, IsPlain byte) {image : Image} {bank : UploadBank} {uploads : Uploads}
    {limits : Limits} {address : UInt16} {behind : List UInt8}
    (loaded : image.uploads bank = .ok uploads)
    (stored : uploads.from? address = some (latest bytes ++ 0 :: behind)) (set : address ≠ 0)
    (depth : 0 < limits.depth)
    (short : (Track.ofEvents (plainEvents {} {} bytes)).ticks < limits.ticks) :
    (Apart bytes → latest bytes = bytes) ∧
      ∃ imported track,
        (importSong ("db " ++ ", ".intercalate tokens) options).outcome = .ok imported ∧
        (image.track bank limits address).outcome = .ok track ∧
        imported.song.segments = [{ tracks := Segment.silent.tracks.set 0 track }] := by
  refine ⟨latest_eq_self, ?_⟩
  have read : (image.track bank limits address).outcome =
      .ok (.ofEvents (plainEvents {} {} bytes ++ [.finish])) := by
    rw [← plainEvents_latest] at short ⊢
    exact Image.track_plain loaded stored set depth (apart_latest bytes) (isPlain_latest plain)
      short
  have words := isWord_of_literals literals
  have filled : tokens ≠ [] := by
    rintro rfl
    cases bytes <;> cases literals
  have single : '\n' ∉ ("db " ++ ", ".intercalate tokens).toList := by
    rw [String.toList_append, List.mem_append, not_or]
    exact ⟨by decide, not_mem_intercalate words (by decide) (by decide)⟩
  have written : ("db " ++ ", ".intercalate tokens).toList ≠ [] := by
    rw [String.toList_append]
    exact List.append_ne_nil_of_left_ne_nil (by decide) _
  obtain ⟨t, stepped, unfinished, heard⟩ :=
    Importer.data_literals options (s := { line := 1 }) literals plain
  have run : Importer.run options {} []
      (lines ("db " ++ ", ".intercalate tokens).toList) = .ok (t, []) := by
    rw [lines_single written single, Importer.run, ofLine_data filled words, Importer.step]
    simp only [stepped]
    rfl
  refine ⟨t.finish options [] 1, _, ?_, read, ?_⟩
  · rw [importSong, run, lines_single written single]
    rfl
  · rw [Importer.extend_eq _ (Fin.isLt _)] at heard
    show (t.current :: t.finished).reverse = _
    rw [unfinished, heard]
    rfl

/-! ### An example -/

/-- A duration that the next byte overrides, and a note behind it. -/
def overriddenBlock : SingleBlock := ⟨.dungeon, 0xD000, [0x48, 0x7F, 0xA4, 0x00]⟩

theorem overridden_duration_reads :
    ∃ imported track,
      (importSong "db $48, $7f, $A4, $00" {}).outcome = .ok imported ∧
      ((Image.ofBlocks [overriddenBlock]).track .dungeon {} 0xD001).outcome = .ok track ∧
      imported.song.segments = [{ tracks := Segment.silent.tracks.set 0 track (by decide) }] := by
  have uploads : (Image.ofBlocks [overriddenBlock]).uploads .dungeon =
      .ok { bank := .dungeon, blocks := [overriddenBlock.placed] } := by
    rw [Image.uploads, if_pos (Image.isLoaded_ofBlocks _),
      Image.uploads_ofBlocks (by decide) (by decide)]
    rfl
  have stored : ({ bank := .dungeon, blocks := [overriddenBlock.placed] } : Uploads).from? 0xD001 =
      some (latest [0x48, 0x7F, 0xA4] ++ 0 :: []) := by decide
  have literals : List.Forall₂ IsLiteral ["$48", "$7f", "$A4", "$00"]
      ([0x48, 0x7F, 0xA4] ++ [0]) :=
    .cons ⟨'4', '8', rfl, rfl, rfl⟩ (.cons ⟨'7', 'f', rfl, rfl, rfl⟩
      (.cons ⟨'A', '4', rfl, rfl, rfl⟩ (.cons ⟨'0', '0', rfl, rfl, rfl⟩ .nil)))
  have plain : ∀ byte ∈ ([0x48, 0x7F, 0xA4] : List UInt8), IsPlain byte := by
    simp only [List.forall_mem_cons, IsPlain]
    exact ⟨by decide, by decide, by decide, by simp⟩
  have short : (Track.ofEvents (plainEvents {} {} [0x48, 0x7F, 0xA4])).ticks = 0x7F := by decide
  exact (import_literals {} literals plain uploads stored (by decide) (by decide)
    (by rw [short]; decide)).2

/-- In bytecode the second duration is the velocity of the note. -/
example :
    (Playback.run (fun _ _ _ _ => .ok 0) 0xD000 50000 { timing := {} }
      (Token.lex [0x48, 0x7F, 0xA4, 0x00])).outcome =
    .ok { track := .ofEvents [.note ⟨0xA4, 0x48, 0x7F, true⟩, .finish], ticks := 0x48 } :=
  Report.ok_of_toOption (by decide +kernel)

end Assembly
end SnesMusic
