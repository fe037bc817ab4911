import SnesMusic.Proofs.Assembly.Lines
import SnesMusic.Proofs.Bytecode.Size
import SnesMusic.Proofs.Bytecode.TrackReading

/-!
# Exported statements carried out

`Importer.Reads` says what reading statements does to the song that is being built. Main statements:
the statements of an event add the event in canonical form (`reads_event`), those of events up to
the end marker extend a channel by what is read back from them (`reads_events`), and those of the
channels build the canonical tracks (`reads_tracks`).
-/
namespace SnesMusic.Assembly

open Text

namespace Importer

variable {options : ImportOptions} {s t u : Importer}

/-! ### Reading statements -/

/-- Reading the lines of statements takes `s` to `t`, whatever line is reached and whatever
follows. -/
structure Reads (options : ImportOptions) (s : Importer) (statements : List Statement)
    (t : Importer) : Prop where
  written : ∀ statement ∈ statements, statement.Written
  run_eq : ∀ line errors rest, ∃ reached,
    run options { s with line } errors (statements.map (·.render.toList) ++ rest) =
      run options { t with line := reached } errors rest

theorem Reads.nil : Reads options s [] s where
  written := by simp
  run_eq line _ _ := ⟨line, rfl⟩

theorem Reads.append {first second : List Statement} (left : Reads options s first t)
    (right : Reads options t second u) : Reads options s (first ++ second) u where
  written := by
    intro statement member
    rcases List.mem_append.mp member with before | behind
    · exact left.written statement before
    · exact right.written statement behind
  run_eq := by
    intro line errors rest
    obtain ⟨reached, half⟩ := left.run_eq line errors (second.map (·.render.toList) ++ rest)
    obtain ⟨arrived, whole⟩ := right.run_eq reached errors rest
    exact ⟨arrived, by rw [List.map_append, List.append_assoc, half, whole]⟩

theorem Reads.cons {statement : Statement} {rest : List Statement}
    (first : Reads options s [statement] t) (behind : Reads options t rest u) :
    Reads options s (statement :: rest) u :=
  first.append behind

/-- A statement does what its step says. -/
theorem Reads.of_step {statement : Statement} (written : statement.Written)
    (step_eq : ∀ line, step options { s with line } statement.reading = .ok { t with line }) :
    Reads options s [statement] t where
  written := by
    intro other member
    rw [List.mem_singleton.mp member]
    exact written
  run_eq := by
    intro line errors rest
    refine ⟨line + 1, ?_⟩
    rw [List.map_singleton, List.singleton_append, run, Statement.ofLine_render written]
    simp only [step_eq]

theorem reads_blank : Reads options s [.blank] s :=
  .of_step trivial fun _ => rfl

theorem reads_comment {text : String} (single : '\n' ∉ text.toList) :
    Reads options s [.comment text] s :=
  .of_step single fun _ => rfl

theorem reads_words {values : List String} (filled : values ≠ [])
    (each : ∀ value ∈ values, IsWord value) :
    Reads options s [.words values] (s.count (2 * values.length)) :=
  .of_step ⟨filled, each⟩ fun _ => rfl

/-! ### Values -/

theorem datum_note {pitch : UInt8} (plays : isPitch pitch = true) :
    s.datum options ((noteToken? pitch).getD (byteToken pitch)) =
      .ok ((s.note pitch).count 1) := by
  rw [datum, pitch?_noteToken pitch plays]
  simp only [if_neg (ne_zero_of_isPitch plays)]

theorem datum_end : s.datum options endToken = .ok ((s.push .finish).count 1) := by
  have token : pitch? endToken = some 0 := by decide
  rw [datum, token]
  rfl

theorem datum_byte (byte : UInt8) :
    s.datum options (byteToken byte) = (s.count 1).rawByte options byte := by
  rw [datum, pitch?_byteToken, duration?_byteToken, byteValue_byteToken]
  rfl

theorem datum_duration {duration : UInt8} (lasts : isDuration duration = true) :
    s.datum options (durationToken duration) =
      .ok ({ s with timing := { s.timing with duration } }.count 1) := by
  rcases duration?_durationToken duration with named | numeral
  · rw [datum, pitch?_durationToken, named]
  · rw [numeral, datum_byte, rawByte, if_neg (ne_zero_of_isDuration lasts), if_pos lasts]
    rfl

/-- The parameters of a command are taken in order. -/
theorem parameters_map_byteToken (name : String) (taken : List UInt8) {given : List UInt8}
    (few : taken.length + given.length ≤ 3) :
    parameters options name taken s (given.map byteToken) =
      .ok (some (taken.reverse ++ given), s) := by
  induction given generalizing taken with
  | nil => rw [List.map_nil, parameters, List.append_nil]
  | cons byte rest ih =>
    rw [List.length_cons] at few
    have room : taken.length < 3 := by omega
    rw [List.map_cons, parameters, byteValue_byteToken]
    show (if taken.length < 3 then _ else _) = _
    rw [if_pos room, ih (byte :: taken) (by rw [List.length_cons]; omega), List.reverse_cons,
      List.append_assoc, List.singleton_append]

/-- A command with all its parameters is added. -/
theorem command_map_byteToken (name : String) {opcode : UInt8} {given : List UInt8}
    (whole : given.length = arity opcode) :
    s.command options name opcode (given.map byteToken) =
      .ok ((s.push (Event.ofCommand (Command.ofParams opcode given))).count
        (1 + arity opcode)) := by
  have few : ([] : List UInt8).length + given.length ≤ 3 := by
    have bound := arity_le opcode
    simpa [whole] using bound
  have taken : s.parameters options name [] (given.map byteToken) = .ok (some given, s) :=
    parameters_map_byteToken name [] few
  simp only [command, taken, bind, Except.bind, if_pos whole]
  rfl

theorem setTiming_tokens {duration velocity : UInt8} (lasts : isDuration duration = true)
    (strikes : isDuration velocity = true) :
    s.setTiming options (durationToken duration) (byteToken velocity) =
      .ok ({ s with timing := { duration, velocity } }.count 2) := by
  simp only [setTiming, durationValue_durationToken lasts, velocityValue_byteToken strikes, take,
    bind, Except.bind]
  rfl

/-! ### Events -/

/-- The statements of an event while `t` is in force. -/
def statements (t : Timing) : Event → List Statement
  | .note n => timingStatements t n ++ [noteStatement n]
  | .command c => [commandStatement c]
  | .call address repeats => [
      .invocation "CallSubroutine" [byteToken (LittleEndian.lowByte address),
        byteToken (LittleEndian.highByte address), byteToken repeats]]
  | .finish => [.bytes [endToken]]

/-- Adds an event in canonical form, with the timing and the size it has. -/
def add (s : Importer) (e : Event) : Importer :=
  { s.push (e.canonical s.timing) with
    timing := e.after s.timing
    emitted := e.after s.timing
    size := s.size + e.size s.timing }

/-- One value of data. -/
theorem reads_value {value : String} (word : IsWord value)
    (step_eq : ∀ line, datum options { s with line } value = .ok { t with line }) :
    Reads options s [.bytes [value]] t := by
  have written : (Statement.bytes [value]).Written := by
    refine ⟨by simp, fun other member => ?_⟩
    rw [List.mem_singleton.mp member]
    exact word
  apply Reads.of_step written
  intro line
  show data options { s with line } [value] = _
  rw [data, step_eq]
  rfl

/-- The statements in front of a note set its timing. -/
theorem reads_timing {n : Note} (encodes : (Event.note n).fault? s.timing = none) :
    Reads options s (timingStatements s.timing n)
      { s with timing := n.timing, size := s.size + (s.timing.lead n.timing).size } := by
  obtain ⟨-, lasts, strikes⟩ := Event.note_of_fault?_eq_none encodes
  unfold timingStatements
  cases lead : s.timing.lead n.timing with
  | none =>
    rw [Timing.lead_eq_none_iff.mp lead]
    exact .nil
  | duration =>
    have lasts : isDuration n.duration = true := lasts (by simp [lead])
    have unstated : s.timing.lead n.timing ≠ .withVelocity := by simp [lead]
    have velocity : n.velocity = s.timing.velocity := Timing.velocity_of_lead_ne unstated
    have same : n.timing = { s.timing with duration := n.duration } :=
      congrArg (Timing.mk n.duration) velocity
    simp only [if_neg (ne_zero_of_isDuration lasts), Lead.size]
    rw [same]
    exact reads_value (isWord_durationToken _) fun _ => datum_duration lasts
  | withVelocity =>
    apply Reads.of_step
    · refine ⟨by decide, ?_⟩
      simp [isWord_durationToken, isWord_byteToken]
    · exact fun _ => setTiming_tokens (lasts (by simp [lead])) (strikes lead)

/-- An invocation by the name of a command adds the command. -/
theorem invoke_commandName {opcode : UInt8} {name : String} (arguments : List String)
    (named : commandName? opcode = some name) :
    s.invoke options name arguments = s.command options name opcode arguments := by
  have found := opcode?_commandName named
  rw [commandName?, Option.map_eq_some_iff] at named
  obtain ⟨type, -, same⟩ := named
  obtain ⟨unplayed, single, double⟩ := instrument?_name type
  rw [same] at unplayed single double
  unfold invoke
  rw [unplayed]
  simp only
  split
  · exact absurd rfl single
  · exact absurd rfl double
  · rw [found]

theorem isWord_of_mem_map_byteToken {given : List UInt8} :
    ∀ token ∈ given.map byteToken, IsWord token := by
  intro token member
  obtain ⟨byte, -, rfl⟩ := List.mem_map.mp member
  exact isWord_byteToken byte

/-- The shorthand of an instrument sets it. -/
theorem reads_shorthand {c : Command} {name : String} (set : c.type? = some .setInstrument)
    (short : instrumentName? c.first = some name) :
    Reads options s [.invocation name []]
      ((s.push (Event.ofCommand (.ofParams c.opcode c.used))).count (1 + arity c.opcode)) := by
  have opcode : c.opcode = firstOpcode := opcode_of_setInstrument c.opcode set
  have single : arity firstOpcode = 1 := by decide
  have used : c.used = [c.first] := by
    rw [Command.used, opcode, single]
    rfl
  have plain : Event.ofCommand (.ofParams firstOpcode [c.first]) =
      .command (.ofParams firstOpcode [c.first]) :=
    if_neg (by rw [Command.isCall_ofParams]; decide)
  have written : (Statement.invocation name []).Written := ⟨isName_instrumentName short, by simp⟩
  rw [opcode, used, plain, single]
  apply Reads.of_step written
  intro line
  show invoke options { s with line } name [] = _
  unfold invoke
  rw [instrument?_instrumentName short]
  rfl

/-- An opcode without a name has no parameters and is written as a byte. -/
theorem reads_nameless {c : Command} (opens : isOpcode c.opcode = true)
    (nameless : commandName? c.opcode = none) (named : c.opcode ≠ 0xFB) :
    Reads options s [.bytes ((c.opcode :: c.used).map byteToken)]
      ((s.push (Event.ofCommand (.ofParams c.opcode c.used))).count (1 + arity c.opcode)) := by
  have alone : arity c.opcode = 0 := arity_of_nameless _ opens nameless named
  have bare : c.used = [] := List.eq_nil_of_length_eq_zero (by rw [c.length_used, alone])
  simp only [bare, alone]
  apply reads_value (isWord_byteToken _)
  intro line
  rw [datum_byte, rawByte, if_neg (ne_zero_of_isOpcode opens), not_isDuration_of_isOpcode opens,
    not_isPitch_of_isOpcode opens, opens]
  rfl

/-- The statement of a command adds the command in canonical form. -/
theorem reads_command {c : Command} (opens : isOpcode c.opcode = true) (named : c.opcode ≠ 0xFB) :
    Reads options s [commandStatement c]
      ((s.push (Event.ofCommand (.ofParams c.opcode c.params))).count (1 + arity c.opcode)) := by
  unfold commandStatement
  rw [← Command.ofParams_used]
  cases short : (if c.type? = some .setInstrument then instrumentName? c.first else none) with
  | some name =>
    by_cases set : c.type? = some .setInstrument
    · rw [if_pos set] at short
      exact reads_shorthand set short
    · rw [if_neg set] at short
      contradiction
  | none =>
    cases called : commandName? c.opcode with
    | some name =>
      have word : IsName name := by
        have named := called
        rw [commandName?, Option.map_eq_some_iff] at named
        obtain ⟨type, -, rfl⟩ := named
        exact isName_name type
      have written : (Statement.invocation name (c.used.map byteToken)).Written :=
        ⟨word, isWord_of_mem_map_byteToken⟩
      apply Reads.of_step written
      intro line
      show invoke options { s with line } _ _ = _
      rw [invoke_commandName _ called]
      exact command_map_byteToken _ c.length_used
    | none => exact reads_nameless opens called named

/-- A call is written as the command that it is. -/
theorem commandStatement_call (first second third : UInt8) :
    commandStatement ⟨callOpcode, first, second, third⟩ =
      .invocation "CallSubroutine" [byteToken first, byteToken second, byteToken third] := by
  have type : CommandType.ofOpcode? callOpcode = some .callSubroutine := by decide
  have name : commandName? callOpcode = some "CallSubroutine" := by rw [commandName?, type]; rfl
  simp only [commandStatement, Command.type?, type, name, Command.used, Command.arity_callOpcode,
    Option.some.injEq, reduceCtorEq, if_false]
  rfl

/-- The statements of an event add the event in canonical form. -/
theorem reads_event {e : Event} (level : s.emitted = s.timing)
    (encodes : e.fault? s.timing = none) (named : ∀ c, e = .command c → c.opcode ≠ 0xFB) :
    Reads options s (statements s.timing e) (s.add e) := by
  cases e with
  | note n =>
    have plays : isPitch n.pitch = true := (Event.note_of_fault?_eq_none encodes).1
    have kept : (Event.note n).after s.timing = n.timing := if_pos plays
    apply (reads_timing encodes).append
    have written : noteStatement n = .bytes [(noteToken? n.pitch).getD (byteToken n.pitch)] :=
      if_pos plays
    rw [written]
    apply reads_value (isWord_noteToken _ plays)
    intro line
    rw [datum_note plays]
    unfold add
    rw [kept, Event.canonical, ← level]
    rfl
  | command c =>
    have opens : isOpcode c.opcode = true := by simpa [Event.fault?] using encodes
    have kept : s.add (.command c) =
        { (s.push (Event.ofCommand (.ofParams c.opcode c.params))).count (1 + arity c.opcode) with
          emitted := s.timing } := rfl
    rw [kept, ← level]
    exact reads_command opens (named c rfl)
  | call address repeats =>
    have plain : Event.canonical s.timing (.command ⟨callOpcode, LittleEndian.lowByte address,
        LittleEndian.highByte address, repeats⟩) = .call address repeats := by
      rw [Event.canonical_command_of_call s.timing rfl, Command.target, LittleEndian.word_bytes]
      rfl
    have kept : s.add (.call address repeats) =
        { (s.push (.call address repeats)).count (1 + 3) with emitted := s.timing } := rfl
    rw [kept, ← level, statements, ← commandStatement_call, ← plain, ← Command.arity_callOpcode]
    have opens : isOpcode callOpcode = true ∧ callOpcode ≠ 0xFB := by decide
    exact reads_command (c := ⟨callOpcode, _, _, _⟩) opens.1 opens.2
  | finish =>
    have kept : s.add .finish = { (s.push .finish).count 1 with emitted := s.timing } := rfl
    rw [kept, ← level]
    exact reads_value (by decide) fun _ => datum_end

/-! ### Channels -/

/-- Puts events behind those of a channel. -/
def extend (segment : Segment) (channel : Nat) (events : List Event) : Segment where
  tracks := segment.tracks.mapIdx fun i track =>
    if i = channel then .ofEvents (track.events ++ events) else track

theorem extend_eq (segment : Segment) {channel : Nat} (below : channel < 8) (events : List Event) :
    extend segment channel events =
      { tracks :=
          segment.tracks.set channel (.ofEvents (segment.tracks[channel].events ++ events)) } := by
  unfold extend
  congr 1
  apply Vector.ext
  intro i bound
  rw [Vector.getElem_mapIdx, Vector.getElem_set]
  by_cases here : i = channel
  · subst here
    simp
  · rw [if_neg here, if_neg (Ne.symm here)]

theorem extend_push (events : List Event) (e : Event) :
    extend (s.push e).current s.channel events = extend s.current s.channel (e :: events) := by
  simp [extend_eq _ s.channel.isLt, push, Track.push, Track.ofEvents]

theorem eventStatements_cons {t : Timing} {e : Event} (more : e ≠ .finish)
    (encodes : e.fault? t = none) (rest : List Event) :
    eventStatements t (e :: rest) = statements t e ++ eventStatements (e.after t) rest := by
  cases e with
  | note n =>
    have kept : (Event.note n).after t = n.timing :=
      if_pos (Event.note_of_fault?_eq_none encodes).1
    rw [eventStatements, statements, kept, List.append_assoc, List.singleton_append]
  | command c => rfl
  | call address repeats => rfl
  | finish => exact absurd rfl more

end Importer

/-- Whether every command up to the end can be written. The opcode that cannot has parameters and
no name. -/
def Named (events : List Event) : Prop :=
  ∀ c, Event.command c ∈ Track.beforeEnd events → c.opcode ≠ 0xFB

namespace Importer

variable {options : ImportOptions} {s t u : Importer}

/-- The statements of events extend the channel by the events that are read back, and the size by
the bytes that they take. -/
theorem reads_events {events : List Event} (level : s.emitted = s.timing)
    (encodes : (Track.measureFrom s.size s.timing events).fault = none) (named : Named events) :
    Reads options s (eventStatements s.timing events)
      { s with
        current := extend s.current s.channel (Track.canonicalFrom s.timing events)
        timing := (Track.measureFrom s.size s.timing events).timing
        emitted := (Track.measureFrom s.size s.timing events).timing
        size := (Track.measureFrom s.size s.timing events).size } := by
  -- The end marker, written or supplied.
  have ended : ∀ {s : Importer}, s.emitted = s.timing → Reads options s [.bytes [endToken]]
      { s with
        current := extend s.current s.channel [.finish]
        timing := s.timing
        emitted := s.timing
        size := s.size + 1 } := by
    intro s level
    rw [extend_eq _ s.channel.isLt]
    exact reads_event (e := .finish) level rfl (by simp)
  induction events generalizing s with
  | nil => exact ended level
  | cons e rest ih =>
    by_cases last : e = .finish
    · subst last
      exact ended level
    · rw [Track.measureFrom_cons last] at encodes ⊢
      cases faulty : e.fault? s.timing with
      | some fault => simp [faulty] at encodes
      | none =>
        rw [faulty] at encodes
        rw [Named, Track.beforeEnd_cons last] at named
        rw [eventStatements_cons last faulty, Track.canonicalFrom_cons last]
        have first : Reads options s (statements s.timing e) (s.add e) :=
          reads_event level faulty fun c same => named c (by rw [same]; exact List.mem_cons_self ..)
        have behind := ih (s := s.add e) rfl encodes
          fun c member => named c (List.mem_cons_of_mem _ member)
        have joined : extend (s.add e).current s.channel
            (Track.canonicalFrom (e.after s.timing) rest) = extend s.current s.channel
              (e.canonical s.timing :: Track.canonicalFrom (e.after s.timing) rest) :=
          extend_push _ _
        simp only
        rw [← joined]
        exact first.append behind

/-- The statements of a track at its channel. -/
def trackStatements (track : Track) (channel : Nat) : List Statement :=
  if track.empty then [] else .blank :: .channel channel :: eventStatements {} track.events

/-- The statements of a track put its canonical form where there was silence. -/
theorem reads_track (options : ImportOptions) {track : Track} {channel size : Nat}
    (below : channel < 8) (silent : s.current.tracks[channel] = .silent)
    (space : track.requiredSpace = .ok size) (named : track.empty = false → Named track.events) :
    ∃ heard timing emitted, Reads options s (trackStatements track channel)
      { s with
        current := { tracks := s.current.tracks.set channel track.canonical }
        channel := heard
        timing
        emitted
        size := s.size + size } := by
  unfold trackStatements
  cases empty : track.empty with
  | true =>
    have nothing : size = 0 := by simpa [Track.requiredSpace, empty] using space.symm
    have same : s.current.tracks.set channel track.canonical = s.current.tracks := by
      rw [Track.canonical, if_pos empty, ← silent, Vector.set_getElem_self]
    refine ⟨s.channel, s.timing, s.emitted, ?_⟩
    rw [nothing, same]
    exact .nil
  | false =>
    obtain ⟨encodes, counted⟩ := Track.measure_of_requiredSpace empty space
    have measured := Track.measureFrom_add s.size {} track.events
    have faultless : (Track.measureFrom s.size {} track.events).fault = none := by
      rw [measured]
      exact encodes
    have sized : (Track.measureFrom s.size {} track.events).size = s.size + size := by
      rw [measured, ← counted]
      rfl
    have filled : extend s.current channel (Track.canonicalFrom {} track.events) =
        { tracks := s.current.tracks.set channel track.canonical } := by
      rw [extend_eq _ below]
      simp [silent, Track.canonical, empty, Track.silent]
    have entered : Reads options s [.channel channel] (s.enterChannel ⟨channel, below⟩) := by
      have written : (Statement.channel channel).Written := below
      apply Reads.of_step written
      intro line
      show Except.ok (if h : channel < 8 then _ else _) = _
      rw [dif_pos below]
      rfl
    refine ⟨⟨channel, below⟩, (Track.measureFrom s.size {} track.events).timing,
      (Track.measureFrom s.size {} track.events).timing, reads_blank.cons (entered.cons ?_)⟩
    rw [← filled, ← sized]
    exact reads_events (s := s.enterChannel ⟨channel, below⟩) rfl faultless (named empty)

/-- The statements of tracks fill the channels from the given one on. -/
theorem reads_tracks (options : ImportOptions) {tracks : List Track} {channel size : Nat}
    (few : channel + tracks.length ≤ 8)
    (silent : ∀ i, channel ≤ i → ∀ h : i < 8, s.current.tracks[i] = .silent)
    (space : tracksSpace tracks = .ok size)
    (named : ∀ track ∈ tracks, track.empty = false → Named track.events) :
    ∃ current heard timing emitted,
      Reads options s
        ((tracks.zipIdx channel).flatMap fun (track, index) => trackStatements track index)
        { s with current, channel := heard, timing, emitted, size := s.size + size } ∧
      current.tracks.toList = s.current.tracks.toList.take channel ++
        tracks.map Track.canonical ++ s.current.tracks.toList.drop (channel + tracks.length) := by
  induction tracks generalizing channel s size with
  | nil =>
    have nothing : size = 0 := by simpa [tracksSpace] using space.symm
    refine ⟨s.current, s.channel, s.timing, s.emitted, ?_, ?_⟩
    · rw [nothing]
      exact .nil
    · simp
  | cons track rest ih =>
    rw [List.length_cons] at few
    obtain ⟨own, others, first, behind, sum⟩ := tracksSpace_cons_ok space
    have below : channel < 8 := by omega
    obtain ⟨heard, timing, emitted, read⟩ := reads_track options below
      (silent channel (Nat.le_refl _) below) first (named track (List.mem_cons_self ..))
    have quiet : ∀ i, channel + 1 ≤ i → ∀ h : i < 8,
        (s.current.tracks.set channel track.canonical)[i] = .silent := by
      intro i later h
      rw [Vector.getElem_set_ne _ _ (by omega)]
      exact silent i (by omega) h
    have fewer : channel + 1 + rest.length ≤ 8 := by omega
    obtain ⟨current, heard', timing', emitted', after, filled⟩ := ih
      (s := { s with
        current := { tracks := s.current.tracks.set channel track.canonical }
        channel := heard
        timing
        emitted
        size := s.size + own })
      fewer quiet behind fun other member => named other (List.mem_cons_of_mem _ member)
    refine ⟨current, heard', timing', emitted', ?_, ?_⟩
    · rw [List.zipIdx_cons, List.flatMap_cons, sum, ← Nat.add_assoc]
      exact read.append after
    · have long : channel < s.current.tracks.toList.length := by
        rw [Vector.length_toList]
        exact below
      rw [filled, Vector.toList_set, List.set_eq_take_append_cons_drop, if_pos long]
      generalize s.current.tracks.toList = tracks at long
      have front : (tracks.take channel ++ [track.canonical]).length = channel + 1 := by
        rw [List.length_append, List.length_take_of_le (Nat.le_of_lt long), List.length_singleton]
      rw [List.append_cons _ _ (tracks.drop (channel + 1)), List.take_left' front,
        ← List.drop_drop, List.drop_left' front, List.drop_drop, List.map_cons, List.length_cons,
        Nat.add_right_comm channel 1, Nat.add_assoc, List.append_assoc _ [track.canonical],
        List.singleton_append]

end Importer
end SnesMusic.Assembly
