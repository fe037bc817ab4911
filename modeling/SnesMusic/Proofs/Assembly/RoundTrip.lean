import SnesMusic.Proofs.Assembly.Reading

/-!
# Songs written and read back

Main statement: importing an exported song gives its canonical form, without warnings or errors
(`import_exported`).
-/
namespace SnesMusic.Assembly

open Text

namespace Importer

variable {options : ImportOptions} {s t u : Importer}

/-! ### Segments -/

/-- Lines of one word each count two bytes each. -/
theorem reads_cells {α : Type} {items : List α} {word : α → String}
    (each : ∀ item ∈ items, IsWord (word item)) :
    Reads options s (items.map fun item => .words [word item]) (s.count (2 * items.length)) := by
  induction items generalizing s with
  | nil => exact .nil
  | cons item rest ih =>
    rw [List.forall_mem_cons] at each
    have first : Reads options s [.words [word item]] (s.count 2) := by
      apply reads_words (by simp)
      intro value member
      rw [List.mem_singleton.mp member]
      exact each.1
    have sum : s.count (2 * (item :: rest).length) = (s.count 2).count (2 * rest.length) := by
      rw [List.length_cons, Nat.mul_succ, Nat.add_comm]
      simp only [count, Nat.add_assoc]
    rw [List.map_cons, sum]
    exact first.cons (ih each.2)

/-- The statements of a segment give its canonical form where there was silence. -/
theorem reads_segment (options : ImportOptions) {segment : Segment} {size : Nat}
    (silent : s.current = .silent)
    (space : tracksSpace segment.tracks.toList = .ok size)
    (named : ∀ track ∈ segment.tracks.toList, track.empty = false → Named track.events) :
    ∃ heard timing emitted, Reads options s (segmentStatements segment)
      { s with
        current := segment.canonical
        channel := heard
        timing
        emitted
        size := s.size + Song.tableSize + size } := by
  have cells : Reads options s (segment.tracks.toList.zipIdx.map fun cell =>
      .words [if cell.1.empty then "$0000" else "." ++ Statement.channelLabel ++ toString cell.2])
      (s.count (2 * segment.tracks.toList.zipIdx.length)) := by
    apply reads_cells
    rintro ⟨track, ch⟩ -
    simp only
    split
    · decide
    · exact (isName_toString ch).marked (by decide)
  rw [List.length_zipIdx, Vector.length_toList] at cells
  have quiet : ∀ i, 0 ≤ i → ∀ h : i < 8, s.current.tracks[i] = .silent := by
    intro i _ h
    rw [silent]
    exact Vector.getElem_replicate h
  have few : 0 + segment.tracks.toList.length ≤ 8 := Nat.le_of_eq (by rw [Vector.length_toList])
  obtain ⟨current, heard, timing, emitted, read, filled⟩ := reads_tracks options
    (s := s.count (2 * 8)) few quiet space named
  have whole : current = segment.canonical := by
    have every : s.current.tracks.toList.drop (0 + segment.tracks.toList.length) = [] :=
      List.drop_eq_nil_of_le (by simp)
    have same : current.tracks = segment.tracks.map Track.canonical := by
      apply Vector.toList_inj.mp
      rw [filled, Vector.toList_map, List.take_zero, List.nil_append]
      exact (congrArg _ every).trans (List.append_nil _)
    exact congrArg Segment.mk same
  refine ⟨heard, timing, emitted, ?_⟩
  rw [← whole]
  exact cells.append read

/-! ### Headings -/

theorem reads_address (base : UInt16) :
    Reads options s [.setting addressName (wordToken base)] { s with address := some base } := by
  have written : (Statement.setting addressName (wordToken base)).Written :=
    ⟨by decide, isWord_wordToken base⟩
  apply Reads.of_step written
  intro line
  have below : base.toNat < 0x10000 := base.toNat_lt
  show setting options _ addressName (wordToken base) = _
  rw [setting, if_pos rfl, number?_wordToken, Option.filter_some, decide_eq_true below]
  simp

theorem reads_loop {segment : Nat} (few : segment < UInt32.size) :
    Reads options s [.setting loopName (toString segment)]
      { s with loopPoint := some segment } := by
  have written : (Statement.setting loopName (toString segment)).Written :=
    ⟨by decide, (isName_toString segment).isWord⟩
  apply Reads.of_step written
  intro line
  show setting options _ loopName (toString segment) = _
  rw [setting, if_neg (by decide), if_pos rfl, number?_toString few]

theorem reads_label {name : String} (named : IsName name) :
    Reads options s [.label name] (s.enterLabel name) := by
  have written : (Statement.label name).Written := named
  apply Reads.of_step written
  intro line
  show Except.ok (enterLabel _ name) = _
  unfold enterLabel
  cases s.label <;> rfl

/-- The label of a segment. -/
def segmentLabel (label : String) (index : Nat) : String :=
  if index = 0 then label else s!"{label}_Segment{index}"

/-- A heading begins a segment. -/
theorem reads_heading {song : Song} {label : String} {base : UInt16} {pointer : Option UInt16}
    {index : Nat} (named : IsName label) :
    Reads options s (segmentHeading song label base pointer index)
      { s.enterLabel (segmentLabel label index) with address := some base } := by
  have labelled : Reads options s
      (if index = 0 then [.label label] else [.blank, .label s!"{label}_Segment{index}"])
      (s.enterLabel (segmentLabel label index)) := by
    unfold segmentLabel
    split
    · exact reads_label named
    · apply reads_blank.cons
      apply reads_label
      have joint : IsName "_Segment" := by decide
      exact (named.append joint).append (isName_toString index)
  have pointed : ∀ {s : Importer} (address : UInt16), Reads options s
      [.comment s!"segment {index} channel table at {wordToken address}"] s := by
    intro s address
    apply reads_comment
    have plain : ∀ {word : String}, IsWord word → '\n' ∉ word.toList :=
      fun word => word.not_mem (by decide)
    show '\n' ∉ ("segment " ++ toString index ++ " channel table at " ++ wordToken address).toList
    simp only [String.toList_append, List.mem_append, not_or]
    exact ⟨⟨⟨by decide, plain (isName_toString index).isWord⟩, by decide⟩,
      plain (isWord_wordToken address)⟩
  have looped : ∀ {s : Importer}, Reads options s
      (if song.loopPoint = some index then [.comment "loop start"] else []) s := by
    intro s
    split
    · exact reads_comment (by decide)
    · exact .nil
  have tables : ∀ {s : Importer}, Reads options s [.localLabel "Channels"] s := by
    intro s
    have written : (Statement.localLabel "Channels").Written := by
      constructor <;> decide
    exact .of_step written fun _ => rfl
  unfold segmentHeading
  refine (((labelled.append (reads_address base)).append ?_).append looped).append tables
  cases pointer with
  | none => exact .nil
  | some address => exact pointed address

/-- The statements of the segment at an index. -/
def segmentLines (song : Song) (label : String) (base : UInt16) (pointers : List UInt16)
    (segment : Segment) (index : Nat) : List Statement :=
  segmentHeading song label base pointers[index]? index ++ segmentStatements segment

/-- A segment that begins with silence is read in its canonical form. -/
theorem reads_segmentLines (options : ImportOptions) (song : Song) {label : String} (base : UInt16)
    (pointers : List UInt16) {segment : Segment} (index : Nat) {size : Nat} (named : IsName label)
    (silent : (s.enterLabel (segmentLabel label index)).current = .silent)
    (space : tracksSpace segment.tracks.toList = .ok size)
    (spoken : ∀ track ∈ segment.tracks.toList, track.empty = false → Named track.events) :
    ∃ heard timing emitted,
      Reads options s (segmentLines song label base pointers segment index)
        { s.enterLabel (segmentLabel label index) with
          address := some base
          current := segment.canonical
          channel := heard
          timing
          emitted
          size := s.size + Song.tableSize + size } := by
  have counted : (s.enterLabel (segmentLabel label index)).size = s.size := by
    unfold enterLabel
    cases s.label <;> rfl
  obtain ⟨heard, timing, emitted, read⟩ := reads_segment options
    (s := { s.enterLabel (segmentLabel label index) with address := some base })
    silent space spoken
  refine ⟨heard, timing, emitted, ?_⟩
  rw [← counted]
  exact (reads_heading named).append read

/-- Each further segment is read in its canonical form. -/
theorem reads_segments (options : ImportOptions) (song : Song) {label : String} {base : UInt16}
    (pointers : List UInt16) {segments : List Segment} {index size : Nat} (named : IsName label)
    (later : index ≠ 0) (begun : s.label = some label) (based : s.address = some base)
    (space : tracksSpace (segments.flatMap (·.tracks.toList)) = .ok size)
    (spoken : ∀ segment ∈ segments, ∀ track ∈ segment.tracks.toList, track.empty = false →
      Named track.events) :
    ∃ finished current heard timing emitted,
      Reads options s
        ((segments.zipIdx index).flatMap fun (segment, index) =>
          segmentLines song label base pointers segment index)
        { s with
          finished
          current
          channel := heard
          timing
          emitted
          size := s.size + segments.length * Song.tableSize + size } ∧
      (current :: finished).reverse =
        (s.current :: s.finished).reverse ++ segments.map Segment.canonical := by
  induction segments generalizing s index size with
  | nil =>
    have nothing : size = 0 := by simpa [tracksSpace] using space.symm
    refine ⟨s.finished, s.current, s.channel, s.timing, s.emitted, ?_, by simp⟩
    rw [nothing]
    simp only [List.length_nil, Nat.zero_mul, Nat.add_zero]
    exact .nil
  | cons segment rest ih =>
    rw [List.flatMap_cons] at space
    obtain ⟨own, others, first, behind, sum⟩ := tracksSpace_append_ok space
    have entered : s.enterLabel (segmentLabel label index) = enterChannel
        { s with finished := s.current :: s.finished, current := Segment.silent } 0 := by
      rw [enterLabel, begun]
    have silent : (s.enterLabel (segmentLabel label index)).current = .silent := by
      rw [entered]
      rfl
    rw [List.forall_mem_cons] at spoken
    obtain ⟨heard, timing, emitted, read⟩ := reads_segmentLines options song base pointers index
      named silent first spoken.1
    rw [entered, ← based] at read
    obtain ⟨finished, current, heard', timing', emitted', after, joined⟩ := ih
      (s := { s with
        finished := s.current :: s.finished
        current := segment.canonical
        channel := heard
        timing
        emitted
        size := s.size + Song.tableSize + own })
      (Nat.succ_ne_zero index) begun based behind spoken.2
    refine ⟨finished, current, heard', timing', emitted', ?_, ?_⟩
    · have total : s.size + (segment :: rest).length * Song.tableSize + size =
          s.size + Song.tableSize + own + rest.length * Song.tableSize + others := by
        rw [List.length_cons, Nat.succ_mul]
        omega
      rw [List.zipIdx_cons, List.flatMap_cons, total]
      exact read.append after
    · rw [joined]
      simp

/-! ### Songs -/

/-- The comments behind the name are passed over. -/
theorem reads_furtherComments (song : Song) : Reads options s (songComments song).tail s := by
  have bank : '\n' ∉ song.bank.name.toList := by cases song.bank <;> decide
  have digits : ∀ n : Nat, '\n' ∉ (toString n).toList :=
    fun n => (isName_toString n).isWord.not_mem (by decide)
  have named : '\n' ∉ ("Bank: " ++ song.bank.name).toList := by
    simp only [String.toList_append, List.mem_append, not_or]
    exact ⟨by decide, bank⟩
  have counted : '\n' ∉ (toString song.segments.length ++ " segment(s), " ++
      toString song.ticks ++ " ticks").toList := by
    simp only [String.toList_append, List.mem_append, not_or]
    exact ⟨⟨⟨digits _, by decide⟩, digits _⟩, by decide⟩
  exact (reads_comment named).cons ((reads_comment counted).cons reads_blank)

/-- Comments about a song whose name is one line are passed over. -/
theorem reads_songComments {song : Song} (single : '\n' ∉ song.name.toList) :
    Reads options s (songComments song) s :=
  (reads_comment single).cons (reads_furtherComments song)

/-- The statements of a song build its canonical form. -/
theorem reads_songStatements (options : ImportOptions) {song : Song} {writing : ExportOptions}
    {size : Nat} (segmented : song.segments ≠ []) (few : song.segments.length < UInt32.size)
    (looped : ∀ segment ∈ song.loopPoint, segment < song.segments.length)
    (space : tracksSpace song.tracks = .ok size)
    (spoken : ∀ track ∈ song.tracks, track.empty = false → Named track.events)
    (label : writing.label = none)
    (comments : writing.comments = true → '\n' ∉ song.name.toList) :
    ∃ finished current heard timing emitted,
      Reads options {} (songStatements song writing)
        { finished
          current
          channel := heard
          label := some (songLabel song.name)
          loopPoint := song.loopPoint
          address := some (writing.address.getD song.address)
          timing
          emitted
          size := song.segments.length * Song.tableSize + size } ∧
      (current :: finished).reverse = song.segments.map Segment.canonical := by
  have labelled := isName_songLabel song.name
  have commented : Reads options {}
      (if writing.comments then songComments song else []) {} := by
    split
    · exact reads_songComments (comments (by assumption))
    · exact .nil
  unfold songStatements
  rw [label]
  simp only [Option.getD_none]
  cases segments : song.segments with
  | nil => exact absurd segments segmented
  | cons segment rest =>
    have each : ∀ segment ∈ song.segments, ∀ track ∈ segment.tracks.toList, track.empty = false →
        Named track.events :=
      fun segment member track inside =>
        spoken track (List.mem_flatMap.mpr ⟨segment, member, inside⟩)
    rw [Song.tracks, segments, List.flatMap_cons] at space
    rw [segments, List.forall_mem_cons] at each
    obtain ⟨own, others, first, behind, sum⟩ := tracksSpace_append_ok space
    obtain ⟨heard, timing, emitted, read⟩ := reads_segmentLines options song
      (s := { loopPoint := song.loopPoint }) (writing.address.getD song.address)
      (segmentPointers song (writing.address.getD song.address)) 0 labelled rfl first each.1
    obtain ⟨finished, current, heard', timing', emitted', after, joined⟩ := reads_segments options
      song
      (s := {
        current := segment.canonical
        channel := heard
        label := some (songLabel song.name)
        loopPoint := song.loopPoint
        address := some (writing.address.getD song.address)
        timing
        emitted
        size := 0 + Song.tableSize + own })
      (segmentPointers song (writing.address.getD song.address)) labelled (Nat.succ_ne_zero 0) rfl
      rfl behind each.2
    have total : (segment :: rest).length * Song.tableSize + size =
        0 + Song.tableSize + own + rest.length * Song.tableSize + others := by
      rw [List.length_cons, Nat.succ_mul]
      omega
    refine ⟨finished, current, heard', timing', emitted', ?_, ?_⟩
    · rw [total, List.zipIdx_cons, List.flatMap_cons]
      refine (commented.append ?_).append (read.append after)
      cases loop : song.loopPoint with
      | none => exact .nil
      | some segment => exact reads_loop (Nat.lt_trans (looped segment loop) few)
    · rw [joined]
      rfl

end Importer

/-! ### Writing canonical songs -/

open Importer

/-- An event in canonical form is written the same. -/
theorem statements_canonical (t : Timing) (e : Event) :
    statements t (e.canonical t) = statements t e := by
  cases e with
  | note n => rfl
  | call address repeats => rfl
  | finish => rfl
  | command c =>
    by_cases call : c.opcode = callOpcode
    · obtain ⟨opcode, first, second, third⟩ := c
      subst call
      rw [Event.canonical_command_of_call t rfl, statements, statements, commandStatement_call,
        Command.target, LittleEndian.lowByte_word, LittleEndian.highByte_word]
      rfl
    · rw [Event.canonical_command_of_ne t call, statements, statements]
      have first : c.type? = some .setInstrument →
          (Command.ofParams c.opcode c.params).first = c.first := by
        intro set
        have single : arity firstOpcode = 1 := by decide
        rw [Command.ofParams, opcode_of_setInstrument c.opcode set, single]
        rfl
      have same : (if c.type? = some .setInstrument then
            instrumentName? (Command.ofParams c.opcode c.params).first else none) =
          if c.type? = some .setInstrument then instrumentName? c.first else none := by
        split
        · rw [first (by assumption)]
        · rfl
      have type : (Command.ofParams c.opcode c.params).type? = c.type? := rfl
      simp only [commandStatement, type, same, Command.used_ofParams_params,
        Command.opcode_ofParams]

theorem eventStatements_canonicalFrom {counted : Nat} {t : Timing} {events : List Event}
    (encodes : (Track.measureFrom counted t events).fault = none) :
    eventStatements t (Track.canonicalFrom t events) = eventStatements t events := by
  induction events generalizing counted t with
  | nil => rfl
  | cons e rest ih =>
    by_cases last : e = .finish
    · subst last
      rfl
    · have kept : e.canonical t ≠ .finish := fun h => last ((e.canonical_eq_finish_iff t).mp h)
      rw [Track.measureFrom_cons last] at encodes
      cases faulty : e.fault? t with
      | some fault => simp [faulty] at encodes
      | none =>
        rw [faulty] at encodes
        have faultless : (e.canonical t).fault? t = none := by rw [Event.fault?_canonical, faulty]
        rw [Track.canonicalFrom_cons last, eventStatements_cons kept faultless,
          eventStatements_cons last faulty, statements_canonical, Event.after_canonical,
          ih encodes]

theorem trackStatements_canonical {track : Track} {size : Nat}
    (space : track.requiredSpace = .ok size) (channel : Nat) :
    trackStatements track.canonical channel = trackStatements track channel := by
  cases empty : track.empty with
  | true => simp [trackStatements, Track.canonical, empty, Track.silent]
  | false =>
    have same : eventStatements {} track.canonical.events = eventStatements {} track.events := by
      rw [Track.canonical, empty]
      exact eventStatements_canonicalFrom (Track.measure_of_requiredSpace empty space).1
    rw [trackStatements, trackStatements, Track.canonical_empty, same]

theorem segmentStatements_canonical {segment : Segment}
    (sized : ∀ track ∈ segment.tracks.toList, ∃ own, track.requiredSpace = .ok own) :
    segmentStatements segment.canonical = segmentStatements segment := by
  have channels : segment.canonical.tracks.toList.zipIdx =
      segment.tracks.toList.zipIdx.map (Prod.map Track.canonical id) := by
    rw [Segment.canonical, Vector.toList_map, List.zipIdx_map]
  unfold segmentStatements
  simp only
  rw [channels, List.map_map, List.flatMap_map]
  congr 1
  · apply List.map_congr_left
    rintro ⟨track, channel⟩ -
    simp only [Function.comp_apply, Prod.map_apply, Track.canonical_empty, id_eq]
  · rw [List.flatMap_def, List.flatMap_def]
    congr 1
    apply List.map_congr_left
    rintro ⟨track, channel⟩ member
    obtain ⟨own, space⟩ := sized track (List.fst_mem_of_mem_zipIdx member)
    exact trackStatements_canonical space channel

/-! ### Round trips -/

/-- A text of statements is imported as what reading them gives. -/
theorem outcome_importSong {reading : ImportOptions} {statements : List Statement} {t : Importer}
    (read : Reads reading {} statements t) :
    (importSong (text statements) reading).outcome =
      .ok (t.finish reading [] statements.length) := by
  obtain ⟨reached, run_eq⟩ := read.run_eq 0 [] []
  have run : Importer.run reading {} [] (statements.map (·.render.toList)) =
      .ok ({ t with line := reached }, []) := by
    rw [List.append_nil] at run_eq
    exact run_eq
  unfold importSong
  rw [lines_text read.written]
  simp only [run, List.length_map]
  rfl

/-- The song that is read from the text of a song: its canonical form under its label at the
address that was written. -/
def readBack (song : Song) (base : UInt16) : Song :=
  { song.canonical with name := songLabel song.name, address := base, modified := false }

@[simp] theorem encode_readBack (song : Song) (base address : UInt16) :
    (readBack song base).encode address = song.encode address := by
  have same : (readBack song base).encode address = song.canonical.encode address := rfl
  rw [same, Song.encode_canonical]

/-- Without comments, a song that was read back is written the same. -/
theorem songStatements_readBack {song : Song} {options : ExportOptions} {size : Nat}
    (space : tracksSpace song.tracks = .ok size) (label : options.label = none)
    (comments : options.comments = false) :
    let base := options.address.getD song.address
    songStatements (readBack song base) { options with address := some base } =
      songStatements song options := by
  intro base
  have sized := requiredSpace_of_mem space
  have pointers : segmentPointers (readBack song base) base = segmentPointers song base := by
    have count : (readBack song base).segments.length = song.segments.length := List.length_map _
    rw [segmentPointers, encode_readBack, count, ← segmentPointers]
  have labels : songLabel (readBack song base).name = songLabel song.name :=
    songLabel_songLabel song.name
  have segments : (readBack song base).segments.zipIdx =
      song.segments.zipIdx.map fun (segment, index) => (segment.canonical, index) :=
    List.zipIdx_map ..
  unfold songStatements
  simp only [label, comments, Option.getD_none, Option.getD_some, labels, Bool.false_eq_true,
    if_false]
  rw [pointers, segments, List.flatMap_map]
  congr 1
  rw [List.flatMap_def, List.flatMap_def]
  congr 1
  apply List.map_congr_left
  rintro ⟨segment, index⟩ member
  have inside : segment ∈ song.segments := List.fst_mem_of_mem_zipIdx member
  have same : segmentStatements segment.canonical = segmentStatements segment :=
    segmentStatements_canonical fun track within =>
      sized track (List.mem_flatMap.mpr ⟨segment, inside, within⟩)
  simp only [same]
  rfl

/-- A song that is in canonical form already is read back as it is. -/
theorem readBack_of_canonical {song : Song} (canonical : song.canonical = song)
    (labelled : song.name = songLabel song.name) (unmodified : song.modified = false) :
    readBack song song.address = song := by
  rw [readBack, canonical, ← labelled, ← unmodified]

/-- Importing undoes exporting: for every song with segments that can be encoded and whose commands
can be written, the exported text is read in its canonical form, without warnings or errors. Both
songs have the same encoding, and the size that was counted is that of the song without its segment
list. Without comments the text of the song that was read is the same again. -/
theorem import_exported (song : Song) (options : ExportOptions) (reading : ImportOptions)
    {address : UInt16} {encoding : SongEncoding} (segmented : song.segments ≠ [])
    (few : song.segments.length < UInt32.size) (encoded : song.encode address = .ok encoding)
    (named : ∀ track ∈ song.tracks, track.empty = false → ∀ c,
      .command c ∈ Track.beforeEnd track.events → c.opcode ≠ 0xFB)
    (label : options.label = none)
    (comments : options.comments = true → '\n' ∉ song.name.toList)
    (bank : reading.bank = song.bank) :
    let base := options.address.getD song.address
    (∃ result : Imported,
      (importSong (exportSong song options) reading).outcome = .ok result ∧
      result.song = readBack song base ∧ result.address = some base ∧ result.warnings = [] ∧
      result.errors = [] ∧ song.requiredSpace = .ok (result.size + song.headerSize)) ∧
    (song.canonical = song → song.name = songLabel song.name → song.address = base →
      song.modified = false → readBack song base = song) ∧
    (∀ other, (readBack song base).encode other = song.encode other) ∧
    (options.comments = false →
      exportSong (readBack song base) { options with address := some base } =
        exportSong song options) := by
  intro base
  obtain ⟨tables, body, laid⟩ := Song.laid_of_encode encoded
  have space := Song.tracksSpace_of_layTracks laid.laid
  obtain ⟨finished, current, heard, timing, emitted, read, segments⟩ := reads_songStatements reading
    segmented few laid.looped space named label comments
  refine ⟨?_, ?_, fun other => encode_readBack song base other, ?_⟩
  · have present : song.loopPoint.filter (song.segments.length ≤ ·) = none := by
      rw [Option.filter_eq_none_iff]
      intro segment point
      have below := laid.looped segment point
      simp only [decide_eq_true_eq]
      omega
    refine ⟨_, outcome_importSong read, ?_, rfl, ?_, rfl, ?_⟩
    · simp only [finish, segments, List.length_map, present, Option.isSome_none,
        Bool.false_eq_true, if_false, bank]
      rfl
    · simp only [finish, segments, List.length_map, present, Option.toList_none, List.map_nil,
        List.append_nil, List.reverse_nil]
    · have total : song.tableOffset song.segments.length + body.length =
          song.segments.length * Song.tableSize + body.length + song.headerSize := by
        unfold Song.tableOffset
        omega
      rw [Song.requiredSpace, space]
      exact congrArg Except.ok total
  · intro canonical labelled based unmodified
    rw [← based]
    exact readBack_of_canonical canonical labelled unmodified
  · intro silent
    rw [exportSong, exportSong, songStatements_readBack space label silent]

/-! ### An example -/

/-- A song of two segments that loops to the second: a command with a parameter too many, notes, a
call and events behind the end marker on one channel, an opcode without a name and no end marker on
another. -/
def marchSong : Song := {
  name := "2. March!"
  segments := [
    { tracks := ((Vector.replicate 8 Track.silent).set 0 (.ofEvents [
        .command { opcode := 0xE0, first := 0x11 },
        .command { opcode := 0xE5, first := 0xC0, second := 0x07 },
        .note { pitch := 0xA5, duration := 0x24, velocity := 0x5F },
        .note { pitch := tiePitch, duration := 0x24, velocity := 0x5F, timed := true },
        .note { pitch := restPitch, duration := 0x25, velocity := 0x5F },
        .call 0xD000 2,
        .finish,
        .command { opcode := 0xFB }])).set 5 (.ofEvents [.command { opcode := 0xFC }]) },
    { tracks := (Vector.replicate 8 Track.silent).set 1 { events := [.finish], empty := true } }]
  loopPoint := some 1
  bank := .overworld
  address := 0xD036
  modified := true }

/-- The text of the song without comments about it. -/
def marchText : String := String.join ([
  "!LoopSegment = 1",
  "Song2March:", "!ARAMAddr = $D036", "; segment 0 channel table at $D03E", ".Channels:",
  "    dw .Channel0", "    dw $0000", "    dw $0000", "    dw $0000", "    dw $0000",
  "    dw .Channel5", "    dw $0000", "    dw $0000",
  "",
  ".Channel0:", "    %Trumpet()", "    %SetMasterVolume($C0)", "    %SetDurationN(!8th, $5F)",
  "    db Cs4", "    db Tie", "    db $25", "    db Rest", "    %CallSubroutine($00, $D0, $02)",
  "    db End",
  "",
  ".Channel5:", "    db $FC", "    db End",
  "",
  "Song2March_Segment1:", "!ARAMAddr = $D036", "; segment 1 channel table at $D04E",
  "; loop start", ".Channels:",
  "    dw $0000", "    dw $0000", "    dw $0000", "    dw $0000", "    dw $0000", "    dw $0000",
  "    dw $0000", "    dw $0000"].map (· ++ "\n"))

theorem march_song_imports :
    (∃ result : Imported,
      (importSong marchText { strict := true }).outcome = .ok result ∧
      result.song = readBack marchSong 0xD036 ∧ result.address = some 0xD036 ∧
      result.warnings = [] ∧ result.errors = [] ∧
      marchSong.requiredSpace = .ok (result.size + 8)) ∧
    (∀ other, (readBack marchSong 0xD036).encode other = marchSong.encode other) ∧
    exportSong (readBack marchSong 0xD036) { address := some 0xD036, comments := false } =
      marchText := by
  have encodes : (marchSong.encode 0).isOk = true := by decide +kernel
  have written : exportSong marchSong { comments := false } = marchText := by decide +kernel
  have opcodes : (marchSong.tracks.flatMap (Track.beforeEnd ·.events)).filterMap (fun e =>
      match e with
      | .command c => some c.opcode
      | _ => none) = [0xE0, 0xE5, 0xFC] := by decide
  have named : ∀ track ∈ marchSong.tracks, track.empty = false → ∀ c,
      .command c ∈ Track.beforeEnd track.events → c.opcode ≠ 0xFB := by
    intro track member _ c heard
    have listed : c.opcode ∈ ([0xE0, 0xE5, 0xFC] : List UInt8) := by
      rw [← opcodes]
      exact List.mem_filterMap.mpr ⟨.command c, List.mem_flatMap.mpr ⟨track, member, heard⟩, rfl⟩
    have all : ∀ opcode ∈ ([0xE0, 0xE5, 0xFC] : List UInt8), opcode ≠ 0xFB := by decide +kernel
    exact all _ listed
  cases encoded : marchSong.encode 0 with
  | error e => simp [encoded, Except.isOk, Except.toBool] at encodes
  | ok encoding =>
    have imported := import_exported marchSong { comments := false } { strict := true }
      (by decide) (by decide) encoded named rfl (by decide) rfl
    rw [written] at imported
    exact ⟨imported.1, imported.2.2.1, imported.2.2.2 rfl⟩

end SnesMusic.Assembly
