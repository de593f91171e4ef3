import Baley.Mcp.Identified

/-!
# Reading an id

The decoder is followed from the key of a top-level member through a value that is repeated as an id,
and so it notes the id as soon as the value is complete.
-/

namespace Baley.Mcp.Frame

open Json Json.Grammar

/-! ## Following a member -/

theorem feed_space {decoder : Decoder} (token : decoder.token = .none) {byte : UInt8}
    (space : isSpace byte = true) :
    decoder.feed byte = ({ decoder with frame := decoder.frame ++ [byte] }, none) := by
  simp [Decoder.feed, Decoder.advance, token, Decoder.between, space]

theorem reached_spaces {decoder : Decoder} (reached : Reached decoder) (token : decoder.token = .none)
    {space : List UInt8} (spaces : Spaces space) (no_newline : 0x0a ∉ space) :
    Reached { decoder with frame := decoder.frame ++ space } := by
  induction space generalizing decoder with
  | nil =>
      rw [List.append_nil]
      exact reached
  | cons byte space ih =>
      rw [List.mem_cons, not_or] at no_newline
      obtain ⟨space_byte, spaces⟩ := spaces_cons.mp spaces
      have is_space := (isSpace_iff (Ne.symm no_newline.1)).mpr space_byte
      have next : Reached { decoder with frame := decoder.frame ++ [byte] } :=
        .more reached (Ne.symm no_newline.1) (feed_space token is_space)
      have after := ih next token spaces no_newline.2
      rwa [List.append_assoc, List.singleton_append] at after

theorem feed_keyOpened {decoder : Decoder} (token : decoder.token = .none)
    (expect : decoder.expect = .key ∨ decoder.expect = .keyOrEnd) :
    ∃ after, decoder.feed 0x22 = (after, none) ∧ after.token = .str true .plain ∧
      after.stack = decoder.stack ∧ after.keyLen = 0 ∧ after.id = decoder.id := by
  refine ⟨{ decoder with
      frame := decoder.frame ++ [0x22]
      started := true
      keyLen := 0
      keyHead := (0, 0)
      token := .str true .plain }, ?_, rfl, rfl, rfl, rfl⟩
  rcases expect with expect | expect <;>
    simp [Decoder.feed, Decoder.advance, token, Decoder.between, isSpace, Decoder.structural, expect]

theorem feed_keyFirst {decoder : Decoder} (token : decoder.token = .str true .plain)
    (outer : decoder.stack = [.object]) (none_yet : decoder.keyLen = 0) :
    ∃ after, decoder.feed 0x69 = (after, none) ∧ after.token = .str true .plain ∧
      after.stack = [.object] ∧ after.keyLen = 1 ∧ after.keyHead.1 = 0x69 ∧ after.id = decoder.id := by
  refine ⟨{ decoder with
      frame := decoder.frame ++ [0x69]
      keyLen := 1
      keyHead := (0x69, decoder.keyHead.2) }, ?_, token, outer, rfl, rfl, rfl⟩
  simp [Decoder.feed, Decoder.advance, token, Decoder.stringByte, Decoder.noteKey, Decoder.stringOn,
    outer, none_yet]

theorem feed_keySecond {decoder : Decoder} (token : decoder.token = .str true .plain)
    (outer : decoder.stack = [.object]) (one : decoder.keyLen = 1) (first : decoder.keyHead.1 = 0x69) :
    ∃ after, decoder.feed 0x64 = (after, none) ∧ after.token = .str true .plain ∧ after.keyLen = 2 ∧
      after.keyHead = (0x69, 0x64) ∧ after.id = decoder.id := by
  refine ⟨{ decoder with
      frame := decoder.frame ++ [0x64]
      keyLen := 2
      keyHead := (0x69, 0x64) }, ?_, token, rfl, rfl, rfl⟩
  simp [Decoder.feed, Decoder.advance, token, Decoder.stringByte, Decoder.noteKey, Decoder.stringOn,
    outer, one, first]

theorem feed_keyClosed {decoder : Decoder} (token : decoder.token = .str true .plain)
    (two : decoder.keyLen = 2) (head : decoder.keyHead = (0x69, 0x64)) :
    ∃ after, decoder.feed 0x22 = (after, none) ∧ after.token = .none ∧ after.expect = .colon ∧
      after.keyIsId = true ∧ after.id = decoder.id := by
  refine ⟨{ decoder with
      frame := decoder.frame ++ [0x22]
      token := .none
      keyIsId := true
      expect := .colon }, ?_, rfl, rfl, rfl, rfl⟩
  simp [Decoder.feed, Decoder.advance, token, Decoder.stringByte, Decoder.stringDone, two, head]

/-- The key of a top-level member that names an id. -/
theorem reached_idKey {decoder : Decoder} (reached : Reached decoder) (token : decoder.token = .none)
    (outer : decoder.stack = [.object]) (expect : decoder.expect = .key ∨ decoder.expect = .keyOrEnd) :
    ∃ after, Reached after ∧ after.frame = decoder.frame ++ idKey ∧ after.token = .none ∧
      after.expect = .colon ∧ after.keyIsId = true ∧ after.id = decoder.id := by
  obtain ⟨opened, opening, opened_token, stack_eq, none_yet, opened_id⟩ := feed_keyOpened token expect
  obtain ⟨first, first_fed, first_token, first_stack, one, first_head, first_id⟩ :=
    feed_keyFirst opened_token (stack_eq.trans outer) none_yet
  obtain ⟨second, second_fed, second_token, two, head, second_id⟩ :=
    feed_keySecond first_token first_stack one first_head
  obtain ⟨closed, closing, closed_token, closed_expect, is_id, closed_id⟩ :=
    feed_keyClosed second_token two head
  have reached := Reached.more reached (by decide) opening
  have reached := Reached.more reached (by decide) first_fed
  have reached := Reached.more reached (by decide) second_fed
  have reached := Reached.more reached (by decide) closing
  refine ⟨closed, reached, ?_, closed_token, closed_expect, is_id, ?_⟩
  · have opened_frame := frame_feed decoder 0x22
    have first_frame := frame_feed opened 0x69
    have second_frame := frame_feed first 0x64
    have closed_frame := frame_feed second 0x22
    rw [opening] at opened_frame
    rw [first_fed, opened_frame] at first_frame
    rw [second_fed, first_frame] at second_frame
    rw [closing, second_frame] at closed_frame
    simpa [idKey] using closed_frame
  · rw [closed_id, second_id, first_id, opened_id]

theorem feed_colon (decoder : Decoder) (token : decoder.token = .none) (expect : decoder.expect = .colon)
    (is_id : decoder.keyIsId = true) (no_id : decoder.id = none) :
    ∃ after, decoder.feed 0x3a = (after, none) ∧ after.token = .none ∧ after.expect = .value ∧
      after.idSlot = true ∧ after.id = none := by
  refine ⟨{ decoder with
      frame := decoder.frame ++ [0x3a]
      started := true
      idSlot := true
      expect := .value }, ?_, token, rfl, rfl, no_id⟩
  simp [Decoder.feed, Decoder.advance, token, Decoder.between, isSpace, Decoder.structural, expect,
    is_id, no_id]

/-- An id that was read stays. -/
theorem Reached.id_kept {decoder before : Decoder} (reached : Reached decoder)
    (before_reached : Reached before) {rest : List UInt8} (frame_eq : decoder.frame = before.frame ++ rest)
    {id : Value} (found : before.id = some id) : decoder.id = some id := by
  induction reached generalizing rest with
  | new =>
      obtain ⟨before_nil, -⟩ := List.append_eq_nil_iff.mp frame_eq.symm
      obtain rfl : before = .new := before_reached.unique .new before_nil
      exact found
  | @more earlier after byte reached not_newline taken ih =>
      have fed := frame_feed earlier byte
      rw [taken] at fed
      rcases List.eq_nil_or_concat rest with rfl | ⟨rest, last, rfl⟩
      · rw [List.append_nil] at frame_eq
        rwa [(Reached.more reached not_newline taken).unique before_reached frame_eq]
      · rw [frame_eq, List.concat_eq_append, ← List.append_assoc] at fed
        have kept : (earlier.feed byte).1.id = some id :=
          id_feed_some reached.tracks (ih (List.append_inj' fed rfl).1.symm)
        rwa [taken] at kept

/-- The place of the value of a top-level member that names an id. -/
theorem reached_idFront {decoder : Decoder} (reached : Reached decoder) (no_id : decoder.id = none)
    {front rest : List UInt8} (frame_eq : decoder.frame = front ++ rest) (id_front : IdFront front) :
    ∃ place, Reached place ∧ place.frame = front ∧ place.token = .none ∧ place.expect = .value ∧
      place.idSlot = true ∧ place.id = none := by
  obtain ⟨before, space, space', rfl, takes, spaces, spaces'⟩ := id_front
  have no_newline := reached.no_newline
  simp only [frame_eq, List.mem_append, List.mem_cons, not_or] at no_newline
  obtain ⟨⟨-, -, no_newline, -, no_newline'⟩, -⟩ := no_newline
  rw [List.append_assoc] at frame_eq
  obtain ⟨keyed, keyed_reached, rfl⟩ := reached.start frame_eq
  obtain ⟨token, outer, expect⟩ := (takesMember_iff keyed_reached.follows).mp takes
  have keyed_id : keyed.id = none := by
    by_contra found
    obtain ⟨id, found⟩ := Option.ne_none_iff_exists'.mp found
    rw [reached.id_kept keyed_reached frame_eq found] at no_id
    cases no_id
  obtain ⟨named, named_reached, named_frame, named_token, named_expect, is_id, named_id⟩ :=
    reached_idKey keyed_reached token outer expect
  have spaced_reached := reached_spaces named_reached named_token spaces no_newline
  obtain ⟨place, colon_fed, place_token, place_expect, slot, place_id⟩ :=
    feed_colon { named with frame := named.frame ++ space } named_token named_expect is_id
      (named_id.trans keyed_id)
  have fed := frame_feed { named with frame := named.frame ++ space } 0x3a
  rw [colon_fed] at fed
  have place_frame : place.frame = named.frame ++ space ++ [0x3a] := fed
  have place_reached := Reached.more spaced_reached (by decide) colon_fed
  refine ⟨_, reached_spaces place_reached place_token spaces' no_newline', ?_, place_token, place_expect,
    slot, place_id⟩
  simp [place_frame, named_frame]

theorem feed_quote {decoder : Decoder} (expects : decoder.ExpectsValue) :
    ∃ after, decoder.feed 0x22 = (after, none) ∧ after.token = .str false .plain ∧
      after.idStart = (if decoder.idSlot then some decoder.frame.length else decoder.idStart) ∧
      after.id = decoder.id := by
  refine ⟨{ decoder with
      frame := decoder.frame ++ [0x22]
      started := true
      idSlot := false
      idStart := if decoder.idSlot then some decoder.frame.length else decoder.idStart
      token := .str false .plain }, ?_, rfl, rfl, rfl⟩
  obtain ⟨token, expect | expect⟩ := expects <;>
    simp [Decoder.feed, Decoder.advance, token, Decoder.between, isSpace, Decoder.structural, expect,
      Decoder.startValue]

/-- A byte of a value's string that does not close it. -/
theorem feed_str {decoder : Decoder} {escape next : Escape} (token : decoder.token = .str false escape)
    {byte : UInt8} (goes_on : ∀ other : Decoder, other.stringByte byte false escape = other.stringOn false next) :
    decoder.feed byte =
      ({ decoder with frame := decoder.frame ++ [byte], token := .str false next }, none) := by
  simp only [Decoder.feed, Decoder.advance, token, goes_on]
  rfl

theorem reached_str {decoder : Decoder} (reached : Reached decoder) {escape : Escape} (next : Escape)
    (token : decoder.token = .str false escape) {byte : UInt8} (not_newline : ¬0x0a = byte)
    (goes_on : ∀ other : Decoder, other.stringByte byte false escape = other.stringOn false next) :
    Reached { decoder with frame := decoder.frame ++ [byte], token := .str false next } :=
  .more reached (Ne.symm not_newline) (feed_str token goes_on)

theorem reached_hex {decoder : Decoder} (reached : Reached decoder) {digits : List UInt8} {left : Nat}
    (token : decoder.token = .str false (.hex (left + 1))) (count : digits.length = left + 1)
    (hex : ∀ digit ∈ digits, IsHexDigit digit) (no_newline : 0x0a ∉ digits) :
    Reached { decoder with frame := decoder.frame ++ digits, token := .str false .plain } := by
  induction digits generalizing decoder left with
  | nil => cases count
  | cons digit digits ih =>
      obtain ⟨digit_hex, hex⟩ := List.forall_mem_cons.mp hex
      rw [List.mem_cons, not_or] at no_newline
      have ascii := isAsciiHexDigit_iff.mpr digit_hex
      cases left with
      | zero =>
          obtain rfl : digits = [] := List.length_eq_zero_iff.mp (by simpa using count)
          exact reached_str reached .plain token no_newline.1 fun other => by
            simp [Decoder.stringByte, ascii]
      | succ left =>
          have next := reached_str reached (.hex (left + 1)) token no_newline.1 fun other => by
            simp [Decoder.stringByte, ascii]
          have after := ih next rfl (by simpa using count) hex no_newline.2
          simpa using after

/-- A value's string up to its closing quote. -/
theorem reached_body {decoder : Decoder} (reached : Reached decoder)
    (token : decoder.token = .str false .plain) {body : List UInt8} (isBody : IsBody body)
    (no_newline : 0x0a ∉ body) :
    ∃ front, body = front ++ [0x22] ∧
      Reached { decoder with frame := decoder.frame ++ front, token := .str false .plain } := by
  induction isBody generalizing decoder with
  | closing =>
      refine ⟨[], rfl, ?_⟩
      rw [List.append_nil, ← token]
      exact reached
  | @plain byte rest printable not_quote not_backslash isBody ih =>
      rw [List.mem_cons, not_or] at no_newline
      have next := reached_str reached .plain token no_newline.1 fun other => by
        simp [Decoder.stringByte, not_quote, not_backslash, printable_iff.mpr printable]
      obtain ⟨front, rfl, after⟩ := ih next rfl no_newline.2
      exact ⟨byte :: front, rfl, by simpa using after⟩
  | @escaped byte rest escapes isBody ih =>
      rw [List.mem_cons, List.mem_cons, not_or, not_or] at no_newline
      have slash := reached_str reached .slash token no_newline.1 fun other => by
        simp [Decoder.stringByte]
      have next := reached_str slash .plain rfl no_newline.2.1 fun other => by
        have named : byte = 0x22 ∨ byte = 0x5c ∨ byte = 0x2f ∨ byte = 0x62 ∨ byte = 0x66 ∨ byte = 0x6e ∨
            byte = 0x72 ∨ byte = 0x74 := by simpa [escapable] using escapes
        rw [Decoder.stringByte, if_pos named]
      obtain ⟨front, rfl, after⟩ := ih next rfl no_newline.2.2
      exact ⟨0x5c :: byte :: front, rfl, by simpa using after⟩
  | @unicode digits rest four hex isBody ih =>
      rw [List.mem_cons, List.mem_cons, List.mem_append, not_or, not_or, not_or] at no_newline
      have slash := reached_str reached .slash token no_newline.1 fun other => by
        simp [Decoder.stringByte]
      have letter := reached_str slash (.hex 4) rfl no_newline.2.1 fun other => by
        simp [Decoder.stringByte]
      have next := reached_hex letter rfl four hex no_newline.2.2.1
      obtain ⟨front, rfl, after⟩ := ih next rfl no_newline.2.2.2
      exact ⟨0x5c :: 0x75 :: (digits ++ front), by simp, by simpa using after⟩

/-! ## The first id -/

theorem exists_closing {body : List UInt8} (isBody : IsBody body) : ∃ front, body = front ++ [0x22] := by
  induction isBody with
  | closing => exact ⟨[], rfl⟩
  | plain _ _ _ _ ih =>
      obtain ⟨front, rfl⟩ := ih
      exact ⟨_ :: front, rfl⟩
  | escaped _ _ ih =>
      obtain ⟨front, rfl⟩ := ih
      exact ⟨_ :: _ :: front, rfl⟩
  | @unicode digits _ _ _ _ ih =>
      obtain ⟨front, rfl⟩ := ih
      exact ⟨0x5c :: 0x75 :: (digits ++ front), by simp⟩

theorem not_delimiter_of_atom {atom : List UInt8} (isAtom : IsAtom atom) :
    ∀ byte ∈ atom, isDelimiter byte = false := by
  have plain : ∀ byte ∈ atomBytes, isDelimiter byte = false := by decide +kernel
  exact fun byte byte_mem => plain byte (isAtom.subset byte byte_mem)

/-- Where an id is complete with a byte, the decoder reads its value. -/
theorem token_of_completesId {decoder : Decoder} (reached : Reached decoder) (no_id : decoder.id = none)
    {byte : UInt8} {id : Value} (completes : CompletesId (decoder.frame ++ [byte]) id) :
    ∃ start, decoder.idStart = some start ∧ start ≤ decoder.frame.length ∧
      (decoder.token = .str false .plain ∧ byte = 0x22 ∧
          UsableId ((decoder.frame ++ [byte]).drop start) id ∨
        decoder.token = .atom start ∧ (isDelimiter byte = true ∨ byte = 0x0a) ∧
          IsAtom (decoder.frame.drop start) ∧ UsableId (decoder.frame.drop start) id) := by
  obtain ⟨front, value, after, frame_eq, id_front, usable, complete⟩ := completes
  rcases complete with ⟨⟨body, rfl, isBody⟩, rfl⟩ | ⟨atom, last, rfl, ends⟩
  · obtain ⟨inner, rfl⟩ := exists_closing isBody
    have split : front ++ (0x22 :: (inner ++ [0x22]) ++ []) = front ++ (0x22 :: inner) ++ [0x22] := by simp
    rw [split] at frame_eq
    obtain ⟨same_frame, same_byte⟩ := List.append_inj' frame_eq rfl
    cases same_byte
    have no_newline := reached.no_newline
    rw [same_frame, List.mem_append, List.mem_cons, not_or, not_or] at no_newline
    obtain ⟨place, place_reached, rfl, token, expect, slot, place_id⟩ :=
      reached_idFront reached no_id same_frame id_front
    obtain ⟨next, fed, next_token, next_start, -⟩ := feed_quote ⟨token, .inl expect⟩
    have next_frame := frame_feed place 0x22
    rw [fed] at next_frame
    have next_frame : next.frame = place.frame ++ [0x22] := next_frame
    have next_reached := Reached.more place_reached (by decide) fed
    obtain ⟨inner', same, after⟩ := reached_body next_reached next_token isBody (by
      rw [List.mem_append, not_or]
      exact ⟨no_newline.2.2, by simp⟩)
    obtain rfl := (List.append_inj' same rfl).1
    obtain rfl := reached.unique after (by simp [same_frame, next_frame])
    refine ⟨place.frame.length, ?_, ?_, .inl ⟨rfl, rfl, ?_⟩⟩
    · rw [next_start, if_pos slot]
    · rw [same_frame, List.length_append]
      omega
    · rw [frame_eq, List.append_assoc, List.drop_left]
      simpa using usable
  · rw [← List.append_assoc] at frame_eq
    obtain ⟨same_frame, same_byte⟩ := List.append_inj' frame_eq rfl
    cases same_byte
    have no_newline := reached.no_newline
    rw [same_frame, List.mem_append, not_or] at no_newline
    obtain ⟨place, place_reached, rfl, token, expect, slot, place_id⟩ :=
      reached_idFront reached no_id same_frame id_front
    have plain := not_delimiter_of_atom atom
    obtain ⟨first, rest, rfl, start⟩ := atom.start
    rw [List.mem_cons, not_or] at no_newline
    obtain ⟨next, fed, next_token, next_start, -⟩ := feed_atomStart ⟨token, .inl expect⟩ start
    have next_frame := frame_feed place first
    rw [fed] at next_frame
    have next_frame : next.frame = place.frame ++ [first] := next_frame
    have next_reached := Reached.more place_reached (Ne.symm no_newline.2.1) fed
    have after := reached_atom next_reached next_token no_newline.2.2 (List.forall_mem_cons.mp plain).2
    obtain rfl := reached.unique after (by simp [same_frame, next_frame])
    refine ⟨place.frame.length, ?_, ?_, .inr ⟨next_token, ends, ?_, ?_⟩⟩
    · rw [next_start, if_pos slot]
    · rw [same_frame, List.length_append]
      omega
    · rw [same_frame, List.drop_left]
      exact atom
    · rw [same_frame, List.drop_left]
      exact usable

/-- An id that is complete with a byte is noted. -/
theorem id_feed_of_completes {decoder : Decoder} (reached : Reached decoder) (no_id : decoder.id = none)
    {byte : UInt8} (not_newline : byte ≠ 0x0a) {id : Value}
    (completes : CompletesId (decoder.frame ++ [byte]) id) : (decoder.feed byte).1.id = some id := by
  obtain ⟨start, started, inside, ⟨token, rfl, usable⟩ | ⟨token, ends, atom, usable⟩⟩ :=
    token_of_completesId reached no_id completes
  · obtain ⟨short, read⟩ := usableId_iff.mp usable
    rw [List.length_drop] at short
    rw [id_feed_str token, if_pos ⟨rfl, rfl, rfl⟩, id_valueDone]
    simp only [started, List.take_length]
    rw [if_pos short, read]
  · obtain ⟨short, read⟩ := usableId_iff.mp usable
    rw [List.length_drop] at short
    rw [id_feed_atom token, if_pos ⟨ends.resolve_right not_newline, (validAtom_iff _).mpr atom⟩, id_valueDone]
    simp only [started, List.take_left]
    rw [if_pos short, read]

theorem firstId_nil {id : Option Value} : FirstId [] id ↔ id = none := by
  have nothing {front rest : List UInt8} {id : Value} (bytes_eq : [] = front ++ rest) :
      ¬CompletesId front id := by
    rintro ⟨before, value, after, rfl, ⟨_, _, _, rfl, -⟩, -⟩
    simp [idKey] at bytes_eq
  constructor
  · intro first
    cases first with
    | none => rfl
    | some bytes_eq completes => exact absurd completes (nothing bytes_eq)
  · rintro rfl
    exact .none fun front rest id bytes_eq => nothing bytes_eq

/-- The first id after one more byte. -/
theorem firstId_concat {bytes : List UInt8} {byte : UInt8} {id : Option Value} :
    FirstId (bytes ++ [byte]) id ↔
      (∃ found, FirstId bytes (some found) ∧ id = some found) ∨
        FirstId bytes none ∧ ((id = none ∧ ∀ other, ¬CompletesId (bytes ++ [byte]) other) ∨
          ∃ found, id = some found ∧ CompletesId (bytes ++ [byte]) found) := by
  constructor
  · intro first
    cases first with
    | none no_id =>
        have earlier : FirstId bytes none := .none fun front rest id bytes_eq =>
          no_id front (rest ++ [byte]) id (by rw [bytes_eq, List.append_assoc])
        exact .inr ⟨earlier, .inl ⟨rfl, fun other => no_id _ [] other (by simp)⟩⟩
    | @some front rest found bytes_eq completes first =>
        rcases List.eq_nil_or_concat rest with rfl | ⟨rest, last, rfl⟩
        · rw [List.append_nil] at bytes_eq
          subst bytes_eq
          have earlier : FirstId bytes none := .none fun front rest id bytes_eq =>
            first front (rest ++ [byte]) id (by rw [bytes_eq, List.append_assoc])
              (by simp [bytes_eq])
          exact .inr ⟨earlier, .inr ⟨found, rfl, completes⟩⟩
        · rw [List.concat_eq_append, ← List.append_assoc] at bytes_eq
          obtain ⟨rfl, same_byte⟩ := List.append_inj' bytes_eq rfl
          refine .inl ⟨found, .some rfl completes fun front' rest' id' bytes_eq shorter => ?_, rfl⟩
          exact first front' (rest' ++ [byte]) id' (by rw [bytes_eq, List.append_assoc]) shorter
  · rintro (⟨found, first, rfl⟩ | ⟨first, ⟨rfl, no_other⟩ | ⟨found, rfl, completes⟩⟩)
    · cases first with
      | @some front rest found bytes_eq completes first =>
          refine .some (by rw [bytes_eq, List.append_assoc]) completes
            fun front' rest' id' same shorter => ?_
          rcases List.eq_nil_or_concat rest' with rfl | ⟨rest', last, rfl⟩
          · have long := congrArg List.length same
            rw [bytes_eq] at long
            simp only [List.length_append, List.length_singleton, List.append_nil] at long
            omega
          · rw [List.concat_eq_append, ← List.append_assoc] at same
            exact first front' rest' id' (List.append_inj' same rfl).1 shorter
    · cases first with
      | none no_id =>
          refine .none fun front rest id same => ?_
          rcases List.eq_nil_or_concat rest with rfl | ⟨rest, last, rfl⟩
          · rw [List.append_nil] at same
            rw [← same]
            exact no_other id
          · rw [List.concat_eq_append, ← List.append_assoc] at same
            exact no_id front rest id (List.append_inj' same rfl).1
    · cases first with
      | none no_id =>
          refine .some (List.append_nil _).symm completes fun front' rest' id' same shorter => ?_
          rcases List.eq_nil_or_concat rest' with rfl | ⟨rest', last, rfl⟩
          · rw [List.append_nil] at same
            rw [same] at shorter
            exact absurd shorter (lt_irrefl _)
          · rw [List.concat_eq_append, ← List.append_assoc] at same
            exact no_id front' rest' id' (List.append_inj' same rfl).1

/-- What a byte makes of the first id. -/
theorem firstId_feed {decoder : Decoder} (reached : Reached decoder)
    (first_iff : ∀ id, FirstId decoder.frame id ↔ id = decoder.id) {byte : UInt8}
    (not_newline : byte ≠ 0x0a) (id : Option Value) :
    FirstId (decoder.frame ++ [byte]) id ↔ id = (decoder.feed byte).1.id := by
  rw [firstId_concat]
  simp only [first_iff]
  cases before : decoder.id with
  | some found => simp [id_feed_some reached.tracks before]
  | none =>
      cases after : (decoder.feed byte).1.id with
      | some found =>
          have completes := completesId_of_feed reached.tracks before after
          have only (other : Value) (completes : CompletesId (decoder.frame ++ [byte]) other) :
              other = found := by
            have same := id_feed_of_completes reached before not_newline completes
            rw [after] at same
            exact (Option.some.inj same).symm
          constructor
          · rintro (⟨_, ⟨⟩, -⟩ | ⟨-, ⟨-, no_other⟩ | ⟨other, rfl, completes⟩⟩)
            · exact absurd completes (no_other found)
            · rw [only other completes]
          · rintro rfl
            exact .inr ⟨rfl, .inr ⟨found, rfl, completes⟩⟩
      | none =>
          have no_other (other : Value) : ¬CompletesId (decoder.frame ++ [byte]) other := by
            intro completes
            rw [id_feed_of_completes reached before not_newline completes] at after
            cases after
          constructor
          · rintro (⟨_, ⟨⟩, -⟩ | ⟨-, ⟨rfl, -⟩ | ⟨other, -, completes⟩⟩)
            · rfl
            · exact absurd completes (no_other other)
          · rintro rfl
            exact .inr ⟨rfl, .inl ⟨rfl, no_other⟩⟩

/-- The decoder has noted the first id that was read whole. -/
theorem Reached.firstId_iff {decoder : Decoder} (reached : Reached decoder) (id : Option Value) :
    FirstId decoder.frame id ↔ id = decoder.id := by
  induction reached generalizing id with
  | new => exact firstId_nil
  | @more before after byte reached not_newline taken ih =>
      have fed := frame_feed before byte
      have step := firstId_feed reached ih not_newline id
      rw [taken] at fed step
      rwa [fed]

end Baley.Mcp.Frame
