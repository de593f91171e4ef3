import Baley.Mcp.Completed

/-!
# Lines and their answers

Every line is answered by itself, by the first rule that it breaks.
-/

namespace Baley.Mcp.Frame

open Json Json.Grammar

/-! ## The answer to a line -/

/-- The bytes encode characters. -/
def Encoded (bytes : List UInt8) : Prop :=
  ∃ text : Text, bytes = utf8 text

/-- The fault of a line that is refused before its newline. -/
inductive Refused (line : List UInt8) : Fault → Prop
  | tooLarge {id : Option Value} (long : maxFrameBytes < line.length)
      (tolerable : Tolerable maxDepth (line.take maxFrameBytes))
      (first : FirstId (line.take maxFrameBytes) id) : Refused line ⟨.tooLarge, id⟩
  | tooDeep {front rest : List UInt8} {byte : UInt8} {id : Option Value}
      (line_eq : line = front ++ byte :: rest) (inside : front.length < maxFrameBytes)
      (tolerable : Tolerable maxDepth front) (refused : ¬Tolerable maxDepth (front ++ [byte]))
      (deeper : ∃ depth, Tolerable depth (front ++ [byte])) (first : FirstId (front ++ [byte]) id) :
      Refused line ⟨.tooDeep, id⟩
  | malformed {front rest : List UInt8} {byte : UInt8} {id : Option Value}
      (line_eq : line = front ++ byte :: rest) (inside : front.length < maxFrameBytes)
      (tolerable : Tolerable maxDepth front) (refused : ∀ depth, ¬Tolerable depth (front ++ [byte]))
      (first : FirstId (front ++ [byte]) id) : Refused line ⟨.malformed, id⟩

/-- The answer to a line, which is given without its newline. -/
inductive Answered (line : List UInt8) : Option Next → Prop
  | refused {fault : Fault} (refused : Refused line fault) : Answered line (some (.fault fault))
  | blank (short : line.length ≤ maxFrameBytes) (spaces : Spaces line) : Answered line none
  | frame (short : line.length ≤ maxFrameBytes) (encoded : Encoded line) (text : IsText maxDepth line) :
      Answered line (some (.frame line))
  | incomplete {id : Option Value} (short : line.length ≤ maxFrameBytes) (not_blank : ¬Spaces line)
      (tolerable : Tolerable maxDepth line) (not_whole : ¬(Encoded line ∧ IsText maxDepth line))
      (first : FirstId (line ++ [0x0a]) id) : Answered line (some (.fault ⟨.malformed, id⟩))

/-- The answer to the bytes of a line that has not ended. -/
inductive Unended (line : List UInt8) : Option Next → Prop
  | refused {fault : Fault} (refused : Refused line fault) : Unended line (some (.fault fault))
  | waiting (short : line.length ≤ maxFrameBytes) (tolerable : Tolerable maxDepth line) :
      Unended line none

/-! ## Feeding bytes -/

def Step.next : Step → Option Next
  | .more => none
  | .frame bytes => some (.frame bytes)
  | .fault made => some (.fault made)

/-- Feed bytes, collecting what they make ready. -/
def Decoder.pushAll (decoder : Decoder) : List UInt8 → List Next × Decoder
  | [] => ([], decoder)
  | byte :: rest =>
      let (step, decoder) := decoder.push byte
      let (nexts, decoder) := decoder.pushAll rest
      (step.next.toList ++ nexts, decoder)

/-- The decoder after a fault skips the rest of the line. -/
def skipped : Decoder := { Decoder.new with skipping := true }

section Feeding

variable {decoder : Decoder}

theorem pushAll_cons (byte : UInt8) (rest : List UInt8) :
    decoder.pushAll (byte :: rest) =
      ((decoder.push byte).1.next.toList ++ ((decoder.push byte).2.pushAll rest).1,
        ((decoder.push byte).2.pushAll rest).2) := rfl

theorem pushAll_append (front rest : List UInt8) :
    decoder.pushAll (front ++ rest) =
      ((decoder.pushAll front).1 ++ ((decoder.pushAll front).2.pushAll rest).1,
        ((decoder.pushAll front).2.pushAll rest).2) := by
  induction front generalizing decoder with
  | nil => rfl
  | cons byte front ih =>
      rw [List.cons_append, pushAll_cons, pushAll_cons, ih]
      simp

theorem pushAll_single (byte : UInt8) :
    decoder.pushAll [byte] = ((decoder.push byte).1.next.toList, (decoder.push byte).2) := by
  rw [pushAll_cons]
  exact Prod.ext (List.append_nil _) rfl

theorem pushAll_skipped {rest : List UInt8} (no_newline : 0x0a ∉ rest) :
    skipped.pushAll rest = ([], skipped) := by
  induction rest with
  | nil => rfl
  | cons byte rest ih =>
      rw [List.mem_cons, not_or] at no_newline
      have pushed : skipped.push byte = (.more, skipped) := by
        simp [Decoder.push, skipped, Ne.symm no_newline.1]
      rw [pushAll_cons, pushed]
      exact ih no_newline.2

theorem push_skipped_newline : skipped.push 0x0a = (.more, .new) := by
  simp [Decoder.push, skipped, Decoder.new]

end Feeding

/-! ## A decoder on an unfinished line -/

/-- What is known of a decoder that is reached, besides what may follow. -/
structure OnLine (decoder : Decoder) : Prop where
  not_skipping : decoder.skipping = false
  blank : decoder.started = false →
    decoder = { Decoder.new with frame := decoder.frame } ∧ Spaces decoder.frame
  started : decoder.started = true → ¬Spaces decoder.frame

theorem not_spaces_concat {bytes : List UInt8} (byte : UInt8) (not_spaces : ¬Spaces bytes) :
    ¬Spaces (bytes ++ [byte]) :=
  fun spaces => not_spaces fun other other_mem => spaces other (List.mem_append_left _ other_mem)

theorem not_spaces_of_last {bytes : List UInt8} {byte : UInt8} (not_space : ¬IsSpaceByte byte) :
    ¬Spaces (bytes ++ [byte]) :=
  fun spaces => not_space (spaces byte (by simp))

theorem stringDone_onLine (decoder : Decoder) (key : Bool) :
    (decoder.stringDone key).skipping = decoder.skipping ∧
      (decoder.stringDone key).started = decoder.started := by
  unfold Decoder.stringDone
  split_ifs <;> exact ⟨rfl, rfl⟩

/-- A byte other than a space starts the line. -/
theorem Outside.starts {decoder after : Decoder} {byte : UInt8} (outside : Outside decoder byte after) :
    after.skipping = decoder.skipping ∧
      (after = decoder ∧ isSpace byte = true ∨ after.started = true ∧ ¬IsSpaceByte byte) := by
  have not_space {byte other : UInt8} (same : byte = other) (apart : ¬IsSpaceByte other) :
      ¬IsSpaceByte byte := by rwa [same]
  cases outside with
  | space space => exact ⟨rfl, .inl ⟨rfl, space⟩⟩
  | container expects opens =>
      refine ⟨rfl, .inr ⟨rfl, ?_⟩⟩
      rcases opens with ⟨brace, -⟩ | ⟨bracket, -⟩
      · exact not_space brace (by decide)
      · exact not_space bracket (by decide)
  | token expects starts =>
      refine ⟨rfl, .inr ⟨rfl, ?_⟩⟩
      rcases starts with ⟨quote, -⟩ | ⟨start, -⟩
      · exact not_space quote (by decide)
      · exact fun space => space.starts_none.1 start
  | close expects closes =>
      refine ⟨rfl, .inr ⟨rfl, ?_⟩⟩
      rcases closes with bracket | brace
      · exact not_space bracket (by decide)
      · exact not_space brace (by decide)
  | key expects quote => exact ⟨rfl, .inr ⟨rfl, not_space quote (by decide)⟩⟩
  | colon expects colon => exact ⟨rfl, .inr ⟨rfl, not_space colon (by decide)⟩⟩
  | comma expects comma => exact ⟨rfl, .inr ⟨rfl, not_space comma (by decide)⟩⟩

/-- Only between tokens has a line not started. -/
theorem OnLine.inside {decoder : Decoder} (on_line : OnLine decoder) (token : decoder.token ≠ .none) :
    decoder.started = true := by
  by_contra not_started
  obtain ⟨blank, -⟩ := on_line.blank (Bool.eq_false_iff.mpr not_started)
  rw [blank] at token
  exact token rfl

theorem onLine_of_started {decoder after : Decoder} (on_line : OnLine decoder) {byte : UInt8}
    (started : decoder.started = true) (after_started : after.started = true)
    (not_skipping : after.skipping = decoder.skipping) (frame_eq : after.frame = decoder.frame ++ [byte]) :
    OnLine after where
  not_skipping := not_skipping.trans on_line.not_skipping
  blank not_started := by
    rw [after_started] at not_started
    cases not_started
  started _ := by
    rw [frame_eq]
    exact not_spaces_concat byte (on_line.started started)

theorem OnLine.moves {decoder after : Decoder} {byte : UInt8} (on_line : OnLine decoder)
    (not_newline : byte ≠ 0x0a) (frame_eq : after.frame = decoder.frame ++ [byte])
    (moves : Moves decoder byte after) : OnLine after := by
  cases moves with
  | outside untoken outside =>
      obtain ⟨not_skipping, ⟨rfl, space⟩ | ⟨started, not_space⟩⟩ := outside.starts
      · refine ⟨on_line.not_skipping, fun not_started => ?_, fun started => ?_⟩
        · obtain ⟨blank, spaces⟩ := on_line.blank not_started
          refine ⟨by rw [blank], ?_⟩
          refine List.forall_mem_append.mpr ⟨spaces, fun other other_mem => ?_⟩
          rw [List.mem_singleton.mp other_mem]
          exact (isSpace_iff not_newline).mp space
        · exact not_spaces_concat byte (on_line.started started)
      · refine ⟨not_skipping.trans on_line.not_skipping, fun not_started => ?_, fun _ => ?_⟩
        · rw [started] at not_started
          cases not_started
        · rw [frame_eq]
          exact not_spaces_of_last not_space
  | @stringEnd key token quote =>
      have started := on_line.inside (by simp [token])
      obtain ⟨skipping_eq, started_eq⟩ := stringDone_onLine
        { decoder with frame := decoder.frame ++ [byte], token := .none } key
      exact onLine_of_started on_line started (started_eq.trans started) skipping_eq frame_eq
  | string token goes_on =>
      have started := on_line.inside (by simp [token])
      obtain ⟨keyHead, keyLen, rfl, -⟩ := goes_on.after_eq
      exact onLine_of_started on_line started started rfl frame_eq
  | atom token not_delimiter =>
      have started := on_line.inside (by simp [token])
      exact onLine_of_started on_line started started rfl frame_eq
  | atomEnd token delimiter atom outside =>
      have started := on_line.inside (by simp [token])
      obtain ⟨skipping_eq, ⟨rfl, -⟩ | ⟨after_started, -⟩⟩ := outside.starts
      · exact onLine_of_started on_line started started skipping_eq frame_eq
      · exact onLine_of_started on_line started after_started skipping_eq frame_eq

theorem Reached.onLine {decoder : Decoder} (reached : Reached decoder) : OnLine decoder := by
  induction reached with
  | new => exact ⟨rfl, fun _ => ⟨rfl, spaces_nil⟩, fun started => by cases started⟩
  | @more before after byte reached not_newline taken ih =>
      have fed := frame_feed before byte
      rw [taken] at fed
      exact ih.moves not_newline fed (reached.moves taken)

/-! ## Before the newline -/

theorem push_feed {decoder : Decoder} (on_line : OnLine decoder) {byte : UInt8} (not_newline : byte ≠ 0x0a)
    (inside : decoder.frame.length < maxFrameBytes) :
    decoder.push byte =
      match decoder.feed byte with
      | (decoder, none) => (.more, decoder)
      | (decoder, some kind) => decoder.fault kind true := by
  have not_skipping : ¬decoder.skipping = true := by simp [on_line.not_skipping]
  rw [Decoder.push, if_neg not_skipping, if_neg not_newline, if_neg (Nat.ne_of_lt inside)]
  rfl

theorem push_taken {decoder after : Decoder} (on_line : OnLine decoder) {byte : UInt8}
    (not_newline : byte ≠ 0x0a) (inside : decoder.frame.length < maxFrameBytes)
    (taken : decoder.feed byte = (after, none)) : decoder.push byte = (.more, after) := by
  rw [push_feed on_line not_newline inside, taken]

theorem push_refused {decoder after : Decoder} (on_line : OnLine decoder) {byte : UInt8}
    (not_newline : byte ≠ 0x0a) (inside : decoder.frame.length < maxFrameBytes) {kind : FaultKind}
    (refused : decoder.feed byte = (after, some kind)) :
    decoder.push byte = (.fault ⟨kind, after.id⟩, skipped) := by
  rw [push_feed on_line not_newline inside, refused]
  rfl

theorem push_full {decoder : Decoder} (on_line : OnLine decoder) {byte : UInt8}
    (not_newline : byte ≠ 0x0a) (full : decoder.frame.length = maxFrameBytes) :
    decoder.push byte = (.fault ⟨.tooLarge, decoder.id⟩, skipped) := by
  have not_skipping : ¬decoder.skipping = true := by simp [on_line.not_skipping]
  rw [Decoder.push, if_neg not_skipping, if_neg not_newline, if_pos full]
  rfl

/-- Nothing is ready while the bytes are taken. -/
theorem Reached.pushAll_frame {decoder : Decoder} (reached : Reached decoder)
    (short : decoder.frame.length ≤ maxFrameBytes) :
    Decoder.new.pushAll decoder.frame = ([], decoder) := by
  induction reached with
  | new => rfl
  | @more before after byte reached not_newline taken ih =>
      have fed := frame_feed before byte
      rw [taken] at fed
      have fed : after.frame = before.frame ++ [byte] := fed
      rw [fed, List.length_append, List.length_singleton] at short
      rw [fed, pushAll_append, ih (by omega), pushAll_single,
        push_taken reached.onLine not_newline (by omega) taken]
      rfl

/-- What the fault of a byte says of the bytes up to it. -/
theorem feed_refused {decoder after : Decoder} (reached : Reached decoder) {byte : UInt8}
    (not_newline : byte ≠ 0x0a) {kind : FaultKind} (refused : decoder.feed byte = (after, some kind)) :
    ¬Tolerable maxDepth (decoder.frame ++ [byte]) ∧
      (kind = .tooDeep ∧ (∃ depth, Tolerable depth (decoder.frame ++ [byte])) ∨
        kind = .malformed ∧ ∀ depth, ¬Tolerable depth (decoder.frame ++ [byte])) := by
  have judges {depth : Nat} (deep : maxDepth ≤ depth) := reached.follows.judges not_newline deep
  rw [refused] at judges
  have no_rest {depth : Nat} (deep : maxDepth ≤ depth)
      (none_follows : ∀ rest, ¬Remaining depth decoder (byte :: rest)) :
      ¬Tolerable depth (decoder.frame ++ [byte]) := by
    intro tolerable
    obtain ⟨rest, text⟩ := viable_of_refused reached not_newline refused deep tolerable
    exact none_follows rest ((text_cons_iff reached.follows deep rest).mp text)
  cases kind with
  | tooLarge => exact absurd rfl (judges le_rfl).not_too_large
  | tooDeep =>
      obtain ⟨rest, follows⟩ := ((judges (Nat.le_succ maxDepth)).too_deep rfl).2 (Nat.lt_succ_self _)
      have text := (text_cons_iff reached.follows (Nat.le_succ maxDepth) rest).mpr follows
      exact ⟨no_rest le_rfl (((judges le_rfl).too_deep rfl).1 rfl), .inl ⟨rfl, _, .inl ⟨rest, text⟩⟩⟩
  | malformed =>
      have none_at {depth : Nat} (deep : maxDepth ≤ depth) :=
        no_rest deep ((judges deep).malformed rfl)
      refine ⟨none_at le_rfl, .inr ⟨rfl, fun depth tolerable => ?_⟩⟩
      exact none_at (Nat.le_max_right depth maxDepth) (tolerable.mono (Nat.le_max_left depth maxDepth))

theorem feed_not_taken {decoder : Decoder} (reached : Reached decoder) {byte : UInt8}
    (not_newline : byte ≠ 0x0a) (intolerable : ¬Tolerable maxDepth (decoder.frame ++ [byte])) :
    ∃ after kind, decoder.feed byte = (after, some kind) := by
  cases result : decoder.feed byte with
  | mk after faulted =>
      cases faulted with
      | none =>
          have fed := frame_feed decoder byte
          rw [result] at fed
          have next : Reached after := .more reached not_newline result
          have tolerable := next.tolerable le_rfl
          have fed : after.frame = decoder.frame ++ [byte] := fed
          rw [fed] at tolerable
          exact absurd tolerable intolerable
      | some kind => exact ⟨after, kind, rfl⟩

/-- A line is refused before its newline, or its bytes are taken. -/
theorem reached_or_refused {line : List UInt8} (no_newline : 0x0a ∉ line) :
    (∃ decoder, Reached decoder ∧ decoder.frame = line ∧ line.length ≤ maxFrameBytes) ∨
      ∃ fault, Refused line fault := by
  induction line using List.reverseRecOn with
  | nil => exact .inl ⟨.new, .new, rfl, Nat.zero_le _⟩
  | append_singleton line byte ih =>
      rw [List.mem_append, List.mem_singleton, not_or] at no_newline
      obtain ⟨no_newline, not_newline⟩ := no_newline
      have not_newline := Ne.symm not_newline
      rcases ih no_newline with ⟨decoder, reached, rfl, short⟩ | ⟨fault, refused⟩
      · rcases Nat.lt_or_eq_of_le short with inside | full
        · cases result : decoder.feed byte with
          | mk after faulted =>
              cases faulted with
              | none =>
                  have fed := frame_feed decoder byte
                  rw [result] at fed
                  refine .inl ⟨after, .more reached not_newline result, fed, ?_⟩
                  rw [List.length_append, List.length_singleton]
                  omega
              | some kind =>
                  have tolerable := reached.tolerable le_rfl
                  have first := (firstId_feed reached reached.firstId_iff not_newline _).mpr rfl
                  obtain ⟨refused, ⟨rfl, deeper⟩ | ⟨rfl, refused⟩⟩ := feed_refused reached not_newline result
                  · exact .inr ⟨_, .tooDeep rfl inside tolerable refused deeper first⟩
                  · exact .inr ⟨_, .malformed rfl inside tolerable refused first⟩
        · have taken : (decoder.frame ++ [byte]).take maxFrameBytes = decoder.frame := by
            rw [← full, List.take_left]
          refine .inr ⟨⟨.tooLarge, decoder.id⟩, .tooLarge ?_ ?_ ?_⟩
          · rw [List.length_append, List.length_singleton]
            omega
          · rw [taken]
            exact reached.tolerable le_rfl
          · rw [taken]
            exact (reached.firstId_iff _).mpr rfl
      · refine .inr ⟨fault, ?_⟩
        cases refused with
        | tooLarge long tolerable first =>
            have taken : (line ++ [byte]).take maxFrameBytes = line.take maxFrameBytes :=
              List.take_append_of_le_length long.le
            refine .tooLarge ?_ (by rwa [taken]) (by rwa [taken])
            rw [List.length_append]
            omega
        | @tooDeep front rest last id line_eq inside tolerable refused deeper first =>
            have line_eq : line ++ [byte] = front ++ last :: (rest ++ [byte]) := by
              rw [line_eq, List.append_assoc, List.cons_append]
            exact .tooDeep line_eq inside tolerable refused deeper first
        | @malformed front rest last id line_eq inside tolerable refused first =>
            have line_eq : line ++ [byte] = front ++ last :: (rest ++ [byte]) := by
              rw [line_eq, List.append_assoc, List.cons_append]
            exact .malformed line_eq inside tolerable refused first

/-- A line that is refused makes its fault ready and nothing else. -/
theorem pushAll_refused {line : List UInt8} (no_newline : 0x0a ∉ line) {fault : Fault}
    (refused : Refused line fault) : Decoder.new.pushAll line = ([.fault fault], skipped) := by
  have at_byte {decoder : Decoder} (reached : Reached decoder) {byte : UInt8} {rest : List UInt8}
      (line_eq : line = decoder.frame ++ byte :: rest) (short : decoder.frame.length ≤ maxFrameBytes)
      (pushed : decoder.push byte = (.fault fault, skipped)) :
      Decoder.new.pushAll line = ([.fault fault], skipped) := by
    rw [line_eq, List.mem_append, List.mem_cons, not_or, not_or] at no_newline
    rw [line_eq, pushAll_append, reached.pushAll_frame short]
    simp only [pushAll_cons, pushed, pushAll_skipped no_newline.2.2]
    rfl
  cases refused with
  | @tooLarge id long tolerable first =>
      have no_newline' : 0x0a ∉ line.take maxFrameBytes := fun taken => no_newline (List.mem_of_mem_take taken)
      obtain ⟨decoder, reached, frame_eq⟩ := reached_of_tolerable no_newline' tolerable
      have full : decoder.frame.length = maxFrameBytes := by
        rw [frame_eq, List.length_take]
        omega
      rw [← frame_eq, reached.firstId_iff] at first
      obtain ⟨byte, rest, rest_eq⟩ : ∃ byte rest, line.drop maxFrameBytes = byte :: rest :=
        List.exists_cons_of_ne_nil (by rw [ne_eq, List.drop_eq_nil_iff]; omega)
      have line_eq : line = decoder.frame ++ byte :: rest := by
        rw [frame_eq, ← rest_eq, List.take_append_drop]
      refine at_byte reached line_eq full.le ?_
      rw [first]
      refine push_full reached.onLine ?_ full
      rintro rfl
      exact no_newline (by rw [line_eq]; simp)
  | @tooDeep front rest byte id line_eq inside tolerable refused deeper first =>
      have no_newline' := no_newline
      rw [line_eq, List.mem_append, List.mem_cons, not_or, not_or] at no_newline'
      have not_newline := Ne.symm no_newline'.2.1
      obtain ⟨decoder, reached, rfl⟩ := reached_of_tolerable no_newline'.1 tolerable
      rw [firstId_feed reached reached.firstId_iff not_newline] at first
      obtain ⟨after, kind, result⟩ := feed_not_taken reached not_newline refused
      rw [result] at first
      obtain ⟨-, ⟨rfl, -⟩ | ⟨-, refused⟩⟩ := feed_refused reached not_newline result
      · refine at_byte reached line_eq inside.le ?_
        rw [first]
        exact push_refused reached.onLine not_newline inside result
      · obtain ⟨depth, tolerable⟩ := deeper
        exact absurd tolerable (refused depth)
  | @malformed front rest byte id line_eq inside tolerable refused first =>
      have no_newline' := no_newline
      rw [line_eq, List.mem_append, List.mem_cons, not_or, not_or] at no_newline'
      have not_newline := Ne.symm no_newline'.2.1
      obtain ⟨decoder, reached, rfl⟩ := reached_of_tolerable no_newline'.1 tolerable
      rw [firstId_feed reached reached.firstId_iff not_newline] at first
      obtain ⟨after, kind, result⟩ := feed_not_taken reached not_newline (refused maxDepth)
      rw [result] at first
      obtain ⟨-, ⟨-, depth, tolerable⟩ | ⟨rfl, -⟩⟩ := feed_refused reached not_newline result
      · exact absurd tolerable (refused depth)
      · refine at_byte reached line_eq inside.le ?_
        rw [first]
        exact push_refused reached.onLine not_newline inside result

/-! ## At the newline -/

theorem isSome_fromUtf8 (bytes : List UInt8) : (fromUtf8 bytes).isSome = true ↔ Encoded bytes := by
  have isSome_iff : (fromUtf8 bytes).isSome = true ↔ bytes.toByteArray.IsValidUTF8 := by
    unfold fromUtf8 String.fromUTF8?
    split_ifs with valid <;> simp [valid]
  rw [isSome_iff]
  constructor
  · rintro ⟨text, encoded⟩
    refine ⟨text, ?_⟩
    have same := congrArg ByteArray.data encoded
    simpa [List.utf8Encode, utf8] using same
  · rintro ⟨text, rfl⟩
    exact ⟨text, rfl⟩

theorem spaced_nil {kind : List UInt8 → Prop} : Spaced kind [] ↔ kind [] := by
  constructor
  · rintro ⟨space, tail, same, -, held⟩
    obtain ⟨-, rfl⟩ := List.append_eq_nil_iff.mp same.symm
    exact held
  · exact fun held => ⟨[], [], rfl, spaces_nil, held⟩

theorem after_nil_iff {depth : Nat} {stack : List Open} : After depth stack [] ↔ stack = [] := by
  cases stack with
  | nil => exact iff_of_true spaces_nil rfl
  | cons top stack =>
      refine iff_of_false ?_ (List.cons_ne_nil top stack)
      cases top with
      | array =>
          rintro ⟨items, tail, same, -⟩
          simp at same
      | object =>
          rintro ⟨members, tail, same, -⟩
          simp at same

theorem isString_ne_nil {bytes : List UInt8} (string : IsString bytes) : bytes ≠ [] := by
  obtain ⟨body, rfl, -⟩ := string
  exact List.cons_ne_nil _ _

theorem isAtom_ne_nil {bytes : List UInt8} (atom : IsAtom bytes) : bytes ≠ [] := by
  obtain ⟨first, rest, rfl, -⟩ := atom.start
  exact List.cons_ne_nil _ _

theorem not_valueAfter_nil {depth : Nat} {stack : List Open} : ¬ValueAfter depth stack [] := by
  rintro ⟨value, tail, same, isValue, -⟩
  exact isValue_ne_nil isValue (List.append_eq_nil_iff.mp same.symm).1

theorem not_keyAfter_nil {depth : Nat} {stack : List Open} : ¬KeyAfter depth stack [] := by
  rintro ⟨key, tail, same, string, -⟩
  exact isString_ne_nil string (List.append_eq_nil_iff.mp same.symm).1

theorem not_closingAfter_nil {closing : UInt8} {depth : Nat} {stack : List Open} :
    ¬ClosingAfter closing depth stack [] := by
  rintro ⟨tail, same, -⟩
  cases same

/-- Between tokens nothing is left to come only after the outermost value. -/
theorem wanted_nil_iff {decoder : Decoder} (fits : Fits decoder) {depth : Nat} :
    Wanted depth decoder.stack decoder.expect [] ↔ decoder.expect = .done := by
  cases expect : decoder.expect with
  | value => simp [Wanted, spaced_nil, not_valueAfter_nil]
  | valueOrEnd => simp [Wanted, spaced_nil, not_valueAfter_nil, not_closingAfter_nil]
  | keyOrEnd => simp [Wanted, spaced_nil, not_keyAfter_nil, not_closingAfter_nil]
  | key => simp [Wanted, spaced_nil, not_keyAfter_nil]
  | colon => simp [Wanted, ColonAfter, spaced_nil]
  | commaOrEnd =>
      have inside := fits.inside expect
      simp [Wanted, after_nil_iff, inside]
  | done => simp [Wanted, after_nil_iff, fits.outside expect]

theorem not_body_nil {next : List UInt8 → Prop} : ¬BodyAfter next [] := by
  rintro ⟨body, tail, same, isBody, -⟩
  obtain ⟨rfl, -⟩ := List.append_eq_nil_iff.mp same.symm
  cases isBody

theorem not_stringAfter_nil {next : List UInt8 → Prop} (escape : Escape) : ¬StringAfter next escape [] := by
  cases escape with
  | plain => exact not_body_nil
  | slash =>
      rintro ⟨byte, tail, same, -⟩
      cases same
  | hex left =>
      rintro ⟨digits, tail, same, -, -, body⟩
      obtain ⟨-, rfl⟩ := List.append_eq_nil_iff.mp same.symm
      exact not_body_nil body

theorem atomAfter_nil_iff {depth : Nat} {stack : List Open} {atom : List UInt8} :
    AtomAfter depth stack atom [] ↔ IsAtom atom ∧ stack = [] := by
  constructor
  · rintro ⟨more, tail, same, isAtom, after⟩
    obtain ⟨rfl, rfl⟩ := List.append_eq_nil_iff.mp same.symm
    rw [List.append_nil] at isAtom
    exact ⟨isAtom, after_nil_iff.mp after⟩
  · rintro ⟨isAtom, rfl⟩
    exact ⟨[], [], rfl, by rwa [List.append_nil], spaces_nil⟩

/-- When the bytes taken are a whole text. -/
theorem Follows.whole_iff {decoder : Decoder} (follows : Follows decoder) :
    IsText maxDepth decoder.frame ↔
      decoder.token = .none ∧ decoder.expect = .done ∨
        ∃ start, decoder.token = .atom start ∧ IsAtom (decoder.frame.drop start) ∧ decoder.stack = [] := by
  have text_iff := follows.text_iff maxDepth le_rfl []
  rw [List.append_nil] at text_iff
  rw [text_iff]
  cases token : decoder.token with
  | none => simp [remaining_none _ token, wanted_nil_iff follows.fits]
  | str key escape => simp [remaining_str _ token, not_stringAfter_nil]
  | atom start => simp [remaining_atom _ token, atomAfter_nil_iff]

theorem id_feed_space {decoder : Decoder} (reached : Reached decoder)
    (no_atom : ∀ start, decoder.token ≠ .atom start) : (decoder.feed 0x20).1.id = decoder.id := by
  cases token : decoder.token with
  | none => exact id_feed_none token (reached.tracks.no_start (.inl token))
  | str key escape =>
      rw [id_feed_str token, if_neg]
      rintro ⟨-, -, quote⟩
      exact absurd quote (by decide)
  | atom start => exact absurd token (no_atom start)

/-- What the newline does to a line that has started. -/
theorem endOfLine_started {decoder : Decoder} (reached : Reached decoder) (started : decoder.started = true) :
    (Encoded decoder.frame ∧ IsText maxDepth decoder.frame →
        decoder.endOfLine = (.frame decoder.frame, .new)) ∧
      (¬(Encoded decoder.frame ∧ IsText maxDepth decoder.frame) →
        decoder.endOfLine = (.fault ⟨.malformed, (decoder.feed 0x20).1.id⟩, .new)) := by
  have follows := reached.follows
  rw [follows.whole_iff, ← isSome_fromUtf8]
  have running : ¬(!decoder.started) = true := by simp [started]
  unfold Decoder.endOfLine
  rw [if_neg running]
  cases token : decoder.token with
  | none =>
      have id_eq := id_feed_space reached (by simp [token])
      rw [id_eq]
      constructor
      · rintro ⟨encoded, ⟨-, expect⟩ | ⟨start, other, -⟩⟩
        · simp [token, expect, encoded]
        · cases other
      · intro not_whole
        have not_done : ¬(decoder.expect = .done ∧ (fromUtf8 decoder.frame).isSome = true) :=
          fun done => not_whole ⟨done.2, .inl ⟨rfl, done.1⟩⟩
        simp [token, not_done, Decoder.fault, Decoder.new]
  | str key escape =>
      have id_eq := id_feed_space reached (by simp [token])
      rw [id_eq]
      constructor
      · rintro ⟨-, ⟨other, -⟩ | ⟨start, other, -⟩⟩ <;> cases other
      · intro _
        simp [token, Decoder.fault, Decoder.new]
  | atom start =>
      have whole_iff : (Token.atom start = .none ∧ decoder.expect = .done ∨
          ∃ other, Token.atom start = .atom other ∧ IsAtom (decoder.frame.drop other) ∧ decoder.stack = []) ↔
            validAtom (decoder.frame.drop start) = true ∧ decoder.stack = [] := by
        simp [validAtom_iff]
      rw [whole_iff]
      by_cases valid : validAtom (decoder.frame.drop start) = true
      · obtain ⟨finished, finished_eq⟩ : ∃ finished : Decoder,
            { decoder with token := .none }.valueDone decoder.frame.length = finished := ⟨_, rfl⟩
        have frame_eq : finished.frame = decoder.frame := by rw [← finished_eq]; rfl
        have token_eq : finished.token = .none := by rw [← finished_eq]; rfl
        have done_iff : finished.expect = .done ↔ decoder.stack = [] := by
          rw [← finished_eq]
          cases stack : decoder.stack <;> simp [Decoder.valueDone]
        have id_eq : (decoder.feed 0x20).1.id = finished.id := by
          rw [id_feed_atom token, if_pos ⟨by rfl, valid⟩, ← finished_eq]
          simp only [id_valueDone, List.take_left, List.take_length]
        have finish : decoder.finishAtom start decoder.frame.length = (finished, none) := by
          rw [Decoder.finishAtom, List.take_length, if_pos valid, finished_eq]
        rw [id_eq, ← done_iff]
        simp only [finish, token_eq, frame_eq]
        constructor
        · rintro ⟨encoded, -, done⟩
          rw [if_pos ⟨trivial, done, encoded⟩]
        · intro not_whole
          rw [if_neg fun done => not_whole ⟨done.2.2, valid, done.2.1⟩]
          rfl
      · have id_eq : (decoder.feed 0x20).1.id = decoder.id := by
          rw [id_feed_atom token, if_neg fun atom => valid atom.2]
        have finish : decoder.finishAtom start decoder.frame.length = (decoder, some .malformed) := by
          rw [Decoder.finishAtom, List.take_length, if_neg valid]
        rw [id_eq]
        simp only [finish]
        exact ⟨fun whole => absurd whole.2.1 valid, fun _ => rfl⟩

/-- A literal or number may be over with another byte. -/
theorem CompletesId.over_with {bytes : List UInt8} {last other : UInt8} {id : Value}
    (completes : CompletesId (bytes ++ [last]) id) (not_quote : last ≠ 0x22)
    (ends : isDelimiter other = true ∨ other = 0x0a) : CompletesId (bytes ++ [other]) id := by
  obtain ⟨front, value, after, bytes_eq, id_front, usable, complete⟩ := completes
  rcases complete with ⟨⟨body, rfl, isBody⟩, rfl⟩ | ⟨atom, byte, rfl, -⟩
  · obtain ⟨inner, rfl⟩ := exists_closing isBody
    have split : front ++ (0x22 :: (inner ++ [0x22]) ++ []) = front ++ (0x22 :: inner) ++ [0x22] := by simp
    rw [split] at bytes_eq
    obtain ⟨-, same⟩ := List.append_inj' bytes_eq rfl
    cases same
    exact absurd rfl not_quote
  · rw [← List.append_assoc] at bytes_eq
    obtain ⟨rfl, -⟩ := List.append_inj' bytes_eq rfl
    exact ⟨front, value, [other], List.append_assoc _ _ _, id_front, usable, .inr ⟨atom, other, rfl, ends⟩⟩

/-- The newline ends a literal or number as a space does. -/
theorem Reached.firstId_newline {decoder : Decoder} (reached : Reached decoder) (id : Option Value) :
    FirstId (decoder.frame ++ [0x0a]) id ↔ id = (decoder.feed 0x20).1.id := by
  have completes_iff (other : Value) :
      CompletesId (decoder.frame ++ [0x0a]) other ↔ CompletesId (decoder.frame ++ [0x20]) other :=
    ⟨fun completes => completes.over_with (by decide) (.inl (by rfl)),
      fun completes => completes.over_with (by decide) (.inr rfl)⟩
  rw [← firstId_feed reached reached.firstId_iff (by decide : (0x20 : UInt8) ≠ 0x0a), firstId_concat,
    firstId_concat]
  simp only [completes_iff]

/-! ## Whole lines -/

theorem Reached.pushAll_newline {decoder : Decoder} (reached : Reached decoder)
    (short : decoder.frame.length ≤ maxFrameBytes) :
    Decoder.new.pushAll (decoder.frame ++ [0x0a]) =
      (decoder.endOfLine.1.next.toList, decoder.endOfLine.2) := by
  have not_skipping : ¬decoder.skipping = true := by simp [reached.onLine.not_skipping]
  have pushed : decoder.push 0x0a = decoder.endOfLine := by
    rw [Decoder.push, if_neg not_skipping, if_pos rfl]
  rw [pushAll_append, reached.pushAll_frame short, pushAll_single, pushed]
  rfl

theorem started_of_not_blank {decoder : Decoder} (reached : Reached decoder)
    (not_blank : ¬Spaces decoder.frame) : decoder.started = true := by
  by_contra not_started
  exact not_blank (reached.onLine.blank (Bool.eq_false_iff.mpr not_started)).2

theorem not_spaces_of_text {line : List UInt8} (text : IsText maxDepth line) : ¬Spaces line := by
  intro spaces
  obtain ⟨before, value, after, rfl, -, isValue, -⟩ := text
  obtain ⟨first, rest, rfl⟩ := List.exists_cons_of_ne_nil (isValue_ne_nil isValue)
  have space : IsSpaceByte first := spaces first (by simp)
  obtain ⟨not_start, ⟨not_quote, not_bracket, not_brace⟩, -⟩ := space.starts_none
  cases isValue with
  | atom atom =>
      obtain ⟨_, _, same, start⟩ := atom.start
      cases same
      exact not_start start
  | string string =>
      obtain ⟨body, same, -⟩ := string
      cases same
      exact not_quote rfl
  | emptyArray => exact not_bracket rfl
  | array => exact not_bracket rfl
  | emptyObject => exact not_brace rfl
  | object => exact not_brace rfl

/-- An answered line makes its answer ready and leaves a new decoder. -/
theorem pushAll_answered {line : List UInt8} (no_newline : 0x0a ∉ line) {answer : Option Next}
    (answered : Answered line answer) : Decoder.new.pushAll (line ++ [0x0a]) = (answer.toList, .new) := by
  cases answered with
  | refused refused =>
      rw [pushAll_append, pushAll_refused no_newline refused, pushAll_single, push_skipped_newline]
      rfl
  | blank short spaces =>
      have reached := reached_spaces .new rfl spaces no_newline
      exact reached.pushAll_newline short
  | frame short encoded text =>
      have tolerable : Tolerable maxDepth line := .inl ⟨[], by rwa [List.append_nil]⟩
      obtain ⟨decoder, reached, rfl⟩ := reached_of_tolerable no_newline tolerable
      have started := started_of_not_blank reached (not_spaces_of_text text)
      rw [reached.pushAll_newline short, (endOfLine_started reached started).1 ⟨encoded, text⟩]
      rfl
  | incomplete short not_blank tolerable not_whole first =>
      obtain ⟨decoder, reached, rfl⟩ := reached_of_tolerable no_newline tolerable
      have started := started_of_not_blank reached not_blank
      rw [reached.firstId_newline] at first
      rw [reached.pushAll_newline short, (endOfLine_started reached started).2 not_whole, first]
      rfl

theorem exists_answered {line : List UInt8} (no_newline : 0x0a ∉ line) : ∃ answer, Answered line answer := by
  rcases reached_or_refused no_newline with ⟨decoder, reached, rfl, short⟩ | ⟨fault, refused⟩
  · by_cases spaces : Spaces decoder.frame
    · exact ⟨_, .blank short spaces⟩
    · by_cases whole : Encoded decoder.frame ∧ IsText maxDepth decoder.frame
      · exact ⟨_, .frame short whole.1 whole.2⟩
      · exact ⟨_, .incomplete short spaces (reached.tolerable le_rfl) whole
          ((reached.firstId_newline _).mpr rfl)⟩
  · exact ⟨_, .refused refused⟩

/-- Every line has one answer. -/
theorem existsUnique_answered {line : List UInt8} (no_newline : 0x0a ∉ line) :
    ∃! answer, Answered line answer := by
  obtain ⟨answer, answered⟩ := exists_answered no_newline
  refine ⟨answer, answered, fun other other_answered => ?_⟩
  have same := (pushAll_answered no_newline other_answered).symm.trans (pushAll_answered no_newline answered)
  have lists_eq : other.toList = answer.toList := congrArg Prod.fst same
  cases other <;> cases answer <;> simp_all

theorem pushAll_unended {line : List UInt8} (no_newline : 0x0a ∉ line) {answer : Option Next}
    (unended : Unended line answer) : (Decoder.new.pushAll line).1 = answer.toList := by
  cases unended with
  | refused refused =>
      rw [pushAll_refused no_newline refused]
      rfl
  | waiting short tolerable =>
      obtain ⟨decoder, reached, rfl⟩ := reached_of_tolerable no_newline tolerable
      rw [reached.pushAll_frame short]
      rfl

theorem exists_unended {line : List UInt8} (no_newline : 0x0a ∉ line) : ∃ answer, Unended line answer := by
  rcases reached_or_refused no_newline with ⟨decoder, reached, rfl, short⟩ | ⟨fault, refused⟩
  · exact ⟨_, .waiting short (reached.tolerable le_rfl)⟩
  · exact ⟨_, .refused refused⟩

end Baley.Mcp.Frame
