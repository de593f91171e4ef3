import Baley.Mcp.Lines

/-!
# The answers of a stream

The reader's answers are those to the lines of the bytes, however they are cut into reads and whichever
calls are dropped.
-/

namespace Baley.Mcp.Frame

open Json Json.Grammar

/-! ## The lines of a stream -/

/-- The bytes are lines, each with its newline, and what follows the last newline. -/
structure Cut (bytes : List UInt8) (lines : List (List UInt8)) (tail : List UInt8) : Prop where
  bytes_eq : bytes = lines.flatMap (fun line => line ++ [0x0a]) ++ tail
  no_newline : ∀ line ∈ lines, 0x0a ∉ line
  tail_open : 0x0a ∉ tail

theorem exists_cut (bytes : List UInt8) : ∃ lines tail, Cut bytes lines tail := by
  induction bytes with
  | nil => exact ⟨[], [], rfl, by simp, by simp⟩
  | cons byte bytes ih =>
      obtain ⟨lines, tail, rfl, no_newline, tail_open⟩ := ih
      by_cases newline : byte = 0x0a
      · subst newline
        exact ⟨[] :: lines, tail, rfl, List.forall_mem_cons.mpr ⟨by simp, no_newline⟩, tail_open⟩
      · cases lines with
        | nil => exact ⟨[], byte :: tail, rfl, by simp, by simp [Ne.symm newline, tail_open]⟩
        | cons line lines =>
            obtain ⟨line_open, no_newline⟩ := List.forall_mem_cons.mp no_newline
            refine ⟨(byte :: line) :: lines, tail, rfl, ?_, tail_open⟩
            exact List.forall_mem_cons.mpr ⟨by simp [Ne.symm newline, line_open], no_newline⟩

/-- What the lines make ready, one after another. -/
theorem pushAll_cut {bytes tail : List UInt8} {lines : List (List UInt8)} (cut : Cut bytes lines tail)
    {answers : List (Option Next)} (answered : List.Forall₂ Answered lines answers)
    {last : Option Next} (unended : Unended tail last) :
    (Decoder.new.pushAll bytes).1 = (answers ++ [last]).reduceOption := by
  obtain ⟨rfl, no_newline, tail_open⟩ := cut
  induction answered with
  | nil =>
      rw [List.flatMap_nil, List.nil_append, pushAll_unended tail_open unended]
      cases last <;> rfl
  | @cons line answer lines answers first answered ih =>
      obtain ⟨line_open, no_newline⟩ := List.forall_mem_cons.mp no_newline
      rw [List.flatMap_cons, List.append_assoc, pushAll_append, pushAll_answered line_open first]
      rw [ih no_newline]
      cases answer <;> rfl

theorem existsUnique_unended {line : List UInt8} (no_newline : 0x0a ∉ line) :
    ∃! answer, Unended line answer := by
  obtain ⟨answer, unended⟩ := exists_unended no_newline
  refine ⟨answer, unended, fun other other_unended => ?_⟩
  have same := (pushAll_unended no_newline other_unended).symm.trans (pushAll_unended no_newline unended)
  cases other <;> cases answer <;> simp_all

theorem exists_answers {lines : List (List UInt8)} (no_newline : ∀ line ∈ lines, 0x0a ∉ line) :
    ∃ answers, List.Forall₂ Answered lines answers := by
  induction lines with
  | nil => exact ⟨[], .nil⟩
  | cons line lines ih =>
      obtain ⟨line_open, no_newline⟩ := List.forall_mem_cons.mp no_newline
      obtain ⟨answer, first⟩ := exists_answered line_open
      obtain ⟨answers, answered⟩ := ih no_newline
      exact ⟨answer :: answers, .cons first answered⟩

/-! ## The reader -/

/-- The bytes that the reads give until the input ends. -/
def received : List Read → List UInt8
  | [] => []
  | .bytes chunk :: reads => if chunk.isEmpty then [] else chunk ++ received reads
  | .cancelled :: reads => received reads
  | .failed :: reads => received reads

namespace FrameReader

/-- What is still to be returned. -/
def left (reader : FrameReader) (reads : List Read) : List Next :=
  (reader.decoder.pushAll (reader.buffer ++ if reader.ended then [] else received reads)).1

theorem drain_some {decoder after : Decoder} {buffer rest : List UInt8} {next : Next}
    (drained : drain decoder buffer = (some next, after, rest)) (more : List UInt8) :
    (decoder.pushAll (buffer ++ more)).1 = next :: (after.pushAll (rest ++ more)).1 := by
  induction buffer generalizing decoder with
  | nil => cases drained
  | cons byte buffer ih =>
      rw [List.cons_append, pushAll_cons]
      rw [drain] at drained
      cases pushed : decoder.push byte with
      | mk step decoder' =>
          rw [pushed] at drained
          cases step with
          | more => exact ih drained
          | frame bytes =>
              cases drained
              rfl
          | fault fault =>
              cases drained
              rfl

theorem drain_none {decoder after : Decoder} {buffer rest : List UInt8}
    (drained : drain decoder buffer = (none, after, rest)) :
    rest = [] ∧ ∀ more, (decoder.pushAll (buffer ++ more)).1 = (after.pushAll more).1 := by
  induction buffer generalizing decoder with
  | nil =>
      cases drained
      exact ⟨rfl, fun _ => rfl⟩
  | cons byte buffer ih =>
      rw [drain] at drained
      simp only [List.cons_append, pushAll_cons]
      cases pushed : decoder.push byte with
      | mk step decoder' =>
          rw [pushed] at drained
          cases step with
          | more => exact ih drained
          | frame bytes => cases drained
          | fault fault => cases drained

/-- What one call does. -/
inductive Called (reader : FrameReader) (reads : List Read) : Option Next × FrameReader × List Read → Prop
  | next {next : Next} {after : FrameReader} {later : List Read} (fewer : later.length ≤ reads.length)
      (left_eq : reader.left reads = next :: after.left later) : Called reader reads (some next, after, later)
  | ended {after : FrameReader} {later : List Read} (fewer : later.length ≤ reads.length)
      (left_eq : reader.left reads = []) (after_eq : after.left later = []) :
      Called reader reads (some .ended, after, later)
  | dropped {after : FrameReader} {later : List Read} (fewer : later.length < reads.length)
      (left_eq : reader.left reads = after.left later) : Called reader reads (none, after, later)
  | waiting {after : FrameReader} (left_eq : reader.left reads = []) (after_eq : after.left [] = []) :
      Called reader reads (none, after, [])

theorem Called.mono {reader reader' : FrameReader} {reads reads' : List Read}
    {result : Option Next × FrameReader × List Read} (called : Called reader' reads' result)
    (fewer : reads'.length ≤ reads.length) (left_eq : reader.left reads = reader'.left reads') :
    Called reader reads result := by
  cases called with
  | next later left_eq' => exact .next (later.trans fewer) (left_eq.trans left_eq')
  | ended later left_eq' after_eq => exact .ended (later.trans fewer) (left_eq.trans left_eq') after_eq
  | dropped later left_eq' => exact .dropped (later.trans_le fewer) (left_eq.trans left_eq')
  | waiting left_eq' after_eq => exact .waiting (left_eq.trans left_eq') after_eq

theorem left_drained {reader : FrameReader} {after : Decoder} {rest : List UInt8}
    (drained : drain reader.decoder reader.buffer = (none, after, rest)) (reads : List Read) :
    rest = [] ∧ reader.left reads =
      (after.pushAll (if reader.ended then [] else received reads)).1 := by
  obtain ⟨rfl, same⟩ := drain_none drained
  exact ⟨rfl, same _⟩

theorem called_next (reader : FrameReader) (reads : List Read) : Called reader reads (reader.next reads) := by
  induction reads generalizing reader with
  | nil =>
      rw [FrameReader.next]
      rcases drained : drain reader.decoder reader.buffer with ⟨_ | next, after, rest⟩
      · obtain ⟨rfl, left_eq⟩ := left_drained drained []
        rw [received, ite_self] at left_eq
        simp only
        split_ifs with ended
        · exact .ended le_rfl left_eq (by simp [left, ended, Decoder.pushAll])
        · exact .waiting left_eq (by simp [left, received, Decoder.pushAll])
      · exact .next le_rfl (drain_some drained _)
  | cons read reads ih =>
      rw [FrameReader.next]
      rcases drained : drain reader.decoder reader.buffer with ⟨_ | next, after, rest⟩
      · obtain ⟨rfl, left_eq⟩ := left_drained drained (read :: reads)
        simp only
        by_cases ended : reader.ended = true
        · rw [if_pos ended]
          rw [if_pos ended] at left_eq
          exact .ended le_rfl left_eq (by simp [left, ended, Decoder.pushAll])
        · rw [if_neg ended]
          rw [if_neg ended] at left_eq
          cases read with
          | cancelled => exact .dropped (Nat.lt_succ_self _) (by simpa [left, ended, received] using left_eq)
          | failed => exact .dropped (Nat.lt_succ_self _) (by simpa [left, ended, received] using left_eq)
          | bytes chunk =>
              refine (ih _).mono (Nat.le_succ _) (left_eq.trans ?_)
              rw [received, left]
              cases chunk with
              | nil => rfl
              | cons byte chunk => simp
      · exact .next le_rfl (drain_some drained _)

/-- Calls return what is left, in order, and after it only that the input ended. -/
theorem calls_left (n : Nat) (reader : FrameReader) (reads : List Read) :
    ∃ ends, calls n reader reads <+: reader.left reads ++ List.replicate ends .ended ∧
      ((reader.left reads).length + reads.length ≤ n →
        calls n reader reads = reader.left reads ++ List.replicate ends .ended) := by
  induction n generalizing reader reads with
  | zero =>
      refine ⟨0, List.nil_prefix, fun none_left => ?_⟩
      have nothing : reader.left reads = [] := List.length_eq_zero_iff.mp (by omega)
      simp [nothing, calls]
  | succ n ih =>
      have called := called_next reader reads
      rw [calls]
      rcases result : reader.next reads with ⟨_ | next, after, later⟩
      · rw [result] at called
        obtain ⟨ends, initial, whole⟩ := ih after later
        cases called with
        | dropped fewer left_eq =>
            rw [left_eq]
            exact ⟨ends, initial, fun enough => whole (by omega)⟩
        | waiting left_eq after_eq =>
            rw [after_eq] at initial whole
            rw [left_eq]
            exact ⟨ends, initial, fun _ => whole (by simp)⟩
      · rw [result] at called
        obtain ⟨ends, initial, whole⟩ := ih after later
        cases called with
        | next fewer left_eq =>
            rw [left_eq]
            refine ⟨ends, List.cons_prefix_cons.mpr ⟨rfl, initial⟩, fun enough => ?_⟩
            rw [List.length_cons] at enough
            exact congrArg (List.cons next) (whole (by omega))
        | ended fewer left_eq after_eq =>
            rw [after_eq, List.nil_append, List.prefix_replicate_iff] at initial
            have all_ended : Next.ended :: calls n after later =
                [] ++ List.replicate ((calls n after later).length + 1) .ended := by
              rw [List.nil_append, List.replicate_succ, ← initial.2]
            rw [left_eq]
            exact ⟨_, List.prefix_iff_eq_append.mpr (by simp [← all_ended]), fun _ => all_ended⟩

end FrameReader

/-- Every line has one answer, and the reader's answers are those to the lines of what was read and to
what follows the last of them. -/
theorem frames_answered :
    (∀ line, 0x0a ∉ line → ∃! answer, Answered line answer) ∧
      (∀ line, 0x0a ∉ line → ∃! answer, Unended line answer) ∧
      ∀ reads, ∃ lines tail answers last, Cut (received reads) lines tail ∧
        List.Forall₂ Answered lines answers ∧ Unended tail last ∧
        (∀ n, ∃ ends, FrameReader.calls n .new reads <+:
          (answers ++ [last]).reduceOption ++ List.replicate ends .ended) ∧
        ∃ enough, ∀ n, enough ≤ n → ∃ ends, FrameReader.calls n .new reads =
          (answers ++ [last]).reduceOption ++ List.replicate ends .ended := by
  refine ⟨fun line => existsUnique_answered, fun line => existsUnique_unended, fun reads => ?_⟩
  obtain ⟨lines, tail, cut⟩ := exists_cut (received reads)
  obtain ⟨answers, answered⟩ := exists_answers cut.no_newline
  obtain ⟨last, unended⟩ := exists_unended cut.tail_open
  have left_eq : FrameReader.new.left reads = (answers ++ [last]).reduceOption :=
    pushAll_cut cut answered unended
  refine ⟨lines, tail, answers, last, cut, answered, unended, fun n => ?_,
    (FrameReader.new.left reads).length + reads.length, fun n enough => ?_⟩
  · obtain ⟨ends, initial, -⟩ := FrameReader.calls_left n .new reads
    exact ⟨ends, left_eq ▸ initial⟩
  · obtain ⟨ends, -, whole⟩ := FrameReader.calls_left n .new reads
    exact ⟨ends, left_eq ▸ whole enough⟩

/-- A line with a null id before its id: `{"id":null,"id":1,]`. -/
def nullFirst : List UInt8 :=
  [0x7b, 0x22, 0x69, 0x64, 0x22, 0x3a] ++
    (nullBytes ++ [0x2c, 0x22, 0x69, 0x64, 0x22, 0x3a, 0x31, 0x2c, 0x5d])

/-- A line that is no literal from its second byte on. -/
def longLiteral : List UInt8 :=
  0x6e :: List.replicate maxFrameBytes 0x78

theorem takesMember_brace : TakesMember [0x7b] := by
  have not_newline : (0x7b : UInt8) ≠ 0x0a := by decide
  have reached : Reached (Decoder.new.feed 0x7b).1 := .more .new not_newline rfl
  exact (takesMember_iff reached.follows).mpr ⟨rfl, rfl, .inr rfl⟩

theorem reached_literal {rest : List UInt8} (no_newline : 0x0a ∉ rest)
    (plain : ∀ byte ∈ rest, isDelimiter byte = false) :
    ∃ decoder, Reached decoder ∧ decoder.frame = 0x6e :: rest ∧ decoder.token = .atom 0 ∧
      decoder.id = none := by
  have expects : Decoder.new.ExpectsValue := ⟨rfl, .inl rfl⟩
  have start : IsAtomStart 0x6e := by decide
  have not_newline : (0x6e : UInt8) ≠ 0x0a := by decide
  obtain ⟨after, taken, token, -, id⟩ := feed_atomStart expects start
  have frame_eq := frame_feed .new 0x6e
  rw [taken] at frame_eq
  have frame_eq : after.frame = [0x6e] := frame_eq
  have reached := reached_atom (.more .new not_newline taken) token no_newline plain
  exact ⟨_, reached, by rw [frame_eq, List.singleton_append], token, id⟩

theorem not_text_literal (depth : Nat) (rest : List UInt8) : ¬IsText depth ([0x6e, 0x78] ++ rest) := by
  intro text
  have no_newline : (0x0a : UInt8) ∉ [0x78] := by decide
  have plain : ∀ byte ∈ [0x78], isDelimiter byte = false := by decide +kernel
  obtain ⟨decoder, reached, frame_eq, token, -⟩ := reached_literal no_newline plain
  have text := text.mono (Nat.le_max_left depth maxDepth)
  rw [← frame_eq, reached.follows.text_iff _ (Nat.le_max_right depth maxDepth), remaining_atom _ token] at text
  obtain ⟨more, tail, -, atom, -⟩ := text
  have mem := atom.subset 0x78 (by simp [frame_eq])
  exact absurd mem (by decide)

theorem answered_longLiteral : Answered longLiteral (some (.fault ⟨.tooLarge, none⟩)) := by
  obtain ⟨count, full⟩ : ∃ count, maxFrameBytes = count + 1 := ⟨4194303, rfl⟩
  have taken : longLiteral.take maxFrameBytes = 0x6e :: List.replicate count 0x78 := by
    rw [longLiteral, full, List.take_succ_cons, List.take_replicate, Nat.min_eq_left (Nat.le_succ count)]
  have no_newline : (0x0a : UInt8) ∉ List.replicate count 0x78 := by simp [List.mem_replicate]
  have plain : ∀ byte ∈ List.replicate count 0x78, isDelimiter byte = false := by
    intro byte mem
    rw [List.eq_of_mem_replicate mem]
    rfl
  obtain ⟨decoder, reached, frame_eq, -, id⟩ := reached_literal no_newline plain
  rw [← frame_eq] at taken
  refine .refused (.tooLarge ?_ ?_ ?_)
  · rw [longLiteral, List.length_cons, List.length_replicate]
    exact Nat.lt_succ_self _
  · rw [taken]
    exact reached.tolerable le_rfl
  · rw [taken, reached.firstId_iff, id]

/-- A wrong literal is not refused where it goes wrong, and an id that cannot be used is passed. -/
theorem faults_not_earliest :
    (IdFront (nullFirst.take 6) ∧ idValue nullBytes = none ∧
      Decoder.new.pushAll (nullFirst ++ [0x0a]) = ([.fault ⟨.malformed, some (.number "1")⟩], .new)) ∧
      (∀ depth rest, ¬IsText depth ([0x6e, 0x78] ++ rest)) ∧
        Decoder.new.pushAll (longLiteral ++ [0x0a]) = ([.fault ⟨.tooLarge, none⟩], .new) := by
  have no_newline : 0x0a ∉ longLiteral := by
    rw [longLiteral, List.mem_cons, not_or]
    exact ⟨by decide, fun mem => absurd (List.eq_of_mem_replicate mem) (by decide)⟩
  exact ⟨⟨⟨[0x7b], [], [], rfl, takesMember_brace, spaces_nil, spaces_nil⟩, rfl, rfl⟩, not_text_literal,
    pushAll_answered no_newline answered_longLiteral⟩

end Baley.Mcp.Frame
