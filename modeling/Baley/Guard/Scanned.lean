import Baley.Guard.Verb

/-!
# What the scanner reads

The scanner reads the pieces of a command as the shell does, but for two: between double quotes it
drops a backslash that escapes nothing, and a form feed or a carriage return outside quotes ends a
word.
-/

namespace Baley

open Shell

/-- A piece between double quotes as the scanner reads it. -/
def misreadQuoted : Quoted → Quoted
  | .backslash c => .plain c
  | piece => piece

/-- A piece as the scanner reads it. -/
def misread : Piece → Piece
  | .plain c => if c = '\x0c' ∨ c = '\r' then .blank c else .plain c
  | .double quoted => .double (quoted.map misreadQuoted)
  | piece => piece

namespace Scanner

/-- What reading a piece does to the pass. -/
def take (scanner : Scanner) (piece : Piece) : Scanner :=
  match piece with
  | .blank _ => scanner.finishWord
  | .separator _ => scanner.finishWord.segment
  | .continued => scanner
  | piece => { scanner with word := scanner.word ++ piece.chars, started := true }

variable {scanner : Scanner}

/-- Outside quotes an ordinary character is added to the word. -/
theorem scan_plain (unquoted : scanner.quote = none) {c : Char} (readable : c ∉ special)
    (unspaced : isSpace c = false) (uncommented : c = '#' → scanner.started = true)
    (rest : List Char) :
    scanner.scan (c :: rest) =
      ({ scanner with word := scanner.word ++ [c], started := true } : Scanner).scan rest := by
  simp only [special, List.mem_cons, List.not_mem_nil, or_false, not_or] at readable
  have open_comment : ¬(c = '#' ∧ scanner.started = false) := by
    rintro ⟨same, unstarted⟩
    rw [uncommented same] at unstarted
    cases unstarted
  rw [scan.eq_def]
  simp [unquoted, readable, unspaced, push, open_comment]

theorem scan_comment (unquoted : scanner.quote = none) (unstarted : scanner.started = false)
    (rest : List Char) : scanner.scan ('#' :: rest) = none := by
  rw [scan.eq_def]
  simp [unquoted, unstarted]

/-- Blanks end a word, and so do form feeds and carriage returns. -/
theorem scan_space (unquoted : scanner.quote = none) {c : Char}
    (space : c = ' ' ∨ c = '\t' ∨ c = '\x0c' ∨ c = '\r') (rest : List Char) :
    scanner.scan (c :: rest) = scanner.finishWord.scan rest := by
  rw [scan.eq_def]
  rcases space with rfl | rfl | rfl | rfl <;> simp [unquoted, isSpace]

theorem scan_separator (unquoted : scanner.quote = none) {c : Char}
    (separates : c = ';' ∨ c = '|' ∨ c = '&' ∨ c = '\n') (rest : List Char) :
    scanner.scan (c :: rest) = scanner.finishWord.segment.scan rest := by
  rw [scan.eq_def]
  rcases separates with rfl | rfl | rfl | rfl <;> simp [unquoted]

theorem scan_escaped (unquoted : scanner.quote ≠ some '\x27') {c : Char} (not_newline : c ≠ '\n')
    (rest : List Char) :
    scanner.scan ('\x5c' :: c :: rest) =
      ({ scanner with word := scanner.word ++ [c], started := true } : Scanner).scan rest := by
  rw [scan.eq_def]
  simp [unquoted, not_newline, push]

theorem scan_continued (unquoted : scanner.quote ≠ some '\x27') (rest : List Char) :
    scanner.scan ('\x5c' :: '\n' :: rest) = scanner.scan rest := by
  rw [scan.eq_def]
  simp [unquoted]

theorem scan_quote (unquoted : scanner.quote = none) {c : Char} (quotes : c = '\x27' ∨ c = '\x22')
    (rest : List Char) :
    scanner.scan (c :: rest) = ({ scanner with quote := some c, started := true } : Scanner).scan rest := by
  rw [scan.eq_def]
  rcases quotes with rfl | rfl <;> simp [unquoted]

/-- Between single quotes every character is taken as it stands. -/
theorem scan_single {quoted : List Char} (readable : ∀ c ∈ quoted, c ≠ '\x27' ∧ c ≠ '\x00')
    (quote : scanner.quote = some '\x27') (rest : List Char) :
    scanner.scan (quoted ++ '\x27' :: rest) =
      ({ scanner with word := scanner.word ++ quoted, quote := none } : Scanner).scan rest := by
  induction quoted generalizing scanner with
  | nil =>
      rw [List.nil_append, scan.eq_def]
      simp [quote]
  | cons c quoted ih =>
      obtain ⟨not_quote, not_nul⟩ := readable c List.mem_cons_self
      have pushed : scanner.scan (c :: (quoted ++ '\x27' :: rest)) =
          (scanner.push c).scan (quoted ++ '\x27' :: rest) := by
        rw [scan.eq_def]
        simp [quote, not_quote, not_nul]
      have rest_readable : ∀ other ∈ quoted, other ≠ '\x27' ∧ other ≠ '\x00' :=
        fun other other_mem => readable other (List.mem_cons_of_mem _ other_mem)
      rw [List.cons_append, pushed]
      refine (ih rest_readable (by exact quote)).trans ?_
      simp [push]

/-- Between double quotes a backslash that escapes nothing is dropped. -/
theorem scan_double {quoted : List Quoted} (readable : ∀ piece ∈ quoted, piece.Readable)
    (quote : scanner.quote = some '\x22') (started : scanner.started = true) (rest : List Char) :
    scanner.scan (quoted.flatMap Quoted.text ++ '\x22' :: rest) =
      ({ scanner with
          word := scanner.word ++ (quoted.map misreadQuoted).flatMap Quoted.chars
          quote := none } : Scanner).scan rest := by
  induction quoted generalizing scanner with
  | nil =>
      rw [List.flatMap_nil, List.nil_append, scan.eq_def]
      simp [quote]
  | cons piece quoted ih =>
      have not_single : scanner.quote ≠ some '\x27' := by simp [quote]
      have rest_readable : ∀ other ∈ quoted, other.Readable :=
        fun other other_mem => readable other (List.mem_cons_of_mem _ other_mem)
      have piece_readable := readable piece List.mem_cons_self
      have pushed : scanner.scan (piece.text ++ (quoted.flatMap Quoted.text ++ '\x22' :: rest)) =
          ({ scanner with word := scanner.word ++ (misreadQuoted piece).chars } : Scanner).scan
            (quoted.flatMap Quoted.text ++ '\x22' :: rest) := by
        cases piece with
        | plain c =>
            obtain ⟨not_escapable, not_nul⟩ := piece_readable
            simp only [escapable, List.mem_cons, List.not_mem_nil, or_false, not_or] at not_escapable
            rw [Quoted.text, List.singleton_append, scan.eq_def]
            simp [quote, not_nul, not_escapable, push, misreadQuoted, Quoted.chars]
        | escaped c =>
            have not_newline : c ≠ '\n' := by
              rintro rfl
              exact absurd piece_readable (by simp [Quoted.Readable, escapable])
            rw [Quoted.text, List.cons_append, List.singleton_append, scan_escaped not_single not_newline]
            simp [misreadQuoted, Quoted.chars, started]
        | continued =>
            rw [Quoted.text, List.cons_append, List.singleton_append, scan_continued not_single]
            simp [misreadQuoted, Quoted.chars]
        | backslash c =>
            rw [Quoted.text, List.cons_append, List.singleton_append,
              scan_escaped not_single piece_readable.2.1]
            simp [misreadQuoted, Quoted.chars, started]
      rw [List.flatMap_cons, List.append_assoc, pushed, ih rest_readable (by exact quote) (by exact started)]
      simp [List.append_assoc]

/-- What reading a piece outside quotes does. -/
theorem scan_piece {piece : Piece} (readable : piece.Readable) (unquoted : scanner.quote = none)
    (uncommented : misread piece = .plain '#' → scanner.started = true) (rest : List Char) :
    scanner.scan (piece.text ++ rest) = (scanner.take (misread piece)).scan rest := by
  have not_single : scanner.quote ≠ some '\x27' := by simp [unquoted]
  cases piece with
  | plain c =>
      rw [misread] at uncommented ⊢
      rw [Piece.text, List.singleton_append]
      split_ifs at uncommented ⊢ with spaced
      · exact scan_space unquoted (by tauto) rest
      · have unspaced : isSpace c = false := by
          simp only [Piece.Readable, special, List.mem_cons, List.not_mem_nil, or_false, not_or]
            at readable
          simp only [not_or] at spaced
          simp [isSpace, spaced, readable]
        exact scan_plain unquoted readable unspaced (fun same => uncommented (by rw [same])) rest
  | escaped c => exact scan_escaped not_single readable.1 rest
  | continued => exact scan_continued not_single rest
  | single quoted =>
      rw [Piece.text, List.append_assoc, List.cons_append, scan_quote unquoted (.inl rfl),
        List.singleton_append, scan_single readable rfl]
      simp [take, misread, Piece.chars, unquoted]
  | double quoted =>
      rw [Piece.text, List.append_assoc, List.cons_append, scan_quote unquoted (.inr rfl),
        List.singleton_append, scan_double readable rfl rfl]
      simp [take, misread, Piece.chars, unquoted]
  | blank c =>
      rw [Piece.text, List.singleton_append]
      exact scan_space unquoted (by
        rcases readable with rfl | rfl
        · exact .inl rfl
        · exact .inr (.inl rfl)) rest
  | separator c => exact scan_separator unquoted readable rest

@[simp]
theorem finishWord_quote : scanner.finishWord.quote = scanner.quote := by
  unfold finishWord
  split_ifs <;> rfl

@[simp]
theorem finishWord_started : scanner.finishWord.started = false := by
  unfold finishWord
  split_ifs with started
  · rfl
  · simpa using started

theorem take_quote (piece : Piece) : (scanner.take piece).quote = scanner.quote := by
  cases piece <;> simp [take, Scanner.segment]

theorem take_started (piece : Piece) :
    (scanner.take piece).started = piece.starts scanner.started := by
  cases piece <;> simp [take, Scanner.segment, Piece.starts, Piece.inWord]

/-- Reading pieces one after another. -/
theorem scan_text {pieces : List Piece} (readable : ∀ piece ∈ pieces, piece.Readable)
    (unquoted : scanner.quote = none)
    (uncommented : Uncommented scanner.started (pieces.map misread)) (rest : List Char) :
    scanner.scan (text pieces ++ rest) = ((pieces.map misread).foldl take scanner).scan rest := by
  induction pieces generalizing scanner with
  | nil => rfl
  | cons piece pieces ih =>
      obtain ⟨piece_uncommented, rest_uncommented⟩ := uncommented
      rw [text, List.flatMap_cons, List.append_assoc,
        scan_piece (readable piece List.mem_cons_self) unquoted piece_uncommented]
      refine ih (fun other other_mem => readable other (List.mem_cons_of_mem _ other_mem))
        ((take_quote _).trans unquoted) ?_
      rwa [take_started]

/-- A `#` that the scanner takes for a comment is refused. -/
theorem scan_text_comment {pieces : List Piece} (readable : ∀ piece ∈ pieces, piece.Readable)
    (unquoted : scanner.quote = none)
    (commented : ¬Uncommented scanner.started (pieces.map misread)) (rest : List Char) :
    scanner.scan (text pieces ++ rest) = none := by
  induction pieces generalizing scanner with
  | nil => exact absurd trivial commented
  | cons piece pieces ih =>
      rw [text, List.flatMap_cons, List.append_assoc]
      by_cases piece_uncommented : misread piece = .plain '#' → scanner.started = true
      · rw [scan_piece (readable piece List.mem_cons_self) unquoted piece_uncommented]
        refine ih (fun other other_mem => readable other (List.mem_cons_of_mem _ other_mem))
          ((take_quote _).trans unquoted) ?_
        rw [take_started]
        exact fun uncommented => commented ⟨piece_uncommented, uncommented⟩
      · simp only [Classical.not_imp, Bool.not_eq_true] at piece_uncommented
        obtain ⟨misread_eq, unstarted⟩ := piece_uncommented
        have piece_eq : piece = .plain '#' := by
          cases piece with
          | plain c =>
              rw [misread] at misread_eq
              split_ifs at misread_eq
              exact misread_eq
          | _ => cases misread_eq
        rw [piece_eq]
        exact scan_comment unquoted unstarted _

/-! ## Words and segments -/

/-- What stands of a word that is not finished. -/
structure Holds (scanner : Scanner) (front : List Piece) : Prop where
  joined : ∀ piece ∈ front, piece.isBlank = false ∧ piece.isSeparator = false
  word_eq : scanner.word = front.flatMap Piece.chars
  started_eq : scanner.started = front.any Piece.inWord

theorem words_group {front : List Piece} (joined : ∀ piece ∈ front, piece.isBlank = false) :
    Shell.words front = if front.any Piece.inWord then [front.flatMap Piece.chars] else [] := by
  rw [Shell.words, List.splitOnP_eq_singleton joined]
  split_ifs with started
  · simp [started]
  · simp [started]

theorem words_blank (front rest : List Piece) (c : Char) :
    Shell.words (front ++ .blank c :: rest) = Shell.words front ++ Shell.words rest := by
  rw [Shell.words, List.splitOnP_append_cons front rest (by rfl), List.filter_append, List.map_append]
  rfl

/-- What is no part of a word adds nothing to one. -/
theorem chars_of_unstarted {front : List Piece} (unstarted : front.any Piece.inWord = false) :
    front.flatMap Piece.chars = [] := by
  rw [List.flatMap_eq_nil_iff]
  intro piece piece_mem
  have outside := List.any_eq_false.mp unstarted piece piece_mem
  cases piece with
  | continued => rfl
  | blank _ => rfl
  | separator _ => rfl
  | _ => exact absurd rfl outside

theorem Holds.finishWord {front : List Piece} (holds : scanner.Holds front) :
    scanner.finishWord.Holds [] ∧ scanner.finishWord.words = scanner.words ++ Shell.words front ∧
      scanner.finishWord.judged = scanner.judged := by
  obtain ⟨joined, word_eq, started_eq⟩ := holds
  rw [words_group fun piece piece_mem => (joined piece piece_mem).1, ← started_eq]
  unfold Scanner.finishWord
  cases started : scanner.started with
  | true => exact ⟨⟨by simp, by simp, by simp⟩, by simp [word_eq], by simp⟩
  | false =>
      rw [started] at started_eq
      have word_nil : scanner.word = [] := word_eq.trans (chars_of_unstarted started_eq.symm)
      exact ⟨⟨by simp, by simp [word_nil], by simp [started]⟩, by simp, by simp⟩

/-- A piece that ends no word goes on with it. -/
theorem Holds.take {front : List Piece} (holds : scanner.Holds front) {piece : Piece}
    (joins : piece.isBlank = false ∧ piece.isSeparator = false) :
    (scanner.take piece).Holds (front ++ [piece]) ∧ (scanner.take piece).words = scanner.words ∧
      (scanner.take piece).judged = scanner.judged := by
  obtain ⟨joined, word_eq, started_eq⟩ := holds
  have joined_more : ∀ other ∈ front ++ [piece],
      other.isBlank = false ∧ other.isSeparator = false := by
    intro other other_mem
    rcases List.mem_append.mp other_mem with earlier | last
    · exact joined other earlier
    · rwa [List.mem_singleton.mp last]
  cases piece with
  | blank _ => exact absurd joins.1 (by simp [Piece.isBlank])
  | separator _ => exact absurd joins.2 (by simp [Piece.isSeparator])
  | _ =>
      refine ⟨⟨joined_more, ?_, ?_⟩, rfl, rfl⟩
      · simp [Scanner.take, word_eq, Piece.chars]
      · simp [Scanner.take, started_eq, Piece.inWord]

/-- The whole pass judges the segments in their order. -/
theorem judged_foldl_take {front pieces : List Piece} (holds : scanner.Holds front) :
    (pieces.foldl take scanner).finishWord.segment.judged =
      (((pieces.splitOnP Piece.isSeparator).modifyHead (front ++ ·)).map Shell.words |>.modifyHead
        (scanner.words ++ ·)).foldl SegmentsJudged.segment scanner.judged := by
  induction pieces generalizing scanner front with
  | nil =>
      obtain ⟨-, words_eq, judged_eq⟩ := holds.finishWord
      simp [Scanner.segment, words_eq, judged_eq]
  | cons piece pieces ih =>
      obtain ⟨part, parts, parts_eq⟩ :=
        List.exists_cons_of_ne_nil (List.splitOnP_ne_nil Piece.isSeparator pieces)
      rw [parts_eq] at ih
      rw [List.foldl_cons, List.splitOnP_cons_eq_if_modifyHead, parts_eq]
      cases separates : piece.isSeparator with
      | true =>
          obtain ⟨holds_none, words_eq, judged_eq⟩ := holds.finishWord
          have take_eq : scanner.take piece = scanner.finishWord.segment := by
            cases piece with
            | separator _ => rfl
            | _ => cases separates
          have holds_next : scanner.finishWord.segment.Holds [] :=
            ⟨by simp, holds_none.word_eq, holds_none.started_eq⟩
          rw [take_eq, ih holds_next]
          simp [Scanner.segment, words_eq, judged_eq]
      | false =>
          cases blank : piece.isBlank with
          | true =>
              obtain ⟨holds_next, words_eq, judged_eq⟩ := holds.finishWord
              obtain ⟨c, rfl⟩ : ∃ c, piece = .blank c := by
                cases piece with
                | blank c => exact ⟨c, rfl⟩
                | _ => cases blank
              rw [take, ih holds_next]
              simp [words_eq, judged_eq, words_blank]
          | false =>
              obtain ⟨holds_next, words_eq, judged_eq⟩ := holds.take ⟨blank, separates⟩
              rw [ih holds_next, words_eq, judged_eq]
              simp

theorem holds_start : start.Holds [] := ⟨by simp, rfl, rfl⟩

/-- The pass judges the segments of the pieces as it reads them. -/
theorem scan_start {pieces : List Piece} (readable : ∀ piece ∈ pieces, piece.Readable)
    (uncommented : Uncommented false (pieces.map misread)) :
    (start.scan (text pieces)).map Scanner.judged =
      some ((segments (pieces.map misread)).foldl SegmentsJudged.segment start.judged) := by
  have read : start.scan (text pieces ++ []) = ((pieces.map misread).foldl take start).scan [] :=
    scan_text readable rfl uncommented []
  have unquoted : ((pieces.map misread).foldl take start).quote = none := by
    have kept (read : List Piece) (scanner : Scanner) :
        (read.foldl take scanner).quote = scanner.quote := by
      induction read generalizing scanner with
      | nil => rfl
      | cons piece read ih => exact (ih _).trans (take_quote piece)
    exact kept _ _
  rw [List.append_nil] at read
  rw [read, scan, if_neg (by simp [unquoted]), Option.map_some, judged_foldl_take holds_start]
  have whole : (segments (pieces.map misread)).modifyHead (start.words ++ ·) =
      segments (pieces.map misread) := by
    have nothing : (fun words : List Word => start.words ++ words) = id := by
      funext words
      rfl
    rw [nothing, List.modifyHead_id, id]
  have parts : ((pieces.map misread).splitOnP Piece.isSeparator).modifyHead ([] ++ ·) =
      (pieces.map misread).splitOnP Piece.isSeparator := by
    have nothing : (fun front : List Piece => [] ++ front) = id := rfl
    rw [nothing, List.modifyHead_id, id]
  rw [parts]
  exact congrArg (fun parts => some (parts.foldl SegmentsJudged.segment start.judged)) whole

end Scanner

/-! ## Commands that are accepted -/

/-- A command that the scanner does not decline. -/
def Accepted (command : String) : Prop :=
  (Scanner.start.scan command.toList).isSome = true

theorem accepted_iff {pieces : List Piece} (readable : ∀ piece ∈ pieces, piece.Readable) :
    Accepted (String.ofList (text pieces)) ↔ Uncommented false (pieces.map misread) := by
  rw [Accepted, String.toList_ofList]
  constructor
  · intro accepted
    by_contra commented
    have declined : Scanner.start.scan (text pieces ++ []) = none :=
      Scanner.scan_text_comment readable rfl commented []
    rw [List.append_nil] at declined
    rw [declined] at accepted
    cases accepted
  · intro uncommented
    rw [← Option.isSome_map, Scanner.scan_start readable uncommented]
    rfl

/-- The answer to an accepted command is the one to the segments of its pieces as they are misread. -/
theorem gitCommand_eq {pieces : List Piece} (readable : ∀ piece ∈ pieces, piece.Readable)
    (uncommented : Uncommented false (pieces.map misread)) :
    Answers (segments (pieces.map misread)) (gitCommand (String.ofList (text pieces))) := by
  rw [answers_iff, gitCommand, String.toList_ofList]
  have read := Scanner.scan_start readable uncommented
  obtain ⟨scanner, scanned, judged_eq⟩ := Option.map_eq_some_iff.mp read
  rw [scanned, ← judged_eq]
  rfl

/-- What is left of a command outside quotes, or within a quotation. -/
inductive LeftOf : Option Char → List Char → Prop
  | unquoted {pieces : List Piece} (readable : ∀ piece ∈ pieces, piece.Readable) :
      LeftOf none (text pieces)
  | single {quoted : List Char} {rest : List Char}
      (readable : ∀ c ∈ quoted, c ≠ '\x27' ∧ c ≠ '\x00') (left : LeftOf none rest) :
      LeftOf (some '\x27') (quoted ++ '\x27' :: rest)
  | double {quoted : List Quoted} {rest : List Char} (readable : ∀ piece ∈ quoted, piece.Readable)
      (left : LeftOf none rest) :
      LeftOf (some '\x22') (quoted.flatMap Quoted.text ++ '\x22' :: rest)

namespace LeftOf

variable {rest : List Char}

theorem cons_piece (left : LeftOf none rest) {piece : Piece} (readable : piece.Readable) :
    LeftOf none (piece.text ++ rest) := by
  cases left with
  | @unquoted pieces pieces_readable =>
      have all_readable : ∀ other ∈ piece :: pieces, other.Readable :=
        List.forall_mem_cons.mpr ⟨readable, pieces_readable⟩
      exact unquoted all_readable

theorem open_single (left : LeftOf (some '\x27') rest) : LeftOf none ('\x27' :: rest) := by
  cases left with
  | @single quoted rest readable left =>
      have piece_readable : (Piece.single quoted).Readable := readable
      simpa [Piece.text] using left.cons_piece piece_readable

theorem open_double (left : LeftOf (some '\x22') rest) : LeftOf none ('\x22' :: rest) := by
  cases left with
  | @double quoted rest readable left =>
      have piece_readable : (Piece.double quoted).Readable := readable
      simpa [Piece.text] using left.cons_piece piece_readable

theorem cons_single (left : LeftOf (some '\x27') rest) {c : Char} (not_quote : c ≠ '\x27')
    (not_nul : c ≠ '\x00') : LeftOf (some '\x27') (c :: rest) := by
  cases left with
  | @single quoted rest readable left =>
      have all_readable : ∀ other ∈ c :: quoted, other ≠ '\x27' ∧ other ≠ '\x00' :=
        List.forall_mem_cons.mpr ⟨⟨not_quote, not_nul⟩, readable⟩
      exact single all_readable left

theorem cons_double (left : LeftOf (some '\x22') rest) {piece : Quoted} (readable : piece.Readable) :
    LeftOf (some '\x22') (piece.text ++ rest) := by
  cases left with
  | @double quoted rest quoted_readable left =>
      have whole := double (List.forall_mem_cons.mpr ⟨readable, quoted_readable⟩) left
      simpa using whole

/-- A backslash outside single quotes, with the character after it. -/
theorem cons_backslash {quote : Option Char} (left : LeftOf quote rest)
    (not_single : quote ≠ some '\x27') {c : Char} (not_nul : c ≠ '\x00') :
    LeftOf quote ('\x5c' :: c :: rest) := by
  by_cases newline : c = '\n'
  · rw [newline]
    cases left with
    | unquoted readable =>
        have continued : Piece.continued.Readable := trivial
        exact (unquoted readable).cons_piece continued
    | single readable left => exact absurd rfl not_single
    | double readable left =>
        have continued : Quoted.continued.Readable := trivial
        exact (double readable left).cons_double continued
  · cases left with
    | unquoted readable =>
        have escaped : (Piece.escaped c).Readable := ⟨newline, not_nul⟩
        exact (unquoted readable).cons_piece escaped
    | single readable left => exact absurd rfl not_single
    | double readable left =>
        by_cases escapes : c ∈ escapable
        · have escaped : (Quoted.escaped c).Readable := escapes
          exact (double readable left).cons_double escaped
        · have backslash : (Quoted.backslash c).Readable := ⟨escapes, newline, not_nul⟩
          exact (double readable left).cons_double backslash

end LeftOf

namespace Scanner

/-- A pass that is within no quotation is outside quotes. -/
theorem unquoted {scanner : Scanner} (not_single : scanner.quote ≠ some '\x27')
    (not_double : scanner.quote ≠ some '\x22')
    (quote : scanner.quote = none ∨ scanner.quote = some '\x27' ∨ scanner.quote = some '\x22') :
    scanner.quote = none :=
  quote.resolve_right fun quoted => quoted.elim not_single not_double

/-- What a scanner accepts is made of pieces. -/
theorem leftOf_scan {scanner : Scanner} {chars : List Char} (no_nul : '\x00' ∉ chars)
    (quote : scanner.quote = none ∨ scanner.quote = some '\x27' ∨ scanner.quote = some '\x22')
    (accepted : (scanner.scan chars).isSome = true) : LeftOf scanner.quote chars := by
  fun_induction scan scanner chars with
  | case1 => cases accepted
  | case2 scanner unquoted =>
      have quote_none : scanner.quote = none := by simpa using unquoted
      rw [quote_none]
      have nothing : ∀ piece ∈ ([] : List Piece), piece.Readable := by simp
      exact .unquoted nothing
  | case3 => cases accepted
  | case4 scanner rest quoted not_nul ih =>
      rw [quoted]
      have nothing : ∀ c ∈ ([] : List Char), c ≠ '\x27' ∧ c ≠ '\x00' := by simp
      exact .single nothing (ih (mt (List.mem_cons_of_mem _) no_nul) (.inl rfl) accepted)
  | case5 scanner c rest not_nul quoted not_quote ih =>
      have left := ih (mt (List.mem_cons_of_mem _) no_nul) quote accepted
      rw [quoted]
      exact LeftOf.cons_single (quoted ▸ left) not_quote not_nul
  | case6 => cases accepted
  | case7 scanner not_single c rest not_newline _ ih =>
      simp only [List.mem_cons, not_or] at no_nul
      have left : LeftOf scanner.quote rest := ih no_nul.2.2 quote accepted
      exact left.cons_backslash not_single (Ne.symm no_nul.2.1)
  | case8 scanner not_single c rest newline _ ih =>
      simp only [List.mem_cons, not_or] at no_nul
      exact (ih no_nul.2.2 quote accepted).cons_backslash not_single (Ne.symm no_nul.2.1)
  | case9 => cases accepted
  | case10 scanner rest not_single double _ _ _ ih =>
      rw [double]
      have nothing : ∀ piece ∈ ([] : List Quoted), piece.Readable := by simp
      exact .double nothing (ih (mt (List.mem_cons_of_mem _) no_nul) (.inl rfl) accepted)
  | case11 scanner c rest not_nul _ not_backslash not_expansion double not_quote ih =>
      have left : LeftOf scanner.quote rest := ih (mt (List.mem_cons_of_mem _) no_nul) quote accepted
      have plain : (Quoted.plain c).Readable := by
        refine ⟨?_, not_nul⟩
        simp only [escapable, List.mem_cons, List.not_mem_nil, or_false, not_or]
        exact ⟨fun dollar => not_expansion (.inl dollar), fun tick => not_expansion (.inr tick),
          not_quote, not_backslash⟩
      rw [double] at left ⊢
      exact left.cons_double plain
  | case12 scanner c rest _ not_single _ _ not_double quotes ih =>
      have left : LeftOf (some c) rest := by
        refine ih (mt (List.mem_cons_of_mem _) no_nul) (.inr ?_) accepted
        exact quotes.imp (congrArg some) (congrArg some)
      rw [unquoted not_single not_double quote]
      rcases quotes with rfl | rfl
      · exact left.open_single
      · exact left.open_double
  | case13 scanner c rest _ not_single _ _ not_double _ separates ih =>
      have unquoted := unquoted not_single not_double quote
      have left := ih (mt (List.mem_cons_of_mem _) no_nul) (.inl (by simpa [segment] using unquoted))
        accepted
      have separator : (Piece.separator c).Readable := separates
      have quote_none : scanner.finishWord.segment.quote = none := by simpa [segment] using unquoted
      rw [quote_none] at left
      rw [unquoted]
      exact left.cons_piece separator
  | case14 => cases accepted
  | case15 => cases accepted
  | case16 scanner c rest not_nul not_single not_backslash not_expansion not_double not_quote
      not_separator not_group _ space ih =>
      have unquoted := unquoted not_single not_double quote
      have left := ih (mt (List.mem_cons_of_mem _) no_nul) (.inl (by simpa using unquoted)) accepted
      rw [finishWord_quote, unquoted] at left
      rw [unquoted]
      by_cases blank : c = ' ' ∨ c = '\t'
      · have blank : (Piece.blank c).Readable := blank
        exact left.cons_piece blank
      · have plain : (Piece.plain c).Readable := by
          simp only [not_or] at not_expansion not_quote not_separator not_group blank
          simp [Piece.Readable, special, not_nul, not_backslash, not_expansion, not_quote,
            not_separator, not_group, blank]
        exact left.cons_piece plain
  | case17 scanner c rest not_nul not_single not_backslash not_expansion not_double not_quote
      not_separator not_group _ not_space ih =>
      have unquoted := unquoted not_single not_double quote
      have left : LeftOf scanner.quote rest := ih (mt (List.mem_cons_of_mem _) no_nul) quote accepted
      have plain : (Piece.plain c).Readable := by
        simp only [not_or] at not_expansion not_quote not_separator not_group
        have not_blank : c ≠ ' ' ∧ c ≠ '\t' := by
          constructor
          · rintro rfl
            exact not_space (by decide)
          · rintro rfl
            exact not_space (by decide)
        simp [Piece.Readable, special, not_nul, not_backslash, not_expansion, not_quote,
          not_separator, not_group, not_blank]
      rw [unquoted] at left ⊢
      exact left.cons_piece plain

end Scanner

/-- An accepted command without a NUL is written piece by piece. -/
theorem exists_pieces {command : String} (accepted : Accepted command)
    (no_nul : '\x00' ∉ command.toList) :
    ∃ pieces : List Piece, (∀ piece ∈ pieces, piece.Readable) ∧
      command = String.ofList (text pieces) := by
  have left := Scanner.leftOf_scan no_nul (.inl rfl) accepted
  have start_quote : Scanner.start.quote = none := rfl
  rw [start_quote] at left
  generalize chars_eq : command.toList = chars at left
  cases left with
  | @unquoted pieces readable =>
      exact ⟨pieces, readable, by rw [← chars_eq, String.ofList_toList]⟩

/-- What starts no comment for the scanner starts none for the shell. -/
theorem Uncommented.of_misread {pieces : List Piece} {misread_started started : Bool}
    (later : misread_started = true → started = true)
    (uncommented : Uncommented misread_started (pieces.map misread)) :
    Uncommented started pieces := by
  induction pieces generalizing misread_started started with
  | nil => trivial
  | cons piece pieces ih =>
      obtain ⟨piece_uncommented, rest_uncommented⟩ := uncommented
      refine ⟨?_, ih ?_ rest_uncommented⟩
      · rintro rfl
        exact later (piece_uncommented rfl)
      · intro starts
        cases piece with
        | plain c => rfl
        | continued => exact later starts
        | _ => exact starts

/-- Pieces that the scanner reads as the shell does. -/
def ReadAlike (pieces : List Piece) : Prop :=
  ∀ piece ∈ pieces, misread piece = piece

/-- An accepted command without a NUL is read by the shell, and the answer is the one to the shell's
words just when dropping the backslashes that escape nothing between double quotes, and ending words
at form feeds and carriage returns, changes nothing in it. -/
theorem gitCommand_agrees_iff (command : String) :
    (Accepted command ∧ '\x00' ∉ command.toList →
      ∃ pieces, Readable pieces ∧ command = String.ofList (text pieces)) ∧
    ∀ pieces, Readable pieces → command = String.ofList (text pieces) →
      (Accepted command →
        (Answers (segments pieces) (gitCommand command) ↔
          ∃ answer, Answers (segments pieces) answer ∧
            Answers (segments (pieces.map misread)) answer)) ∧
      (ReadAlike pieces → Accepted command ∧ Answers (segments pieces) (gitCommand command)) := by
  constructor
  · rintro ⟨accepted, no_nul⟩
    obtain ⟨pieces, readable, rfl⟩ := exists_pieces accepted no_nul
    have uncommented := (accepted_iff readable).mp accepted
    exact ⟨pieces, ⟨readable, Uncommented.of_misread id uncommented⟩, rfl⟩
  rintro pieces readable rfl
  constructor
  · intro accepted
    have answered := gitCommand_eq readable.1 ((accepted_iff readable.1).mp accepted)
    constructor
    · exact fun answers => ⟨_, answers, answered⟩
    · rintro ⟨answer, answers, misread_answers⟩
      rw [answers_iff] at answered misread_answers
      rwa [← answered, misread_answers]
  · intro alike
    have misread_eq : pieces.map misread = pieces := (List.map_congr_left alike).trans (List.map_id _)
    have uncommented : Uncommented false (pieces.map misread) := by
      rw [misread_eq]
      exact readable.2
    refine ⟨(accepted_iff readable.1).mpr uncommented, ?_⟩
    have answered := gitCommand_eq readable.1 uncommented
    rwa [misread_eq] at answered

/-- The shell runs a command of git that is named with a backslash; the scanner reads a commit. -/
theorem gitCommand_backslash :
    ∃ pieces, Readable pieces ∧ text pieces = "git \"\\commit\"".toList ∧
      Accepted "git \"\\commit\"" ∧ gitCommand "git \"\\commit\"" = some (.commit .cwd) ∧
      ¬Answers (segments pieces) (gitCommand "git \"\\commit\"") := by
  have commits : gitCommand "git \"\\commit\"" = some (.commit .cwd) := by decide +kernel
  refine ⟨[.plain 'g', .plain 'i', .plain 't', .blank ' ',
    .double [.backslash 'c', .plain 'o', .plain 'm', .plain 'm', .plain 'i', .plain 't']],
    ⟨?_, ?_⟩, by decide +kernel, by unfold Accepted; decide +kernel, commits, ?_⟩
  · simp [Piece.Readable, Quoted.Readable, special, escapable]
  · simp [Uncommented]
  · rw [commits, answers_iff]
    decide +kernel

end Baley
