import Baley.Json.Reader

/-!
# Reading compact text

Compact text has no whitespace: items stand between brackets with single commas.  The results here
say what the reader does on the pieces a writer puts together, each for an arbitrary rest of the
text.  Only a number looks at what stands after it.
-/

namespace Json

/-- The pieces with a comma between each two of them. -/
def joined : List Text → Text
  | [] => []
  | head :: tail => head ++ tail.flatMap (',' :: ·)

@[simp]
theorem joined_singleton (piece : Text) : joined [piece] = piece := by
  simp [joined]

@[simp]
theorem joined_cons_cons (first second : Text) (tail : List Text) :
    joined (first :: second :: tail) = first ++ ',' :: joined (second :: tail) := by
  simp [joined]

theorem length_le_length_joined (pieces : List Text) :
    pieces.length ≤ (joined pieces).length + 1 := by
  induction pieces with
  | nil => simp
  | cons first tail ih =>
      cases tail with
      | nil => simp
      | cons second tail =>
          simp only [joined_cons_cons, List.length_append, List.length_cons] at ih ⊢
          omega

theorem length_le_length_joined_of_mem {pieces : List Text} {piece : Text} (piece_mem : piece ∈ pieces) :
    piece.length ≤ (joined pieces).length := by
  induction pieces with
  | nil => simp at piece_mem
  | cons first tail ih =>
      simp only [joined, List.length_append]
      rcases List.mem_cons.mp piece_mem with rfl | piece_mem
      · omega
      · have tail_le := ih piece_mem
        cases tail with
        | nil => simp at piece_mem
        | cons second tail =>
            simp only [joined, List.length_append, List.flatMap_cons, List.length_cons] at tail_le ⊢
            omega

/-- The text after a number does not continue it. -/
def NumberEnds (rest : Text) : Prop :=
  ∀ c ∈ rest.head?, c.isDigit = false ∧ c ≠ '.' ∧ c ≠ 'e' ∧ c ≠ 'E'

/-- The text after a value leaves it as it stands. -/
def EndsBefore : Value → Text → Prop
  | .number _, rest => NumberEnds rest
  | _, _ => True

theorem endsBefore_of_numberEnds {value : Value} {rest : Text} (ends : NumberEnds rest) :
    EndsBefore value rest := by
  cases value <;> trivial

theorem numberEnds_nil : NumberEnds [] := by
  simp [NumberEnds]

theorem numberEnds_cons {c : Char} {rest : Text} (not_digit : c.isDigit = false)
    (not_mark : c ≠ '.' ∧ c ≠ 'e' ∧ c ≠ 'E') : NumberEnds (c :: rest) := by
  intro c' head_eq
  obtain rfl := Option.some.inj head_eq
  exact ⟨not_digit, not_mark⟩

/-- The reader takes the text for the value, whatever rest leaves the value as it stands. -/
def Reads (read : Reader Value) (text : Text) (value : Value) : Prop :=
  ∀ rest, EndsBefore value rest → read (text ++ rest) = some (value, rest)

/-- The text starts with a character that is neither space nor a closing bracket. -/
def Opens (text : Text) : Prop :=
  ∃ c tail, text = c :: tail ∧ isSpace c = false ∧ c ≠ ']' ∧ c ≠ '}'

theorem skipSpace_cons {c : Char} (not_space : isSpace c = false) (rest : Text) :
    skipSpace (c :: rest) = c :: rest := by
  simp [skipSpace, not_space]

theorem Opens.skipSpace_append {text : Text} (opens : Opens text) (rest : Text) :
    skipSpace (text ++ rest) = text ++ rest := by
  obtain ⟨c, tail, rfl, not_space, _⟩ := opens
  exact skipSpace_cons not_space (tail ++ rest)

/-! ## Numbers -/

theorem head?_toDigits_ne_zero {n : Nat} (positive : 0 < n) :
    (Nat.toDigits 10 n).head? ≠ some '0' := by
  induction n using Nat.strongRecOn with
  | ind n ih =>
      rw [Nat.toDigits_eq_if (by decide)]
      split_ifs with small
      · intro head_eq
        have digit_eq : n.digitChar = '0' := by simpa using head_eq
        have value_eq := Nat.toNat_digitChar_sub_48_of_lt_ten small
        rw [digit_eq] at value_eq
        simp at value_eq
        omega
      · rw [List.head?_append_of_ne_nil _ Nat.toDigits_ne_nil]
        exact ih (n / 10) (Nat.div_lt_self positive (by decide)) (by omega)

theorem takeWhile_isDigit_of_numberEnds {rest : Text} (ends : NumberEnds rest) :
    rest.takeWhile Char.isDigit = [] := by
  cases rest with
  | nil => rfl
  | cons c rest => simp [(ends c rfl).1]

theorem dropWhile_isDigit_of_numberEnds {rest : Text} (ends : NumberEnds rest) :
    rest.dropWhile Char.isDigit = rest := by
  cases rest with
  | nil => rfl
  | cons c rest => simp [(ends c rfl).1]

theorem isDigit_of_mem_toDigits {n : Nat} {c : Char} (c_mem : c ∈ Nat.toDigits 10 n) :
    c.isDigit = true :=
  Nat.isDigit_of_mem_toDigits (by decide) (by decide) c_mem

theorem readWhole_toDigits (n : Nat) {rest : Text} (ends : NumberEnds rest) :
    readWhole (Nat.toDigits 10 n ++ rest) = some (Nat.toDigits 10 n, rest) := by
  rcases Nat.eq_zero_or_pos n with rfl | positive
  · simp [readWhole, takeWhile_isDigit_of_numberEnds ends]
  · have all_digits : ∀ c ∈ Nat.toDigits 10 n, c.isDigit = true :=
      fun c c_mem => isDigit_of_mem_toDigits c_mem
    have taken : (Nat.toDigits 10 n ++ rest).takeWhile Char.isDigit = Nat.toDigits 10 n := by
      rw [List.takeWhile_append_of_pos all_digits, takeWhile_isDigit_of_numberEnds ends,
        List.append_nil]
    have dropped : (Nat.toDigits 10 n ++ rest).dropWhile Char.isDigit = rest := by
      rw [List.dropWhile_append_of_pos all_digits, dropWhile_isDigit_of_numberEnds ends]
    have no_zero := head?_toDigits_ne_zero positive
    unfold readWhole
    split
    · next text tail text_eq =>
        cases digits_eq : Nat.toDigits 10 n with
        | nil => exact absurd digits_eq Nat.toDigits_ne_nil
        | cons c digits =>
            rw [digits_eq] at no_zero text_eq
            simp only [List.cons_append, List.cons.injEq] at text_eq
            simp [text_eq.1] at no_zero
    · simp [taken, dropped, Nat.toDigits_ne_nil]

theorem readFraction_of_numberEnds {rest : Text} (ends : NumberEnds rest) :
    readFraction rest = some ([], rest) := by
  cases rest with
  | nil => rfl
  | cons c rest =>
      have not_point : c ≠ '.' := (ends c rfl).2.1
      unfold readFraction
      split
      · next head_eq => exact absurd (List.cons.inj head_eq).1 not_point
      · rfl

theorem readExponent_of_numberEnds {rest : Text} (ends : NumberEnds rest) :
    readExponent rest = some ([], rest) := by
  cases rest with
  | nil => rfl
  | cons c rest =>
      have not_mark := (ends c rfl).2.2
      simp [readExponent, not_mark]

theorem readMinus_of_isDigit {c : Char} (digit : c.isDigit = true) (rest : Text) :
    readMinus (c :: rest) = ([], c :: rest) := by
  unfold readMinus
  split
  · next head_eq =>
      rw [(List.cons.inj head_eq).1] at digit
      simp at digit
  · rfl

theorem toDigits_eq_cons (n : Nat) :
    ∃ c digits, Nat.toDigits 10 n = c :: digits ∧ c.isDigit = true := by
  cases digits_eq : Nat.toDigits 10 n with
  | nil => exact absurd digits_eq Nat.toDigits_ne_nil
  | cons c digits => exact ⟨c, digits, rfl, isDigit_of_mem_toDigits (n := n) (by simp [digits_eq])⟩

theorem readNumber_nat (n : Nat) {rest : Text} (ends : NumberEnds rest) :
    readNumber (n.repr.toList ++ rest) = some (n.repr, rest) := by
  obtain ⟨c, digits, digits_eq, digit⟩ := toDigits_eq_cons n
  have whole := readWhole_toDigits n ends
  rw [Nat.toList_repr, Nat.repr_eq_ofList_toDigits]
  rw [digits_eq, List.cons_append] at whole ⊢
  simp [readNumber, readMinus_of_isDigit digit, whole, readFraction_of_numberEnds ends,
    readExponent_of_numberEnds ends]

theorem readNumber_neg (n : Nat) {rest : Text} (ends : NumberEnds rest) :
    readNumber ('-' :: n.repr.toList ++ rest) = some ("-" ++ n.repr, rest) := by
  have whole := readWhole_toDigits n ends
  simp [readNumber, readMinus, whole, readFraction_of_numberEnds ends,
    readExponent_of_numberEnds ends, Nat.repr_eq_ofList_toDigits]

theorem toList_repr_int (i : Int) :
    i.repr.toList = if 0 ≤ i then i.toNat.repr.toList else '-' :: (-i).toNat.repr.toList := by
  rw [Int.repr_eq_if]
  split_ifs <;> simp

/-- The decimal text of an integer is read back whole. -/
theorem readNumber_int (i : Int) {rest : Text} (ends : NumberEnds rest) :
    readNumber (i.repr.toList ++ rest) = some (i.repr, rest) := by
  rw [toList_repr_int, Int.repr_eq_if]
  split_ifs
  · exact readNumber_nat _ ends
  · exact readNumber_neg _ ends

theorem repr_int_eq_cons (i : Int) :
    ∃ c tail, i.repr.toList = c :: tail ∧ (c.isDigit = true ∨ c = '-') := by
  rw [toList_repr_int]
  split_ifs
  · obtain ⟨c, digits, digits_eq, digit⟩ := toDigits_eq_cons i.toNat
    exact ⟨c, digits, by rw [Nat.toList_repr, digits_eq], Or.inl digit⟩
  · exact ⟨'-', _, rfl, Or.inr rfl⟩

/-! ## Items and members -/

theorem numberEnds_of_mem {c : Char} (closing : c = ',' ∨ c = ']' ∨ c = '}') (rest : Text) :
    NumberEnds (c :: rest) := by
  rcases closing with rfl | rfl | rfl <;> exact numberEnds_cons (by decide) (by decide)

theorem readItems_joined {read : Reader Value} {items : List (Text × Value)} (items_ne : items ≠ [])
    (reads : ∀ item ∈ items, Reads read item.1 item.2) (fuel : Nat)
    (fuel_enough : items.length ≤ fuel) (rest : Text) :
    readItems read fuel (joined (items.map Prod.fst) ++ ']' :: rest) =
      some (items.map Prod.snd, rest) := by
  induction items generalizing fuel with
  | nil => exact absurd rfl items_ne
  | cons first tail ih =>
      have fuel_ne : fuel ≠ 0 := by
        rw [List.length_cons] at fuel_enough
        omega
      obtain ⟨fuel, rfl⟩ := Nat.exists_eq_succ_of_ne_zero fuel_ne
      have first_reads := reads first (by simp)
      cases tail with
      | nil =>
          have read_eq := first_reads (']' :: rest)
            (endsBefore_of_numberEnds (numberEnds_of_mem (by decide) rest))
          simp [readItems, read_eq, skipSpace, isSpace]
      | cons second tail =>
          have read_eq := first_reads
            (',' :: (joined ((second :: tail).map Prod.fst) ++ ']' :: rest))
            (endsBefore_of_numberEnds (numberEnds_of_mem (by decide) _))
          have tail_eq := ih (by simp) (fun item item_mem => reads item (by simp [item_mem]))
            fuel (Nat.le_of_succ_le_succ fuel_enough)
          rw [List.map_cons] at read_eq tail_eq
          simp [readItems, read_eq, skipSpace, isSpace, tail_eq]

/-- A nonempty array body, its bracket already open. -/
theorem readArray_joined {read : Reader Value} {items : List (Text × Value)}
    (reads : ∀ item ∈ items, Reads read item.1 item.2) (opens : ∀ item ∈ items, Opens item.1)
    (rest : Text) :
    readArray read (joined (items.map Prod.fst) ++ ']' :: rest) =
      some (.array (items.map Prod.snd), rest) := by
  cases items with
  | nil => simp [joined, readArray, skipSpace, isSpace]
  | cons first tail =>
      have body_reads := readItems_joined (List.cons_ne_nil first tail) reads
        (joined ((first :: tail).map Prod.fst) ++ ']' :: rest).length (by
          have bound := length_le_length_joined ((first :: tail).map Prod.fst)
          rw [List.length_map] at bound
          simp only [List.length_append, List.length_cons] at bound ⊢
          omega) rest
      obtain ⟨c, text, first_eq, not_space, not_bracket, _⟩ := opens first (by simp)
      have body_eq : ∃ body, joined ((first :: tail).map Prod.fst) ++ ']' :: rest = c :: body := by
        simp [joined, first_eq]
      obtain ⟨body, body_eq⟩ := body_eq
      rw [body_eq] at body_reads ⊢
      unfold readArray
      rw [skipSpace_cons not_space]
      split
      · next head_eq => exact absurd (List.cons.inj head_eq).1 not_bracket
      · rw [body_reads]
        rfl

/-- A writer of keys whose output, with its colon, the reader takes for the key. -/
def KeysRead (quoted : String → Text) : Prop :=
  ∀ key rest, readKey (quoted key ++ ':' :: rest) = some (key, rest)

theorem readEntries_joined {read : Reader Value} {quoted : String → Text}
    (keys_read : KeysRead quoted) {entries : List (String × Text × Value)}
    (entries_ne : entries ≠ []) (reads : ∀ entry ∈ entries, Reads read entry.2.1 entry.2.2)
    (fuel : Nat) (fuel_enough : entries.length ≤ fuel) (rest : Text) :
    readEntries read fuel
        (joined (entries.map fun entry => quoted entry.1 ++ ':' :: entry.2.1) ++ '}' :: rest) =
      some (entries.map fun entry => (entry.1, entry.2.2), rest) := by
  induction entries generalizing fuel with
  | nil => exact absurd rfl entries_ne
  | cons first tail ih =>
      have fuel_ne : fuel ≠ 0 := by
        rw [List.length_cons] at fuel_enough
        omega
      obtain ⟨fuel, rfl⟩ := Nat.exists_eq_succ_of_ne_zero fuel_ne
      have first_reads := reads first (by simp)
      cases tail with
      | nil =>
          have read_eq := first_reads ('}' :: rest)
            (endsBefore_of_numberEnds (numberEnds_of_mem (by decide) rest))
          simp [readEntries, keys_read first.1, read_eq, skipSpace, isSpace]
      | cons second tail =>
          have read_eq := first_reads (',' ::
              (joined ((second :: tail).map fun entry => quoted entry.1 ++ ':' :: entry.2.1) ++
                '}' :: rest))
            (endsBefore_of_numberEnds (numberEnds_of_mem (by decide) _))
          have tail_eq := ih (by simp) (fun entry entry_mem => reads entry (by simp [entry_mem]))
            fuel (Nat.le_of_succ_le_succ fuel_enough)
          rw [List.map_cons] at read_eq tail_eq
          simp [readEntries, keys_read first.1, read_eq, skipSpace, isSpace, tail_eq]

/-- An object body, its brace already open, gives the map of its members. -/
theorem readObject_joined {read : Reader Value} {quoted : String → Text}
    (keys_read : KeysRead quoted) (quoted_opens : ∀ key, Opens (quoted key))
    {entries : List (String × Text × Value)}
    (reads : ∀ entry ∈ entries, Reads read entry.2.1 entry.2.2) (rest : Text) :
    readObject read
        (joined (entries.map fun entry => quoted entry.1 ++ ':' :: entry.2.1) ++ '}' :: rest) =
      some (.ofEntries (entries.map fun entry => (entry.1, entry.2.2)), rest) := by
  cases entries with
  | nil => simp [joined, readObject, skipSpace, isSpace, Value.ofEntries, Members.ofEntries]
  | cons first tail =>
      have body_reads := readEntries_joined keys_read (List.cons_ne_nil first tail) reads
        (joined ((first :: tail).map fun entry => quoted entry.1 ++ ':' :: entry.2.1) ++
          '}' :: rest).length (by
          have bound := length_le_length_joined
            ((first :: tail).map fun entry => quoted entry.1 ++ ':' :: entry.2.1)
          rw [List.length_map] at bound
          simp only [List.length_append, List.length_cons] at bound ⊢
          omega) rest
      obtain ⟨c, text, first_eq, not_space, _, not_brace⟩ := quoted_opens first.1
      have body_eq : ∃ body,
          joined ((first :: tail).map fun entry => quoted entry.1 ++ ':' :: entry.2.1) ++
            '}' :: rest = c :: body := by
        simp [joined, first_eq]
      obtain ⟨body, body_eq⟩ := body_eq
      rw [body_eq] at body_reads ⊢
      unfold readObject
      rw [skipSpace_cons not_space]
      split
      · next head_eq => exact absurd (List.cons.inj head_eq).1 not_brace
      · rw [body_reads]
        rfl

/-! ## What is refused -/

/-- The reader refuses the text, whatever follows it. -/
def Refuses (read : Reader Value) (text : Text) : Prop :=
  ∀ rest, read (text ++ rest) = none

theorem readItems_refused {read : Reader Value} {items : List (Text × Value)}
    (reads : ∀ item ∈ items, Reads read item.1 item.2 ∨ Refuses read item.1)
    (refused : ∃ item ∈ items, Refuses read item.1) (fuel : Nat) (rest : Text) :
    readItems read fuel (joined (items.map Prod.fst) ++ ']' :: rest) = none := by
  induction items generalizing fuel with
  | nil => simp at refused
  | cons first tail ih =>
      cases fuel with
      | zero => rfl
      | succ fuel =>
          rcases reads first (by simp) with first_reads | first_refused
          · -- An item that reads is not the refused one, so more items follow it.
            have tail_refused : ∃ item ∈ tail, Refuses read item.1 := by
              obtain ⟨item, item_mem, item_refused⟩ := refused
              rcases List.mem_cons.mp item_mem with rfl | item_mem
              · have read_eq := first_reads [']']
                  (endsBefore_of_numberEnds (numberEnds_of_mem (by decide) []))
                rw [item_refused] at read_eq
                cases read_eq
              · exact ⟨item, item_mem, item_refused⟩
            have tail_eq := ih (fun item item_mem => reads item (by simp [item_mem])) tail_refused
              fuel
            cases tail with
            | nil => simp at tail_refused
            | cons second tail =>
                have read_eq := first_reads
                  (',' :: (joined ((second :: tail).map Prod.fst) ++ ']' :: rest))
                  (endsBefore_of_numberEnds (numberEnds_of_mem (by decide) _))
                rw [List.map_cons] at read_eq tail_eq
                simp [readItems, read_eq, skipSpace, isSpace, tail_eq]
          · have read_eq : read (joined ((first :: tail).map Prod.fst) ++ ']' :: rest) = none := by
              cases tail with
              | nil => simpa [joined] using first_refused (']' :: rest)
              | cons second tail =>
                  simpa [joined] using first_refused
                    (',' :: (joined ((second :: tail).map Prod.fst) ++ ']' :: rest))
            rw [List.map_cons] at read_eq
            simp [readItems, read_eq]

theorem readArray_refused {read : Reader Value} {items : List (Text × Value)}
    (reads : ∀ item ∈ items, Reads read item.1 item.2 ∨ Refuses read item.1)
    (refused : ∃ item ∈ items, Refuses read item.1) (opens : ∀ item ∈ items, Opens item.1)
    (rest : Text) : readArray read (joined (items.map Prod.fst) ++ ']' :: rest) = none := by
  have body_refused := readItems_refused reads refused
    (joined (items.map Prod.fst) ++ ']' :: rest).length rest
  cases items with
  | nil => simp at refused
  | cons first tail =>
      obtain ⟨c, text, first_eq, not_space, not_bracket, _⟩ := opens first (by simp)
      have body_eq : ∃ body, joined ((first :: tail).map Prod.fst) ++ ']' :: rest = c :: body := by
        simp [joined, first_eq]
      obtain ⟨body, body_eq⟩ := body_eq
      rw [body_eq] at body_refused ⊢
      unfold readArray
      rw [skipSpace_cons not_space]
      split
      · next head_eq => exact absurd (List.cons.inj head_eq).1 not_bracket
      · rw [body_refused]
        rfl

theorem readEntries_refused {read : Reader Value} {quoted : String → Text}
    (keys_read : KeysRead quoted) {entries : List (String × Text × Value)}
    (reads : ∀ entry ∈ entries, Reads read entry.2.1 entry.2.2 ∨ Refuses read entry.2.1)
    (refused : ∃ entry ∈ entries, Refuses read entry.2.1) (fuel : Nat) (rest : Text) :
    readEntries read fuel
        (joined (entries.map fun entry => quoted entry.1 ++ ':' :: entry.2.1) ++ '}' :: rest) =
      none := by
  induction entries generalizing fuel with
  | nil => simp at refused
  | cons first tail ih =>
      cases fuel with
      | zero => rfl
      | succ fuel =>
          rcases reads first (by simp) with first_reads | first_refused
          · have tail_refused : ∃ entry ∈ tail, Refuses read entry.2.1 := by
              obtain ⟨entry, entry_mem, entry_refused⟩ := refused
              rcases List.mem_cons.mp entry_mem with rfl | entry_mem
              · have read_eq := first_reads ['}']
                  (endsBefore_of_numberEnds (numberEnds_of_mem (by decide) []))
                rw [entry_refused] at read_eq
                cases read_eq
              · exact ⟨entry, entry_mem, entry_refused⟩
            have tail_eq := ih (fun entry entry_mem => reads entry (by simp [entry_mem]))
              tail_refused fuel
            cases tail with
            | nil => simp at tail_refused
            | cons second tail =>
                have read_eq := first_reads (',' ::
                    (joined ((second :: tail).map fun entry => quoted entry.1 ++ ':' :: entry.2.1) ++
                      '}' :: rest))
                  (endsBefore_of_numberEnds (numberEnds_of_mem (by decide) _))
                rw [List.map_cons] at read_eq tail_eq
                simp [readEntries, keys_read first.1, read_eq, skipSpace, isSpace, tail_eq]
          · cases tail with
            | nil =>
                have read_eq := first_refused ('}' :: rest)
                simp [readEntries, joined, keys_read first.1, read_eq]
            | cons second tail =>
                have read_eq := first_refused (',' ::
                  (joined ((second :: tail).map fun entry => quoted entry.1 ++ ':' :: entry.2.1) ++
                    '}' :: rest))
                rw [List.map_cons] at read_eq
                simp [readEntries, keys_read first.1, read_eq]

theorem readObject_refused {read : Reader Value} {quoted : String → Text}
    (keys_read : KeysRead quoted) (quoted_opens : ∀ key, Opens (quoted key))
    {entries : List (String × Text × Value)}
    (reads : ∀ entry ∈ entries, Reads read entry.2.1 entry.2.2 ∨ Refuses read entry.2.1)
    (refused : ∃ entry ∈ entries, Refuses read entry.2.1) (rest : Text) :
    readObject read
        (joined (entries.map fun entry => quoted entry.1 ++ ':' :: entry.2.1) ++ '}' :: rest) =
      none := by
  have body_refused := readEntries_refused keys_read reads refused
    (joined (entries.map fun entry => quoted entry.1 ++ ':' :: entry.2.1) ++ '}' :: rest).length rest
  cases entries with
  | nil => simp at refused
  | cons first tail =>
      obtain ⟨c, text, first_eq, not_space, _, not_brace⟩ := quoted_opens first.1
      have body_eq : ∃ body,
          joined ((first :: tail).map fun entry => quoted entry.1 ++ ':' :: entry.2.1) ++
            '}' :: rest = c :: body := by
        simp [joined, first_eq]
      obtain ⟨body, body_eq⟩ := body_eq
      rw [body_eq] at body_refused ⊢
      unfold readObject
      rw [skipSpace_cons not_space]
      split
      · next head_eq => exact absurd (List.cons.inj head_eq).1 not_brace
      · rw [body_refused]
        rfl

/-! ## Values -/

theorem readValue_number {remaining : Nat} (i : Int) {rest : Text} (ends : NumberEnds rest) :
    readValue (remaining + 1) (i.repr.toList ++ rest) = some (.number i.repr, rest) := by
  obtain ⟨c, tail, text_eq, head⟩ := repr_int_eq_cons i
  have number_reads := readNumber_int i ends
  have facts : isSpace c = false ∧ c ≠ '"' ∧ c ≠ '[' ∧ c ≠ '{' ∧ c ≠ 'n' ∧ c ≠ 't' ∧ c ≠ 'f' := by
    rcases head with digit | rfl
    · refine ⟨?_, ?_⟩
      · by_contra space
        simp only [isSpace, Bool.or_eq_true, beq_iff_eq, Bool.not_eq_false] at space
        rcases space with ((rfl | rfl) | rfl) | rfl <;> simp at digit
      · refine ⟨?_, ?_, ?_, ?_, ?_, ?_⟩ <;> rintro rfl <;> simp at digit
    · decide
  obtain ⟨not_space, not_quote, not_bracket, not_brace, not_n, not_t, not_f⟩ := facts
  rw [text_eq, List.cons_append] at number_reads ⊢
  simp [readValue, skipSpace_cons not_space, not_quote, not_bracket, not_brace, not_n, not_t,
    not_f, number_reads]

theorem readValue_string {remaining : Nat} {text : Text} {content : String} {rest : Text}
    (reads : readString (text ++ rest) = some (content, rest)) :
    readValue (remaining + 1) ('"' :: text ++ rest) = some (.string content, rest) := by
  simp [readValue, skipSpace, isSpace, reads]

theorem readValue_array {remaining : Nat} (positive : remaining ≠ 0) (text : Text) :
    readValue (remaining + 1) ('[' :: text) = readArray (readValue remaining) text := by
  simp [readValue, skipSpace, isSpace, positive]

theorem readValue_object {remaining : Nat} (positive : remaining ≠ 0) (text : Text) :
    readValue (remaining + 1) ('{' :: text) = readObject (readValue remaining) text := by
  simp [readValue, skipSpace, isSpace, positive]

/-- Brackets beyond the limit are refused, whatever they hold. -/
theorem readValue_brackets (remaining : Nat) (text : Text) :
    readValue remaining (List.replicate remaining '[' ++ text) = none := by
  induction remaining with
  | zero => rfl
  | succ remaining ih =>
      rcases Nat.eq_zero_or_pos remaining with rfl | positive
      · simp [readValue, skipSpace, isSpace]
      · obtain ⟨remaining, rfl⟩ := Nat.exists_eq_succ_of_ne_zero positive.ne'
        rw [List.replicate_succ, List.cons_append, readValue_array positive.ne']
        simp only [List.replicate_succ, List.cons_append] at ih
        simp [readArray, skipSpace, isSpace, List.replicate_succ, readItems, ih]

end Json
