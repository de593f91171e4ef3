import Baley.Json.Grammar
import Baley.Mcp.Frame

/-!
# Literals and numbers

The decoder judges a literal or a number at its end, by places in its text.  It accepts those of the
grammar.
-/

namespace Baley.Mcp.Frame

open Json.Grammar

theorem isAsciiDigit_iff {byte : UInt8} : isAsciiDigit byte = true ↔ IsDigit byte := by
  simp [isAsciiDigit, IsDigit]

/-- What follows a run of digits does not go on with it. -/
def EndsDigits (rest : List UInt8) : Prop :=
  ∀ byte ∈ rest.head?, ¬IsDigit byte

theorem digitsFrom_front (front rest : List UInt8) :
    digitsFrom (front ++ rest) front.length = (rest.takeWhile isAsciiDigit).length := by
  rw [digitsFrom, List.drop_left]

theorem digitsFrom_digits (front : List UInt8) {digits rest : List UInt8} (all : Digits digits)
    (ends : EndsDigits rest) :
    digitsFrom (front ++ (digits ++ rest)) front.length = digits.length := by
  have all_ascii : ∀ byte ∈ digits, isAsciiDigit byte = true := fun byte byte_mem =>
    isAsciiDigit_iff.mpr (all.2 byte byte_mem)
  have none_left : rest.takeWhile isAsciiDigit = [] := by
    cases rest with
    | nil => rfl
    | cons byte rest =>
        have not_digit : ¬isAsciiDigit byte = true := by
          rw [isAsciiDigit_iff]
          exact ends byte rfl
        rw [List.takeWhile_cons_of_neg not_digit]
  rw [digitsFrom_front, List.takeWhile_append_of_pos all_ascii, none_left, List.append_nil]

theorem getElem?_front (front rest : List UInt8) : (front ++ rest)[front.length]? = rest.head? := by
  rw [List.getElem?_append_right le_rfl, Nat.sub_self, List.head?_eq_getElem?]

/-- The digits that stand at a place. -/
theorem exists_digits {front rest : List UInt8} (some_digit : digitsFrom (front ++ rest) front.length ≠ 0) :
    ∃ digits rest', rest = digits ++ rest' ∧ Digits digits ∧
      digitsFrom (front ++ rest) front.length = digits.length := by
  rw [digitsFrom_front] at some_digit ⊢
  refine ⟨rest.takeWhile isAsciiDigit, rest.dropWhile isAsciiDigit,
    List.takeWhile_append_dropWhile.symm, ⟨?_, ?_⟩, rfl⟩
  · exact fun none_left => some_digit (by rw [none_left]; rfl)
  · exact fun byte byte_mem => isAsciiDigit_iff.mp (List.mem_takeWhile_imp byte_mem)

theorem wholeEnd_eq_some {front rest : List UInt8} {place : Nat}
    (found : wholeEnd (front ++ rest) front.length = some place) :
    ∃ whole rest', rest = whole ++ rest' ∧ IsWhole whole ∧ place = (front ++ whole).length := by
  rw [wholeEnd, getElem?_front] at found
  cases rest with
  | nil => cases found
  | cons first rest =>
      simp only [List.head?_cons] at found
      split_ifs at found with zero digit
      · cases found
        exact ⟨[first], rest, rfl, .inl (by rw [zero]), by simp⟩
      · obtain rfl := Option.some.inj found
        have some_digit : digitsFrom (front ++ first :: rest) front.length ≠ 0 := by
          rw [digitsFrom_front, List.takeWhile_cons_of_pos digit]
          simp
        obtain ⟨digits, rest', rest_eq, all, count⟩ := exists_digits some_digit
        refine ⟨digits, rest', rest_eq, .inr ⟨all, ?_⟩, by rw [count, List.length_append]⟩
        obtain ⟨head, tail, rfl, -⟩ := all.head
        cases rest_eq
        simpa using zero

theorem wholeEnd_whole {front whole rest : List UInt8} (isWhole : IsWhole whole)
    (ends : EndsDigits rest) :
    wholeEnd (front ++ (whole ++ rest)) front.length = some (front ++ whole).length := by
  rw [wholeEnd, getElem?_front]
  rcases isWhole with rfl | ⟨all, nonzero⟩
  · simp
  · have count := digitsFrom_digits front all ends
    obtain ⟨first, digits, rfl, digit⟩ := all.head
    have not_zero : first ≠ 0x30 := by simpa using nonzero
    simp only [List.cons_append, List.head?_cons]
    rw [if_neg not_zero, if_pos (isAsciiDigit_iff.mpr digit)]
    rw [List.cons_append] at count
    rw [count, List.length_append]

theorem fractionEnd_eq_some {front rest : List UInt8} {place : Nat}
    (found : fractionEnd (front ++ rest) front.length = some place) :
    ∃ fraction rest', rest = fraction ++ rest' ∧ IsFraction fraction ∧
      place = (front ++ fraction).length := by
  rw [fractionEnd, getElem?_front] at found
  split_ifs at found with point
  · obtain ⟨rest, rfl⟩ := List.head?_eq_some_iff.mp point
    have shifted : front ++ 0x2e :: rest = (front ++ [0x2e]) ++ rest := by simp
    have length_eq : front.length + 1 = (front ++ [0x2e]).length := by simp
    rw [shifted, length_eq] at found
    simp only at found
    split_ifs at found with none_left
    obtain rfl := Option.some.inj found
    obtain ⟨digits, rest', rfl, all, count⟩ := exists_digits none_left
    refine ⟨0x2e :: digits, rest', rfl, .inr ⟨digits, rfl, all⟩, ?_⟩
    rw [count, List.length_append, List.length_cons]
    omega
  · obtain rfl := Option.some.inj found
    exact ⟨[], rest, rfl, .inl rfl, by simp⟩

theorem fractionEnd_fraction {front fraction rest : List UInt8} (isFraction : IsFraction fraction)
    (ends : EndsDigits rest) (no_point : fraction = [] → rest.head? ≠ some 0x2e) :
    fractionEnd (front ++ (fraction ++ rest)) front.length = some (front ++ fraction).length := by
  rw [fractionEnd, getElem?_front]
  rcases isFraction with rfl | ⟨digits, rfl, all⟩
  · rw [List.nil_append, if_neg (no_point rfl)]
    simp
  · have count := digitsFrom_digits (front ++ [0x2e]) all ends
    have some_digit : digits.length ≠ 0 := by simpa using all.1
    simp only [List.append_assoc, List.singleton_append, List.length_append, List.length_singleton]
      at count
    rw [if_pos (by simp), List.cons_append]
    simp only [count, if_neg some_digit]
    rw [List.length_append, List.length_cons, Nat.add_comm 1]

def IsSign (sign : List UInt8) : Prop :=
  sign = [] ∨ sign = [0x2b] ∨ sign = [0x2d]

theorem exists_sign (front rest : List UInt8) :
    ∃ sign rest', rest = sign ++ rest' ∧ IsSign sign ∧
      signEnd (front ++ rest) front.length = (front ++ sign).length := by
  rw [signEnd, getElem?_front]
  split_ifs with signed
  · rcases signed with signed | signed
    · obtain ⟨rest, rfl⟩ := List.head?_eq_some_iff.mp signed
      exact ⟨[0x2b], rest, rfl, .inr (.inl rfl), by simp⟩
    · obtain ⟨rest, rfl⟩ := List.head?_eq_some_iff.mp signed
      exact ⟨[0x2d], rest, rfl, .inr (.inr rfl), by simp⟩
  · exact ⟨[], rest, rfl, .inl rfl, by simp⟩

theorem signEnd_sign (front : List UInt8) {sign digits : List UInt8} (isSign : IsSign sign) (all : Digits digits) :
    signEnd (front ++ (sign ++ digits)) front.length = (front ++ sign).length := by
  rw [signEnd, getElem?_front]
  rcases isSign with rfl | rfl | rfl
  · obtain ⟨first, rest, rfl, digit⟩ := all.head
    have unsigned : ¬(first = 0x2b ∨ first = 0x2d) := by
      rintro (rfl | rfl)
      · exact absurd digit (by decide)
      · exact absurd digit (by decide)
    simpa using unsigned
  · simp
  · simp

theorem exponentEnd_eq_some {front rest : List UInt8} {place : Nat}
    (found : exponentEnd (front ++ rest) front.length = some place) :
    ∃ exponent rest', rest = exponent ++ rest' ∧ IsExponent exponent ∧
      place = (front ++ exponent).length := by
  rw [exponentEnd, getElem?_front] at found
  split_ifs at found with marked
  · obtain ⟨mark, rest, rfl, mark_eq⟩ :
        ∃ mark rest', rest = mark :: rest' ∧ (mark = 0x65 ∨ mark = 0x45) := by
      rcases marked with marked | marked
      · obtain ⟨rest, rfl⟩ := List.head?_eq_some_iff.mp marked
        exact ⟨_, rest, rfl, .inl rfl⟩
      · obtain ⟨rest, rfl⟩ := List.head?_eq_some_iff.mp marked
        exact ⟨_, rest, rfl, .inr rfl⟩
    have shifted : front ++ mark :: rest = (front ++ [mark]) ++ rest := by simp
    have length_eq : front.length + 1 = (front ++ [mark]).length := by simp
    obtain ⟨sign, rest, rfl, isSign, sign_end⟩ := exists_sign (front ++ [mark]) rest
    rw [shifted, length_eq] at found
    simp only [sign_end] at found
    rw [← List.append_assoc] at found
    split_ifs at found with none_left
    obtain rfl := Option.some.inj found
    obtain ⟨digits, rest', rfl, all, count⟩ := exists_digits none_left
    refine ⟨mark :: (sign ++ digits), rest', by simp,
      .inr ⟨mark, sign, digits, rfl, mark_eq, isSign, all⟩, ?_⟩
    rw [count]
    simp only [List.length_append, List.length_cons, List.length_nil]
    omega
  · obtain rfl := Option.some.inj found
    exact ⟨[], rest, rfl, .inl rfl, by simp⟩

theorem exponentEnd_exponent {front exponent : List UInt8} (isExponent : IsExponent exponent) :
    exponentEnd (front ++ exponent) front.length = some (front ++ exponent).length := by
  rw [exponentEnd, getElem?_front]
  rcases isExponent with rfl | ⟨mark, sign, digits, rfl, mark_eq, isSign, all⟩
  · simp
  · have nothing : EndsDigits [] := by simp [EndsDigits]
    have count := digitsFrom_digits (front ++ [mark] ++ sign) all nothing
    have some_digit : digits.length ≠ 0 := by simpa using all.1
    have sign_end := signEnd_sign (front ++ [mark]) isSign all
    have shifted : front ++ mark :: (sign ++ digits) = (front ++ [mark]) ++ (sign ++ digits) := by simp
    have length_eq : front.length + 1 = (front ++ [mark]).length := by simp
    rw [List.append_nil] at count
    rw [if_pos (by simpa using mark_eq), shifted, length_eq]
    simp only [sign_end]
    rw [← List.append_assoc, count, if_neg some_digit]
    exact congrArg some List.length_append.symm

theorem endsDigits_exponent {exponent : List UInt8} (isExponent : IsExponent exponent) :
    EndsDigits exponent ∧ exponent.head? ≠ some 0x2e := by
  rcases isExponent with rfl | ⟨mark, sign, digits, rfl, rfl | rfl, -, -⟩
  · simp [EndsDigits]
  · exact ⟨by simp [EndsDigits, IsDigit], by simp⟩
  · exact ⟨by simp [EndsDigits, IsDigit], by simp⟩

theorem endsDigits_fraction {fraction exponent : List UInt8} (isFraction : IsFraction fraction)
    (isExponent : IsExponent exponent) : EndsDigits (fraction ++ exponent) := by
  rcases isFraction with rfl | ⟨digits, rfl, -⟩
  · exact (endsDigits_exponent isExponent).1
  · simp [EndsDigits, IsDigit]

/-- The number check accepts the numbers of the grammar. -/
theorem validNumber_iff (text : List UInt8) : validNumber text = true ↔ IsNumber text := by
  constructor
  · intro valid
    simp only [validNumber, decide_eq_true_eq, Option.bind_eq_bind, Option.bind_eq_some_iff] at valid
    obtain ⟨place, whole_end, place', fraction_end, exponent_end⟩ := valid
    obtain ⟨minus, rest, rfl, minus_eq, length_eq⟩ : ∃ minus rest, text = minus ++ rest ∧
        (minus = [] ∨ minus = [0x2d]) ∧
        (if text.head? = some 0x2d then 1 else 0) = minus.length := by
      split_ifs with signed
      · obtain ⟨rest, rfl⟩ := List.head?_eq_some_iff.mp signed
        exact ⟨[0x2d], rest, rfl, .inr rfl, rfl⟩
      · exact ⟨[], text, rfl, .inl rfl, rfl⟩
    rw [length_eq] at whole_end
    obtain ⟨whole, rest, rfl, isWhole, rfl⟩ := wholeEnd_eq_some whole_end
    rw [← List.append_assoc] at fraction_end exponent_end
    obtain ⟨fraction, rest, rfl, isFraction, rfl⟩ := fractionEnd_eq_some fraction_end
    rw [← List.append_assoc] at exponent_end
    obtain ⟨exponent, rest, rfl, isExponent, total⟩ := exponentEnd_eq_some exponent_end
    obtain rfl : rest = [] := by
      rw [← List.append_assoc _ exponent, List.length_append] at total
      exact List.length_eq_zero_iff.mp (by omega)
    exact ⟨minus, whole, fraction, exponent, by simp, minus_eq, isWhole, isFraction, isExponent⟩
  · rintro ⟨minus, whole, fraction, exponent, rfl, minus_eq, isWhole, isFraction, isExponent⟩
    have start_eq : (if (minus ++ (whole ++ (fraction ++ exponent))).head? = some 0x2d then 1 else 0) =
        minus.length := by
      rcases minus_eq with rfl | rfl
      · obtain ⟨first, rest, whole_eq, not_minus⟩ :
            ∃ first rest, whole = first :: rest ∧ first ≠ 0x2d := by
          rcases isWhole with rfl | ⟨all, -⟩
          · exact ⟨_, _, rfl, by decide⟩
          · obtain ⟨first, rest, rfl, digit⟩ := all.head
            refine ⟨first, rest, rfl, ?_⟩
            rintro rfl
            exact absurd digit (by decide)
        simp [whole_eq, not_minus]
      · simp
    have whole_end : wholeEnd (minus ++ (whole ++ (fraction ++ exponent))) minus.length =
        some (minus ++ whole).length :=
      wholeEnd_whole isWhole (endsDigits_fraction isFraction isExponent)
    have fraction_end : fractionEnd (minus ++ (whole ++ (fraction ++ exponent))) (minus ++ whole).length =
        some (minus ++ whole ++ fraction).length := by
      rw [← List.append_assoc]
      exact fractionEnd_fraction isFraction (endsDigits_exponent isExponent).1
        fun _ => (endsDigits_exponent isExponent).2
    have exponent_end : exponentEnd (minus ++ (whole ++ (fraction ++ exponent)))
        (minus ++ whole ++ fraction).length =
          some (minus ++ (whole ++ (fraction ++ exponent))).length := by
      rw [← List.append_assoc, ← List.append_assoc]
      exact exponentEnd_exponent isExponent
    simp only [validNumber, start_eq, whole_end, fraction_end, exponent_end, Option.bind_eq_bind,
      Option.bind_some, decide_true]

theorem validAtom_iff (text : List UInt8) : validAtom text = true ↔ IsAtom text := by
  simp [validAtom, Json.Grammar.IsAtom, trueBytes, falseBytes, nullBytes, validNumber_iff, or_assoc]

end Baley.Mcp.Frame
