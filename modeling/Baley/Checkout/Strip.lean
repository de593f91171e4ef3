import Baley.Blank
import Baley.Find

/-!
# The user information of a URL

The user information strip applied to a remote URL before it is recorded or compared, and the
redaction applied to git's error text before it is stored or shown.
-/

namespace Baley.Checkout

open Utf8

/-! ## The strip of a remote URL -/

/-- A character a scheme may hold after its first letter. -/
def schemeChar (c : Char) : Bool :=
  c.isAlphanum || c = '+' || c = '-' || c = '.'

/-- What stands between a scheme and an authority. -/
def schemeMark : List Char := [':', '/', '/']

/-- The byte offset just past `://`, from a position inside what may be a scheme.  There is no answer
when the position falls inside a character. -/
def schemeEndFrom (url : List Char) : Nat → List Char → Option (Option Nat)
  | _, [] => some none
  | position, c :: rest =>
      if schemeChar c then schemeEndFrom url (position + c.utf8Size) rest
      else if c = ':' then do
        let tail ← slice position (size url) url
        some (if schemeMark.isPrefixOf tail then some (position + 3) else none)
      else some none

/-- The byte offset just past `://`, when a URL starts with a scheme. -/
def schemeEnd (url : List Char) : Option (Option Nat) :=
  match url with
  | [] => some none
  | first :: rest => if first.isAlpha then schemeEndFrom url first.utf8Size rest else some none

/-- The characters that end the authority of a URL. -/
def endsUrlAuthority (c : Char) : Bool :=
  c = '/' || c = '?' || c = '#'

/-- Removes the user information from a URL that has a scheme, a bare user included, and returns
every other form as given. -/
def stripUserInformation (url : List Char) : Option (List Char) := do
  match ← schemeEnd url with
  | none => some url
  | some scheme_end =>
      let (head, rest) ← splitBytes scheme_end url
      let authority_end := (findChar endsUrlAuthority rest).getD (size rest)
      let (authority, tail) ← splitBytes authority_end rest
      match rfindChar (· == '@') authority with
      | none => some (head ++ authority ++ tail)
      | some position =>
          let host ← slice (position + 1) (size authority) authority
          some (head ++ host ++ tail)

/-! ## The redaction of git's text -/

/-- The code points with the Unicode category Control. -/
def isControl (c : Char) : Bool :=
  c.toNat ≤ 0x1f || (0x7f ≤ c.toNat && c.toNat ≤ 0x9f)

/-- Quotes git and remotes put around a URL.  One ends a URL's authority. -/
def quotes : List Char := ['\x27', '\x22', '\x60']

/-- The characters that end the authority of a URL in a sentence. -/
def endsAuthority (c : Char) : Bool :=
  endsUrlAuthority c || isWhiteSpace c || quotes.contains c

/-- The scan for each `://`, one a turn.  `copied` is what the text so far was taken up to, and the
search resumes just past the last `://`.  There is no answer when a position falls inside a character
or the turns run out before the text does. -/
def redactFrom (text : List Char) : Nat → List Char → Nat → Nat → Option (List Char)
  | 0, _, _, _ => none
  | turns + 1, redacted, copied, resumed => do
      let unread ← slice resumed (size text) text
      match find schemeMark unread with
      | none =>
          let tail ← slice copied (size text) text
          some (redacted ++ tail)
      | some found =>
          let authority := resumed + found + 3
          let after ← slice authority (size text) text
          let stop := ((findChar endsAuthority after).map (authority + ·)).getD (size text)
          let run ← slice authority stop text
          match rfindChar (· == '@') run with
          | none => redactFrom text turns redacted copied authority
          | some position =>
              let kept ← slice copied authority text
              redactFrom text turns (redacted ++ kept) (authority + position + 1) authority

/-- Git's error text with every control character dropped and the user information of each URL in it
removed, a bare user included.  No text needs more turns than it has bytes, and one to end. -/
def redactGitText (given : List Char) : Option (List Char) :=
  let text := given.filter fun c => !isControl c
  redactFrom text (size text + 1) [] 0 0

/-! ## What a redaction leaves -/

/-- The run up to the first character that ends an authority. -/
def authority (ends : Char → Bool) (text : List Char) : List Char :=
  text.takeWhile fun c => !ends c

/-- A text without what its first authority holds up to and including its last `@`. -/
def withoutUser (ends : Char → Bool) (text : List Char) : List Char :=
  (authority ends text).rtakeWhile (· != '@') ++ text.dropWhile fun c => !ends c

/-- No `://` is followed by an authority that holds `@`. -/
def UserFree (text : List Char) : Prop :=
  ∀ before rest, text = before ++ (schemeMark ++ rest) → '@' ∉ authority endsAuthority rest

/-- The second text is the first without the user information of the authority after each `://`. -/
inductive Redacts : List Char → List Char → Prop
  | done : Redacts [] []
  | kept {c : Char} {rest out : List Char} (unmarked : ¬ schemeMark <+: c :: rest)
      (redacts : Redacts rest out) : Redacts (c :: rest) (c :: out)
  | cut {rest out : List Char} (redacts : Redacts (withoutUser endsAuthority rest) out) :
      Redacts (schemeMark ++ rest) (schemeMark ++ out)

section Authority

variable {ends : Char → Bool} {text : List Char}

theorem authority_append (text : List Char) :
    authority ends text ++ text.dropWhile (fun c => !ends c) = text :=
  List.takeWhile_append_dropWhile

theorem authority_ends {c : Char} (c_mem : c ∈ authority ends text) : ends c = false := by
  simpa using List.mem_takeWhile_imp c_mem

/-- An authority ends where its text does or at a character that ends one. -/
theorem authority_of_append {run tail : List Char} (inside : ∀ c ∈ run, ends c = false)
    (stops : ∀ c rest, tail = c :: rest → ends c = true) : authority ends (run ++ tail) = run := by
  rw [authority, List.takeWhile_append_of_pos (by simpa using inside)]
  cases tail with
  | nil => simp
  | cons c rest => simp [stops c rest rfl]

theorem tail_of_append {run tail : List Char} (inside : ∀ c ∈ run, ends c = false)
    (stops : ∀ c rest, tail = c :: rest → ends c = true) :
    (run ++ tail).dropWhile (fun c => !ends c) = tail := by
  rw [List.dropWhile_append_of_pos (by simpa using inside)]
  cases tail with
  | nil => rfl
  | cons c rest => simp [stops c rest rfl]

theorem stops_dropWhile (text : List Char) (c : Char) (rest : List Char)
    (tail_eq : text.dropWhile (fun c => !ends c) = c :: rest) : ends c = true := by
  have stopped := List.dropWhile_get_zero_not (fun c => !ends c) text (by simp [tail_eq])
  simpa [tail_eq] using stopped

theorem withoutUser_of_append {run tail : List Char} (inside : ∀ c ∈ run, ends c = false)
    (stops : ∀ c rest, tail = c :: rest → ends c = true) :
    withoutUser ends (run ++ tail) = run.rtakeWhile (· != '@') ++ tail := by
  rw [withoutUser, authority_of_append inside stops, tail_of_append inside stops]

theorem withoutUser_eq_self (free : '@' ∉ authority ends text) : withoutUser ends text = text := by
  have host_eq : (authority ends text).rtakeWhile (· != '@') = authority ends text := by
    refine List.rtakeWhile_eq_self_iff.mpr fun c c_mem => ?_
    simpa using ne_of_mem_of_not_mem c_mem free
  rw [withoutUser, host_eq, authority_append]

theorem authority_withoutUser (ends : Char → Bool) (text : List Char) :
    authority ends (withoutUser ends text) = (authority ends text).rtakeWhile (· != '@') := by
  refine authority_of_append (fun c c_mem => ?_) (stops_dropWhile text)
  exact authority_ends ((List.rtakeWhile_suffix _ _).subset c_mem)

theorem userless (ends : Char → Bool) (text : List Char) :
    '@' ∉ authority ends (withoutUser ends text) := by
  intro held
  rw [authority_withoutUser] at held
  simpa using List.mem_rtakeWhile_imp held

theorem withoutUser_idem (ends : Char → Bool) (text : List Char) :
    withoutUser ends (withoutUser ends text) = withoutUser ends text :=
  withoutUser_eq_self (userless ends text)

theorem withoutUser_suffix (ends : Char → Bool) (text : List Char) : withoutUser ends text <:+ text := by
  obtain ⟨user, user_eq⟩ := List.rtakeWhile_suffix (· != '@') (l := authority ends text)
  refine ⟨user, ?_⟩
  rw [withoutUser, ← List.append_assoc, user_eq, authority_append]

end Authority

/-! ## Redactions -/

theorem userFree_of_cons {c : Char} {text : List Char} (free : UserFree (c :: text)) : UserFree text :=
  fun before rest text_eq => free (c :: before) rest (by rw [text_eq, List.cons_append])

theorem userFree_cons {c : Char} {text : List Char} (unmarked : ¬ schemeMark <+: c :: text)
    (free : UserFree text) : UserFree (c :: text) := by
  intro before rest text_eq
  cases before with
  | nil => exact absurd ⟨rest, text_eq.symm⟩ unmarked
  | cons d before => exact free before rest (List.cons.inj text_eq).2

theorem unmarked_of_ne {c : Char} (not_colon : c ≠ ':') (text : List Char) :
    ¬ schemeMark <+: c :: text := by
  rintro ⟨rest, text_eq⟩
  exact not_colon (List.cons.inj text_eq).1.symm

namespace Redacts

variable {text out other : List Char}

theorem sublist (redacts : Redacts text out) : out.Sublist text := by
  induction redacts with
  | done => exact List.Sublist.refl []
  | kept _ _ ih => exact ih.cons_cons _
  | cut _ ih => exact (ih.trans (withoutUser_suffix _ _).sublist).append_left schemeMark

theorem unique (redacts : Redacts text out) (others : Redacts text other) : out = other := by
  induction redacts generalizing other with
  | done =>
      cases others
      rfl
  | kept unmarked _ ih =>
      cases others with
      | kept _ others => rw [ih others]
      | cut => exact absurd (List.prefix_append _ _) unmarked
  | cut _ ih =>
      cases others with
      | kept unmarked _ => exact absurd (List.prefix_append schemeMark _) unmarked
      | cut others => rw [ih others]

/-- What is kept before a `://` comes from the text as it stands. -/
theorem exists_cons {c : Char} (redacts : Redacts text (c :: out)) (not_colon : c ≠ ':') :
    ∃ rest, text = c :: rest ∧ Redacts rest out := by
  cases redacts with
  | kept _ redacts => exact ⟨_, rfl, redacts⟩
  | cut => exact absurd rfl not_colon

/-- A `://` comes from the text. -/
theorem marked {c : Char} {rest : List Char} (redacts : Redacts rest out)
    (marked : schemeMark <+: c :: out) : schemeMark <+: c :: rest := by
  obtain ⟨tail, marked_eq⟩ := marked
  obtain ⟨rfl, rfl⟩ := List.cons.inj marked_eq
  obtain ⟨after_colon, rfl, later⟩ := redacts.exists_cons (by decide)
  obtain ⟨after, rfl, -⟩ := later.exists_cons (by decide)
  exact List.prefix_append schemeMark after

/-- The authority a text starts with holds no `://`, and stays as it is. -/
theorem authority_eq (redacts : Redacts text out) :
    authority endsAuthority out = authority endsAuthority text := by
  induction redacts with
  | done => rfl
  | kept _ _ ih =>
      simp only [authority, List.takeWhile_cons] at ih ⊢
      rw [ih]
  | cut => rfl

theorem userFree (redacts : Redacts text out) : UserFree out := by
  induction redacts with
  | done =>
      intro before rest text_eq
      simp [schemeMark] at text_eq
  | kept unmarked redacts ih => exact userFree_cons (mt redacts.marked unmarked) ih
  | @cut rest out redacts ih =>
      have after_colon : UserFree ('/' :: '/' :: out) :=
        userFree_cons (unmarked_of_ne (by decide) _) (userFree_cons (unmarked_of_ne (by decide) _) ih)
      intro before tail text_eq
      cases before with
      | nil =>
          obtain rfl := List.append_cancel_left text_eq
          rw [redacts.authority_eq]
          exact userless endsAuthority rest
      | cons c before => exact after_colon before tail (List.cons.inj text_eq).2

theorem eq_of_userFree (redacts : Redacts text out) (free : UserFree text) : out = text := by
  induction redacts with
  | done => rfl
  | kept _ _ ih => rw [ih (userFree_of_cons free)]
  | @cut rest out redacts ih =>
      have same := withoutUser_eq_self (free [] rest rfl)
      have rest_free : UserFree rest := userFree_of_cons (userFree_of_cons (userFree_of_cons free))
      rw [ih (same.symm ▸ rest_free), same]

end Redacts

/-! ## The scan -/

theorem size_schemeMark : size schemeMark = 3 := by decide

/-- Where no `://` is found nothing is removed. -/
theorem redacts_of_find_none {text : List Char} (unfound : find schemeMark text = none) :
    Redacts text text := by
  induction text with
  | nil => exact .done
  | cons c rest ih =>
      by_cases here : schemeMark <+: c :: rest
      · simp [find, List.isPrefixOf_iff_prefix.mpr here] at unfound
      · rw [find_cons_neg here, Option.map_eq_none_iff] at unfound
        exact .kept here (ih unfound)

/-- What is before the first `://` is kept. -/
theorem redacts_of_find {text : List Char} {position : Nat}
    (found : find schemeMark text = some position) :
    ∃ before after, text = before ++ (schemeMark ++ after) ∧ size before = position ∧
      ∀ out, Redacts (withoutUser endsAuthority after) out →
        Redacts text (before ++ (schemeMark ++ out)) := by
  induction text generalizing position with
  | nil => simp [find, schemeMark] at found
  | cons c rest ih =>
      by_cases here : schemeMark <+: c :: rest
      · obtain ⟨after, text_eq⟩ := here
        rw [find, if_pos (by simp [← text_eq])] at found
        rw [← text_eq]
        exact ⟨[], after, rfl, Option.some.inj found, fun out redacts => .cut redacts⟩
      · rw [find_cons_neg here] at found
        obtain ⟨later, later_found, rfl⟩ := Option.map_eq_some_iff.mp found
        obtain ⟨before, after, rfl, rfl, redacts⟩ := ih later_found
        exact ⟨c :: before, after, rfl, size_cons c before,
          fun out after_redacts => .kept here (redacts out after_redacts)⟩

/-- Where an authority ends, counted from the start of its text. -/
theorem authority_end (start : Nat) (after : List Char) :
    ((findChar endsAuthority after).map (start + ·)).getD (start + size after) =
      start + size (authority endsAuthority after) := by
  rw [authority, ← findChar_getD]
  cases findChar endsAuthority after <;> rfl

/-- The search may resume inside the user information it removes: no `://` begins there. -/
theorem redactFrom_skip {before user rest : List Char} (no_slash : '/' ∉ user) (turns : Nat)
    (redacted : List Char) :
    redactFrom (before ++ (user ++ '@' :: rest)) (turns + 1) redacted
        (size (before ++ (user ++ ['@']))) (size before) =
      redactFrom (before ++ (user ++ '@' :: rest)) (turns + 1) redacted
        (size (before ++ (user ++ ['@']))) (size (before ++ (user ++ ['@']))) := by
  have none_begins : ∀ head tail, user ++ ['@'] = head ++ tail → tail ≠ [] →
      ¬ schemeMark <+: tail ++ rest := by
    intro head tail user_eq not_empty begins
    obtain ⟨c, tail, rfl⟩ := List.exists_cons_of_ne_nil not_empty
    obtain ⟨after, begins_eq⟩ := begins
    obtain ⟨rfl, slashes_eq⟩ := List.cons.inj begins_eq
    cases tail with
    | nil =>
        have last_eq := congrArg List.getLast? user_eq
        simp at last_eq
    | cons d tail =>
        obtain ⟨rfl, -⟩ := List.cons.inj slashes_eq
        have slash_mem : '/' ∈ user ++ ['@'] := by simp [user_eq]
        simp [no_slash] at slash_mem
  have text_eq : before ++ (user ++ '@' :: rest) = before ++ (user ++ ['@']) ++ rest := by simp
  have unread_eq : slice (size before) (size (before ++ (user ++ '@' :: rest)))
      (before ++ (user ++ '@' :: rest)) = some (user ++ ['@'] ++ rest) :=
    slice_eq_some.mpr ⟨before, [], by simp, rfl, by simp⟩
  have past_eq : slice (size (before ++ (user ++ ['@']))) (size (before ++ (user ++ '@' :: rest)))
      (before ++ (user ++ '@' :: rest)) = some rest :=
    slice_eq_some.mpr ⟨before ++ (user ++ ['@']), [], by simp, rfl, by simp; omega⟩
  rw [redactFrom, redactFrom, unread_eq, past_eq]
  simp only [Option.bind_eq_bind, Option.bind_some]
  rw [find_append rest none_begins]
  cases find schemeMark rest with
  | none => rfl
  | some found =>
      have position_eq : size before + (size (user ++ ['@']) + found) + 3 =
          size (before ++ (user ++ ['@'])) + found + 3 := by
        rw [size_append before]
        omega
      simp only [Option.map_some, position_eq]

/-- One turn of the scan: what was read up to an authority is kept, and the user information in it
is passed. -/
theorem redactFrom_found {before kept front after : List Char} (turns : Nat) (redacted : List Char)
    (found : find schemeMark (front ++ (schemeMark ++ after)) = some (size front)) :
    redactFrom (before ++ (kept ++ (front ++ (schemeMark ++ after)))) (turns + 1) redacted
        (size before) (size (before ++ kept)) =
      (rfindChar (· == '@') (authority endsAuthority after)).elim
        (redactFrom (before ++ (kept ++ (front ++ (schemeMark ++ after)))) turns redacted
          (size before) (size (before ++ (kept ++ (front ++ schemeMark)))))
        fun position =>
          redactFrom (before ++ (kept ++ (front ++ (schemeMark ++ after)))) turns
            (redacted ++ (kept ++ (front ++ schemeMark)))
            (size (before ++ (kept ++ (front ++ schemeMark))) + position + 1)
            (size (before ++ (kept ++ (front ++ schemeMark)))) := by
  have text_eq : before ++ (kept ++ (front ++ (schemeMark ++ after))) =
      before ++ ((kept ++ (front ++ schemeMark)) ++ after) := by
    simp
  have authority_eq : size (before ++ kept) + size front + 3 =
      size (before ++ (kept ++ (front ++ schemeMark))) := by
    simp only [size_append, size_schemeMark]
    omega
  have unread_eq : slice (size (before ++ kept)) (size (before ++ (kept ++ (front ++ (schemeMark ++ after)))))
      (before ++ (kept ++ (front ++ (schemeMark ++ after)))) = some (front ++ (schemeMark ++ after)) :=
    slice_eq_some.mpr ⟨before ++ kept, [], by simp, rfl, by simp; omega⟩
  rw [redactFrom, unread_eq]
  simp only [Option.bind_eq_bind, Option.bind_some, found, authority_eq]
  rw [text_eq]
  generalize kept ++ (front ++ schemeMark) = passed
  have text_size : size (before ++ (passed ++ after)) = size (before ++ passed) + size after := by
    rw [← List.append_assoc, size_append]
  have after_eq : slice (size (before ++ passed)) (size (before ++ passed) + size after)
      (before ++ (passed ++ after)) = some after :=
    slice_eq_some.mpr ⟨before ++ passed, [], by simp, rfl, rfl⟩
  have run_eq : slice (size (before ++ passed))
      (size (before ++ passed) + size (authority endsAuthority after))
      (before ++ (passed ++ after)) = some (authority endsAuthority after) :=
    slice_eq_some.mpr ⟨before ++ passed, after.dropWhile fun c => !endsAuthority c,
      by simp [authority_append], rfl, rfl⟩
  have kept_eq : slice (size before) (size (before ++ passed)) (before ++ (passed ++ after)) =
      some passed :=
    slice_eq_some.mpr ⟨before, after, rfl, rfl, (size_append before passed).symm⟩
  simp only [text_size, after_eq, Option.bind_some, authority_end, run_eq]
  cases rfindChar (· == '@') (authority endsAuthority after) with
  | none => rfl
  | some position => simp only [kept_eq, Option.bind_some, Option.elim_some]

/-- From a place up to which the text was taken or is about to be, enough turns redact the rest. -/
theorem redactFrom_eq {turns : Nat} {before kept rest : List Char} (redacted : List Char)
    (enough : size rest < turns) :
    ∃ out, Redacts rest out ∧
      redactFrom (before ++ (kept ++ rest)) turns redacted (size before) (size (before ++ kept)) =
        some (redacted ++ (kept ++ out)) := by
  induction turns generalizing before kept rest redacted with
  | zero => omega
  | succ turns ih =>
      cases found : find schemeMark rest with
      | none =>
          have unread_eq : slice (size (before ++ kept)) (size (before ++ (kept ++ rest)))
              (before ++ (kept ++ rest)) = some rest :=
            slice_eq_some.mpr ⟨before ++ kept, [], by simp, rfl, by simp; omega⟩
          have tail_eq : slice (size before) (size (before ++ (kept ++ rest)))
              (before ++ (kept ++ rest)) = some (kept ++ rest) :=
            slice_eq_some.mpr ⟨before, [], by simp, rfl, by simp⟩
          refine ⟨rest, redacts_of_find_none found, ?_⟩
          rw [redactFrom, unread_eq]
          simp only [Option.bind_eq_bind, Option.bind_some, found, tail_eq]
      | some position =>
          obtain ⟨front, after, rfl, rfl, redacts⟩ := redacts_of_find found
          have shorter : size after < turns := by
            simp only [size_append, size_schemeMark] at enough
            omega
          rw [redactFrom_found turns redacted found]
          cases held : rfindChar (· == '@') (authority endsAuthority after) with
          | none =>
              have free : '@' ∉ authority endsAuthority after := by
                intro at_mem
                simpa using rfindChar_eq_none.mp held '@' at_mem
              obtain ⟨out, after_redacts, run⟩ :=
                @ih before (kept ++ (front ++ schemeMark)) after redacted shorter
              refine ⟨front ++ (schemeMark ++ out), redacts out ?_, ?_⟩
              · rw [withoutUser_eq_self free]
                exact after_redacts
              · simpa using run
          | some position =>
              obtain ⟨user, c, host, authority_eq, c_eq, host_free, rfl⟩ := of_rfindChar held
              obtain rfl : c = '@' := by simpa using c_eq
              have no_slash : '/' ∉ user := by
                intro slash_mem
                have inside : '/' ∈ authority endsAuthority after := by simp [authority_eq, slash_mem]
                exact absurd (authority_ends inside) (by decide)
              have host_eq : withoutUser endsAuthority after =
                  host ++ after.dropWhile fun c => !endsAuthority c := by
                rw [withoutUser, authority_eq]
                exact congrArg (· ++ _) (rtakeWhile_of_last user rfl host_free)
              have after_eq : after = user ++ '@' :: withoutUser endsAuthority after := by
                rw [host_eq, ← List.cons_append, ← List.append_assoc, ← authority_eq, authority_append]
              generalize withoutUser endsAuthority after = rest at *
              subst after_eq
              have rest_shorter : size rest < turns := by
                simp only [size_append, size_cons] at shorter
                omega
              obtain ⟨out, rest_redacts, run⟩ :=
                @ih (before ++ (kept ++ (front ++ schemeMark)) ++ (user ++ ['@'])) [] rest
                  (redacted ++ (kept ++ (front ++ schemeMark))) rest_shorter
              refine ⟨front ++ (schemeMark ++ out), redacts out rest_redacts, ?_⟩
              obtain ⟨turns, rfl⟩ := Nat.exists_eq_add_one_of_ne_zero (Nat.ne_zero_of_lt rest_shorter)
              have skipped := @redactFrom_skip (before ++ (kept ++ (front ++ schemeMark))) user rest
                no_slash turns (redacted ++ (kept ++ (front ++ schemeMark)))
              have past : size (before ++ (kept ++ (front ++ schemeMark)) ++ (user ++ ['@'])) =
                  size (before ++ (kept ++ (front ++ schemeMark))) + size user + 1 := by
                rw [size_append _ (user ++ ['@']), size_append user]
                rfl
              simp only [List.append_assoc, List.nil_append, List.append_nil, List.singleton_append] at run skipped past ⊢
              rw [Option.elim_some, ← past, skipped, run]

/-- A text without its control characters. -/
def printable (text : List Char) : List Char :=
  text.filter fun c => !isControl c

theorem printable_eq_self {text : List Char} (clean : ∀ c ∈ text, isControl c = false) :
    printable text = text :=
  List.filter_eq_self.mpr (by simpa using clean)

theorem not_control_printable {text : List Char} : ∀ c ∈ printable text, isControl c = false := by
  simp [printable]

/-- The redaction of a text answers, and answers its redaction. -/
theorem redactGitText_eq (text : List Char) :
    ∃ out, Redacts (printable text) out ∧ redactGitText text = some out := by
  obtain ⟨out, redacts, run⟩ := @redactFrom_eq (size (printable text) + 1) [] [] (printable text) []
    (Nat.lt_succ_self _)
  exact ⟨out, redacts, run⟩

theorem redactGitText_of_redacts {text out : List Char} (redacts : Redacts (printable text) out) :
    redactGitText text = some out := by
  obtain ⟨answered, others, run⟩ := redactGitText_eq text
  rw [run, redacts.unique others]

/-- What is redacted has nothing left to redact. -/
theorem redactGitText_of_clean {text : List Char} (clean : ∀ c ∈ text, isControl c = false)
    (free : UserFree text) : redactGitText text = some text := by
  obtain ⟨out, redacts, run⟩ := redactGitText_eq text
  rw [printable_eq_self clean] at redacts
  rw [run, redacts.eq_of_userFree free]

/-! ## The strip of a URL with a scheme -/

/-- A letter followed by letters, digits, `+`, `-` or `.`. -/
def IsScheme (scheme : List Char) : Prop :=
  ∃ first more, scheme = first :: more ∧ first.isAlpha = true ∧ ∀ c ∈ more, schemeChar c = true

theorem schemeEndFrom_eq (before rest : List Char) :
    schemeEndFrom (before ++ rest) (size before) rest =
      some (if schemeMark <+: rest.dropWhile schemeChar then
        some (size before + size (rest.takeWhile schemeChar) + 3) else none) := by
  induction rest generalizing before with
  | nil => simp [schemeEndFrom, schemeMark]
  | cons c rest ih =>
      rw [schemeEndFrom]
      by_cases goes_on : schemeChar c = true
      · have next := ih (before ++ [c])
        simp only [List.append_assoc, List.singleton_append, size_append, size_cons, size_nil] at next
        simpa [goes_on, Nat.add_assoc] using next
      · rw [if_neg goes_on, List.dropWhile_cons_of_neg goes_on, List.takeWhile_cons_of_neg goes_on]
        by_cases colon : c = ':'
        · have tail_eq : slice (size before) (size (before ++ c :: rest)) (before ++ c :: rest) =
              some (c :: rest) :=
            slice_eq_some.mpr ⟨before, [], by simp, rfl, by simp⟩
          rw [if_pos colon, tail_eq]
          simp only [Option.bind_eq_bind, Option.bind_some, List.isPrefixOf_iff_prefix, size_nil,
            Nat.add_zero]
        · rw [if_neg colon, if_neg (unmarked_of_ne colon rest)]

/-- A URL starts with a scheme where its scheme ends. -/
theorem schemeEnd_scheme {scheme : List Char} (isScheme : IsScheme scheme) (rest : List Char) :
    schemeEnd (scheme ++ (schemeMark ++ rest)) = some (some (size (scheme ++ schemeMark))) := by
  obtain ⟨first, more, rfl, letter, more_chars⟩ := isScheme
  have ended := schemeEndFrom_eq [first] (more ++ (schemeMark ++ rest))
  have not_colon : ¬ schemeChar ':' = true := by decide
  have dropped : (schemeMark ++ rest).dropWhile schemeChar = schemeMark ++ rest :=
    List.dropWhile_cons_of_neg not_colon
  have taken : (schemeMark ++ rest).takeWhile schemeChar = [] := List.takeWhile_cons_of_neg not_colon
  rw [List.dropWhile_append_of_pos more_chars, List.takeWhile_append_of_pos more_chars, dropped, taken,
    if_pos (List.prefix_append _ _), List.append_nil] at ended
  rw [List.cons_append, schemeEnd, if_pos letter]
  simpa [size_schemeMark, Nat.add_assoc] using ended

theorem schemeEnd_cases (url : List Char) :
    schemeEnd url = some none ∨
      ∃ scheme rest, IsScheme scheme ∧ url = scheme ++ (schemeMark ++ rest) := by
  cases url with
  | nil => exact Or.inl rfl
  | cons first rest =>
      rw [schemeEnd]
      split_ifs with letter
      · have ended := schemeEndFrom_eq [first] rest
        rw [List.singleton_append, size_cons, size_nil, Nat.add_zero] at ended
        rw [ended]
        split_ifs with marked
        · obtain ⟨after, marked_eq⟩ := marked
          refine Or.inr ⟨first :: rest.takeWhile schemeChar, after, ⟨first, _, rfl, letter, ?_⟩, ?_⟩
          · exact fun c c_mem => List.mem_takeWhile_imp c_mem
          · rw [marked_eq, List.cons_append, List.takeWhile_append_dropWhile]
        · exact Or.inl rfl
      · exact Or.inl rfl

/-- The strip of a URL with a scheme takes the user information of its authority. -/
theorem stripUserInformation_scheme {scheme : List Char} (isScheme : IsScheme scheme)
    (rest : List Char) :
    stripUserInformation (scheme ++ (schemeMark ++ rest)) =
      some (scheme ++ (schemeMark ++ withoutUser endsUrlAuthority rest)) := by
  have split_eq : splitBytes (size (scheme ++ schemeMark)) (scheme ++ (schemeMark ++ rest)) =
      some (scheme ++ schemeMark, rest) :=
    splitBytes_eq_some.mpr ⟨(List.append_assoc _ _ _).symm, rfl⟩
  have authority_split : splitBytes (size (authority endsUrlAuthority rest)) rest =
      some (authority endsUrlAuthority rest, rest.dropWhile fun c => !endsUrlAuthority c) :=
    splitBytes_eq_some.mpr ⟨(authority_append rest).symm, rfl⟩
  rw [stripUserInformation, schemeEnd_scheme isScheme]
  simp only [Option.bind_eq_bind, Option.bind_some, split_eq, findChar_getD]
  rw [← authority, authority_split]
  simp only [Option.bind_some]
  cases held : rfindChar (· == '@') (authority endsUrlAuthority rest) with
  | none =>
      have free : '@' ∉ authority endsUrlAuthority rest := by
        intro at_mem
        simpa using rfindChar_eq_none.mp held '@' at_mem
      simp [withoutUser_eq_self free, authority_append]
  | some position =>
      obtain ⟨user, c, host, authority_eq, c_eq, host_free, rfl⟩ := of_rfindChar held
      obtain rfl : c = '@' := by simpa using c_eq
      have host_eq : slice (size user + 1) (size (user ++ '@' :: host)) (user ++ '@' :: host) =
          some host := by
        refine slice_eq_some.mpr ⟨user ++ ['@'], [], by simp, size_append user ['@'], ?_⟩
        rw [size_append, size_cons, show Char.utf8Size '@' = 1 from rfl, Nat.add_assoc]
      have without_eq : withoutUser endsUrlAuthority rest =
          host ++ rest.dropWhile fun c => !endsUrlAuthority c := by
        rw [withoutUser, authority_eq]
        exact congrArg (· ++ _) (rtakeWhile_of_last user rfl host_free)
      rw [authority_eq, without_eq]
      simp only [host_eq, Option.bind_some, List.append_assoc]

/-- A strip that answered leaves nothing to strip. -/
theorem stripUserInformation_eq (url : List Char) :
    ∃ stripped, stripUserInformation url = some stripped ∧
      stripUserInformation stripped = some stripped := by
  rcases schemeEnd_cases url with unschemed | ⟨scheme, rest, isScheme, rfl⟩
  · have kept : stripUserInformation url = some url := by
      rw [stripUserInformation, unschemed]
      rfl
    exact ⟨url, kept, kept⟩
  · refine ⟨_, stripUserInformation_scheme isScheme rest, ?_⟩
    rw [stripUserInformation_scheme isScheme, withoutUser_idem]

/-! ## A strip before a redaction -/

theorem not_colon_of_scheme {scheme : List Char} (isScheme : IsScheme scheme) : ∀ c ∈ scheme, c ≠ ':' := by
  obtain ⟨first, more, rfl, letter, more_chars⟩ := isScheme
  refine List.forall_mem_cons.mpr ⟨?_, fun c c_mem same => ?_⟩
  · rintro rfl
    exact absurd letter (by decide)
  · exact absurd (same ▸ more_chars c c_mem) (by decide)

set_option maxRecDepth 2000 in
theorem not_control_of_schemeChar {c : Char} (is_char : schemeChar c = true) : isControl c = false := by
  have apart : ∀ n < 0xa0, isControl (Char.ofNat n) = true → schemeChar (Char.ofNat n) = false := by
    decide
  by_contra control
  rw [Bool.not_eq_false] at control
  have low : c.toNat < 0xa0 := by
    simp only [isControl, Bool.or_eq_true, Bool.and_eq_true, decide_eq_true_eq] at control
    omega
  have differs := apart c.toNat low
  rw [Char.ofNat_toNat, is_char] at differs
  cases differs control

theorem not_control_of_scheme {scheme : List Char} (isScheme : IsScheme scheme) :
    ∀ c ∈ scheme, isControl c = false := by
  obtain ⟨first, more, rfl, letter, more_chars⟩ := isScheme
  refine List.forall_mem_cons.mpr ⟨not_control_of_schemeChar ?_, fun c c_mem =>
    not_control_of_schemeChar (more_chars c c_mem)⟩
  simp [schemeChar, Char.isAlphanum, letter]

theorem Redacts.append_left {front text out : List Char} (no_colon : ∀ c ∈ front, c ≠ ':')
    (redacts : Redacts text out) : Redacts (front ++ text) (front ++ out) := by
  induction front with
  | nil => exact redacts
  | cons c front ih =>
      obtain ⟨not_colon, no_colon⟩ := List.forall_mem_cons.mp no_colon
      exact .kept (unmarked_of_ne not_colon _) (ih no_colon)

/-- Where the authority of a URL has no control character, white space or quote, both find the same
user information. -/
theorem printable_withoutUser {rest : List Char}
    (clean : ∀ c ∈ authority endsUrlAuthority rest,
      isControl c = false ∧ isWhiteSpace c = false ∧ c ∉ quotes) :
    printable (withoutUser endsUrlAuthority rest) = withoutUser endsAuthority (printable rest) := by
  have inside : ∀ c ∈ authority endsUrlAuthority rest, endsAuthority c = false := by
    intro c c_mem
    obtain ⟨-, unspaced, unquoted⟩ := clean c c_mem
    simp [endsAuthority, authority_ends c_mem, unspaced, unquoted]
  have host_clean : ∀ c ∈ (authority endsUrlAuthority rest).rtakeWhile (· != '@'), isControl c = false :=
    fun c c_mem => (clean c ((List.rtakeWhile_suffix _ _).subset c_mem)).1
  have stops : ∀ c after, printable (rest.dropWhile fun c => !endsUrlAuthority c) = c :: after →
      endsAuthority c = true := by
    intro c after printable_eq
    cases tail_eq : rest.dropWhile fun c => !endsUrlAuthority c with
    | nil =>
        rw [tail_eq] at printable_eq
        cases printable_eq
    | cons d tail =>
        have ends := stops_dropWhile rest d tail tail_eq
        have uncontrolled : isControl d = false := by
          simp only [endsUrlAuthority, Bool.or_eq_true, decide_eq_true_eq] at ends
          rcases ends with (rfl | rfl) | rfl <;> decide
        rw [tail_eq, printable, List.filter_cons_of_pos (by simp [uncontrolled])] at printable_eq
        rw [← (List.cons.inj printable_eq).1, endsAuthority, ends, Bool.true_or, Bool.true_or]
  have printable_rest : printable rest = authority endsUrlAuthority rest ++
      printable (rest.dropWhile fun c => !endsUrlAuthority c) := by
    conv => lhs; rw [← @authority_append endsUrlAuthority rest]
    rw [printable, List.filter_append]
    exact congrArg (· ++ _) (printable_eq_self fun c c_mem => (clean c c_mem).1)
  rw [printable_rest, withoutUser_of_append inside stops, withoutUser, printable, List.filter_append]
  exact congrArg (· ++ _) (printable_eq_self host_clean)

theorem redactGitText_strip {scheme rest : List Char} (isScheme : IsScheme scheme)
    (clean : ∀ c ∈ authority endsUrlAuthority rest,
      isControl c = false ∧ isWhiteSpace c = false ∧ c ∉ quotes) :
    redactGitText (scheme ++ (schemeMark ++ withoutUser endsUrlAuthority rest)) =
      redactGitText (scheme ++ (schemeMark ++ rest)) := by
  have printable_url (tail : List Char) : printable (scheme ++ (schemeMark ++ tail)) =
      scheme ++ (schemeMark ++ printable tail) := by
    rw [printable, List.filter_append, List.filter_append]
    exact congrArg (· ++ _) (printable_eq_self (not_control_of_scheme isScheme))
  obtain ⟨out, redacts, -⟩ := redactGitText_eq (withoutUser endsUrlAuthority rest)
  rw [printable_withoutUser clean] at redacts
  have front := Redacts.append_left (not_colon_of_scheme isScheme) (Redacts.cut redacts)
  have redacted : redactGitText (scheme ++ (schemeMark ++ rest)) =
      some (scheme ++ (schemeMark ++ out)) := by
    refine redactGitText_of_redacts ?_
    rw [printable_url]
    exact front
  rw [redacted]
  refine redactGitText_of_redacts ?_
  rw [printable_url, printable_withoutUser clean]
  refine Redacts.append_left (not_colon_of_scheme isScheme) (Redacts.cut ?_)
  rw [withoutUser_idem]
  exact redacts

/-- Redaction answers for every text, and what it answers is the text without its control characters
and without the user information of any authority after `://`; a text with neither comes back as
given, and so does what was redacted.  A URL with a scheme may be stripped before it is redacted, and
a strip leaves nothing to strip. -/
theorem no_user_survives :
    (∀ text, ∃ out, redactGitText text = some out ∧ (∀ c ∈ out, isControl c = false) ∧ UserFree out ∧
      Redacts (printable text) out ∧
      ((∀ c ∈ text, isControl c = false) ∧ UserFree text → out = text) ∧
      redactGitText out = some out) ∧
    (∀ scheme rest, IsScheme scheme →
      (∀ c ∈ authority endsUrlAuthority rest,
        isControl c = false ∧ isWhiteSpace c = false ∧ c ∉ quotes) →
      ∃ stripped, stripUserInformation (scheme ++ (schemeMark ++ rest)) = some stripped ∧
        redactGitText stripped = redactGitText (scheme ++ (schemeMark ++ rest))) ∧
    ∀ url, ∃ stripped, stripUserInformation url = some stripped ∧
      stripUserInformation stripped = some stripped := by
  refine ⟨fun text => ?_, fun scheme rest isScheme clean => ?_, stripUserInformation_eq⟩
  · obtain ⟨out, redacts, run⟩ := redactGitText_eq text
    have out_clean : ∀ c ∈ out, isControl c = false := fun c c_mem =>
      not_control_printable c (redacts.sublist.subset c_mem)
    refine ⟨out, run, out_clean, redacts.userFree, redacts, ?_,
      redactGitText_of_clean out_clean redacts.userFree⟩
    rintro ⟨clean, free⟩
    rw [printable_eq_self clean] at redacts
    exact redacts.eq_of_userFree free
  · exact ⟨_, stripUserInformation_scheme isScheme rest, redactGitText_strip isScheme clean⟩

end Baley.Checkout
