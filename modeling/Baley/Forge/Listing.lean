import Baley.Caller
import Baley.Checkout.Strip
import Baley.Forge.Tag
import Baley.Greatest
import Baley.Models.Entries

/-!
# What git says of a remote's tags

The tag object an anchor is pushed as, and what the output of a push and of a listing of the
remote's refs is taken for.  A failed or malformed answer is never taken for an absent tag.
-/

namespace Baley.Forge

open Json
open Checkout (redactGitText)

/-- What an external program gave: its exit code, when it exited, its output, and whether each stream
is complete. -/
structure Output where
  code : Option Int
  stdout : List UInt8
  stdoutComplete : Bool
  stderrComplete : Bool

namespace Output

def success (output : Output) : Bool :=
  output.code = some 0

def complete (output : Output) : Bool :=
  output.stdoutComplete && output.stderrComplete

end Output

/-- The text of what is strictly UTF-8. -/
def fromUtf8 (bytes : List UInt8) : Option Text :=
  (String.fromUTF8? bytes.toByteArray).map String.toList

/-- An unfinished character: how many bytes it still needs, where the next one must lie and what the
earlier ones say. -/
structure Pending where
  more : Nat
  low : UInt8
  high : UInt8
  value : Nat

/-- What a byte can start: a character, an unfinished one or nothing. -/
def leadByte (byte : UInt8) : Option (Char ⊕ Pending) :=
  if byte < 0x80 then some (.inl (Char.ofNat byte.toNat))
  else if byte < 0xc2 then none
  else if byte < 0xe0 then some (.inr ⟨0, 0x80, 0xbf, byte.toNat - 0xc0⟩)
  else if byte < 0xf0 then
    some (.inr ⟨1, if byte = 0xe0 then 0xa0 else 0x80, if byte = 0xed then 0x9f else 0xbf,
      byte.toNat - 0xe0⟩)
  else if byte < 0xf5 then
    some (.inr ⟨2, if byte = 0xf0 then 0x90 else 0x80, if byte = 0xf4 then 0x8f else 0xbf,
      byte.toNat - 0xf0⟩)
  else none

/-- What stands for bytes that are no character. -/
def replacement : Char := '\ufffd'

/-- Bytes read as UTF-8, with each longest start of a character that no character continues, or byte
that starts none, replaced. -/
def fromUtf8LossyFrom : Option Pending → List UInt8 → Text
  | none, [] => []
  | some _, [] => [replacement]
  | none, byte :: rest =>
      match leadByte byte with
      | some (.inl c) => c :: fromUtf8LossyFrom none rest
      | some (.inr started) => fromUtf8LossyFrom (some started) rest
      | none => replacement :: fromUtf8LossyFrom none rest
  | some pending, byte :: rest =>
      if pending.low ≤ byte ∧ byte ≤ pending.high then
        let value := pending.value * 64 + (byte.toNat - 0x80)
        match pending.more with
        | 0 => Char.ofNat value :: fromUtf8LossyFrom none rest
        | more + 1 => fromUtf8LossyFrom (some ⟨more, 0x80, 0xbf, value⟩) rest
      else
        match leadByte byte with
        | some (.inl c) => replacement :: c :: fromUtf8LossyFrom none rest
        | some (.inr started) => replacement :: fromUtf8LossyFrom (some started) rest
        | none => replacement :: replacement :: fromUtf8LossyFrom none rest

def fromUtf8Lossy (bytes : List UInt8) : Text :=
  fromUtf8LossyFrom none bytes

/-! ## The tag object -/

/-- A project's id: the rule of a session's id, which the store's crate writes out again. -/
def isProjectId (id : String) : Bool :=
  isSessionId id

/-- The digits of an object id: 40 or 64 of them, in lower case. -/
def objectId (id : Text) : Bool :=
  (Utf8.size id = 40 || Utf8.size id = 64) && id.all fun c => c.isDigit || ('a' ≤ c && c ≤ 'f')

/-- The tag object of an annotation, on its tree. -/
def tagObjectText (tree tag message : String) (seconds : Int) : String :=
  "object " ++ tree ++ "\ntype tree\ntag " ++ tag ++ "\ntagger Baley <baley@localhost> " ++
    seconds.repr ++ " +0000\n\n" ++ message

/-- The annotation and any signature that follows it: what stands after the first empty line. -/
def tagMessage : Text → Text
  | [] => []
  | '\n' :: '\n' :: message => message
  | _ :: rest => tagMessage rest

/-! ## A push -/

inductive PushObservation
  | pushed
  | refused (reason : Text)
  | unreachable
  deriving DecidableEq

def tagRef (tag : Text) : Text :=
  "refs/tags/".toList ++ tag

/-- What a line of a push's porcelain status says of a ref, when it says anything.  A redaction that
fails has no answer. -/
def pushLine (success : Bool) (reference line : Text) : Option (Option PushObservation) :=
  match line.splitOn '\t' with
  | [flag, range, summary] =>
      if afterLast ':' range ≠ some reference then some none
      else if flag = ['*'] ∨ flag = ['='] then
        -- A success line from a git that then failed is not a confirmed push.
        some (some (if success then .pushed else .unreachable))
      else if flag = ['!'] then (redactGitText summary).map fun reason => some (.refused reason)
      else some none
  | _ => some none

def pushLines (success : Bool) (reference : Text) : List Text → Option PushObservation
  | [] => some .unreachable
  | line :: rest => do
      match ← pushLine success reference line with
      | some observation => some observation
      | none => pushLines success reference rest

/-- The porcelain status of the pushed ref. -/
def pushObservation (output : Output) (tag : Text) : Option PushObservation :=
  if output.complete then
    pushLines output.success (tagRef tag) (lines (fromUtf8Lossy output.stdout))
  else some .unreachable

/-! ## A listing -/

inductive TagQuery
  | exact (tag : Text)
  | latestAnchor

/-- The selected remote ref and whether it is annotated. -/
inductive Listing
  | absent
  | unreachable
  | found (tag sha : Text) (annotated : Bool)
  deriving DecidableEq

/-- An object id and the name of its ref. -/
def readRef (line : Text) : Option (Text × Text) := do
  let (sha, name) ← splitOnce '\t' line
  if objectId sha then some (sha, name) else none

def peeledMark : Text := "^\x7b\x7d".toList

/-- The rank, the object and the tag of a ref the query asks for.  A peeled ref is none. -/
def askedRef (project : ProjectId) (query : TagQuery) (ref : Text × Text) :
    Option (Nat × Text × Text) := do
  let tag ← stripFront "refs/tags/".toList ref.2
  if peeledMark.isSuffixOf tag then none
  else
    match query with
    | .exact asked => if tag = asked then some (0, ref.1, tag) else none
    | .latestAnchor => (tagSequence project tag).map fun seq => (seq, ref.1, tag)

/-- The order of refs by their rank. -/
def byRank (first second : Nat × Text × Text) : Ordering :=
  compare first.1 second.1

/-- The selection among the refs of a listing. -/
def selected (project : ProjectId) (query : TagQuery) (refs : List (Text × Text)) : Listing :=
  match lastGreatest byRank (refs.filterMap (askedRef project query)) with
  | none => .absent
  | some (_, sha, tag) => .found tag sha (refs.any fun ref => ref.2 = tagRef tag ++ peeledMark)

/-- An exact ref or the anchor of the highest sequence. -/
def listing (project : ProjectId) (query : TagQuery) (output : Output) : Listing :=
  if !output.complete then .unreachable
  else if output.code = some 2 then .absent
  else if !output.success then .unreachable
  else
    match fromUtf8 output.stdout with
    | none => .unreachable
    | some text =>
        match (lines text).mapM readRef with
        | none => .unreachable
        | some refs => selected project query refs

/-! ## What the tag object says -/

theorem notMem_of_isProjectId {project : ProjectId} (is_id : isProjectId project = true) :
    '\n' ∉ project.toList := by
  intro feed_mem
  simp only [isProjectId, isSessionId, Bool.and_eq_true] at is_id
  obtain ⟨⟨⟨-, digits⟩, -⟩, -⟩ := is_id
  obtain ⟨index, index_lt, feed_eq⟩ := List.mem_iff_getElem.mp feed_mem
  have zip_mem : (('\n', index) : Char × Nat) ∈ project.toList.zipIdx := by
    refine List.mk_mem_zipIdx_iff_getElem?.mpr ?_
    rw [List.getElem?_eq_getElem index_lt, feed_eq]
  have said := List.all_eq_true.mp digits _ zip_mem
  dsimp only at said
  split_ifs at said
  · simp at said
  · simp [Char.isDigit] at said

theorem notMem_of_objectId {id : Text} (is_id : objectId id = true) {c : Char}
    (not_hex : (c.isDigit || ('a' ≤ c && c ≤ 'f')) = false) : c ∉ id := by
  intro c_mem
  simp only [objectId, Bool.and_eq_true] at is_id
  have hex := List.all_eq_true.mp is_id.2 c c_mem
  rw [not_hex] at hex
  cases hex

/-- A header line is passed when an empty line does not follow it. -/
theorem tagMessage_line {line rest : Text} (unended : '\n' ∉ line) (follows : rest.head? ≠ some '\n') :
    tagMessage (line ++ '\n' :: rest) = tagMessage rest := by
  induction line with
  | nil =>
      cases rest with
      | nil => simp [tagMessage]
      | cons c rest =>
          have other : c ≠ '\n' := fun feed => follows (congrArg some feed)
          rw [List.nil_append, tagMessage]
          rintro _ ⟨⟩ ⟨⟩
          exact other rfl
  | cons c line ih =>
      rw [List.mem_cons, not_or] at unended
      rw [List.cons_append, tagMessage]
      · exact ih unended.2
      · rintro _ ⟨⟩ -
        exact unended.1 rfl

/-- The message starts after the line an empty line follows. -/
theorem tagMessage_last {line : Text} (unended : '\n' ∉ line) (message : Text) :
    tagMessage (line ++ '\n' :: '\n' :: message) = message := by
  induction line with
  | nil => rfl
  | cons c line ih =>
      rw [List.mem_cons, not_or] at unended
      rw [List.cons_append, tagMessage]
      · exact ih unended.2
      · rintro _ ⟨⟩ -
        exact unended.1 rfl

theorem tagMessage_tagObjectText {tree tag : String} (tree_unended : '\n' ∉ tree.toList)
    (tag_unended : '\n' ∉ tag.toList) (message : String) (seconds : Int) (signature : Text) :
    tagMessage ((tagObjectText tree tag message seconds).toList ++ signature) =
      message.toList ++ signature := by
  have time_unended : '\n' ∉ seconds.repr.toList := notMem_repr rfl (by decide)
  have text_eq : (tagObjectText tree tag message seconds).toList ++ signature =
      ("object ".toList ++ tree.toList) ++ '\n' :: ("type tree".toList ++ '\n' ::
        (("tag ".toList ++ tag.toList) ++ '\n' ::
          (("tagger Baley <baley@localhost> ".toList ++ seconds.repr.toList ++ " +0000".toList) ++
            '\n' :: '\n' :: (message.toList ++ signature)))) := by
    simp [tagObjectText]
  rw [text_eq, tagMessage_line, tagMessage_line, tagMessage_line, tagMessage_last]
  all_goals simp [tree_unended, tag_unended, time_unended]

theorem notMem_anchorTag {project : ProjectId} (unended : '\n' ∉ project.toList) (seq : Nat) :
    '\n' ∉ (anchorTag project seq).toList := by
  have digits : '\n' ∉ Nat.toDigits 10 seq := notMem_toDigits rfl
  simp [anchorTag, anchorTagPrefix, unended, digits]

/-! ## What a push's status says -/

/-- A line of porcelain status: its flag, its refs, of which the last is the pushed one, and its
summary. -/
def StatusLine (reference line flag summary : Text) : Prop :=
  ∃ source, line = flag ++ '\t' :: (source ++ ':' :: reference) ++ '\t' :: summary ∧
    '\t' ∉ flag ∧ '\t' ∉ source ++ ':' :: reference ∧ '\t' ∉ summary ∧ ':' ∉ reference

/-- A flag that settles a push. -/
def settles (flag : Text) : Bool :=
  flag = ['*'] || flag = ['='] || flag = ['!']

theorem columns_eq {line flag range summary : Text} :
    line.splitOn '\t' = [flag, range, summary] ↔
      line = flag ++ '\t' :: range ++ '\t' :: summary ∧
        '\t' ∉ flag ∧ '\t' ∉ range ∧ '\t' ∉ summary := by
  rw [splitOn_eq (List.cons_ne_nil _ _)]
  simp [List.intercalate]

theorem columns_of_statusLine {reference line flag summary : Text}
    (status : StatusLine reference line flag summary) :
    ∃ range, line.splitOn '\t' = [flag, range, summary] ∧ afterLast ':' range = some reference := by
  obtain ⟨source, line_eq, flag_free, range_free, summary_free, unmarked⟩ := status
  exact ⟨source ++ ':' :: reference, columns_eq.mpr ⟨line_eq, flag_free, range_free, summary_free⟩,
    afterLast_append ':' unmarked source⟩

theorem statusLine_of_columns {reference line flag range summary : Text}
    (columns : line.splitOn '\t' = [flag, range, summary])
    (named : afterLast ':' range = some reference) : StatusLine reference line flag summary := by
  obtain ⟨⟨source, rfl⟩, unmarked⟩ := afterLast_eq_some.mp named
  obtain ⟨line_eq, flag_free, range_free, summary_free⟩ := columns_eq.mp columns
  exact ⟨source, line_eq, flag_free, range_free, summary_free, unmarked⟩

/-- A line that says nothing of the pushed ref, or says it with another flag. -/
def Passed (reference line : Text) : Prop :=
  ∀ flag summary, StatusLine reference line flag summary → settles flag = false

/-- The first line that settles a push. -/
def FirstStatus (output : Output) (reference flag summary : Text) : Prop :=
  ∃ passed line rest, lines (fromUtf8Lossy output.stdout) = passed ++ line :: rest ∧
    (∀ other ∈ passed, Passed reference other) ∧ StatusLine reference line flag summary ∧
      settles flag = true

section Status

variable {success : Bool} {reference line flag summary : Text}

theorem pushLine_success (status : StatusLine reference line flag summary)
    (success_flag : flag = ['*'] ∨ flag = ['=']) :
    pushLine success reference line = some (some (if success then .pushed else .unreachable)) := by
  obtain ⟨range, columns, named⟩ := columns_of_statusLine status
  rw [pushLine, columns]
  simp [named, success_flag]

theorem pushLine_refusal {reason : Text} (status : StatusLine reference line ['!'] summary)
    (redacted : redactGitText summary = some reason) :
    pushLine success reference line = some (some (.refused reason)) := by
  obtain ⟨range, columns, named⟩ := columns_of_statusLine status
  rw [pushLine, columns]
  simp [named, redacted]

theorem pushLine_passed (passed : Passed reference line) : pushLine success reference line = some none := by
  unfold pushLine
  split
  · next flag range summary columns =>
      by_cases named : afterLast ':' range = some reference
      · have undecided := passed flag summary (statusLine_of_columns columns named)
        simp only [settles, Bool.or_eq_false_iff, decide_eq_false_iff_not] at undecided
        simp [named, undecided]
      · simp [named]
  · rfl

theorem pushLines_passed {passed rest : List Text}
    (all_passed : ∀ other ∈ passed, Passed reference other) :
    pushLines success reference (passed ++ rest) = pushLines success reference rest := by
  induction passed with
  | nil => rfl
  | cons line passed ih =>
      rw [List.forall_mem_cons] at all_passed
      rw [List.cons_append, pushLines, pushLine_passed all_passed.1]
      exact ih all_passed.2

/-- Either no line settles the push or one is the first to. -/
theorem passed_or_first (reference : Text) (status : List Text) :
    (∀ other ∈ status, Passed reference other) ∨
      ∃ passed line rest flag summary, status = passed ++ line :: rest ∧
        (∀ other ∈ passed, Passed reference other) ∧ StatusLine reference line flag summary ∧
          settles flag = true := by
  induction status with
  | nil => exact .inl (by simp)
  | cons line status ih =>
      by_cases passes : Passed reference line
      · obtain all_passed | ⟨passed, first, rest, flag, summary, rfl, others, said⟩ := ih
        · exact .inl (List.forall_mem_cons.mpr ⟨passes, all_passed⟩)
        · exact .inr ⟨line :: passed, first, rest, flag, summary, rfl,
            List.forall_mem_cons.mpr ⟨passes, others⟩, said⟩
      · simp only [Passed, not_forall, Bool.not_eq_false] at passes
        obtain ⟨flag, summary, said, decisive⟩ := passes
        exact .inr ⟨[], line, status, flag, summary, rfl, by simp, said, decisive⟩

variable {output : Output} {tag : Text}

theorem pushObservation_success (complete : output.complete = true)
    (first : FirstStatus output (tagRef tag) flag summary)
    (success_flag : flag = ['*'] ∨ flag = ['=']) :
    pushObservation output tag = some (if output.success then .pushed else .unreachable) := by
  obtain ⟨passed, line, rest, lines_eq, all_passed, status, -⟩ := first
  rw [pushObservation, if_pos complete, lines_eq, pushLines_passed all_passed, pushLines,
    pushLine_success status success_flag]
  rfl

theorem pushObservation_refusal {reason : Text} (complete : output.complete = true)
    (first : FirstStatus output (tagRef tag) ['!'] summary)
    (redacted : redactGitText summary = some reason) :
    pushObservation output tag = some (.refused reason) := by
  obtain ⟨passed, line, rest, lines_eq, all_passed, status, -⟩ := first
  rw [pushObservation, if_pos complete, lines_eq, pushLines_passed all_passed, pushLines,
    pushLine_refusal status redacted]
  rfl

/-- What a push's output is taken for, by the line that settles it. -/
theorem pushObservation_cases (output : Output) (tag : Text) :
    (pushObservation output tag = some .unreachable) ∨
      output.complete = true ∧ ∃ flag summary, FirstStatus output (tagRef tag) flag summary ∧
        ((flag = ['*'] ∨ flag = ['=']) ∧ output.success = true ∧
            pushObservation output tag = some .pushed ∨
          flag = ['!'] ∧ ∃ reason, redactGitText summary = some reason ∧
            pushObservation output tag = some (.refused reason)) := by
  by_cases complete : output.complete = true
  swap
  · exact .inl (if_neg complete)
  obtain all_passed | ⟨passed, line, rest, flag, summary, first⟩ :=
    passed_or_first (tagRef tag) (lines (fromUtf8Lossy output.stdout))
  · left
    rw [pushObservation, if_pos complete, ← List.append_nil (lines _), pushLines_passed all_passed]
    rfl
  have settled : settles flag = true := first.2.2.2
  have first : FirstStatus output (tagRef tag) flag summary := ⟨passed, line, rest, first⟩
  simp only [settles, Bool.or_eq_true, decide_eq_true_eq] at settled
  obtain success_flag | rfl := settled
  · have observed := pushObservation_success complete first success_flag
    by_cases success : output.success = true
    · rw [if_pos success] at observed
      exact .inr ⟨complete, flag, summary, first, .inl ⟨success_flag, success, observed⟩⟩
    · rw [if_neg success] at observed
      exact .inl observed
  · obtain ⟨reason, -, redacted⟩ := Checkout.redactGitText_eq summary
    exact .inr ⟨complete, _, summary, first,
      .inr ⟨rfl, reason, redacted, pushObservation_refusal complete first redacted⟩⟩

end Status

/-! ## What a listing says -/

/-- The line that lists a ref. -/
def refLine (ref : Text × Text) : Text :=
  ref.1 ++ '\t' :: ref.2

/-- The output is a whole successful listing of exactly these refs. -/
def Lists (output : Output) (refs : List (Text × Text)) : Prop :=
  output.complete = true ∧ output.success = true ∧
    ∃ text, output.stdout = utf8 text ∧ lines text = refs.map refLine ∧
      ∀ ref ∈ refs, objectId ref.1 = true

/-- The query asks for the tag, with this rank among those it asks for. -/
def Asks (project : ProjectId) : TagQuery → Text → Nat → Prop
  | .exact asked, tag, rank => tag = asked ∧ rank = 0
  | .latestAnchor, tag, rank => tag = (anchorTag project rank).toList ∧ rank < 2 ^ 64

/-- The unpeeled ref of a tag the query asks for. -/
def AsksRef (project : ProjectId) (query : TagQuery) (name tag : Text) (rank : Nat) : Prop :=
  name = tagRef tag ∧ ¬ peeledMark <:+ tag ∧ Asks project query tag rank

theorem fromUtf8_eq_some {bytes : List UInt8} {text : Text} :
    fromUtf8 bytes = some text ↔ bytes = utf8 text := by
  have encoded_eq (text : Text) : (String.ofList text).toByteArray = (utf8 text).toByteArray := by
    simp [String.toByteArray_ofList, List.utf8Encode, utf8]
  constructor
  · intro read
    obtain ⟨string, decoded, rfl⟩ := Option.map_eq_some_iff.mp read
    unfold String.fromUTF8? at decoded
    split_ifs at decoded with valid
    have bytes_eq := congrArg String.toByteArray (Option.some.inj decoded)
    have list_eq := encoded_eq string.toList
    rw [String.ofList_toList, ← bytes_eq] at list_eq
    exact List.toByteArray_inj.mp list_eq
  · rintro rfl
    have valid : (utf8 text).toByteArray.IsValidUTF8 := ⟨text, rfl⟩
    have read : String.fromUTF8? (utf8 text).toByteArray = some (String.ofList text) := by
      unfold String.fromUTF8?
      rw [dif_pos valid]
      exact congrArg some (String.toByteArray_inj.mp (encoded_eq text).symm)
    rw [fromUtf8, read]
    simp

theorem readRef_eq_some {line : Text} {ref : Text × Text} :
    readRef line = some ref ↔ line = refLine ref ∧ objectId ref.1 = true := by
  simp only [readRef, Option.bind_eq_bind, Option.bind_eq_some_iff]
  constructor
  · rintro ⟨⟨sha, name⟩, split, named⟩
    split_ifs at named with is_id
    obtain rfl := Option.some.inj named
    exact ⟨(splitOnce_eq_some.mp split).1, is_id⟩
  · rintro ⟨rfl, is_id⟩
    exact ⟨ref, splitOnce_append (notMem_of_objectId is_id rfl) ref.2, if_pos is_id⟩

theorem mapM_readRef {listed : List Text} {refs : List (Text × Text)} :
    listed.mapM readRef = some refs ↔
      listed = refs.map refLine ∧ ∀ ref ∈ refs, objectId ref.1 = true := by
  induction listed generalizing refs with
  | nil =>
      rw [List.mapM_nil, List.nil_eq, List.map_eq_nil_iff]
      constructor
      · intro same
        obtain rfl : [] = refs := Option.some.inj same
        simp
      · rintro ⟨rfl, -⟩
        rfl
  | cons line listed ih =>
      rw [List.mapM_cons]
      simp only [Option.bind_eq_bind, Option.bind_eq_some_iff, readRef_eq_some, ih]
      constructor
      · rintro ⟨ref, ⟨rfl, is_id⟩, others, ⟨rfl, ids⟩, same⟩
        obtain rfl : ref :: others = refs := Option.some.inj same
        exact ⟨rfl, List.forall_mem_cons.mpr ⟨is_id, ids⟩⟩
      · rintro ⟨listed_eq, ids⟩
        cases refs with
        | nil => cases listed_eq
        | cons ref refs =>
            obtain ⟨rfl, rfl⟩ := List.cons.inj listed_eq
            rw [List.forall_mem_cons] at ids
            exact ⟨ref, ⟨rfl, ids.1⟩, refs, ⟨rfl, ids.2⟩, rfl⟩

theorem askedRef_eq_some {project : ProjectId} {query : TagQuery} {ref : Text × Text} {rank : Nat}
    {sha tag : Text} : askedRef project query ref = some (rank, sha, tag) ↔
      ref.1 = sha ∧ AsksRef project query ref.2 tag rank := by
  rw [askedRef, Option.bind_eq_bind, Option.bind_eq_some_iff, AsksRef]
  constructor
  · rintro ⟨named, stripped, asked⟩
    have name_eq := stripFront_eq_some.mp stripped
    split_ifs at asked with peeled
    rw [List.isSuffixOf_iff_suffix] at peeled
    cases query with
    | exact wanted =>
        obtain ⟨same, found⟩ := Option.ite_none_right_eq_some.mp asked
        cases found
        exact ⟨rfl, name_eq, peeled, same, rfl⟩
    | latestAnchor =>
        obtain ⟨seq, read, found⟩ := Option.map_eq_some_iff.mp asked
        obtain ⟨rfl, ref_eq⟩ := Prod.mk.inj found
        obtain ⟨rfl, rfl⟩ := Prod.mk.inj ref_eq
        exact ⟨rfl, name_eq, peeled, tagSequence_eq_some.mp read⟩
  · rintro ⟨rfl, name_eq, unpeeled, asks⟩
    refine ⟨tag, stripFront_eq_some.mpr name_eq, ?_⟩
    rw [if_neg (by rwa [List.isSuffixOf_iff_suffix])]
    cases query with
    | exact wanted =>
        obtain ⟨rfl, rfl⟩ := asks
        exact if_pos rfl
    | latestAnchor =>
        dsimp only
        rw [tagSequence_eq_some.mpr asks, Option.map_some]

section Answers

variable {project : ProjectId} {query : TagQuery} {output : Output}

theorem Lists.complete {refs : List (Text × Text)} (listed : Lists output refs) :
    output.complete = true :=
  listed.1

theorem Lists.exits {refs : List (Text × Text)} (listed : Lists output refs) :
    output.code ≠ some 2 := by
  have success := listed.2.1
  simp only [Output.success, decide_eq_true_eq] at success
  simp [success]

/-- A whole successful listing is answered by its refs alone. -/
theorem listing_of_lists {refs : List (Text × Text)} (listed : Lists output refs) :
    listing project query output = selected project query refs := by
  have exits := listed.exits
  obtain ⟨complete, success, text, stdout_eq, lines_eq, ids⟩ := listed
  rw [listing, fromUtf8_eq_some.mpr stdout_eq]
  simp only [complete, exits, success, mapM_readRef.mpr ⟨lines_eq, ids⟩, Bool.not_true,
    Bool.false_eq_true, if_false]

/-- Any other output is no answer, but for the exit code of an empty listing. -/
theorem listing_of_not_lists (unlisted : ∀ refs, ¬ Lists output refs) :
    listing project query output =
      if output.complete = true ∧ output.code = some 2 then .absent else .unreachable := by
  by_cases complete : output.complete = true
  swap
  · simp [listing, complete]
  by_cases exits : output.code = some 2
  · simp [listing, complete, exits]
  by_cases success : output.success = true
  swap
  · simp [listing, complete, exits, success]
  rw [listing, if_neg (by simp [complete]), if_neg exits, if_neg (by simp [success]),
    if_neg (by simp [exits])]
  cases read : fromUtf8 output.stdout with
  | none => rfl
  | some text =>
      dsimp only
      cases parsed : (lines text).mapM readRef with
      | none => rfl
      | some refs =>
          obtain ⟨lines_eq, ids⟩ := mapM_readRef.mp parsed
          exact absurd ⟨complete, success, text, fromUtf8_eq_some.mp read, lines_eq, ids⟩ (unlisted refs)

theorem exists_asked {refs : List (Text × Text)} {rank : Nat} {sha tag : Text} :
    (rank, sha, tag) ∈ refs.filterMap (askedRef project query) ↔
      ∃ name, (sha, name) ∈ refs ∧ AsksRef project query name tag rank := by
  rw [List.mem_filterMap]
  constructor
  · rintro ⟨⟨_, name⟩, ref_mem, asked⟩
    obtain ⟨rfl, asks⟩ := askedRef_eq_some.mp asked
    exact ⟨name, ref_mem, asks⟩
  · rintro ⟨name, ref_mem, asks⟩
    exact ⟨(sha, name), ref_mem, askedRef_eq_some.mpr ⟨rfl, asks⟩⟩

theorem selected_absent_iff {refs : List (Text × Text)} : selected project query refs = .absent ↔
    ∀ ref ∈ refs, ∀ tag rank, ¬ AsksRef project query ref.2 tag rank := by
  constructor
  · intro absent ref ref_mem tag rank asks
    have asked : (rank, ref.1, tag) ∈ refs.filterMap (askedRef project query) :=
      exists_asked.mpr ⟨ref.2, ref_mem, asks⟩
    cases best : lastGreatest byRank (refs.filterMap (askedRef project query)) with
    | none =>
        rw [lastGreatest_eq_none.mp best] at asked
        cases asked
    | some found =>
        rw [selected, best] at absent
        cases absent
  · intro unasked
    have none_asked : refs.filterMap (askedRef project query) = [] := by
      refine List.eq_nil_iff_forall_not_mem.mpr fun found found_mem => ?_
      obtain ⟨rank, sha, tag⟩ := found
      obtain ⟨name, ref_mem, asks⟩ := exists_asked.mp found_mem
      exact unasked _ ref_mem tag rank asks
    rw [selected, none_asked]
    rfl

theorem selected_ne_unreachable (project : ProjectId) (query : TagQuery) (refs : List (Text × Text)) :
    selected project query refs ≠ .unreachable := by
  rw [selected]
  split <;> simp

theorem selected_found {refs : List (Text × Text)} {tag sha : Text} {annotated : Bool}
    (found : selected project query refs = .found tag sha annotated) :
    ∃ rank, (sha, tagRef tag) ∈ refs ∧ AsksRef project query (tagRef tag) tag rank ∧
      (∀ ref ∈ refs, ∀ other rank', AsksRef project query ref.2 other rank' → rank' ≤ rank) ∧
      (annotated = true ↔ ∃ ref ∈ refs, ref.2 = tagRef tag ++ peeledMark) := by
  cases best : lastGreatest byRank (refs.filterMap (askedRef project query)) with
  | none =>
      rw [selected, best] at found
      cases found
  | some chosen =>
      obtain ⟨rank, chosen_sha, chosen_tag⟩ := chosen
      rw [selected, best] at found
      obtain ⟨rfl, rfl, rfl⟩ := Listing.found.inj found
      obtain ⟨chosen_mem, greatest⟩ := lastGreatest_eq_some best
      obtain ⟨name, ref_mem, asks⟩ := exists_asked.mp chosen_mem
      obtain rfl := asks.1
      refine ⟨rank, ref_mem, asks, ?_, by simp⟩
      intro ref ref_mem' other rank' asks'
      exact greatest (rank', ref.1, other) (exists_asked.mpr ⟨ref.2, ref_mem', asks'⟩)

theorem listing_absent_iff : listing project query output = .absent ↔
    output.complete = true ∧ (output.code = some 2 ∨
      ∃ refs, Lists output refs ∧ ∀ ref ∈ refs, ∀ tag rank, ¬ AsksRef project query ref.2 tag rank) := by
  by_cases listed : ∃ refs, Lists output refs
  · obtain ⟨refs, listed⟩ := listed
    rw [listing_of_lists listed, selected_absent_iff]
    constructor
    · exact fun unasked => ⟨listed.complete, .inr ⟨refs, listed, unasked⟩⟩
    · rintro ⟨-, exits | ⟨refs', listed', unasked⟩⟩
      · exact absurd exits listed.exits
      · rw [← selected_absent_iff, ← listing_of_lists listed, listing_of_lists listed']
        exact selected_absent_iff.mpr unasked
  · rw [listing_of_not_lists (not_exists.mp listed)]
    constructor
    · intro absent
      split_ifs at absent with exits
      exact ⟨exits.1, .inl exits.2⟩
    · rintro ⟨complete, exits | ⟨refs, listed', -⟩⟩
      · exact if_pos ⟨complete, exits⟩
      · exact absurd ⟨refs, listed'⟩ listed

theorem listing_unreachable_iff : listing project query output = .unreachable ↔
    output.complete = false ∨ output.code ≠ some 2 ∧ ∀ refs, ¬ Lists output refs := by
  by_cases listed : ∃ refs, Lists output refs
  · obtain ⟨refs, listed⟩ := listed
    rw [listing_of_lists listed]
    refine iff_of_false (selected_ne_unreachable project query refs) ?_
    rintro (truncated | ⟨-, unlisted⟩)
    · rw [listed.complete] at truncated
      cases truncated
    · exact unlisted refs listed
  · rw [listing_of_not_lists (not_exists.mp listed)]
    have unlisted := not_exists.mp listed
    cases complete : output.complete <;> by_cases exits : output.code = some 2 <;> simp [exits, unlisted]

theorem listing_found {tag sha : Text} {annotated : Bool}
    (found : listing project query output = .found tag sha annotated) :
    ∃ refs rank, Lists output refs ∧ (sha, tagRef tag) ∈ refs ∧
      AsksRef project query (tagRef tag) tag rank ∧
      (∀ ref ∈ refs, ∀ other rank', AsksRef project query ref.2 other rank' → rank' ≤ rank) ∧
      (annotated = true ↔ ∃ ref ∈ refs, ref.2 = tagRef tag ++ peeledMark) := by
  by_cases listed : ∃ refs, Lists output refs
  · obtain ⟨refs, listed⟩ := listed
    rw [listing_of_lists listed] at found
    obtain ⟨rank, ref_mem, asks, greatest, annotated_iff⟩ := selected_found found
    exact ⟨refs, rank, listed, ref_mem, asks, greatest, annotated_iff⟩
  · rw [listing_of_not_lists (not_exists.mp listed)] at found
    split_ifs at found

end Answers

/-! ## Anchors as tags -/

theorem parseTagAnchor_pushed {project : ProjectId} {anchor : Anchor} {tree : String} (seconds : Int)
    (signature more : Text) (unended : '\n' ∉ project.toList) (fits : anchor.seq < 2 ^ 64)
    (is_id : objectId tree.toList = true) :
    parseTagAnchor project (anchorTag project anchor.seq).toList
      (tagMessage ((tagObjectText tree (anchorTag project anchor.seq) ( anchorAnnotation anchor)
        seconds).toList ++ signature) ++ more) = some anchor := by
  rw [tagMessage_tagObjectText (notMem_of_objectId is_id (by simp [Char.isDigit]))
    (notMem_anchorTag unended anchor.seq), List.append_assoc]
  exact parseTagAnchor_eq_some.mpr ⟨rfl, fits, annotation_firstLine anchor (signature ++ more)⟩

/-- An anchor tag reads back as exactly the anchor pushed and nothing else reads as one; a listing is
absence, an anchor or no answer by what it lists; and a push is confirmed or refused by the first line
that settles it. -/
theorem anchor_tags_exact :
    (∀ (project : ProjectId) (anchor : Anchor) (tree : String) (seconds : Int) (signature more : Text),
      isProjectId project = true ∨ project = Models.userProject → anchor.seq < 2 ^ 64 →
        objectId tree.toList = true →
          parseTagAnchor project (anchorTag project anchor.seq).toList
            (tagMessage ((tagObjectText tree (anchorTag project anchor.seq) ( anchorAnnotation anchor)
              seconds).toList ++ signature) ++ more) = some anchor) ∧
    (∀ (project : ProjectId) (tag message : Text) (anchor : Anchor),
      parseTagAnchor project tag message = some anchor ↔
        tag = (anchorTag project anchor.seq).toList ∧ anchor.seq < 2 ^ 64 ∧
          firstLine message = (anchorLine anchor).toList) ∧
    (∀ (project project' : ProjectId) (tag message message' : Text) (anchor anchor' : Anchor),
      parseTagAnchor project tag message = some anchor →
        parseTagAnchor project' tag message' = some anchor' →
          project = project' ∧ anchor.seq = anchor'.seq) ∧
    (∀ (project : ProjectId) (query : TagQuery) (output : Output),
      (listing project query output = .absent ↔ output.complete = true ∧ (output.code = some 2 ∨
        ∃ refs, Lists output refs ∧
          ∀ ref ∈ refs, ∀ tag rank, ¬ AsksRef project query ref.2 tag rank)) ∧
      (listing project query output = .unreachable ↔
        output.complete = false ∨ output.code ≠ some 2 ∧ ∀ refs, ¬ Lists output refs) ∧
      ∀ tag sha annotated, listing project query output = .found tag sha annotated →
        ∃ refs rank, Lists output refs ∧ (sha, tagRef tag) ∈ refs ∧
          AsksRef project query (tagRef tag) tag rank ∧
          (∀ ref ∈ refs, ∀ other rank', AsksRef project query ref.2 other rank' → rank' ≤ rank) ∧
          (annotated = true ↔ ∃ ref ∈ refs, ref.2 = tagRef tag ++ peeledMark)) ∧
    ∀ (output : Output) (tag : Text),
      (∃ observation, pushObservation output tag = some observation) ∧
      (pushObservation output tag = some .pushed ↔
        output.complete = true ∧ output.success = true ∧ ∃ flag summary,
          FirstStatus output (tagRef tag) flag summary ∧ (flag = ['*'] ∨ flag = ['='])) ∧
      ∀ reason, pushObservation output tag = some (.refused reason) ↔
        output.complete = true ∧ ∃ summary, FirstStatus output (tagRef tag) ['!'] summary ∧
          redactGitText summary = some reason := by
  refine ⟨?_, fun project tag message anchor => parseTagAnchor_eq_some, ?_, ?_, ?_⟩
  · intro project anchor tree seconds signature more is_project fits is_id
    refine parseTagAnchor_pushed seconds signature more ?_ fits is_id
    obtain is_uuid | rfl := is_project
    · exact notMem_of_isProjectId is_uuid
    · simp [Models.userProject]
  · intro project project' tag message message' anchor anchor' read read'
    obtain ⟨tag_eq, -⟩ := parseTagAnchor_eq_some.mp read
    obtain ⟨tag_eq', -⟩ := parseTagAnchor_eq_some.mp read'
    exact anchorTag_inj (String.toList_inj.mp (tag_eq.symm.trans tag_eq'))
  · intro project query output
    exact ⟨listing_absent_iff, listing_unreachable_iff, fun _ _ _ => listing_found⟩
  · intro output tag
    refine ⟨?_, ⟨fun pushed => ?_, ?_⟩, fun reason => ⟨fun refused => ?_, ?_⟩⟩
    · obtain observed | ⟨-, _, _, -, ⟨-, -, observed⟩ | ⟨-, _, -, observed⟩⟩ :=
        pushObservation_cases output tag
      all_goals exact ⟨_, observed⟩
    · obtain observed | ⟨complete, flag, summary, first, ⟨flagged, success, -⟩ | ⟨-, _, -, observed⟩⟩ :=
        pushObservation_cases output tag
      · rw [observed] at pushed
        cases pushed
      · exact ⟨complete, success, flag, summary, first, flagged⟩
      · rw [observed] at pushed
        cases pushed
    · rintro ⟨complete, success, flag, summary, first, flagged⟩
      rw [pushObservation_success complete first flagged, if_pos success]
    · obtain observed | ⟨complete, flag, summary, first, ⟨-, -, observed⟩ | ⟨rfl, said, redacted, observed⟩⟩ :=
        pushObservation_cases output tag
      · rw [observed] at refused
        cases refused
      · rw [observed] at refused
        cases refused
      · rw [observed] at refused
        cases refused
        exact ⟨complete, summary, first, redacted⟩
    · rintro ⟨complete, summary, first, redacted⟩
      exact pushObservation_refusal complete first redacted

end Baley.Forge
