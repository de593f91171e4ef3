import Baley.Anchor
import Baley.CanonicalForm
import Baley.Split

/-!
# The tag that holds an anchor

An anchor is pushed as a tag: its name says the project and the sequence, the first line of its
message says the sequence and the head.  Both are read back in exactly one spelling.
-/

namespace Baley.Forge

open Json

/-- The one line of canonical JSON that says an anchor. -/
def anchorLine (anchor : Anchor) : String :=
  "\x7b\"head\":\"" ++ anchor.hash.toHex ++ "\",\"seq\":" ++ anchor.seq.repr ++ "\x7d"

/-- The annotation of an anchor tag: its canonical line and a line feed. -/
def anchorAnnotation (anchor : Anchor) : String :=
  anchorLine anchor ++ "\n"

/-- The first line of a text. -/
def firstLine (text : Text) : Text :=
  text.takeWhile (· != '\n')

/-- The anchor an annotation names.  Only the first line is read, which must be exactly the canonical
one: extra keys, spacing, upper-case hex and any other spelling of the same values are refused. -/
def parseAnnotation (message : Text) : Option Anchor := do
  let line := firstLine message
  let value ← readDocument recursionLimit (String.ofList line)
  let object ← value.asObject
  let seq ← (← Members.lookup "seq" object).asU64
  let hash ← Hash.fromHex (← (← Members.lookup "head" object).asStr)
  if ( anchorAnnotation ⟨seq, hash⟩).toList.rdropWhile (· == '\n') = line then some ⟨seq, hash⟩ else none

/-- The sequence a tag of the project names, when it is exactly `baley-anchor/<project_id>/<seq>` with
`seq` in plain decimal. -/
def tagSequence (project : ProjectId) (tag : Text) : Option Nat := do
  let rest ← stripFront anchorTagPrefix.toList tag
  let rest ← stripFront project.toList rest
  let digits ← stripFront ['/'] rest
  let seq ← Value.readU64 (String.ofList digits)
  if seq.repr.toList = digits then some seq else none

/-- The anchor a fetched tag of the project holds.  A tag that exists but names no anchor gives
nothing. -/
def parseTagAnchor (project : ProjectId) (tag message : Text) : Option Anchor := do
  let anchor ← parseAnnotation message
  if (← tagSequence project tag) = anchor.seq then some anchor else none

/-! ## The canonical line -/

/-- The members of a canonical line. -/
def anchorEntries (anchor : Anchor) : List (String × Text × Value) :=
  [("head", writeString anchor.hash.toHex, .string anchor.hash.toHex),
    ("seq", anchor.seq.repr.toList, .ofNat anchor.seq)]

theorem writeString_toHex (hash : Hash) :
    writeString hash.toHex = '"' :: (hash.toHex.toList ++ ['"']) := by
  have digits : ∀ n < 16, escape (hexDigit n) = [hexDigit n] := by decide
  have plain : ∀ c ∈ hash.toHex.toList, escape c = [c] :=
    @Hash.forall_mem_toHex hash (fun c => escape c = [c]) digits
  have body_eq : hash.toHex.toList.flatMap escape = hash.toHex.toList := by
    calc
      hash.toHex.toList.flatMap escape = hash.toHex.toList.flatMap fun c => [c] :=
        List.flatMap_congr plain
      _ = hash.toHex.toList := by simp
  rw [writeString, body_eq]

/-- The canonical line is the object of the two members. -/
theorem toList_anchorLine (anchor : Anchor) :
    (anchorLine anchor).toList = '\x7b' :: (joined ((anchorEntries anchor).map fun entry =>
      writeString entry.1 ++ ':' :: entry.2.1) ++ ['\x7d']) := by
  have head_eq : writeString "head" = "\"head\"".toList := by simp [writeString, escape]
  have seq_eq : writeString "seq" = "\"seq\"".toList := by simp [writeString, escape]
  simp [anchorEntries, joined, head_eq, seq_eq, writeString_toHex, anchorLine]

theorem readDocument_anchorLine (anchor : Anchor) :
    readDocument recursionLimit (anchorLine anchor) =
      some (.ofEntries [("head", .string anchor.hash.toHex), ("seq", .ofNat anchor.seq)]) := by
  have reads : ∀ entry ∈ anchorEntries anchor, Reads (readValue 127) entry.2.1 entry.2.2 := by
    simp only [anchorEntries, List.forall_mem_cons, List.not_mem_nil, false_imp_iff, implies_true,
      and_true]
    refine ⟨fun rest _ => ?_, fun rest ends => ?_⟩
    · refine readValue_string ?_
      rw [List.append_assoc]
      exact readString_writeString anchor.hash.toHex rest
    · exact readValue_number anchor.seq ends
  have read := readObject_joined keysRead_writeString opens_writeString reads []
  rw [readDocument, toList_anchorLine, recursionLimit, readValue_object (by decide), read]
  simp [anchorEntries, skipSpace]

theorem notMem_anchorLine (anchor : Anchor) : '\n' ∉ (anchorLine anchor).toList := by
  have hex_digits : ∀ n < 16, hexDigit n ≠ '\n' := by decide
  have hex : '\n' ∉ anchor.hash.toHex.toList := fun held =>
    @Hash.forall_mem_toHex anchor.hash (· ≠ '\n') hex_digits '\n' held rfl
  have digits : '\n' ∉ anchor.seq.repr.toList := by
    rw [Nat.toList_repr]
    exact notMem_toDigits rfl
  simp only [anchorLine, String.toList_append, List.mem_append, not_or]
  exact ⟨⟨⟨⟨by simp, hex⟩, by simp⟩, digits⟩, by simp⟩

/-- The first line of what starts with a line. -/
theorem firstLine_append {line : Text} (unended : '\n' ∉ line) (rest : Text) :
    firstLine (line ++ '\n' :: rest) = line := by
  have passes : ∀ c ∈ line, (c != '\n') = true := by
    intro c c_mem
    simpa using ne_of_mem_of_not_mem c_mem unended
  rw [firstLine, List.takeWhile_append_of_pos passes]
  simp

theorem annotation_firstLine (anchor : Anchor) (more : Text) :
    firstLine (( anchorAnnotation anchor).toList ++ more) = (anchorLine anchor).toList := by
  have text_eq : ( anchorAnnotation anchor).toList ++ more = (anchorLine anchor).toList ++ '\n' :: more := by
    simp [ anchorAnnotation]
  rw [text_eq, firstLine_append (notMem_anchorLine anchor)]

theorem annotation_trimmed (anchor : Anchor) :
    ( anchorAnnotation anchor).toList.rdropWhile (· == '\n') = (anchorLine anchor).toList := by
  have text_eq : ( anchorAnnotation anchor).toList = (anchorLine anchor).toList ++ ['\n'] := by
    simp [ anchorAnnotation]
  rw [text_eq, List.rdropWhile_concat_pos _ _ _ rfl]
  refine (List.rdropWhile_eq_self_iff).mpr fun not_empty feeds => ?_
  have last_mem := List.getLast_mem not_empty
  rw [beq_iff_eq] at feeds
  exact notMem_anchorLine anchor (feeds ▸ last_mem)

theorem readU64_eq_some {text : String} {n : Nat} (read : Value.readU64 text = some n) : n < 2 ^ 64 := by
  simpa using (Option.filter_eq_some_iff.mp read).2

/-- An annotation names an anchor when its first line is the anchor's canonical line. -/
theorem parseAnnotation_eq_some {message : Text} {anchor : Anchor} :
    parseAnnotation message = some anchor ↔
      firstLine message = (anchorLine anchor).toList ∧ anchor.seq < 2 ^ 64 := by
  constructor
  · intro parsed
    simp only [ parseAnnotation, Option.bind_eq_bind, Option.bind_eq_some_iff] at parsed
    obtain ⟨value, -, object, -, number, -, seq, seq_eq, text, -, hex, -, hash, -, named⟩ := parsed
    split_ifs at named with canonical
    obtain rfl := Option.some.inj named
    rw [annotation_trimmed] at canonical
    refine ⟨canonical.symm, ?_⟩
    cases number with
    | number digits => exact readU64_eq_some seq_eq
    | _ => cases seq_eq
  · rintro ⟨line_eq, fits⟩
    have trimmed := annotation_trimmed anchor
    have seq_found : Members.lookup "seq" (Members.ofEntries
        [("head", .string anchor.hash.toHex), ("seq", .ofNat anchor.seq)]) = some (.ofNat anchor.seq) := by
      rw [Members.lookup_ofEntries]
      simp
    have head_found : Members.lookup "head" (Members.ofEntries
        [("head", .string anchor.hash.toHex), ("seq", .ofNat anchor.seq)]) =
          some (.string anchor.hash.toHex) := by
      rw [Members.lookup_ofEntries]
      simp [Members.lookup]
    simp [ parseAnnotation, line_eq, readDocument_anchorLine, Value.ofEntries, seq_found, head_found,
      Value.asU64_ofNat fits, trimmed]

/-! ## The tag's name -/

theorem tagSequence_eq_some {project : ProjectId} {tag : Text} {seq : Nat} :
    tagSequence project tag = some seq ↔ tag = (anchorTag project seq).toList ∧ seq < 2 ^ 64 := by
  simp only [tagSequence, Option.bind_eq_bind, Option.bind_eq_some_iff, stripFront_eq_some]
  constructor
  · rintro ⟨_, rfl, _, rfl, digits, rfl, number, read, named⟩
    split_ifs at named with plain
    obtain rfl := Option.some.inj named
    refine ⟨?_, readU64_eq_some read⟩
    simp [anchorTag, plain]
  · rintro ⟨rfl, fits⟩
    refine ⟨project.toList ++ ('/' :: seq.repr.toList), by simp [anchorTag], _, rfl, seq.repr.toList, rfl,
      seq, ?_, by simp⟩
    rw [String.ofList_toList]
    exact Value.asU64_ofNat fits

/-- A tag's name says its project and its sequence. -/
theorem anchorTag_inj {project project' : ProjectId} {seq seq' : Nat}
    (same : anchorTag project seq = anchorTag project' seq') : project = project' ∧ seq = seq' := by
  have chars_eq := congrArg String.toList same
  simp only [anchorTag, String.toList_append, List.append_assoc] at chars_eq
  have tails_eq := List.append_cancel_left chars_eq
  have digits (n : Nat) : '/' ∉ n.repr.toList := by
    rw [Nat.toList_repr]
    exact notMem_toDigits rfl
  have seqs_eq : seq.repr.toList = seq'.repr.toList := by
    have last := afterLast_append '/' (digits seq) project.toList
    have last' := afterLast_append '/' (digits seq') project'.toList
    have slash : "/".toList = ['/'] := by simp
    rw [slash, List.singleton_append, List.singleton_append] at tails_eq
    rw [tails_eq, last'] at last
    exact (Option.some.inj last).symm
  have projects_eq : project.toList = project'.toList := by
    rw [seqs_eq] at tails_eq
    exact List.append_cancel_right tails_eq
  have read := Value.readDigits_toDigits seq
  rw [← Nat.toList_repr, seqs_eq, Nat.toList_repr, Value.readDigits_toDigits] at read
  exact ⟨String.toList_inj.mp projects_eq, (Option.some.inj read).symm⟩

/-- A tag reads as an anchor exactly when its name is the project's tag for the anchor's sequence and
the first line of its message is the anchor's canonical line. -/
theorem parseTagAnchor_eq_some {project : ProjectId} {tag message : Text} {anchor : Anchor} :
    parseTagAnchor project tag message = some anchor ↔
      tag = (anchorTag project anchor.seq).toList ∧ anchor.seq < 2 ^ 64 ∧
        firstLine message = (anchorLine anchor).toList := by
  simp only [parseTagAnchor, Option.bind_eq_bind, Option.bind_eq_some_iff, parseAnnotation_eq_some,
    tagSequence_eq_some]
  constructor
  · rintro ⟨read, ⟨line_eq, fits⟩, seq, ⟨tag_eq, -⟩, named⟩
    split_ifs at named with same
    obtain rfl := Option.some.inj named
    exact ⟨same ▸ tag_eq, fits, line_eq⟩
  · rintro ⟨tag_eq, fits, line_eq⟩
    exact ⟨anchor, ⟨line_eq, fits⟩, anchor.seq, ⟨tag_eq, fits⟩, if_pos rfl⟩

end Baley.Forge
