import Mathlib.Data.List.Sort
import Mathlib.Data.List.Lex
import Baley.Json.Compact
import Baley.Json.Scan

/-!
# Canonical JSON

RFC 8785 text over the ledger's number domain: integers within ±(2^53 − 1), object keys in UTF-16
order, and no whitespace.  The writer pushes text; its UTF-8 bytes are what is hashed and stored.
-/

namespace Baley

open Json

/-- The largest integer the RFC can carry without loss, 2^53 − 1. -/
def maxSafeInteger : Int := 9007199254740991

/-- Why a value has no canonical form. -/
inductive CanonicalError where
  /-- A number that is not an integer: its path and its source text. -/
  | notAnInteger (path number : String)
  /-- An integer outside ±(2^53 − 1). -/
  | outOfRange (path number : String)
  deriving DecidableEq, Repr

/-- Lower-case hex digit of a number below sixteen. -/
def hexDigit (n : Nat) : Char := n.digitChar

theorem hexValue_hexDigit : ∀ n < 16, hexValue (hexDigit n) = some n := by
  decide

/-- One character of a string, escaped where the RFC says so. -/
def escape (character : Char) : Text :=
  if character = '"' then ['\\', '"']
  else if character = '\\' then ['\\', '\\']
  else if character = '\x08' then ['\\', 'b']
  else if character = '\t' then ['\\', 't']
  else if character = '\n' then ['\\', 'n']
  else if character = '\x0c' then ['\\', 'f']
  else if character = '\r' then ['\\', 'r']
  else if character.toNat < 0x20 then
    ['\\', 'u', '0', '0', hexDigit (character.toNat / 16), hexDigit (character.toNat % 16)]
  else [character]

def writeString (string : String) : Text :=
  '"' :: (string.toList.flatMap escape ++ ['"'])

/-- The UTF-16 code units of a string. -/
def encodeUtf16 (string : String) : List Nat :=
  string.toList.flatMap fun c =>
    if c.toNat < 0x10000 then [c.toNat]
    else [0xD800 + (c.toNat - 0x10000) / 0x400, 0xDC00 + (c.toNat - 0x10000) % 0x400]

/-- Members in the order of their keys' UTF-16 code units. -/
def sortEntries {α : Type} (entries : List (String × α)) : List (String × α) :=
  entries.insertionSort fun first second => encodeUtf16 first.1 ≤ encodeUtf16 second.1

/-- The integer a number's source text holds, when it is in the ledger's domain. -/
def safeInteger (text : String) : Option Int :=
  (Value.readI64 text).filter fun i => -maxSafeInteger ≤ i ∧ i ≤ maxSafeInteger

def writeNumber (path text : String) : Except CanonicalError Text :=
  let digits := match text.toList with
    | '-' :: digits => digits
    | digits => digits
  let integerToken := !digits.isEmpty && digits.all Char.isDigit
  match safeInteger text with
  | some integer => .ok integer.repr.toList
  | none => .error (if integerToken then .outOfRange path text else .notAnInteger path text)

/-- A member whose value is written, after its key. -/
def writeEntry (entry : String × Except CanonicalError Text) : Except CanonicalError Text := do
  let item ← entry.2
  .ok (writeString entry.1 ++ ':' :: item)

mutual

/-- The canonical text of a value, or the first reason it has none. -/
def writeValue (path : String) : Value → Except CanonicalError Text
  | .null => .ok ['n', 'u', 'l', 'l']
  | .bool true => .ok ['t', 'r', 'u', 'e']
  | .bool false => .ok ['f', 'a', 'l', 's', 'e']
  | .number text => writeNumber path text
  | .string string => .ok (writeString string)
  | .array items => do
      let written ← writeItems path 0 items
      .ok ('[' :: (joined written ++ [']']))
  | .object members => do
      let written ← (sortEntries (writeMembers path members)).mapM writeEntry
      .ok ('{' :: (joined written ++ ['}']))
  termination_by structural value => value

def writeItems (path : String) (index : Nat) : List Value → Except CanonicalError (List Text)
  | [] => .ok []
  | item :: items => do
      let written ← writeValue (path ++ "[" ++ index.repr ++ "]") item
      let rest ← writeItems path (index + 1) items
      .ok (written :: rest)
  termination_by structural items => items

/-- Each member with the outcome of writing it; the outcomes are looked at in sorted order. -/
def writeMembers (path : String) : List (String × Value) → List (String × Except CanonicalError Text)
  | [] => []
  | member :: members =>
      (member.1, writeValue (path ++ "." ++ member.1) member.2) :: writeMembers path members
  termination_by structural members => members

end

/-- The canonical bytes of a value, or the first reason it has none. -/
def canonicalJson (value : Value) : Except CanonicalError (List UInt8) :=
  (writeValue "$" value).map utf8

/-! ## The text of a value in the domain -/

/-- Every number of the value is an integer of the ledger's domain. -/
inductive InDomain : Value → Prop
  | null : InDomain .null
  | bool (flag : Bool) : InDomain (.bool flag)
  | number {text : String} {integer : Int} (safe : safeInteger text = some integer) :
      InDomain (.number text)
  | string (text : String) : InDomain (.string text)
  | array {items : List Value} (items_inDomain : ∀ item ∈ items, InDomain item) :
      InDomain (.array items)
  | object {members : Members} (members_inDomain : ∀ member ∈ members, InDomain member.2) :
      InDomain (.object members)

mutual

/-- The canonical text, with zero for a number outside the domain. -/
def compact : Value → Text
  | .null => ['n', 'u', 'l', 'l']
  | .bool true => ['t', 'r', 'u', 'e']
  | .bool false => ['f', 'a', 'l', 's', 'e']
  | .number text => ((safeInteger text).getD 0).repr.toList
  | .string string => writeString string
  | .array items => '[' :: (joined (compactItems items) ++ [']'])
  | .object members =>
      '{' :: (joined ((sortEntries (compactMembers members)).map fun entry =>
        writeString entry.1 ++ ':' :: entry.2) ++ ['}'])
  termination_by structural value => value

def compactItems : List Value → List Text
  | [] => []
  | item :: items => compact item :: compactItems items
  termination_by structural items => items

def compactMembers : List (String × Value) → List (String × Text)
  | [] => []
  | member :: members => (member.1, compact member.2) :: compactMembers members
  termination_by structural members => members

end

theorem compactItems_eq_map (items : List Value) : compactItems items = items.map compact := by
  induction items with
  | nil => rfl
  | cons item items ih => rw [compactItems, ih, List.map_cons]

theorem compactMembers_eq_map (members : Members) :
    compactMembers members = members.map fun member => (member.1, compact member.2) := by
  induction members with
  | nil => rfl
  | cons member members ih => rw [compactMembers, ih, List.map_cons]

theorem sortEntries_map {α β : Type} (f : α → β) (entries : List (String × α)) :
    sortEntries (entries.map fun entry => (entry.1, f entry.2)) =
      (sortEntries entries).map fun entry => (entry.1, f entry.2) := by
  refine (List.map_insertionSort _ _ _ _ ?_).symm
  intro first _ second _
  exact Iff.rfl

theorem sortEntries_perm {α : Type} (entries : List (String × α)) :
    (sortEntries entries).Perm entries :=
  List.perm_insertionSort _ _

theorem mem_sortEntries {α : Type} {entries : List (String × α)} {entry : String × α} :
    entry ∈ sortEntries entries ↔ entry ∈ entries :=
  (sortEntries_perm entries).mem_iff

theorem sortEntries_pairwise {α : Type} (entries : List (String × α)) :
    (sortEntries entries).Pairwise fun first second =>
      encodeUtf16 first.1 ≤ encodeUtf16 second.1 := by
  let before := fun first second : String × α => encodeUtf16 first.1 ≤ encodeUtf16 second.1
  have total : Std.Total before := ⟨fun first second => le_total _ _⟩
  have transitive : IsTrans (String × α) before := ⟨fun _ _ _ first second => first.trans second⟩
  exact List.pairwise_insertionSort before entries

theorem mapM_writeEntry_ok (entries : List (String × Text)) :
    (entries.map fun entry => (entry.1, (.ok entry.2 : Except CanonicalError Text))).mapM
        writeEntry =
      .ok (entries.map fun entry => writeString entry.1 ++ ':' :: entry.2) := by
  induction entries with
  | nil => rfl
  | cons entry entries ih =>
      rw [List.map_cons, List.mapM_cons, ih]
      rfl

theorem writeItems_eq {items : List Value}
    (written : ∀ item ∈ items, ∀ path, writeValue path item = .ok (compact item)) (path : String)
    (index : Nat) : writeItems path index items = .ok (compactItems items) := by
  induction items generalizing index with
  | nil => rfl
  | cons item items ih =>
      rw [writeItems, written item (by simp),
        ih (fun other other_mem => written other (List.mem_cons_of_mem _ other_mem))]
      rfl

theorem writeMembers_eq {members : Members}
    (written : ∀ member ∈ members, ∀ path, writeValue path member.2 = .ok (compact member.2))
    (path : String) :
    writeMembers path members =
      (compactMembers members).map fun entry => (entry.1, .ok entry.2) := by
  induction members with
  | nil => rfl
  | cons member members ih =>
      rw [writeMembers, written member (by simp),
        ih (fun other other_mem => written other (List.mem_cons_of_mem _ other_mem))]
      rfl

/-- A value in the domain has its canonical text, wherever it stands. -/
theorem writeValue_eq {value : Value} (inDomain : InDomain value) (path : String) :
    writeValue path value = .ok (compact value) := by
  induction value using Value.induction generalizing path with
  | null => rfl
  | bool flag => cases flag <;> rfl
  | number text =>
      cases inDomain with
      | number safe => simp [writeValue, writeNumber, compact, safe]
  | string text => rfl
  | array items ih =>
      cases inDomain with
      | array items_inDomain =>
          rw [writeValue, writeItems_eq fun item item_mem => ih item item_mem (items_inDomain item item_mem)]
          rfl
  | object members ih =>
      cases inDomain with
      | object members_inDomain =>
          rw [writeValue, writeMembers_eq fun member member_mem =>
            ih member member_mem (members_inDomain member member_mem), sortEntries_map]
          rw [mapM_writeEntry_ok]
          rfl

theorem inDomain_of_writeNumber {path text : String} {written : Text}
    (writes : writeNumber path text = .ok written) : InDomain (.number text) := by
  cases safe : safeInteger text with
  | none => simp [writeNumber, safe] at writes
  | some integer => exact .number safe

theorem inDomain_of_writeItems {items : List Value}
    (inDomain : ∀ item ∈ items, ∀ path written, writeValue path item = .ok written → InDomain item)
    {path : String} {index : Nat} {written : List Text}
    (writes : writeItems path index items = .ok written) : ∀ item ∈ items, InDomain item := by
  induction items generalizing index written with
  | nil => simp
  | cons item items ih =>
      rw [writeItems] at writes
      cases item_writes : writeValue (path ++ "[" ++ index.repr ++ "]") item with
      | error error => simp [item_writes, bind, Except.bind] at writes
      | ok text =>
          cases rest_writes : writeItems path (index + 1) items with
          | error error => simp [item_writes, rest_writes, bind, Except.bind] at writes
          | ok rest =>
              have rest_inDomain := ih
                (fun other other_mem => inDomain other (List.mem_cons_of_mem _ other_mem)) rest_writes
              intro other other_mem
              rcases List.mem_cons.mp other_mem with rfl | other_mem
              · exact inDomain other (by simp) _ _ item_writes
              · exact rest_inDomain other other_mem

theorem mapM_writeEntry_mem {entries : List (String × Except CanonicalError Text)}
    {written : List Text} (writes : entries.mapM writeEntry = .ok written) :
    ∀ entry ∈ entries, ∃ text, entry.2 = .ok text := by
  induction entries generalizing written with
  | nil => simp
  | cons head tail ih =>
      rw [List.mapM_cons] at writes
      cases head_written : head.2 with
      | error error => simp [writeEntry, head_written, bind, Except.bind] at writes
      | ok text =>
          cases tail_writes : tail.mapM writeEntry with
          | error error => simp [writeEntry, head_written, tail_writes, bind, Except.bind] at writes
          | ok rest =>
              intro entry entry_mem
              rcases List.mem_cons.mp entry_mem with rfl | entry_mem
              · exact ⟨text, head_written⟩
              · exact ih tail_writes entry entry_mem

theorem mem_writeMembers {path : String} {members : Members} {member : String × Value}
    (member_mem : member ∈ members) :
    (member.1, writeValue (path ++ "." ++ member.1) member.2) ∈ writeMembers path members := by
  induction members with
  | nil => simp at member_mem
  | cons head tail ih =>
      rw [writeMembers]
      rcases List.mem_cons.mp member_mem with rfl | member_mem
      · exact List.mem_cons_self
      · exact List.mem_cons_of_mem _ (ih member_mem)

theorem inDomain_of_writeValue {value : Value} {path : String} {written : Text}
    (writes : writeValue path value = .ok written) : InDomain value := by
  induction value using Value.induction generalizing path written with
  | null => exact .null
  | bool flag => exact .bool flag
  | number text => exact inDomain_of_writeNumber writes
  | string text => exact .string text
  | array items ih =>
      rw [writeValue] at writes
      cases items_write : writeItems path 0 items with
      | error error => simp [items_write, bind, Except.bind] at writes
      | ok texts =>
          exact .array (inDomain_of_writeItems
            (fun item item_mem path written item_writes => ih item item_mem item_writes) items_write)
  | object members ih =>
      rw [writeValue] at writes
      cases members_write : (sortEntries (writeMembers path members)).mapM writeEntry with
      | error error => simp [members_write, bind, Except.bind] at writes
      | ok texts =>
          refine .object fun member member_mem => ?_
          obtain ⟨text, item_writes⟩ := mapM_writeEntry_mem members_write _
            (mem_sortEntries.mpr (mem_writeMembers member_mem))
          exact ih member member_mem item_writes

/-- A value has a canonical form exactly when its numbers are in the domain. -/
theorem canonicalJson_eq_ok_iff {value : Value} {bytes : List UInt8} :
    canonicalJson value = .ok bytes ↔ InDomain value ∧ bytes = utf8 (compact value) := by
  constructor
  · intro writes
    cases written_eq : writeValue "$" value with
    | error error => simp [canonicalJson, written_eq, Except.map] at writes
    | ok written =>
        have inDomain := inDomain_of_writeValue written_eq
        rw [writeValue_eq inDomain] at written_eq
        obtain rfl := Except.ok.inj written_eq
        simp only [canonicalJson, writeValue_eq inDomain, Except.map, Except.ok.injEq] at writes
        exact ⟨inDomain, writes.symm⟩
  · rintro ⟨inDomain, rfl⟩
    rw [canonicalJson, writeValue_eq inDomain]
    rfl

/-- Every open bracket is a character of the text. -/
theorem nesting_le_length_compact (value : Value) : value.nesting ≤ (compact value).length := by
  induction value using Value.induction with
  | array items ih =>
      have items_le : Value.nestingItems items ≤ (joined (compactItems items)).length := by
        rw [Value.nestingItems_le_iff, compactItems_eq_map]
        intro item item_mem
        exact (ih item item_mem).trans (length_le_length_joined_of_mem (List.mem_map.mpr ⟨item, item_mem, rfl⟩))
      simp only [Value.nesting, compact, List.length_cons, List.length_append]
      omega
  | object members ih =>
      have members_le : Value.nestingMembers members ≤
          (joined ((sortEntries (compactMembers members)).map fun entry =>
            writeString entry.1 ++ ':' :: entry.2)).length := by
        rw [Value.nestingMembers_le_iff, compactMembers_eq_map]
        intro member member_mem
        have written_mem : writeString member.1 ++ ':' :: compact member.2 ∈
            (sortEntries (members.map fun member => (member.1, compact member.2))).map fun entry =>
              writeString entry.1 ++ ':' :: entry.2 :=
          List.mem_map.mpr ⟨(member.1, compact member.2),
            mem_sortEntries.mpr (List.mem_map.mpr ⟨member, member_mem, rfl⟩), rfl⟩
        have written_le := length_le_length_joined_of_mem written_mem
        have member_le := ih member member_mem
        simp only [List.length_append, List.length_cons] at written_le
        omega
      simp only [Value.nesting, compact, List.length_cons, List.length_append]
      omega
  | _ => exact Nat.zero_le _
end Baley
