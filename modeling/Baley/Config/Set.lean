import Baley.Config.Layer
import Baley.Config.Plain
import Baley.Attempt

/-!
# Setting values in a settings file

The pairs of a `config set` judged against the schema, and the file they make of the one that is there:
rendered whole from the table its text reads as.
-/

namespace Baley.Config

open Json (utf8)

/-! ## The pairs -/

/-- One pair after its name and value are judged. -/
structure TypedPair where
  name : String
  /-- The host section it is written in. -/
  host : Option Host
  value : Setting
  deriving DecidableEq

/-- Why a set is refused before anything is written. -/
inductive SetRefusal where
  | notAProject
  | unknownSetting (name : String)
  | listNotSettable (name : String)
  | wrongLayer (name : String) (scope : Scope) (layer : FileLayer)
  | invalidValue (name value : String) (kind : Kind)
  | unknownModel (setting model : String) (host : Option Host) (checked : List (Host × List String))
  deriving DecidableEq

/-- Whether a scope keeps a setting out of a file. -/
def excludes (scope : Scope) (layer : FileLayer) : Bool :=
  (scope = .project && layer = .global) || (scope = .global && layer = .project)

/-- A capacity in decimal digits alone. -/
def readCapacity (text : String) : Option Capacity :=
  if text ≠ "" ∧ (text.toList.all fun c => '0' ≤ c ∧ c ≤ '9') = true then (readU32 10 text).bind Capacity.ofNat
  else none

/-- A command line's text as a value of a kind; a list is none. -/
def convert (kind : Kind) (text : String) : Option Setting :=
  match kind with
  | .bool => if text = "true" then some (.bool true) else if text = "false" then some (.bool false) else none
  | .rung => (Rung.parse text).map .rung
  | .modelName => if text = "" then none else some (.modelName text)
  | .remoteName => if text = "" then none else some (.remoteName text)
  | .onProtected => (OnProtected.parse text).map .onProtected
  | .branchList => none
  | .reviewerList => none
  | .httpsAddress => if isHttpsAddress text then some (.httpsAddress text) else none
  | .personName => if isPersonName text then some (.personName text) else none
  | .capacity => (readCapacity text).map .capacity
  | .command => if isPersonName text then some (.command text) else none

/-- The entry of a name. -/
def Schema.get (schema : Schema) (name : String) : Option Entry := schema.entries.find? fun entry => entry.name = name

/-- Each item judged, the first refusal standing. -/
def judgeEach {α β ε : Type} (judge : α → Except ε β) : List α → Except ε (List β)
  | [] => .ok []
  | item :: items => do
      let judged ← judge item
      let rest ← judgeEach judge items
      .ok (judged :: rest)

def knownSetting (schema : Schema) (pair : String × String) : Except SetRefusal (Entry × String × String) :=
  match schema.get pair.1 with
  | none => .error (.unknownSetting pair.1)
  | some entry => .ok (entry, pair)

def settable (pair : Entry × String × String) : Except SetRefusal Unit :=
  if pair.1.kind = .branchList ∨ pair.1.kind = .reviewerList then .error (.listNotSettable pair.2.1) else .ok ()

def admitted (layer : FileLayer) (pair : Entry × String × String) : Except SetRefusal Unit :=
  if excludes pair.1.scope layer then .error (.wrongLayer pair.2.1 pair.1.scope layer) else .ok ()

def converted (host : Option Host) (pair : Entry × String × String) : Except SetRefusal TypedPair :=
  match convert pair.1.kind pair.2.2 with
  | none => .error (.invalidValue pair.2.1 pair.2.2 pair.1.kind)
  | some value => .ok { name := pair.1.name, host, value }

/-- Every pair judged, each check over every pair before the next begins. -/
def judgePairs (schema : Schema) (layer : FileLayer) (inProject : Bool) (host : Option Host)
    (pairs : List (String × String)) : Except SetRefusal (List TypedPair) := do
  if layer = .project ∧ inProject = false then .error .notAProject
  let entries ← judgeEach (knownSetting schema) pairs
  let _ ← judgeEach settable entries
  let _ ← judgeEach (admitted layer) entries
  judgeEach (converted host) entries

/-- A model name against the hosts' accepted names: with a host that host's, with none any host's. -/
def judgeModel (host : Option Host) (accepted : Host → Option (List String)) (pair : TypedPair) :
    Except SetRefusal Unit :=
  let checked := match host with
    | some host => [host]
    | none => Host.all
  match pair.value with
  | .modelName model =>
      if checked.any fun host => ((accepted host).map (·.contains model)).getD false then .ok ()
      else .error (.unknownModel pair.name model host (checked.map fun host => (host, (accepted host).getD [])))
  | _ => .ok ()

def judgeModels (host : Option Host) (accepted : Host → Option (List String)) (pairs : List TypedPair) :
    Except SetRefusal Unit := (judgeEach (judgeModel host accepted) pairs).map fun _ => ()

/-- A pair into those held: a setting given again keeps its first place and takes the last value. -/
def holdPair (held : List TypedPair) (pair : TypedPair) : List TypedPair :=
  match held with
  | [] => [pair]
  | earlier :: held =>
      if earlier.name = pair.name ∧ earlier.host = pair.host then { earlier with value := pair.value } :: held
      else earlier :: holdPair held pair

def collapseRepeats (pairs : List TypedPair) : List TypedPair := pairs.foldl holdPair []

/-- The pairs a file's layer does not already hold. -/
def changedPairs (current : Option ParsedLayer) (pairs : List TypedPair) : List TypedPair :=
  pairs.filter fun pair => !(current.any fun layer => layer.values.any fun written =>
    written.name = pair.name && written.host = pair.host && written.value = pair.value)

/-! ## The file -/

/-- The TOML library as a set uses it: a text read as a table, and a table written out. -/
structure Library (reader : Reader) (Decimal Date : Type) extends Scalars Decimal Date where
  table : String → Except ParseError (Table Decimal Date)
  print : Table Decimal Date → String
  /-- A text's table says what its document does. -/
  table_reads : ∀ {text : String} {entries : List (Key × Toml)} {members : Table Decimal Date},
    reader.read text = .ok entries → table text = .ok members → Denotes toScalars (.table entries) (.table members)

variable {reader : Reader} {Decimal Date : Type}

theorem fits_capacity (tasks : Capacity) : Fits tasks.1 := by
  have small := tasks.2.2
  rw [Fits]
  omega

/-- The value a setting is written as. -/
def tomlValue : Setting → Plain Decimal Date
  | .bool value => .boolean value
  | .rung rung => .string rung.name
  | .modelName name => .string name
  | .remoteName name => .string name
  | .onProtected value => .string value.name
  | .httpsAddress address => .string address
  | .personName name => .string name
  | .capacity tasks => .integer tasks.1 (fits_capacity tasks)
  | .command line => .string line
  | .branchList names => .array (names.map .string)
  | .reviewerList names => .array (names.map .string)

/-- Where a pair is written. -/
def TypedPair.path (pair : TypedPair) : List String := hostPath pair.host ++ dotted pair.name

/-- A table with every pair written into it. -/
def writePairs (pairs : List TypedPair) (table : Table Decimal Date) : Table Decimal Date :=
  pairs.foldl (fun table pair => table.writeAt pair.path (tomlValue pair.value)) table

/-- The table a file becomes when pairs are written into it; a file that gives no layer is refused. -/
def renderTable (library : Library reader Decimal Date) (schema : Schema) (layer : FileLayer)
    (base : Option SettingsFile) (pairs : List TypedPair) : Except Unavailable (Table Decimal Date) := do
  match base with
  | none => .ok (writePairs pairs [])
  | some file =>
      let _ ← parseLayer reader schema layer file
      let (text, _) ← document reader file
      match library.table text with
      | .error error =>
          .error { path := file.path,
                   fault := .parse (error.start.map (lineAndColumn file.bytes)) error.message }
      | .ok table => .ok (writePairs pairs table)

/-- The bytes of a table written out. -/
def Library.bytes (library : Library reader Decimal Date) (table : Table Decimal Date) : List UInt8 :=
  utf8 (library.print table).toList

def renderFile (library : Library reader Decimal Date) (schema : Schema) (layer : FileLayer)
    (base : Option SettingsFile) (pairs : List TypedPair) : Except Unavailable (List UInt8) :=
  (renderTable library schema layer base pairs).map library.bytes

/-- Why a set writes nothing. -/
inductive SetFailure where
  | refused (refusal : SetRefusal)
  | unavailable (refusal : Unavailable)

/-- What a set writes to its file, if it changes it: the pairs are judged, then the file that is there, then the
model names, and what the file holds already is not written again. -/
def configSet (library : Library reader Decimal Date) (schema : Schema) (layer : FileLayer) (inProject : Bool)
    (host : Option Host) (accepted : Host → Option (List String)) (base : Option SettingsFile)
    (pairs : List (String × String)) : Except SetFailure (Option (Table Decimal Date)) := do
  let typed ← (judgePairs schema layer inProject host pairs).mapError .refused
  let current ← (parseFile reader schema layer base).mapError .unavailable
  let _ ← (judgeModels host accepted typed).mapError .refused
  let changed := changedPairs current (collapseRepeats typed)
  if changed = [] then .ok none
  else ((renderTable library schema layer base changed).mapError .unavailable).map some

/-! ## Typing by what a value says -/

variable {scalars : Scalars Decimal Date}

def Plain.asStr : Plain Decimal Date → Option String
  | .string text => some text
  | _ => none

theorem Denotes.asStr {toml : Toml} {value : Plain Decimal Date} (same : Denotes scalars toml value) :
    toml.asStr = value.asStr := by
  cases same with
  | _ => rfl

theorem typedText_eq_ok {value : Toml} {read : String → Option Setting} {setting : Setting} :
    typedText value read = .ok setting ↔ value.asStr.bind read = some setting := by
  rw [typedText]
  cases value.asStr with
  | none => simp
  | some written =>
      cases given : read written with
      | _ => simp [given]

/-- The names of a list, each of a text that a test lets pass. -/
theorem typedNames_eq_ok {judge : Nat → Toml → Except Mismatch String} {keep : String → Bool}
    (judged : ∀ start item name, judge start item = .ok name ↔ item.asStr = some name ∧ keep name = true)
    {items : List (Nat × Toml)} {names : List String} :
    typedNames judge items = .ok names ↔
      (items.map fun item => item.2.asStr) = names.map some ∧ names.all keep = true := by
  induction items generalizing names with
  | nil =>
      cases names with
      | _ => simp [typedNames]
  | cons item items ih =>
      obtain ⟨start, value⟩ := item
      rw [typedNames, Except.bind_eq_ok]
      simp only [Except.bind_eq_ok, Except.ok.injEq, judged, ih]
      constructor
      · rintro ⟨name, ⟨is_text, kept⟩, names, ⟨texts, all_kept⟩, rfl⟩
        simp [is_text, kept, texts, all_kept]
      · intro holds
        cases names with
        | nil => simp at holds
        | cons name names =>
            simp only [List.map_cons, List.cons.injEq, List.all_cons, Bool.and_eq_true] at holds
            exact ⟨name, ⟨holds.1.1, holds.2.1⟩, names, ⟨holds.1.2, holds.2.2⟩, rfl⟩

theorem branchName_eq_ok (start : Nat) (item : Toml) (name : String) :
    branchName start item = .ok name ↔ item.asStr = some name ∧ (!isBlank name) = true := by
  rw [branchName]
  cases item.asStr with
  | none => simp
  | some held =>
      cases blank : isBlank held with
      | true =>
          refine iff_of_false (by simp [blank]) ?_
          rintro ⟨same, kept⟩
          rw [← Option.some.inj same, blank] at kept
          cases kept
      | false =>
          simp only [blank, Bool.false_eq_true, if_false, Except.ok.injEq, Option.some.injEq]
          constructor
          · rintro rfl
            simp [blank]
          · exact fun holds => holds.1

theorem reviewerName_eq_ok (start : Nat) (item : Toml) (name : String) :
    reviewerName start item = .ok name ↔ item.asStr = some name ∧ reviewerNames.contains name = true := by
  rw [reviewerName]
  cases item.asStr with
  | none => simp
  | some held =>
      cases known : reviewerNames.contains held with
      | true =>
          simp only [known, if_true, Except.ok.injEq, Option.some.injEq]
          constructor
          · rintro rfl
            exact ⟨rfl, known⟩
          · exact fun holds => holds.1
      | false =>
          refine iff_of_false (by simp only [known, Bool.false_eq_true, if_false, reduceCtorEq, not_false_eq_true]) ?_
          rintro ⟨same, kept⟩
          rw [← Option.some.inj same, known] at kept
          cases kept

theorem ofNat_eq_some {number : Nat} {tasks : Capacity} : Capacity.ofNat number = some tasks ↔ number = tasks.1 := by
  rw [Capacity.ofNat]
  constructor
  · intro given
    split at given
    · cases given
      rfl
    · cases given
  · rintro rfl
    exact dif_pos tasks.2

theorem readU32_minus (radix : Nat) {digits : String} {rest : List Char} (signed : digits.toList = '-' :: rest) :
    readU32 radix digits = none := by
  have unread : readDigits radix ('-' :: rest) = none := by simp [readDigits, digitValue]
  rw [readU32, signed]
  exact congrArg (Option.filter _) unread

/-- A number of 64 bits is a capacity when it is one of 32 bits that is not zero. -/
theorem capacity_of_readI64 {radix : Nat} {digits : String} {value : Int} (reads : readI64 radix digits = some value)
    {tasks : Capacity} : (readU32 radix digits).bind Capacity.ofNat = some tasks ↔ value = tasks.1 := by
  have positive : ∀ number : Option Nat, number.map Int.ofNat = some value →
      ((number.filter (· < 2 ^ 32)).bind Capacity.ofNat = some tasks ↔ value = tasks.1) := by
    intro number is_value
    obtain ⟨number, rfl, rfl⟩ := Option.map_eq_some_iff.mp is_value
    have small := tasks.2.2
    rw [Option.filter_some]
    split
    · rw [Option.bind_some, ofNat_eq_some]
      exact Int.natCast_inj.symm
    · rename_i large
      refine iff_of_false (by simp) fun same => ?_
      rw [decide_eq_true_eq, Int.natCast_inj.mp same] at large
      exact large small
  rw [readI64, Option.filter_eq_some_iff] at reads
  obtain ⟨reads, -⟩ := reads
  split at reads
  · rename_i rest signed
    obtain ⟨number, -, rfl⟩ := Option.map_eq_some_iff.mp reads
    have not_zero := tasks.2.1
    rw [readU32_minus radix signed]
    refine iff_of_false (by simp) fun same => ?_
    rw [Int.ofNat_eq_natCast] at same
    omega
  · rename_i rest signed
    rw [readU32, signed]
    exact positive _ reads
  · rename_i no_minus no_plus
    rw [readU32]
    split
    · rename_i rest signed
      exact absurd signed (no_plus rest)
    · exact positive _ reads

theorem texts_of_denotes {items : List (Nat × Toml)} {values : List (Plain Decimal Date)}
    (each : List.Forall₂ (fun item value => Denotes scalars item.2 value) items values) :
    (items.map fun item => item.2.asStr) = values.map Plain.asStr := by
  induction each with
  | nil => rfl
  | cons same _ ih => rw [List.map_cons, List.map_cons, same.asStr, ih]

theorem typed_names_eq_ok {judge : Nat → Toml → Except Mismatch String} {keep : String → Bool}
    (judged : ∀ start item name, judge start item = .ok name ↔ item.asStr = some name ∧ keep name = true)
    {items : List (Nat × Toml)} {setting : Setting} (wrap : List String → Setting) :
    (typedNames judge items).map wrap = .ok setting ↔
      ∃ names, ((items.map fun item => item.2.asStr) = names.map some ∧ names.all keep = true) ∧
        wrap names = setting := by
  rw [Except.map_eq_ok]
  exact exists_congr fun names => and_congr_left' (typedNames_eq_ok judged)

theorem typed_capacity_eq_ok {radix : Nat} {digits : String} {value : Int} (reads : readI64 radix digits = some value)
    {setting : Setting} :
    typed .capacity (.integer radix digits) = .ok setting ↔ ∃ tasks : Capacity, value = tasks.1 ∧ setting = .capacity tasks := by
  have held := @capacity_of_readI64 _ _ _ reads
  rw [typed]
  cases given : (readU32 radix digits).bind Capacity.ofNat with
  | none =>
      simp only [given, reduceCtorEq, false_iff] at held ⊢
      rintro ⟨tasks, same, -⟩
      exact held same
  | some tasks =>
      have value_eq := held.mp given
      constructor
      · intro typed_ok
        cases typed_ok
        exact ⟨tasks, value_eq, rfl⟩
      · rintro ⟨tasks', same, rfl⟩
        rw [Subtype.ext (Int.natCast_inj.mp (value_eq.symm.trans same))]

/-- What a value is typed as depends on what it says alone. -/
theorem typed_congr {kind : Kind} {toml toml' : Toml} {value : Plain Decimal Date}
    (same : Denotes scalars toml value) (same' : Denotes scalars toml' value) {setting : Setting} :
    typed kind toml = .ok setting ↔ typed kind toml' = .ok setting := by
  cases kind with
  | bool =>
      cases same with
      | _ => cases same'; simp [typed]
  | branchList =>
      cases same with
      | array each =>
          cases same' with
          | array each' =>
              rw [typed, typed, typed_names_eq_ok branchName_eq_ok, typed_names_eq_ok branchName_eq_ok,
                texts_of_denotes each, texts_of_denotes each']
      | _ => cases same'; simp [typed]
  | reviewerList =>
      cases same with
      | array each =>
          cases same' with
          | array each' =>
              rw [typed, typed, typed_names_eq_ok reviewerName_eq_ok, typed_names_eq_ok reviewerName_eq_ok,
                texts_of_denotes each, texts_of_denotes each']
      | _ => cases same'; simp [typed]
  | capacity =>
      cases same with
      | integer reads fits =>
          cases same' with
          | integer reads' fits' => rw [typed_capacity_eq_ok reads, typed_capacity_eq_ok reads']
      | _ => cases same'; simp [typed]
  | _ => simp only [typed, typedText_eq_ok, same.asStr, same'.asStr]

theorem parse_rung (rung : Rung) : Rung.parse rung.name = some rung := by
  cases rung with
  | _ => decide

theorem parse_onProtected (value : OnProtected) : OnProtected.parse value.name = some value := by
  cases value with
  | _ => decide

/-- What a set writes for a value given is typed as that value. -/
theorem typed_tomlValue {kind : Kind} {text : String} {setting : Setting} (given : convert kind text = some setting)
    {toml : Toml} (same : Denotes scalars toml (tomlValue setting)) : typed kind toml = .ok setting := by
  have text_same := same.asStr
  cases kind with
  | bool =>
      rw [convert] at given
      split at given
      · cases given
        cases same
        rfl
      · split at given
        · cases given
          cases same
          rfl
        · cases given
  | capacity =>
      obtain ⟨tasks, -, rfl⟩ := Option.map_eq_some_iff.mp given
      cases same with
      | integer reads fits => exact (typed_capacity_eq_ok reads).mpr ⟨tasks, rfl, rfl⟩
  | branchList => cases given
  | reviewerList => cases given
  | rung =>
      obtain ⟨rung, -, rfl⟩ := Option.map_eq_some_iff.mp given
      rw [typed, typedText_eq_ok, text_same]
      exact congrArg (Option.map Setting.rung) (parse_rung rung)
  | onProtected =>
      obtain ⟨value, -, rfl⟩ := Option.map_eq_some_iff.mp given
      rw [typed, typedText_eq_ok, text_same]
      exact congrArg (Option.map Setting.onProtected) (parse_onProtected value)
  | _ =>
      have text_eq : (tomlValue setting : Plain Decimal Date).asStr = some text := by
        rw [convert] at given
        split at given
        all_goals cases given
        rfl
      rw [typed, typedText_eq_ok, text_same, text_eq]
      exact given

end Baley.Config
