import Baley.Config.Rewritten

/-!
# What a set asks for

The pairs a set is given, judged, held once and cut to those its file does not hold, and the file that is read
back after it: every setting given holds the last value given, and every other what it held.
-/

namespace Baley.Config

variable {reader : Reader} {schema : Schema} {layer : FileLayer} {Decimal Date : Type}

/-! ## The pairs judged -/

theorem judgeEach_eq_ok {α β ε : Type} {judge : α → Except ε β} {items : List α} {judged : List β} :
    judgeEach judge items = .ok judged ↔ List.Forall₂ (fun item out => judge item = .ok out) items judged := by
  induction items generalizing judged with
  | nil =>
      rw [judgeEach, Except.ok.injEq, List.forall₂_nil_left_iff]
      exact eq_comm
  | cons item items ih =>
      rw [judgeEach, Except.bind_eq_ok]
      simp only [Except.bind_eq_ok, Except.ok.injEq, ih, List.forall₂_cons_left_iff]
      constructor
      · rintro ⟨out, given, outs, rest, rfl⟩
        exact ⟨out, outs, given, rest, rfl⟩
      · rintro ⟨out, outs, given, rest, rfl⟩
        exact ⟨out, given, outs, rest, rfl⟩

/-- A pair given, and what it is judged as. -/
structure JudgedAs (schema : Schema) (layer : FileLayer) (host : Option Host) (entry : Entry) (given : String × String)
    (pair : TypedPair) : Prop where
  entry_mem : entry ∈ schema.entries
  named : entry.name = given.1
  admitted : excludes entry.scope layer = false
  converted : ∃ value, convert entry.kind given.2 = some value ∧ pair = { name := entry.name, host, value }

theorem judgedAs_of_steps {host : Option Host} {given : String × String} {entry : Entry × String × String}
    (known : knownSetting schema given = .ok entry) {done : Unit} (admits : admitted layer entry = .ok done)
    {pair : TypedPair} (converts : converted host entry = .ok pair) : JudgedAs schema layer host entry.1 given pair := by
  rw [knownSetting] at known
  cases found : schema.get given.1 with
  | none => rw [found] at known; cases known
  | some held =>
      rw [found] at known
      cases known
      refine ⟨List.mem_of_find?_eq_some found, by simpa using List.find?_some found, ?_, ?_⟩
      · rw [admitted] at admits
        split at admits
        · cases admits
        · rename_i admitted
          exact Bool.not_eq_true _ ▸ admitted
      · rw [converted] at converts
        cases value : convert held.kind given.2 with
        | none => simp [value] at converts
        | some value' =>
            rw [value] at converts
            cases converts
            exact ⟨value', rfl, rfl⟩

/-- Every pair given is judged as one that may be written. -/
theorem judgePairs_eq_ok {inProject : Bool} {host : Option Host} {given : List (String × String)}
    {typed : List TypedPair} (judged : judgePairs schema layer inProject host given = .ok typed) :
    List.Forall₂ (fun given pair => ∃ entry, JudgedAs schema layer host entry given pair) given typed := by
  rw [judgePairs] at judged
  split at judged
  · cases judged
  · obtain ⟨entries, known, judged⟩ := Except.bind_eq_ok.mp judged
    obtain ⟨_, -, judged⟩ := Except.bind_eq_ok.mp judged
    obtain ⟨admits, admitted, judged⟩ := Except.bind_eq_ok.mp judged
    rw [judgeEach_eq_ok] at known admitted judged
    clear * - known admitted judged
    induction known generalizing admits typed with
    | nil =>
        cases judged
        exact .nil
    | cons known _ ih =>
        cases admitted with
        | cons admits admitted =>
            cases judged with
            | cons converts judged => exact .cons ⟨_, judgedAs_of_steps known admits converts⟩ (ih _ admitted judged)

/-- The last value given for a setting. -/
def lastGiven (entry : Entry) : List (String × String) → Option Setting
  | [] => none
  | given :: rest => (lastGiven entry rest).or (if given.1 = entry.name then convert entry.kind given.2 else none)

/-- What a set is given for a setting at the top level or in a host's section. -/
def givenFor (host : Option Host) (given : List (String × String)) (entry : Entry) (place : Option Host) :
    Option Setting :=
  if place = host then lastGiven entry given else none

/-- The pairs judged ask for what was given. -/
theorem asked_judged {host : Option Host} {given : List (String × String)} {typed : List TypedPair}
    (judged : List.Forall₂ (fun given pair => ∃ entry, JudgedAs schema layer host entry given pair) given typed)
    {entry : Entry} (entry_mem : entry ∈ schema.entries) (place : Option Host) :
    asked entry.name place typed = givenFor host given entry place := by
  induction judged with
  | nil => rw [givenFor]; split <;> rfl
  | @cons first pair rest typed head _ ih =>
      obtain ⟨other, head⟩ := head
      obtain ⟨value, converts, rfl⟩ := head.converted
      rw [asked, ih, givenFor, givenFor, lastGiven]
      by_cases at_place : place = host
      · subst at_place
        by_cases at_name : other.name = entry.name
        · obtain rfl := schema.entry_eq head.entry_mem entry_mem at_name
          simp [head.named, converts]
        · simp [← head.named, at_name]
      · simp [at_place, Ne.symm at_place]

/-! ## Pairs held once -/

def TypedPair.key (pair : TypedPair) : String × Option Host := (pair.name, pair.host)

/-- No two pairs are of one setting in one section. -/
def Once (pairs : List TypedPair) : Prop := (pairs.map TypedPair.key).Nodup

theorem asked_eq_none {name : String} {host : Option Host} {pairs : List TypedPair}
    (absent : (name, host) ∉ pairs.map TypedPair.key) : asked name host pairs = none := by
  cases asks : asked name host pairs with
  | none => rfl
  | some value =>
      obtain ⟨pair, pair_mem, rfl, rfl, -⟩ := mem_of_asked asks
      exact absurd (List.mem_map_of_mem pair_mem) absent

theorem asked_of_mem {pairs : List TypedPair} (once : Once pairs) {pair : TypedPair} (pair_mem : pair ∈ pairs) :
    asked pair.name pair.host pairs = some pair.value := by
  induction pairs with
  | nil => cases pair_mem
  | cons head pairs ih =>
      obtain ⟨head_once, rest_once⟩ := List.nodup_cons.mp once
      rw [asked]
      rcases List.mem_cons.mp pair_mem with rfl | pair_mem
      · rw [asked_eq_none head_once, Option.none_or, if_pos ⟨rfl, rfl⟩]
      · rw [ih rest_once pair_mem, Option.some_or]

theorem keys_holdPair_of_mem {held : List TypedPair} {pair : TypedPair} (again : pair.key ∈ held.map TypedPair.key) :
    (holdPair held pair).map TypedPair.key = held.map TypedPair.key := by
  induction held with
  | nil => cases again
  | cons earlier held ih =>
      rw [holdPair]
      split
      · rfl
      · rename_i other
        rw [List.map_cons, List.map_cons, ih]
        refine (List.mem_cons.mp again).resolve_left fun same => other ?_
        exact ⟨(congrArg Prod.fst same).symm, (congrArg Prod.snd same).symm⟩

theorem holdPair_of_notMem {held : List TypedPair} {pair : TypedPair} (first : pair.key ∉ held.map TypedPair.key) :
    holdPair held pair = held ++ [pair] := by
  induction held with
  | nil => rfl
  | cons earlier held ih =>
      rw [List.map_cons, List.mem_cons, not_or] at first
      rw [holdPair, if_neg, ih first.2]
      · rfl
      · exact fun same => first.1 (Prod.ext same.1.symm same.2.symm)

theorem Once.holdPair {held : List TypedPair} (once : Once held) (pair : TypedPair) : Once (holdPair held pair) := by
  by_cases again : pair.key ∈ held.map TypedPair.key
  · rw [Once, keys_holdPair_of_mem again]
    exact once
  · rw [Once, holdPair_of_notMem again, List.map_append]
    exact List.nodup_append.mpr ⟨once, List.nodup_singleton _, by simpa using again⟩

theorem mem_holdPair {held : List TypedPair} {pair other : TypedPair} (other_mem : other ∈ holdPair held pair) :
    other ∈ held ∨ other = pair := by
  induction held with
  | nil => exact .inr (List.mem_singleton.mp other_mem)
  | cons earlier held ih =>
      rw [Config.holdPair] at other_mem
      split at other_mem
      · rename_i again
        rcases List.mem_cons.mp other_mem with rfl | other_mem
        · right
          rw [again.1, again.2]
        · exact .inl (List.mem_cons_of_mem _ other_mem)
      · rcases List.mem_cons.mp other_mem with rfl | other_mem
        · exact .inl List.mem_cons_self
        · exact (ih other_mem).imp_left (List.mem_cons_of_mem _)

theorem asked_append (name : String) (host : Option Host) (front back : List TypedPair) :
    asked name host (front ++ back) = (asked name host back).or (asked name host front) := by
  induction front with
  | nil => simp [asked]
  | cons pair front ih => rw [List.cons_append, asked, ih, asked, Option.or_assoc]

/-- A pair held asks for its own value, and the rest ask for what they did. -/
theorem asked_holdPair {held : List TypedPair} (once : Once held) (pair : TypedPair) (name : String)
    (host : Option Host) :
    asked name host (holdPair held pair) =
      (if pair.name = name ∧ pair.host = host then some pair.value else none).or (asked name host held) := by
  by_cases again : pair.key ∈ held.map TypedPair.key
  · induction held with
    | nil => cases again
    | cons earlier held ih =>
        obtain ⟨head_once, rest_once⟩ := List.nodup_cons.mp once
        rw [Config.holdPair]
        split
        · rename_i same
          rw [asked, asked]
          by_cases here : pair.name = name ∧ pair.host = host
          · have alone : asked name host held = none := by
              apply asked_eq_none
              rw [← here.1, ← here.2, ← same.1, ← same.2]
              exact head_once
            rw [alone, if_pos here, if_pos ⟨same.1.trans here.1, same.2.trans here.2⟩]
            rfl
          · have elsewhere : ¬ (earlier.name = name ∧ earlier.host = host) :=
              fun at_earlier => here ⟨same.1.symm.trans at_earlier.1, same.2.symm.trans at_earlier.2⟩
            rw [if_neg here, if_neg elsewhere, if_neg elsewhere, Option.none_or]
        · rename_i other
          have later : pair.key ∈ held.map TypedPair.key := (List.mem_cons.mp again).resolve_left
            fun same => other ⟨(congrArg Prod.fst same).symm, (congrArg Prod.snd same).symm⟩
          rw [asked, ih rest_once later, asked, Option.or_assoc]
  · rw [holdPair_of_notMem again, asked_append]
    rfl

theorem once_nil : Once [] := List.nodup_nil

/-- Pairs held once ask for what the pairs given ask for. -/
theorem asked_collapse {held pairs : List TypedPair} (once : Once held) (name : String) (host : Option Host) :
    Once (pairs.foldl holdPair held) ∧
      asked name host (pairs.foldl holdPair held) = (asked name host pairs).or (asked name host held) := by
  induction pairs generalizing held with
  | nil => exact ⟨once, rfl⟩
  | cons pair pairs ih =>
      obtain ⟨collapsed_once, collapsed⟩ := ih (once.holdPair pair)
      refine ⟨collapsed_once, ?_⟩
      rw [List.foldl_cons, collapsed, asked_holdPair once, asked, Option.or_assoc]

theorem once_collapseRepeats (pairs : List TypedPair) : Once (collapseRepeats pairs) :=
  (@asked_collapse [] pairs once_nil "" none).1

theorem asked_collapseRepeats (pairs : List TypedPair) (name : String) (host : Option Host) :
    asked name host (collapseRepeats pairs) = asked name host pairs := by
  rw [collapseRepeats, (asked_collapse once_nil name host).2]
  exact Option.or_none

theorem mem_collapse {held pairs : List TypedPair} {pair : TypedPair} (pair_mem : pair ∈ pairs.foldl holdPair held) :
    pair ∈ held ∨ pair ∈ pairs := by
  induction pairs generalizing held with
  | nil => exact .inl pair_mem
  | cons first pairs ih =>
      rcases ih pair_mem with pair_mem | pair_mem
      · refine (mem_holdPair pair_mem).imp_right ?_
        rintro rfl
        exact List.mem_cons_self
      · exact .inr (List.mem_cons_of_mem _ pair_mem)

/-! ## Pairs held already -/

/-- A layer holds the value of any of its writes. -/
theorem settingOf_of_mem (apart : schema.Apart) {base : Option SettingsFile} {parsed : ParsedLayer}
    (accepted : parseFile reader schema layer base = .ok (some parsed)) {written : Written}
    (written_mem : written ∈ parsed.values) {entry : Entry} (entry_mem : entry ∈ schema.entries)
    (named : written.name = entry.name) : settingOf (some parsed) entry.name written.host = some written.value := by
  cases base with
  | none => cases accepted
  | some file =>
      obtain ⟨_, accepted, same⟩ := Except.map_eq_ok.mp accepted
      cases same
      rw [settingOf, Option.bind_some, setting_eq_writes apart accepted entry_mem,
        (writes_eq_some apart accepted entry_mem written.host written).mpr ⟨written_mem, named, rfl⟩]
      rfl

/-- A pair that is no change is held. -/
theorem settingOf_of_held (apart : schema.Apart) {base : Option SettingsFile} {current : Option ParsedLayer}
    (accepted : parseFile reader schema layer base = .ok current) {pairs : List TypedPair} {pair : TypedPair}
    (pair_mem : pair ∈ pairs) (held : pair ∉ changedPairs current pairs) {entry : Entry}
    (entry_mem : entry ∈ schema.entries) (named : pair.name = entry.name) :
    settingOf current entry.name pair.host = some pair.value := by
  rw [changedPairs, List.mem_filter, not_and, Bool.not_eq_true', Bool.not_eq_false] at held
  obtain ⟨parsed, rfl, any⟩ := (Option.any_eq_true _ _).mp (held pair_mem)
  obtain ⟨written, written_mem, same⟩ := List.any_eq_true.mp any
  simp only [Bool.and_eq_true, decide_eq_true_eq] at same
  obtain ⟨⟨same_name, at_host⟩, same_value⟩ := same
  rw [← at_host, ← same_value]
  exact settingOf_of_mem apart accepted written_mem entry_mem (same_name.trans named)

/-- The pairs a file does not hold ask, over what it holds, for what all of them ask. -/
theorem asked_changedPairs (apart : schema.Apart) {base : Option SettingsFile} {current : Option ParsedLayer}
    (accepted : parseFile reader schema layer base = .ok current) {pairs : List TypedPair} (once : Once pairs)
    {entry : Entry} (entry_mem : entry ∈ schema.entries) (host : Option Host) :
    (asked entry.name host (changedPairs current pairs)).or (settingOf current entry.name host) =
      (asked entry.name host pairs).or (settingOf current entry.name host) := by
  cases asks : asked entry.name host pairs with
  | none =>
      cases changed : asked entry.name host (changedPairs current pairs) with
      | none => rfl
      | some value =>
          obtain ⟨pair, pair_mem, named, at_host, -⟩ := mem_of_asked changed
          have given := asked_of_mem once (List.mem_of_mem_filter pair_mem)
          rw [named, at_host, asks] at given
          cases given
  | some value =>
      obtain ⟨pair, pair_mem, named, rfl, rfl⟩ := mem_of_asked asks
      by_cases change : pair ∈ changedPairs current pairs
      · have changed_once : Once (changedPairs current pairs) := List.Nodup.sublist (List.filter_sublist.map _) once
        rw [← named, asked_of_mem changed_once change]
      · rw [settingOf_of_held apart accepted pair_mem change entry_mem named]
        cases changed : asked entry.name pair.host (changedPairs current pairs) with
        | none => rfl
        | some value =>
            obtain ⟨other, other_mem, other_named, at_host, rfl⟩ := mem_of_asked changed
            have given := asked_of_mem once (List.mem_of_mem_filter other_mem)
            rw [other_named, at_host, asks] at given
            rw [Option.some_or, ← given, Option.some_or]

/-! ## The file after a set -/

/-- The file a set leaves: what it was, or what its table is written out as. -/
def Library.leaves (library : Library reader Decimal Date) (path digest : String) (base : Option SettingsFile) :
    Option (Table Decimal Date) → Option SettingsFile
  | none => base
  | some table => some { path, bytes := library.bytes table, digest }

variable {library : Library reader Decimal Date} {inProject : Bool} {host : Option Host}
  {accepted : Host → Option (List String)} {base : Option SettingsFile} {given : List (String × String)}
  {outcome : Option (Table Decimal Date)}

/-- What a set that goes through does. -/
structure WentThrough (library : Library reader Decimal Date) (schema : Schema) (layer : FileLayer) (inProject : Bool)
    (host : Option Host) (accepted : Host → Option (List String)) (base : Option SettingsFile)
    (given : List (String × String)) (outcome : Option (Table Decimal Date)) (current : Option ParsedLayer)
    (typed : List TypedPair) : Prop where
  judged : judgePairs schema layer inProject host given = .ok typed
  parsed : parseFile reader schema layer base = .ok current
  models : judgeModels host accepted typed = .ok ()
  outcome_eq : (changedPairs current (collapseRepeats typed) = [] ∧ outcome = none) ∨
    ∃ table, renderTable library schema layer base (changedPairs current (collapseRepeats typed)) = .ok table ∧
      outcome = some table

theorem configSet_eq_ok
    (went_through : configSet library schema layer inProject host accepted base given = .ok outcome) :
    ∃ current typed, WentThrough library schema layer inProject host accepted base given outcome current typed := by
  rw [configSet] at went_through
  obtain ⟨typed, judged, went_through⟩ := Except.bind_eq_ok.mp went_through
  obtain ⟨current, parsed, went_through⟩ := Except.bind_eq_ok.mp went_through
  obtain ⟨_, models, went_through⟩ := Except.bind_eq_ok.mp went_through
  refine ⟨current, typed, Except.mapError_eq_ok.mp judged, Except.mapError_eq_ok.mp parsed,
    Except.mapError_eq_ok.mp models, ?_⟩
  dsimp only at went_through
  split at went_through
  · rename_i unchanged
    cases went_through
    exact .inl ⟨unchanged, rfl⟩
  · obtain ⟨table, rendered, rfl⟩ := Except.map_eq_ok.mp went_through
    exact .inr ⟨table, Except.mapError_eq_ok.mp rendered, rfl⟩

namespace WentThrough

variable {current : Option ParsedLayer} {typed : List TypedPair}

theorem writable (set : WentThrough library schema layer inProject host accepted base given outcome current typed) :
    ∀ pair ∈ collapseRepeats typed, Writable schema layer pair := by
  have each : ∀ pair ∈ typed, Writable schema layer pair := by
    have judged := judgePairs_eq_ok set.judged
    clear set
    induction judged with
    | nil => simp
    | @cons first pair rest typed head _ ih =>
        intro other other_mem
        rcases List.mem_cons.mp other_mem with rfl | other_mem
        · obtain ⟨entry, head⟩ := head
          obtain ⟨value, converts, rfl⟩ := head.converted
          exact ⟨entry, head.entry_mem, rfl, head.admitted, first.2, converts⟩
        · exact ih other other_mem
  exact fun pair pair_mem => each pair ((mem_collapse pair_mem).resolve_left List.not_mem_nil)

theorem asks (set : WentThrough library schema layer inProject host accepted base given outcome current typed) {entry : Entry}
    (entry_mem : entry ∈ schema.entries) (place : Option Host) :
    asked entry.name place (collapseRepeats typed) = givenFor host given entry place := by
  rw [asked_collapseRepeats, asked_judged (judgePairs_eq_ok set.judged) entry_mem]

/-- After a set, each setting given holds the last value given, and the others hold what they did. -/
theorem reads (apart : schema.Apart)
    (set : WentThrough library schema layer inProject host accepted base given outcome current typed)
    (prints : ∀ table, outcome = some table → library.Prints table) (path digest : String) :
    ∃ parsed, parseFile reader schema layer (library.leaves path digest base outcome) = .ok parsed ∧
      ∀ entry ∈ schema.entries, ∀ place, settingOf parsed entry.name place =
        (givenFor host given entry place).or (settingOf current entry.name place) := by
  have same := fun entry entry_mem =>
    @asked_changedPairs _ _ _ apart _ _ set.parsed _ (once_collapseRepeats typed) entry entry_mem
  rcases set.outcome_eq with ⟨unchanged, rfl⟩ | ⟨table, rendered, rfl⟩
  · refine ⟨current, set.parsed, fun entry entry_mem place => ?_⟩
    rw [← set.asks entry_mem, ← same entry entry_mem, unchanged]
    rfl
  · obtain ⟨before, held, -, based, rfl⟩ := based_of_renderTable apart library set.parsed rendered
    have writable : ∀ pair ∈ changedPairs current (collapseRepeats typed), Writable schema layer pair :=
      fun pair pair_mem => set.writable pair (List.mem_of_mem_filter pair_mem)
    obtain ⟨parsed, parses, holds⟩ := parseLayer_rendered apart library based writable (prints _ rfl) path digest
    refine ⟨some parsed, ?_, fun entry entry_mem place => ?_⟩
    · rw [Library.leaves, parseFile, parses]
      rfl
    · rw [settingOf, Option.bind_some, holds entry entry_mem, same entry entry_mem, set.asks entry_mem]

end WentThrough

/-- A file with a capacity in it, as the library prints it. -/
def printedText : String := "[planning]\nphase_capacity = 3\n"

def printedEntries : List (Key × Toml) :=
  [({ name := "planning", start := 1, valueStart := 0 }, .table
    [({ name := "phase_capacity", start := 11, valueStart := 28 }, .integer 10 "3")])]

/-- A reader of that file alone. -/
def printedReader : Reader where
  read text := if text = printedText then .ok printedEntries else .error { start := none, message := "not read" }
  named_once := by
    intro text entries read_ok
    split at read_ok
    · cases read_ok
      exact .one _ (.one _ (.leaf (by simp)))
    · cases read_ok

theorem fits_three : Fits 3 := by
  rw [Fits]
  omega

def printedTable : Table Empty Empty := [("planning", .table [("phase_capacity", .integer 3 fits_three)])]

def printedScalars : Scalars Empty Empty where
  decimal _ := none
  date _ := none

theorem denotes_one {scalars : Scalars Decimal Date} (key : Key) {toml : Toml} {value : Plain Decimal Date}
    (same : Denotes scalars toml value) : Denotes scalars (.table [(key, toml)]) (.table [(key.name, value)]) := by
  apply Denotes.table
  · intro name
    by_cases here : key.name = name
    · simp [entryOf, Table.get, here]
    · simp [entryOf, Table.get, here]
  · intro name entry value' held holds
    obtain ⟨entry_mem, rfl⟩ := mem_of_entryOf held
    obtain rfl := List.mem_singleton.mp entry_mem
    have only : Table.get key.name [(key.name, value)] = some value := by simp [Table.get]
    exact Option.some.inj (only.symm.trans holds) ▸ same

theorem denotes_printed : Denotes printedScalars (.table printedEntries) (.table printedTable) :=
  denotes_one _ (denotes_one _ (.integer (by decide) fits_three))

def printedLibrary : Library printedReader Empty Empty where
  toScalars := printedScalars
  table text := if text = printedText then .ok printedTable else .error { start := none, message := "not read" }
  print _ := printedText
  table_reads := by
    intro text entries members read_ok table_ok
    split at table_ok
    · rename_i at_text
      obtain rfl : printedEntries = entries := by simpa [printedReader, at_text] using read_ok
      cases table_ok
      exact denotes_printed
    · cases table_ok

theorem configSet_printed :
    configSet printedLibrary Schema.standard .global false none (fun _ => none) none [("planning.phase_capacity", "3")] =
      .ok (some printedTable) := by
  rfl

/-- After a set, the file is read with the last value given for each setting given, and with what it held for the
others. -/
theorem configSet_reads (apart : schema.Apart)
    (went_through : configSet library schema layer inProject host accepted base given = .ok outcome)
    (prints : ∀ table, outcome = some table → library.Prints table) (path digest : String) :
    ∃ current parsed, parseFile reader schema layer base = .ok current ∧
      parseFile reader schema layer (library.leaves path digest base outcome) = .ok parsed ∧
      ∀ entry ∈ schema.entries, ∀ place, settingOf parsed entry.name place =
        (givenFor host given entry place).or (settingOf current entry.name place) := by
  obtain ⟨current, typed, set⟩ := configSet_eq_ok went_through
  obtain ⟨parsed, parses, holds⟩ := set.reads apart prints path digest
  exact ⟨current, parsed, set.parsed, parses, holds⟩

theorem prints_printed : printedLibrary.Prints printedTable :=
  ⟨printedEntries, by simp [printedLibrary, printedReader], denotes_printed⟩

theorem configSet_reads_printed :
    ∃ current parsed, parseFile printedReader Schema.standard .global none = .ok current ∧
      parseFile printedReader Schema.standard .global (printedLibrary.leaves "config.toml" "" none (some printedTable)) =
        .ok parsed ∧
      ∀ entry ∈ Schema.standard.entries, ∀ place, settingOf parsed entry.name place =
        (givenFor none [("planning.phase_capacity", "3")] entry place).or (settingOf current entry.name place) :=
  configSet_reads apart_standard configSet_printed (fun _ same => Option.some.inj same ▸ prints_printed) _ _

theorem mem_of_settingOf {parsed : Option ParsedLayer} {name : String} {place : Option Host} {value : Setting}
    (holds : settingOf parsed name place = some value) :
    ∃ layer, parsed = some layer ∧ ∃ written ∈ layer.values, written.name = name ∧ written.host = place ∧
      written.value = value := by
  obtain ⟨layer, rfl, holds⟩ := Option.bind_eq_some_iff.mp holds
  obtain ⟨written, found, rfl⟩ := Option.map_eq_some_iff.mp holds
  have named := List.find?_some found
  simp only [Bool.and_eq_true, decide_eq_true_eq] at named
  exact ⟨layer, rfl, written, List.mem_of_find?_eq_some found, named.1, named.2, rfl⟩

/-- Setting the same values again writes nothing. -/
theorem configSet_again (apart : schema.Apart)
    (went_through : configSet library schema layer inProject host accepted base given = .ok outcome)
    (prints : ∀ table, outcome = some table → library.Prints table) (path digest : String) :
    configSet library schema layer inProject host accepted (library.leaves path digest base outcome) given =
      .ok none := by
  obtain ⟨current, typed, set⟩ := configSet_eq_ok went_through
  obtain ⟨parsed, parses, holds⟩ := set.reads apart prints path digest
  have unchanged : changedPairs parsed (collapseRepeats typed) = [] := by
    rw [changedPairs, List.filter_eq_nil_iff]
    intro pair pair_mem
    obtain ⟨entry, entry_mem, named, -⟩ := set.writable pair pair_mem
    have asks := asked_of_mem (once_collapseRepeats typed) pair_mem
    have held := holds entry entry_mem pair.host
    rw [← set.asks entry_mem, ← named, asks, Option.some_or] at held
    obtain ⟨layer, rfl, written, written_mem, same_name, same_host, same_value⟩ := mem_of_settingOf held
    have held : (layer.values.any fun written =>
        written.name = pair.name && written.host = pair.host && written.value = pair.value) = true :=
      List.any_eq_true.mpr ⟨written, written_mem, by simp [same_name, same_host, same_value]⟩
    simp only [Option.any_some, held]
    exact Bool.false_ne_true
  rw [configSet, set.judged, parses]
  simp only [Except.mapError, bind, Except.bind, set.models, unchanged, if_true]

theorem configSet_again_printed :
    configSet printedLibrary Schema.standard .global false none (fun _ => none)
      (printedLibrary.leaves "config.toml" "" none (some printedTable)) [("planning.phase_capacity", "3")] = .ok none :=
  configSet_again apart_standard configSet_printed (fun _ same => Option.some.inj same ▸ prints_printed) _ _

end Baley.Config
