import Baley.Install.Kept

/-!
# What the settings decision does to the owner's document

When it is no refusal, every part of the document it would write is either the owner's, in its place, or an
entry of Baley's that the owner's document lacked, and every owner value replaced is reported.  Decided
again with a record that shows nothing in it to be older, that document needs no write.
-/

namespace Baley.Install

open Json

/-! ## What an accepted decision is -/

/-- The conflicts that refuse a decision. -/
def Conflict.refuses : Conflict → Bool
  | .notComposable _ | .otherGuardHook _ | .otherRegistration _ => true
  | _ => false

theorem isSome_refusal (file : String) (conflict : Conflict) :
    (refusal file conflict).isSome = conflict.refuses := by
  cases conflict <;> rfl

theorem refusals_eq_nil (file : String) {conflicts : List Conflict} :
    conflicts.filterMap (refusal file) = [] ↔ ∀ conflict ∈ conflicts, conflict.refuses = false := by
  simp only [List.filterMap_eq_nil_iff, ← isSome_refusal file, Option.isSome_eq_false_iff,
    Option.isNone_iff_eq_none]

/-- What an accepted decision is made of. -/
structure Accepted (input : Input) (decision : Decision) : Prop where
  folders : input.folders.home.utf8 = true ∧ input.folders.config.utf8 = true
  unrefused : ∀ conflict ∈ (composed input).conflicts, conflict.refuses = false
  read : decision.read = input.current.document
  document : decision.document = (composed input).document
  replaced : decision.replaced = (composed input).conflicts.filterMap replacedOf
  bytes : decision.bytes =
    if (composed input).document.same input.current.document then none
    else some (utf8 (prettyText 0 (composed input).document) ++ [0x0a])
  linked : input.current.symbolicLink = true → decision.bytes = none

theorem not_utf8_eq_nil (folders : Folders) :
    ([folders.home, folders.config].filter fun folder => !folder.utf8) = [] ↔
      folders.home.utf8 = true ∧ folders.config.utf8 = true := by
  simp [List.filter_eq_nil_iff]

/-- The decision is accepted exactly when the folders are UTF-8, nothing composed refuses it, and a link
needs no write. -/
theorem judge_ok_iff {input : Input} :
    (∃ decision, judge input = .ok decision) ↔
      (input.folders.home.utf8 = true ∧ input.folders.config.utf8 = true) ∧
        (∀ conflict ∈ (composed input).conflicts, conflict.refuses = false) ∧
        (input.current.symbolicLink = true →
          (composed input).document.same input.current.document = true) := by
  rw [judge, ← not_utf8_eq_nil, ← refusals_eq_nil input.path.shown]
  dsimp only
  split
  next not_utf8 => simp [not_utf8]
  next utf8 =>
    split
    next refusals => simp [refusals]
    next unrefused =>
      rw [not_not] at utf8 unrefused
      cases (composed input).document.same input.current.document <;>
        cases input.current.symbolicLink <;> simp [utf8, unrefused]

theorem judge_ok {input : Input} {decision : Decision}
    (ok : judge input = .ok decision) : Accepted input decision := by
  obtain ⟨utf8, unrefused, linked⟩ := judge_ok_iff.mp ⟨decision, ok⟩
  rw [judge, if_neg (not_not.mpr ((not_utf8_eq_nil _).mpr utf8))] at ok
  dsimp only at ok
  rw [if_neg (not_not.mpr ((refusals_eq_nil _).mpr unrefused))] at ok
  split at ok
  next => cases ok
  next =>
    cases ok
    refine ⟨utf8, unrefused, rfl, rfl, rfl, ?_, ?_⟩
    · cases (composed input).document.same input.current.document <;> rfl
    · intro link
      dsimp only
      rw [linked link]
      rfl

/-- A document that is no object refuses the decision. -/
theorem removed_object {input : Input} (unrefused : ∀ conflict ∈ (composed input).conflicts, conflict.refuses = false) :
    ∃ members, removed input = .object members := by
  cases shape : removed input with
  | object members => exact ⟨members, rfl⟩
  | _ =>
      have unkept : Conflict.notComposable "" ∈ (composed input).conflicts := by
        rw [composed, compose, oursToCompose, proposalOf, settings_ours, shape]
        cases input.wire <;> simp [merge, renderHook]
      exact absurd (unrefused _ unkept) (by simp [Conflict.refuses])

/-- The parts of an accepted decision all fit. -/
theorem fits_of_unrefused {input : Input}
    (unrefused : ∀ conflict ∈ (composed input).conflicts, conflict.refuses = false) :
    Fits (removed input) (.object (ourEntries input)) := by
  obtain ⟨members, object⟩ := removed_object unrefused
  refine fits_of_conflicts "" (isJson_ourEntries input) (serverless_ourEntries input)
    fun at_key unkept => ?_
  have conflict_mem : Conflict.notComposable at_key ∈ (composed input).conflicts := by
    rw [composed_eq object]
    exact List.mem_append_left _ unkept
  exact absurd (unrefused _ conflict_mem) (by simp [Conflict.refuses])

/-! ## The owner's document -/

/-- What every accepted decision keeps of the document read. -/
structure Kept (input : Input) (decision : Decision) : Prop where
  /-- Apart from where Baley's entries lie, every part is the one read. -/
  apart : ∀ names, (∀ path ∈ entryPaths input.heldBack.isSome, Value.Apart path names) →
    decision.document.under names = decision.read.under names
  /-- What is no object is kept, but for the lists and what the switches replace. -/
  flat : ∀ names held, decision.read.under names = some held → held.asObject = none →
    (∀ owned ∈ ownedLists input, names ≠ owned.pointer) →
    (input.heldBack = none → ∀ switch ∈ switches, ¬switch.1 <+: names) →
      decision.document.under names = some held
  /-- An object keeps its names in their places, and gains at the end those of Baley's it lacked. -/
  object : ∀ names members, decision.read.under names = some (.object members) →
    (input.heldBack = none → ∀ switch ∈ switches, ¬switch.1 <+: names) →
      ∃ members', decision.document.under names = some (.object members') ∧
        Members.names members' = Members.names members ++
          (namesOf (Value.under names (.object (ourEntries input)))).filter fun name =>
            name ∉ Members.names members
  /-- A list loses what the record shows to be older, and gains at the end, each once, the items of Baley's
  that it had nothing the same as. -/
  listed : ∀ owned ∈ ownedLists input, ∀ items, decision.read.under owned.pointer = some (.array items) →
    ∃ fresh,
      decision.document.under owned.pointer = some (.array (items.filter owned.stays ++ fresh)) ∧
      fresh.Sublist owned.ours ∧
      (∀ item ∈ fresh, ∀ held ∈ items.filter owned.stays, held.same item = false) ∧
      (fresh.Pairwise fun first second => first.same second = false) ∧
      ∀ item ∈ owned.ours, (items.filter owned.stays ++ fresh).any (·.same item) = true
  /-- What was absent is what Baley's entries hold there. -/
  absent : ∀ names, decision.read.under names = none →
    decision.document.under names = Value.under names (.object (ourEntries input))
  /-- Unless the sandbox is held back, each switch has its secure value. -/
  secure : input.heldBack = none → ∀ switch ∈ switches,
    decision.document.under switch.1 = some (.bool switch.2.2)
  /-- The values reported as replaced are the owner's other values at the switches. -/
  replaced : ∀ report, report ∈ decision.replaced ↔
    input.heldBack = none ∧ ∃ switch ∈ switches, report.key = switch.2.1 ∧
      decision.read.under switch.1 = some report.was ∧ report.was ≠ .bool switch.2.2

theorem asObject_of_leaf {value : Value} (leaf : isLeaf value = true) : value.asObject = none := by
  cases value with
  | object _ => cases leaf
  | _ => rfl

/-- The conflicts that leave the protection off. -/
def Conflict.isGap : Conflict → Bool
  | .disabled _ | .reopened .. | .unjudged .. | .excluded _ => true
  | _ => false

/-- What the scan can report. -/
theorem mem_scan {document : Value} {folders : Folders} {executable : String} {conflict : Conflict}
    (found : conflict ∈ scan document folders executable) :
    conflict.isGap = true ∨
      (∃ item ∈ guardItems document, item.same (hookItem executable) = false ∧ runsGuard item = true ∧
        conflict = .otherGuardHook item) ∨
      ∃ server, document.under ["mcpServers", "baley"] = some server ∧
        sameServer server (serverOf executable false) = false ∧ conflict = .otherRegistration server := by
  simp only [scan, otherGuards, List.mem_append, List.mem_filterMap, List.mem_map, List.mem_flatMap, List.mem_filter,
    Bool.and_eq_true, Bool.not_eq_true'] at found
  rcases found with
    ((((⟨switch, -, found⟩ | ⟨setting, -, found⟩) | ⟨item, ⟨item_mem, differs, runs⟩, rfl⟩) | found) |
      ⟨list, -, entry, -, found⟩) | ⟨entry, -, rfl⟩
  · left
    rw [insecure] at found
    split at found
    next => split_ifs at found; cases found; rfl
    next => cases found
  · left
    rw [turnedOn] at found
    split_ifs at found
    cases found
    rfl
  · exact .inr (.inl ⟨item, item_mem, differs, runs, rfl⟩)
  · right; right
    rw [otherServer] at found
    split at found
    next server server_eq =>
      split_ifs at found with same
      · cases found
      · exact ⟨server, server_eq, Bool.eq_false_iff.mpr same, List.mem_singleton.mp found⟩
    next => cases found
  · left
    rw [listConflict] at found
    split_ifs at found <;> cases found <;> rfl
  · exact .inl rfl

theorem otherGuardHook_mem_scan {document : Value} {folders : Folders} {executable : String} {item : Value}
    (item_mem : item ∈ guardItems document) (differs : item.same (hookItem executable) = false)
    (runs : runsGuard item = true) : .otherGuardHook item ∈ scan document folders executable := by
  have listed : Conflict.otherGuardHook item ∈ otherGuards document (hookItem executable) :=
    List.mem_map_of_mem (List.mem_filter.mpr ⟨item_mem, by rw [differs, runs]; rfl⟩)
  simp only [scan, List.mem_append]
  tauto

theorem otherRegistration_mem_scan {document : Value} {folders : Folders} {executable : String} {server : Value}
    (found : document.under ["mcpServers", "baley"] = some server)
    (differs : sameServer server (serverOf executable false) = false) :
    .otherRegistration server ∈ scan document folders executable := by
  have listed : Conflict.otherRegistration server ∈ otherServer document executable := by
    rw [otherServer, found]
    dsimp only
    rw [differs]
    exact List.mem_singleton_self _
  simp only [scan, List.mem_append]
  tauto

/-- Nothing the scan reports is a replaced value. -/
theorem replacedOf_scan {document : Value} {folders : Folders} {executable : String} :
    (scan document folders executable).filterMap replacedOf = [] := by
  rw [List.filterMap_eq_nil_iff]
  intro conflict conflict_mem
  rcases mem_scan conflict_mem with gap | ⟨item, -, -, -, rfl⟩ | ⟨server, -, -, rfl⟩
  · cases conflict <;> first | rfl | cases gap
  · rfl
  · rfl

/-- What merging reports as replaced: the held value under the names of a different leaf. -/
theorem mem_replaced_merge {target ours : Value} {key : String} (json : IsJson ours) (serverless : Serverless ours)
    {document : Value} {folders : Folders} {executable : String} {report : Replaced} :
    report ∈ ((merge target key ours).2 ++ scan document folders executable).filterMap replacedOf ↔
      ∃ names value, target.under names = some report.was ∧ ours.under names = some value ∧
        isLeaf value = true ∧ report.was.same value = false ∧ report.key = names.foldl dotted key := by
  rw [List.filterMap_append, replacedOf_scan, List.append_nil, List.mem_filterMap]
  constructor
  · rintro ⟨conflict, conflict_mem, report_eq⟩
    obtain ⟨names, held, value, held_eq, value_eq, clashed⟩ := (mem_conflicts_merge json serverless).mp conflict_mem
    rw [clash] at clashed
    split_ifs at clashed with unfit leaf
    · rw [List.mem_singleton.mp clashed] at report_eq
      cases report_eq
    · rw [List.mem_singleton.mp clashed] at report_eq
      cases report_eq
      exact ⟨names, value, held_eq, value_eq, leaf.1, leaf.2, rfl⟩
    · cases clashed
  · rintro ⟨names, value, held_eq, value_eq, leaf, differs, key_eq⟩
    refine ⟨.replaced report.key report.was, (mem_conflicts_merge json serverless).mpr ?_, rfl⟩
    refine ⟨names, report.was, value, held_eq, value_eq, ?_⟩
    rw [clash_leaf leaf, differs, key_eq]
    exact List.mem_singleton_self _

theorem judge_kept {input : Input} {decision : Decision} (ok : judge input = .ok decision) :
    Kept input decision := by
  have accepted := judge_ok ok
  obtain ⟨members, object⟩ := removed_object accepted.unrefused
  have fits := fits_of_unrefused accepted.unrefused
  have document : decision.document = written input := by
    rw [accepted.document, composed_eq object, written]
  have read : decision.read = input.current.document := accepted.read
  constructor
  case apart =>
    intro names apart
    rw [document, read, written_apart apart]
  case flat =>
    intro names held found flat no_list no_switch
    rw [read] at found
    rw [document, written_flat fits found flat no_list no_switch]
  case object =>
    intro names members found no_switch
    rw [read] at found
    rw [document]
    exact written_object fits found no_switch
  case listed =>
    intro owned owned_mem items found
    rw [read] at found
    obtain ⟨fresh, gained, sublist, unlike, distinct⟩ := foldl_gains (items.filter owned.stays) owned.ours
    refine ⟨fresh, ?_, sublist, unlike, distinct, ?_⟩
    · rw [document, written_listed owned_mem found, gained]
    · intro item item_mem
      rw [← gained]
      exact any_gained (isJson_owned owned_mem item item_mem) item_mem
  case absent =>
    intro names absent
    rw [read] at absent
    rw [document, written_absent fits absent]
  case secure =>
    intro composed_in switch switch_mem
    rw [document, written_switch fits composed_in switch_mem]
  case replaced =>
    intro report
    rw [accepted.replaced, composed_eq object, read,
      mem_replaced_merge (isJson_ourEntries input) (serverless_ourEntries input)]
    constructor
    · rintro ⟨names, value, held_eq, value_eq, leaf, differs, key_eq⟩
      rcases under_ourEntries_flat value_eq (asObject_of_leaf leaf) with
        ⟨composed_in, switch, switch_mem, rfl, rfl⟩ | ⟨owned, -, -, rfl⟩
      · refine ⟨composed_in, switch, switch_mem, key_eq.trans (foldl_dotted_switch switch_mem), ?_, ?_⟩
        · rw [← removed_switch switch_mem, held_eq]
        · rintro was_eq
          rw [was_eq, Value.same_self (.bool _)] at differs
          cases differs
      · cases leaf
    · rintro ⟨composed_in, switch, switch_mem, key_eq, held_eq, differs⟩
      refine ⟨switch.1, .bool switch.2.2, (removed_switch switch_mem).trans held_eq,
        under_switch composed_in switch_mem, rfl, ?_, key_eq.trans (foldl_dotted_switch switch_mem).symm⟩
      rw [Bool.eq_false_iff]
      exact fun same => differs (Value.same_bool_iff.mp same)

/-- An owner's settings with rules and a switch of their own, and an older rule of Baley's. -/
def ownedInput : Input where
  path := ⟨"/o/s.json", true⟩
  current :=
    { document := .object
        [("model", .string "m"), ("sandbox", .object [("enabled", .bool false), ("network", .null)]),
          ("permissions", .object [("deny", .array [.string "Read(/x)", .string "Edit(//old)"])])]
      symbolicLink := false
      readDigest := none }
  latest := some (.object [("sandbox", .object [("permissions_deny", .array [.string "Edit(//old)"])])])
  placements := ⟨"/b", [], []⟩
  folders := ⟨⟨"/h", true⟩, ⟨"/c", true⟩⟩
  heldBack := none
  wire := true

theorem judge_kept_ownedInput : ∃ decision, judge ownedInput = .ok decision ∧ Kept ownedInput decision :=
  ⟨_, rfl, judge_kept rfl⟩

/-! ## When it is a refusal -/

/-- What is composed in, and what it reports, as one merge. -/
theorem composed_written {input : Input} {members : Members}
    (document_eq : input.current.document = .object members) :
    (composed input).document = written input ∧
      (composed input).conflicts =
        (merge (removed input) "" (.object (ourEntries input))).2 ++
          scan (written input) input.folders input.placements.executable := by
  have whole : input.current.document.under [] = some (.object members) := congrArg some document_eq
  obtain ⟨members', found, -⟩ := under_retainEach_of_object (ownedLists input) whole
  have removed_eq : removed input = .object members' := (removed_eq input).trans (Option.some.inj found)
  rw [composed_eq removed_eq]
  exact ⟨rfl, rfl⟩

/-- What is merged in refuses the decision exactly when a part does not fit. -/
theorem merge_unrefused_iff {input : Input} :
    (∀ conflict ∈ (merge (removed input) "" (.object (ourEntries input))).2, conflict.refuses = false) ↔
      Fits input.current.document (.object (ourEntries input)) := by
  rw [← fits_retainEach (ownedLists input), ← removed_eq]
  have json := isJson_ourEntries input
  have serverless := serverless_ourEntries input
  constructor
  · intro unrefused
    refine fits_of_conflicts "" json serverless fun at_key unkept => ?_
    exact absurd (unrefused _ unkept) (by simp [Conflict.refuses])
  · intro fits conflict conflict_mem
    cases conflict with
    | notComposable at_key => exact absurd conflict_mem (notComposable_notMem json serverless fits at_key)
    | replaced _ _ => rfl
    | _ =>
        obtain ⟨names, held, value, -, -, clashed⟩ := (mem_conflicts_merge json serverless).mp conflict_mem
        rw [clash] at clashed
        split_ifs at clashed <;> simp at clashed

/-- The scan refuses the decision exactly for another guard item or another registration. -/
theorem scan_unrefused_iff {document : Value} {folders : Folders} {executable : String} :
    (∀ conflict ∈ scan document folders executable, conflict.refuses = false) ↔
      (∀ item ∈ guardItems document, runsGuard item = true → item.same (hookItem executable) = true) ∧
        ∀ server, document.under ["mcpServers", "baley"] = some server →
          sameServer server (serverOf executable false) = true := by
  constructor
  · intro unrefused
    refine ⟨fun item item_mem runs => ?_, fun server found => ?_⟩
    · by_contra differs
      rw [Bool.not_eq_true] at differs
      have refused := unrefused _ (otherGuardHook_mem_scan item_mem differs runs)
      cases refused
    · by_contra differs
      rw [Bool.not_eq_true] at differs
      have refused := unrefused _ (otherRegistration_mem_scan found differs)
      cases refused
  · rintro ⟨guards, servers⟩ conflict conflict_mem
    rcases mem_scan conflict_mem with gap | ⟨item, item_mem, differs, runs, rfl⟩ | ⟨server, found, differs, rfl⟩
    · cases conflict <;> first | rfl | cases gap
    · rw [guards item item_mem runs] at differs
      cases differs
    · rw [servers server found] at differs
      cases differs

/-- What the owner's document must be for Baley's entries to stand beside it. -/
structure Composable (input : Input) : Prop where
  /-- Where an entry of Baley's is an object or a list, so is what the document holds. -/
  fits : Fits input.current.document (.object (ourEntries input))
  /-- Every item that runs a guard is this binary's, or is removed on the record's evidence. -/
  guards : ∀ item ∈ guardItems input.current.document, runsGuard item = true →
    staysHook input.latest (ours input.placements input.folders).hookItem item = true →
      item.same (hookItem input.placements.executable) = true
  /-- A registration under Baley's name runs this binary. -/
  registration : ∀ server, input.current.document.under ["mcpServers", "baley"] = some server →
    sameServer server (serverOf input.placements.executable false) = true

theorem guardItems_of_flat {document : Value} (flat : ∀ items, document.under ["hooks", "PreToolUse"] ≠ some (.array items)) :
    guardItems document = [] := by
  rw [guardItems]
  cases found : document.under ["hooks", "PreToolUse"] with
  | none => rfl
  | some held =>
      cases held with
      | array items => exact absurd found (flat items)
      | _ => rfl

/-- The guard items to be written that run a guard are this binary's when those that stay are. -/
theorem guards_written {input : Input} (fits : Fits (removed input) (.object (ourEntries input))) :
    (∀ item ∈ guardItems (written input), runsGuard item = true →
        item.same (hookItem input.placements.executable) = true) ↔
      ∀ item ∈ guardItems input.current.document, runsGuard item = true →
        staysHook input.latest (ours input.placements input.folders).hookItem item = true →
          item.same (hookItem input.placements.executable) = true := by
  obtain ⟨owned, owned_mem, pointer_eq, stays_eq, ours_same⟩ : ∃ owned ∈ ownedLists input,
      owned.pointer = ["hooks", "PreToolUse"] ∧
        owned.stays = staysHook input.latest (ours input.placements input.folders).hookItem ∧
        ∀ item ∈ owned.ours, item.same (hookItem input.placements.executable) = true := by
    refine ⟨_, List.mem_append_left _ List.mem_cons_self, rfl, rfl, ?_⟩
    intro item item_mem
    have item_eq : item = hookItem input.placements.executable := by
      revert item_mem
      cases input.wire <;> simp [ours]
    rw [item_eq]
    exact Value.same_self (isJson_hookItem _)
  rw [← stays_eq]
  by_cases listed : ∃ items, input.current.document.under ["hooks", "PreToolUse"] = some (.array items)
  · obtain ⟨items, found⟩ := listed
    have written_items := written_listed owned_mem (pointer_eq ▸ found)
    obtain ⟨fresh, gained, sublist, -⟩ := foldl_gains (items.filter owned.stays) owned.ours
    have held : guardItems input.current.document = items := by
      rw [guardItems, found]
      rfl
    have kept : guardItems (written input) = items.filter owned.stays ++ fresh := by
      rw [guardItems, ← pointer_eq, written_items, gained]
      rfl
    rw [held, kept]
    constructor
    · exact fun guards item item_mem runs stays =>
        guards item (List.mem_append_left _ (List.mem_filter.mpr ⟨item_mem, stays⟩)) runs
    · rintro guards item item_mem runs
      rcases List.mem_append.mp item_mem with item_mem | item_mem
      · obtain ⟨item_mem, stays⟩ := List.mem_filter.mp item_mem
        exact guards item item_mem runs stays
      · exact ours_same item (sublist.subset item_mem)
  · push Not at listed
    rw [guardItems_of_flat listed]
    refine iff_of_true (fun item item_mem _ => ?_) (by simp)
    have filtered : (removed input).under owned.pointer =
        (input.current.document.under owned.pointer).map (retain owned.stays) := by
      rw [removed_eq, under_retainEach_of_mem (pointers_apart input) owned_mem]
    rw [pointer_eq] at filtered
    have unfiltered : (removed input).under ["hooks", "PreToolUse"] =
        input.current.document.under ["hooks", "PreToolUse"] := by
      rw [filtered]
      cases found : input.current.document.under ["hooks", "PreToolUse"] with
      | none => rfl
      | some held =>
          cases held with
          | array items => exact absurd found (listed items)
          | _ => rfl
    rcases under_owned owned_mem with ours_held | ⟨-, lacking⟩
    · rw [pointer_eq] at ours_held
      cases found : input.current.document.under ["hooks", "PreToolUse"] with
      | none =>
          have gained : guardItems (written input) = owned.ours := by
            rw [guardItems, written_absent fits found, ours_held]
            rfl
          exact ours_same item (gained ▸ item_mem)
      | some held =>
          have fitting := fits _ held _ (unfiltered.trans found) ours_held
          cases held with
          | array items => exact absurd found (listed items)
          | _ => cases fitting
    · have kept : (written input).under ["hooks", "PreToolUse"] =
          input.current.document.under ["hooks", "PreToolUse"] := by
        rw [written, ← unfiltered,
          under_merge_of_lacks (isJson_ourEntries input) (serverless_ourEntries input) (pointer_eq ▸ lacking)]
      rw [guardItems_of_flat fun items => kept ▸ listed items] at item_mem
      cases item_mem

theorem judge_ok_iff_composable {input : Input} :
    (∃ decision, judge input = .ok decision) ↔
      (input.folders.home.utf8 = true ∧ input.folders.config.utf8 = true) ∧ Composable input ∧
        (input.current.symbolicLink = true →
          (written input).same input.current.document = true) := by
  rw [judge_ok_iff]
  refine and_congr_right fun _ => ?_
  by_cases fits : Fits input.current.document (.object (ourEntries input))
  · obtain ⟨members, document_eq⟩ : ∃ members, input.current.document = .object members := by
      have root := fits [] _ _ rfl rfl
      cases shape : input.current.document with
      | object members => exact ⟨members, rfl⟩
      | _ =>
          rw [shape] at root
          cases root
    obtain ⟨document, conflicts⟩ := composed_written document_eq
    have registered : (written input).under ["mcpServers", "baley"] =
        input.current.document.under ["mcpServers", "baley"] := by
      refine written_apart fun path path_mem => ?_
      have other : ∀ path ∈ entryPaths input.heldBack.isSome,
          ∃ name names, path = name :: names ∧ name ≠ "mcpServers" := by
        rw [entryPaths]
        cases input.heldBack.isSome <;> simp
      obtain ⟨name, names, rfl, differs⟩ := other path path_mem
      exact Value.apart_cons.mpr fun same => absurd same differs
    rw [document, conflicts, List.forall_mem_append, merge_unrefused_iff, scan_unrefused_iff, registered]
    have fits' : Fits (removed input) (.object (ourEntries input)) := by
      rw [removed_eq]
      exact (fits_retainEach _).mpr fits
    rw [guards_written fits']
    constructor
    · rintro ⟨⟨fits, guards, registration⟩, linked⟩
      exact ⟨⟨fits, guards, registration⟩, linked⟩
    · rintro ⟨⟨fits, guards, registration⟩, linked⟩
      exact ⟨⟨fits, guards, registration⟩, linked⟩
  · constructor
    · rintro ⟨unrefused, -⟩
      refine absurd ?_ fits
      have fits' := fits_of_unrefused unrefused
      rw [removed_eq] at fits'
      exact (fits_retainEach _).mp fits'
    · rintro ⟨composable, -⟩
      exact absurd composable.fits fits

/-! ## Deciding again -/

/-- The record shows nothing that the lists hold to be older than this binary's. -/
def NothingOlder (input : Input) : Prop :=
  ∀ owned ∈ ownedLists input, ∀ items, input.current.document.under owned.pointer = some (.array items) →
    ∀ item ∈ items, owned.stays item = true

theorem retain_of_all {keeps : Value → Bool} {value : Value}
    (all : ∀ items, value = .array items → ∀ item ∈ items, keeps item = true) : retain keeps value = value := by
  cases value with
  | array items =>
      rw [retain, List.filter_eq_self.mpr (all items rfl)]
  | _ => rfl

/-- Then removal removes nothing. -/
theorem removed_of_nothingOlder {input : Input} (nothing_older : NothingOlder input) :
    removed input = input.current.document := by
  have fixed : ∀ lists : List OwnedList, lists ⊆ ownedLists input →
      retainEach lists input.current.document = input.current.document := by
    intro lists subset
    induction lists with
    | nil => rfl
    | cons owned lists ih =>
        have owned_mem := subset List.mem_cons_self
        rw [retainEach_cons, Value.alterUnder_eq_self]
        · exact ih fun other other_mem => subset (List.mem_cons_of_mem _ other_mem)
        · intro held held_eq
          refine retain_of_all fun items items_eq => ?_
          exact nothing_older owned owned_mem items (items_eq ▸ held_eq)
  rw [removed_eq, fixed _ fun _ owned_mem => owned_mem]

theorem isJson_retain {keeps : Value → Bool} {value : Value} (json : IsJson value) : IsJson (retain keeps value) := by
  cases json with
  | array items_json => exact .array fun item item_mem => items_json item (List.mem_of_mem_filter item_mem)
  | object named_once members_json => exact .object named_once members_json
  | null => exact .null
  | bool flag => exact .bool flag
  | number token => exact .number token
  | string text => exact .string text

theorem isJson_written {input : Input} (json : IsJson input.current.document) : IsJson (written input) := by
  have kept : ∀ (lists : List OwnedList) {document : Value}, IsJson document → IsJson (retainEach lists document) := by
    intro lists
    induction lists with
    | nil => exact id
    | cons owned lists ih =>
        intro document json
        exact ih (isJson_alterUnder json fun held => isJson_retain)
  rw [written, removed_eq]
  exact isJson_merge (isJson_ourEntries input) (kept _ json)

/-- A decision on the document written by one, with nothing older left, needs no write and replaces
nothing. -/
theorem judge_again {input : Input} {decision : Decision} (json : IsJson input.current.document)
    (ok : judge input = .ok decision) {current : Current} {latest : Option Value}
    (read_back : current.document = decision.document) (nothing_older : NothingOlder { input with current, latest }) :
    ∃ again, judge { input with current, latest } = .ok again ∧ again.bytes = none ∧
      again.document = decision.document ∧ again.replaced = [] := by
  have accepted := judge_ok ok
  have fits := fits_of_unrefused accepted.unrefused
  obtain ⟨members, object⟩ := removed_object accepted.unrefused
  have document : decision.document = written input := by
    rw [accepted.document, composed_eq object, written]
  obtain ⟨members', document_object⟩ : ∃ members', decision.document = .object members' := by
    rw [document, written, object, merge]
    exact ⟨_, rfl⟩
  have removed_eq : removed { input with current, latest } = decision.document :=
    (removed_of_nothingOlder nothing_older).trans read_back
  have unmoved : merge decision.document "" (.object (ourEntries input)) = (decision.document, []) := by
    rw [document]
    exact merge_again (isJson_ourEntries input) (serverless_ourEntries input) fits
  have composed_again : composed { input with current, latest } =
      { document := decision.document
        conflicts := scan decision.document input.folders input.placements.executable } := by
    rw [composed_eq (removed_eq.trans document_object), removed_eq]
    have same_entries : ourEntries { input with current, latest } = ourEntries input := rfl
    rw [same_entries, unmoved]
    rfl
  have settled : decision.document.same current.document = true := by
    rw [read_back, document]
    exact Value.same_self (isJson_written json)
  obtain ⟨again, again_ok⟩ : ∃ again, judge { input with current, latest } = .ok again := by
    refine judge_ok_iff.mpr ⟨accepted.folders, fun conflict conflict_mem => ?_, fun _ => ?_⟩
    · rw [composed_again] at conflict_mem
      refine accepted.unrefused conflict ?_
      rw [composed_eq object]
      refine List.mem_append_right _ ?_
      rw [document] at conflict_mem
      exact conflict_mem
    · rw [composed_again]
      exact settled
  have accepted_again := judge_ok again_ok
  refine ⟨again, again_ok, ?_, ?_, ?_⟩
  · rw [accepted_again.bytes, composed_again]
    exact if_pos settled
  · rw [accepted_again.document, composed_again]
  · rw [accepted_again.replaced, composed_again]
    exact replacedOf_scan

/-! ## A record of this binary's entries -/

/-- A record that lists nothing but entries of this binary. -/
structure OnlyOurs (latest : Option Value) (ours : Ours) : Prop where
  hook : ∀ item, latest.bind (Value.under ["registered", "hook", "item"]) = some item → item.same ours.hookItem = true
  permissionsDeny : strings (latest.bind (Value.under ["sandbox", "permissions_deny"])) ⊆ ours.lists.permissionsDeny
  denyRead : strings (latest.bind (Value.under ["sandbox", "deny_read"])) ⊆ ours.lists.denyRead
  denyWrite : strings (latest.bind (Value.under ["sandbox", "deny_write"])) ⊆ ours.lists.denyWrite

theorem staysListed_of_subset {recorded ours : List String} (subset : recorded ⊆ ours) (entry : Value) :
    staysListed recorded ours entry = true := by
  cases entry with
  | string text =>
      by_cases listed : text ∈ recorded
      · simp [staysListed, Value.asStr, subset listed]
      · simp [staysListed, Value.asStr, listed]
  | _ => rfl

/-- Such a record shows nothing to be older, whatever the document holds. -/
theorem nothingOlder_of_onlyOurs {input : Input}
    (only_ours : OnlyOurs input.latest (ours input.placements input.folders)) : NothingOlder input := by
  have hook : ∀ item, staysHook input.latest (ours input.placements input.folders).hookItem item = true := by
    intro item
    rw [staysHook]
    split
    next recorded recorded_eq => rw [only_ours.hook recorded recorded_eq, Bool.true_or]
    next => rfl
  have all : ∀ owned ∈ ownedLists input, ∀ item, owned.stays item = true := by
    rw [ownedLists]
    cases input.heldBack.isSome <;>
      simp [hook, staysListed_of_subset only_ours.permissionsDeny, staysListed_of_subset only_ours.denyRead,
        staysListed_of_subset only_ours.denyWrite]
  exact fun owned owned_mem items _ item _ => all owned owned_mem item

/-- The record of an install: the hook item and the lists. -/
def recordOf (ours : Ours) : Value :=
  .object
    [("registered", .object [("hook", .object [("item", ours.hookItem)])]),
      ("sandbox", .object
        [("permissions_deny", denyList ours.lists.permissionsDeny), ("deny_read", denyList ours.lists.denyRead),
          ("deny_write", denyList ours.lists.denyWrite)])]

theorem onlyOurs_recordOf {ours : Ours} (json : IsJson ours.hookItem) : OnlyOurs (some (recordOf ours)) ours := by
  constructor
  · intro item item_eq
    cases item_eq
    exact Value.same_self json
  all_goals
    rw [recordOf]
    simp [Value.under, Members.lookup_cons, strings_denyList]

theorem judge_again_ownedInput :
    ∃ decision, judge ownedInput = .ok decision ∧
      ∃ again, judge
          { ownedInput with
            current := ⟨decision.document, true, none⟩
            latest := some (recordOf (ours ownedInput.placements ownedInput.folders)) } = .ok again ∧
        again.bytes = none ∧ again.document = decision.document ∧ again.replaced = [] := by
  have json : IsJson ownedInput.current.document := by
    refine .object (by simp) ?_
    simp only [List.forall_mem_cons]
    refine ⟨.string _, .object (by simp) ?_, isJson_single (.array ?_), by simp⟩ <;>
      simp [IsJson.bool, IsJson.null, IsJson.string]
  exact ⟨_, rfl, judge_again json rfl rfl
    (nothingOlder_of_onlyOurs (onlyOurs_recordOf (isJson_hookItem _)))⟩

end Baley.Install
