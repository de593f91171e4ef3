import Baley.Install.Coverage
import Baley.Install.Decided

/-!
# Composition and the coverage judge

What the proposal denies, and that a composition which reports nothing but replaced values is one the
coverage judge finds covered, but for an allowed write of a write-only file.
-/

namespace Baley.Install

open Json

/-! ## What the proposal denies -/

section Unique

variable {α β : Type} [BEq α] [LawfulBEq α]

theorem mem_pushUnique {list : List α} {item other : α} :
    other ∈ pushUnique list item ↔ other ∈ list ∨ other = item := by
  rw [pushUnique]
  split_ifs with held
  · have item_mem := List.contains_iff_mem.mp held
    exact ⟨.inl, fun either => either.elim id fun same => same ▸ item_mem⟩
  · rw [List.mem_append, List.mem_singleton]

theorem mem_foldl_pushUnique (change : β → α) (items : List β) {list : List α} {other : α} :
    other ∈ items.foldl (fun list item => pushUnique list (change item)) list ↔
      other ∈ list ∨ ∃ item ∈ items, other = change item := by
  induction items generalizing list with
  | nil => simp
  | cons item items ih => rw [List.foldl_cons, ih, mem_pushUnique, List.exists_mem_cons_iff, or_assoc]

end Unique

theorem pushUnique_ne_nil {α : Type} [BEq α] (list : List α) (item : α) : pushUnique list item ≠ [] := by
  rw [pushUnique]
  split_ifs with held
  · rintro rfl
    cases held
  · simp

/-- Without a report every path is written as a rule. -/
theorem foldl_addRulePath {paths : List HostPath} (judged : List String × List Unrendered)
    (rendered : (paths.foldl addRulePath judged).2 = []) :
    judged.2 = [] ∧ judged.1 ⊆ (paths.foldl addRulePath judged).1 ∧
      ∀ path ∈ paths, ∃ text, rulePath path = .ok text ∧ text ∈ (paths.foldl addRulePath judged).1 := by
  induction paths generalizing judged with
  | nil => exact ⟨rendered, fun _ => id, by simp⟩
  | cons path paths ih =>
      rw [List.foldl_cons] at rendered ⊢
      obtain ⟨none_before, subset, each⟩ := ih _ rendered
      cases judged_path : rulePath path with
      | error report =>
          rw [addRulePath, judged_path] at none_before
          exact absurd none_before (pushUnique_ne_nil _ _)
      | ok text =>
          have step : addRulePath judged path = (pushUnique judged.1 text, judged.2) := by
            rw [addRulePath, judged_path]
          rw [step] at none_before subset each ⊢
          refine ⟨none_before, fun other other_mem => subset (mem_pushUnique.mpr (.inl other_mem)), ?_⟩
          rw [List.forall_mem_cons]
          exact ⟨⟨text, judged_path, subset (mem_pushUnique.mpr (.inr rfl))⟩, each⟩

section Denied

variable {placements : PlacementMap} {folders : Folders}

/-- What a proposal without a report denies for Baley's folders. -/
structure FolderDenied (placements : PlacementMap) (folders : Folders) (text : String) : Prop where
  read : text ∈ (ours placements folders).lists.denyRead
  write : text ∈ (ours placements folders).lists.denyWrite
  readRule : readFolderRule text ∈ (ours placements folders).lists.permissionsDeny
  editRule : editFolderRule text ∈ (ours placements folders).lists.permissionsDeny

/-- What it denies for a write-only file. -/
structure FileDenied (placements : PlacementMap) (folders : Folders) (text : String) : Prop where
  write : text ∈ (ours placements folders).lists.denyWrite
  editRule : editFileRule text ∈ (ours placements folders).lists.permissionsDeny

theorem denied_of_rendered (rendered : (ours placements folders).proposal.unrendered = []) :
    (∀ folder ∈ [folders.home, folders.config],
        ∃ text, rulePath folder = .ok text ∧ FolderDenied placements folders text) ∧
      ∀ file ∈ placements.protectedPaths ++ [⟨placements.executable, true⟩],
        ∃ text, rulePath file = .ok text ∧ FileDenied placements folders text := by
  let home := rulePaths [folders.home, folders.config] []
  let inside := rulePaths placements.writeOnlyFolders home.2
  let files := rulePaths (placements.protectedPaths ++ [⟨placements.executable, true⟩]) inside.2
  have read : (ours placements folders).lists.denyRead = home.1 := strings_denyList home.1
  have write : (ours placements folders).lists.denyWrite =
      files.1.foldl pushUnique (inside.1.foldl pushUnique home.1) := strings_denyList _
  have rules : (ours placements folders).lists.permissionsDeny =
      files.1.foldl (fun rules file => pushUnique rules (editFileRule file))
        (inside.1.foldl (fun rules folder => pushUnique rules (editFolderRule folder))
          (home.1.flatMap fun folder => [readFolderRule folder, editFolderRule folder])) :=
    strings_denyList _
  obtain ⟨inside_rendered, -, each_file⟩ := foldl_addRulePath ([], inside.2) rendered
  obtain ⟨home_rendered, -, -⟩ := foldl_addRulePath ([], home.2) inside_rendered
  obtain ⟨-, -, each_folder⟩ := foldl_addRulePath ([], []) home_rendered
  have write_mem : ∀ text, text ∈ home.1 ∨ text ∈ files.1 → text ∈ (ours placements folders).lists.denyWrite := by
    intro text either
    rw [write]
    rcases either with text_mem | text_mem
    · exact (mem_foldl_pushUnique id _).mpr (.inl ((mem_foldl_pushUnique id _).mpr (.inl text_mem)))
    · exact (mem_foldl_pushUnique id _).mpr (.inr ⟨text, text_mem, rfl⟩)
  have rule_mem : ∀ text,
      (text ∈ files.1 → editFileRule text ∈ (ours placements folders).lists.permissionsDeny) ∧
      (text ∈ home.1 → readFolderRule text ∈ (ours placements folders).lists.permissionsDeny ∧
        editFolderRule text ∈ (ours placements folders).lists.permissionsDeny) := by
    intro text
    rw [rules, mem_foldl_pushUnique, mem_foldl_pushUnique, mem_foldl_pushUnique, mem_foldl_pushUnique,
      mem_foldl_pushUnique, mem_foldl_pushUnique]
    simp only [List.mem_flatMap, List.mem_cons, List.not_mem_nil, or_false]
    exact ⟨fun text_mem => .inr ⟨text, text_mem, rfl⟩, fun text_mem =>
      ⟨.inl (.inl ⟨text, text_mem, .inl rfl⟩), .inl (.inl ⟨text, text_mem, .inr rfl⟩)⟩⟩
  refine ⟨fun folder folder_mem => ?_, fun file file_mem => ?_⟩
  · obtain ⟨text, judged, text_mem⟩ := each_folder folder folder_mem
    obtain ⟨readRule, editRule⟩ := (rule_mem text).2 text_mem
    exact ⟨text, judged, read ▸ text_mem, write_mem text (.inl text_mem), readRule, editRule⟩
  · obtain ⟨text, judged, text_mem⟩ := each_file file file_mem
    exact ⟨text, judged, write_mem text (.inr text_mem), (rule_mem text).1 text_mem⟩

end Denied

/-! ## A composition that reports nothing -/

theorem mem_strings {items : List Value} {text : String} (held : items.any (·.same (.string text)) = true) :
    text ∈ strings (some (.array items)) := by
  obtain ⟨item, item_mem, alike⟩ := List.any_eq_true.mp held
  rw [Value.same_string_iff] at alike
  exact List.mem_filterMap.mpr ⟨item, item_mem, by rw [alike]; rfl⟩

/-- What a document holds when the scan reports nothing of it. -/
structure Unreported (document : Value) (folders : Folders) : Prop where
  hooks : (document.under ["disableAllHooks"]).any (·.same (.bool true)) = false
  filesystem : (document.under ["sandbox", "filesystem", "disabled"]).any (·.same (.bool true)) = false
  excluded : strings (document.under ["sandbox", "excludedCommands"]) = []
  allowed : ∀ list ∈ ["allowRead", "allowWrite"],
    ∀ entry ∈ strings (document.under ["sandbox", "filesystem", list]),
      ∀ folder ∈ [folders.home, folders.config], ∀ path, folder.toStr = some path → reach entry path = .outside

theorem unreported_of_scan {document : Value} {folders : Folders} {executable : String}
    (nothing : scan document folders executable = []) : Unreported document folders := by
  simp only [scan, List.append_eq_nil_iff] at nothing
  obtain ⟨⟨⟨⟨⟨-, turned⟩, -⟩, -⟩, allowed⟩, excluded⟩ := nothing
  rw [List.filterMap_eq_nil_iff] at turned
  have off : ∀ setting ∈ [(["disableAllHooks"], "disableAllHooks"),
      (["sandbox", "filesystem", "disabled"], "sandbox.filesystem.disabled")],
      (document.under setting.1).any (·.same (.bool true)) = false := by
    intro setting setting_mem
    have found := turned setting setting_mem
    rw [turnedOn] at found
    split_ifs at found with on
    exact Bool.eq_false_iff.mpr on
  rw [List.flatMap_eq_nil_iff] at allowed
  refine ⟨off _ List.mem_cons_self, off _ (List.mem_cons_of_mem _ List.mem_cons_self),
    List.map_eq_nil_iff.mp excluded, ?_⟩
  intro list list_mem entry entry_mem folder folder_mem path path_eq
  have found := List.filterMap_eq_nil_iff.mp (allowed list list_mem) entry entry_mem
  have reach_mem : reach entry path ∈ ([folders.home, folders.config].filterMap HostPath.toStr).map (reach entry) :=
    List.mem_map_of_mem (List.mem_filterMap.mpr ⟨folder, folder_mem, path_eq⟩)
  rw [listConflict] at found
  split_ifs at found with within unjudged
  cases reached : reach entry path with
  | within => exact absurd (reached ▸ reach_mem) within
  | outside => rfl
  | unjudged => exact absurd (reached ▸ reach_mem) unjudged

/-! ## A document that holds Baley's entries -/

/-- A settings document that holds every entry of Baley's. -/
structure Holds (document : Value) (placements : PlacementMap) (folders : Folders) : Prop where
  switched : ∀ switch ∈ switches, document.under switch.1 = some (.bool switch.2.2)
  denyRead : (ours placements folders).lists.denyRead ⊆ strings (document.under ["sandbox", "filesystem", "denyRead"])
  denyWrite :
    (ours placements folders).lists.denyWrite ⊆ strings (document.under ["sandbox", "filesystem", "denyWrite"])
  permissionsDeny : (ours placements folders).lists.permissionsDeny ⊆ strings (document.under ["permissions", "deny"])
  hook : ∃ item ∈ guardItems document, item.same (hookItem placements.executable) = true

/-- What is written with the sandbox and the hook composed in holds every entry. -/
theorem holds_written {input : Input} (fits : Fits (removed input) (.object (ourEntries input)))
    (composed_in : input.heldBack = none) (wired : input.wire = true) :
    Holds (written input) input.placements input.folders := by
  have texts : ∀ owned ∈ ownedLists input, ∀ list : List String, owned.ours = list.map .string →
      list ⊆ strings ((written input).under owned.pointer) := by
    intro owned owned_mem list ours_eq text text_mem
    obtain ⟨items, found, held⟩ := written_owned fits owned_mem (under_owned_of_wired wired owned_mem)
    rw [found]
    exact mem_strings (held _ (by rw [ours_eq]; exact List.mem_map_of_mem text_mem))
  have lists := texts
  rw [ownedLists, composed_in] at lists
  simp only [List.mem_append, List.mem_cons, List.not_mem_nil, or_false, Option.isSome, Bool.false_eq_true,
    if_false] at lists
  constructor
  · exact fun switch switch_mem => written_switch fits composed_in switch_mem
  · exact lists _ (.inr (.inl rfl)) _ rfl
  · exact lists _ (.inr (.inr rfl)) _ rfl
  · exact lists _ (.inl (.inr rfl)) _ rfl
  · obtain ⟨items, found, held⟩ := written_owned fits (List.mem_append_left _ List.mem_cons_self)
      (under_owned_of_wired wired (List.mem_append_left _ List.mem_cons_self))
    have item_mem : hookItem input.placements.executable ∈
        (if input.wire then [(ours input.placements input.folders).hookItem] else []) := by
      rw [wired]
      exact List.mem_singleton_self _
    obtain ⟨item, item_mem, alike⟩ := List.any_eq_true.mp (held _ item_mem)
    refine ⟨item, ?_, alike⟩
    rw [guardItems, found]
    exact item_mem

/-! ## The judge's causes -/

section Causes

variable {document : Value} {placements : PlacementMap} {folders : Folders}

/-- The judge's inputs where one file holds both documents and no mechanism is unsupported. -/
def inputsOf (document : Value) (placements : PlacementMap) (folders : Folders) : CoverageInputs where
  settings := document
  hook := document
  folders
  executable := placements.executable
  writeOnly := placements.protectedPaths
  unsupported := []

theorem sandboxSettings_eq_nil (holds : Holds document placements folders) (unreported : Unreported document folders) :
    sandboxSettings (inputsOf document placements folders) = [] := by
  have switched : ∀ switch ∈ [("enabled", true), ("failIfUnavailable", true), ("allowUnsandboxedCommands", false)],
      (document.under ["sandbox", switch.1]).any (·.same (.bool switch.2)) = true := by
    have each := holds.switched
    rw [switches, List.forall_mem_cons, List.forall_mem_cons, List.forall_mem_cons] at each
    obtain ⟨enabled, unavailable, unsandboxed, -⟩ := each
    simp only [List.forall_mem_cons]
    rw [enabled, unavailable, unsandboxed]
    simp [Value.same]
  rw [sandboxSettings, inputsOf]
  simp only [List.contains_nil, Bool.false_eq_true, if_false, List.nil_append, unreported.filesystem,
    unreported.excluded, List.map_nil, List.append_nil]
  rw [List.filterMap_eq_nil_iff]
  rintro ⟨key, secure⟩ switch_mem
  exact if_pos (switched _ switch_mem)

theorem unjudged_eq_nil (unreported : Unreported document folders) {home : String}
    (readable : folders.home.toStr = some home) (access : Access) : unjudged document access = [] := by
  rw [unjudged, List.map_eq_nil_iff, List.filter_eq_nil_iff]
  intro entry entry_mem unplaced
  have list_mem : (lists access).2 ∈ ["allowRead", "allowWrite"] := by cases access <;> simp [lists]
  have outside := unreported.allowed _ list_mem entry entry_mem _ List.mem_cons_self home readable
  rw [reach, Option.isNone_iff_eq_none.mp unplaced] at outside
  cases outside

/-- Only an allow entry that reaches a denied path keeps it from being denied. -/
theorem sandboxPath_eq_nil {access : Access} {path : String}
    (denied : path ∈ strings (document.under ["sandbox", "filesystem", (lists access).1])) :
    sandboxPath document access path = [] ↔
      ∀ entry ∈ strings (document.under ["sandbox", "filesystem", (lists access).2]), reach entry path ≠ .within := by
  rw [sandboxPath, List.contains_iff_mem.mpr denied]
  simp [List.filter_eq_nil_iff]

theorem rules_eq_nil {texts : List String} {rule : String → String}
    (held : ∀ text ∈ texts, rule text ∈ strings (document.under ["permissions", "deny"])) :
    rules (inputsOf document placements folders) (texts.map .ok) rule = [] := by
  rw [rules, inputsOf]
  simp only [List.contains_nil, Bool.false_eq_true, if_false, List.nil_append]
  rw [List.filterMap_eq_nil_iff]
  intro path path_mem
  obtain ⟨text, text_mem, rfl⟩ := List.mem_map.mp path_mem
  exact if_pos (List.contains_iff_mem.mpr (held text text_mem))

/-- An item the same as the one rendered names every guarded tool and holds the guard. -/
theorem guards_of_same {lasts : String → Bool} (budget : lasts "10" = true) {executable : String} {item : Value}
    (json : IsJson item) (alike : item.same (hookItem executable) = true) (tool : Tool) :
    (matcherNames (item.get? "matcher") tool &&
      (((item.get? "hooks").bind Value.asArray).getD []).any fun handler =>
        isGuard lasts handler (hookCommand executable)) = true := by
  obtain ⟨members, rfl, -, held⟩ := Value.same_object json alike
  obtain ⟨matched, matched_eq, matched_same⟩ := held "matcher" (.string matcher) rfl
  obtain ⟨handlers, handlers_eq, handlers_same⟩ := held "hooks" _ rfl
  obtain ⟨handler, rfl, handler_same⟩ := Value.same_single handlers_same
  have handler_json : IsJson handler := by
    cases json.get? handlers_eq with
    | array items_json => exact items_json handler (List.mem_singleton_self handler)
  obtain ⟨fields, rfl, names, field⟩ := Value.same_object handler_json handler_same
  obtain ⟨kind, kind_eq, kind_same⟩ := field "type" (.string "command") rfl
  obtain ⟨command, command_eq, command_same⟩ := field "command" (.string (hookCommand executable)) rfl
  obtain ⟨timeout, timeout_eq, timeout_same⟩ := field "timeout" (.ofNat hostTimeout) rfl
  rw [Value.get?_object, matched_eq, Value.get?_object, handlers_eq, Value.same_string_iff.mp matched_same]
  have named : matcherNames (some (.string matcher)) tool = true := by
    cases tool <;> rfl
  have guarded : isGuard lasts (.object fields) (hookCommand executable) = true := by
    have known : (Members.names fields).all fun key =>
        ["type", "command", "timeout", "statusMessage", "shell"].contains key := by
      rw [List.all_eq_true]
      intro key key_mem
      have key_mem := names.mem_iff.mp key_mem
      simp only [Members.names, List.map_cons, List.map_nil, List.mem_cons, List.not_mem_nil, or_false] at key_mem
      rcases key_mem with rfl | rfl | rfl <;> rfl
    have no_shell : Members.lookup "shell" fields = none := by
      rw [Members.lookup_eq_none_iff]
      intro named
      have named := names.mem_iff.mp named
      simp [Members.names] at named
    have timeout_text : timeout = .number "10" := Value.same_number_iff.mp timeout_same
    rw [isGuard]
    simp only [Value.asObject_object, known, timeout_eq, timeout_text, budget, no_shell, kind_eq, command_eq,
      Value.same_string_iff.mp command_same]
    simp [Value.asStr, kind_same]
  rw [named]
  simp [Value.asArray, guarded]

theorem isJson_guardItem (json : IsJson document) {item : Value} (item_mem : item ∈ guardItems document) :
    IsJson item := by
  rw [guardItems] at item_mem
  cases found : document.under ["hooks", "PreToolUse"] with
  | none =>
      rw [found] at item_mem
      cases item_mem
  | some held =>
      have held_json := json.under found
      rw [found] at item_mem
      cases held_json with
      | array items_json => exact items_json item item_mem
      | _ => cases item_mem

theorem guard_eq_nil {lasts : String → Bool} (budget : lasts "10" = true) (json : IsJson document)
    (holds : Holds document placements folders) (unreported : Unreported document folders) (tool : Tool) :
    guard lasts (inputsOf document placements folders) tool = [] := by
  have enabled : ([document, document].any fun document =>
      (document.get? "disableAllHooks").any (·.same (.bool true))) = false := by
    have off := unreported.hooks
    rw [Value.under] at off
    cases found : document.get? "disableAllHooks" with
    | none => simp [found]
    | some held =>
        rw [found] at off
        simpa [found, Value.under] using off
  have found : ((guardItems document).any fun item =>
      matcherNames (item.get? "matcher") tool &&
        (((item.get? "hooks").bind Value.asArray).getD []).any fun handler =>
          isGuard lasts handler (hookCommand placements.executable)) = true := by
    obtain ⟨item, item_mem, alike⟩ := holds.hook
    refine List.any_eq_true.mpr ⟨item, item_mem, guards_of_same budget ?_ alike tool⟩
    exact isJson_guardItem json item_mem
  rw [guard, inputsOf]
  dsimp only
  rw [enabled, found]
  rfl

theorem toStr_of_rulePath {path : HostPath} {text : String} (judged : rulePath path = .ok text) :
    path.toStr = some text := by
  rw [rulePath] at judged
  cases given : judgePath path with
  | error fault =>
      rw [given] at judged
      cases judged
  | ok shown =>
      rw [given] at judged
      dsimp only at judged
      split at judged
      next => cases judged
      next =>
        cases judged
        rw [judgePath] at given
        split_ifs at given
        split at given
        next => cases given
        next text text_eq =>
          split_ifs at given
          cases given
          exact text_eq

theorem shown_of_rulePath {path : HostPath} {text : String} (judged : rulePath path = .ok text) :
    path.shown = text := by
  have text_eq := toStr_of_rulePath judged
  rw [HostPath.toStr] at text_eq
  split_ifs at text_eq
  exact Option.some.inj text_eq

/-- The folders judged are those denied. -/
theorem judgedFolders_denied (rendered : (ours placements folders).proposal.unrendered = []) :
    ∃ texts : List String, judgedFolders folders = texts.map .ok ∧
      ∀ text ∈ texts, FolderDenied placements folders text ∧
        ∃ folder ∈ [folders.home, folders.config], folder.toStr = some text := by
  obtain ⟨each_folder, -⟩ := denied_of_rendered rendered
  obtain ⟨home, home_judged, home_denied⟩ := each_folder folders.home List.mem_cons_self
  obtain ⟨config, config_judged, config_denied⟩ :=
    each_folder folders.config (List.mem_cons_of_mem _ List.mem_cons_self)
  have home_stands : FolderDenied placements folders home ∧
      ∃ folder ∈ [folders.home, folders.config], folder.toStr = some home :=
    ⟨home_denied, _, List.mem_cons_self, toStr_of_rulePath home_judged⟩
  have config_stands : FolderDenied placements folders config ∧
      ∃ folder ∈ [folders.home, folders.config], folder.toStr = some config :=
    ⟨config_denied, _, List.mem_cons_of_mem _ List.mem_cons_self, toStr_of_rulePath config_judged⟩
  rw [judgedFolders, List.foldl_cons, List.foldl_cons, List.foldl_nil, home_judged, config_judged]
  have first : pushUnique ([] : List (Except Unrendered String)) (.ok home) = [.ok home] := rfl
  rw [first, pushUnique]
  split_ifs
  · exact ⟨[home], rfl, List.forall_mem_singleton.mpr home_stands⟩
  · exact ⟨[home, config], rfl, List.forall_mem_cons.mpr ⟨home_stands, List.forall_mem_singleton.mpr config_stands⟩⟩

/-- Every tool's access is covered. -/
theorem toolCauses_eq_nil {lasts : String → Bool} (budget : lasts "10" = true) (json : IsJson document)
    (holds : Holds document placements folders) (unreported : Unreported document folders)
    (rendered : (ours placements folders).proposal.unrendered = []) (tool : Tool) (access : Access) :
    (toolCauses lasts (inputsOf document placements folders) tool access).2 = [] := by
  obtain ⟨texts, judged, denied⟩ := judgedFolders_denied rendered
  obtain ⟨home, home_judged, -⟩ := (denied_of_rendered rendered).1 folders.home List.mem_cons_self
  have by_sandbox : sandboxSettings (inputsOf document placements folders) ++
      (texts.map Except.ok).flatMap (folderCauses document access) ++ unjudged document access = [] := by
    rw [sandboxSettings_eq_nil holds unreported,
      unjudged_eq_nil unreported (toStr_of_rulePath home_judged), List.append_nil, List.nil_append,
      List.flatMap_eq_nil_iff]
    intro folder folder_mem
    obtain ⟨text, text_mem, rfl⟩ := List.mem_map.mp folder_mem
    obtain ⟨text_denied, folder, folder_mem, text_eq⟩ := denied text text_mem
    have list_mem : text ∈ strings (document.under ["sandbox", "filesystem", (lists access).1]) := by
      cases access with
      | read => exact holds.denyRead text_denied.read
      | write => exact holds.denyWrite text_denied.write
    refine (sandboxPath_eq_nil list_mem).mpr fun entry entry_mem within => ?_
    have allow_mem : (lists access).2 ∈ ["allowRead", "allowWrite"] := by cases access <;> simp [lists]
    rw [unreported.allowed _ allow_mem entry entry_mem folder folder_mem text text_eq] at within
    cases within
  have read_rules : rules (inputsOf document placements folders) (texts.map .ok) readFolderRule = [] :=
    rules_eq_nil fun text text_mem => holds.permissionsDeny (denied text text_mem).1.readRule
  have edit_rules : rules (inputsOf document placements folders) (texts.map .ok) editFolderRule = [] :=
    rules_eq_nil fun text text_mem => holds.permissionsDeny (denied text text_mem).1.editRule
  have guarded := guard_eq_nil budget json holds unreported tool
  have folders_eq : judgedFolders (inputsOf document placements folders).folders = texts.map .ok := judged
  cases tool with
  | bash | monitor | powerShell =>
      rw [toolCauses, folders_eq]
      exact by_sandbox
  | read | grep | glob =>
      rw [toolCauses, folders_eq, read_rules, guarded]
      rfl
  | write | edit | notebookEdit =>
      rw [toolCauses, folders_eq, edit_rules, guarded]
      rfl

/-- A write-only file is covered exactly when no allowed write reaches it. -/
theorem fileCauses_eq_nil (holds : Holds document placements folders) (unreported : Unreported document folders)
    (rendered : (ours placements folders).proposal.unrendered = []) {file : HostPath}
    (file_mem : file ∈ placements.protectedPaths ++ [⟨placements.executable, true⟩]) :
    fileCauses (inputsOf document placements folders) file = [] ↔
      ∀ entry ∈ strings (document.under ["sandbox", "filesystem", "allowWrite"]),
        reach entry file.shown ≠ .within := by
  obtain ⟨each_folder, each_file⟩ := denied_of_rendered rendered
  obtain ⟨home, home_judged, -⟩ := each_folder folders.home List.mem_cons_self
  obtain ⟨text, judged, denied⟩ := each_file file file_mem
  have edit_rule : rules (inputsOf document placements folders) ([text].map .ok) editFileRule = [] :=
    rules_eq_nil (List.forall_mem_singleton.mpr (holds.permissionsDeny denied.editRule))
  have causes : fileCauses (inputsOf document placements folders) file = sandboxPath document .write text := by
    rw [fileCauses, judged]
    dsimp only
    rw [sandboxSettings_eq_nil holds unreported]
    have unplaced := unjudged_eq_nil unreported (toStr_of_rulePath home_judged) .write
    rw [List.map_singleton] at edit_rule
    rw [edit_rule]
    exact (List.append_nil _).trans ((congrArg _ unplaced).trans (List.append_nil _))
  rw [causes, shown_of_rulePath judged]
  exact sandboxPath_eq_nil (holds.denyWrite denied.write)

end Causes

/-! ## The agreement -/

/-- The decision's input over a document alone: no record, the sandbox and the hook composed in. -/
def plainInput (document : Value) (placements : PlacementMap) (folders : Folders) : Input where
  path := ⟨"", true⟩
  current := { document, symbolicLink := false, readDigest := none }
  latest := none
  placements
  folders
  heldBack := none
  wire := true

theorem composed_plainInput (existing : Option Value) (placements : PlacementMap) (folders : Folders) :
    composed (plainInput (existing.getD (.object [])) placements folders) =
      compose existing
        [(propose folders placements.executable placements.protectedPaths placements.writeOnlyFolders).settings,
          renderHook placements.executable]
        folders placements.executable := by
  have proposal : proposalOf (ours placements folders) false =
      (propose folders placements.executable placements.protectedPaths placements.writeOnlyFolders).settings := by
    have settings : (ours placements folders).proposal.settings =
        (propose folders placements.executable placements.protectedPaths placements.writeOnlyFolders).settings := rfl
    rw [proposalOf, ← settings, settings_ours]
    rfl
  rw [composed, oursToCompose, compose, compose, ← proposal]
  rfl

/-- A composition that reports nothing but replaced values holds every entry, and the scan reports nothing
of it. -/
theorem holds_of_complete {input : Input} (composed_in : input.heldBack = none) (wired : input.wire = true)
    (complete : ∀ conflict ∈ (composed input).conflicts, ∃ key was, conflict = .replaced key was) :
    (composed input).document = written input ∧ Holds (written input) input.placements input.folders ∧
      Unreported (written input) input.folders := by
  have unrefused : ∀ conflict ∈ (composed input).conflicts, conflict.refuses = false := by
    intro conflict conflict_mem
    obtain ⟨key, was, rfl⟩ := complete conflict conflict_mem
    rfl
  obtain ⟨members, object⟩ := removed_object unrefused
  have fits := fits_of_unrefused unrefused
  rw [composed_eq object] at complete ⊢
  have nothing : scan (written input) input.folders input.placements.executable = [] := by
    rw [List.eq_nil_iff_forall_not_mem]
    intro conflict conflict_mem
    obtain ⟨key, was, rfl⟩ := complete conflict (List.mem_append_right _ conflict_mem)
    have unreplaced := List.filterMap_eq_nil_iff.mp replacedOf_scan _ conflict_mem
    cases unreplaced
  exact ⟨rfl, holds_written fits composed_in wired, unreported_of_scan nothing⟩

theorem verdictOf_eq_covered {carriers : List Mechanism} {bestEffort : Bool} {causes : List Cause} :
    (∃ carriers' bestEffort', verdictOf carriers bestEffort causes = .covered carriers' bestEffort') ↔ causes = [] := by
  cases causes <;> simp [verdictOf]

theorem mem_of_foldl_pushUnique {α : Type} [BEq α] {items list : List α} {item : α}
    (item_mem : item ∈ items.foldl pushUnique list) : item ∈ list ∨ item ∈ items := by
  induction items generalizing list with
  | nil => exact .inl item_mem
  | cons head items ih =>
      rcases ih item_mem with item_mem | item_mem
      · rw [pushUnique] at item_mem
        split_ifs at item_mem
        · exact .inl item_mem
        · rcases List.mem_append.mp item_mem with item_mem | item_mem
          · exact .inl item_mem
          · exact .inr (List.mem_cons.mpr (.inl (List.mem_singleton.mp item_mem)))
      · exact .inr (List.mem_cons_of_mem _ item_mem)

/-- A tool's verdict for an access it has is found. -/
theorem verdict_judgeCoverage (lasts : String → Bool) (inputs : CoverageInputs) {tool : Tool} {access : Access}
    (access_mem : access ∈ tool.accesses) :
    ∃ carriers bestEffort, (judgeCoverage lasts inputs).verdict tool access =
      some (verdictOf carriers bestEffort (toolCauses lasts inputs tool access).2) := by
  cases tool <;> simp only [Tool.accesses, List.mem_cons, List.not_mem_nil, or_false] at access_mem <;>
    rcases access_mem with rfl | rfl <;>
    exact ⟨_, _, rfl⟩

/-- A composition that reports nothing but replaced values leaves every tool covered, and each write-only
file, the executable among them, unless the owner allows a write of it. -/
theorem compose_covered {lasts : String → Bool} (budget : lasts "10" = true) {existing : Option Value}
    (json : IsJson (existing.getD (.object []))) {folders : Folders} {executable : String}
    {writeOnly writeOnlyFolders : List HostPath}
    (rendered : (propose folders executable writeOnly writeOnlyFolders).unrendered = [])
    (complete : ∀ conflict ∈
      (compose existing [(propose folders executable writeOnly writeOnlyFolders).settings, renderHook executable]
        folders executable).conflicts,
      ∃ key was, conflict = .replaced key was) :
    let document :=
      (compose existing [(propose folders executable writeOnly writeOnlyFolders).settings, renderHook executable]
        folders executable).document
    let coverage := judgeCoverage lasts
      { settings := document, hook := document, folders, executable, writeOnly, unsupported := [] }
    (∀ tool, ∀ access ∈ tool.accesses,
      ∃ carriers bestEffort, coverage.verdict tool access = some (.covered carriers bestEffort)) ∧
    ∀ judged ∈ coverage.files,
      (∃ carriers bestEffort, judged.write = .covered carriers bestEffort) ↔
        ∀ entry ∈ strings (document.under ["sandbox", "filesystem", "allowWrite"]),
          reach entry judged.path.shown ≠ .within := by
  intro document coverage
  have whole := composed_plainInput existing ⟨executable, writeOnly, writeOnlyFolders⟩ folders
  rw [← whole] at complete
  obtain ⟨document_eq, holds, unreported⟩ := holds_of_complete rfl rfl complete
  have document_json : IsJson document := by
    have composed_json : IsJson (written (plainInput (existing.getD (.object []))
        ⟨executable, writeOnly, writeOnlyFolders⟩ folders)) := isJson_written json
    rwa [← document_eq, whole] at composed_json
  rw [← document_eq, whole] at holds unreported
  constructor
  · intro tool access access_mem
    obtain ⟨carriers, bestEffort, verdict⟩ := verdict_judgeCoverage lasts
      (inputsOf document ⟨executable, writeOnly, writeOnlyFolders⟩ folders) access_mem
    exact ⟨carriers, bestEffort, verdict.trans (congrArg (fun causes => some (verdictOf carriers bestEffort causes))
      (toolCauses_eq_nil budget document_json holds unreported rendered tool access))⟩
  · intro judged judged_mem
    obtain ⟨file, file_mem, rfl⟩ := List.mem_map.mp judged_mem
    have supplied := (mem_of_foldl_pushUnique file_mem).resolve_left (by simp)
    exact verdictOf_eq_covered.trans (fileCauses_eq_nil holds unreported rendered supplied)

theorem compose_covered_fresh :
    let document :=
      (compose none [(propose ⟨⟨"/h", true⟩, ⟨"/c", true⟩⟩ "/b" [⟨"/f", true⟩] []).settings, renderHook "/b"]
        ⟨⟨"/h", true⟩, ⟨"/c", true⟩⟩ "/b").document
    let coverage := judgeCoverage (· == "10")
      { settings := document, hook := document, folders := ⟨⟨"/h", true⟩, ⟨"/c", true⟩⟩, executable := "/b",
        writeOnly := [⟨"/f", true⟩], unsupported := [] }
    (∀ tool, ∀ access ∈ tool.accesses,
      ∃ carriers bestEffort, coverage.verdict tool access = some (.covered carriers bestEffort)) ∧
    ∀ judged ∈ coverage.files,
      (∃ carriers bestEffort, judged.write = .covered carriers bestEffort) ↔
        ∀ entry ∈ strings (document.under ["sandbox", "filesystem", "allowWrite"]),
          reach entry judged.path.shown ≠ .within := by
  have nothing : (compose none [(propose ⟨⟨"/h", true⟩, ⟨"/c", true⟩⟩ "/b" [⟨"/f", true⟩] []).settings, renderHook "/b"]
      ⟨⟨"/h", true⟩, ⟨"/c", true⟩⟩ "/b").conflicts = [] := by rfl
  have empty : IsJson (.object []) := .object (by simp) (by simp)
  refine @compose_covered (· == "10") rfl none empty _ _ _ _ rfl ?_
  rw [nothing]
  simp

end Baley.Install
