import Baley.Install.Compose
import Baley.Install.Merge
import Baley.Plan.Draft

/-!
# The decision on the owner's settings file

Older entries leave on the install record's evidence, this binary's entries are composed in, and what
composition found is a refusal, a gap or a replaced value to report.  What is composed in is merging one
document, and what is removed is filtering the lists that hold its items.
-/

namespace Baley.Install

open Json

/-- The settings file as a read found it. -/
structure Current where
  /-- The object the file holds, or an empty one when it is absent. -/
  document : Value
  symbolicLink : Bool
  readDigest : Option String

/-! ## Removing what the record lists -/

/-- Keep the items of a list that pass. -/
def retain (keeps : Value → Bool) : Value → Value
  | .array items => .array (items.filter keeps)
  | value => value

/-- Whether an entry stays: it is no text, the record does not list it, or this binary still renders it. -/
def staysListed (recorded ours : List String) (entry : Value) : Bool :=
  entry.asStr.all fun entry => !recorded.contains entry || ours.contains entry

/-- Remove from a list what the record lists and this binary no longer renders. -/
def removeListed (latest : Value) (pointer recorded : List String) (ours : List String)
    (document : Value) : Value :=
  document.alterUnder (retain (staysListed (strings (latest.under recorded)) ours)) pointer

/-- Remove the recorded hook item when it differs from this binary's. -/
def removeHook (latest : Value) (ours : Value) (document : Value) : Value :=
  match latest.under ["registered", "hook", "item"] with
  | some item =>
      if item.same ours then document
      else document.alterUnder (retain fun existing => !existing.same item) ["hooks", "PreToolUse"]
  | none => document

/-- Remove older entries on the latest record's evidence. -/
def removeRecorded (document : Value) (latest : Option Value) (ours : Ours) (keepSandbox : Bool) : Value :=
  match latest with
  | none => document
  | some latest =>
      let document := removeHook latest ours.hookItem document
      let document := removeListed latest ["permissions", "deny"] ["sandbox", "permissions_deny"]
        ours.lists.permissionsDeny document
      if keepSandbox then document
      else
        removeListed latest ["sandbox", "filesystem", "denyWrite"] ["sandbox", "deny_write"]
          ours.lists.denyWrite
          (removeListed latest ["sandbox", "filesystem", "denyRead"] ["sandbox", "deny_read"]
            ours.lists.denyRead document)

/-! ## The decision -/

/-- An owner value that Baley's own secure value replaced. -/
structure Replaced where
  key : String
  was : Value

/-- What the settings decision reads. -/
structure Input where
  path : HostPath
  current : Current
  latest : Option Value
  placements : PlacementMap
  folders : Folders
  /-- Why the sandbox block is left out, with a gap for each cause, when the platform cannot run it. -/
  heldBack : Option (String × List String)
  /-- Whether this binary's hook item is composed in. -/
  wire : Bool

/-- Baley's entries in the composed document, for the install record. -/
structure Entries where
  hook : Option Value
  lists : DenyLists

structure Decision where
  /-- The bytes to write, or none when the composed document equals the one read. -/
  bytes : Option (List UInt8)
  readDigest : Option String
  read : Value
  document : Value
  replaced : List Replaced
  gaps : List String
  entries : Entries
  heldBack : Option String
  hookItem : Value

def byHand : String := "fix it by hand, then run baley install again"

/-- The line of a conflict that refuses the decision. -/
def refusal (file : String) : Conflict → Option String
  | .notComposable key => some
      ("install-settings-conflict: " ++ file ++ " holds `" ++ key ++
        "` as a kind of value Baley cannot add its entries to; " ++ byHand)
  | .otherGuardHook item => some
      ("install-ownership-conflict: the guard hook at " ++ file ++
        " holds a PreToolUse item that runs another guard command than the one Baley wrote: " ++
        String.ofList (lineText item) ++ "; remove it, then run baley install again")
  | .otherRegistration entry => some
      ("install-ownership-conflict: mcpServers.baley at " ++ file ++
        " holds an entry that is not the one Baley wrote: " ++ String.ofList (lineText entry) ++
        "; remove it, then run baley install again")
  | _ => none

def secureValue (setting : String) : Bool := setting ≠ "sandbox.allowUnsandboxedCommands"

/-- The line of a setting that leaves the protection off. -/
def gap (file : String) : Conflict → Option String
  | .disabled setting => some
      (if setting = "disableAllHooks" then
        "disableAllHooks is true in " ++ file ++
          ", so no hook runs the guard; remove it or set it to false"
      else if setting = "sandbox.filesystem.disabled" then
        "sandbox.filesystem.disabled is true in " ++ file ++
          ", so the sandbox's filesystem rules do not apply; remove it or set it to false"
      else
        setting ++ " in " ++ file ++ " is not its secure value; set it to " ++
          toString (secureValue setting))
  | .reopened list entry => some
      ("`" ++ entry ++ "` is listed in sandbox.filesystem." ++ list ++ " in " ++ file ++
        ", which re-opens a Baley folder; remove it")
  | .unjudged list entry => some
      ("`" ++ entry ++ "` is listed in sandbox.filesystem." ++ list ++ " in " ++ file ++
        " and is not an absolute path, so whether it re-opens a Baley folder cannot be judged; " ++
        "write it as an absolute path outside Baley's folders or remove it")
  | .excluded entry => some
      ("`" ++ entry ++ "` is listed in sandbox.excludedCommands in " ++ file ++
        ", so it runs outside the sandbox; remove it")
  | _ => none

def replacedOf : Conflict → Option Replaced
  | .replaced key was => some ⟨key, was⟩
  | _ => none

def unrenderedGap (file : String) (unrendered : Unrendered) : String :=
  let fix :=
    match unrendered with
    | .missingPrerequisite .. => "use an absolute UTF-8 path"
    | .unsupportedCharacter .. => "use a path without that character"
  unrendered.text ++ ", so the deny rules in " ++ file ++ " leave it unprotected; " ++ fix

def notUtf8Line (file : String) (folder : HostPath) : String :=
  "install-settings-conflict: Baley's folder " ++ folder.shown ++
    " is not valid UTF-8, so its deny rules cannot be written to " ++ file ++
    "; move it to a UTF-8 path, then run baley install again"

def linkLine (file : String) : String :=
  "install-settings-conflict: " ++ file ++
    " is a symbolic link, which Baley does not write through " ++
    "(fix: edit the file it points to by hand, or replace the link with a regular file)"

/-- The entries the latest record lists that the document still holds. -/
def stillHeld (document : Value) (latest : Option Value) (pointer recorded : List String) : List String :=
  let held := strings (document.under pointer)
  (strings (latest.bind (Value.under recorded))).filter held.contains

/-- The proposal to compose: without the sandbox block while that is held back. -/
def proposalOf (ours : Ours) (held : Bool) : Value :=
  match ours.proposal.settings with
  | .object members => .object (if held then members.filter fun member => member.1 ≠ "sandbox" else members)
  | settings => settings

/-- What is composed into the document. -/
def oursToCompose (input : Input) : List Value :=
  proposalOf (ours input.placements input.folders) input.heldBack.isSome ::
    if input.wire then [renderHook input.placements.executable] else []

/-- The document after removal. -/
def removed (input : Input) : Value :=
  removeRecorded input.current.document input.latest (ours input.placements input.folders)
    input.heldBack.isSome

/-- The document after removal and composition. -/
def composed (input : Input) : Composed :=
  compose (some (removed input)) (oursToCompose input) input.folders input.placements.executable

/-- Decide what happens to the settings file. -/
def judge (input : Input) : Except (List String) Decision :=
  let file := input.path.shown
  let notUtf8 := [input.folders.home, input.folders.config].filter fun folder => !folder.utf8
  if notUtf8 ≠ [] then .error (notUtf8.map (notUtf8Line file))
  else
    let ours := ours input.placements input.folders
    let composed := composed input
    let document := composed.document
    let refusals := composed.conflicts.filterMap (refusal file)
    if refusals ≠ [] then .error refusals
    else
      let changes := !document.same input.current.document
      if changes && input.current.symbolicLink then .error [linkLine file]
      else
        let sandbox := fun pointer key lists =>
          if input.heldBack.isSome then stillHeld document input.latest pointer ["sandbox", key] else lists
        .ok
          { bytes := if changes then some (utf8 (prettyText 0 document) ++ [0x0a]) else none
            readDigest := input.current.readDigest
            read := input.current.document
            document
            replaced := composed.conflicts.filterMap replacedOf
            gaps :=
              composed.conflicts.filterMap (gap file) ++
                ours.proposal.unrendered.map (unrenderedGap file) ++
                (input.heldBack.map Prod.snd).getD []
            entries :=
              { hook := if (guardItems document).any (·.same ours.hookItem) then some ours.hookItem else none
                lists :=
                  { permissionsDeny := ours.lists.permissionsDeny
                    denyRead :=
                      sandbox ["sandbox", "filesystem", "denyRead"] "deny_read" ours.lists.denyRead
                    denyWrite :=
                      sandbox ["sandbox", "filesystem", "denyWrite"] "deny_write" ours.lists.denyWrite } }
            heldBack := input.heldBack.map Prod.fst
            hookItem := ours.hookItem }

/-! ## The entries as one document -/

theorem strings_denyList (items : List String) : strings (some (denyList items)) = items := by
  rw [denyList, strings, List.filterMap_map]
  exact List.filterMap_some

/-- The proposal holds exactly the lists it is read for. -/
theorem settings_ours (placements : PlacementMap) (folders : Folders) :
    (ours placements folders).proposal.settings =
      .object
        [("sandbox",
            sandboxOf (ours placements folders).lists.denyRead (ours placements folders).lists.denyWrite),
          ("permissions", permissionsOf (ours placements folders).lists.permissionsDeny)] := by
  obtain ⟨denyRead, denyWrite, deny, shape⟩ : ∃ denyRead denyWrite deny,
      (ours placements folders).proposal.settings =
        .object [("sandbox", sandboxOf denyRead denyWrite), ("permissions", permissionsOf deny)] :=
    ⟨_, _, _, rfl⟩
  have read : (ours placements folders).lists.denyRead = denyRead := by
    rw [ours] at shape ⊢
    dsimp only at shape ⊢
    rw [shape]
    exact strings_denyList denyRead
  have write : (ours placements folders).lists.denyWrite = denyWrite := by
    rw [ours] at shape ⊢
    dsimp only at shape ⊢
    rw [shape]
    exact strings_denyList denyWrite
  have permissions : (ours placements folders).lists.permissionsDeny = deny := by
    rw [ours] at shape ⊢
    dsimp only at shape ⊢
    rw [shape]
    exact strings_denyList deny
  rw [read, write, permissions, shape]

/-- Baley's entries, as the members of one document. -/
def ourEntries (input : Input) : Members :=
  let ours := ours input.placements input.folders
  (if input.heldBack.isSome then []
    else [("sandbox", sandboxOf ours.lists.denyRead ours.lists.denyWrite)]) ++
  [("permissions", permissionsOf ours.lists.permissionsDeny)] ++
  if input.wire then [("hooks", .object [("PreToolUse", .array [ours.hookItem])])] else []

theorem mergeFields_append (members : Members) (key : String) (fields fields' : List (String × Value)) :
    mergeFields members key (fields ++ fields') =
      let first := mergeFields members key fields
      let second := mergeFields first.1 key fields'
      (second.1, first.2 ++ second.2) := by
  induction fields generalizing members with
  | nil => rfl
  | cons field fields ih =>
      rw [List.cons_append, mergeFields, mergeFields]
      dsimp only
      rw [ih]
      dsimp only
      rw [List.append_assoc]

/-- Composing the parts is merging Baley's entries once. -/
theorem composed_eq {input : Input} {members : Members} (document_eq : removed input = .object members) :
    composed input =
      { document := (merge (removed input) "" (.object (ourEntries input))).1
        conflicts :=
          (merge (removed input) "" (.object (ourEntries input))).2 ++
            scan (merge (removed input) "" (.object (ourEntries input))).1 input.folders
              input.placements.executable } := by
  have proposal : proposalOf (ours input.placements input.folders) input.heldBack.isSome =
      .object ((if input.heldBack.isSome then [] else
          [("sandbox", sandboxOf (ours input.placements input.folders).lists.denyRead
            (ours input.placements input.folders).lists.denyWrite)]) ++
        [("permissions", permissionsOf (ours input.placements input.folders).lists.permissionsDeny)]) := by
    rw [proposalOf, settings_ours]
    cases input.heldBack.isSome <;> rfl
  rw [composed, compose, oursToCompose, proposal, document_eq, ourEntries]
  cases input.wire with
  | false => simp [merge]
  | true =>
      dsimp only
      rw [if_pos rfl, if_pos rfl, merge, mergeFields_append]
      simp [merge, renderHook, ours]

/-! ## Their shape -/

theorem isJson_denyList (items : List String) : IsJson (denyList items) := by
  refine .array fun item item_mem => ?_
  obtain ⟨text, -, rfl⟩ := List.mem_map.mp item_mem
  exact .string text

theorem isJson_single {name : String} {value : Value} (json : IsJson value) : IsJson (.object [(name, value)]) :=
  .object (List.nodup_singleton name) fun member member_mem => by
    rw [List.mem_singleton.mp member_mem]
    exact json

theorem isJson_permissionsOf (deny : List String) : IsJson (permissionsOf deny) := isJson_single (isJson_denyList deny)

theorem isJson_sandboxOf (denyRead denyWrite : List String) : IsJson (sandboxOf denyRead denyWrite) := by
  refine .object (by simp) ?_
  simp only [List.forall_mem_cons]
  refine ⟨.bool _, .bool _, .bool _, .object (by simp) ?_, by simp⟩
  simp only [List.forall_mem_cons]
  exact ⟨isJson_denyList denyRead, isJson_denyList denyWrite, by simp⟩

theorem isJson_hookItem (executable : String) : IsJson (hookItem executable) := by
  refine .object (by simp) ?_
  simp only [List.forall_mem_cons]
  refine ⟨.string _, .array fun handler handler_mem => ?_, by simp⟩
  rw [List.mem_singleton.mp handler_mem]
  refine .object (by simp) ?_
  simp only [List.forall_mem_cons]
  exact ⟨.string _, .string _, Plan.isJson_ofNat _, by simp⟩

theorem isJson_ourEntries (input : Input) : IsJson (.object (ourEntries input)) := by
  have hook : IsJson (.object [("PreToolUse", .array [(ours input.placements input.folders).hookItem])]) :=
    isJson_single (.array fun item item_mem => by
      rw [List.mem_singleton.mp item_mem]
      exact isJson_hookItem _)
  rw [ourEntries]
  cases input.heldBack.isSome <;> cases input.wire <;>
    refine .object (by simp) ?_ <;>
    simp [isJson_sandboxOf, isJson_permissionsOf, hook]

theorem serverless_of_flat {value : Value} (flat : value.asObject = none) : Serverless value := by
  rintro (- | ⟨name, names⟩) held found
  · rw [← Option.some.inj found]
    cases value with
    | object _ => cases flat
    | _ => rfl
  · cases value with
    | object _ => cases flat
    | _ => cases found

theorem serverless_object {fields : Members} (each : ∀ field ∈ fields, field.1 ≠ "baley" ∧ Serverless field.2) :
    Serverless (.object fields) := by
  rintro (- | ⟨name, names⟩) held found
  · rw [← Option.some.inj found, Value.get?_object, Members.lookup_eq_none_iff]
    intro named
    obtain ⟨field, field_mem, name_eq⟩ := List.mem_map.mp named
    exact (each field field_mem).1 name_eq
  · rw [Value.under, Option.bind_eq_some_iff] at found
    obtain ⟨part, part_found, found⟩ := found
    exact (each _ (Members.mem_of_lookup part_found)).2 names held found

theorem serverless_ourEntries (input : Input) : Serverless (.object (ourEntries input)) := by
  have array : ∀ items, Serverless (.array items) := fun items => serverless_of_flat rfl
  have bool : ∀ flag, Serverless (.bool flag) := fun flag => serverless_of_flat rfl
  have hook : Serverless (.object [("PreToolUse", .array [(ours input.placements input.folders).hookItem])]) :=
    serverless_object (by simp [array])
  have permissions : ∀ deny, Serverless (permissionsOf deny) := fun deny =>
    serverless_object (by simp [array, denyList])
  have filesystem : ∀ denyRead denyWrite : List String,
      Serverless (.object [("denyRead", denyList denyRead), ("denyWrite", denyList denyWrite)]) :=
    fun denyRead denyWrite => serverless_object (by simp [array, denyList])
  have sandbox : ∀ denyRead denyWrite, Serverless (sandboxOf denyRead denyWrite) := fun denyRead denyWrite =>
    serverless_object (by simp [bool, filesystem])
  rw [ourEntries]
  cases input.heldBack.isSome <;> cases input.wire <;>
    exact serverless_object (by simp [sandbox, permissions, hook])

/-! ## Where they end -/

mutual

/-- The paths at which a value ends. -/
def ends : Value → List (List String)
  | .object [] => [[]]
  | .object (field :: fields) => endsFields (field :: fields)
  | _ => [[]]
  termination_by structural value => value

def endsFields : List (String × Value) → List (List String)
  | [] => []
  | field :: fields => (ends field.2).map (field.1 :: ·) ++ endsFields fields
  termination_by structural fields => fields

end

theorem mem_endsFields {fields : Members} {field : String × Value} (field_mem : field ∈ fields) {path : List String}
    (path_mem : path ∈ ends field.2) : field.1 :: path ∈ endsFields fields := by
  induction fields with
  | nil => cases field_mem
  | cons head fields ih =>
      rw [endsFields, List.mem_append]
      rcases List.mem_cons.mp field_mem with rfl | field_mem
      · exact .inl (List.mem_map_of_mem path_mem)
      · exact .inr (ih field_mem)

theorem ends_ne_nil {value : Value} (json : IsJson value) : ∃ path, path ∈ ends value := by
  induction json with
  | @object fields _ _ ih =>
      cases fields with
      | nil => exact ⟨[], List.mem_singleton_self _⟩
      | cons field fields =>
          obtain ⟨path, path_mem⟩ := ih field List.mem_cons_self
          exact ⟨_, mem_endsFields List.mem_cons_self path_mem⟩
  | _ => exact ⟨[], List.mem_singleton_self _⟩

theorem mem_ends_object {fields : Members} {field : String × Value} (field_mem : field ∈ fields)
    {path : List String} (path_mem : path ∈ ends field.2) : field.1 :: path ∈ ends (.object fields) := by
  cases fields with
  | nil => cases field_mem
  | cons _ _ => exact mem_endsFields field_mem path_mem

/-- A part that is no object ends its value. -/
theorem mem_ends_of_flat {value part : Value} {names : List String} (found : value.under names = some part)
    (flat : part.asObject = none) : names ∈ ends value := by
  induction names generalizing value with
  | nil =>
      rw [← Option.some.inj found] at flat
      cases value with
      | object _ => cases flat
      | _ => exact List.mem_singleton_self _
  | cons name names ih =>
      rw [Value.under, Option.bind_eq_some_iff] at found
      obtain ⟨held, held_eq, found⟩ := found
      cases value with
      | object fields => exact mem_ends_object (Members.mem_of_lookup held_eq) (ih found)
      | _ => cases held_eq

/-- A path apart from every end of a value leaves it at an object without the name. -/
theorem lacks_of_apart {value : Value} (json : IsJson value) {names : List String}
    (apart : ∀ path ∈ ends value, Value.Apart path names) : lacks names value = true := by
  induction names generalizing value with
  | nil =>
      obtain ⟨path, path_mem⟩ := ends_ne_nil json
      exact absurd List.nil_prefix (apart path path_mem).2
  | cons name names ih =>
      have at_end : ∀ {value : Value}, (∀ path ∈ ends value, Value.Apart path (name :: names)) → [] ∉ ends value :=
        fun apart path_mem => (apart [] path_mem).1 List.nil_prefix
      cases value with
      | object fields =>
          rw [lacks]
          cases found : Members.lookup name fields with
          | none => rfl
          | some held =>
              refine ih (json.get? found) fun path path_mem => ?_
              exact Value.apart_cons.mp
                (apart (name :: path) (mem_ends_object (Members.mem_of_lookup found) path_mem)) rfl
      | _ => exact absurd (List.mem_singleton_self _) (at_end apart)

/-! ## The paths and the lists -/

/-- Where Baley's entries lie in the settings. -/
def entryPaths (held : Bool) : List (List String) :=
  [["hooks", "PreToolUse"], ["permissions", "deny"]] ++
    if held then []
    else
      [["sandbox", "enabled"], ["sandbox", "failIfUnavailable"], ["sandbox", "allowUnsandboxedCommands"],
        ["sandbox", "filesystem", "denyRead"], ["sandbox", "filesystem", "denyWrite"]]

theorem ends_ourEntries {input : Input} {path : List String}
    (path_mem : path ∈ ends (.object (ourEntries input))) : path ∈ entryPaths input.heldBack.isSome := by
  revert path_mem
  rw [ourEntries]
  cases input.heldBack.isSome <;> cases input.wire <;>
    simp [ends, endsFields, sandboxOf, permissionsOf, denyList, entryPaths] <;>
    tauto

/-- A list of the settings that holds items of Baley's. -/
structure OwnedList where
  pointer : List String
  /-- Whether an item stays on the record's evidence. -/
  stays : Value → Bool
  ours : List Value

/-- Whether a hook item stays: it is not the recorded one, or that is this binary's. -/
def staysHook (latest : Option Value) (hookItem item : Value) : Bool :=
  match latest.bind (Value.under ["registered", "hook", "item"]) with
  | some recorded => recorded.same hookItem || !item.same recorded
  | none => true

/-- The lists, each with what the record says of it and what this binary puts there. -/
def ownedLists (input : Input) : List OwnedList :=
  let ours := ours input.placements input.folders
  let recorded := fun key => strings (input.latest.bind (Value.under ["sandbox", key]))
  [{ pointer := ["hooks", "PreToolUse"]
     stays := staysHook input.latest ours.hookItem
     ours := if input.wire then [ours.hookItem] else [] },
    { pointer := ["permissions", "deny"]
      stays := staysListed (recorded "permissions_deny") ours.lists.permissionsDeny
      ours := ours.lists.permissionsDeny.map .string }] ++
    if input.heldBack.isSome then []
    else
      [{ pointer := ["sandbox", "filesystem", "denyRead"]
         stays := staysListed (recorded "deny_read") ours.lists.denyRead
         ours := ours.lists.denyRead.map .string },
        { pointer := ["sandbox", "filesystem", "denyWrite"]
          stays := staysListed (recorded "deny_write") ours.lists.denyWrite
          ours := ours.lists.denyWrite.map .string }]

/-- Filter each list, in order. -/
def retainEach (lists : List OwnedList) (document : Value) : Value :=
  lists.foldl (fun document owned => document.alterUnder (retain owned.stays) owned.pointer) document

theorem retain_all {keeps : Value → Bool} (all : ∀ item, keeps item = true) (value : Value) :
    retain keeps value = value := by
  cases value with
  | array items =>
      rw [retain, List.filter_eq_self.mpr fun item _ => all item]
  | _ => rfl

theorem removeHook_eq (latest hookItem document : Value) :
    removeHook latest hookItem document =
      document.alterUnder (retain (staysHook (some latest) hookItem)) ["hooks", "PreToolUse"] := by
  have stays : staysHook (some latest) hookItem = fun item =>
      match latest.under ["registered", "hook", "item"] with
      | some recorded => recorded.same hookItem || !item.same recorded
      | none => true := rfl
  rw [removeHook, stays]
  cases latest.under ["registered", "hook", "item"] with
  | none => exact (Value.alterUnder_eq_self fun held _ => retain_all (fun _ => rfl) held).symm
  | some recorded =>
      cases same : recorded.same hookItem with
      | true =>
          dsimp only
          rw [same, if_pos rfl]
          exact (Value.alterUnder_eq_self fun held _ => retain_all (fun _ => rfl) held).symm
      | false => simp [same]

/-- Removal filters Baley's lists. -/
theorem removed_eq (input : Input) : removed input = retainEach (ownedLists input) input.current.document := by
  rw [removed, ownedLists]
  cases input.latest with
  | none =>
      rw [removeRecorded]
      have kept : ∀ (pointer ours : List String) (document : Value),
          document.alterUnder (retain (staysListed (strings none) ours)) pointer = document :=
        fun pointer ours document => Value.alterUnder_eq_self fun held _ =>
          retain_all (fun item => by cases item <;> simp [staysListed, strings, Value.asStr]) held
      have kept_hook : ∀ (hookItem document : Value),
          document.alterUnder (retain (staysHook none hookItem)) ["hooks", "PreToolUse"] = document :=
        fun hookItem document => Value.alterUnder_eq_self fun held _ => retain_all (fun _ => rfl) held
      cases input.heldBack.isSome <;> simp [retainEach, kept, kept_hook]
  | some latest =>
      rw [removeRecorded]
      cases input.heldBack.isSome <;> simp [retainEach, removeHook_eq, removeListed]

/-! ## What lies at the paths -/

section Entries

variable {input : Input}

/-- A part of Baley's entries that is no object is a switch or one of the lists. -/
theorem under_ourEntries_flat {names : List String} {value : Value}
    (found : Value.under names (.object (ourEntries input)) = some value) (flat : value.asObject = none) :
    (input.heldBack = none ∧ ∃ switch ∈ switches, names = switch.1 ∧ value = .bool switch.2.2) ∨
      ∃ owned ∈ ownedLists input, names = owned.pointer ∧ value = .array owned.ours := by
  have path_mem := ends_ourEntries (mem_ends_of_flat found flat)
  revert path_mem found
  rw [ourEntries, ownedLists]
  cases input.heldBack <;> cases input.wire <;>
    simp [entryPaths, switches] <;>
    rintro found (rfl | rfl | rfl | rfl | rfl | rfl | rfl) <;>
    simp_all [Value.under, Members.lookup_cons, sandboxOf, permissionsOf, denyList]

theorem under_switch (composed_in : input.heldBack = none) {switch : List String × String × Bool}
    (switch_mem : switch ∈ switches) :
    Value.under switch.1 (.object (ourEntries input)) = some (.bool switch.2.2) := by
  rw [ourEntries, composed_in]
  simp only [switches, List.mem_cons, List.not_mem_nil, or_false] at switch_mem
  rcases switch_mem with rfl | rfl | rfl <;>
    simp [Value.under, Members.lookup_cons, sandboxOf]

/-- Each list is among Baley's entries, but for the hook's while it is not wired. -/
theorem under_owned {owned : OwnedList} (owned_mem : owned ∈ ownedLists input) :
    Value.under owned.pointer (.object (ourEntries input)) = some (.array owned.ours) ∨
      owned.ours = [] ∧ lacks owned.pointer (.object (ourEntries input)) = true := by
  revert owned_mem
  rw [ourEntries, ownedLists]
  cases input.heldBack <;> cases input.wire <;>
    simp only [List.mem_append, List.mem_cons, List.not_mem_nil, or_false, Option.isSome, if_true,
      Bool.false_eq_true, if_false] <;>
    rintro ((rfl | rfl) | (rfl | rfl)) <;>
    simp [Value.under, lacks, Members.lookup_cons, sandboxOf, permissionsOf, denyList]

theorem under_owned_of_wired (wired : input.wire = true) {owned : OwnedList} (owned_mem : owned ∈ ownedLists input) :
    Value.under owned.pointer (.object (ourEntries input)) = some (.array owned.ours) := by
  rcases under_owned owned_mem with found | ⟨-, lacking⟩
  · exact found
  · revert owned_mem lacking
    rw [ourEntries, ownedLists, wired]
    cases input.heldBack <;>
      simp only [List.mem_append, List.mem_cons, List.not_mem_nil, or_false, Option.isSome, if_true,
        Bool.false_eq_true, if_false] <;>
      rintro ((rfl | rfl) | (rfl | rfl)) <;>
      simp [lacks, Members.lookup_cons, sandboxOf, permissionsOf]

theorem pointer_mem_entryPaths {owned : OwnedList} (owned_mem : owned ∈ ownedLists input) :
    owned.pointer ∈ entryPaths input.heldBack.isSome := by
  have pointer_mem := List.mem_map_of_mem (f := OwnedList.pointer) owned_mem
  revert pointer_mem
  rw [ownedLists]
  cases input.heldBack with
  | none => simp [entryPaths]; tauto
  | some _ => simp [entryPaths]

theorem pointers_apart (input : Input) :
    (ownedLists input).Pairwise fun first second => Value.Apart first.pointer second.pointer := by
  rw [ownedLists]
  cases input.heldBack <;> simp [Value.Apart, List.cons_prefix_cons]

theorem switch_apart {owned : OwnedList} (owned_mem : owned ∈ ownedLists input)
    {switch : List String × String × Bool} (switch_mem : switch ∈ switches) :
    Value.Apart owned.pointer switch.1 := by
  have pointers : owned.pointer ∈ [["hooks", "PreToolUse"], ["permissions", "deny"],
      ["sandbox", "filesystem", "denyRead"], ["sandbox", "filesystem", "denyWrite"]] := by
    have pointer_mem := List.mem_map_of_mem (f := OwnedList.pointer) owned_mem
    revert pointer_mem
    rw [ownedLists]
    cases input.heldBack with
    | none => simp
    | some _ => simp; tauto
  simp only [List.mem_cons, List.not_mem_nil, or_false] at pointers
  simp only [switches, List.mem_cons, List.not_mem_nil, or_false] at switch_mem
  rcases pointers with pointer_eq | pointer_eq | pointer_eq | pointer_eq <;>
    rcases switch_mem with rfl | rfl | rfl <;>
    simp [Value.Apart, pointer_eq, List.cons_prefix_cons]

theorem foldl_dotted_switch {switch : List String × String × Bool} (switch_mem : switch ∈ switches) :
    switch.1.foldl dotted "" = switch.2.1 := by
  simp only [switches, List.mem_cons, List.not_mem_nil, or_false] at switch_mem
  rcases switch_mem with rfl | rfl | rfl <;> simp [dotted]

/-- Above a path that no switch leads to, Baley's entries hold no leaf. -/
theorem no_leaf_above {names : List String}
    (no_switch : input.heldBack = none → ∀ switch ∈ switches, ¬switch.1 <+: names) {above : List String}
    {value : Value} (is_above : above <+: names) (found : Value.under above (.object (ourEntries input)) = some value) :
    isLeaf value = false := by
  cases value with
  | object _ | array _ => rfl
  | _ =>
      rcases under_ourEntries_flat found rfl with ⟨composed_in, switch, switch_mem, rfl, -⟩ | ⟨owned, -, -, array⟩
      · exact absurd is_above (no_switch composed_in switch switch_mem)
      · cases array

theorem isJson_owned {owned : OwnedList} (owned_mem : owned ∈ ownedLists input) :
    ∀ item ∈ owned.ours, IsJson item := by
  rcases under_owned owned_mem with found | ⟨empty, -⟩
  · cases (isJson_ourEntries input).under found with
    | array items_json => exact items_json
  · simp [empty]

end Entries

end Baley.Install
