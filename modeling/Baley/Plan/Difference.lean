import Baley.Json.Place
import Baley.Plan.Draft

/-!
# The difference of two plan drafts

The walk names the first part at which two drafts differ: the binding, then the plan's members in the
order the judge reads them, entry by entry and inside each spec by its kind.
-/

namespace Baley.Plan.Approval

open Json

/-! ## The walk -/

def planNames : List String :=
  ["phase", "stories", "files", "directories", "goal", "context", "notes", "tasks", "evidence_map",
    "questions"]

def taskNames : List String := ["id", "title", "files", "action", "verify"]

def itemNames : List String := ["id", "story", "truth", "truth_version", "kind", "spec", "reason"]

def artifactNames : List String := ["path", "record"]

def linkNames : List String := ["caller", "callee", "value"]

def observationNames : List String := ["what", "by"]

def checkNames : List String :=
  ["command", "expected", "test", "setup", "call", "level", "boundary", "fakes"]

def expectedNames : List String := ["kind", "value"]

def testNames : List String := ["file", "function"]

def questionNames : List String := ["id", "question", "recommended", "depends_on"]

mutual

/-- The path when two values differ, looking inside lists entry by entry. -/
def leaf (path : String) : Value → Value → Option String
  | .array items, .array items' => leafItems path 0 items items'
  | first, second => if first == second then none else some path
  termination_by structural first => first

def leafItems (path : String) (index : Nat) : List Value → List Value → Option String
  | [], [] => none
  | item :: items, item' :: items' =>
      (leaf (path ++ "[" ++ index.repr ++ "]") item item').or (leafItems path (index + 1) items items')
  | _, _ => some (path ++ "[" ++ index.repr ++ "]")
  termination_by structural items => items

end

/-- The first entry found differing, or the first position only one list holds. -/
def listItems (path : String) (each : String → Value → Value → Option String) (index : Nat) :
    List Value → List Value → Option String
  | [], [] => none
  | item :: items, item' :: items' =>
      (each (path ++ "[" ++ index.repr ++ "]") item item').or
        (listItems path each (index + 1) items items')
  | _, _ => some (path ++ "[" ++ index.repr ++ "]")

/-- The first differing entry, or the path itself when either value is not a list. -/
def list (path : String) (first second : Value) (each : String → Value → Value → Option String) :
    Option String :=
  match first, second with
  | .array items, .array items' => listItems path each 0 items items'
  | _, _ => if first == second then none else some path

/-- The first of some members that differs. -/
def members (names : List String) (path : String) (first second : Value) : Option String :=
  names.findSome? fun name => leaf (path ++ "." ++ name) (first.member name) (second.member name)

/-- The first differing member of two checks. -/
def check (path : String) (first second : Value) : Option String :=
  checkNames.findSome? fun name =>
    let inner := path ++ "." ++ name
    let held := first.member name
    let held' := second.member name
    if name = "expected" then members expectedNames inner held held'
    else if name = "test" then members testNames inner held held'
    else leaf inner held held'

/-- The first difference of two specs of a kind. -/
def spec (kind : Option String) (path : String) (first second : Value) : Option String :=
  if kind = some "artifact" then members artifactNames path first second
  else if kind = some "link" then members linkNames path first second
  else if kind = some "observation" then members observationNames path first second
  else if kind = some "check" then check path first second
  else leaf path first second

/-- The first differing member of two evidence items; the kinds are compared before the specs. -/
def item (path : String) (first second : Value) : Option String :=
  itemNames.findSome? fun name =>
    let inner := path ++ "." ++ name
    let held := first.member name
    let held' := second.member name
    if name ≠ "spec" then leaf inner held held'
    else spec (first.member "kind").asStr inner held held'

/-- The binding's path when two bindings differ. -/
def replaces : Option Replaces → Option Replaces → Option String
  | none, none => none
  | some first, some second =>
      if first.plan ≠ second.plan then some "replaces.plan"
      else if first.digest ≠ second.digest then some "replaces.digest"
      else none
  | _, _ => some "replaces"

/-- The first differing part of a plan's member. -/
def planMember (name : String) (first second : Value) : Option String :=
  if name = "tasks" then list name first second (members taskNames)
  else if name = "evidence_map" then list name first second item
  else if name = "questions" then list name first second (members questionNames)
  else leaf name first second

/-- The first part of two drafts that differs. -/
def difference (first second : RecordedPlan) : Option String :=
  (replaces first.replaces second.replaces).or
    (planNames.findSome? fun name =>
      planMember name (first.plan.member name) (second.plan.member name))

/-! ## Its places -/

mutual

/-- The places of a leaf: the entries of two lists, else the whole. -/
def leafPlaces : Value → Value → List Place
  | .array items, .array items' => leafItemPlaces 0 items items'
  | _, _ => [[]]
  termination_by structural first => first

def leafItemPlaces (index : Nat) : List Value → List Value → List Place
  | [], [] => []
  | item :: items, item' :: items' =>
      (leafPlaces item item').map (.index index :: ·) ++ leafItemPlaces (index + 1) items items'
  | _, _ => [[.index index]]
  termination_by structural items => items

end

/-- The places below the entries of two lists, up to the first position that only one holds. -/
def entryPlaces (places : Value → Value → List Place) (index : Nat) :
    List Value → List Value → List Place
  | [], [] => []
  | item :: items, item' :: items' =>
      (places item item').map (.index index :: ·) ++ entryPlaces places (index + 1) items items'
  | _, _ => [[.index index]]

def listPlaces (places : Value → Value → List Place) : Value → Value → List Place
  | .array items, .array items' => entryPlaces places 0 items items'
  | _, _ => [[]]

def membersPlaces (names : List String) (first second : Value) : List Place :=
  Place.memberPlaces names fun name => leafPlaces (first.member name) (second.member name)

def checkPlaces (first second : Value) : List Place :=
  Place.memberPlaces checkNames fun name =>
    if name = "expected" then membersPlaces expectedNames (first.member name) (second.member name)
    else if name = "test" then membersPlaces testNames (first.member name) (second.member name)
    else leafPlaces (first.member name) (second.member name)

def specPlaces (kind : Option String) (first second : Value) : List Place :=
  if kind = some "artifact" then membersPlaces artifactNames first second
  else if kind = some "link" then membersPlaces linkNames first second
  else if kind = some "observation" then membersPlaces observationNames first second
  else if kind = some "check" then checkPlaces first second
  else leafPlaces first second

def itemPlaces (first second : Value) : List Place :=
  Place.memberPlaces itemNames fun name =>
    if name ≠ "spec" then leafPlaces (first.member name) (second.member name)
    else specPlaces (first.member "kind").asStr (first.member name) (second.member name)

def planMemberPlaces (name : String) (first second : Value) : List Place :=
  if name = "tasks" then listPlaces (membersPlaces taskNames) first second
  else if name = "evidence_map" then listPlaces itemPlaces first second
  else if name = "questions" then listPlaces (membersPlaces questionNames) first second
  else leafPlaces first second

/-- The places of two plans. -/
def planPlaces (first second : Value) : List Place :=
  Place.memberPlaces planNames fun name =>
    planMemberPlaces name (first.member name) (second.member name)

/-! ## Each walk names the first of its places that differs -/

section Names

open Place

theorem names_listItems {each : String → Value → Value → Option String}
    {places : Value → Value → List Place} {before before' items items' : List Value}
    (lengths : before'.length = before.length)
    (each_names : ∀ item ∈ items, ∀ item', Names (each · item item') (places item item') item item') :
    Names (listItems · each before.length items items') (entryPlaces places before.length items items')
      (.array (before ++ items)) (.array (before' ++ items')) := by
  induction items generalizing before before' items' with
  | nil =>
      cases items' with
      | nil =>
          intro path
          rfl
      | cons item' items' =>
          intro path
          have only_second : differs (.array (before ++ [])) (.array (before' ++ item' :: items'))
              [.index before.length] = true := by
            simp [differs, Value.at_place, Value.part, ← lengths]
          change _ = ([[Step.index before.length]].find? _).map _
          rw [List.find?_cons_of_pos only_second]
          rfl
  | cons item items ih =>
      cases items' with
      | nil =>
          intro path
          have only_first : differs (.array (before ++ item :: items)) (.array (before' ++ []))
              [.index before.length] = true := by
            simp [differs, Value.at_place, Value.part, lengths]
          change _ = ([[Step.index before.length]].find? _).map _
          rw [List.find?_cons_of_pos only_first]
          rfl
      | cons item' items' =>
          rw [List.forall_mem_cons] at each_names
          have first_part : (Value.array (before ++ item :: items)).part (.index before.length) = some item := by
            simp [Value.part]
          have second_part : (Value.array (before' ++ item' :: items')).part (.index before.length) =
              some item' := by
            simp [Value.part, ← lengths]
          have rest := @ih (before ++ [item]) (before' ++ [item']) items' (by simp [lengths]) each_names.2
          rw [List.append_assoc, List.append_assoc, List.length_append] at rest
          intro path
          have rest_path := rest path
          dsimp only [List.length_singleton, List.singleton_append] at rest_path ⊢
          have here := each_names.1 item' (path ++ "[" ++ before.length.repr ++ "]")
          dsimp only at here
          rw [listItems, entryPlaces, List.find?_append, find?_below first_part second_part, rest_path,
            here]
          cases (places item item').find? (differs item item') <;> rfl

theorem leafItems_eq (path : String) (index : Nat) (items items' : List Value) :
    leafItems path index items items' = listItems path leaf index items items' := by
  induction items generalizing index items' with
  | nil => cases items' <;> rfl
  | cons item items ih =>
      cases items' with
      | nil => rfl
      | cons item' items' => rw [leafItems, listItems, ih]

theorem leafItemPlaces_eq (index : Nat) (items items' : List Value) :
    leafItemPlaces index items items' = entryPlaces leafPlaces index items items' := by
  induction items generalizing index items' with
  | nil => cases items' <;> rfl
  | cons item items ih =>
      cases items' with
      | nil => rfl
      | cons item' items' => rw [leafItemPlaces, entryPlaces, ih]

theorem names_leaf (first second : Value) :
    Names (leaf · first second) (leafPlaces first second) first second := by
  induction first using Value.induction generalizing second with
  | array items ih =>
      cases second with
      | array items' =>
          have entries := @names_listItems leaf leafPlaces [] [] items items' rfl ih
          intro path
          change leafItems path 0 items items' = ((leafItemPlaces 0 items items').find? _).map _
          rw [leafItems_eq, leafItemPlaces_eq]
          exact entries path
      | _ => exact names_whole fun _ => rfl
  | _ => exact names_whole fun _ => rfl

theorem names_list {each : String → Value → Value → Option String} {places : Value → Value → List Place}
    {first second : Value}
    (each_names : ∀ item item', Names (each · item item') (places item item') item item') :
    Names (list · first second each) (listPlaces places first second) first second := by
  cases first with
  | array items =>
      cases second with
      | array items' =>
          exact @names_listItems each places [] [] items items' rfl fun item _ => each_names item
      | _ => exact names_whole fun _ => rfl
  | _ => exact names_whole fun _ => rfl

theorem names_membersOf (names : List String) (first second : Value) :
    Names (members names · first second) (membersPlaces names first second) first second :=
  @names_members names (fun name path => leaf path (first.member name) (second.member name)) _ _ _
    fun _ _ => names_leaf _ _

theorem names_check (first second : Value) :
    Names (check · first second) (checkPlaces first second) first second := by
  refine @names_members checkNames (fun name inner =>
    if name = "expected" then members expectedNames inner (first.member name) (second.member name)
    else if name = "test" then members testNames inner (first.member name) (second.member name)
    else leaf inner (first.member name) (second.member name)) _ _ _ fun name _ => ?_
  split_ifs
  · exact names_membersOf _ _ _
  · exact names_membersOf _ _ _
  · exact names_leaf _ _

theorem names_spec (kind : Option String) (first second : Value) :
    Names (spec kind · first second) (specPlaces kind first second) first second := by
  unfold spec specPlaces
  split_ifs
  · exact names_membersOf _ _ _
  · exact names_membersOf _ _ _
  · exact names_membersOf _ _ _
  · exact names_check _ _
  · exact names_leaf _ _

theorem names_item (first second : Value) :
    Names (item · first second) (itemPlaces first second) first second := by
  refine @names_members itemNames (fun name inner =>
    if name ≠ "spec" then leaf inner (first.member name) (second.member name)
    else spec (first.member "kind").asStr inner (first.member name) (second.member name)) _ _ _
    fun name _ => ?_
  split_ifs
  · exact names_leaf _ _
  · exact names_spec _ _ _

theorem names_planMember (name : String) (first second : Value) (path : String) (path_eq : path = name) :
    planMember name first second =
      ((planMemberPlaces name first second).find? (differs first second)).map (below path) := by
  subst path_eq
  unfold planMember planMemberPlaces
  split_ifs
  · exact names_list (names_membersOf _) path
  · exact names_list names_item path
  · exact names_list (names_membersOf _) path
  · exact names_leaf _ _ path

end Names

end Baley.Plan.Approval
