import Baley.Plan.Lease

/-!
# The tasks of a plan

Each task is read whole before the next, and every file a task touches must lie inside the lease.
-/

namespace Baley

open Json

/-- One task of a plan, its texts kept exactly as written. -/
structure PlanTask where
  id : String
  title : String
  /-- The files it touches, in submitted order. -/
  files : List String
  action : String
  /-- The commands that verify it. -/
  verify : List String
  deriving DecidableEq

namespace PlanTask

open Plan

def members : List String := ["id", "title", "files", "action", "verify"]

/-- A list of texts, each kept by a test.  The error is nothing when the member is missing or not a
list, and the first failing position otherwise. -/
def textList (object : Members) (name : String) (keep : String → Bool) :
    Except (Option Nat) (List String) :=
  match listMember object name with
  | none => .error none
  | some entries =>
      entries.zipIdx.mapM fun entry => .ofOption (some entry.2) (entry.1.asStr.filter fun text => keep text)

/-- The refusal of a list of texts. -/
def listFault (path name : String) : Option Nat → PlanRefusal
  | none => typedAt path name
  | some position => typedAt path s!"{name}[{position}]"

/-- One task read, no id twice. -/
def readOne (position : Nat) (seen : List String) (entry : Value) : Except PlanRefusal PlanTask := do
  let path := s!"tasks[{position}]"
  let object ← objectAt path entry members
  let id ← .ofOption (typedAt path "id")
    ((textMember object "id").filter fun id => isBlank id = false ∧ id ∉ seen)
  let title ← textAt path object "title"
  let files ← (textList object "files" fun _ => true).mapError (listFault path "files")
  let action ← textAt path object "action"
  let verify ← (textList object "verify" fun command => !isBlank command).mapError (listFault path "verify")
  .require (verify ≠ []) (typedAt path "verify")
  .ok { id, title, files, action, verify }

/-- Read the tasks in submitted order. -/
def read (tasks : List Value) : Except PlanRefusal (List PlanTask) :=
  readEach id readOne 0 [] tasks

/-- The first file of a task outside the lease. -/
def leaseFault (files directories : List String) (position : Nat) (task : PlanTask) : Option PlanRefusal :=
  (task.files.find? fun file => !insideLease file files directories).map (.lease position task.id)

/-- Step (3): every task file inside the lease. -/
def withinLease (tasks : List PlanTask) (files directories : List String) : Except PlanRefusal Unit :=
  passEach (leaseFault files directories) 0 tasks

/-! ## What a task is -/

/-- What a task is written as. -/
structure WrittenAs (entry : Value) (task : PlanTask) : Prop where
  exact_members : ∃ object, entry = .object object ∧ Within members object
  id_eq : entry.get? "id" = some (.string task.id)
  named : isBlank task.id = false
  title_eq : entry.get? "title" = some (.string task.title)
  files_eq : entry.get? "files" = some (texts task.files)
  action_eq : entry.get? "action" = some (.string task.action)
  verify_eq : entry.get? "verify" = some (texts task.verify)
  verified : task.verify ≠ []
  verify_filled : ∀ command ∈ task.verify, isBlank command = false

theorem textList_eq_ok {object : Members} {name : String} {keep : String → Bool} {items : List String} :
    textList object name keep = .ok items ↔
      object.lookup name = some (texts items) ∧ ∀ text ∈ items, keep text = true := by
  have reads_iff (entry : Value) (text : String) :
      (entry.asStr.filter fun text => keep text) = some text ↔ entry = .string text ∧ keep text = true := by
    rw [Option.filter_eq_some_iff, asStr_eq_some]
  have each (entries : List Value) : List.Forall₂ (fun entry text => entry = .string text ∧ keep text = true)
      entries items ↔ entries = items.map Value.string ∧ ∀ text ∈ items, keep text = true := by
    induction items generalizing entries with
    | nil => simp
    | cons text items ih =>
        rw [List.forall₂_cons_right_iff]
        simp only [ih, List.map_cons, List.forall_mem_cons]
        constructor
        · rintro ⟨entry, rest, ⟨rfl, kept⟩, ⟨rfl, all_kept⟩, rfl⟩
          exact ⟨rfl, kept, all_kept⟩
        · rintro ⟨rfl, kept, all_kept⟩
          exact ⟨_, _, ⟨rfl, kept⟩, ⟨rfl, all_kept⟩, rfl⟩
  unfold textList
  cases list_eq : listMember object name with
  | none =>
      refine iff_of_false (by simp) ?_
      rintro ⟨found, -⟩
      rw [listMember_eq_some.mpr found] at list_eq
      cases list_eq
  | some entries =>
      have found := listMember_eq_some.mp list_eq
      have read := @mapM_zipIdx_eq_ok String (Option Nat) (fun value => value.asStr.filter fun text => keep text)
        some entries 0 items
      simp only [reads_iff, each] at read
      refine read.trans ?_
      rw [found, texts, Option.some.injEq, Value.array.injEq]

theorem readOne_eq_ok {position : Nat} {seen : List String} {entry : Value} {task : PlanTask} :
    readOne position seen entry = .ok task ↔ WrittenAs entry task ∧ task.id ∉ seen := by
  simp only [readOne, Except.bind_eq_ok, objectAt_eq_ok, Except.ofOption_eq_ok, textAt_eq_ok,
    Except.mapError_eq_ok, textList_eq_ok, Except.require_eq_ok, Option.filter_eq_some_iff,
    textMember_eq_some, decide_eq_true_eq, Except.ok.injEq, Bool.not_eq_true']
  constructor
  · rintro ⟨object, ⟨rfl, within⟩, id, ⟨id_eq, named, fresh⟩, title, title_eq, files, ⟨files_eq, -⟩, action,
      action_eq, verify, ⟨verify_eq, filled⟩, -, verified, rfl⟩
    exact ⟨⟨⟨object, rfl, within⟩, id_eq, named, title_eq, files_eq, action_eq, verify_eq, verified, filled⟩,
      fresh⟩
  · rintro ⟨⟨⟨object, rfl, within⟩, id_eq, named, title_eq, files_eq, action_eq, verify_eq, verified, filled⟩,
      fresh⟩
    exact ⟨object, ⟨rfl, within⟩, task.id, ⟨id_eq, named, fresh⟩, task.title, title_eq, task.files,
      ⟨files_eq, fun _ _ => trivial⟩, task.action, action_eq, task.verify, ⟨verify_eq, filled⟩, (), verified, rfl⟩

/-- The tasks read are those written, no two with one id. -/
theorem read_eq_ok {entries : List Value} {tasks : List PlanTask} :
    read entries = .ok tasks ↔ List.Forall₂ WrittenAs entries tasks ∧ (tasks.map id).Nodup := by
  have each := @readEach_eq_ok PlanTask String id readOne WrittenAs (fun _ _ _ _ => readOne_eq_ok) entries 0 []
    tasks
  refine each.trans ?_
  simp

theorem withinLease_eq_ok {tasks : List PlanTask} {files directories : List String} :
    withinLease tasks files directories = .ok () ↔
      ∀ task ∈ tasks, ∀ file ∈ task.files, InsideLease files directories file := by
  refine passEach_eq_ok fun position task => ?_
  simp [leaseFault, insideLease_iff]

theorem refusedAt_read (entries : List Value) : RefusedAt 1 (read entries) := by
  refine refusedAt_readEach (fun position seen entry => ?_) entries 0 []
  have at_list (path name : String) (error : Option Nat) : (listFault path name error).step = 1 := by
    cases error <;> rfl
  refine (refusedAt_objectAt _ _ _).bind fun object => (refusedAt_ofOption rfl _).bind fun id => ?_
  refine (refusedAt_textAt _ _ _).bind fun title => (refusedAt_mapError (at_list _ _) _).bind fun files => ?_
  refine (refusedAt_textAt _ _ _).bind fun action => (refusedAt_mapError (at_list _ _) _).bind fun verify => ?_
  exact (refusedAt_require rfl _).bind fun _ => refusedAt_ok _

theorem refusedAt_withinLease (tasks : List PlanTask) (files directories : List String) :
    RefusedAt 3 (withinLease tasks files directories) := by
  refine refusedAt_passEach (fun position task refusal found => ?_) tasks 0
  obtain ⟨file, -, rfl⟩ := Option.map_eq_some_iff.mp found
  rfl

end PlanTask

end Baley
