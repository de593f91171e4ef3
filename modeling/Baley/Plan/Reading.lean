import Baley.Members
import Baley.Questions.Set

/-!
# Reading a plan's members

A plan is plain JSON, read member by member in a fixed order.  The first fault is named by its path:
member names joined by a dot, and a list position in brackets.
-/

namespace Baley

open Json

/-- Why a plan is refused.  Positions count from 0 in the list as submitted. -/
inductive PlanRefusal where
  | typedContent (path : Option String)
  | lease (position : Nat) (id file : String)
  | questions (refusal : SetRefusal)
  | checkCommand (position : Nat) (id : String)
  | checkExpected (position : Nat) (id : String)
  | checkTestFile (position : Nat) (id : String)
  | checkBoundary (position : Nat) (id : String)
  | noTruths
  | storyNotInPhase (story : Nat)
  | evidenceItemTruth (position : Nat) (id : String)
  | truthVersionMismatch (position : Nat) (id : String) (current : Nat)
  | evidenceItemConflict (position : Nat) (id : String) (plan : Nat)
  | linkValueNotNamed (position : Nat) (id : String)
  | uncoveredTruth (story : Nat) (truth : String) (version : Nat)
  | truthWithoutCheck (story : Nat) (truth : String) (version : Nat)
  | truthWithoutObservation (story : Nat) (truth : String) (version : Nat)
  | truthCheckLimit (story : Nat) (truth : String) (version : Nat) (checks : List String)
  | overCapacity (stories : List Nat) (size : Nat)
  deriving DecidableEq

namespace PlanRefusal

/-- A refusal that names the path of the first fault of the grammar. -/
def typed (path : String) : PlanRefusal :=
  .typedContent (some path)

/-- The step of the judge that gives the refusal. -/
def step : PlanRefusal → Nat
  | .typedContent _ => 1
  | .questions _ => 2
  | .lease .. => 3
  | .checkCommand .. | .checkExpected .. | .checkTestFile .. | .checkBoundary .. => 4
  | .noTruths => 5
  | .storyNotInPhase _ => 6
  | .evidenceItemTruth .. | .truthVersionMismatch .. => 7
  | .evidenceItemConflict .. => 8
  | .linkValueNotNamed .. => 9
  | .uncoveredTruth .. => 10
  | .truthWithoutCheck .. => 11
  | .truthWithoutObservation .. => 12
  | .truthCheckLimit .. => 13
  | .overCapacity .. => 14

end PlanRefusal

namespace Plan

/-! ## Members -/

/-- The first member, by name, that is not among the names. -/
def firstUnknown (object : Members) (names : List String) : Option String :=
  ((object.map Prod.fst).filter fun name => name ∉ names).min?

/-- A whole number from 1 that fits 32 bits, as phases, stories and versions run. -/
def counter (value : Option Value) : Option Nat :=
  ((value.bind Value.asU64).filter fun number => 1 ≤ number).filter fun number => number ≤ maxU32

/-- A text member. -/
def textMember (object : Members) (name : String) : Option String :=
  (object.lookup name).bind Value.asStr

/-- A list member. -/
def listMember (object : Members) (name : String) : Option (List Value) :=
  (object.lookup name).bind Value.asArray

/-- The refusal that names a member of the object at a path. -/
def typedAt (path name : String) : PlanRefusal :=
  .typed s!"{path}.{name}"

/-- The object at a path with no member besides the names. -/
def objectAt (path : String) (value : Value) (names : List String) : Except PlanRefusal Members :=
  match value with
  | .object object =>
      match firstUnknown object names with
      | some unknown => .error (typedAt path unknown)
      | none => .ok object
  | _ => .error (.typed path)

/-- The text member of the object at a path. -/
def textAt (path : String) (object : Members) (name : String) : Except PlanRefusal String :=
  .ofOption (typedAt path name) (textMember object name)

/-- Read entry after entry, each after the keys of those before it. -/
def readEach {α κ : Type} (key : α → κ) (read : Nat → List κ → Value → Except PlanRefusal α) :
    Nat → List κ → List Value → Except PlanRefusal (List α)
  | _, _, [] => .ok []
  | position, seen, entry :: rest => do
      let item ← read position seen entry
      let items ← readEach key read (position + 1) (key item :: seen) rest
      .ok (item :: items)

/-- Judge item after item, the first fault answering. -/
def passEach {α : Type} (fault : Nat → α → Option PlanRefusal) : Nat → List α → Except PlanRefusal Unit
  | _, [] => .ok ()
  | position, item :: rest =>
      match fault position item with
      | some refusal => .error refusal
      | none => passEach fault (position + 1) rest

/-! ## What was read -/

/-- No member besides the names. -/
def Within (names : List String) (object : Members) : Prop :=
  ∀ member ∈ object, member.1 ∈ names

/-- A whole number from 1 that fits 32 bits. -/
def IsCounter (value : Value) (number : Nat) : Prop :=
  value.asU64 = some number ∧ 1 ≤ number ∧ number ≤ maxU32

theorem firstUnknown_eq_none {object : Members} {names : List String} :
    firstUnknown object names = none ↔ Within names object := by
  simp [firstUnknown, Within, List.min?_eq_none_iff, List.filter_eq_nil_iff]

theorem counter_eq_some {value : Option Value} {number : Nat} :
    counter value = some number ↔ ∃ held, value = some held ∧ IsCounter held number := by
  simp only [counter, IsCounter, Option.filter_eq_some_iff, Option.bind_eq_some_iff, decide_eq_true_eq]
  constructor
  · rintro ⟨⟨⟨held, value_eq, read⟩, positive⟩, fits⟩
    exact ⟨held, value_eq, read, positive, fits⟩
  · rintro ⟨held, value_eq, read, positive, fits⟩
    exact ⟨⟨⟨held, value_eq, read⟩, positive⟩, fits⟩

theorem asStr_eq_some {value : Value} {text : String} : value.asStr = some text ↔ value = .string text := by
  cases value <;> simp [Value.asStr]

theorem textMember_eq_some {object : Members} {name text : String} :
    textMember object name = some text ↔ object.lookup name = some (.string text) := by
  simp [textMember, Option.bind_eq_some_iff, asStr_eq_some]

theorem listMember_eq_some {object : Members} {name : String} {entries : List Value} :
    listMember object name = some entries ↔ object.lookup name = some (.array entries) := by
  simp [listMember, Option.bind_eq_some_iff, asArray_eq_some]

@[simp]
theorem objectAt_eq_ok {path : String} {value : Value} {names : List String} {object : Members} :
    objectAt path value names = .ok object ↔ value = .object object ∧ Within names object := by
  unfold objectAt
  cases value with
  | object held =>
      simp only [Value.object.injEq]
      cases unknown : firstUnknown held names with
      | none =>
          have within := firstUnknown_eq_none.mp unknown
          simp only [Except.ok.injEq]
          constructor
          · rintro rfl
            exact ⟨rfl, within⟩
          · exact fun same => same.1
      | some name =>
          refine iff_of_false (by simp) ?_
          rintro ⟨rfl, within⟩
          rw [firstUnknown_eq_none.mpr within] at unknown
          cases unknown
  | _ => simp

@[simp]
theorem textAt_eq_ok {path name text : String} {object : Members} :
    textAt path object name = .ok text ↔ object.lookup name = some (.string text) := by
  rw [textAt, Except.ofOption_eq_ok, textMember_eq_some]

/-- Entries read one after another are each read by itself, and no two have one key. -/
theorem readEach_eq_ok {α κ : Type} {key : α → κ}
    {read : Nat → List κ → Value → Except PlanRefusal α} {Reads : Value → α → Prop}
    (read_iff : ∀ position seen entry item,
      read position seen entry = .ok item ↔ Reads entry item ∧ key item ∉ seen)
    {entries : List Value} {position : Nat} {seen : List κ} {items : List α} :
    readEach key read position seen entries = .ok items ↔
      List.Forall₂ Reads entries items ∧ (items.map key).Nodup ∧ ∀ item ∈ items, key item ∉ seen := by
  induction entries generalizing position seen items with
  | nil =>
      simp only [readEach, Except.ok.injEq, List.forall₂_nil_left_iff]
      constructor
      · rintro rfl
        simp
      · exact fun same => same.1.symm
  | cons entry entries ih =>
      simp only [readEach, Except.bind_eq_ok, read_iff, ih, Except.ok.injEq]
      constructor
      · rintro ⟨item, ⟨reads, fresh⟩, items, ⟨all_read, nodup, apart⟩, rfl⟩
        refine ⟨.cons reads all_read, ?_, ?_⟩
        · rw [List.map_cons, List.nodup_cons]
          refine ⟨fun repeated => ?_, nodup⟩
          obtain ⟨other, other_mem, same⟩ := List.mem_map.mp repeated
          exact apart other other_mem (same ▸ List.mem_cons_self)
        · refine List.forall_mem_cons.mpr ⟨fresh, fun other other_mem => ?_⟩
          exact fun seen_mem => apart other other_mem (List.mem_cons_of_mem _ seen_mem)
      · rintro ⟨all_read, nodup, apart⟩
        cases all_read with
        | @cons _ item _ items reads all_read =>
            rw [List.map_cons, List.nodup_cons] at nodup
            obtain ⟨fresh, apart⟩ := List.forall_mem_cons.mp apart
            refine ⟨item, ⟨reads, fresh⟩, items, ⟨all_read, nodup.2, fun other other_mem => ?_⟩, rfl⟩
            rw [List.mem_cons, not_or]
            refine ⟨fun same => nodup.1 ?_, apart other other_mem⟩
            exact same ▸ List.mem_map_of_mem other_mem

/-- Entries read by position are each read by itself. -/
theorem mapM_zipIdx_eq_ok {α ε : Type} {read : Value → Option α} {refusal : Nat → ε}
    {entries : List Value} {position : Nat} {items : List α} :
    ((entries.zipIdx position).mapM fun entry =>
        Except.ofOption (refusal entry.2) (read entry.1)) = .ok items ↔
      List.Forall₂ (fun entry item => read entry = some item) entries items := by
  induction entries generalizing position items with
  | nil =>
      simp only [List.zipIdx_nil, List.mapM_nil, pure, Except.pure, Except.ok.injEq,
        List.forall₂_nil_left_iff]
      exact eq_comm
  | cons entry entries ih =>
      simp only [List.zipIdx_cons, List.mapM_cons, Except.bind_eq_ok, Except.ofOption_eq_ok, ih, pure,
        Except.pure, Except.ok.injEq, List.forall₂_cons_left_iff]
      constructor
      · rintro ⟨item, read_eq, items, all_read, rfl⟩
        exact ⟨item, items, read_eq, all_read, rfl⟩
      · rintro ⟨item, items, read_eq, all_read, rfl⟩
        exact ⟨item, read_eq, items, all_read, rfl⟩

theorem passEach_eq_ok {α : Type} {fault : Nat → α → Option PlanRefusal} {Holds : α → Prop}
    (fault_iff : ∀ position item, fault position item = none ↔ Holds item) {items : List α}
    {position : Nat} : passEach fault position items = .ok () ↔ ∀ item ∈ items, Holds item := by
  induction items generalizing position with
  | nil => simp [passEach]
  | cons item items ih =>
      rw [passEach, List.forall_mem_cons, ← fault_iff position item]
      cases fault position item with
      | some refusal => simp
      | none => simp [ih]

/-! ## Which step refused -/

/-- Every refusal is given by one step. -/
def RefusedAt {α : Type} (step : Nat) (result : Except PlanRefusal α) : Prop :=
  ∀ refusal, result = .error refusal → refusal.step = step

section RefusedAt

variable {α β : Type} {step : Nat}

theorem refusedAt_ok (value : α) : RefusedAt step (.ok value) := by
  rintro refusal ⟨⟩

theorem refusedAt_error {refusal : PlanRefusal} (named : refusal.step = step) :
    RefusedAt step (.error refusal : Except PlanRefusal α) := by
  rintro _ ⟨⟩
  exact named

theorem refusedAt_ofOption {refusal : PlanRefusal} (named : refusal.step = step) (option : Option α) :
    RefusedAt step (.ofOption refusal option) := by
  cases option with
  | none => exact refusedAt_error named
  | some value => exact refusedAt_ok value

theorem RefusedAt.bind {result : Except PlanRefusal α} {next : α → Except PlanRefusal β}
    (first : RefusedAt step result) (rest : ∀ value, RefusedAt step (next value)) :
    RefusedAt step (result >>= next) := by
  cases result with
  | error refusal => exact refusedAt_error (first refusal rfl)
  | ok value => exact rest value

theorem RefusedAt.map {result : Except PlanRefusal α} (first : RefusedAt step result) (change : α → β) :
    RefusedAt step (result.map change) := by
  cases result with
  | error refusal => exact refusedAt_error (first refusal rfl)
  | ok value => exact refusedAt_ok (change value)

theorem refusedAt_require {refusal : PlanRefusal} (named : refusal.step = step) (condition : Prop)
    [Decidable condition] : RefusedAt step (.require condition refusal) := by
  unfold Except.require
  split_ifs
  · exact refusedAt_ok ()
  · exact refusedAt_error named

theorem refusedAt_mapError {ε : Type} {fault : ε → PlanRefusal} (named : ∀ error, (fault error).step = step)
    (result : Except ε α) : RefusedAt step (result.mapError fault) := by
  cases result with
  | error error => exact refusedAt_error (named error)
  | ok value => exact refusedAt_ok value

theorem refusedAt_mapM {γ : Type} {read : γ → Except PlanRefusal α} (each : ∀ entry, RefusedAt step (read entry))
    (entries : List γ) : RefusedAt step (entries.mapM read) := by
  induction entries with
  | nil => exact refusedAt_ok []
  | cons entry entries ih =>
      rw [List.mapM_cons]
      exact (each entry).bind fun item => ih.bind fun items => refusedAt_ok _

theorem refusedAt_readEach {κ : Type} {key : α → κ} {read : Nat → List κ → Value → Except PlanRefusal α}
    (each : ∀ position seen entry, RefusedAt step (read position seen entry)) (entries : List Value)
    (position : Nat) (seen : List κ) : RefusedAt step (readEach key read position seen entries) := by
  induction entries generalizing position seen with
  | nil => exact refusedAt_ok []
  | cons entry entries ih =>
      exact (each position seen entry).bind fun item => (ih _ _).bind fun items => refusedAt_ok _

theorem refusedAt_passEach {fault : Nat → α → Option PlanRefusal}
    (named : ∀ position item refusal, fault position item = some refusal → refusal.step = step)
    (items : List α) (position : Nat) : RefusedAt step (passEach fault position items) := by
  induction items generalizing position with
  | nil => exact refusedAt_ok ()
  | cons item items ih =>
      rw [passEach]
      cases found : fault position item with
      | some refusal => exact refusedAt_error (named position item refusal found)
      | none => exact ih (position + 1)

theorem refusedAt_objectAt (path : String) (value : Value) (names : List String) :
    RefusedAt 1 (objectAt path value names) := by
  unfold objectAt
  cases value with
  | object object =>
      cases unknown : firstUnknown object names with
      | none => simpa [unknown] using refusedAt_ok object
      | some name =>
          have named : RefusedAt 1 (.error (typedAt path name) : Except PlanRefusal Members) :=
            refusedAt_error rfl
          simpa [unknown] using named
  | _ => exact refusedAt_error rfl

theorem refusedAt_textAt (path : String) (object : Members) (name : String) :
    RefusedAt 1 (textAt path object name) :=
  refusedAt_ofOption rfl _

end RefusedAt

end Plan

end Baley
