import Baley.Plan.Difference

/-!
# Drafts that agree at every place are equal

The walk's lists of names cover every member an accepted plan may carry, for every kind of evidence.
-/

namespace Baley.Plan.Approval

open Json

/-- Two values agree at the places. -/
def Agree (places : List Place) (first second : Value) : Prop :=
  ∀ place ∈ places, Place.differs first second place = false

section Agree

open Place

variable {first second : Value}

theorem eq_of_agree_whole (agree : Agree [[]] first second) : first = second := by
  have same := agree [] List.mem_cons_self
  rw [differs_nil, bne_eq_false_iff_eq] at same
  exact same

theorem Agree.below {step : Step} {part part' : Value} {places : List Place}
    (agree : Agree (places.map (step :: ·)) first second) (first_part : first.part step = some part)
    (second_part : second.part step = some part') : Agree places part part' := by
  intro place place_mem
  rw [← differs_cons first_part second_part]
  exact agree _ (List.mem_map_of_mem place_mem)

theorem Agree.member {names : List String} {places : String → List Place}
    (agree : Agree (memberPlaces names places) first second) {name : String} (name_mem : name ∈ names) :
    Agree (places name) (first.member name) (second.member name) := by
  refine @Agree.below first second (.member name) _ _ _ ?_ rfl rfl
  intro place place_mem
  exact agree place (List.mem_flatMap.mpr ⟨name, name_mem, place_mem⟩)

/-! ## Lists -/

theorem eq_of_agree_entries {places : Value → Value → List Place}
    {before before' items items' : List Value} (lengths : before'.length = before.length)
    (each : ∀ item ∈ items, ∀ item' ∈ items', Agree (places item item') item item' → item = item')
    (agree : Agree (entryPlaces places before.length items items') (.array (before ++ items))
      (.array (before' ++ items'))) : items = items' := by
  induction items generalizing before before' items' with
  | nil =>
      cases items' with
      | nil => rfl
      | cons item' items' =>
          have same := agree [.index before.length] List.mem_cons_self
          simp [differs, Value.at_place, Value.part, ← lengths] at same
  | cons item items ih =>
      cases items' with
      | nil =>
          have same := agree [.index before.length] List.mem_cons_self
          simp [differs, Value.at_place, Value.part, lengths] at same
      | cons item' items' =>
          have here : Agree (places item item') item item' := by
            refine @Agree.below _ _ (.index before.length) _ _ _
              (fun place place_mem => agree place (List.mem_append_left _ place_mem)) ?_ ?_
            · simp [Value.part]
            · simp [Value.part, ← lengths]
          have rest := @ih (before ++ [item]) (before' ++ [item']) items' (by simp [lengths])
            (fun other other_mem other' other_mem' =>
              each other (List.mem_cons_of_mem _ other_mem) other' (List.mem_cons_of_mem _ other_mem'))
            (by
              rw [List.append_assoc, List.append_assoc, List.length_append]
              exact fun place place_mem => agree place (List.mem_append_right _ place_mem))
          rw [each item List.mem_cons_self item' List.mem_cons_self here, rest]

theorem eq_of_agree_leaf (agree : Agree (leafPlaces first second) first second) : first = second := by
  induction first using Value.induction generalizing second with
  | array items ih =>
      cases second with
      | array items' =>
          change Agree (leafItemPlaces 0 items items') _ _ at agree
          rw [leafItemPlaces_eq] at agree
          rw [@eq_of_agree_entries leafPlaces [] [] items items' rfl
            (fun item item_mem item' _ => ih item item_mem) agree]
      | _ => exact eq_of_agree_whole agree
  | _ => exact eq_of_agree_whole agree

theorem eq_of_agree_list {places : Value → Value → List Place} {items items' : List Value}
    (each : ∀ item ∈ items, ∀ item' ∈ items', Agree (places item item') item item' → item = item')
    (agree : Agree (listPlaces places (.array items) (.array items')) (.array items) (.array items')) :
    Value.array items = .array items' := by
  rw [@eq_of_agree_entries places [] [] items items' rfl each agree]

/-! ## Objects of given names -/

/-- An object of some names that holds no null. -/
structure Shaped (names : List String) (value : Value) : Prop where
  of_names : Evidence.ObjectOf names value
  wellFormed : value.WellFormed
  no_null : ∀ name, value.get? name ≠ some .null

theorem Shaped.of_leaves {names : List String} {value : Value} {depth : Nat}
    (of_names : Evidence.ObjectOf names value) (wellFormed : value.WellFormed)
    (leaves : Leaves (depth + 1) value) : Shaped names value where
  of_names := of_names
  wellFormed := wellFormed
  no_null := by
    obtain ⟨object, rfl, -⟩ := of_names
    intro name found
    cases wellFormed with
    | object sorted =>
        cases leaves with
        | counter counted => cases counted.1
        | object each =>
            have member_mem := (Members.lookup_eq_some_iff sorted.nodup_keys).mp found
            exact (each _ member_mem).ne_null rfl

theorem eq_of_getD_null {held held' : Option Value} (no_null : held ≠ some .null)
    (no_null' : held' ≠ some .null) (same : held.getD .null = held'.getD .null) : held = held' := by
  cases held with
  | none =>
      cases held' with
      | none => rfl
      | some value' => exact absurd (congrArg some same.symm) no_null'
  | some value =>
      cases held' with
      | none => exact absurd (congrArg some same) no_null
      | some value' => exact congrArg some same

/-- Objects of the same names with the same members are equal. -/
theorem Shaped.ext {names : List String} (shaped : Shaped names first) (shaped' : Shaped names second)
    (same : ∀ name ∈ names, first.member name = second.member name) : first = second := by
  obtain ⟨⟨object, rfl, within⟩, wellFormed, no_null⟩ := shaped
  obtain ⟨⟨object', rfl, within'⟩, wellFormed', no_null'⟩ := shaped'
  cases wellFormed with
  | object sorted =>
      cases wellFormed' with
      | object sorted' =>
          refine congrArg Value.object (sorted.ext sorted' fun name => ?_)
          by_cases name_mem : name ∈ names
          · exact eq_of_getD_null (no_null name) (no_null' name) (same name name_mem)
          · have absent {members : Members} (within : Within names members) : members.lookup name = none := by
              rw [Members.lookup_eq_none_iff]
              intro held
              obtain ⟨member, member_mem, rfl⟩ := List.mem_map.mp held
              exact name_mem (within member member_mem)
            rw [absent within, absent within']

theorem eq_of_agree_members {names : List String} (shaped : Shaped names first)
    (shaped' : Shaped names second) (agree : Agree (membersPlaces names first second) first second) :
    first = second :=
  shaped.ext shaped' fun _ name_mem => eq_of_agree_leaf (agree.member name_mem)

/-! ## The parts of a plan -/

theorem member_of_get? {value held : Value} {name : String} (found : value.get? name = some held) :
    value.member name = held := by
  rw [Value.member, found, Option.getD_some]

open Evidence in
theorem eq_of_agree_check {found found' : Check} (wellFormed : first.WellFormed)
    (wellFormed' : second.WellFormed) (written : CheckAs first found) (written' : CheckAs second found')
    (agree : Agree (checkPlaces first second) first second) : first = second := by
  have shaped : Shaped checkNames first :=
    .of_leaves written.members wellFormed (@CheckAs.leaves 0 first found wellFormed written)
  have shaped' : Shaped checkNames second :=
    .of_leaves written'.members wellFormed' (@CheckAs.leaves 0 second found' wellFormed' written')
  refine shaped.ext shaped' fun name name_mem => ?_
  have part := agree.member name_mem
  split_ifs at part with is_expected is_test
  · obtain ⟨expected, expected_eq, expected_as⟩ := written.expected_as
    obtain ⟨expected', expected_eq', expected_as'⟩ := written'.expected_as
    rw [is_expected] at part ⊢
    rw [member_of_get? expected_eq, member_of_get? expected_eq'] at part ⊢
    have part_wellFormed := wellFormed.get? expected_eq
    have part_wellFormed' := wellFormed'.get? expected_eq'
    exact eq_of_agree_members
      (.of_leaves expected_as.members part_wellFormed (@ExpectedAs.leaves 0 _ _ part_wellFormed expected_as))
      (.of_leaves expected_as'.members part_wellFormed' (@ExpectedAs.leaves 0 _ _ part_wellFormed' expected_as'))
      part
  · obtain ⟨test, test_eq, test_as⟩ := written.test_as
    obtain ⟨test', test_eq', test_as'⟩ := written'.test_as
    rw [is_test] at part ⊢
    rw [member_of_get? test_eq, member_of_get? test_eq'] at part ⊢
    have part_wellFormed := wellFormed.get? test_eq
    have part_wellFormed' := wellFormed'.get? test_eq'
    exact eq_of_agree_members
      (.of_leaves test_as.members part_wellFormed (@TestAs.leaves 0 _ _ part_wellFormed test_as))
      (.of_leaves test_as'.members part_wellFormed' (@TestAs.leaves 0 _ _ part_wellFormed' test_as'))
      part
  · exact eq_of_agree_leaf part

open Evidence in
theorem shaped_artifact {value : Value} {found : Artifact} (wellFormed : value.WellFormed)
    (written : ArtifactAs value found) : Shaped artifactNames value := by
  refine .of_leaves ?_ wellFormed (@ArtifactAs.leaves 0 _ _ written)
  cases written with
  | path text => exact ⟨_, rfl, by simp [Within, artifactNames]⟩
  | record text => exact ⟨_, rfl, by simp [Within, artifactNames]⟩

open Evidence in
theorem eq_of_agree_spec {found found' : Spec} (kinds_same : found'.kind = found.kind)
    (wellFormed : first.WellFormed) (wellFormed' : second.WellFormed) (written : SpecAs first found)
    (written' : SpecAs second found')
    (agree : Agree (specPlaces (some (kindText found.kind)) first second) first second) :
    first = second := by
  cases written with
  | artifact written =>
      cases written' with
      | artifact written' =>
          refine eq_of_agree_members (shaped_artifact wellFormed written)
            (shaped_artifact wellFormed' written') ?_
          simpa [specPlaces, kindText, Spec.kind] using agree
      | _ => cases kinds_same
  | link written =>
      cases written' with
      | link written' =>
          refine @eq_of_agree_members first second linkNames
            (.of_leaves written.members wellFormed (@LinkAs.leaves 0 _ _ wellFormed written))
            (.of_leaves written'.members wellFormed' (@LinkAs.leaves 0 _ _ wellFormed' written')) ?_
          simpa [specPlaces, kindText, Spec.kind] using agree
      | _ => cases kinds_same
  | check written =>
      cases written' with
      | check written' =>
          refine eq_of_agree_check wellFormed wellFormed' written written' ?_
          simpa [specPlaces, kindText, Spec.kind] using agree
      | _ => cases kinds_same
  | observation written =>
      cases written' with
      | observation written' =>
          refine @eq_of_agree_members first second observationNames
            (.of_leaves written.members wellFormed (@ObservationAs.leaves 0 _ _ wellFormed written))
            (.of_leaves written'.members wellFormed' (@ObservationAs.leaves 0 _ _ wellFormed' written')) ?_
          simpa [specPlaces, kindText, Spec.kind] using agree
      | _ => cases kinds_same

theorem kindText_injective : Function.Injective Evidence.kindText := by
  intro kind kind' same
  cases kind <;> cases kind' <;> first | rfl | exact absurd same (by decide)

open Evidence in
theorem eq_of_agree_item {found found' : EvidenceItem} (wellFormed : first.WellFormed)
    (wellFormed' : second.WellFormed) (written : ItemAs first found) (written' : ItemAs second found')
    (agree : Agree (itemPlaces first second) first second) : first = second := by
  have shaped : Shaped itemNames first :=
    .of_leaves written.members wellFormed (@ItemAs.leaves 0 _ found wellFormed written)
  have shaped' : Shaped itemNames second :=
    .of_leaves written'.members wellFormed' (@ItemAs.leaves 0 _ found' wellFormed' written')
  refine shaped.ext shaped' fun name name_mem => ?_
  have part := agree.member name_mem
  split_ifs at part with not_spec
  · exact eq_of_agree_leaf part
  · have is_spec : name = "spec" := not_not.mp not_spec
    have kind_part := agree.member (show "kind" ∈ itemNames by decide)
    rw [if_pos (by decide)] at kind_part
    have kinds_same := eq_of_agree_leaf kind_part
    rw [member_of_get? written.kind_eq, member_of_get? written'.kind_eq] at kinds_same
    obtain ⟨held, held_eq, held_as⟩ := written.spec_as
    obtain ⟨held', held_eq', held_as'⟩ := written'.spec_as
    rw [is_spec] at part ⊢
    rw [member_of_get? written.kind_eq, member_of_get? held_eq, member_of_get? held_eq'] at part
    rw [member_of_get? held_eq, member_of_get? held_eq']
    exact eq_of_agree_spec (kindText_injective (Value.string.inj kinds_same)).symm
      (wellFormed.get? held_eq) (wellFormed'.get? held_eq') held_as held_as' part

theorem exists_of_forall₂ {α β : Type} {Related : α → β → Prop} {items : List α} {others : List β}
    (related : List.Forall₂ Related items others) {item : α} (item_mem : item ∈ items) :
    ∃ other, Related item other := by
  induction related with
  | nil => cases item_mem
  | cons here _ ih =>
      rcases List.mem_cons.mp item_mem with rfl | item_mem
      · exact ⟨_, here⟩
      · exact ih item_mem

/-- Lists of entries that are each written as something of a kind. -/
theorem eq_of_agree_written {α : Type} {WrittenAs : Value → α → Prop}
    {places : Value → Value → List Place} {items items' : List Value} {found found' : List α}
    (written : List.Forall₂ WrittenAs items found) (written' : List.Forall₂ WrittenAs items' found')
    (wellFormed : (Value.array items).WellFormed) (wellFormed' : (Value.array items').WellFormed)
    (one : ∀ {entry entry' : Value} {item item' : α}, entry.WellFormed → entry'.WellFormed →
      WrittenAs entry item → WrittenAs entry' item' → Agree (places entry entry') entry entry' →
        entry = entry')
    (agree : Agree (listPlaces places (.array items) (.array items')) (.array items) (.array items')) :
    Value.array items = .array items' := by
  rw [Value.wellFormed_array_iff] at wellFormed wellFormed'
  refine eq_of_agree_list (fun entry entry_mem entry' entry_mem' same => ?_) agree
  obtain ⟨item, item_as⟩ := exists_of_forall₂ written entry_mem
  obtain ⟨item', item_as'⟩ := exists_of_forall₂ written' entry_mem'
  exact one (wellFormed entry entry_mem) (wellFormed' entry' entry_mem') item_as item_as' same

theorem eq_of_agree_task {task task' : PlanTask} (wellFormed : first.WellFormed)
    (wellFormed' : second.WellFormed) (written : PlanTask.WrittenAs first task)
    (written' : PlanTask.WrittenAs second task')
    (agree : Agree (membersPlaces taskNames first second) first second) : first = second :=
  eq_of_agree_members
    (.of_leaves written.exact_members wellFormed (@PlanTask.WrittenAs.leaves 0 _ _ wellFormed written))
    (.of_leaves written'.exact_members wellFormed' (@PlanTask.WrittenAs.leaves 0 _ _ wellFormed' written'))
    agree

theorem shaped_question {value : Value} {question : Question} (wellFormed : value.WellFormed)
    (written : question.WrittenAs value) : Shaped questionNames value := by
  refine .of_leaves ?_ wellFormed (@Question.WrittenAs.leaves 0 _ _ wellFormed written)
  obtain ⟨members, rfl, names⟩ := written.exact_members
  exact ⟨members, rfl, fun member member_mem => (names member.1).mp (List.mem_map_of_mem member_mem)⟩

/-- Plans that agree at every place of the walk are equal. -/
theorem eq_of_agree_plan {content content' : PlanContent} {set set' : QuestionSet}
    (wellFormed : first.WellFormed) (wellFormed' : second.WellFormed)
    (written : ContentAs first content) (written' : ContentAs second content')
    (passed : QuestionsPass first set) (passed' : QuestionsPass second set')
    (agree : Agree (planPlaces first second) first second) : first = second := by
  have shaped : Shaped planNames first :=
    .of_leaves ⟨_, written.object_eq, written.within⟩ wellFormed (written.leaves wellFormed passed)
  have shaped' : Shaped planNames second :=
    .of_leaves ⟨_, written'.object_eq, written'.within⟩ wellFormed' (written'.leaves wellFormed' passed')
  refine shaped.ext shaped' fun name name_mem => ?_
  have part := agree.member name_mem
  unfold planMemberPlaces at part
  split_ifs at part with is_tasks is_items is_questions
  · obtain ⟨tasks, tasks_eq, tasks_as⟩ := written.tasks_as
    obtain ⟨tasks', tasks_eq', tasks_as'⟩ := written'.tasks_as
    rw [is_tasks, member_of_get? tasks_eq, member_of_get? tasks_eq'] at part ⊢
    exact eq_of_agree_written tasks_as tasks_as' (wellFormed.get? tasks_eq) (wellFormed'.get? tasks_eq')
      eq_of_agree_task part
  · obtain ⟨items, items_eq, items_as⟩ := written.evidence_as
    obtain ⟨items', items_eq', items_as'⟩ := written'.evidence_as
    rw [is_items, member_of_get? items_eq, member_of_get? items_eq'] at part ⊢
    exact eq_of_agree_written items_as items_as' (wellFormed.get? items_eq) (wellFormed'.get? items_eq')
      eq_of_agree_item part
  · obtain ⟨questions, questions_eq, judged⟩ := passed
    obtain ⟨questions', questions_eq', judged'⟩ := passed'
    have submitted := submitted_of_judgeSet judged
    have submitted' := submitted_of_judgeSet judged'
    obtain ⟨entries, rfl, entries_as⟩ := submitted
    obtain ⟨entries', rfl, entries_as'⟩ := submitted'
    have held_as : List.Forall₂ (fun entry question => Question.WrittenAs question entry) entries
        set.questions := entries_as.flip
    have held_as' : List.Forall₂ (fun entry question => Question.WrittenAs question entry) entries'
        set'.questions := entries_as'.flip
    rw [is_questions, member_of_get? questions_eq, member_of_get? questions_eq'] at part ⊢
    exact eq_of_agree_written held_as held_as' (wellFormed.get? questions_eq)
      (wellFormed'.get? questions_eq')
      (fun entry_wellFormed entry_wellFormed' entry_as entry_as' =>
        eq_of_agree_members (shaped_question entry_wellFormed entry_as)
          (shaped_question entry_wellFormed' entry_as')) part
  · exact eq_of_agree_leaf part

end Agree

end Baley.Plan.Approval
