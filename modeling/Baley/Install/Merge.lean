import Baley.Install.Compose

/-!
# What merging leaves

Merging an object writes each of its fields once: what the document holds under another name is untouched,
and merging again into what was merged changes nothing.
-/

namespace Baley.Install

open Json

/-- What merging a field leaves under its name, and its conflicts. -/
def mergedAt (key : String) (value : Value) : Option Value → Value × List Conflict
  | none => (value, [])
  | some held => merge held key value

/-- Whether a value holds no other value. -/
def isLeaf : Value → Bool
  | .object _ | .array _ => false
  | _ => true

theorem merge_leaf {target ours : Value} {key : String} (leaf : isLeaf ours = true) :
    merge target key ours = if target.same ours then (target, []) else (ours, [.replaced key target]) := by
  cases ours with
  | object _ | array _ => cases leaf
  | _ => rfl

section Fields

variable {members : Members} {key : String} {fields : List (String × Value)}

/-- The step of one field, where Baley's server is not the field. -/
theorem mergeFields_cons {field : String × Value} (elsewhere : key ≠ "mcpServers" ∨ field.1 ≠ "baley") :
    mergeFields members key (field :: fields) =
      let here := mergedAt (dotted key field.1) field.2 (members.lookup field.1)
      let rest := mergeFields (Members.put field.1 here.1 members) key fields
      (rest.1, here.2 ++ rest.2) := by
  rw [mergeFields]
  cases held : Members.lookup field.1 members with
  | none => simp only [mergedAt]
  | some existing =>
      have not_server : ¬(key = "mcpServers" ∧ field.1 = "baley" ∧ sameServer existing field.2 = false) := by
        rintro ⟨key_eq, name_eq, -⟩
        exact elsewhere.elim (fun other => other key_eq) fun other => other name_eq
      simp only [mergedAt, if_neg not_server]

/-- The fields name no server of Baley's under this key. -/
def Elsewhere (key : String) (fields : List (String × Value)) : Prop :=
  key ≠ "mcpServers" ∨ ∀ field ∈ fields, field.1 ≠ "baley"

theorem Elsewhere.head {field : String × Value} (elsewhere : Elsewhere key (field :: fields)) :
    key ≠ "mcpServers" ∨ field.1 ≠ "baley" :=
  elsewhere.imp_right fun each => each field List.mem_cons_self

theorem Elsewhere.tail {field : String × Value} (elsewhere : Elsewhere key (field :: fields)) :
    Elsewhere key fields :=
  elsewhere.imp_right fun each other other_mem => each other (List.mem_cons_of_mem _ other_mem)

/-- A name that no field has keeps its value. -/
theorem lookup_mergeFields_of_notMem (elsewhere : Elsewhere key fields) {name : String}
    (absent : name ∉ Members.names fields) :
    (mergeFields members key fields).1.lookup name = members.lookup name := by
  induction fields generalizing members with
  | nil => rfl
  | cons field fields ih =>
      rw [Members.names, List.map_cons, List.mem_cons, not_or] at absent
      rw [mergeFields_cons elsewhere.head]
      dsimp only
      rw [ih elsewhere.tail absent.2, Members.lookup_put, if_neg absent.1]

/-- A field's name holds what merging the field left. -/
theorem lookup_mergeFields_of_mem (elsewhere : Elsewhere key fields) (distinct : (Members.names fields).Nodup)
    {field : String × Value} (field_mem : field ∈ fields) :
    (mergeFields members key fields).1.lookup field.1 =
      some (mergedAt (dotted key field.1) field.2 (members.lookup field.1)).1 := by
  induction fields generalizing members with
  | nil => cases field_mem
  | cons head fields ih =>
      rw [Members.names, List.map_cons, List.nodup_cons] at distinct
      rw [mergeFields_cons elsewhere.head]
      dsimp only
      rcases List.mem_cons.mp field_mem with rfl | field_mem
      · rw [lookup_mergeFields_of_notMem elsewhere.tail distinct.1, Members.lookup_put, if_pos rfl]
      · have other : field.1 ≠ head.1 := by
          intro same
          exact distinct.1 (same ▸ List.mem_map_of_mem field_mem)
        rw [ih elsewhere.tail distinct.2 field_mem, Members.lookup_put, if_neg other]

/-- The names after merging: those held, in their places, then the new ones. -/
theorem names_mergeFields (elsewhere : Elsewhere key fields) (distinct : (Members.names fields).Nodup) :
    Members.names (mergeFields members key fields).1 =
      Members.names members ++ (Members.names fields).filter fun name => name ∉ Members.names members := by
  induction fields generalizing members with
  | nil => simp [mergeFields, Members.names]
  | cons field fields ih =>
      rw [Members.names, List.map_cons, List.nodup_cons] at distinct
      rw [mergeFields_cons elsewhere.head]
      have field_names : Members.names (field :: fields) = field.1 :: Members.names fields := rfl
      dsimp only
      rw [ih elsewhere.tail distinct.2, field_names, List.filter_cons]
      by_cases held : field.1 ∈ Members.names members
      · rw [Members.names_put_of_mem held, if_neg (by simpa using held)]
      · rw [Members.names_put_of_notMem held, if_pos (by simpa using held), List.append_assoc,
          List.singleton_append]
        refine congrArg (Members.names members ++ field.1 :: ·) (List.filter_congr fun name name_mem => ?_)
        have other : name ≠ field.1 := by
          rintro rfl
          exact distinct.1 name_mem
        simp [other]

/-- The conflicts of merging an object are those of its fields. -/
theorem conflicts_mergeFields (elsewhere : Elsewhere key fields) (distinct : (Members.names fields).Nodup) :
    (mergeFields members key fields).2 =
      fields.flatMap fun field => (mergedAt (dotted key field.1) field.2 (members.lookup field.1)).2 := by
  induction fields generalizing members with
  | nil => rfl
  | cons field fields ih =>
      rw [Members.names, List.map_cons, List.nodup_cons] at distinct
      rw [mergeFields_cons elsewhere.head]
      dsimp only
      rw [ih elsewhere.tail distinct.2, List.flatMap_cons]
      refine congrArg _ (List.flatMap_congr fun other other_mem => ?_)
      have apart : other.1 ≠ field.1 := by
        intro same
        exact distinct.1 (same ▸ List.mem_map_of_mem other_mem)
      rw [Members.lookup_put, if_neg apart]

end Fields

/-! ## Part by part -/

/-- No object within names a server of Baley's. -/
def Serverless (ours : Value) : Prop := ∀ names held, ours.under names = some held → held.get? "baley" = none

section Parts

variable {members fields : Members} {key : String} {target ours : Value}

theorem Serverless.elsewhere (serverless : Serverless (.object fields)) : Elsewhere key fields := by
  refine .inr fun field field_mem named => ?_
  have absent := serverless [] _ rfl
  rw [Value.get?_object, Members.lookup_eq_none_iff] at absent
  exact absent (named ▸ List.mem_map_of_mem field_mem)

theorem Serverless.part {name : String} {value : Value} (serverless : Serverless ours)
    (found : ours.get? name = some value) : Serverless value :=
  fun names held held_eq => serverless (name :: names) held (by rw [Value.under, found]; exact held_eq)

theorem named_once (json : IsJson (.object fields)) : (Members.names fields).Nodup := by
  cases json with
  | object named_once _ => exact named_once

/-- What a name holds after an object is merged into an object. -/
theorem lookup_merge (json : IsJson (.object fields)) (serverless : Serverless (.object fields)) {name : String}
    {value : Value} (found : fields.lookup name = some value) :
    (mergeFields members key fields).1.lookup name =
      some (mergedAt (dotted key name) value (members.lookup name)).1 :=
  lookup_mergeFields_of_mem serverless.elsewhere (named_once json) (Members.mem_of_lookup found)

/-- A part that both hold is the one merged into the other. -/
theorem under_merge (json : IsJson ours) (serverless : Serverless ours) {names : List String}
    {held value : Value} (target_held : target.under names = some held)
    (ours_held : ours.under names = some value) :
    (merge target key ours).1.under names = some (merge held (names.foldl dotted key) value).1 := by
  induction names generalizing target ours key with
  | nil =>
      rw [← Option.some.inj target_held, ← Option.some.inj ours_held]
      rfl
  | cons name names ih =>
      rw [Value.under, Option.bind_eq_some_iff] at target_held ours_held
      obtain ⟨target_part, target_found, target_held⟩ := target_held
      obtain ⟨ours_part, ours_found, ours_held⟩ := ours_held
      cases target with
      | object members =>
          cases ours with
          | object fields =>
              rw [Value.get?_object] at target_found
              rw [merge, Value.under, Value.get?_object, lookup_merge json serverless ours_found, target_found]
              exact ih (json.get? ours_found) (serverless.part ours_found) target_held ours_held
          | _ => cases ours_found
      | _ => cases target_found

/-- Whether a path leaves a value at an object that does not have the name. -/
def lacks : List String → Value → Bool
  | name :: names, .object members =>
      match Members.lookup name members with
      | some held => lacks names held
      | none => true
  | _, _ => false

theorem under_of_lacks {names : List String} {value : Value} (lacking : lacks names value = true) :
    value.under names = none := by
  induction names generalizing value with
  | nil => simp [lacks] at lacking
  | cons name names ih =>
      cases value with
      | object members =>
          rw [lacks] at lacking
          rw [Value.under, Value.get?_object]
          cases found : Members.lookup name members with
          | none => rfl
          | some held =>
              rw [found] at lacking
              exact ih lacking
      | _ => simp [lacks] at lacking

/-- Where Baley's value has no such member, the document's part is untouched. -/
theorem under_merge_of_lacks (json : IsJson ours) (serverless : Serverless ours) {names : List String}
    (lacking : lacks names ours = true) : (merge target key ours).1.under names = target.under names := by
  induction names generalizing target ours key with
  | nil => simp [lacks] at lacking
  | cons name names ih =>
      cases ours with
      | object fields =>
          cases target with
          | object members =>
              rw [lacks] at lacking
              rw [merge, Value.under, Value.under, Value.get?_object, Value.get?_object]
              cases found : Members.lookup name fields with
              | none =>
                  rw [lookup_mergeFields_of_notMem serverless.elsewhere (Members.lookup_eq_none_iff.mp found)]
              | some value =>
                  rw [found] at lacking
                  rw [lookup_merge json serverless found]
                  cases Members.lookup name members with
                  | none => exact under_of_lacks lacking
                  | some held => exact ih (json.get? found) (serverless.part found) lacking
          | _ => rfl
      | _ => simp [lacks] at lacking

/-- Whether a value of Baley's can be put beside what the document holds. -/
def fits (held : Value) : Value → Bool
  | .object _ => held.asObject.isSome
  | .array _ => held.asArray.isSome
  | _ => true

/-- Every part of Baley's value can be put beside what the document holds there. -/
def Fits (target ours : Value) : Prop :=
  ∀ names held value, target.under names = some held → ours.under names = some value → fits held value = true

theorem Fits.part {name : String} {held value : Value} (each : Fits target ours)
    (target_found : target.get? name = some held) (ours_found : ours.get? name = some value) : Fits held value :=
  fun names held value held_eq value_eq =>
    each (name :: names) held value (by rw [Value.under, target_found]; exact held_eq)
      (by rw [Value.under, ours_found]; exact value_eq)

/-- What the document lacks is what Baley's value holds there. -/
theorem under_merge_of_none (json : IsJson ours) (serverless : Serverless ours) (each : Fits target ours)
    {names : List String} (absent : target.under names = none) :
    (merge target key ours).1.under names = ours.under names := by
  induction names generalizing target ours key with
  | nil => cases absent
  | cons name names ih =>
      cases ours with
      | object fields =>
          cases target with
          | object members =>
              rw [Value.under, Value.get?_object] at absent
              rw [merge, Value.under, Value.under, Value.get?_object, Value.get?_object]
              cases found : Members.lookup name fields with
              | none =>
                  rw [lookup_mergeFields_of_notMem serverless.elsewhere (Members.lookup_eq_none_iff.mp found)]
                  exact absent
              | some value =>
                  rw [lookup_merge json serverless found]
                  cases held_eq : Members.lookup name members with
                  | none => rfl
                  | some held =>
                      rw [held_eq] at absent
                      exact ih (json.get? found) (serverless.part found) (each.part held_eq found) absent
          | _ => exact absurd (each [] _ _ rfl rfl) (by simp [fits, Value.asObject])
      | array items =>
          cases target with
          | array list => rfl
          | _ => exact absurd (each [] _ _ rfl rfl) (by simp [fits, Value.asArray])
      | _ =>
          rw [merge_leaf rfl]
          split_ifs
          · exact absent
          · rfl

/-- Along any path a value lacks a name, ends before, or has a part. -/
theorem lacks_or_under (names : List String) (value : Value) :
    lacks names value = true ∨ (∃ part, value.under names = some part) ∨
      ∃ above name rest part, names = above ++ name :: rest ∧ value.under above = some part ∧
        part.asObject = none := by
  induction names generalizing value with
  | nil => exact .inr (.inl ⟨value, rfl⟩)
  | cons name names ih =>
      have ended : value.asObject = none → ∃ above name' rest part, name :: names = above ++ name' :: rest ∧
          value.under above = some part ∧ part.asObject = none :=
        fun flat => ⟨[], name, names, value, rfl, rfl, flat⟩
      cases value with
      | object fields =>
          cases found : Members.lookup name fields with
          | none => exact .inl (by rw [lacks, found])
          | some held =>
              have below : ∀ path, Value.under (name :: path) (.object fields) = Value.under path held :=
                fun path => by rw [Value.under, Value.get?_object, found]; rfl
              rcases ih held with lacking | ⟨part, part_eq⟩ | ⟨above, name', rest, part, names_eq, part_eq, flat⟩
              · left
                rw [lacks, found]
                exact lacking
              · exact .inr (.inl ⟨part, (below names).trans part_eq⟩)
              · right; right
                exact ⟨name :: above, name', rest, part, by rw [names_eq]; rfl, (below above).trans part_eq, flat⟩
      | _ => exact .inr (.inr (ended rfl))

/-- A part above another is an object. -/
theorem under_above {value held : Value} {above rest : List String} {name : String}
    (found : value.under (above ++ name :: rest) = some held) :
    ∃ members, value.under above = some (.object members) := by
  rw [Value.under_append, Option.bind_eq_some_iff] at found
  obtain ⟨part, part_eq, found⟩ := found
  cases part with
  | object members => exact ⟨members, part_eq⟩
  | _ => cases found

/-- A part that is no object is kept, unless Baley's value ends there or puts a leaf above. -/
theorem under_merge_of_flat (json : IsJson ours) (serverless : Serverless ours) (each : Fits target ours)
    {names : List String} {held : Value} (found : target.under names = some held) (flat : held.asObject = none)
    (below_leaf : ∀ above value, above <+: names → ours.under above = some value → isLeaf value = false)
    (no_list : ∀ items, ours.under names ≠ some (.array items)) :
    (merge target key ours).1.under names = some held := by
  rcases lacks_or_under names ours with lacking | ⟨part, part_eq⟩ | ⟨above, name, rest, part, rfl, part_eq, ended⟩
  · rw [under_merge_of_lacks json serverless lacking, found]
  · have fitting := each names held part found part_eq
    have not_leaf := below_leaf names part (List.prefix_refl _) part_eq
    cases part with
    | object _ => simp [fits, flat] at fitting
    | array items => exact absurd part_eq (no_list items)
    | _ => cases not_leaf
  · obtain ⟨members, members_eq⟩ := under_above found
    have fitting := each above _ part members_eq part_eq
    have not_leaf := below_leaf above part (List.prefix_append _ _) part_eq
    cases part with
    | object _ => cases ended
    | array _ => cases fitting
    | _ => cases not_leaf

/-- The names of an object part. -/
def namesOf (part : Option Value) : List String := Members.names ((part.bind Value.asObject).getD [])

/-- An object keeps its names in their places, and the names of Baley's that it lacks go last. -/
theorem under_merge_of_object (json : IsJson ours) (serverless : Serverless ours) (each : Fits target ours)
    {names : List String} (found : target.under names = some (.object members))
    (below_leaf : ∀ above value, above <+: names → ours.under above = some value → isLeaf value = false) :
    ∃ members', (merge target key ours).1.under names = some (.object members') ∧
      Members.names members' =
        Members.names members ++ (namesOf (ours.under names)).filter fun name => name ∉ Members.names members := by
  rcases lacks_or_under names ours with lacking | ⟨part, part_eq⟩ | ⟨above, name, rest, part, rfl, part_eq, ended⟩
  · refine ⟨members, by rw [under_merge_of_lacks json serverless lacking, found], ?_⟩
    rw [under_of_lacks lacking]
    exact (List.append_nil _).symm
  · have fitting := each names _ part found part_eq
    have not_leaf := below_leaf names part (List.prefix_refl _) part_eq
    cases part with
    | object fields =>
        have part_json := json.under part_eq
        have elsewhere : Elsewhere (names.foldl dotted key) fields := by
          refine Serverless.elsewhere fun path held held_eq => serverless (names ++ path) held ?_
          rw [Value.under_append, part_eq]
          exact held_eq
        rw [under_merge json serverless found part_eq, part_eq, merge]
        exact ⟨_, rfl, names_mergeFields elsewhere (named_once part_json)⟩
    | array _ => cases fitting
    | _ => cases not_leaf
  · obtain ⟨members', members_eq⟩ := under_above found
    have fitting := each above _ part members_eq part_eq
    have not_leaf := below_leaf above part (List.prefix_append _ _) part_eq
    cases part with
    | object _ => cases ended
    | array _ => cases fitting
    | _ => cases not_leaf

end Parts

/-! ## Lists -/

section Lists

variable {list items : List Value}

/-- A list keeps its items and gains, in order and each once, those it had nothing the same as. -/
theorem foldl_gains (list items : List Value) :
    ∃ fresh, items.foldl gains list = list ++ fresh ∧ fresh.Sublist items ∧
      (∀ item ∈ fresh, ∀ held ∈ list, held.same item = false) ∧
      fresh.Pairwise fun first second => first.same second = false := by
  induction items generalizing list with
  | nil => exact ⟨[], by simp⟩
  | cons item items ih =>
      rw [List.foldl_cons, gains]
      split_ifs with held
      · obtain ⟨fresh, gained, sublist, unlike, distinct⟩ := ih list
        exact ⟨fresh, gained, sublist.cons item, unlike, distinct⟩
      · obtain ⟨fresh, gained, sublist, unlike, distinct⟩ := ih (list ++ [item])
        rw [List.any_eq_true] at held
        push Not at held
        refine ⟨item :: fresh, by rw [gained, List.append_assoc, List.singleton_append],
          sublist.cons_cons item, ?_, List.pairwise_cons.mpr ⟨?_, distinct⟩⟩
        · rintro other other_mem old old_mem
          rcases List.mem_cons.mp other_mem with rfl | other_mem
          · exact Bool.eq_false_iff.mpr (held old old_mem)
          · exact unlike other other_mem old (List.mem_append_left _ old_mem)
        · exact fun other other_mem =>
            unlike other other_mem item (List.mem_append_right _ (List.mem_singleton_self item))

/-- A list that holds something the same as each item gains none. -/
theorem foldl_gains_of_held (held : ∀ item ∈ items, list.any (·.same item) = true) :
    items.foldl gains list = list := by
  induction items generalizing list with
  | nil => rfl
  | cons item items ih =>
      rw [List.forall_mem_cons] at held
      rw [List.foldl_cons, gains, if_pos held.1]
      exact ih held.2

theorem any_gained {item : Value} (json : IsJson item) (item_mem : item ∈ items) :
    (items.foldl gains list).any (·.same item) = true := by
  induction items generalizing list with
  | nil => cases item_mem
  | cons head items ih =>
      rw [List.foldl_cons]
      rcases List.mem_cons.mp item_mem with rfl | item_mem
      · obtain ⟨fresh, gained, -⟩ := foldl_gains (gains list item) items
        rw [gained, List.any_append, Bool.or_eq_true]
        left
        rw [gains]
        split_ifs with held
        · exact held
        · rw [List.any_append, List.any_cons, Value.same_self json, Bool.true_or, Bool.or_true]
      · exact ih item_mem

end Lists

/-! ## What merging reports -/

/-- What merging a value of Baley's into a held one reports of that part alone. -/
def clash (key : String) (held value : Value) : List Conflict :=
  if fits held value = false then [.notComposable key]
  else if isLeaf value = true ∧ held.same value = false then [.replaced key held]
  else []

theorem clash_leaf {key : String} {held value : Value} (leaf : isLeaf value = true) :
    clash key held value = if held.same value then [] else [.replaced key held] := by
  have fitting : fits held value = true := by
    cases value with
    | object _ | array _ => cases leaf
    | _ => rfl
  cases same : held.same value <;> simp [clash, fitting, leaf, same]

section Reports

variable {target ours : Value} {key : String}

/-- Unless both are objects, only the values themselves can clash. -/
theorem conflicts_flat (flat : target.asObject = none ∨ ours.asObject = none) :
    (merge target key ours).2 = clash key target ours := by
  cases ours with
  | object fields =>
      cases target with
      | object members => simp [Value.asObject] at flat
      | _ => rfl
  | array items => cases target <;> rfl
  | _ =>
      rw [merge_leaf rfl, clash_leaf rfl]
      split_ifs <;> rfl

theorem under_flat (flat : target.asObject = none ∨ ours.asObject = none) {names : List String}
    {held value : Value} (held_eq : target.under names = some held) (value_eq : ours.under names = some value) :
    names = [] := by
  cases names with
  | nil => rfl
  | cons name names =>
      rcases flat with flat | flat
      · cases target with
        | object _ => cases flat
        | _ => cases held_eq
      · cases ours with
        | object _ => cases flat
        | _ => cases value_eq

theorem mem_conflicts_flat (flat : target.asObject = none ∨ ours.asObject = none) {conflict : Conflict} :
    conflict ∈ (merge target key ours).2 ↔
      ∃ names held value, target.under names = some held ∧ ours.under names = some value ∧
        conflict ∈ clash (names.foldl dotted key) held value := by
  rw [conflicts_flat flat]
  constructor
  · exact fun found => ⟨[], target, ours, rfl, rfl, found⟩
  · rintro ⟨names, held, value, held_eq, value_eq, found⟩
    obtain rfl := under_flat flat held_eq value_eq
    rw [← Option.some.inj held_eq, ← Option.some.inj value_eq] at found
    exact found

/-- Every conflict of merging is the clash of two parts that lie under the same names. -/
theorem mem_conflicts_merge (json : IsJson ours) (serverless : Serverless ours) {conflict : Conflict} :
    conflict ∈ (merge target key ours).2 ↔
      ∃ names held value, target.under names = some held ∧ ours.under names = some value ∧
        conflict ∈ clash (names.foldl dotted key) held value := by
  induction json generalizing target key with
  | @object fields fields_once fields_json ih =>
      cases target with
      | object members =>
          rw [merge]
          dsimp only
          rw [conflicts_mergeFields serverless.elsewhere fields_once, List.mem_flatMap]
          constructor
          · rintro ⟨field, field_mem, found⟩
            have field_eq : Value.get? (.object fields) field.1 = some field.2 :=
              (Members.lookup_eq_some_iff fields_once).mpr field_mem
            cases held_eq : Members.lookup field.1 members with
            | none => simp [held_eq, mergedAt] at found
            | some part =>
                rw [held_eq, mergedAt, ih field field_mem (serverless.part field_eq)] at found
                obtain ⟨names, held, value, part_held, field_held, found⟩ := found
                refine ⟨field.1 :: names, held, value, ?_, ?_, found⟩
                · rw [Value.under, Value.get?_object, held_eq]
                  exact part_held
                · rw [Value.under, field_eq]
                  exact field_held
          · rintro ⟨names, held, value, target_held, ours_held, found⟩
            cases names with
            | nil =>
                rw [← Option.some.inj target_held, ← Option.some.inj ours_held] at found
                simp [clash, fits, isLeaf, Value.asObject] at found
            | cons name names =>
                rw [Value.under, Option.bind_eq_some_iff] at target_held ours_held
                obtain ⟨target_part, target_found, target_held⟩ := target_held
                obtain ⟨ours_part, ours_found, ours_held⟩ := ours_held
                have field_mem := Members.mem_of_lookup ours_found
                refine ⟨(name, ours_part), field_mem, ?_⟩
                rw [Value.get?_object] at target_found
                rw [target_found, mergedAt, ih _ field_mem (serverless.part ours_found)]
                exact ⟨names, held, value, target_held, ours_held, found⟩
      | _ => exact mem_conflicts_flat (.inl rfl)
  | _ => exact mem_conflicts_flat (.inr rfl)

/-- Without a reported clash of kinds, every part fits. -/
theorem fits_of_conflicts (key : String) (json : IsJson ours) (serverless : Serverless ours)
    (none_unkept : ∀ at_key, .notComposable at_key ∉ (merge target key ours).2) : Fits target ours := by
  intro names held value held_eq value_eq
  by_contra unfit
  rw [Bool.not_eq_true] at unfit
  refine none_unkept (names.foldl dotted key) ((mem_conflicts_merge json serverless).mpr ?_)
  exact ⟨names, held, value, held_eq, value_eq, by rw [clash, if_pos unfit]; exact List.mem_singleton_self _⟩

theorem notComposable_notMem (json : IsJson ours) (serverless : Serverless ours) (each : Fits target ours)
    (at_key : String) : .notComposable at_key ∉ (merge target key ours).2 := by
  intro found
  obtain ⟨names, held, value, held_eq, value_eq, found⟩ := (mem_conflicts_merge json serverless).mp found
  rw [clash, each names held value held_eq value_eq] at found
  split_ifs at found <;> simp_all

end Reports

/-! ## Merging into what was merged -/

section Again

variable {members fields : Members} {target ours : Value} {key : String}

/-- Where each field is held as it would be merged, an object is merged already. -/
theorem mergeFields_of_held (elsewhere : Elsewhere key fields)
    (held : ∀ field ∈ fields, ∃ part, members.lookup field.1 = some part ∧
      merge part (dotted key field.1) field.2 = (part, [])) :
    mergeFields members key fields = (members, []) := by
  induction fields with
  | nil => rfl
  | cons field fields ih =>
      rw [List.forall_mem_cons] at held
      obtain ⟨part, found, merged⟩ := held.1
      rw [mergeFields_cons elsewhere.head]
      dsimp only
      rw [found, mergedAt, merged, Members.put_of_lookup found, ih elsewhere.tail held.2]
      rfl

/-- A value of Baley's is merged into itself already. -/
theorem merge_self (json : IsJson ours) (serverless : Serverless ours) : merge ours key ours = (ours, []) := by
  induction json generalizing key with
  | @array items items_json _ =>
      rw [merge, foldl_gains_of_held]
      exact fun item item_mem =>
        List.any_eq_true.mpr ⟨item, item_mem, Value.same_self (items_json item item_mem)⟩
  | @object fields fields_once fields_json ih =>
      rw [merge, mergeFields_of_held serverless.elsewhere]
      intro field field_mem
      have found : Members.lookup field.1 fields = some field.2 :=
        (Members.lookup_eq_some_iff fields_once).mpr field_mem
      exact ⟨field.2, found, ih field field_mem (serverless.part found)⟩
  | null => rw [merge_leaf rfl, if_pos (Value.same_self .null)]
  | bool flag => rw [merge_leaf rfl, if_pos (Value.same_self (.bool flag))]
  | number token => rw [merge_leaf rfl, if_pos (Value.same_self (.number token))]
  | string text => rw [merge_leaf rfl, if_pos (Value.same_self (.string text))]

theorem merge_leaf_again (json : IsJson ours) (leaf : isLeaf ours = true) :
    merge (merge target key ours).1 key ours = ((merge target key ours).1, []) := by
  rw [@merge_leaf target ours key leaf]
  split_ifs with same
  · exact (merge_leaf leaf).trans (if_pos same)
  · exact (merge_leaf leaf).trans (if_pos (Value.same_self json))

/-- Merging again into what was merged changes and reports nothing. -/
theorem merge_again (json : IsJson ours) (serverless : Serverless ours) (each : Fits target ours) :
    merge (merge target key ours).1 key ours = ((merge target key ours).1, []) := by
  induction json generalizing target key with
  | @array items items_json _ =>
      cases target with
      | array list =>
          rw [merge, merge]
          dsimp only
          rw [foldl_gains_of_held]
          exact fun item item_mem => any_gained (items_json item item_mem) item_mem
      | _ => exact absurd (each [] _ _ rfl rfl) (by simp [fits, Value.asArray])
  | @object fields fields_once fields_json ih =>
      cases target with
      | object members =>
          rw [merge, merge]
          dsimp only
          rw [mergeFields_of_held serverless.elsewhere]
          intro field field_mem
          have field_eq : Value.get? (.object fields) field.1 = some field.2 :=
            (Members.lookup_eq_some_iff fields_once).mpr field_mem
          refine ⟨_, lookup_merge (.object fields_once fields_json) serverless field_eq, ?_⟩
          cases found : Members.lookup field.1 members with
          | none => exact merge_self (fields_json field field_mem) (serverless.part field_eq)
          | some held => exact ih field field_mem (serverless.part field_eq) (each.part found field_eq)
      | _ => exact absurd (each [] _ _ rfl rfl) (by simp [fits, Value.asObject])
  | null => exact merge_leaf_again .null rfl
  | bool flag => exact merge_leaf_again (.bool flag) rfl
  | number token => exact merge_leaf_again (.number token) rfl
  | string text => exact merge_leaf_again (.string text) rfl

/-- What is merged names each member of each object once. -/
theorem isJson_merge (json : IsJson ours) (target_json : IsJson target) : IsJson (merge target key ours).1 := by
  induction json generalizing target key with
  | @array items items_json _ =>
      cases target with
      | array list =>
          obtain ⟨fresh, gained, sublist, -⟩ := foldl_gains list items
          have list_json : ∀ item ∈ list, IsJson item := by
            cases target_json with
            | array list_json => exact list_json
          rw [merge]
          dsimp only
          rw [gained]
          refine .array fun item item_mem => ?_
          rcases List.mem_append.mp item_mem with item_mem | item_mem
          · exact list_json item item_mem
          · exact items_json item (sublist.subset item_mem)
      | _ => exact target_json
  | @object fields fields_once fields_json ih =>
      cases target with
      | object members =>
          clear fields_once
          rw [merge]
          dsimp only
          induction fields generalizing members with
          | nil => exact target_json
          | cons field fields rest =>
              rw [List.forall_mem_cons] at fields_json ih
              rw [mergeFields]
              refine rest fields_json.2 (fun other other_mem => ih.2 other other_mem) _ ?_
              cases found : Members.lookup field.1 members with
              | none => exact isJson_put target_json fields_json.1
              | some held =>
                  dsimp only
                  split_ifs
                  · exact target_json
                  · exact isJson_put target_json (ih.1 (target_json.get? found))
      | _ => exact target_json
  | _ =>
      rw [merge_leaf rfl]
      split_ifs
      · exact target_json
      · constructor <;> assumption

end Again

end Baley.Install
