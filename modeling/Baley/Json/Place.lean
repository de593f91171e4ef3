import Baley.Json.Value

/-!
# Places in a value

A place is a path of member names and list positions.  A walk over two values lists places in its own
order, and names the first at which the values differ.
-/

namespace Json

instance : LawfulBEq Value where
  eq_of_beq := Value.eq_of_beq
  rfl := Value.beq_self _

inductive Place.Step where
  | member (name : String)
  | index (position : Nat)
  deriving DecidableEq

/-- The steps from a value down to one of its parts. -/
abbrev Place := List Place.Step

namespace Value

/-- The member of a name, null where there is none. -/
def member (value : Value) (name : String) : Value :=
  (value.get? name).getD .null

/-- The part one step down: a list has no part past its end. -/
def part (value : Value) : Place.Step → Option Value
  | .member name => some (value.member name)
  | .index position => value.asArray.bind fun items => items[position]?

/-- The part at a place. -/
def at_place (value : Value) (place : Place) : Option Value :=
  place.foldlM part value

end Value

namespace Place

/-- The text of a place below one that is already written. -/
def below (path : String) : Place → String
  | [] => path
  | .member name :: place => below (path ++ "." ++ name) place
  | .index position :: place => below (path ++ "[" ++ position.repr ++ "]") place

/-- Whether two values differ at a place. -/
def differs (first second : Value) (place : Place) : Bool :=
  first.at_place place != second.at_place place

theorem differs_cons {first second part part' : Value} {step : Step}
    (first_part : first.part step = some part) (second_part : second.part step = some part')
    (place : Place) : differs first second (step :: place) = differs part part' place := by
  simp only [differs, Value.at_place, List.foldlM_cons, first_part, second_part, Option.bind_eq_bind,
    Option.bind_some]

/-- The first difference below one step. -/
theorem find?_below {first second part part' : Value} {step : Step}
    (first_part : first.part step = some part) (second_part : second.part step = some part')
    (places : List Place) :
    (places.map (step :: ·)).find? (differs first second) =
      (places.find? (differs part part')).map (step :: ·) := by
  rw [List.find?_map]
  refine congrArg (Option.map _) (congrArg (List.find? · places) (funext fun place => ?_))
  exact differs_cons first_part second_part place

/-- What a walk over two values answers: the first of its places at which they differ, below a path. -/
def Names (walk : String → Option String) (places : List Place) (first second : Value) : Prop :=
  ∀ path, walk path = (places.find? (differs first second)).map (below path)

theorem differs_nil {first second : Value} : differs first second [] = (first != second) := by
  cases same : first == second with
  | true =>
      rw [eq_of_beq same]
      simp [differs]
  | false => simp [differs, Value.at_place, bne, same]

/-- A walk that looks no further. -/
theorem names_whole {walk : String → Option String} {first second : Value}
    (whole : ∀ path, walk path = if first == second then none else some path) :
    Names walk [[]] first second := by
  intro path
  rw [whole, List.find?_cons, differs_nil, bne]
  cases first == second <;> rfl

/-- The places below the members of some names, in their order. -/
def memberPlaces (names : List String) (places : String → List Place) : List Place :=
  names.flatMap fun name => (places name).map (.member name :: ·)

/-- A walk over the members of some names. -/
theorem names_members {names : List String} {walk : String → String → Option String}
    {places : String → List Place} {first second : Value}
    (each : ∀ name ∈ names,
      Names (walk name) (places name) (first.member name) (second.member name)) :
    Names (fun path => names.findSome? fun name => walk name (path ++ "." ++ name))
      (memberPlaces names places) first second := by
  intro path
  rw [memberPlaces, List.find?_flatMap, List.map_findSome?]
  induction names with
  | nil => rfl
  | cons name names ih =>
      rw [List.forall_mem_cons] at each
      have here : walk name (path ++ "." ++ name) =
          (((places name).map (.member name :: ·)).find? (differs first second)).map (below path) := by
        rw [each.1, find?_below rfl rfl, Option.map_map]
        rfl
      have rest := ih each.2
      dsimp only at rest ⊢
      rw [List.findSome?_cons, List.findSome?_cons, here, rest]
      rfl

end Place

end Json
