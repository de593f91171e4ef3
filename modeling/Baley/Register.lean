import Mathlib.Data.List.Basic
import Mathlib.Logic.Function.Basic
import Mathlib.Logic.Relation

/-!
# Registers of exclusive holdings

An entry of a register is opened with the tokens it holds and is closed with a result.  A directory names
the open entry that holds a token, so that a new entry is kept from a held token without a walk over all
entries.
-/

/-- How an entry of a register stands. -/
inductive Standing (Claim Result : Type) where
  | opened (claim : Claim)
  | closed (result : Result)

/-- The entries of a register by their ids. -/
abbrev Register (Id Claim Result : Type) := Id → Option (Standing Claim Result)

namespace Register

variable {Id Claim Result Token Note : Type}

/-- The entry of an id is open and holds a claim. -/
def Opens (register : Register Id Claim Result) (id : Id) (claim : Claim) : Prop :=
  register id = some (.opened claim)

variable {register after : Register Id Claim Result} {id other : Id} {claim : Claim} {result : Result}

theorem Opens.unique {claim' : Claim} (opens : register.Opens id claim) (opens' : register.Opens id claim') :
    claim = claim' := by
  rw [Opens, opens] at opens'
  exact Standing.opened.inj (Option.some.inj opens')

section Put

variable [DecidableEq Id]

/-- Put an entry at an id. -/
def put (register : Register Id Claim Result) (id : Id) (standing : Standing Claim Result) :
    Register Id Claim Result :=
  Function.update register id (some standing)

theorem put_apply (register : Register Id Claim Result) (id : Id) (standing : Standing Claim Result)
    (other : Id) : register.put id standing other = if other = id then some standing else register other :=
  Function.update_apply ..

theorem opens_put_opened {claim' : Claim} :
    (register.put id (.opened claim)).Opens other claim' ↔
      if other = id then claim = claim' else register.Opens other claim' := by
  rw [Opens, put_apply]
  split_ifs with same
  · simp
  · rfl

theorem opens_put_closed {claim' : Claim} :
    (register.put id (.closed result)).Opens other claim' ↔ other ≠ id ∧ register.Opens other claim' := by
  rw [Opens, put_apply]
  split_ifs with same
  · simp [same]
  · simp [same, Opens]

end Put

/-! ## Moves -/

section Moves

variable (tokens : Claim → List Token)

/-- No token is held by two open entries. -/
def Exclusive (register : Register Id Claim Result) : Prop :=
  ∀ {id other claim claim' token}, register.Opens id claim → register.Opens other claim' →
    token ∈ tokens claim → token ∈ tokens claim' → id = other

variable [DecidableEq Id]

/-- One change of a register. -/
inductive Move (register : Register Id Claim Result) : Register Id Claim Result → Prop
  /-- A new entry is closed at once. -/
  | answer {id : Id} (free : register id = none) (result : Result) : Move register (register.put id (.closed result))
  /-- A new entry is opened with tokens that no open entry holds. -/
  | take {id : Id} (free : register id = none) (claim : Claim)
      (apart : ∀ token ∈ tokens claim, ∀ other held, register.Opens other held → token ∉ tokens held) :
      Move register (register.put id (.opened claim))
  /-- An open entry stays open with the tokens it holds. -/
  | hold {id : Id} {claim : Claim} (opens : register.Opens id claim) (claim' : Claim)
      (tokens_eq : tokens claim' = tokens claim) : Move register (register.put id (.opened claim'))
  /-- An open entry is closed. -/
  | close {id : Id} {claim : Claim} (opens : register.Opens id claim) (result : Result) :
      Move register (register.put id (.closed result))

/-- Any number of changes, one after the other. -/
def Moves : Register Id Claim Result → Register Id Claim Result → Prop :=
  Relation.ReflTransGen (Move tokens)

variable {tokens}

theorem Move.exclusive (move : Move tokens register after) (exclusive : Exclusive tokens register) :
    Exclusive tokens after := by
  intro first second claim claim' token opens opens' token_mem token_mem'
  cases move with
  | answer free result =>
      rw [opens_put_closed] at opens opens'
      exact exclusive opens.2 opens'.2 token_mem token_mem'
  | take free taken apart =>
      rw [opens_put_opened] at opens opens'
      split_ifs at opens opens' with at_first at_second at_second
      · exact at_first.trans at_second.symm
      · exact absurd token_mem' (apart token (opens ▸ token_mem) second claim' opens')
      · exact absurd token_mem (apart token (opens' ▸ token_mem') first claim opens)
      · exact exclusive opens opens' token_mem token_mem'
  | @hold id held holds kept tokens_eq =>
      rw [opens_put_opened] at opens opens'
      split_ifs at opens opens' with at_first at_second at_second
      · exact at_first.trans at_second.symm
      · rw [← opens, tokens_eq] at token_mem
        exact at_first.trans (exclusive holds opens' token_mem token_mem')
      · rw [← opens', tokens_eq] at token_mem'
        exact (exclusive opens holds token_mem token_mem').trans at_second.symm
      · exact exclusive opens opens' token_mem token_mem'
  | close holds result =>
      rw [opens_put_closed] at opens opens'
      exact exclusive opens.2 opens'.2 token_mem token_mem'

theorem Moves.exclusive (moves : Moves tokens register after) (exclusive : Exclusive tokens register) :
    Exclusive tokens after := by
  induction moves with
  | refl => exact exclusive
  | tail _ move ih => exact move.exclusive ih

/-- A closed entry stays as it is. -/
theorem Move.closed (move : Move tokens register after) (closed : register id = some (.closed result)) :
    after id = some (.closed result) := by
  have apart {moved : Id} (standing : Standing Claim Result) (differs : register moved ≠ register id) :
      register.put moved standing id = some (.closed result) := by
    rw [put_apply, if_neg fun same => differs (congrArg register same.symm), closed]
  cases move with
  | answer free => exact apart _ (by simp [free, closed])
  | take free => exact apart _ (by simp [free, closed])
  | hold opens => exact apart _ (by rw [opens, closed]; simp)
  | close opens => exact apart _ (by rw [opens, closed]; simp)

theorem Moves.closed (moves : Moves tokens register after) (closed : register id = some (.closed result)) :
    after id = some (.closed result) := by
  induction moves with
  | refl => exact closed
  | tail _ move ih => exact move.closed ih

end Moves

/-! ## Directories -/

/-- A directory names, for each token, the open entry that holds it with a note of its claim. -/
structure Directory (tokens : Claim → List Token) (note : Claim → Note) (register : Register Id Claim Result)
    (holder : Token → Option (Id × Note)) : Prop where
  holds_iff : ∀ token id noted, holder token = some (id, noted) ↔
    ∃ claim, register.Opens id claim ∧ token ∈ tokens claim ∧ note claim = noted

namespace Directory

variable {tokens : Claim → List Token} {note : Claim → Note} {holder : Token → Option (Id × Note)}

theorem exclusive (directory : Directory tokens note register holder) : Exclusive tokens register := by
  intro first second claim claim' token opens opens' token_mem token_mem'
  have held := (directory.holds_iff token first _).mpr ⟨claim, opens, token_mem, rfl⟩
  have held' := (directory.holds_iff token second _).mpr ⟨claim', opens', token_mem', rfl⟩
  rw [held] at held'
  exact congrArg Prod.fst (Option.some.inj held')

variable [DecidableEq Id]

theorem answer (directory : Directory tokens note register holder) (free : register id = none)
    (result : Result) : Directory tokens note (register.put id (.closed result)) holder where
  holds_iff token other noted := by
    rw [directory.holds_iff]
    refine exists_congr fun claim => and_congr_left fun _ => ?_
    rw [opens_put_closed]
    refine ⟨fun opens => ⟨fun same => ?_, opens⟩, And.right⟩
    rw [same, Opens, free] at opens
    cases opens

theorem take [DecidableEq Token] (directory : Directory tokens note register holder) (free : register id = none)
    (claim : Claim) (apart : ∀ token ∈ tokens claim, holder token = none) :
    Directory tokens note (register.put id (.opened claim))
      fun token => if token ∈ tokens claim then some (id, note claim) else holder token where
  holds_iff token other noted := by
    simp only [opens_put_opened]
    constructor
    · intro named
      split_ifs at named with token_mem
      · obtain ⟨rfl, rfl⟩ := Prod.mk.inj (Option.some.inj named)
        exact ⟨claim, by rw [if_pos rfl], token_mem, rfl⟩
      · obtain ⟨held, opens, held_mem, noted_eq⟩ := (directory.holds_iff ..).mp named
        have differs : other ≠ id := by
          intro same
          rw [same, Opens, free] at opens
          cases opens
        exact ⟨held, by rwa [if_neg differs], held_mem, noted_eq⟩
    · rintro ⟨held, opens, held_mem, rfl⟩
      split_ifs at opens with same
      · rw [if_pos (opens ▸ held_mem), same, opens]
      · have named := (directory.holds_iff ..).mpr ⟨held, opens, held_mem, rfl⟩
        have outside : token ∉ tokens claim := by
          intro token_mem
          rw [apart token token_mem] at named
          cases named
        rw [if_neg outside, named]

theorem hold (directory : Directory tokens note register holder) (opens : register.Opens id claim)
    {claim' : Claim} (tokens_eq : tokens claim' = tokens claim) (note_eq : note claim' = note claim) :
    Directory tokens note (register.put id (.opened claim')) holder where
  holds_iff token other noted := by
    rw [directory.holds_iff]
    simp only [opens_put_opened]
    by_cases same : other = id
    · subst same
      simp only [↓reduceIte]
      constructor
      · rintro ⟨held, held_opens, held_mem, rfl⟩
        obtain rfl := opens.unique held_opens
        exact ⟨claim', rfl, tokens_eq ▸ held_mem, note_eq⟩
      · rintro ⟨_, rfl, held_mem, rfl⟩
        exact ⟨claim, opens, tokens_eq ▸ held_mem, note_eq.symm⟩
    · simp only [if_neg same]

theorem close [DecidableEq Token] (directory : Directory tokens note register holder) (opens : register.Opens id claim)
    (result : Result) :
    Directory tokens note (register.put id (.closed result))
      fun token => if token ∈ tokens claim then none else holder token where
  holds_iff token other noted := by
    simp only [opens_put_closed]
    constructor
    · intro named
      split_ifs at named with token_mem
      obtain ⟨held, held_opens, held_mem, noted_eq⟩ := (directory.holds_iff ..).mp named
      refine ⟨held, ⟨?_, held_opens⟩, held_mem, noted_eq⟩
      rintro rfl
      exact token_mem (opens.unique held_opens ▸ held_mem)
    · rintro ⟨held, ⟨differs, held_opens⟩, held_mem, rfl⟩
      have outside : token ∉ tokens claim := fun token_mem =>
        differs (directory.exclusive held_opens opens held_mem token_mem)
      rw [if_neg outside]
      exact (directory.holds_iff ..).mpr ⟨held, held_opens, held_mem, rfl⟩

end Directory

end Register
