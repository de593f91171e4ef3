import Baley.Event

/-!
# Views, their declarations and projectors

A projector keeps one view current: an event and the documents it names in, changes out.
-/

namespace Baley

open Json

/-- One value of a key or index field. -/
inductive KeyValue where
  | text (text : String)
  | integer (integer : Int)
  deriving DecidableEq, Repr

/-- A document's key within its view and project, in declared order. -/
abbrev DocKey := List KeyValue

/-- The type of a key or index field. -/
inductive FieldKind where
  | text
  | integer
  deriving DecidableEq, Repr

/-- The kind's name in a refusal. -/
def FieldKind.name : FieldKind → String
  | .text => "Text"
  | .integer => "Integer"

def KeyValue.kind : KeyValue → FieldKind
  | .text _ => .text
  | .integer _ => .integer

/-- A key or index field: a top-level field of the document body. -/
structure FieldSpec where
  name : String
  kind : FieldKind
  deriving DecidableEq

inductive Order where
  | ascending
  | descending
  deriving DecidableEq, Repr

/-- One field of an index, with its order. -/
structure IndexField extends FieldSpec where
  order : Order
  deriving DecidableEq

/-- A declared index.  Pages follow its fields in their orders, then the document key ascending. -/
structure IndexSpec where
  name : String
  fields : List IndexField
  deriving DecidableEq

/-- The fields of an index without their orders. -/
def IndexSpec.columns (index : IndexSpec) : List FieldSpec :=
  index.fields.map IndexField.toFieldSpec

/-- A view as its owner declares it. -/
structure ViewSpec where
  name : String
  /-- The projector version. -/
  version : Nat
  key : List FieldSpec
  indexes : List IndexSpec
  /-- No page holds more documents than this. -/
  pageBound : Nat
  deriving DecidableEq

/-- A view document and where it came from. -/
structure Document where
  key : DocKey
  /-- The sequence of the last event that changed it. -/
  producedSeq : Nat
  projectorVersion : Nat
  body : Value

/-- One document change a projector returns. -/
inductive Change where
  | put (key : DocKey) (body : Value)
  | delete (key : DocKey)

def Change.key : Change → DocKey
  | .put key _ => key
  | .delete key => key

/-- The body the change leaves at its key. -/
def Change.body : Change → Option Value
  | .put _ body => some body
  | .delete _ => none

/-- Keeps one view current.  `keys` names the documents `apply` needs; a missing one is absent from
what `apply` is given.  The error is the projector's message. -/
structure Projector where
  spec : ViewSpec
  handles : List String
  keys : Event → List DocKey
  apply : Event → List (DocKey × Value) → Except String (List Change)

/-- A read by a declared index: equal values for a leading prefix of its fields, and which page. -/
structure IndexQuery where
  index : String
  equals : List KeyValue
  limit : Nat
  after : Option String

/-- One page and the cursor to the next, if there is one. -/
structure Page (α : Type) where
  items : List α
  next : Option String

end Baley
