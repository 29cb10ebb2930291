import Spox.Webapp.Js

/-!
# Webapp — Clarity values as JSON

The values `cvToJSON` of the Stacks library turns a Clarity value into: a node
`{type, value}` for every value, whose `type` is a text that describes the
Clarity type. Only the shape of the nodes is fixed here; the text is whatever
function the library uses.
-/

namespace Spox.Webapp

/-- A JSON value without numbers: Clarity integers are written as strings. An
object is the list of its properties, in order. -/
inductive Json where
  | null
  | bool (b : Bool)
  | str (text : Text)
  | arr (items : List Json)
  | obj (fields : List (Text × Json))

/-- A Clarity value. -/
inductive ClarityValue where
  | uint (n : Nat)
  | int (n : Int)
  | bool (b : Bool)
  | principal (text : Text)
  | stringAscii (text : Text)
  | none
  | some (value : ClarityValue)
  | list (values : List ClarityValue)
  | tuple (fields : List (Text × ClarityValue))

namespace ClarityValue

theorem sizeOf_lt_list {value : ClarityValue} {values : List ClarityValue} (h : value ∈ values) :
    sizeOf value < sizeOf (ClarityValue.list values) := by
  have hlt := List.sizeOf_lt_of_mem h
  rw [list.sizeOf_spec]
  omega

theorem sizeOf_lt_tuple {field : Text × ClarityValue} {fields : List (Text × ClarityValue)}
    (h : field ∈ fields) : sizeOf field.2 < sizeOf (ClarityValue.tuple fields) := by
  have hlt := List.sizeOf_lt_of_mem h
  obtain ⟨name, value⟩ := field
  rw [Prod.mk.sizeOf_spec] at hlt
  show sizeOf value < _
  rw [tuple.sizeOf_spec]
  omega

/-- Induction on a Clarity value: over the elements of a list and the fields
of a tuple. -/
@[elab_as_elim]
theorem induction {P : ClarityValue → Prop} (uint : ∀ n, P (.uint n)) (int : ∀ n, P (.int n))
    (bool : ∀ b, P (.bool b)) (principal : ∀ text, P (.principal text))
    (stringAscii : ∀ text, P (.stringAscii text)) (none : P .none)
    (some : ∀ value, P value → P (.some value))
    (list : ∀ values, (∀ value ∈ values, P value) → P (.list values))
    (tuple : ∀ fields, (∀ field ∈ fields, P field.2) → P (.tuple fields)) :
    ∀ v, P v
  | .uint n => uint n
  | .int n => int n
  | .bool b => bool b
  | .principal text => principal text
  | .stringAscii text => stringAscii text
  | .none => none
  | .some value =>
      some value (induction uint int bool principal stringAscii none some list tuple value)
  | .list values => list values fun value _ =>
      induction uint int bool principal stringAscii none some list tuple value
  | .tuple fields => tuple fields fun field _ =>
      induction uint int bool principal stringAscii none some list tuple field.2
decreasing_by
  · simp
  · exact sizeOf_lt_list ‹_›
  · exact sizeOf_lt_tuple ‹_›

/-- A value lies within another: it is the value or lies within a part of it. -/
inductive Within : ClarityValue → ClarityValue → Prop
  | refl (v : ClarityValue) : Within v v
  | some {v value : ClarityValue} (h : Within v value) : Within v (.some value)
  | list {v value : ClarityValue} {values : List ClarityValue} (hmem : value ∈ values)
      (h : Within v value) : Within v (.list values)
  | tuple {v : ClarityValue} {field : Text × ClarityValue} {fields : List (Text × ClarityValue)}
      (hmem : field ∈ fields) (h : Within v field.2) : Within v (.tuple fields)

end ClarityValue

/-! ## Nodes -/

/-- A node of a text and a value. -/
def node (text : Text) (value : Json) : Json :=
  .obj [("type".toList, .str text), ("value".toList, value)]

section

variable (typeText : ClarityValue → Text)

mutual

/-- The `value` of the node of a Clarity value. -/
def cvToValue : ClarityValue → Json
  | .uint n => .str (bigintToString n)
  | .int n => .str (bigintToString n)
  | .bool b => .bool b
  | .principal text => .str text
  | .stringAscii text => .str text
  | .none => .null
  | .some value => node (typeText value) (cvToValue value)
  | .list values => .arr (cvToItems values)
  | .tuple fields => .obj (cvToFields fields)

/-- The nodes of the elements of a list. -/
def cvToItems : List ClarityValue → List Json
  | [] => []
  | value :: values => node (typeText value) (cvToValue value) :: cvToItems values

/-- The nodes of the fields of a tuple. -/
def cvToFields : List (Text × ClarityValue) → List (Text × Json)
  | [] => []
  | (name, value) :: fields => (name, node (typeText value) (cvToValue value)) :: cvToFields fields

end

/-- `cvToJSON`. -/
def cvToJson (v : ClarityValue) : Json := node (typeText v) (cvToValue typeText v)

theorem cvToValue_list (values : List ClarityValue) :
    cvToValue typeText (.list values) = .arr (values.map (cvToJson typeText)) := by
  rw [cvToValue, Json.arr.injEq]
  induction values with
  | nil => rfl
  | cons value values ih =>
      rw [cvToItems, ih]
      rfl

theorem cvToValue_tuple (fields : List (Text × ClarityValue)) :
    cvToValue typeText (.tuple fields) =
      .obj (fields.map fun field => (field.1, cvToJson typeText field.2)) := by
  rw [cvToValue, Json.obj.injEq]
  induction fields with
  | nil => rfl
  | cons field fields ih =>
      rw [cvToFields, ih]
      rfl

end

/-! ## Plain values -/

mutual

/-- What a Clarity value is to a reader: integers and texts as strings,
optionals as the value or null, lists as arrays and tuples as objects. -/
def ClarityValue.plain : ClarityValue → Json
  | .uint n => .str (bigintToString n)
  | .int n => .str (bigintToString n)
  | .bool b => .bool b
  | .principal text => .str text
  | .stringAscii text => .str text
  | .none => .null
  | .some value => value.plain
  | .list values => .arr (ClarityValue.plainItems values)
  | .tuple fields => .obj (ClarityValue.plainFields fields)

/-- The elements of a list. -/
def ClarityValue.plainItems : List ClarityValue → List Json
  | [] => []
  | value :: values => value.plain :: ClarityValue.plainItems values

/-- The fields of a tuple, under their names. -/
def ClarityValue.plainFields : List (Text × ClarityValue) → List (Text × Json)
  | [] => []
  | (name, value) :: fields => (name, value.plain) :: ClarityValue.plainFields fields

end

namespace ClarityValue

theorem plain_list (values : List ClarityValue) :
    (list values).plain = .arr (values.map plain) := by
  rw [plain, Json.arr.injEq]
  induction values with
  | nil => rfl
  | cons value values ih =>
      rw [plainItems, ih]
      rfl

theorem plain_tuple (fields : List (Text × ClarityValue)) :
    (tuple fields).plain = .obj (fields.map fun field => (field.1, field.2.plain)) := by
  rw [plain, Json.obj.injEq]
  induction fields with
  | nil => rfl
  | cons field fields ih =>
      rw [plainFields, ih]
      rfl

end ClarityValue

end Spox.Webapp
