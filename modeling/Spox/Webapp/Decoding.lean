import Mathlib.Data.List.Infix
import Spox.Webapp.Json

/-!
# Webapp — decoding registry events

`registry-events.ts`: a printed Clarity value arrives as hex, `cvToJSON` makes
nodes of it and `unwrapJsonValue` takes the nodes off again. It tells nodes
from the field maps of tuples by their shape, so a tuple whose fields look like
a node is taken for one (`Collides`).
-/

namespace Spox.Webapp

/-- What is thrown: by a call of something that is no function, or by the
Stacks library. -/
inductive JsError where
  | notAFunction
  | invalidHex
deriving DecidableEq

/-- What is used of the Stacks library: `hexToCV`, and the type texts of
`cvToJSON`. -/
structure StacksLibrary where
  hexToCv : Text → Except JsError ClarityValue
  typeText : ClarityValue → Text

/-- The first test on a node: `typed.type` starts with `(optional`, is
`optional` or is a text with `optional` in it. A type that is there but is no
text has no `startsWith` to call. -/
def isOptional : Option Json → Except JsError Bool
  | none => .ok false
  | some .null => .ok false
  | some (.str text) => .ok ("(optional".toList.isPrefixOf text || text == "optional".toList ||
      decide ("optional".toList <:+: text))
  | some _ => .error .notAFunction

theorem sizeOf_lookup {fields : List (Text × Json)} {name : Text} {value : Json}
    (h : fields.lookup name = some value) : sizeOf value < sizeOf fields := by
  induction fields with
  | nil => cases h
  | cons field fields ih =>
      obtain ⟨key, head⟩ := field
      rw [List.lookup_cons] at h
      rw [List.cons.sizeOf_spec, Prod.mk.sizeOf_spec]
      split at h
      · cases h
        omega
      · have hrest := ih h
        omega

mutual

/-- `unwrapJsonValue`. -/
def unwrapJsonValue : Json → Except JsError Json
  | .obj fields =>
      match _hvalue : fields.lookup "value".toList with
      | some value =>
          if fields.length ≤ 3 then do
            if ← isOptional (fields.lookup "type".toList) then
              match value with
              | .null => pure .null
              | _ => unwrapJsonValue value
            else
              match _hinner : value with
              | .obj inner =>
                  if (inner.lookup "type".toList).isSome then
                    -- a tuple: the value is a map of fields, each with type and value
                    .obj <$> unwrapFields inner
                  else unwrapJsonValue value
              | _ => unwrapJsonValue value
          else .obj <$> unwrapFields fields
      | none => .obj <$> unwrapFields fields
  | .arr items => .arr <$> unwrapItems items
  | node => pure node
termination_by node => sizeOf node
decreasing_by
  all_goals simp only [Json.obj.sizeOf_spec, Json.arr.sizeOf_spec]
  · have hlt := sizeOf_lookup _hvalue
    omega
  · have hlt := sizeOf_lookup _hvalue
    rw [_hinner, Json.obj.sizeOf_spec] at hlt
    omega
  · have hlt := sizeOf_lookup _hvalue
    omega
  · have hlt := sizeOf_lookup _hvalue
    omega
  · omega
  · omega
  · omega

/-- The elements of an array. -/
def unwrapItems : List Json → Except JsError (List Json)
  | [] => pure []
  | item :: items => do
      let item ← unwrapJsonValue item
      let items ← unwrapItems items
      pure (item :: items)
termination_by items => sizeOf items

/-- The properties of an object. -/
def unwrapFields : List (Text × Json) → Except JsError (List (Text × Json))
  | [] => pure []
  | (name, value) :: fields => do
      let value ← unwrapJsonValue value
      let fields ← unwrapFields fields
      pure ((name, value) :: fields)
termination_by fields => sizeOf fields

end

/-- `decodeContractLogHex`. -/
def decodeContractLogHex (library : StacksLibrary) (hex : Text) :
    Except JsError (List (Text × Json)) := do
  let v ← library.hexToCv hex
  let unwrapped ← unwrapJsonValue (cvToJson library.typeText v)
  match unwrapped with
  | .obj fields => pure fields
  | unwrapped => pure [("value".toList, unwrapped)]

/-! ## Objects and nodes -/

variable {fields inner : List (Text × Json)} {value : Json} {text : Text}

theorem isOptional_str (text : Text) :
    isOptional (some (.str text)) = .ok (decide ("optional".toList <:+: text)) := by
  have hprefix : "(optional".toList <+: text → "optional".toList <:+: text := by
    intro h
    exact (List.infix_cons (List.infix_refl _)).trans h.isInfix
  have hsame : text = "optional".toList → "optional".toList <:+: text := by
    rintro rfl
    exact List.infix_refl _
  rw [isOptional, Except.ok.injEq, Bool.eq_iff_iff]
  simp only [Bool.or_eq_true, List.isPrefixOf_iff_prefix, beq_iff_eq, decide_eq_true_eq]
  constructor
  · rintro ((h | h) | h)
    · exact hprefix h
    · exact hsame h
    · exact h
  · exact fun h => .inr h

/-- An object that has no `value`, or too many properties for a node. -/
theorem unwrap_object (h : ¬((fields.lookup "value".toList).isSome ∧ fields.length ≤ 3)) :
    unwrapJsonValue (.obj fields) = .obj <$> unwrapFields fields := by
  rw [unwrapJsonValue]
  split
  · next value hvalue => rw [if_neg fun hlen => h ⟨by rw [hvalue]; rfl, hlen⟩]
  · rfl

theorem unwrap_node (text : Text) (value : Json) :
    unwrapJsonValue (node text value) =
      if "optional".toList <:+: text then
        match value with
        | .null => pure .null
        | _ => unwrapJsonValue value
      else
        match value with
        | .obj inner =>
            if (inner.lookup "type".toList).isSome then .obj <$> unwrapFields inner
            else unwrapJsonValue (.obj inner)
        | _ => unwrapJsonValue value := by
  have hvalue : List.lookup "value".toList [("type".toList, Json.str text),
      ("value".toList, value)] = some value := rfl
  have htype : List.lookup "type".toList [("type".toList, Json.str text),
      ("value".toList, value)] = some (.str text) := rfl
  have hlength : [("type".toList, Json.str text), ("value".toList, value)].length ≤ 3 :=
    Nat.le_succ 2
  rw [node, unwrapJsonValue]
  split
  · next v hv =>
      obtain rfl : value = v := Option.some.inj (hvalue.symm.trans hv)
      rw [if_pos hlength, htype, isOptional_str]
      by_cases hopt : "optional".toList <:+: text
      · rw [if_pos hopt, decide_eq_true hopt]
        cases value <;> rfl
      · rw [if_neg hopt, decide_eq_false hopt]
        cases value <;> rfl
  · next hnone =>
      rw [hvalue] at hnone
      cases hnone

/-! ## Elements and properties -/

theorem map_eq_ok {α β : Type} {f : α → β} {result : Except JsError α} {b : β} :
    f <$> result = .ok b ↔ ∃ a, result = .ok a ∧ f a = b := by
  cases result with
  | error e => simp
  | ok a => simp

/-- An array is unwrapped element by element. -/
theorem unwrapItems_map_iff {α : Type} {item plain : α → Json} {l : List α} :
    unwrapItems (l.map item) = .ok (l.map plain) ↔
      ∀ a ∈ l, unwrapJsonValue (item a) = .ok (plain a) := by
  induction l with
  | nil => simp [unwrapItems, pure, Except.pure]
  | cons a l ih =>
      rw [List.forall_mem_cons, ← ih, List.map_cons, List.map_cons, unwrapItems]
      cases unwrapJsonValue (item a) with
      | error e => simp [bind, Except.bind]
      | ok first =>
          cases unwrapItems (l.map item) with
          | error e => simp [bind, Except.bind]
          | ok rest => simp [bind, Except.bind, pure, Except.pure]

/-- An object is unwrapped property by property. -/
theorem unwrapFields_map_iff {α : Type} {item plain : α → Json} {l : List (Text × α)} :
    unwrapFields (l.map fun field => (field.1, item field.2)) =
        .ok (l.map fun field => (field.1, plain field.2)) ↔
      ∀ field ∈ l, unwrapJsonValue (item field.2) = .ok (plain field.2) := by
  induction l with
  | nil => simp [unwrapFields, pure, Except.pure]
  | cons field l ih =>
      rw [List.forall_mem_cons, ← ih, List.map_cons, List.map_cons, unwrapFields]
      cases unwrapJsonValue (item field.2) with
      | error e => simp [bind, Except.bind]
      | ok first =>
          cases unwrapFields (l.map fun field => (field.1, item field.2)) with
          | error e => simp [bind, Except.bind]
          | ok rest => simp [bind, Except.bind, pure, Except.pure]

/-- It keeps the names. -/
theorem unwrapFields_names {out : List (Text × Json)} (h : unwrapFields fields = .ok out) :
    out.map Prod.fst = fields.map Prod.fst := by
  induction fields generalizing out with
  | nil =>
      rw [unwrapFields] at h
      cases h
      rfl
  | cons field fields ih =>
      rw [unwrapFields] at h
      cases hvalue : unwrapJsonValue field.2 with
      | error e =>
          rw [hvalue] at h
          cases h
      | ok value =>
          cases hrest : unwrapFields fields with
          | error e =>
              rw [hvalue, hrest] at h
              cases h
          | ok rest =>
              rw [hvalue, hrest] at h
              cases h
              rw [List.map_cons, List.map_cons, ih hrest]

theorem isSome_lookup {α : Type} {name : Text} {l : List (Text × α)} :
    (l.lookup name).isSome = true ↔ name ∈ l.map Prod.fst := by
  induction l with
  | nil => simp
  | cons field l ih =>
      obtain ⟨key, a⟩ := field
      rw [List.lookup_cons, List.map_cons, List.mem_cons]
      by_cases h : name = key
      · rw [beq_iff_eq.mpr h]
        exact ⟨fun _ => .inl h, fun _ => rfl⟩
      · rw [beq_eq_false_iff_ne.mpr h, ← ih]
        exact ⟨.inr, fun hor => hor.resolve_left h⟩

theorem lookup_map {α β : Type} {f : α → β} {name : Text} {l : List (Text × α)} :
    (l.map fun field => (field.1, f field.2)).lookup name = (l.lookup name).map f := by
  induction l with
  | nil => rfl
  | cons field l ih =>
      obtain ⟨key, a⟩ := field
      rw [List.map_cons, List.lookup_cons, List.lookup_cons]
      cases name == key with
      | true => rfl
      | false => exact ih

/-! ## Field maps that look like nodes -/

section Collisions

variable {typeText : ClarityValue → Text} {tupleFields : List (Text × ClarityValue)}

/-- The field map of a tuple is taken for a node: it has a field `value` and at
most three fields, and a field `type`, which would tell it from a node, is
missing or is not looked for since the type text of the tuple has `optional`
in it. -/
def Collides (typeText : ClarityValue → Text) (fields : List (Text × ClarityValue)) : Prop :=
  "value".toList ∈ fields.map Prod.fst ∧ fields.length ≤ 3 ∧
    ("type".toList ∉ fields.map Prod.fst ∨ "optional".toList <:+: typeText (.tuple fields))

/-- The nodes of the fields of a tuple, under their names. -/
def nodes (typeText : ClarityValue → Text) (fields : List (Text × ClarityValue)) :
    List (Text × Json) :=
  fields.map fun field => (field.1, cvToJson typeText field.2)

theorem isSome_lookup_nodes {name : Text} :
    ((nodes typeText tupleFields).lookup name).isSome = true ↔
      name ∈ tupleFields.map Prod.fst := by
  rw [isSome_lookup, nodes, List.map_map]
  rfl

/-- The test on the node of a tuple only matters if it finds a field `type`. -/
theorem unwrap_tuple_node : unwrapJsonValue (cvToJson typeText (.tuple tupleFields)) =
    if ¬"optional".toList <:+: typeText (.tuple tupleFields) ∧
        "type".toList ∈ tupleFields.map Prod.fst then
      .obj <$> unwrapFields (nodes typeText tupleFields)
    else unwrapJsonValue (.obj (nodes typeText tupleFields)) := by
  rw [cvToJson, cvToValue_tuple, unwrap_node]
  by_cases hopt : "optional".toList <:+: typeText (.tuple tupleFields)
  · rw [if_pos hopt, if_neg fun h => h.1 hopt]
    rfl
  · by_cases htype : "type".toList ∈ tupleFields.map Prod.fst
    · rw [if_neg hopt, if_pos ⟨hopt, htype⟩]
      exact if_pos (isSome_lookup_nodes.mpr htype)
    · rw [if_neg hopt, if_neg fun h => htype h.2]
      exact if_neg fun h => htype (isSome_lookup_nodes.mp h)

/-- The node of a tuple that does not collide. -/
theorem unwrap_tuple (h : ¬Collides typeText tupleFields) :
    unwrapJsonValue (cvToJson typeText (.tuple tupleFields)) =
      .obj <$> unwrapFields (nodes typeText tupleFields) := by
  rw [unwrap_tuple_node]
  split
  · rfl
  · next hguess =>
      refine unwrap_object fun hnode => h ?_
      rw [isSome_lookup_nodes, nodes, List.length_map] at hnode
      refine ⟨hnode.1, hnode.2, ?_⟩
      by_contra hor
      rw [not_or, not_not] at hor
      exact hguess ⟨hor.2, hor.1⟩

theorem lookup_nodes {name : Text} : (nodes typeText tupleFields).lookup name =
    (tupleFields.lookup name).map (cvToJson typeText) := lookup_map

/-- A collision without a field `type`: the properties of the node of the field
`value` are what comes out. -/
theorem unwrap_collision_value {value : ClarityValue}
    (hvalue : tupleFields.lookup "value".toList = some value) (hlength : tupleFields.length ≤ 3)
    (htype : tupleFields.lookup "type".toList = none) :
    unwrapJsonValue (.obj (nodes typeText tupleFields)) =
      .obj <$> unwrapFields [("type".toList, .str (typeText value)),
        ("value".toList, cvToValue typeText value)] := by
  rw [unwrapJsonValue]
  split
  · next v hv =>
      rw [lookup_nodes, hvalue] at hv
      cases hv
      rw [if_pos (by rwa [nodes, List.length_map]), lookup_nodes, htype]
      rfl
  · next hnone =>
      rw [lookup_nodes, hvalue] at hnone
      cases hnone

/-- With a field `type` the test on it throws: it is no text. -/
theorem unwrap_collision_type {value type : ClarityValue}
    (hvalue : tupleFields.lookup "value".toList = some value) (hlength : tupleFields.length ≤ 3)
    (htype : tupleFields.lookup "type".toList = some type) :
    unwrapJsonValue (.obj (nodes typeText tupleFields)) = .error .notAFunction := by
  rw [unwrapJsonValue]
  split
  · rw [if_pos (by rwa [nodes, List.length_map]), lookup_nodes, htype]
    rfl
  · next hnone =>
      rw [lookup_nodes, hvalue] at hnone
      cases hnone

/-- The node of a tuple that collides throws or gives a property `type` to an
object that should have none. -/
theorem unwrap_collision (h : Collides typeText tupleFields) {result : Json}
    (hok : unwrapJsonValue (cvToJson typeText (.tuple tupleFields)) = .ok result) :
    "type".toList ∉ tupleFields.map Prod.fst ∧
      ∃ out, result = .obj out ∧ "type".toList ∈ out.map Prod.fst := by
  obtain ⟨hvalue, hlength, hor⟩ := h
  rw [unwrap_tuple_node, if_neg fun h => hor.elim (fun hno => hno h.2) h.1] at hok
  obtain ⟨value, hlookup⟩ := Option.isSome_iff_exists.mp (isSome_lookup.mpr hvalue)
  cases htype : tupleFields.lookup "type".toList with
  | some type =>
      rw [unwrap_collision_type hlookup hlength htype] at hok
      cases hok
  | none =>
      rw [unwrap_collision_value hlookup hlength htype] at hok
      obtain ⟨out, hout, rfl⟩ := map_eq_ok.mp hok
      have hnames := unwrapFields_names hout
      constructor
      · intro hmem
        rw [← isSome_lookup, htype] at hmem
        cases hmem
      · exact ⟨out, rfl, hnames ▸ List.mem_cons_self⟩

/-- So it never gives the plain value. -/
theorem unwrap_collision_ne (h : Collides typeText tupleFields) :
    unwrapJsonValue (cvToJson typeText (.tuple tupleFields)) ≠
      .ok (ClarityValue.tuple tupleFields).plain := by
  intro hok
  obtain ⟨hno, out, hplain, hmem⟩ := unwrap_collision h hok
  rw [ClarityValue.plain_tuple, Json.obj.injEq] at hplain
  rw [← hplain, List.map_map] at hmem
  exact hno hmem

/-- The node of a tuple gives an object. -/
theorem unwrap_tuple_obj {result : Json}
    (hok : unwrapJsonValue (cvToJson typeText (.tuple tupleFields)) = .ok result) :
    ∃ out, result = .obj out := by
  by_cases h : Collides typeText tupleFields
  · obtain ⟨-, out, hout, -⟩ := unwrap_collision h hok
    exact ⟨out, hout⟩
  · rw [unwrap_tuple h] at hok
    obtain ⟨out, -, rfl⟩ := map_eq_ok.mp hok
    exact ⟨out, rfl⟩

/-- What is no object comes out of its node as it would without it. -/
theorem unwrap_node_of_ne_obj {value : Json} (text : Text) (h : ∀ fields, value ≠ .obj fields) :
    unwrapJsonValue (node text value) = unwrapJsonValue value := by
  rw [unwrap_node]
  cases value with
  | null =>
      simp only [unwrapJsonValue]
      exact ite_self _
  | bool b => exact ite_self _
  | str text => exact ite_self _
  | arr items => exact ite_self _
  | obj fields => exact absurd rfl (h fields)

/-- A text, a boolean or null comes out of its node. -/
theorem unwrap_leaf {value : Json} (text : Text) (hobj : ∀ fields, value ≠ .obj fields)
    (harr : ∀ items, value ≠ .arr items) : unwrapJsonValue (node text value) = .ok value := by
  rw [unwrap_node_of_ne_obj text hobj, unwrapJsonValue]
  · rfl
  · exact hobj
  · exact harr

theorem unwrap_str (text s : Text) : unwrapJsonValue (node text (.str s)) = .ok (.str s) :=
  unwrap_leaf text (by rintro _ ⟨⟩) (by rintro _ ⟨⟩)

theorem unwrap_bool (text : Text) (b : Bool) :
    unwrapJsonValue (node text (.bool b)) = .ok (.bool b) :=
  unwrap_leaf text (by rintro _ ⟨⟩) (by rintro _ ⟨⟩)

theorem unwrap_null (text : Text) : unwrapJsonValue (node text .null) = .ok .null :=
  unwrap_leaf text (by rintro _ ⟨⟩) (by rintro _ ⟨⟩)

theorem unwrap_some {value : ClarityValue} (htext : "(optional".toList <+: typeText (.some value)) :
    unwrapJsonValue (cvToJson typeText (.some value)) =
      unwrapJsonValue (cvToJson typeText value) := by
  have hopt : "optional".toList <:+: typeText (.some value) :=
    (List.infix_cons (List.infix_refl _)).trans htext.isInfix
  rw [cvToJson, cvToValue, unwrap_node, if_pos hopt]
  rfl

/-- A list comes out plain exactly if its elements do. -/
theorem unwrap_list_iff {values : List ClarityValue} :
    unwrapJsonValue (cvToJson typeText (.list values)) = .ok (ClarityValue.list values).plain ↔
      ∀ value ∈ values, unwrapJsonValue (cvToJson typeText value) = .ok value.plain := by
  rw [cvToJson, cvToValue_list, unwrap_node_of_ne_obj _ (by rintro _ ⟨⟩), unwrapJsonValue,
    ClarityValue.plain_list, map_eq_ok, ← unwrapItems_map_iff]
  constructor
  · intro h
    obtain ⟨out, hout, hplain⟩ := h
    rwa [Json.arr.inj hplain] at hout
  · exact fun h => ⟨_, h, rfl⟩

/-- A tuple comes out plain exactly if it does not collide and its fields come
out plain. -/
theorem unwrap_tuple_iff :
    unwrapJsonValue (cvToJson typeText (.tuple tupleFields)) =
        .ok (ClarityValue.tuple tupleFields).plain ↔
      ¬Collides typeText tupleFields ∧ ∀ field ∈ tupleFields,
        unwrapJsonValue (cvToJson typeText field.2) = .ok field.2.plain := by
  rw [← unwrapFields_map_iff]
  constructor
  · intro h
    have hno : ¬Collides typeText tupleFields := fun hcollides => unwrap_collision_ne hcollides h
    rw [unwrap_tuple hno, ClarityValue.plain_tuple] at h
    obtain ⟨out, hout, hplain⟩ := map_eq_ok.mp h
    rw [Json.obj.inj hplain] at hout
    exact ⟨hno, hout⟩
  · intro h
    obtain ⟨hno, hfields⟩ := h
    rw [unwrap_tuple hno, ClarityValue.plain_tuple]
    exact map_eq_ok.mpr ⟨_, hfields, rfl⟩

/-- **Nodes come off** a value exactly if no tuple within it collides. -/
theorem unwrap_cvToJson_iff
    (htext : ∀ value, "(optional".toList <+: typeText (.some value)) (v : ClarityValue) :
    unwrapJsonValue (cvToJson typeText v) = .ok v.plain ↔
      ∀ inner, ClarityValue.Within (.tuple inner) v → ¬Collides typeText inner := by
  have hleaf : ∀ v : ClarityValue, unwrapJsonValue (cvToJson typeText v) = .ok v.plain →
      (∀ inner, ¬ClarityValue.Within (.tuple inner) v) →
      (unwrapJsonValue (cvToJson typeText v) = .ok v.plain ↔
        ∀ inner, ClarityValue.Within (.tuple inner) v → ¬Collides typeText inner) :=
    fun v h hno => ⟨fun _ inner hwithin => absurd hwithin (hno inner), fun _ => h⟩
  induction v using ClarityValue.induction with
  | uint n => exact hleaf _ (unwrap_str _ _) (by rintro _ ⟨⟩)
  | int n => exact hleaf _ (unwrap_str _ _) (by rintro _ ⟨⟩)
  | bool b => exact hleaf _ (unwrap_bool _ _) (by rintro _ ⟨⟩)
  | principal text => exact hleaf _ (unwrap_str _ _) (by rintro _ ⟨⟩)
  | stringAscii text => exact hleaf _ (unwrap_str _ _) (by rintro _ ⟨⟩)
  | none => exact hleaf _ (unwrap_null _) (by rintro _ ⟨⟩)
  | some value ih =>
      rw [unwrap_some (htext value), ClarityValue.plain]
      constructor
      · intro h inner hwithin
        cases hwithin with
        | some hwithin => exact ih.mp h inner hwithin
      · exact fun h => ih.mpr fun inner hwithin => h inner (.some hwithin)
  | list values ih =>
      rw [unwrap_list_iff]
      constructor
      · intro h inner hwithin
        cases hwithin with
        | list hmem hwithin => exact (ih _ hmem).mp (h _ hmem) inner hwithin
      · intro h value hvalue
        exact (ih value hvalue).mpr fun inner hwithin => h inner (.list hvalue hwithin)
  | tuple fields ih =>
      rw [unwrap_tuple_iff]
      constructor
      · intro h inner hwithin
        cases hwithin with
        | refl => exact h.1
        | tuple hmem hwithin => exact (ih _ hmem).mp (h.2 _ hmem) inner hwithin
      · intro h
        constructor
        · exact h fields (.refl _)
        · intro field hfield
          exact (ih field hfield).mpr fun inner hwithin => h inner (.tuple hfield hwithin)

end Collisions

section Decode

variable {library : StacksLibrary} {hex : Text} {v : ClarityValue}

theorem decodeContractLogHex_of_obj {out : List (Text × Json)} (hhex : library.hexToCv hex = .ok v)
    (h : unwrapJsonValue (cvToJson library.typeText v) = .ok (.obj out)) :
    decodeContractLogHex library hex = .ok out := by
  simp only [decodeContractLogHex, hhex, h, bind, Except.bind]
  rfl

theorem decodeContractLogHex_of_error {e : JsError} (hhex : library.hexToCv hex = .ok v)
    (h : unwrapJsonValue (cvToJson library.typeText v) = .error e) :
    decodeContractLogHex library hex = .error e := by
  simp only [decodeContractLogHex, hhex, h, bind, Except.bind]

/-- **When decoding is faithful**: a printed tuple becomes an object with its
field names, each with the plain value of the field, exactly if no tuple within
it has a field map that is taken for a node. -/
theorem decodeContractLogHex_faithful_iff
    (htext : ∀ value, "(optional".toList <+: library.typeText (.some value))
    {fields : List (Text × ClarityValue)} (hhex : library.hexToCv hex = .ok (.tuple fields)) :
    decodeContractLogHex library hex =
        .ok (fields.map fun field => (field.1, field.2.plain)) ↔
      ∀ inner, ClarityValue.Within (.tuple inner) (.tuple fields) →
        ¬Collides library.typeText inner := by
  rw [← unwrap_cvToJson_iff htext, ClarityValue.plain_tuple]
  cases hok : unwrapJsonValue (cvToJson library.typeText (.tuple fields)) with
  | error e =>
      rw [decodeContractLogHex_of_error hhex hok]
      exact ⟨by rintro ⟨⟩, by rintro ⟨⟩⟩
  | ok result =>
      obtain ⟨out, rfl⟩ := unwrap_tuple_obj hok
      rw [decodeContractLogHex_of_obj hhex hok, Except.ok.injEq, Except.ok.injEq, Json.obj.injEq]

end Decode

namespace Sample

mutual

/-- The type texts of the Stacks library. -/
def typeText : ClarityValue → String
  | .uint _ => "uint"
  | .int _ => "int"
  | .bool _ => "bool"
  | .principal _ => "principal"
  | .stringAscii text => "(string-ascii " ++ toString text.length ++ ")"
  | .none => "(optional none)"
  | .some value => "(optional " ++ typeText value ++ ")"
  | .list values => "(list " ++ toString values.length ++ " " ++ headText values ++ ")"
  | .tuple fields => "(tuple" ++ fieldTexts fields ++ ")"

def headText : List ClarityValue → String
  | [] => "UnknownType"
  | value :: _ => typeText value

def fieldTexts : List (Text × ClarityValue) → String
  | [] => ""
  | (name, value) :: fields =>
      " (" ++ String.ofList name ++ " " ++ typeText value ++ ")" ++ fieldTexts fields

end

/-- A tuple `{topic: "add-claims"}`. -/
def topicHex : Text := "0x0c0000000105746f7069630d0000000a6164642d636c61696d73".toList

/-- A tuple `{value: u1}`. -/
def valueHex : Text := "0x0c000000010576616c75650100000000000000000000000000000001".toList

/-- A claim in an event, for a bond or not. -/
def claim (bond : ClarityValue) (cycle : Nat) : ClarityValue :=
  .tuple [("bond".toList, bond), ("cycle".toList, .uint cycle)]

/-- A refund; its field `value` is one of four. -/
def refund : List (Text × ClarityValue) :=
  [("amount".toList, .uint 5), ("fee".toList, .uint 1), ("net".toList, .uint 4),
    ("value".toList, .uint 7)]

/-- A tuple of a list of tuples, an optional tuple and a text. -/
def event : List (Text × ClarityValue) :=
  [("claims".toList, .list [claim (.some (.uint 2)) 4, claim .none 5]),
    ("refund".toList, .some (.tuple refund)),
    ("topic".toList, .stringAscii "claims".toList)]

def eventHex : Text :=
  ("0x0c0000000306636c61696d730b000000020c0000000204626f6e640a010000000000000000000000000000" ++
    "0002056379636c6501000000000000000000000000000000040c0000000204626f6e6409056379636c650100" ++
    "00000000000000000000000000000506726566756e640a0c0000000406616d6f756e74010000000000000000" ++
    "0000000000000005036665650100000000000000000000000000000001036e65740100000000000000000000" ++
    "0000000000040576616c7565010000000000000000000000000000000705746f7069630d00000006636c6169").toList

/-- `hexToCV` of the three. -/
def hexToCv (hex : Text) : Except JsError ClarityValue :=
  if hex = topicHex then .ok (.tuple [("topic".toList, .stringAscii "add-claims".toList)])
  else if hex = valueHex then .ok (.tuple [("value".toList, .uint 1)])
  else if hex = eventHex then .ok (.tuple event)
  else .error .invalidHex

def library : StacksLibrary := ⟨hexToCv, fun v => (typeText v).toList⟩

theorem hexToCv_eq : library.hexToCv = hexToCv := rfl

theorem hexToCv_valueHex :
    library.hexToCv valueHex = .ok (.tuple [("value".toList, .uint 1)]) := by
  rw [hexToCv_eq]
  exact (if_neg (by decide +kernel)).trans (if_pos rfl)

theorem hexToCv_eventHex : library.hexToCv eventHex = .ok (.tuple event) := by
  have htopic : eventHex ≠ topicHex := fun h => absurd (String.toList_inj.mp h) (by simp)
  have hvalue : eventHex ≠ valueHex := fun h => absurd (String.toList_inj.mp h) (by simp)
  rw [hexToCv_eq]
  exact (if_neg htopic).trans ((if_neg hvalue).trans (if_pos rfl))

/-- The tuples within a tuple are itself and those within its fields. -/
theorem forall_within_tuple {p : List (Text × ClarityValue) → Prop}
    {fields : List (Text × ClarityValue)} (hself : p fields)
    (hfields : ∀ field ∈ fields, ∀ inner, ClarityValue.Within (.tuple inner) field.2 → p inner) :
    ∀ inner, ClarityValue.Within (.tuple inner) (.tuple fields) → p inner := by
  intro inner h
  cases h with
  | refl => exact hself
  | tuple hmem h => exact hfields _ hmem inner h

theorem optional_typeText (value : ClarityValue) :
    "(optional".toList <+: library.typeText (.some value) := by
  have htext : typeText (.some value) = "(optional " ++ typeText value ++ ")" := rfl
  have hspace : "(optional ".toList = "(optional".toList ++ [' '] := by decide
  show "(optional".toList <+: (typeText (.some value)).toList
  rw [htext, String.toList_append, String.toList_append, hspace, List.append_assoc,
    List.append_assoc]
  exact List.prefix_append _ _

/-- The field `value` of the refund has too many beside it, and the other
tuples have none. -/
theorem event_no_collision (inner : List (Text × ClarityValue))
    (h : ClarityValue.Within (.tuple inner) (.tuple event)) :
    ¬Collides library.typeText inner := by
  have hleaf : ∀ (n : Nat) (inner : List (Text × ClarityValue)),
      ¬ClarityValue.Within (.tuple inner) (.uint n) := fun _ _ h => by cases h
  have hclaim : ∀ (bond : ClarityValue) (cycle : Nat),
      (∀ inner, ¬ClarityValue.Within (.tuple inner) bond) →
      ∀ inner, ClarityValue.Within (.tuple inner) (claim bond cycle) →
        ¬Collides library.typeText inner := by
    intro bond cycle hbond
    refine forall_within_tuple (fun hc => absurd hc.1 ?_) ?_
    · simp only [List.map_cons, List.map_nil]
      decide
    · simp only [List.forall_mem_cons]
      exact ⟨fun inner h => absurd h (hbond inner), fun inner h => absurd h (hleaf _ inner),
        List.forall_mem_nil _⟩
  have hrefund : ∀ inner, ClarityValue.Within (.tuple inner) (.tuple refund) →
      ¬Collides library.typeText inner := by
    refine forall_within_tuple (fun hc => absurd hc.2.1 (by decide)) ?_
    simp only [refund, List.forall_mem_cons]
    exact ⟨fun inner h => absurd h (hleaf _ inner), fun inner h => absurd h (hleaf _ inner),
      fun inner h => absurd h (hleaf _ inner), fun inner h => absurd h (hleaf _ inner),
      List.forall_mem_nil _⟩
  have hself : ¬Collides library.typeText event := fun hc => absurd hc.1 (by decide)
  refine forall_within_tuple (p := fun inner => ¬Collides library.typeText inner) hself ?_ inner h
  simp only [event, List.forall_mem_cons]
  refine ⟨?_, ?_, (fun inner h => by cases h), List.forall_mem_nil _⟩
  · intro inner h
    have hbond : ∀ inner, ¬ClarityValue.Within (.tuple inner) (.some (.uint 2)) := by
      intro inner h
      cases h with
      | some h => exact hleaf _ _ h
    cases h with
    | list hmem h =>
        rcases List.mem_pair.mp hmem with rfl | rfl
        · exact hclaim _ _ hbond inner h
        · exact hclaim _ _ (fun _ h => by cases h) inner h
  · intro inner h
    cases h with
    | some h => exact hrefund inner h

end Sample

theorem decodeContractLogHex_faithful_event :
    decodeContractLogHex Sample.library Sample.eventHex =
      .ok [("claims".toList, .arr [
            .obj [("bond".toList, .str ['2']), ("cycle".toList, .str ['4'])],
            .obj [("bond".toList, .null), ("cycle".toList, .str ['5'])]]),
          ("refund".toList, .obj [("amount".toList, .str ['5']), ("fee".toList, .str ['1']),
            ("net".toList, .str ['4']), ("value".toList, .str ['7'])]),
          ("topic".toList, .str "claims".toList)] := by
  refine (decodeContractLogHex_faithful_iff Sample.optional_typeText
    Sample.hexToCv_eventHex).mpr ?_
  exact Sample.event_no_collision

/-- The field `value` is taken for the value of a node: its own node comes out. -/
theorem decodeContractLogHex_value :
    Sample.library.hexToCv Sample.valueHex = .ok (.tuple [("value".toList, .uint 1)]) ∧
      decodeContractLogHex Sample.library Sample.valueHex =
        .ok [("type".toList, .str "uint".toList), ("value".toList, .str ['1'])] ∧
      decodeContractLogHex Sample.library Sample.valueHex ≠
        .ok ([("value".toList, ClarityValue.uint 1)].map fun field =>
          (field.1, field.2.plain)) := by
  have hunwrap : unwrapJsonValue
      (cvToJson Sample.library.typeText (.tuple [("value".toList, .uint 1)])) =
      .ok (.obj [("type".toList, .str "uint".toList), ("value".toList, .str ['1'])]) := by
    have hvalue : List.lookup "value".toList [("value".toList, ClarityValue.uint 1)] =
        some (.uint 1) := rfl
    have htype : List.lookup "type".toList [("value".toList, ClarityValue.uint 1)] = none := rfl
    rw [unwrap_tuple_node, if_neg (by decide +kernel),
      unwrap_collision_value hvalue (by decide) htype]
    simp only [unwrapFields, unwrapJsonValue, cvToValue]
    rfl
  have hdecode := decodeContractLogHex_of_obj Sample.hexToCv_valueHex hunwrap
  refine ⟨Sample.hexToCv_valueHex, hdecode, ?_⟩
  rw [hdecode]
  intro h
  have hlength := congrArg List.length (Except.ok.inj h)
  exact absurd hlength (by decide)

end Spox.Webapp
