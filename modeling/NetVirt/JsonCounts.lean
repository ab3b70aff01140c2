import NetVirt.Inet
import Mathlib.Algebra.BigOperators.Group.Finset.Basic
import Mathlib.Data.Finset.Card

/-!
# Counted JSON values

The values of jansson with their reference counts. `json_object_get` borrows, the functions that
end in `_new` take over a reference, and `json_decref` drops one; the last one frees the value and
drops what it refers to. A value that was freed is not there any more, and a function that reads it
has no result.

Beside the counts stands what the code owns by these rules: the references that it was given and
has neither dropped nor given away, and those that it dropped or gave away without owning them.
-/

namespace NetVirt.JsonCounts

open Inet (Text)

abbrev JsonId := Nat

/-- A reference to a value. The constants true, false and null are not counted. -/
inductive JsonRef where
  | constant
  | counted (id : JsonId)
deriving DecidableEq

def JsonRef.ids : JsonRef → List JsonId
  | .constant => []
  | .counted id => [id]

/-- The order of the members of an object plays no part. -/
inductive Shape where
  | object (members : List (Text × JsonRef))
  | array (elements : List JsonRef)
  | string (text : Text)
  | number
deriving DecidableEq

/-- The references of a value, each as often as there is one. -/
def Shape.refs : Shape → List JsonRef
  | .object members => members.map Prod.snd
  | .array elements => elements
  | .string _ | .number => []

def Shape.children (shape : Shape) : List JsonId := shape.refs.flatMap JsonRef.ids

structure Value where
  refs : Nat
  shape : Shape
deriving DecidableEq

structure Memory where
  values : JsonId → Option Value
  fresh : JsonId
  freed : List JsonId
  owned : List JsonId
  unowned : List JsonId

/-- No value has been made. -/
def Memory.empty : Memory :=
  { values := fun _ => none, fresh := 0, freed := [], owned := [], unowned := [] }

/-! ## The functions of jansson -/

/-- A function with a JSON memory. Allocation is assumed to succeed. -/
abbrev Jansson := StateT Memory Option

def Memory.store (mem : Memory) (id : JsonId) (value : Value) : Memory :=
  { mem with values := Function.update mem.values id (some value) }

def Memory.release (mem : Memory) (id : JsonId) : Memory :=
  { mem with values := Function.update mem.values id none, freed := mem.freed ++ [id] }

/-- `json_decref` to this depth of values that are freed with others. -/
def decrefWithin : Nat → Memory → JsonRef → Option Memory
  | _, mem, .constant => some mem
  | 0, _, .counted _ => none
  | depth + 1, mem, .counted id =>
    match mem.values id with
    | none => none
    | some value =>
      if value.refs = 1 then value.shape.refs.foldlM (decrefWithin depth) (mem.release id)
      else some (mem.store id { value with refs := value.refs - 1 })

/-- Drop a reference. There are no more values than were made. -/
def drop (ref : JsonRef) : Jansson Unit := fun mem =>
  (decrefWithin mem.fresh mem ref).map fun after => ((), after)

/-- The code gives a reference away, or drops it. -/
def Memory.take (mem : Memory) (id : JsonId) : Memory :=
  if id ∈ mem.owned then { mem with owned := mem.owned.erase id }
  else { mem with unowned := mem.unowned ++ [id] }

def take : JsonRef → Jansson Unit
  | .constant => pure ()
  | .counted id => fun mem => some ((), mem.take id)

/-- `json_decref` -/
def jsonDecref : Option JsonRef → Jansson Unit
  | none => pure ()
  | some ref => do
    take ref
    drop ref

/-- Another value, which the code owns. -/
def Memory.new (mem : Memory) (shape : Shape) : Memory :=
  { mem.store mem.fresh { refs := 1, shape := shape } with
    fresh := mem.fresh + 1
    owned := mem.fresh :: mem.owned }

def jsonNew (shape : Shape) : Jansson JsonRef := fun mem =>
  some (.counted mem.fresh, mem.new shape)

/-- `json_object` -/
def jsonObject : Jansson JsonRef := jsonNew (.object [])

/-- `json_array` -/
def jsonArray : Jansson JsonRef := jsonNew (.array [])

/-- `json_string`, NULL for NULL. -/
def jsonString : Option Text → Jansson (Option JsonRef)
  | none => pure none
  | some text => do
    let ref ← jsonNew (.string text)
    return some ref

/-- The shape of a value. NULL and the constants have none. -/
def shapeOf : Option JsonRef → Jansson (Option Shape)
  | none | some .constant => pure none
  | some (.counted id) => fun mem => (mem.values id).map fun value => (some value.shape, mem)

def Shape.member (key : Text) : Shape → Option JsonRef
  | .object members => members.lookup key
  | _ => none

def Shape.text : Shape → Option Text
  | .string text => some text
  | _ => none

/-- `json_object_get` -/
def jsonObjectGet (object : Option JsonRef) (key : Text) : Jansson (Option JsonRef) := do
  let shape ← shapeOf object
  return shape.bind (Shape.member key)

/-- `json_unpack` with `{s:s}`: the string at the key. -/
def jsonUnpack (root : Option JsonRef) (key : Text) : Jansson (Option Text) := do
  let value ← jsonObjectGet root key
  let shape ← shapeOf value
  return shape.bind Shape.text

/-- Another shape for a value that is there. -/
def Memory.reshape (mem : Memory) (id : JsonId) (shape : Shape) : Memory :=
  { mem with
    values := Function.update mem.values id
      ((mem.values id).map fun value => { value with shape := shape }) }

def reshape (id : JsonId) (shape : Shape) : Jansson Unit := fun mem =>
  some ((), mem.reshape id shape)

/-- The members without the first one of this key. -/
def without (key : Text) (members : List (Text × JsonRef)) : List (Text × JsonRef) :=
  members.eraseP fun pair => pair.1 == key

/-- Store a member of an object, and drop the one that was there. -/
def setMember (id : JsonId) (key : Text) (value : JsonRef) (members : List (Text × JsonRef)) :
    Jansson Unit := do
  reshape id (.object ((key, value) :: without key members))
  match members.lookup key with
  | none => pure ()
  | some replaced => drop replaced

/-- `json_object_set_new`. The reference is taken over also when the value is not stored. -/
def jsonObjectSetNew (object : Option JsonRef) (key : Text) : Option JsonRef → Jansson Unit
  | none => pure ()
  | some value => do
    take value
    match object, ← shapeOf object with
    | some (.counted id), some (.object members) =>
      if value = .counted id then drop value else setMember id key value members
    | _, _ => drop value

/-- `json_object_set_new` of a `json_string`. -/
def setString (object : Option JsonRef) (key : Text) (text : Option Text) : Jansson Unit := do
  let value ← jsonString text
  jsonObjectSetNew object key value

/-- `json_object_del` -/
def jsonObjectDel (object : Option JsonRef) (key : Text) : Jansson Unit := do
  match object, ← shapeOf object with
  | some (.counted id), some (.object members) =>
    match members.lookup key with
    | none => pure ()
    | some removed => do
      reshape id (.object (without key members))
      drop removed
  | _, _ => pure ()

/-- `json_array_append_new` -/
def jsonArrayAppendNew (array : Option JsonRef) : Option JsonRef → Jansson Unit
  | none => pure ()
  | some value => do
    take value
    match array, ← shapeOf array with
    | some (.counted id), some (.array elements) =>
      if value = .counted id then drop value else reshape id (.array (elements ++ [value]))
    | _, _ => drop value

/-! ## Documents -/

/-- What a text says, with the members of an object in their order. -/
inductive Document where
  | object (members : List (Text × Document))
  | array (elements : List Document)
  | string (text : Text)
  | number
  | constant

mutual

/-- The value that `json_loadb` makes of a document. A later member replaces an earlier one. -/
def jsonLoad : Document → Jansson JsonRef
  | .object members => do
    let object ← jsonObject
    loadMembers object members
    return object
  | .array elements => do
    let array ← jsonArray
    loadElements array elements
    return array
  | .string text => jsonNew (.string text)
  | .number => jsonNew .number
  | .constant => pure .constant

def loadMembers (object : JsonRef) : List (Text × Document) → Jansson Unit
  | [] => pure ()
  | (key, document) :: rest => do
    let value ← jsonLoad document
    jsonObjectSetNew (some object) key (some value)
    loadMembers object rest

def loadElements (array : JsonRef) : List Document → Jansson Unit
  | [] => pure ()
  | document :: rest => do
    let value ← jsonLoad document
    jsonArrayAppendNew (some array) (some value)
    loadElements array rest

end

end NetVirt.JsonCounts
