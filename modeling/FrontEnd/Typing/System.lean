import FrontEnd.Syntax.Slot
import FrontEnd.Typing.Descriptor
import FrontEnd.Typing.Error

/-!
# Type systems

An arena of types. Every type but a structure is kept once: creating it again gives the type there
is. A structure is a new type each time; its name leads to the first one created with that name.

* `TypeSystem.intern` gives the one type with a descriptor.
* `TypeSystem.addField` changes a structure in place, and nothing if the target is none.
* `TypeSystem.text` writes a type as source text.
* A `StampSupply` gives every type system a stamp of its own, which marks the slots that it fills.
-/

namespace FrontEnd

/-- An arena of types with its tables, and the stamp of the arena. -/
structure TypeSystem where
  types : Array TypeDesc
  interned : List (TypeDesc × TypeId)
  structs : List (String × TypeId)
  stamp : Nat
  deriving Repr

/-- The stamp of the next type system. -/
structure StampSupply where
  next : Nat
  deriving DecidableEq, Repr

/-- The supply before any type system was started. -/
def StampSupply.initial : StampSupply := ⟨1⟩

/-- Start a type system without types, under a stamp that no other has. -/
def StampSupply.start (s : StampSupply) : TypeSystem × StampSupply :=
  (⟨#[], [], [], s.next⟩, ⟨s.next + 1⟩)

namespace TypeSystem

/-- The number of types. -/
def size (t : TypeSystem) : Nat := t.types.size

/-- What a type is. -/
def get? (t : TypeSystem) (id : TypeId) : Option TypeDesc := t.types[id]?

/-- Add a type to the arena. -/
def push (t : TypeSystem) (d : TypeDesc) : TypeId × TypeSystem :=
  (t.types.size, { t with types := t.types.push d })

/-- The type with this descriptor, added if there is none yet. -/
def intern (t : TypeSystem) (d : TypeDesc) : TypeId × TypeSystem :=
  match t.interned.lookup d with
  | some id => (id, t)
  | none =>
    let (id, t') := t.push d
    (id, { t' with interned := (d, id) :: t'.interned })

/-- A new structure without fields. -/
def newStruct (t : TypeSystem) (name : String) : TypeId × TypeSystem :=
  let (id, t') := t.push (.struct (.ofName name))
  match t'.structs.lookup name with
  | some _ => (id, t')
  | none => (id, { t' with structs := (name, id) :: t'.structs })

/-- An integer type. -/
def internInt (t : TypeSystem) (width : IntWidth) (signed : Bool) : TypeId × TypeSystem :=
  t.intern (.int width signed)

/-- An array type. -/
def internArray (t : TypeSystem) (element : TypeId) (size : UInt64) : TypeId × TypeSystem :=
  t.intern (.array element size)

/-- A pointer type. -/
def internPointer (t : TypeSystem) (element : TypeId) : TypeId × TypeSystem :=
  t.intern (.pointer element)

/-- The first structure created with a name. -/
def findStruct? (t : TypeSystem) (name : String) : Option TypeId := t.structs.lookup name

/-- The text of a type that is nested less deep than `depth`. -/
def textAt (t : TypeSystem) : Nat → TypeId → String
  | 0, _ => ""
  | depth + 1, id =>
    match t.get? id with
    | none => ""
    | some (.struct s) => s.name
    | some (.int width signed) => (if signed then "int" else "uint") ++ Nat.repr width.bits
    | some (.float width) => "float" ++ Nat.repr width.bits
    | some .bool => "bool"
    | some .char => "char"
    | some .unit => "()"
    | some (.array element size) =>
      "[" ++ t.textAt depth element ++ "; " ++ Nat.repr size.toNat ++ "]"
    | some (.pointer element) => "*" ++ t.textAt depth element
    | some .void => "void"
    | some .unknown => "\x7bunknown\x7d"

/-- A type as source text. An element has a smaller index than what it is an element of, so no type
is nested deeper than its index. -/
def text (t : TypeSystem) (id : TypeId) : String := t.textAt (id + 1) id

/-- Add a field to a structure, or replace one. -/
def addField (t : TypeSystem) (target : TypeId) (name : String) (field : TypeId) :
    Except TypeError Unit × TypeSystem :=
  match t.get? target with
  | some (.struct s) =>
    (.ok (), { t with types := t.types.setIfInBounds target (.struct (s.addField name field).2) })
  | _ => (.error (.notAStruct name (t.text target)), t)

/-- The type of a field of a structure. -/
def field? (t : TypeSystem) (id : TypeId) (name : String) : Option TypeId :=
  match t.get? id with
  | some (.struct s) => s.field? name
  | _ => none

/-- The slot filled with a type of this system. -/
def assignSlot (t : TypeSystem) (slot : TypeSlot) (id : TypeId) : TypeSlot := slot.fill t.stamp id

/-- The type in a slot, if this system filled it. -/
def readSlot? (t : TypeSystem) (slot : TypeSlot) : Option TypeId :=
  (slot.readAs? t.stamp).filter (fun id => decide (id < t.size))

end TypeSystem

end FrontEnd
