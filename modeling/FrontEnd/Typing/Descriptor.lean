import FrontEnd.Syntax.TypeExpr

/-!
# Types and their descriptors

A type is known by its index in the arena of a type system. A descriptor says what the type is, by
the indices of the types it is made of.

* `StructType.addField` adds a field or replaces one; `field?_addField` is its law.
-/

namespace FrontEnd

/-- The index of a type. -/
abbrev TypeId := Nat

/-- A structure: its name and its fields in the order in which they were first added. -/
structure StructType where
  name : String
  fields : List (String × TypeId)
  deriving DecidableEq, Repr, Inhabited

namespace StructType

/-- A structure without fields. -/
def ofName (name : String) : StructType := ⟨name, []⟩

/-- The fields with one set: in its place if there is a field with that name, else at the end. -/
def setField (fields : List (String × TypeId)) (name : String) (type : TypeId) :
    List (String × TypeId) :=
  match fields with
  | [] => [(name, type)]
  | (n, t) :: rest => if n = name then (n, type) :: rest else (n, t) :: setField rest name type

/-- The type of a field. -/
def field? (s : StructType) (name : String) : Option TypeId := s.fields.lookup name

/-- The structure with a field added or replaced, and the type that was replaced. -/
def addField (s : StructType) (name : String) (type : TypeId) : Option TypeId × StructType :=
  (s.field? name, { s with fields := setField s.fields name type })

/-- The number of fields. -/
def size (s : StructType) : Nat := s.fields.length

theorem lookup_setField (fields : List (String × TypeId)) (name other : String) (type : TypeId) :
    (setField fields name type).lookup other =
      if other = name then some type else fields.lookup other := by
  fun_induction setField fields name type with
  | case1 =>
    by_cases h : other = name
    · simp [h]
    · simp [List.lookup_cons, h, beq_eq_false_iff_ne.mpr h]
  | case2 t rest =>
    by_cases h : other = name
    · simp [h]
    · simp [List.lookup_cons, h, beq_eq_false_iff_ne.mpr h]
  | case3 n t rest hn ih =>
    by_cases h : other = n
    · subst h; simp [hn]
    · simp [List.lookup_cons, beq_eq_false_iff_ne.mpr h, ih]

theorem field?_addField (s : StructType) (name other : String) (type : TypeId) :
    (s.addField name type).2.field? other = if other = name then some type else s.field? other :=
  lookup_setField s.fields name other type

end StructType

/-- What a type is. -/
inductive TypeDesc where
  | struct (s : StructType)
  | int (width : IntWidth) (signed : Bool)
  | float (width : FloatWidth)
  | bool
  | char
  | unit
  | array (element : TypeId) (size : UInt64)
  | pointer (element : TypeId)
  | void
  | unknown
  deriving DecidableEq, Repr, Inhabited

namespace TypeDesc

/-- The structure, of a structure type. -/
def struct? : TypeDesc → Option StructType
  | struct s => some s
  | _ => none

/-- The width and signedness, of an integer type. -/
def int? : TypeDesc → Option (IntWidth × Bool)
  | int width signed => some (width, signed)
  | _ => none

/-- The width, of a floating-point type. -/
def float? : TypeDesc → Option FloatWidth
  | float width => some width
  | _ => none

/-- The element type and the length, of an array type. -/
def array? : TypeDesc → Option (TypeId × UInt64)
  | array element size => some (element, size)
  | _ => none

/-- The type pointed to, of a pointer type. -/
def pointer? : TypeDesc → Option TypeId
  | pointer element => some element
  | _ => none

end TypeDesc

end FrontEnd
