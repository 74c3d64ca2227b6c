import FrontEnd.Syntax.Module
import FrontEnd.Typing.System

/-!
# Lowering

The types of a module are lowered into a type system in two passes, so that the order of
declarations does not matter: first every structure is registered by name, then the types of
members, parameters and returned values are lowered and their slots filled. An error does not stop
lowering: the slot concerned stays empty.

* `TypeSystem.lowerType` lowers one type; a slice, a reference and a pointer are all pointers, and
  `str` is a pointer to `int8`.
* `lowerModule` lowers a module.
-/

namespace FrontEnd

/-- The type that a written type stands for. -/
def TypeSystem.lowerType (t : TypeSystem) (span : Span) :
    TypeExpr → Except TypeError TypeId × TypeSystem
  | .sint width =>
    let (id, t') := t.internInt width true
    (.ok id, t')
  | .uint width =>
    let (id, t') := t.internInt width false
    (.ok id, t')
  | .float width =>
    let (id, t') := t.intern (.float width)
    (.ok id, t')
  | .bool =>
    let (id, t') := t.intern .bool
    (.ok id, t')
  | .char =>
    let (id, t') := t.intern .char
    (.ok id, t')
  | .unit =>
    let (id, t') := t.intern .unit
    (.ok id, t')
  | .str =>
    let (byte, t') := t.internInt .w8 true
    let (id, t'') := t'.internPointer byte
    (.ok id, t'')
  | .slice element => lowerPointer (t.lowerType span element)
  | .ref target => lowerPointer (t.lowerType span target)
  | .pointer target => lowerPointer (t.lowerType span target)
  | .array element size =>
    match t.lowerType span element with
    | (.ok element, t') =>
      let (id, t'') := t'.internArray element size
      (.ok id, t'')
    | (.error e, t') => (.error e, t')
  | .named name =>
    match t.findStruct? name with
    | some id => (.ok id, t)
    | none => (.error (.unknownType name span), t)
where
  /-- A pointer to a lowered type. -/
  lowerPointer : Except TypeError TypeId × TypeSystem → Except TypeError TypeId × TypeSystem
    | (.ok target, t) =>
      let (id, t') := t.internPointer target
      (.ok id, t')
    | (.error e, t) => (.error e, t)

/-- What was lowered, what is wrong with it, and the types after it. -/
structure Lowered (α : Type) where
  value : α
  errors : List TypeError
  types : TypeSystem

namespace Lowered

variable {α β : Type}

/-- Nothing to lower. -/
def done (value : α) (types : TypeSystem) : Lowered α := ⟨value, [], types⟩

/-- Lower in order, each with the types after the one before. -/
def each (lower : TypeSystem → α → Lowered β) (t : TypeSystem) : List α → Lowered (List β)
  | [] => done [] t
  | a :: rest =>
    let first := lower t a
    let others := each lower first.types rest
    ⟨first.value :: others.value, first.errors ++ others.errors, others.types⟩

end Lowered

/-- The slot for a written type: filled if the type can be lowered. -/
def lowerSlot (t : TypeSystem) (type : TypeExpr) (span : Span) (slot : TypeSlot) :
    Lowered TypeSlot :=
  match t.lowerType span type with
  | (.ok id, t') => ⟨t'.assignSlot slot id, [], t'⟩
  | (.error e, t') => ⟨slot, [e], t'⟩

/-- Lower the type of a parameter. -/
def lowerParameter (t : TypeSystem) (p : Parameter) : Lowered Parameter :=
  let lowered := lowerSlot t p.type p.span p.slot
  ⟨{ p with slot := lowered.value }, lowered.errors, lowered.types⟩

/-- Lower the types of a function: of its parameters, then of what it returns. -/
def lowerFunction (t : TypeSystem) (f : Function) : Lowered Function :=
  let params := Lowered.each lowerParameter t f.params
  let returned := lowerSlot params.types f.returnType f.span f.slot
  ⟨{ f with params := params.value, slot := returned.value }, params.errors ++ returned.errors,
    returned.types⟩

/-- Lower the type of a member and add it to its structure. -/
def lowerMember (target : TypeId) (t : TypeSystem) (m : Member) : Lowered Member :=
  match t.lowerType m.span m.type with
  | (.error e, t') => ⟨m, [e], t'⟩
  | (.ok id, t') =>
    let m' := { m with slot := t'.assignSlot m.slot id }
    match t'.addField target m.name id with
    | (.ok _, t'') => ⟨m', [], t''⟩
    | (.error e, t'') => ⟨m', [e], t''⟩

/-- Lower the members of a structure. A member whose name was seen before is an error, and is left
as it is. -/
def lowerMembers (structName : String) (target : TypeId) :
    List (String × Span) → TypeSystem → List Member → Lowered (List Member)
  | _, t, [] => .done [] t
  | seen, t, m :: rest =>
    match seen.lookup m.name with
    | some first =>
      let others := lowerMembers structName target seen t rest
      ⟨m :: others.value, .duplicateMember structName m.name m.span first :: others.errors,
        others.types⟩
    | none =>
      let lowered := lowerMember target t m
      let others := lowerMembers structName target ((m.name, m.span) :: seen) lowered.types rest
      ⟨lowered.value :: others.value, lowered.errors ++ others.errors, others.types⟩

/-- Lower the members of a structure that was registered; leave any other as it is. -/
def lowerStruct (t : TypeSystem) (s : Struct) : Lowered Struct :=
  match t.readSlot? s.slot with
  | none => .done s t
  | some target =>
    let members := lowerMembers s.name target [] t s.members
    ⟨{ s with members := members.value }, members.errors, members.types⟩

/-- Lower the types of a declaration. -/
def lowerDeclaration (t : TypeSystem) : Declaration → Lowered Declaration
  | .function f =>
    let lowered := lowerFunction t f
    ⟨.function lowered.value, lowered.errors, lowered.types⟩
  | .struct s =>
    let lowered := lowerStruct t s
    ⟨.struct lowered.value, lowered.errors, lowered.types⟩

/-- Register the structures by name. One whose name was seen before is an error and is not
registered. -/
def declareStructs : List (String × Span) → TypeSystem → Module → Lowered Module
  | _, t, [] => .done [] t
  | seen, t, .function f :: rest =>
    let others := declareStructs seen t rest
    ⟨.function f :: others.value, others.errors, others.types⟩
  | seen, t, .struct s :: rest =>
    match seen.lookup s.name with
    | some first =>
      let others := declareStructs seen t rest
      ⟨.struct s :: others.value, .duplicateStruct s.name s.span first :: others.errors,
        others.types⟩
    | none =>
      let (id, t') := t.newStruct s.name
      let others := declareStructs ((s.name, s.span) :: seen) t' rest
      ⟨.struct { s with slot := t'.assignSlot s.slot id } :: others.value, others.errors,
        others.types⟩

/-- Lower the types of a module. -/
def lowerModule (t : TypeSystem) (m : Module) : Lowered Module :=
  let registered := declareStructs [] t m
  let lowered := Lowered.each lowerDeclaration registered.types registered.value
  ⟨lowered.value, registered.errors ++ lowered.errors, lowered.types⟩

end FrontEnd
