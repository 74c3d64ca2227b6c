import FrontEnd.Proofs.Resolution

/-!
# The types of a module

What the types of a module come to, said for the declarations and the arena as they stand and not
for the steps that lower them.

* `withEarlier` treats each element of a list with the ones before it in view.
* `Module.typeErrors` lists what is wrong: a structure or a member whose name was taken, and each
  type that is made of a name that no structure has.
* `Module.resolved` is the module with its slots filled from an arena, and `Struct.fieldsIn` are the
  fields of a structure.
* `TypeSystem.TypesOf`: an arena has the types of a module and no others.
-/

set_option autoImplicit false

namespace FrontEnd

/-- What `f` says of each element, given the elements before it. -/
def withEarlier {α β : Type} (f : List α → α → β) : List α → List α → List β
  | _, [] => []
  | earlier, a :: rest => f earlier a :: withEarlier f (earlier ++ [a]) rest

section WithEarlier

variable {α β γ : Type} {earlier rest : List α}

theorem withEarlier_congr {f g : List α → α → β}
    (h : ∀ front a back, rest = front ++ a :: back →
      f (earlier ++ front) a = g (earlier ++ front) a) :
    withEarlier f earlier rest = withEarlier g earlier rest := by
  induction rest generalizing earlier with
  | nil => rfl
  | cons a rest ih =>
    have hhead : f earlier a = g earlier a := by
      have := h [] a rest rfl
      rwa [List.append_nil] at this
    rw [withEarlier, withEarlier, hhead, ih]
    intro front b back hrest
    rw [List.append_assoc]
    exact h (a :: front) b back (by rw [hrest]; rfl)

@[simp] theorem withEarlier_const (g : α → β) :
    withEarlier (fun _ a => g a) earlier rest = rest.map g := by
  induction rest generalizing earlier with
  | nil => rfl
  | cons a rest ih => rw [withEarlier, ih, List.map_cons]

/-- What does not depend on the elements before is said of each element alone. -/
theorem withEarlier_eq_map {f : List α → α → β} {g : α → β}
    (h : ∀ front a back, rest = front ++ a :: back → f (earlier ++ front) a = g a) :
    withEarlier f earlier rest = rest.map g :=
  (withEarlier_congr h).trans (withEarlier_const g)

theorem map_withEarlier (f : List α → α → β) (g : β → γ) :
    (withEarlier f earlier rest).map g =
      withEarlier (fun earlier a => g (f earlier a)) earlier rest := by
  induction rest generalizing earlier with
  | nil => rfl
  | cons a rest ih => rw [withEarlier, withEarlier, List.map_cons, ih]

theorem withEarlier_concat (f : List α → α → β) (a : α) :
    withEarlier f earlier (rest ++ [a]) =
      withEarlier f earlier rest ++ [f (earlier ++ rest) a] := by
  induction rest generalizing earlier with
  | nil => simp [withEarlier]
  | cons b rest ih =>
    rw [List.cons_append, withEarlier, withEarlier, ih, List.append_assoc, List.cons_append,
      List.cons_append, List.nil_append]

theorem forall_mem_withEarlier {f : List α → α → β} {p : β → Prop}
    (h : ∀ earlier, ∀ a ∈ rest, p (f earlier a)) : ∀ b ∈ withEarlier f earlier rest, p b := by
  induction rest generalizing earlier with
  | nil => exact fun b hb => nomatch hb
  | cons a rest ih =>
    rw [withEarlier, List.forall_mem_cons]
    exact ⟨h earlier a List.mem_cons_self,
      ih fun earlier b hb => h earlier b (List.mem_cons_of_mem a hb)⟩

theorem mem_flatten_withEarlier {f : List α → α → List β} {b : β} :
    b ∈ (withEarlier f earlier rest).flatten ↔
      ∃ front a back, rest = front ++ a :: back ∧ b ∈ f (earlier ++ front) a := by
  induction rest generalizing earlier with
  | nil => simp [withEarlier]
  | cons a rest ih =>
    rw [withEarlier, List.flatten_cons, List.mem_append, ih]
    constructor
    · rintro (hb | ⟨front, c, back, rfl, hb⟩)
      · exact ⟨[], a, rest, rfl, by rwa [List.append_nil]⟩
      · exact ⟨a :: front, c, back, rfl, by rwa [List.append_assoc] at hb⟩
    · rintro ⟨front, c, back, hrest, hb⟩
      cases front with
      | nil =>
        cases hrest
        exact .inl (by rwa [List.append_nil] at hb)
      | cons _ front =>
        cases hrest
        exact .inr ⟨front, c, back, rfl, by rwa [List.append_assoc]⟩

end WithEarlier

/-! ## Names -/

namespace Module

/-- The structure that a name stands for: the first one declared with it. -/
def struct? (m : Module) (name : String) : Option Struct :=
  m.structs.find? fun s => s.name == name

/-- The name that a type is made of, if no structure has it. -/
def undeclared? (m : Module) (e : TypeExpr) : Option String :=
  e.innermost?.filter fun name => (m.struct? name).isNone

theorem struct?_cons_struct (s : Struct) (m : Module) (name : String) :
    struct? (.struct s :: m) name = if s.name = name then some s else m.struct? name := by
  show (s :: m.structs).find? _ = _
  rw [List.find?_cons]
  by_cases h : s.name = name
  · simp [h]
  · simp [beq_eq_false_iff_ne.mpr h, h, struct?]

/-- A structure that is not declared first is declared later. -/
theorem struct?_of_cons {d : Declaration} {m : Module} {s : Struct}
    (h : struct? (d :: m) s.name = some s) (hd : d ≠ .struct s) :
    struct? [d] s.name = none ∧ m.struct? s.name = some s := by
  cases d with
  | function f => exact ⟨rfl, h⟩
  | struct first =>
    rw [struct?_cons_struct] at h ⊢
    split at h
    · cases h
      exact absurd rfl hd
    · rename_i hname
      exact ⟨if_neg hname, h⟩

theorem struct?_append (m m' : Module) (name : String) :
    struct? (m ++ m') name = (m.struct? name).or (m'.struct? name) := by
  simp only [struct?, structs, List.filterMap_append, List.find?_append]

/-- A declaration whose name was taken, or that takes none, changes nothing. -/
theorem struct?_append_seen {m : Module} {d : Declaration}
    (h : ∀ s, d = .struct s → ∃ first, m.struct? s.name = some first) (name : String) :
    struct? (m ++ [d]) name = m.struct? name := by
  rw [struct?_append]
  cases d with
  | function f => exact Option.or_none
  | struct s =>
    rw [struct?_cons_struct]
    split
    · rename_i hname
      obtain ⟨first, hfirst⟩ := h s rfl
      rw [← hname, hfirst]
      rfl
    · exact Option.or_none

/-- A structure takes its name, if nobody has. -/
theorem struct?_append_new {m : Module} {s : Struct} (h : m.struct? s.name = none)
    (name : String) :
    struct? (m ++ [.struct s]) name = if name = s.name then some s else m.struct? name := by
  rw [struct?_append, struct?_cons_struct]
  by_cases hname : name = s.name
  · rw [if_pos hname, if_pos hname.symm, hname, h]
    rfl
  · rw [if_neg hname, if_neg (Ne.symm hname)]
    exact Option.or_none

theorem mem_structs {m : Module} {s : Struct} : s ∈ m.structs ↔ .struct s ∈ m := by
  constructor
  · intro h
    obtain ⟨d, hd, hs⟩ := List.mem_filterMap.mp h
    cases d <;> cases hs
    exact hd
  · exact fun h => List.mem_filterMap.mpr ⟨.struct s, h, rfl⟩

theorem exists_struct?_of_mem {m : Module} {s : Struct} (h : .struct s ∈ m) :
    ∃ first, m.struct? s.name = some first :=
  Option.isSome_iff_exists.mp (List.find?_isSome.mpr ⟨s, mem_structs.mpr h, by simp⟩)

theorem mem_of_struct? {m : Module} {name : String} {s : Struct} (h : m.struct? name = some s) :
    .struct s ∈ m :=
  mem_structs.mp (List.mem_of_find?_eq_some h)

theorem name_of_struct? {m : Module} {name : String} {s : Struct} (h : m.struct? name = some s) :
    s.name = name := by
  simpa using List.find?_some h

/-- The structure that a name stands for, with no other of the name before it. -/
theorem split_of_struct? {m : Module} {name : String} {s : Struct} (h : m.struct? name = some s) :
    ∃ front back, m = front ++ .struct s :: back ∧ struct? front name = none := by
  induction m with
  | nil => cases h
  | cons d m ih =>
    by_cases hd : d = .struct s
    · exact ⟨[], m, by rw [hd]; rfl, rfl⟩
    · obtain rfl := name_of_struct? h
      obtain ⟨hother, hlater⟩ := struct?_of_cons h hd
      obtain ⟨front, back, rfl, hfront⟩ := ih hlater
      refine ⟨d :: front, back, rfl, ?_⟩
      rw [← List.singleton_append, struct?_append, hother, hfront]
      rfl

end Module

/-- The structure of the same name that was declared earlier. -/
def Declaration.first? (earlier : Module) : Declaration → Option Struct
  | function _ => none
  | struct s => earlier.struct? s.name

/-- What is said of the first structure of a name. -/
theorem Declaration.ite_of_first {β : Type} {earlier : Module} {s : Struct}
    (h : Declaration.first? earlier (.struct s) = none) (b c : β) :
    (if (earlier.struct? s.name).isSome then b else c) = c := by
  rw [Declaration.first?] at h
  rw [h]
  rfl

/-- The first member with a name. -/
def Member.named? (members : List Member) (name : String) : Option Member :=
  members.find? fun member => member.name == name

/-- The member of the same name that came earlier. -/
def Member.first? (earlier : List Member) (member : Member) : Option Member :=
  Member.named? earlier member.name

/-- A member whose name was taken changes nothing. -/
theorem Member.named?_append_seen {members : List Member} {member first : Member}
    (h : Member.named? members member.name = some first) (name : String) :
    Member.named? (members ++ [member]) name = Member.named? members name := by
  unfold Member.named? at h ⊢
  rw [List.find?_append]
  by_cases hname : member.name = name
  · rw [← hname, h]
    rfl
  · simp [hname]

/-- A member takes its name, if nobody has. -/
theorem Member.named?_append_new {members : List Member} {member : Member}
    (h : Member.named? members member.name = none) (name : String) :
    Member.named? (members ++ [member]) name =
      if name = member.name then some member else Member.named? members name := by
  unfold Member.named? at h ⊢
  rw [List.find?_append]
  by_cases hname : name = member.name
  · rw [if_pos hname, hname, h]
    simp
  · simp [hname, Ne.symm hname]

/-! ## Errors -/

/-- What is wrong with a type at a place. -/
def Module.unknownErrors (m : Module) (e : TypeExpr) (span : Span) : List TypeError :=
  ((m.undeclared? e).map fun name => .unknownType name span).toList

/-- What is wrong with the types of a function. -/
def Function.typeErrors (m : Module) (f : Function) : List TypeError :=
  (f.params.flatMap fun p => m.unknownErrors p.type p.span) ++
    m.unknownErrors f.returnType f.span

/-- What is wrong with a member. One whose name was taken says nothing of its type. -/
def Member.typeErrors (m : Module) (structName : String) (earlier : List Member)
    (member : Member) : List TypeError :=
  match member.first? earlier with
  | some first => [.duplicateMember structName member.name member.span first.span]
  | none => m.unknownErrors member.type member.span

/-- What is wrong with the members of a structure. -/
def Struct.typeErrors (m : Module) (s : Struct) : List TypeError :=
  (withEarlier (Member.typeErrors m s.name) [] s.members).flatten

namespace Declaration

/-- A structure whose name was taken. -/
def duplicateErrors (earlier : Module) (d : Declaration) : List TypeError :=
  ((d.first? earlier).map fun first => .duplicateStruct d.name d.span first.span).toList

/-- What is wrong with the types in a declaration. A structure whose name was taken says nothing of
its members. -/
def typeErrors (m earlier : Module) : Declaration → List TypeError
  | function f => f.typeErrors m
  | struct s => if (earlier.struct? s.name).isSome then [] else s.typeErrors m

end Declaration

/-- What is wrong with the types of a module: the structures whose name was taken, then the types in
the declarations. -/
def Module.typeErrors (m : Module) : List TypeError :=
  (withEarlier Declaration.duplicateErrors [] m).flatten ++
    (withEarlier (Declaration.typeErrors m) [] m).flatten

/-! ## Slots -/

/-- The parameter with its slot filled from an arena. -/
def Parameter.resolved (t : TypeSystem) (p : Parameter) : Parameter :=
  { p with slot := t.fillFound p.slot p.type }

/-- The function with its slots filled from an arena. -/
def Function.resolved (t : TypeSystem) (f : Function) : Function :=
  { f with
    params := f.params.map (Parameter.resolved t)
    slot := t.fillFound f.slot f.returnType }

/-- The member with its slot filled from an arena, unless its name was taken. -/
def Member.resolved (t : TypeSystem) (earlier : List Member) (member : Member) : Member :=
  if (member.first? earlier).isSome then member
  else { member with slot := t.fillFound member.slot member.type }

/-- The field that a member is, if the arena has its type. -/
def Member.fieldIn? (t : TypeSystem) (member : Member) : Option (String × TypeId) :=
  (t.find? member.type).map fun id => (member.name, id)

/-- The field that a member is, unless its name was taken. -/
def Member.fieldsIn (t : TypeSystem) (earlier : List Member) (member : Member) :
    List (String × TypeId) :=
  if (member.first? earlier).isSome then [] else (member.fieldIn? t).toList

namespace Struct

/-- The fields of a structure in an arena. -/
def fieldsIn (t : TypeSystem) (s : Struct) : List (String × TypeId) :=
  (withEarlier (Member.fieldsIn t) [] s.members).flatten

/-- The structure with its slots filled from an arena. -/
def resolved (t : TypeSystem) (s : Struct) : Struct :=
  { s with
    members := withEarlier (Member.resolved t) [] s.members
    slot := t.fillFound s.slot (.named s.name) }

end Struct

/-- The declaration with its slots filled from an arena. A structure whose name was taken keeps its
slots as they are. -/
def Declaration.resolved (t : TypeSystem) (earlier : Module) : Declaration → Declaration
  | function f => .function (f.resolved t)
  | struct s => .struct (if (earlier.struct? s.name).isSome then s else s.resolved t)

/-- The module with its slots filled from an arena. -/
def Module.resolved (t : TypeSystem) (m : Module) : Module :=
  withEarlier (Declaration.resolved t) [] m

/-- The slots of a declaration. -/
def Declaration.slots : Declaration → List TypeSlot
  | function f => f.params.map Parameter.slot ++ [f.slot]
  | struct s => s.slot :: s.members.map Member.slot

/-! ## Written types -/

/-- The type of a member, unless its name was taken. -/
def Member.annotations (earlier : List Member) (member : Member) : List TypeExpr :=
  if (member.first? earlier).isSome then [] else [member.type]

/-- The types of the members of a structure. -/
def Struct.annotations (s : Struct) : List TypeExpr :=
  (withEarlier Member.annotations [] s.members).flatten

/-- The types of the parameters and what is returned. -/
def Function.annotations (f : Function) : List TypeExpr :=
  f.params.map Parameter.type ++ [f.returnType]

/-- The types in a declaration, unless it is a structure whose name was taken. -/
def Declaration.annotations (earlier : Module) : Declaration → List TypeExpr
  | function f => f.annotations
  | struct s => if (earlier.struct? s.name).isSome then [] else s.annotations

/-- The types in the declarations of a module. -/
def Module.annotations (m : Module) : List TypeExpr :=
  (withEarlier Declaration.annotations [] m).flatten

theorem Struct.type_mem_annotations {s : Struct} {front back : List Member} {member : Member}
    (hs : s.members = front ++ member :: back) (hnew : member.first? front = none) :
    member.type ∈ s.annotations := by
  refine mem_flatten_withEarlier.mpr ⟨front, member, back, hs, ?_⟩
  simp [Member.annotations, hnew]

theorem Module.annotations_of_struct? {m : Module} {s : Struct}
    (h : m.struct? s.name = some s) : s.annotations ⊆ m.annotations := by
  intro e he
  obtain ⟨front, back, hm, hfront⟩ := split_of_struct? h
  refine mem_flatten_withEarlier.mpr ⟨front, .struct s, back, hm, ?_⟩
  simpa [Declaration.annotations, hfront] using he

/-! ## Arenas -/

namespace TypeSystem

variable {t t' : TypeSystem} {m : Module} {e : TypeExpr}

/-- The structures of an arena are those of a module. -/
def Declares (t : TypeSystem) (m : Module) : Prop :=
  ∀ name, (∃ id, t.findStruct? name = some id) ↔ ∃ s, m.struct? name = some s

theorem Declares.extends (h : t.Declares m) (he : t.Extends t') : t'.Declares m := by
  intro name
  rw [he.findStruct?]
  exact h name

theorem Declares.findStruct?_eq_none (h : t.Declares m) {name : String}
    (hnew : m.struct? name = none) : t.findStruct? name = none := by
  rw [Option.eq_none_iff_forall_ne_some]
  intro id hid
  obtain ⟨s, hs⟩ := (h name).mp ⟨id, hid⟩
  rw [hnew] at hs
  cases hs

/-- A type is made of a name that is known, or of one that is not declared. -/
theorem Declares.knows_or (h : t.Declares m) (e : TypeExpr) :
    (t.Knows e ∧ m.undeclared? e = none) ∨
      ∃ name, e.innermost? = some name ∧ t.findStruct? name = none ∧
        m.undeclared? e = some name := by
  unfold Knows Module.undeclared?
  cases hn : e.innermost? with
  | none => exact .inl ⟨fun _ hname => absurd hname (Option.not_mem_none _), rfl⟩
  | some name =>
    cases hs : m.struct? name with
    | some s =>
      refine .inl ⟨?_, by simp [Option.filter, hs]⟩
      rintro _ ⟨rfl⟩
      exact (h name).mpr ⟨s, hs⟩
    | none => exact .inr ⟨name, rfl, h.findStruct?_eq_none hs, by simp [Option.filter, hs]⟩

theorem Declares.knows_iff (h : t.Declares m) : t.Knows e ↔ m.undeclared? e = none := by
  rcases h.knows_or e with ⟨hk, hnone⟩ | ⟨name, hn, hmissing, hsome⟩
  · exact iff_of_true hk hnone
  · refine iff_of_false (fun hk => ?_) (by rw [hsome]; exact Option.some_ne_none name)
    obtain ⟨id, hid⟩ := hk name hn
    rw [hmissing] at hid
    cases hid

/-- An arena has the types of a module and no others: each structure with its fields, and each
written type whose name is declared with what it is made of. -/
structure TypesOf (t : TypeSystem) (m : Module) : Prop where
  wellFormed : t.WellFormed
  declared : t.Declares m
  fields : ∀ s, m.struct? s.name = some s →
    ∃ id, t.findStruct? s.name = some id ∧ t.get? id = some (.struct ⟨s.name, s.fieldsIn t⟩)
  found : ∀ e ∈ m.annotations, (∃ id, t.find? e = some id) ↔ m.undeclared? e = none
  covered : ∀ id : Nat, id < t.size →
    (∃ name, t.findStruct? name = some id) ∨
      ∃ e ∈ m.annotations, ∃ part ∈ e.parts, t.find? part = some id

end TypeSystem

end FrontEnd
