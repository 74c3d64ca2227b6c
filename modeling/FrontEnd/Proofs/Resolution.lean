import FrontEnd.Proofs.Arena
import FrontEnd.Typing.Lower

/-!
# Written types in an arena

Which type of an arena a written type stands for, and what lowering one does to the arena.

* `TypeExpr.core` writes a type as the type system sees it: whatever points is a pointer. An
  induction over types needs four cases then, `TypeExpr.core_induction`.
* `TypeSystem.find?` looks a written type up and adds nothing. `TypeSystem.expr?` reads a type of
  the arena back, and `WellFormed.expr?_of_find?` says that this gives what was looked up.
* `TypeSystem.Extends`: an arena that still has all the types of another. `TypeSystem.Adds` says
  besides which structures may have changed, and which written types the new types stand for.
* `WellFormed.lowerType_known` and `lowerType_unknown`: a type is lowered exactly when the name that
  it is made of is known.
-/

set_option autoImplicit false

namespace FrontEnd

namespace TypeExpr

/-- The type with whatever points written as a pointer. -/
def core : TypeExpr → TypeExpr
  | sint width => sint width
  | uint width => uint width
  | float width => float width
  | bool => bool
  | char => char
  | unit => unit
  | str => pointer (sint .w8)
  | slice element => pointer element.core
  | ref target => pointer target.core
  | pointer target => pointer target.core
  | array element size => array element.core size
  | named name => named name

/-- The name that a type is made of. -/
def innermost? : TypeExpr → Option String
  | slice element => element.innermost?
  | ref target => target.innermost?
  | pointer target => target.innermost?
  | array element _ => element.innermost?
  | named name => some name
  | _ => none

/-- The type itself and the types that it is made of, each written with pointers only. -/
def parts : TypeExpr → List TypeExpr
  | str => [pointer (sint .w8), sint .w8]
  | slice element => pointer element.core :: element.parts
  | ref target => pointer target.core :: target.parts
  | pointer target => pointer target.core :: target.parts
  | array element size => array element.core size :: element.parts
  | e => [e]

/-- The descriptor of a type that is made of no other. -/
def plain? : TypeExpr → Option TypeDesc
  | sint width => some (.int width true)
  | uint width => some (.int width false)
  | float width => some (.float width)
  | bool => some .bool
  | char => some .char
  | unit => some .unit
  | _ => none

variable {e : TypeExpr} {d : TypeDesc}

theorem plain?_shape (h : e.plain? = some d) :
    e.core = e ∧ e.innermost? = none ∧ d.struct? = none ∧ d.element? = none := by
  cases e <;> cases h <;> exact ⟨rfl, rfl, rfl, rfl⟩

/-- A property of types that does not tell what points apart. -/
theorem core_induction {motive : TypeExpr → Prop}
    (plain : ∀ e d, e.plain? = some d → motive e)
    (pointer : ∀ e, motive e → motive (.pointer e))
    (array : ∀ e size, motive e → motive (.array e size))
    (named : ∀ name, motive (.named name))
    (core : ∀ e : TypeExpr, motive e.core → motive e) (e : TypeExpr) : motive e := by
  refine core e ?_
  induction e with
  | sint _ | uint _ | float _ | bool | char | unit => exact plain _ _ rfl
  | str => exact pointer _ (plain _ _ rfl)
  | slice e ih | ref e ih | pointer e ih => exact pointer _ ih
  | array e size ih => exact array _ _ ih
  | named name => exact named name

@[simp] theorem core_core (e : TypeExpr) : e.core.core = e.core := by
  induction e <;> simp_all [core]

@[simp] theorem innermost?_core (e : TypeExpr) : e.core.innermost? = e.innermost? := by
  induction e <;> simp_all [core, innermost?]

@[simp] theorem parts_core (e : TypeExpr) : e.core.parts = e.parts := by
  induction e <;> simp_all [core, parts]

theorem core_mem_parts (e : TypeExpr) : e.core ∈ e.parts := by
  cases e <;> simp [core, parts]

/-- A part is made of the same name. -/
theorem innermost?_of_mem_parts {part : TypeExpr} (h : part ∈ e.parts) :
    part.innermost? = e.innermost? := by
  induction e using core_induction with
  | plain e d hd =>
    cases e <;> cases hd <;> rw [List.mem_singleton.mp h]
  | pointer e ih | array e _ ih =>
    rcases List.mem_cons.mp h with rfl | h
    · exact innermost?_core e
    · exact ih h
  | named name => rw [List.mem_singleton.mp h]
  | core e ih => rw [parts_core, innermost?_core] at ih; exact ih h

end TypeExpr

namespace TypeSystem

variable {t t' t'' : TypeSystem} {e : TypeExpr} {id : TypeId} {d : TypeDesc} {name : String}
  {span : Span} {changed changed' : Set String} {es es' : List TypeExpr}

/-! ## Looking a type up -/

/-- The type that a written type stands for, if the arena has it. -/
def find? (t : TypeSystem) : TypeExpr → Option TypeId
  | .sint width => t.interned.lookup (.int width true)
  | .uint width => t.interned.lookup (.int width false)
  | .float width => t.interned.lookup (.float width)
  | .bool => t.interned.lookup .bool
  | .char => t.interned.lookup .char
  | .unit => t.interned.lookup .unit
  | .str => (t.interned.lookup (.int .w8 true)).bind fun byte => t.interned.lookup (.pointer byte)
  | .slice element => (t.find? element).bind fun id => t.interned.lookup (.pointer id)
  | .ref target => (t.find? target).bind fun id => t.interned.lookup (.pointer id)
  | .pointer target => (t.find? target).bind fun id => t.interned.lookup (.pointer id)
  | .array element size => (t.find? element).bind fun id => t.interned.lookup (.array id size)
  | .named name => t.findStruct? name

theorem find?_plain (t : TypeSystem) (h : e.plain? = some d) :
    t.find? e = t.interned.lookup d := by
  cases e <;> cases h <;> rfl

@[simp] theorem find?_core (t : TypeSystem) (e : TypeExpr) : t.find? e.core = t.find? e := by
  induction e <;> simp_all [TypeExpr.core, find?]

theorem find?_pointer_eq_some :
    t.find? (.pointer e) = some id ↔
      ∃ element, t.find? e = some element ∧ t.interned.lookup (.pointer element) = some id :=
  Option.bind_eq_some_iff

theorem find?_array_eq_some {size : UInt64} :
    t.find? (.array e size) = some id ↔
      ∃ element, t.find? e = some element ∧
        t.interned.lookup (.array element size) = some id :=
  Option.bind_eq_some_iff

/-- The type at an index, written with pointers only, if it is nested less deep than `depth`. -/
def exprAt? (t : TypeSystem) : Nat → TypeId → Option TypeExpr
  | 0, _ => none
  | depth + 1, id =>
    match t.get? id with
    | some (.struct s) => some (.named s.name)
    | some (.int width signed) => some (if signed then .sint width else .uint width)
    | some (.float width) => some (.float width)
    | some .bool => some .bool
    | some .char => some .char
    | some .unit => some .unit
    | some (.array element size) => (t.exprAt? depth element).map (.array · size)
    | some (.pointer element) => (t.exprAt? depth element).map .pointer
    | some .void | some .unknown | none => none

/-- The type at an index, read back as a written type. -/
def expr? (t : TypeSystem) (id : TypeId) : Option TypeExpr := t.exprAt? (id + 1) id

/-- What is read back has the text of the type. -/
theorem textAt_of_exprAt? {depth : Nat} (h : t.exprAt? depth id = some e) :
    t.textAt depth id = e.text := by
  induction depth generalizing id e with
  | zero => cases h
  | succ depth ih =>
    rw [exprAt?] at h
    rw [textAt]
    split at h
    case h_2 width signed hd =>
      rw [hd]
      cases signed <;> cases h <;> rfl
    case h_7 element size hd =>
      obtain ⟨inner, hinner, rfl⟩ := Option.map_eq_some_iff.mp h
      rw [hd]
      dsimp only [TypeExpr.text]
      rw [ih hinner]
    case h_8 element hd =>
      obtain ⟨inner, hinner, rfl⟩ := Option.map_eq_some_iff.mp h
      rw [hd]
      dsimp only [TypeExpr.text]
      rw [ih hinner]
    all_goals
      cases h
      try simp_all [TypeExpr.text]

theorem text_of_expr? (h : t.expr? id = some e) : t.text id = e.text := textAt_of_exprAt? h

namespace WellFormed

/-- A type that was looked up is in the arena. -/
theorem lt_size_of_find? (h : t.WellFormed) (hf : t.find? e = some id) : id < t.size := by
  have hshared : ∀ {d}, t.interned.lookup d = some id → id < t.size := fun hl =>
    lt_size ((h.interned _ id).mp hl).1
  induction e using TypeExpr.core_induction with
  | plain e d hd => exact hshared (find?_plain t hd ▸ hf)
  | pointer e _ =>
    obtain ⟨_, _, hl⟩ := find?_pointer_eq_some.mp hf
    exact hshared hl
  | array e _ _ =>
    obtain ⟨_, _, hl⟩ := find?_array_eq_some.mp hf
    exact hshared hl
  | named name =>
    obtain ⟨s, hs, _⟩ := h.get?_of_findStruct? hf
    exact lt_size hs
  | core e ih => exact ih (by rwa [find?_core])

theorem exprAt?_of_find? (h : t.WellFormed) {depth : Nat} (hdepth : id < depth)
    (hf : t.find? e = some id) : t.exprAt? depth id = some e.core := by
  induction e using TypeExpr.core_induction generalizing id depth with
  | plain e d hd =>
    rw [find?_plain t hd] at hf
    have hget := ((h.interned d id).mp hf).1
    obtain ⟨depth, rfl⟩ := Nat.exists_eq_add_one_of_ne_zero (Nat.ne_zero_of_lt hdepth)
    rw [exprAt?, hget]
    cases e <;> cases hd <;> rfl
  | pointer e ih =>
    obtain ⟨element, hel, hl⟩ := find?_pointer_eq_some.mp hf
    have hget := ((h.interned _ id).mp hl).1
    have hlt := h.elements hget rfl
    obtain ⟨depth, rfl⟩ := Nat.exists_eq_add_one_of_ne_zero (Nat.ne_zero_of_lt hdepth)
    rw [exprAt?, hget]
    dsimp only
    rw [ih (Nat.lt_of_lt_of_le hlt (Nat.le_of_lt_succ hdepth)) hel]
    rfl
  | array e size ih =>
    obtain ⟨element, hel, hl⟩ := find?_array_eq_some.mp hf
    have hget := ((h.interned _ id).mp hl).1
    have hlt := h.elements hget rfl
    obtain ⟨depth, rfl⟩ := Nat.exists_eq_add_one_of_ne_zero (Nat.ne_zero_of_lt hdepth)
    rw [exprAt?, hget]
    dsimp only
    rw [ih (Nat.lt_of_lt_of_le hlt (Nat.le_of_lt_succ hdepth)) hel]
    rfl
  | named name =>
    obtain ⟨s, hs, rfl⟩ := h.get?_of_findStruct? hf
    obtain ⟨depth, rfl⟩ := Nat.exists_eq_add_one_of_ne_zero (Nat.ne_zero_of_lt hdepth)
    rw [exprAt?, hs]
    rfl
  | core e ih =>
    rw [TypeExpr.core_core] at ih
    exact ih hdepth (by rwa [find?_core])

/-- **A type that was looked up reads back as it was written**, but for what points. -/
theorem expr?_of_find? (h : t.WellFormed) (hf : t.find? e = some id) :
    t.expr? id = some e.core :=
  h.exprAt?_of_find? (Nat.lt_succ_self id) hf

end WellFormed

/-! ## Arenas that grow -/

/-- The name that a type is made of is that of a structure. -/
def Knows (t : TypeSystem) (e : TypeExpr) : Prop :=
  ∀ name ∈ e.innermost?, ∃ id, t.findStruct? name = some id

theorem knows_of_find? (h : t.find? e = some id) : t.Knows e := by
  induction e using TypeExpr.core_induction generalizing id with
  | plain e d hd =>
    intro name hname
    rw [(TypeExpr.plain?_shape hd).2.1] at hname
    cases hname
  | pointer e ih =>
    obtain ⟨_, hel, _⟩ := find?_pointer_eq_some.mp h
    exact ih hel
  | array e _ ih =>
    obtain ⟨_, hel, _⟩ := find?_array_eq_some.mp h
    exact ih hel
  | named name =>
    rintro _ ⟨rfl⟩
    exact ⟨id, h⟩
  | core e ih =>
    unfold Knows at ih ⊢
    rw [TypeExpr.innermost?_core] at ih
    exact ih (by rwa [find?_core])

theorem find?_eq_none (hn : e.innermost? = some name) (hmissing : t.findStruct? name = none) :
    t.find? e = none := by
  rw [Option.eq_none_iff_forall_ne_some]
  intro id hf
  obtain ⟨_, hid⟩ := knows_of_find? hf name hn
  rw [hmissing] at hid
  cases hid

/-- What a type of the arena is made of is in the arena. -/
theorem exists_find?_of_mem_parts {part : TypeExpr} (hpart : part ∈ e.parts)
    (h : t.find? e = some id) : ∃ id, t.find? part = some id := by
  induction e using TypeExpr.core_induction generalizing id with
  | plain e d hd =>
    have hsame : part = e := by cases e <;> cases hd <;> exact List.mem_singleton.mp hpart
    exact ⟨id, hsame ▸ h⟩
  | pointer e ih =>
    obtain ⟨_, hel, hl⟩ := find?_pointer_eq_some.mp h
    rcases List.mem_cons.mp hpart with rfl | hpart
    · exact ⟨id, find?_pointer_eq_some.mpr ⟨_, (find?_core t e).trans hel, hl⟩⟩
    · exact ih hpart hel
  | array e size ih =>
    obtain ⟨_, hel, hl⟩ := find?_array_eq_some.mp h
    rcases List.mem_cons.mp hpart with rfl | hpart
    · exact ⟨id, find?_array_eq_some.mpr ⟨_, (find?_core t e).trans hel, hl⟩⟩
    · exact ih hpart hel
  | named name =>
    rw [List.mem_singleton.mp hpart]
    exact ⟨id, h⟩
  | core e ih =>
    rw [TypeExpr.parts_core, find?_core] at ih
    exact ih hpart h

namespace WellFormed

theorem lookup_of_keeps (h : t.WellFormed) (h' : t'.WellFormed) (hk : t.Keeps t')
    (hl : t.interned.lookup d = some id) : t'.interned.lookup d = some id := by
  obtain ⟨hget, hd⟩ := (h.interned d id).mp hl
  exact (h'.interned d id).mpr ⟨hk.shared hget hd, hd⟩

/-- The first structure with a name stays the first one. -/
theorem findStruct?_of_keeps (h : t.WellFormed) (h' : t'.WellFormed) (hk : t.Keeps t')
    (hn : t.findStruct? name = some id) : t'.findStruct? name = some id := by
  obtain ⟨⟨s, hs, hname⟩, hleast⟩ := (h.structs name id).mp hn
  obtain ⟨s', hs', hsame⟩ := hk.struct hs
  refine (h'.structs name id).mpr ⟨⟨s', hs', hsame.trans hname⟩, ?_⟩
  rintro i ⟨u, hu, hu'⟩
  by_contra hlt
  -- an earlier structure with the name was there before, under the same name
  obtain ⟨d, hd⟩ := get?_of_lt (Nat.lt_trans (Nat.lt_of_not_le hlt) (lt_size hs))
  have hstruct : ∃ u', d = .struct u' := by
    cases d with
    | struct u' => exact ⟨u', rfl⟩
    | _ =>
      have hsame := hk.shared hd rfl
      rw [hu] at hsame
      cases hsame
  obtain ⟨u', rfl⟩ := hstruct
  obtain ⟨u'', hu'', hname'⟩ := hk.struct hd
  rw [hu] at hu''
  cases hu''
  exact hlt (hleast ⟨u', hd, hname'.symm.trans hu'⟩)

/-- A type that was there is found at the same index, whatever was added. -/
theorem find?_of_keeps (h : t.WellFormed) (h' : t'.WellFormed) (hk : t.Keeps t')
    (hf : t.find? e = some id) : t'.find? e = some id := by
  induction e using TypeExpr.core_induction generalizing id with
  | plain e d hd =>
    rw [find?_plain _ hd] at hf ⊢
    exact h.lookup_of_keeps h' hk hf
  | pointer e ih =>
    obtain ⟨element, hel, hl⟩ := find?_pointer_eq_some.mp hf
    exact find?_pointer_eq_some.mpr ⟨element, ih hel, h.lookup_of_keeps h' hk hl⟩
  | array e size ih =>
    obtain ⟨element, hel, hl⟩ := find?_array_eq_some.mp hf
    exact find?_array_eq_some.mpr ⟨element, ih hel, h.lookup_of_keeps h' hk hl⟩
  | named name => exact h.findStruct?_of_keeps h' hk hf
  | core e ih => rw [find?_core, find?_core] at ih; exact ih hf

end WellFormed

/-- An arena in order that has all the types of another, and no other structures. -/
structure Extends (t t' : TypeSystem) : Prop where
  wellFormed : t'.WellFormed
  keeps : t.Keeps t'
  structs : t'.structs = t.structs
  stamp : t'.stamp = t.stamp

namespace Extends

theorem refl (h : t.WellFormed) : t.Extends t := ⟨h, .refl t, rfl, rfl⟩

theorem trans (h : t.Extends t') (h' : t'.Extends t'') : t.Extends t'' :=
  ⟨h'.wellFormed, h.keeps.trans h'.keeps, h'.structs.trans h.structs, h'.stamp.trans h.stamp⟩

theorem findStruct? (h : t.Extends t') (name : String) :
    t'.findStruct? name = t.findStruct? name := by
  unfold TypeSystem.findStruct?
  rw [h.structs]

theorem knows_iff (h : t.Extends t') : t'.Knows e ↔ t.Knows e := by
  unfold Knows
  simp only [h.findStruct?]

theorem lookup (hw : t.WellFormed) (h : t.Extends t') (hl : t.interned.lookup d = some id) :
    t'.interned.lookup d = some id :=
  hw.lookup_of_keeps h.wellFormed h.keeps hl

theorem intern (h : t.WellFormed) (hd : d.struct? = none)
    (hel : ∀ element, d.element? = some element → element < t.size) :
    t.Extends (t.intern d).2 :=
  ⟨h.intern hd hel, keeps_intern t d, structs_intern t d, stamp_intern t d⟩

theorem find? (hw : t.WellFormed) (h : t.Extends t') (hf : t.find? e = some id) :
    t'.find? e = some id :=
  hw.find?_of_keeps h.wellFormed h.keeps hf

end Extends

/-- An arena extended for written types: of the structures only those with the names `changed` are
not what they were, each new type is a part of one of the written types, and these are found. -/
structure Adds (t t' : TypeSystem) (changed : Set String) (es : List TypeExpr) : Prop
    extends Extends t t' where
  fixed : ∀ {id s}, t.get? id = some (.struct s) → s.name ∉ changed → t'.get? id = some (.struct s)
  covered : ∀ id : Nat, id < t'.size → t.size ≤ id →
    ∃ e ∈ es, ∃ part ∈ e.parts, t'.find? part = some id
  found : ∀ e ∈ es, t.Knows e → ∃ id, t'.find? e = some id

namespace Adds

/-- The arena as it is has what it is extended for. -/
theorem refl (h : t.WellFormed) (hfound : ∀ e ∈ es, t.Knows e → ∃ id, t.find? e = some id) :
    t.Adds t changed es where
  toExtends := .refl h
  fixed hs _ := hs
  covered _ hlt hle := absurd hlt (Nat.not_lt_of_le hle)
  found := hfound

/-- The arena as it is, for no written type. -/
theorem nothing (h : t.WellFormed) : t.Adds t changed [] :=
  refl h fun _ he => absurd he List.not_mem_nil

theorem trans (h : t.Adds t' changed es) (h' : t'.Adds t'' changed es') :
    t.Adds t'' changed (es ++ es') where
  toExtends := h.toExtends.trans h'.toExtends
  fixed hs hname := h'.fixed (h.fixed hs hname) hname
  covered id hlt hle := by
    by_cases hold : id < t'.size
    · obtain ⟨e, he, part, hpart, hf⟩ := h.covered id hold hle
      exact ⟨e, List.mem_append_left _ he, part, hpart, h'.find? h.wellFormed hf⟩
    · obtain ⟨e, he, part, hpart, hf⟩ := h'.covered id hlt (Nat.le_of_not_lt hold)
      exact ⟨e, List.mem_append_right _ he, part, hpart, hf⟩
  found e he hk := by
    rcases List.mem_append.mp he with he | he
    · obtain ⟨id, hf⟩ := h.found e he hk
      exact ⟨id, h'.find? h.wellFormed hf⟩
    · exact h'.found e he (h.knows_iff.mpr hk)

/-- More structures may change. -/
theorem mono (h : t.Adds t' changed es) (hsub : changed ⊆ changed') : t.Adds t' changed' es where
  toExtends := h.toExtends
  fixed hs hname := h.fixed hs fun hmem => hname (hsub hmem)
  covered := h.covered
  found := h.found

/-- For a type and what it is made of is for the type. -/
theorem nested {inner outer : TypeExpr} (h : t.Adds t' changed [inner, outer])
    (hparts : inner.parts ⊆ outer.parts) : t.Adds t' changed [outer] where
  toExtends := h.toExtends
  fixed := h.fixed
  covered id hlt hle := by
    obtain ⟨e, he, part, hpart, hf⟩ := h.covered id hlt hle
    refine ⟨outer, List.mem_singleton_self outer, part, ?_, hf⟩
    rcases List.mem_cons.mp he with rfl | he
    · exact hparts hpart
    · rw [← List.mem_singleton.mp he]
      exact hpart
  found e he hk := h.found e (List.mem_cons_of_mem _ he) hk

/-- Interning a type finds it afterwards. -/
theorem intern (h : t.WellFormed) (hd : d.struct? = none)
    (hel : ∀ element, d.element? = some element → element < t.size)
    (hf : (t.intern d).2.find? e = some (t.intern d).1) : t.Adds (t.intern d).2 changed [e] where
  toExtends := .intern h hd hel
  fixed hs _ := get?_intern_of hs d
  covered id hlt hle := by
    have hid : id = (t.intern d).1 := by
      cases hl : t.interned.lookup d with
      | some first =>
        rw [intern_of_found hl] at hlt
        exact absurd hlt (Nat.not_lt_of_le hle)
      | none =>
        rw [intern_of_missing hl] at hlt ⊢
        have hsize : id < t.size + 1 := by simpa [size, push] using hlt
        exact Nat.le_antisymm (Nat.le_of_lt_succ hsize) hle
    exact ⟨e, List.mem_singleton_self e, e.core, e.core_mem_parts, by rw [find?_core, hf, hid]⟩
  found e' he' _ := by
    rw [List.mem_singleton.mp he']
    exact ⟨_, hf⟩

end Adds

/-! ## Lowering a type -/

theorem lowerType_plain (t : TypeSystem) (h : e.plain? = some d) :
    t.lowerType span e = (.ok (t.intern d).1, (t.intern d).2) := by
  cases e <;> cases h <;> rfl

@[simp] theorem lowerType_core (t : TypeSystem) (span : Span) (e : TypeExpr) :
    t.lowerType span e.core = t.lowerType span e := by
  induction e <;> simp_all [TypeExpr.core, lowerType, lowerType.lowerPointer, internInt]

/-- The type that is interned is the one that the table has. -/
theorem WellFormed.lookup_intern (h : t.WellFormed) (hd : d.struct? = none)
    (hel : ∀ element, d.element? = some element → element < t.size) :
    (t.intern d).2.interned.lookup d = some (t.intern d).1 :=
  ((h.intern hd hel).interned _ _).mpr ⟨h.get?_intern, hd⟩

/-- What is made of a type that was lowered is interned after it. -/
theorem Adds.made {inner outer : TypeExpr} {element : TypeId}
    (h : t.Adds t' changed [inner]) (hinner : t'.find? inner = some element)
    (hd : d.struct? = none) (hel : d.element? = some element)
    (hfind : ∀ u : TypeSystem, u.find? inner = some element →
      u.find? outer = u.interned.lookup d)
    (hparts : inner.parts ⊆ outer.parts) :
    t.Adds (t'.intern d).2 changed [outer] ∧
      (t'.intern d).2.find? outer = some (t'.intern d).1 := by
  have hlt : ∀ other, d.element? = some other → other < t'.size := by
    intro other hother
    rw [hel] at hother
    cases hother
    exact h.wellFormed.lt_size_of_find? hinner
  have hf : (t'.intern d).2.find? outer = some (t'.intern d).1 := by
    rw [hfind _ ((Extends.intern h.wellFormed hd hlt).find? h.wellFormed hinner)]
    exact h.wellFormed.lookup_intern hd hlt
  exact ⟨(h.trans (.intern h.wellFormed hd hlt hf)).nested hparts, hf⟩

/-- **A type whose name is known is lowered**, to the type that it stands for. -/
theorem WellFormed.lowerType_known (h : t.WellFormed) (hk : t.Knows e) (span : Span) :
    ∃ id t', t.lowerType span e = (.ok id, t') ∧ t.Adds t' changed [e] ∧
      t'.find? e = some id := by
  induction e using TypeExpr.core_induction with
  | plain e d hd =>
    obtain ⟨_, _, hstruct, hel⟩ := TypeExpr.plain?_shape hd
    have hno : ∀ element, d.element? = some element → element < t.size := by
      intro element helement
      rw [hel] at helement
      cases helement
    have hf : (t.intern d).2.find? e = some (t.intern d).1 := by
      rw [find?_plain _ hd]
      exact h.lookup_intern hstruct hno
    exact ⟨_, _, lowerType_plain t hd, .intern h hstruct hno hf, hf⟩
  | pointer e ih =>
    obtain ⟨element, t', hrun, hadds, hf⟩ := ih hk
    obtain ⟨hadds', hf'⟩ : t.Adds (t'.intern (.pointer element)).2 changed [.pointer e] ∧ _ :=
      hadds.made hf rfl rfl (fun u hu => by rw [find?, hu]; rfl) (List.subset_cons_self _ _)
    exact ⟨_, _, by rw [lowerType, hrun]; rfl, hadds', hf'⟩
  | array e size ih =>
    obtain ⟨element, t', hrun, hadds, hf⟩ := ih hk
    obtain ⟨hadds', hf'⟩ : t.Adds (t'.intern (.array element size)).2 changed [.array e size] ∧ _ :=
      hadds.made hf rfl rfl (fun u hu => by rw [find?, hu]; rfl) (List.subset_cons_self _ _)
    exact ⟨_, _, by rw [lowerType, hrun]; rfl, hadds', hf'⟩
  | named name =>
    obtain ⟨id, hid⟩ := hk name rfl
    refine ⟨id, t, by rw [lowerType, hid], .refl h fun e he _ => ?_, hid⟩
    rw [List.mem_singleton.mp he]
    exact ⟨id, hid⟩
  | core e ih =>
    have hk' : t.Knows e.core := by unfold Knows; rwa [TypeExpr.innermost?_core]
    obtain ⟨id, t', hrun, hadds, hf⟩ := ih hk'
    rw [lowerType_core] at hrun
    rw [find?_core] at hf
    refine ⟨id, t', hrun, ?_, hf⟩
    refine ⟨hadds.toExtends, hadds.fixed, fun id hlt hle => ?_, fun e' he' _ => ?_⟩
    · obtain ⟨e', he', part, hpart, hfound⟩ := hadds.covered id hlt hle
      rw [List.mem_singleton.mp he', TypeExpr.parts_core] at hpart
      exact ⟨e, List.mem_singleton_self e, part, hpart, hfound⟩
    · rw [List.mem_singleton.mp he']
      exact ⟨id, hf⟩

/-- **A type whose name is not known is refused**, and nothing is added. -/
theorem lowerType_unknown (hn : e.innermost? = some name) (hmissing : t.findStruct? name = none)
    (span : Span) : t.lowerType span e = (.error (.unknownType name span), t) := by
  induction e using TypeExpr.core_induction with
  | plain e d hd =>
    rw [(TypeExpr.plain?_shape hd).2.1] at hn
    cases hn
  | pointer e ih => rw [lowerType, ih hn]; rfl
  | array e _ ih => rw [lowerType, ih hn]
  | named _ => cases hn; rw [lowerType, hmissing]
  | core e ih => rw [TypeExpr.innermost?_core, lowerType_core] at ih; exact ih hn

/-! ## Slots -/

/-- The slot for a written type: filled if the arena has the type. -/
def fillFound (t : TypeSystem) (slot : TypeSlot) (e : TypeExpr) : TypeSlot :=
  match t.find? e with
  | some id => t.assignSlot slot id
  | none => slot

theorem fillFound_of_some (slot : TypeSlot) (h : t.find? e = some id) :
    t.fillFound slot e = t.assignSlot slot id := by
  unfold fillFound
  rw [h]

theorem fillFound_of_none (slot : TypeSlot) (h : t.find? e = none) : t.fillFound slot e = slot := by
  unfold fillFound
  rw [h]

theorem readSlot?_eq_none {slot : TypeSlot} (h : slot.readAs? t.stamp = none) :
    t.readSlot? slot = none := by
  unfold readSlot?
  rw [h]
  rfl

theorem WellFormed.readSlot?_of_find? (h : t.WellFormed) (slot : TypeSlot)
    (hf : t.find? e = some id) : t.readSlot? (t.fillFound slot e) = some id := by
  rw [fillFound_of_some slot hf, readSlot?, assignSlot, TypeSlot.readAs?_fill]
  simp [h.lt_size_of_find? hf]

/-- **A slot resolves to the type that it is for**, and to none if the arena does not have it. -/
theorem WellFormed.readSlot?_fillFound (h : t.WellFormed) {slot : TypeSlot}
    (hslot : slot.readAs? t.stamp = none) (e : TypeExpr) :
    t.readSlot? (t.fillFound slot e) = t.find? e := by
  cases hf : t.find? e with
  | none => rw [fillFound_of_none slot hf, readSlot?_eq_none hslot]
  | some id => exact h.readSlot?_of_find? slot hf

end TypeSystem

end FrontEnd
