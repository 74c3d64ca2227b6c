import FrontEnd.Typing.System
import Mathlib.Data.Nat.Find
import Mathlib.Logic.Relation
import Mathlib.Order.Bounds.Basic

/-!
# The arena of a type system

Whatever types are created and whatever fields are added, the arena and its tables agree.

* `TypeSystem.WellFormed` is the invariant: the two tables say what the arena holds, and an element
  comes before the type that is made of it.
* `WellFormed.intern`, `WellFormed.newStruct`, `WellFormed.addField`: each operation keeps it.
* `TypeSystem.Keeps`: what a type is does not change, but for the fields of a structure.
* `TypeSystem.Writes` writes a type as text without a bound on its depth; `WellFormed.writes` says
  that this comes to an end, though structures may refer to each other in a circle.
* `Session` is a type system with the types that it has given out, and `Session.Steps` one operation
  on them; `session_invariant` holds after any number of steps.
-/

set_option autoImplicit false

namespace FrontEnd

namespace TypeDesc

/-- The type that an array or a pointer is made of. -/
def element? : TypeDesc → Option TypeId
  | array element _ => some element
  | pointer element => some element
  | _ => none

/-- The text of a type, given the text of its element. -/
def textWith (element : String) : TypeDesc → String
  | struct s => s.name
  | int width signed => (if signed then "int" else "uint") ++ Nat.repr width.bits
  | float width => "float" ++ Nat.repr width.bits
  | bool => "bool"
  | char => "char"
  | unit => "()"
  | array _ size => "[" ++ element ++ "; " ++ Nat.repr size.toNat ++ "]"
  | pointer _ => "*" ++ element
  | void => "void"
  | unknown => "\x7bunknown\x7d"

end TypeDesc

theorem lookup_cons_ite {α β : Type} [DecidableEq α] (a b : α) (v : β) (es : List (α × β)) :
    ((a, v) :: es).lookup b = if b = a then some v else es.lookup b := by
  rw [List.lookup_cons]
  by_cases h : b = a
  · simp [h]
  · simp [h, beq_eq_false_iff_ne.mpr h]

namespace TypeSystem

variable {t t' : TypeSystem} {id : TypeId} {d : TypeDesc} {name : String}

/-- A structure with this name has this index. -/
def IsStruct (t : TypeSystem) (name : String) (id : TypeId) : Prop :=
  ∃ s, t.get? id = some (.struct s) ∧ s.name = name

/-- The tables say what the arena holds, and an element comes before what is made of it. -/
structure WellFormed (t : TypeSystem) : Prop where
  interned : ∀ d id, t.interned.lookup d = some id ↔ t.get? id = some d ∧ d.struct? = none
  elements : ∀ {id d element}, t.get? id = some d → d.element? = some element → element < id
  structs : ∀ name id, t.structs.lookup name = some id ↔ IsLeast {i | t.IsStruct name i} id

/-- A type system without types. -/
def fresh (stamp : Nat) : TypeSystem := ⟨#[], [], [], stamp⟩

theorem start_eq_fresh (s : StampSupply) : s.start.1 = fresh s.next := rfl

theorem lt_size (h : t.get? id = some d) : id < t.size :=
  (Array.getElem?_eq_some_iff.mp h).1

theorem get?_of_lt (h : id < t.size) : ∃ d, t.get? id = some d :=
  ⟨t.types[id], Array.getElem?_eq_getElem h⟩

theorem wellFormed_fresh (stamp : Nat) : (fresh stamp).WellFormed where
  interned d id := by simp [fresh, get?]
  elements h := by simp [fresh, get?] at h
  structs name id := by simp [fresh, IsStruct, get?, IsLeast]

namespace WellFormed

/-- A type that is no structure is in the arena once. -/
theorem unique (h : t.WellFormed) {i j : TypeId} (hi : t.get? i = some d) (hj : t.get? j = some d)
    (hd : d.struct? = none) : i = j := by
  have hi' := (h.interned d i).mpr ⟨hi, hd⟩
  rw [(h.interned d j).mpr ⟨hj, hd⟩] at hi'
  exact (Option.some.inj hi').symm

theorem get?_of_findStruct? (h : t.WellFormed) (hn : t.findStruct? name = some id) :
    t.IsStruct name id :=
  ((h.structs name id).mp hn).1

/-- A structure in the arena has its name in the table. -/
theorem exists_findStruct? (h : t.WellFormed) (hs : t.IsStruct name id) :
    ∃ first, t.findStruct? name = some first := by
  classical
  have hex : ∃ i, t.IsStruct name i := ⟨id, hs⟩
  exact ⟨Nat.find hex, (h.structs name _).mpr
    ⟨Nat.find_spec hex, fun i hi => Nat.find_min' hex hi⟩⟩

end WellFormed

/-! ## Adding a type -/

@[simp] theorem size_push (t : TypeSystem) (d : TypeDesc) : (t.push d).2.size = t.size + 1 := by
  simp [push, size]

theorem get?_push (t : TypeSystem) (d : TypeDesc) (id : TypeId) :
    (t.push d).2.get? id = if id = t.size then some d else t.get? id := by
  simp only [push, get?, size]
  exact Array.getElem?_push

theorem get?_push_of (h : t.get? id = some d) (new : TypeDesc) :
    (t.push new).2.get? id = some d := by
  rw [get?_push, if_neg (Nat.ne_of_lt (lt_size h)), h]

/-- A table entry for what was added keeps the table of the types that are no structures exact. -/
theorem WellFormed.interned_push (h : t.WellFormed) {new : TypeDesc} (d : TypeDesc) (id : TypeId)
    (hnew : ¬ (d = new ∧ d.struct? = none)) :
    t.interned.lookup d = some id ↔ (t.push new).2.get? id = some d ∧ d.struct? = none := by
  rw [h.interned, get?_push]
  by_cases hid : id = t.size
  · subst hid
    rw [if_pos rfl]
    refine ⟨fun hd => absurd (lt_size hd.1) (Nat.lt_irrefl _), fun hd => ?_⟩
    exact absurd ⟨(Option.some.inj hd.1).symm, hd.2⟩ hnew
  · rw [if_neg hid]

theorem WellFormed.elements_push (h : t.WellFormed) {new : TypeDesc}
    (hnew : ∀ element, new.element? = some element → element < t.size) {element : TypeId}
    (hd : (t.push new).2.get? id = some d) (he : d.element? = some element) : element < id := by
  rw [get?_push] at hd
  split at hd
  · rename_i hid
    cases hd
    exact hid ▸ hnew element he
  · exact h.elements hd he

theorem isStruct_push {new : TypeDesc} :
    (t.push new).2.IsStruct name id ↔
      (id = t.size ∧ ∃ s, new = .struct s ∧ s.name = name) ∨ t.IsStruct name id := by
  unfold IsStruct
  rw [get?_push]
  by_cases hid : id = t.size
  · subst hid
    have hnone : t.get? t.size = none := Array.getElem?_eq_none (Nat.le_refl _)
    simp [hnone]
  · simp [hid]

/-! ## Types that are no structures -/

theorem intern_of_found (h : t.interned.lookup d = some id) : t.intern d = (id, t) := by
  unfold intern
  rw [h]

theorem intern_of_missing (h : t.interned.lookup d = none) :
    t.intern d = (t.size, { (t.push d).2 with interned := (d, t.size) :: t.interned }) := by
  unfold intern
  rw [h]
  rfl

theorem WellFormed.intern (h : t.WellFormed) (hd : d.struct? = none)
    (he : ∀ element, d.element? = some element → element < t.size) :
    (t.intern d).2.WellFormed := by
  cases hl : t.interned.lookup d with
  | some id => rw [intern_of_found hl]; exact h
  | none =>
    rw [intern_of_missing hl]
    refine ⟨fun d' id => ?_, h.elements_push he, fun name id => ?_⟩
    · show ((d, t.size) :: t.interned).lookup d' = some id ↔ (t.push d).2.get? id = some d' ∧ _
      rw [lookup_cons_ite]
      by_cases hsame : d' = d
      · subst hsame
        have hnone : ∀ i, t.get? i ≠ some d' := by
          intro i hi
          rw [(h.interned d' i).mpr ⟨hi, hd⟩] at hl
          cases hl
        rw [if_pos rfl, get?_push]
        by_cases hid : id = t.size
        · simp [hid, hd]
        · simp [hid, hnone id, eq_comm]
      · rw [if_neg hsame]
        exact h.interned_push d' id fun hboth => hsame hboth.1
    · show t.structs.lookup name = some id ↔ IsLeast {i | (t.push d).2.IsStruct name i} id
      rw [h.structs]
      have hset : {i | (t.push d).2.IsStruct name i} = {i | t.IsStruct name i} := by
        ext i
        show (t.push d).2.IsStruct name i ↔ t.IsStruct name i
        rw [isStruct_push]
        refine ⟨fun hi => hi.resolve_left ?_, .inr⟩
        rintro ⟨_, s, rfl, _⟩
        cases hd
      rw [hset]

/-- What is asked for is in the arena after it, at the index that is given. -/
theorem WellFormed.get?_intern (h : t.WellFormed) :
    (t.intern d).2.get? (t.intern d).1 = some d := by
  cases hl : t.interned.lookup d with
  | some id =>
    rw [intern_of_found hl]
    exact ((h.interned d id).mp hl).1
  | none =>
    rw [intern_of_missing hl]
    show (t.push d).2.get? t.size = some d
    rw [get?_push, if_pos rfl]

theorem get?_intern_of (h : t.get? id = some d) (new : TypeDesc) :
    (t.intern new).2.get? id = some d := by
  cases hl : t.interned.lookup new with
  | some first => rw [intern_of_found hl]; exact h
  | none => rw [intern_of_missing hl]; exact get?_push_of h new

@[simp] theorem structs_intern (t : TypeSystem) (d : TypeDesc) :
    (t.intern d).2.structs = t.structs := by
  cases hl : t.interned.lookup d with
  | some first => rw [intern_of_found hl]
  | none => rw [intern_of_missing hl]; rfl

@[simp] theorem stamp_intern (t : TypeSystem) (d : TypeDesc) :
    (t.intern d).2.stamp = t.stamp := by
  cases hl : t.interned.lookup d with
  | some first => rw [intern_of_found hl]
  | none => rw [intern_of_missing hl]; rfl

/-! ## Structures -/

theorem newStruct_of_found {first : TypeId} (h : t.structs.lookup name = some first) :
    t.newStruct name = (t.size, (t.push (.struct (.ofName name))).2) := by
  unfold newStruct
  dsimp only [push]
  rw [h]
  rfl

theorem newStruct_of_missing (h : t.structs.lookup name = none) :
    t.newStruct name = (t.size,
      { (t.push (.struct (.ofName name))).2 with structs := (name, t.size) :: t.structs }) := by
  unfold newStruct
  dsimp only [push]
  rw [h]
  rfl

theorem get?_newStruct (t : TypeSystem) (name : String) (id : TypeId) :
    (t.newStruct name).2.get? id = (t.push (.struct (.ofName name))).2.get? id := by
  cases hl : t.structs.lookup name with
  | some first => rw [newStruct_of_found hl]
  | none => rw [newStruct_of_missing hl]; rfl

theorem size_newStruct (t : TypeSystem) (name : String) :
    (t.newStruct name).1 = t.size ∧ (t.newStruct name).2.size = t.size + 1 := by
  cases hl : t.structs.lookup name with
  | some first => rw [newStruct_of_found hl]; exact ⟨rfl, size_push t _⟩
  | none => rw [newStruct_of_missing hl]; exact ⟨rfl, size_push t _⟩

theorem findStruct?_newStruct (h : t.findStruct? name = none) (other : String) :
    (t.newStruct name).2.findStruct? other =
      if other = name then some t.size else t.findStruct? other := by
  rw [newStruct_of_missing h]
  exact lookup_cons_ite name other t.size t.structs

/-- A later index does not change which is the least. -/
theorem isLeast_or_later {S : Set TypeId} {n id : TypeId} {p : Prop}
    (hearlier : p → ∃ first ∈ S, first < n) :
    IsLeast {i | (i = n ∧ p) ∨ i ∈ S} id ↔ IsLeast S id := by
  constructor
  · rintro ⟨hid | hid, hleast⟩
    · obtain ⟨first, hfirst, hlt⟩ := hearlier hid.2
      exact absurd (hid.1 ▸ hleast (.inr hfirst)) (Nat.not_le_of_lt hlt)
    · exact ⟨hid, fun i hi => hleast (.inr hi)⟩
  · rintro ⟨hid, hleast⟩
    refine ⟨.inr hid, ?_⟩
    rintro i (⟨rfl, hp⟩ | hi)
    · obtain ⟨first, hfirst, hlt⟩ := hearlier hp
      exact Nat.le_trans (hleast hfirst) (Nat.le_of_lt hlt)
    · exact hleast hi

theorem WellFormed.newStruct (h : t.WellFormed) (name : String) :
    (t.newStruct name).2.WellFormed := by
  have hinterned : ∀ d id, t.interned.lookup d = some id ↔
      (t.push (.struct (.ofName name))).2.get? id = some d ∧ d.struct? = none := by
    intro d id
    refine h.interned_push d id ?_
    rintro ⟨rfl, hd⟩
    cases hd
  have helements : ∀ {id d element}, (t.push (.struct (.ofName name))).2.get? id = some d →
      d.element? = some element → element < id :=
    h.elements_push fun element he => by cases he
  have hset : ∀ other, {i | (t.push (.struct (.ofName name))).2.IsStruct other i} =
      {i | (i = t.size ∧ name = other) ∨ i ∈ {i | t.IsStruct other i}} := by
    intro other
    ext i
    show (t.push _).2.IsStruct other i ↔ _
    rw [isStruct_push]
    refine or_congr_left (and_congr_right fun _ => ?_)
    exact ⟨fun ⟨s, hs, hname⟩ => by cases hs; exact hname, fun hname => ⟨_, rfl, hname⟩⟩
  cases hl : t.structs.lookup name with
  | some first =>
    rw [newStruct_of_found hl]
    refine ⟨hinterned, helements, fun other id => ?_⟩
    show t.structs.lookup other = some id ↔ IsLeast {i | (t.push _).2.IsStruct other i} id
    rw [h.structs, hset, isLeast_or_later]
    rintro rfl
    obtain ⟨s, hs, hname⟩ := h.get?_of_findStruct? hl
    exact ⟨first, ⟨s, hs, hname⟩, lt_size hs⟩
  | none =>
    rw [newStruct_of_missing hl]
    refine ⟨hinterned, helements, fun other id => ?_⟩
    show ((name, t.size) :: t.structs).lookup other = some id ↔
      IsLeast {i | (t.push _).2.IsStruct other i} id
    rw [lookup_cons_ite, hset]
    by_cases hother : other = name
    · -- no structure had the name, so the new one is the only one
      subst hother
      have hnone : ∀ i, ¬ t.IsStruct other i := by
        intro i hi
        obtain ⟨first, hfirst⟩ := h.exists_findStruct? hi
        rw [findStruct?, hl] at hfirst
        cases hfirst
      have hsingle : {i | (i = t.size ∧ other = other) ∨ i ∈ {i | t.IsStruct other i}} =
          {t.size} := by
        ext i
        simp [hnone i]
      rw [if_pos rfl, hsingle, Option.some.injEq]
      exact ⟨fun hid => hid ▸ isLeast_singleton, fun hid => hid.unique isLeast_singleton |>.symm⟩
    · rw [if_neg hother, h.structs, isLeast_or_later]
      exact fun hname => absurd hname.symm hother

/-! ## Fields -/

theorem addField_of_struct {s : StructType} (h : t.get? id = some (.struct s)) (field : String)
    (type : TypeId) :
    t.addField id field type =
      (.ok (),
        { t with types := t.types.setIfInBounds id (.struct (s.addField field type).2) }) := by
  unfold addField
  rw [h]

/-- **A field of what is no structure is refused, and nothing changes.** -/
theorem addField_of_not_struct (h : ∀ s, t.get? id ≠ some (.struct s)) (field : String)
    (type : TypeId) :
    t.addField id field type = (.error (.notAStruct field (t.text id)), t) := by
  unfold addField
  split
  · rename_i s hs
    exact absurd hs (h s)
  · rfl

theorem get?_addField {s : StructType} (h : t.get? id = some (.struct s)) (field : String)
    (type i : TypeId) :
    (t.addField id field type).2.get? i =
      if i = id then some (.struct (s.addField field type).2) else t.get? i := by
  rw [addField_of_struct h]
  show (t.types.setIfInBounds id _)[i]? = _
  rw [Array.getElem?_setIfInBounds]
  by_cases hi : i = id
  · subst hi
    have hlt : i < t.types.size := lt_size h
    rw [if_pos rfl, if_pos hlt, if_pos rfl]
  · rw [if_neg (Ne.symm hi), if_neg hi]
    rfl

theorem WellFormed.addField (h : t.WellFormed) (id : TypeId) (field : String) (type : TypeId) :
    (t.addField id field type).2.WellFormed := by
  by_cases hstruct : ∃ s, t.get? id = some (.struct s)
  · obtain ⟨s, hs⟩ := hstruct
    have hshared : ∀ {d}, d.struct? = none → ∀ i,
        (t.addField id field type).2.get? i = some d ↔ t.get? i = some d := by
      intro d hd i
      rw [get?_addField hs]
      by_cases hi : i = id
      · subst hi
        rw [if_pos rfl, hs]
        constructor <;>
          · intro heq
            cases heq
            cases hd
      · rw [if_neg hi]
    have hset : ∀ name, {i | (t.addField id field type).2.IsStruct name i} =
        {i | t.IsStruct name i} := by
      intro name
      ext i
      show (t.addField id field type).2.IsStruct name i ↔ t.IsStruct name i
      unfold IsStruct
      rw [get?_addField hs]
      by_cases hi : i = id
      · subst hi
        rw [if_pos rfl, hs]
        simp [StructType.addField]
      · rw [if_neg hi]
    have htables : (t.addField id field type).2.interned = t.interned ∧
        (t.addField id field type).2.structs = t.structs := by
      rw [addField_of_struct hs]
      exact ⟨rfl, rfl⟩
    refine ⟨fun d i => ?_, fun {i d element} hd he => ?_, fun name i => ?_⟩
    · rw [htables.1, h.interned]
      exact and_congr_left fun hd => (hshared hd i).symm
    · have hnone : d.struct? = none := by
        cases d <;> first | rfl | cases he
      exact h.elements ((hshared hnone i).mp hd) he
    · rw [htables.2, h.structs, hset]
  · rw [addField_of_not_struct fun s hs => hstruct ⟨s, hs⟩]
    exact h

/-! ## What stays -/

/-- What a type is does not change, but for the fields of a structure. -/
structure Keeps (t t' : TypeSystem) : Prop where
  shared : ∀ {id d}, t.get? id = some d → d.struct? = none → t'.get? id = some d
  struct : ∀ {id s}, t.get? id = some (.struct s) →
    ∃ s', t'.get? id = some (.struct s') ∧ s'.name = s.name

theorem Keeps.refl (t : TypeSystem) : t.Keeps t :=
  ⟨fun h _ => h, fun h => ⟨_, h, rfl⟩⟩

theorem Keeps.trans {t'' : TypeSystem} (h : t.Keeps t') (h' : t'.Keeps t'') : t.Keeps t'' where
  shared hd hnone := h'.shared (h.shared hd hnone) hnone
  struct hs := by
    obtain ⟨s', hs', hname⟩ := h.struct hs
    obtain ⟨s'', hs'', hname'⟩ := h'.struct hs'
    exact ⟨s'', hs'', hname'.trans hname⟩

theorem Keeps.of_get? (h : ∀ {id d}, t.get? id = some d → t'.get? id = some d) : t.Keeps t' :=
  ⟨fun hd _ => h hd, fun hs => ⟨_, h hs, rfl⟩⟩

theorem Keeps.size_le (h : t.Keeps t') : t.size ≤ t'.size := by
  by_contra hlt
  obtain ⟨d, hd⟩ := get?_of_lt (Nat.lt_of_not_le hlt)
  have hnone : ∀ d', t'.get? t'.size ≠ some d' := fun d' hd' => Nat.lt_irrefl _ (lt_size hd')
  cases d with
  | struct s =>
    obtain ⟨s', hs', _⟩ := h.struct hd
    exact hnone _ hs'
  | _ => exact hnone _ (h.shared hd rfl)

theorem keeps_intern (t : TypeSystem) (d : TypeDesc) : t.Keeps (t.intern d).2 :=
  .of_get? fun h => get?_intern_of h d

theorem keeps_newStruct (t : TypeSystem) (name : String) : t.Keeps (t.newStruct name).2 :=
  .of_get? fun h => by rw [get?_newStruct]; exact get?_push_of h _

theorem keeps_addField (t : TypeSystem) (id : TypeId) (field : String) (type : TypeId) :
    t.Keeps (t.addField id field type).2 := by
  by_cases hstruct : ∃ s, t.get? id = some (.struct s)
  · obtain ⟨s, hs⟩ := hstruct
    refine ⟨fun {i d} hd hnone => ?_, fun {i s'} hs' => ?_⟩
    · rw [get?_addField hs, if_neg, hd]
      rintro rfl
      rw [hs] at hd
      cases hd
      cases hnone
    · rw [get?_addField hs]
      by_cases hi : i = id
      · subst hi
        rw [hs] at hs'
        cases hs'
        exact ⟨_, if_pos rfl, rfl⟩
      · exact ⟨s', by rw [if_neg hi, hs'], rfl⟩
  · rw [addField_of_not_struct fun s hs => hstruct ⟨s, hs⟩]
    exact .refl t

/-! ## Text -/

/-- A type written as text: what it is made of is written first. -/
inductive Writes (t : TypeSystem) : TypeId → String → Prop where
  | plain {id : TypeId} {d : TypeDesc} (h : t.get? id = some d) (he : d.element? = none) :
      Writes t id (d.textWith "")
  | nested {id element : TypeId} {d : TypeDesc} {text : String} (h : t.get? id = some d)
      (he : d.element? = some element) (htext : Writes t element text) :
      Writes t id (d.textWith text)

theorem textAt_succ (depth : Nat) (h : t.get? id = some d) :
    t.textAt (depth + 1) id =
      d.textWith ((d.element?.map fun element => t.textAt depth element).getD "") := by
  rw [textAt, h]
  cases d <;> rfl

/-- A type is nested no deeper than its index. -/
theorem WellFormed.writes_textAt (h : t.WellFormed) :
    ∀ depth id : Nat, id < depth → id < t.size → t.Writes id (t.textAt depth id) := by
  intro depth
  induction depth with
  | zero => intro id hdepth; omega
  | succ depth ih =>
    intro id hdepth hsize
    obtain ⟨d, hd⟩ := get?_of_lt hsize
    rw [textAt_succ depth hd]
    cases he : d.element? with
    | none => exact .plain hd he
    | some element =>
      have hlt := h.elements hd he
      exact .nested hd he (ih element (Nat.lt_of_lt_of_le hlt (Nat.le_of_lt_succ hdepth))
        (Nat.lt_trans hlt hsize))

/-- **Every type is written in finitely many steps.** -/
theorem WellFormed.writes (h : t.WellFormed) (hid : id < t.size) : t.Writes id (t.text id) :=
  h.writes_textAt (id + 1) id (Nat.lt_succ_self id) hid

end TypeSystem

/-! ## Sessions -/

/-- What can be asked of a type system. -/
inductive TypeOperation where
  | newStruct (name : String)
  | newInt (width : IntWidth) (signed : Bool)
  | newFloat (width : FloatWidth)
  | newBool
  | newChar
  | newUnit
  | newVoid
  | newUnknown
  | newArray (element : TypeId) (size : UInt64)
  | newPointer (element : TypeId)
  | addField (target : TypeId) (name : String) (field : TypeId)

/-- The types that an operation is about. -/
def TypeOperation.operands : TypeOperation → List TypeId
  | newArray element _ => [element]
  | newPointer element => [element]
  | addField target _ field => [target, field]
  | _ => []

/-- A type system and the types it has given out. -/
structure Session where
  types : TypeSystem
  issued : List TypeId

namespace Session

open TypeSystem

/-- A type system that was just started. -/
def start (stamp : Nat) : Session := ⟨.fresh stamp, []⟩

/-- A type is given out. -/
def issue (s : Session) (created : TypeId × TypeSystem) : Session :=
  ⟨created.2, created.1 :: s.issued⟩

/-- One operation. -/
def perform (s : Session) : TypeOperation → Session
  | .newStruct name => s.issue (s.types.newStruct name)
  | .newInt width signed => s.issue (s.types.internInt width signed)
  | .newFloat width => s.issue (s.types.intern (.float width))
  | .newBool => s.issue (s.types.intern .bool)
  | .newChar => s.issue (s.types.intern .char)
  | .newUnit => s.issue (s.types.intern .unit)
  | .newVoid => s.issue (s.types.intern .void)
  | .newUnknown => s.issue (s.types.intern .unknown)
  | .newArray element size => s.issue (s.types.internArray element size)
  | .newPointer element => s.issue (s.types.internPointer element)
  | .addField target name field => { s with types := (s.types.addField target name field).2 }

/-- One operation on types that the type system has given out. -/
def Steps (s s' : Session) : Prop :=
  ∃ operation : TypeOperation,
    (∀ id ∈ operation.operands, id ∈ s.issued) ∧ s' = s.perform operation

/-- The type system is in order, and what it has given out are its types. -/
structure Valid (s : Session) : Prop where
  wellFormed : s.types.WellFormed
  issued : ∀ id ∈ s.issued, id < s.types.size

variable {s s' : Session}

theorem valid_start (stamp : Nat) : (start stamp).Valid :=
  ⟨wellFormed_fresh stamp, fun _ hid => absurd hid List.not_mem_nil⟩

theorem Valid.issue (h : s.Valid) {created : TypeId × TypeSystem} (hw : created.2.WellFormed)
    (hk : s.types.Keeps created.2) (hid : created.1 < created.2.size) :
    (s.issue created).Valid := by
  refine ⟨hw, fun id hmem => ?_⟩
  rcases List.mem_cons.mp hmem with rfl | hmem
  · exact hid
  · exact Nat.lt_of_lt_of_le (h.issued id hmem) hk.size_le

theorem Valid.intern (h : s.Valid) {d : TypeDesc} (hd : d.struct? = none)
    (he : ∀ element, d.element? = some element → element ∈ s.issued) :
    (s.issue (s.types.intern d)).Valid ∧ s.types.Keeps (s.types.intern d).2 := by
  have hw := h.wellFormed.intern hd fun element hel => h.issued element (he element hel)
  have hk := keeps_intern s.types d
  exact ⟨h.issue hw hk (lt_size h.wellFormed.get?_intern), hk⟩

/-- A type that is made of no other asks for nothing. -/
theorem Valid.internPlain (h : s.Valid) {d : TypeDesc} (hd : d.struct? = none)
    (he : d.element? = none) :
    (s.issue (s.types.intern d)).Valid ∧ s.types.Keeps (s.types.intern d).2 :=
  h.intern hd fun element hel => by rw [he] at hel; cases hel

/-- **An operation keeps the type system in order**, and changes no type but for its fields. -/
theorem Valid.perform (h : s.Valid) {operation : TypeOperation}
    (hids : ∀ id ∈ operation.operands, id ∈ s.issued) :
    (s.perform operation).Valid ∧ s.types.Keeps (s.perform operation).types := by
  cases operation with
  | newStruct name =>
    have hk := keeps_newStruct s.types name
    obtain ⟨hid, hsize⟩ := size_newStruct s.types name
    exact ⟨h.issue (h.wellFormed.newStruct name) hk (by rw [hid, hsize]; exact Nat.lt_succ_self _),
      hk⟩
  | newInt _ _ | newFloat _ | newBool | newChar | newUnit | newVoid | newUnknown =>
    exact h.internPlain rfl rfl
  | newArray element size =>
    refine h.intern rfl fun e he => ?_
    cases he
    exact hids element List.mem_cons_self
  | newPointer element =>
    refine h.intern rfl fun e he => ?_
    cases he
    exact hids element List.mem_cons_self
  | addField target name field =>
    have hk := keeps_addField s.types target name field
    exact ⟨⟨h.wellFormed.addField target name field,
      fun id hid => Nat.lt_of_lt_of_le (h.issued id hid) hk.size_le⟩, hk⟩

/-- What holds after one operation holds after any number of them. -/
theorem Valid.steps (h : s.Valid) (hsteps : Relation.ReflTransGen Steps s s') :
    s'.Valid ∧ s.types.Keeps s'.types := by
  induction hsteps with
  | refl => exact ⟨h, .refl _⟩
  | tail _ hstep ih =>
    obtain ⟨operation, hids, rfl⟩ := hstep
    obtain ⟨hvalid, hkeeps⟩ := ih.1.perform hids
    exact ⟨hvalid, ih.2.trans hkeeps⟩

end Session

/-- **The arena and its tables agree after any operations on one type system.** No two types that
are no structures are equal, the tables hold exactly what is in the arena, an element comes before
what is made of it and so every type can be written, later operations change nothing but the fields
of structures, and a field of anything else is refused without effect. -/
theorem session_invariant {stamp : Nat} {s : Session}
    (h : Relation.ReflTransGen Session.Steps (Session.start stamp) s) :
    s.types.WellFormed ∧
      (∀ i j d, s.types.get? i = some d → s.types.get? j = some d → d.struct? = none → i = j) ∧
      (∀ id < s.types.size, s.types.Writes id (s.types.text id)) ∧
      (∀ s', Relation.ReflTransGen Session.Steps s s' → s.types.Keeps s'.types) ∧
      ∀ target, (∀ struct, s.types.get? target ≠ some (.struct struct)) →
        ∀ name field, s.types.addField target name field =
          (.error (.notAStruct name (s.types.text target)), s.types) := by
  have hvalid := ((Session.valid_start stamp).steps h).1
  exact ⟨hvalid.wellFormed, fun _ _ _ => hvalid.wellFormed.unique,
    fun _ => hvalid.wellFormed.writes, fun _ hsteps => (hvalid.steps hsteps).2,
    fun _ hno name field => TypeSystem.addField_of_not_struct hno name field⟩

/-- A structure with a field that points to it. -/
def linkedList : Session :=
  ((((Session.start 1).perform (.newStruct "List")).perform (.newPointer 0)).perform
    (.addField 0 "next" 1))

theorem session_invariant_linkedList :
    Relation.ReflTransGen Session.Steps (Session.start 1) linkedList ∧
      linkedList.types.field? 0 "next" = some 1 ∧ linkedList.types.text 1 = "*List" ∧
      linkedList.types.WellFormed ∧
      (∀ id < linkedList.types.size, linkedList.types.Writes id (linkedList.types.text id)) ∧
      linkedList.types.addField 1 "next" 0 =
        (.error (.notAStruct "next" (linkedList.types.text 1)), linkedList.types) := by
  have h : Relation.ReflTransGen Session.Steps (Session.start 1) linkedList :=
    ((Relation.ReflTransGen.single ⟨.newStruct "List", by decide, rfl⟩).tail
      ⟨.newPointer 0, by decide, rfl⟩).tail ⟨.addField 0 "next" 1, by decide, rfl⟩
  obtain ⟨hwell, _, hwrites, _, hrefused⟩ := session_invariant h
  have hpointer : linkedList.types.get? 1 = some (.pointer 0) := rfl
  refine ⟨h, rfl, by decide, hwell, hwrites, hrefused 1 (fun s hs => ?_) "next" 0⟩
  rw [hpointer] at hs
  cases hs

end FrontEnd
