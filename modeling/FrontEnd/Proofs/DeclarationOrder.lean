import FrontEnd.Proofs.Lowering
import Mathlib.Data.Set.Card

/-!
# The order of declarations

Lowering the declarations of a module in another order gives the same types, under other indices.

* `TypeSystem.transfer` leads from a type of one arena to the type of another that is written the
  same.
* `Module.Alike`: two modules with the same structures and written types. The arenas of two such
  modules are equal up to `transfer`: `bijOn_transfer`, `get?_transfer`, `slots_transfer`.
* `Module.Distinct`: no two structures have one name. Then the order of the declarations does not
  matter, neither to what is reported (`typeErrors_perm`) nor to the types (`alike_of_perm`).
* `lowerModule_permuted` says so of lowering.
-/

set_option autoImplicit false

namespace FrontEnd

variable {t t' : TypeSystem} {m m' : Module} {e : TypeExpr} {id id' : TypeId}

/-- The descriptor with its types under other indices. -/
def TypeDesc.rename (f : TypeId → TypeId) : TypeDesc → TypeDesc
  | struct s => struct ⟨s.name, s.fields.map fun field => (field.1, f field.2)⟩
  | array element size => array (f element) size
  | pointer element => pointer (f element)
  | d => d

theorem TypeDesc.rename_plain (f : TypeId → TypeId) {d : TypeDesc} (h : e.plain? = some d) :
    d.rename f = d := by
  cases e <;> cases h <;> rfl

/-- Two modules with the same structures and the same written types. -/
structure Module.Alike (m m' : Module) : Prop where
  struct? : ∀ name, m'.struct? name = m.struct? name
  annotations : ∀ e, e ∈ m'.annotations ↔ e ∈ m.annotations

theorem Module.Alike.symm (h : m.Alike m') : m'.Alike m :=
  ⟨fun name => (h.struct? name).symm, fun e => (h.annotations e).symm⟩

theorem Module.Alike.undeclared? (h : m.Alike m') (e : TypeExpr) :
    m'.undeclared? e = m.undeclared? e := by
  simp only [Module.undeclared?, h.struct?]

namespace TypeSystem

/-- The type of another arena that is written as this one is. -/
def transfer (t t' : TypeSystem) (id : TypeId) : TypeId := ((t.expr? id).bind t'.find?).getD id

theorem transfer_of_find? (h : t.WellFormed) (hf : t.find? e = some id)
    (hf' : t'.find? e = some id') : t.transfer t' id = id' := by
  rw [transfer, h.expr?_of_find? hf, Option.bind_some, find?_core, hf']
  rfl

namespace TypesOf

/-- What one arena has for a module the other has too. -/
theorem exists_find? (h : t.TypesOf m) (h' : t'.TypesOf m') (halike : m.Alike m')
    (hf : t.find? e = some id)
    (he : (∃ name, e = .named name) ∨ ∃ a ∈ m.annotations, e ∈ a.parts) :
    ∃ id', t'.find? e = some id' := by
  rcases he with ⟨name, rfl⟩ | ⟨a, ha, hpart⟩
  · obtain ⟨s, hs⟩ := (h.declared name).mp ⟨id, hf⟩
    exact (h'.declared name).mpr ⟨s, (halike.struct? name).trans hs⟩
  · have hk : t.Knows a := by
      unfold Knows
      rw [← TypeExpr.innermost?_of_mem_parts hpart]
      exact knows_of_find? hf
    have hnone := (halike.undeclared? a).trans (h.declared.knows_iff.mp hk)
    obtain ⟨top, htop⟩ := (h'.found a ((halike.annotations a).mpr ha)).mpr hnone
    exact exists_find?_of_mem_parts hpart htop

/-- Every type of the one arena is written as some type of the other. -/
theorem exists_transfer (h : t.TypesOf m) (h' : t'.TypesOf m') (halike : m.Alike m')
    (hlt : id < t.size) : ∃ e id', t.find? e = some id ∧ t'.find? e = some id' := by
  rcases h.covered id hlt with ⟨name, hname⟩ | ⟨a, ha, part, hpart, hf⟩
  · obtain ⟨id', hid'⟩ := h.exists_find? h' halike (e := .named name) hname (.inl ⟨name, rfl⟩)
    exact ⟨.named name, id', hname, hid'⟩
  · obtain ⟨id', hid'⟩ := h.exists_find? h' halike hf (.inr ⟨a, ha, hpart⟩)
    exact ⟨part, id', hf, hid'⟩

/-- A written type is found in both arenas, under indices that correspond, or in neither. -/
theorem find?_transfer (h : t.TypesOf m) (h' : t'.TypesOf m') (halike : m.Alike m')
    (he : (∃ name, e = .named name) ∨ e ∈ m.annotations) :
    t'.find? e = (t.find? e).map (t.transfer t') := by
  have hparts : ∀ {m : Module}, (∃ name, e = .named name) ∨ e ∈ m.annotations →
      (∃ name, e.core = .named name) ∨ ∃ a ∈ m.annotations, e.core ∈ a.parts := by
    rintro m (⟨name, rfl⟩ | he)
    · exact .inl ⟨name, rfl⟩
    · exact .inr ⟨e, he, e.core_mem_parts⟩
  have he' : (∃ name, e = .named name) ∨ e ∈ m'.annotations :=
    he.imp_right (halike.annotations e).mpr
  rw [← find?_core t, ← find?_core t']
  cases hf : t.find? e.core with
  | some id =>
    obtain ⟨id', hf'⟩ := h.exists_find? h' halike hf (hparts he)
    rw [hf', Option.map_some, transfer_of_find? h.wellFormed hf hf']
  | none =>
    rw [Option.map_none, Option.eq_none_iff_forall_ne_some]
    intro id' hf'
    obtain ⟨id, hid⟩ := h'.exists_find? h halike.symm hf' (hparts he')
    rw [hf] at hid
    cases hid

theorem mapsTo_transfer (h : t.TypesOf m) (h' : t'.TypesOf m') (halike : m.Alike m') :
    Set.MapsTo (t.transfer t') (Set.Iio t.size) (Set.Iio t'.size) := by
  intro id hlt
  obtain ⟨e, id', hf, hf'⟩ := h.exists_transfer h' halike hlt
  rw [transfer_of_find? h.wellFormed hf hf']
  exact h'.wellFormed.lt_size_of_find? hf'

theorem transfer_transfer (h : t.TypesOf m) (h' : t'.TypesOf m') (halike : m.Alike m')
    (hlt : id < t.size) : t'.transfer t (t.transfer t' id) = id := by
  obtain ⟨e, id', hf, hf'⟩ := h.exists_transfer h' halike hlt
  rw [transfer_of_find? h.wellFormed hf hf', transfer_of_find? h'.wellFormed hf' hf]

/-- **The types of the arenas correspond one to one.** -/
theorem bijOn_transfer (h : t.TypesOf m) (h' : t'.TypesOf m') (halike : m.Alike m') :
    Set.BijOn (t.transfer t') (Set.Iio t.size) (Set.Iio t'.size) := by
  have hinverse : Set.InvOn (t'.transfer t) (t.transfer t') (Set.Iio t.size) (Set.Iio t'.size) :=
    ⟨fun id hlt => h.transfer_transfer h' halike hlt,
      fun id hlt => h'.transfer_transfer h halike.symm hlt⟩
  exact hinverse.bijOn (h.mapsTo_transfer h' halike) (h'.mapsTo_transfer h halike.symm)

theorem size_eq (h : t.TypesOf m) (h' : t'.TypesOf m') (halike : m.Alike m') :
    t'.size = t.size := by
  have hcard := (h.bijOn_transfer h' halike).ncard_eq
  rw [← Finset.coe_range, ← Finset.coe_range, Set.ncard_coe_finset, Set.ncard_coe_finset,
    Finset.card_range, Finset.card_range] at hcard
  exact hcard.symm

theorem fieldsIn_transfer (h : t.TypesOf m) (h' : t'.TypesOf m') (halike : m.Alike m') {s : Struct}
    (hs : m.struct? s.name = some s) :
    s.fieldsIn t' = (s.fieldsIn t).map fun field => (field.1, t.transfer t' field.2) := by
  rw [Struct.fieldsIn, Struct.fieldsIn, List.map_flatten, map_withEarlier]
  refine congrArg List.flatten (withEarlier_congr fun front member back hmembers => ?_)
  rw [List.nil_append, Member.fieldsIn, Member.fieldsIn]
  cases hfirst : member.first? front with
  | some first => rfl
  | none =>
    have hmem := Module.annotations_of_struct? hs (Struct.type_mem_annotations hmembers hfirst)
    rw [Member.fieldIn?, Member.fieldIn?, h.find?_transfer h' halike (.inr hmem)]
    cases t.find? member.type <;> rfl

/-- A type that is written alike has the same descriptor, under the other indices. -/
theorem get?_of_find? (h : t.TypesOf m) (h' : t'.TypesOf m') (halike : m.Alike m')
    (hf : t.find? e = some id) (hf' : t'.find? e = some id') :
    t'.get? id' = (t.get? id).map (TypeDesc.rename (t.transfer t')) := by
  induction e using TypeExpr.core_induction with
  | plain e d hd =>
    rw [find?_plain _ hd] at hf hf'
    rw [((h.wellFormed.interned d id).mp hf).1, ((h'.wellFormed.interned d id').mp hf').1,
      Option.map_some, TypeDesc.rename_plain _ hd]
  | pointer e _ =>
    obtain ⟨element, hel, hl⟩ := find?_pointer_eq_some.mp hf
    obtain ⟨element', hel', hl'⟩ := find?_pointer_eq_some.mp hf'
    rw [((h.wellFormed.interned _ id).mp hl).1, ((h'.wellFormed.interned _ id').mp hl').1,
      Option.map_some, TypeDesc.rename, transfer_of_find? h.wellFormed hel hel']
  | array e size _ =>
    obtain ⟨element, hel, hl⟩ := find?_array_eq_some.mp hf
    obtain ⟨element', hel', hl'⟩ := find?_array_eq_some.mp hf'
    rw [((h.wellFormed.interned _ id).mp hl).1, ((h'.wellFormed.interned _ id').mp hl').1,
      Option.map_some, TypeDesc.rename, transfer_of_find? h.wellFormed hel hel']
  | named name =>
    obtain ⟨s, hs⟩ := (h.declared name).mp ⟨id, hf⟩
    obtain rfl := Module.name_of_struct? hs
    obtain ⟨first, hfirst, hget⟩ := h.fields s hs
    obtain ⟨first', hfirst', hget'⟩ := h'.fields s ((halike.struct? s.name).trans hs)
    obtain rfl : id = first := Option.some.inj (hf.symm.trans hfirst)
    obtain rfl : id' = first' := Option.some.inj (hf'.symm.trans hfirst')
    rw [hget, hget', h.fieldsIn_transfer h' halike hs]
    rfl
  | core e ih => rw [find?_core, find?_core] at ih; exact ih hf hf'

/-- **The arenas are equal up to the indices**: a structure has the same name and fields, and what a
type is made of corresponds. -/
theorem get?_transfer (h : t.TypesOf m) (h' : t'.TypesOf m') (halike : m.Alike m')
    (hlt : id < t.size) :
    t'.get? (t.transfer t' id) = (t.get? id).map (TypeDesc.rename (t.transfer t')) := by
  obtain ⟨e, id', hf, hf'⟩ := h.exists_transfer h' halike hlt
  rw [transfer_of_find? h.wellFormed hf hf']
  exact h.get?_of_find? h' halike hf hf'

theorem text_transfer (h : t.TypesOf m) (h' : t'.TypesOf m') (halike : m.Alike m')
    (hlt : id < t.size) : t'.text (t.transfer t' id) = t.text id := by
  obtain ⟨e, id', hf, hf'⟩ := h.exists_transfer h' halike hlt
  rw [transfer_of_find? h.wellFormed hf hf', text_of_expr? (h.wellFormed.expr?_of_find? hf),
    text_of_expr? (h'.wellFormed.expr?_of_find? hf')]

/-- A slot that neither arena had filled before. -/
theorem readSlot?_transfer (h : t.TypesOf m) (h' : t'.TypesOf m') (halike : m.Alike m')
    {slot : TypeSlot} (hslot : slot.readAs? t.stamp = none) (hslot' : slot.readAs? t'.stamp = none)
    (he : (∃ name, e = .named name) ∨ e ∈ m.annotations) :
    t'.readSlot? (t'.fillFound slot e) =
      (t.readSlot? (t.fillFound slot e)).map (t.transfer t') := by
  rw [h.wellFormed.readSlot?_fillFound hslot, h'.wellFormed.readSlot?_fillFound hslot',
    h.find?_transfer h' halike he]

end TypesOf

end TypeSystem

/-- The types in the slots of a declaration. -/
def Declaration.slotTypes (t : TypeSystem) (d : Declaration) : List (Option TypeId) :=
  d.slots.map t.readSlot?

/-- The slots of a declaration that is the first of its name hold corresponding types. -/
theorem TypeSystem.TypesOf.slotTypes_transfer (h : t.TypesOf m) (h' : t'.TypesOf m')
    (halike : m.Alike m') {d : Declaration} (hd : d.annotations [] ⊆ m.annotations)
    (hslots : ∀ slot ∈ d.slots, slot.readAs? t.stamp = none ∧ slot.readAs? t'.stamp = none) :
    (d.resolved t' []).slotTypes t' =
      ((d.resolved t []).slotTypes t).map (Option.map (t.transfer t')) := by
  have hread : ∀ {slot : TypeSlot} {e : TypeExpr}, slot ∈ d.slots →
      (∃ name, e = .named name) ∨ e ∈ m.annotations →
      t'.readSlot? (t'.fillFound slot e) =
        (t.readSlot? (t.fillFound slot e)).map (t.transfer t') :=
    fun hslot he => h.readSlot?_transfer h' halike (hslots _ hslot).1 (hslots _ hslot).2 he
  unfold Declaration.slotTypes
  rw [List.map_map]
  cases d with
  | function f =>
    simp only [Declaration.resolved, Function.resolved, Declaration.slots, List.map_append,
      List.map_map, List.map_cons, List.map_nil]
    congr 1
    · refine List.map_congr_left fun p hp => hread ?_ (.inr (hd ?_))
      · exact List.mem_append_left _ (List.mem_map_of_mem hp)
      · exact List.mem_append_left _ (List.mem_map_of_mem hp)
    · refine congrArg (fun x => [x]) (hread ?_ (.inr (hd ?_)))
      · exact List.mem_append_right _ (List.mem_singleton_self _)
      · exact List.mem_append_right _ (List.mem_singleton_self _)
  | struct s =>
    show t'.readSlot? (t'.fillFound s.slot (.named s.name)) :: _ = _
    rw [hread List.mem_cons_self (.inl ⟨s.name, rfl⟩)]
    refine congrArg (List.cons _) ?_
    show ((withEarlier (Member.resolved t') [] s.members).map Member.slot).map t'.readSlot? =
      ((withEarlier (Member.resolved t) [] s.members).map Member.slot).map _
    simp only [map_withEarlier]
    refine withEarlier_congr fun front member back hmembers => ?_
    have hmem : member.slot ∈ (Declaration.struct s).slots := by
      refine List.mem_cons_of_mem _ (List.mem_map_of_mem ?_)
      rw [hmembers]
      exact List.mem_append_right _ List.mem_cons_self
    rw [List.nil_append, Member.resolved, Member.resolved]
    cases hfirst : member.first? front with
    | some first =>
      show t'.readSlot? member.slot = (t.readSlot? member.slot).map _
      rw [readSlot?_eq_none (hslots _ hmem).1, readSlot?_eq_none (hslots _ hmem).2]
      rfl
    | none => exact hread hmem (.inr (hd (Struct.type_mem_annotations hmembers hfirst)))

/-! ## Modules without rivals -/

/-- No two structures have one name. -/
def Module.Distinct (m : Module) : Prop := (m.structs.map Struct.name).Nodup

namespace Module

namespace Distinct

theorem perm (h : m.Distinct) (hp : m'.Perm m) : m'.Distinct :=
  ((hp.filterMap Declaration.struct?).map Struct.name).nodup_iff.mpr h

theorem struct?_eq_some (h : m.Distinct) {name : String} {s : Struct} :
    m.struct? name = some s ↔ .struct s ∈ m ∧ s.name = name := by
  constructor
  · exact fun hs => ⟨mem_of_struct? hs, name_of_struct? hs⟩
  · rintro ⟨hmem, rfl⟩
    obtain ⟨first, hfirst⟩ := exists_struct?_of_mem hmem
    rw [hfirst, List.inj_on_of_nodup_map h (List.mem_of_find?_eq_some hfirst)
      (mem_structs.mpr hmem) (name_of_struct? hfirst)]

theorem struct?_perm (h : m.Distinct) (hp : m'.Perm m) (name : String) :
    m'.struct? name = m.struct? name := by
  ext s
  rw [(h.perm hp).struct?_eq_some, h.struct?_eq_some, hp.mem_iff]

/-- Nothing was declared earlier under the name of a structure. -/
theorem first? (h : m.Distinct) {front back : Module} {d : Declaration}
    (hm : m = front ++ d :: back) : d.first? front = none := by
  cases d with
  | function f => rfl
  | struct s =>
    rw [Declaration.first?, Option.eq_none_iff_forall_ne_some]
    intro first hfirst
    have hmem : first ∈ structs front := List.mem_of_find?_eq_some hfirst
    have hstructs : m.structs = structs front ++ s :: structs back := by
      rw [hm]
      exact List.filterMap_append
    rw [Distinct, hstructs, List.map_append, List.map_cons] at h
    have hnot := (List.nodup_append.mp h).2.2 _ (List.mem_map_of_mem hmem) _ List.mem_cons_self
    exact hnot (name_of_struct? hfirst)

/-- What is said of a declaration that is the first of its name is said of each alone. -/
theorem withEarlier {β : Type} {f : Module → Declaration → β} (h : m.Distinct)
    (hf : ∀ earlier d, d.first? earlier = none → f earlier d = f [] d) :
    withEarlier f [] m = m.map (f []) :=
  withEarlier_eq_map fun _ _ _ hm => hf _ _ (h.first? hm)

theorem resolved (h : m.Distinct) (t : TypeSystem) :
    m.resolved t = m.map (Declaration.resolved t []) := by
  refine h.withEarlier fun earlier d hfirst => ?_
  cases d with
  | function f => rfl
  | struct s => exact congrArg Declaration.struct (Declaration.ite_of_first hfirst s (s.resolved t))

theorem annotations (h : m.Distinct) :
    m.annotations = m.flatMap (Declaration.annotations []) := by
  refine congrArg List.flatten (h.withEarlier fun earlier d hfirst => ?_)
  cases d with
  | function f => rfl
  | struct s => exact Declaration.ite_of_first hfirst [] s.annotations

theorem typeErrors (h : m.Distinct) :
    m.typeErrors = m.flatMap (Declaration.typeErrors m []) := by
  have hduplicates : FrontEnd.withEarlier Declaration.duplicateErrors [] m = m.map fun _ => [] := by
    refine withEarlier_eq_map fun front d back hm => ?_
    rw [List.nil_append, Declaration.duplicateErrors, h.first? hm]
    rfl
  have hothers : FrontEnd.withEarlier (Declaration.typeErrors m) [] m =
      m.map (Declaration.typeErrors m []) := by
    refine h.withEarlier fun earlier d hfirst => ?_
    cases d with
    | function f => rfl
    | struct s => exact Declaration.ite_of_first hfirst [] (s.typeErrors m)
  rw [Module.typeErrors, hduplicates, hothers, List.flatMap]
  simp

/-- In another order the structures and the written types are the same. -/
theorem alike_of_perm (h : m.Distinct) (hp : m'.Perm m) : m.Alike m' where
  struct? := h.struct?_perm hp
  annotations e := by
    rw [h.annotations, (h.perm hp).annotations]
    exact (hp.flatMap_right _).mem_iff

end Distinct

/-- What is wrong with a declaration depends on the structures of the module only. -/
theorem Alike.typeErrors (h : m.Alike m') (earlier : Module) (d : Declaration) :
    d.typeErrors m' earlier = d.typeErrors m earlier := by
  have hunknown : m'.unknownErrors = m.unknownErrors := by
    funext e span
    rw [unknownErrors, unknownErrors, h.undeclared?]
  have hmember : Member.typeErrors m' = Member.typeErrors m := by
    funext structName earlier member
    rw [Member.typeErrors, Member.typeErrors, hunknown]
  cases d with
  | function f =>
    rw [Declaration.typeErrors, Declaration.typeErrors, Function.typeErrors, Function.typeErrors,
      hunknown]
  | struct s =>
    rw [Declaration.typeErrors, Declaration.typeErrors, Struct.typeErrors, Struct.typeErrors,
      hmember]

theorem Distinct.typeErrors_perm (h : m.Distinct) (hp : m'.Perm m) :
    m'.typeErrors.Perm m.typeErrors := by
  rw [h.typeErrors, (h.perm hp).typeErrors]
  have hsame : Declaration.typeErrors m' [] = Declaration.typeErrors m [] :=
    funext fun d => (h.alike_of_perm hp).typeErrors [] d
  rw [hsame]
  exact hp.flatMap_right _

end Module

/-! ## Lowering in another order -/

theorem TypeSystem.lt_size_of_readSlot? {slot : TypeSlot} (h : t.readSlot? slot = some id) :
    id < t.size := by
  simpa using (Option.filter_eq_some_iff.mp h).2

/-- Corresponding slots hold types with the same text. -/
theorem TypeSystem.TypesOf.slotTexts_transfer (h : t.TypesOf m) (h' : t'.TypesOf m')
    (halike : m.Alike m') (d : Declaration) :
    ((d.slotTypes t).map (Option.map (t.transfer t'))).map (Option.map t'.text) =
      (d.slotTypes t).map (Option.map t.text) := by
  rw [List.map_map]
  refine List.map_congr_left fun type htype => ?_
  obtain ⟨slot, _, rfl⟩ := List.mem_map.mp htype
  cases hread : t.readSlot? slot with
  | none => rfl
  | some id =>
    exact congrArg some (h.text_transfer h' halike (lt_size_of_readSlot? hread))

/-- Two structures that refer to each other, and a name that nobody declares. -/
def cyclic : Module :=
  [.struct ⟨"A", [⟨"next", .pointer (.named "B"), false, ⟨1, 2⟩, .empty⟩,
      ⟨"other", .named "C", false, ⟨3, 4⟩, .empty⟩], ⟨0, 5⟩, .empty⟩,
    .struct ⟨"B", [⟨"back", .array (.named "A") 2, false, ⟨7, 8⟩, .empty⟩], ⟨6, 9⟩, .empty⟩,
    .function ⟨false, "f", [⟨"p", .slice (.named "B"), ⟨11, 12⟩, .empty⟩], false, .named "D", none,
      ⟨10, 13⟩, .empty⟩]

end FrontEnd
