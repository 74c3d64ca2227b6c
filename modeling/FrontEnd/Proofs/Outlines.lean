import FrontEnd.Proofs.DeclarationOrder
import FrontEnd.Proofs.Stages
import Mathlib.Data.Finset.Card

/-!
# What a clean analysis reports

The summary of a source without errors, said for its declarations: which structures there are, with
which fields, and how many types are used.

* `Module.Clean` says that nothing is wrong with the types of a module; `clean_of_typeErrors` that
  this is so where no error is found.
* `Module.written` are the written types, `Module.usedTypes` those that they come to.
* `TypesOf.outlineStructs_eq`: the structures are outlined in order, each with its members.
* `TypesOf.size_eq_count`: the arena has one type for each structure and for each type used.
* `analyze_reports` is the statement for sources.
-/

set_option autoImplicit false

namespace FrontEnd

open Grammar FrontEnd.Parser

/-! ## Modules without type errors -/

/-- The types that are written in a declaration: those of its parameters and what it returns, or
those of its members. -/
def Declaration.written : Declaration → List TypeExpr
  | function f => f.params.map Parameter.type ++ [f.returnType]
  | struct s => s.members.map Member.type

namespace Module

variable {m : Module}

/-- The types that are written in the declarations, in order. -/
def written (m : Module) : List TypeExpr := m.flatMap Declaration.written

/-- Nothing is wrong with the types of a module: no two structures have one name, no two members of
a structure, and every name that a type is made of is that of a structure. -/
structure Clean (m : Module) : Prop where
  distinct : m.Distinct
  members : ∀ s, .struct s ∈ m → ∀ front member back, s.members = front ++ member :: back →
    member.first? front = none
  declared : ∀ e ∈ m.written, m.undeclared? e = none

theorem distinct_of_first? (h : ∀ front d back, m = front ++ d :: back → d.first? front = none) :
    Distinct m := by
  induction m using List.reverseRecOn with
  | nil => exact List.nodup_nil
  | append_singleton m d ih =>
    have hm : Distinct m := ih fun front d' back hsplit => by
      refine h front d' (back ++ [d]) ?_
      rw [hsplit, List.append_assoc, List.cons_append]
    have hd := h m d [] rfl
    cases d with
    | function f =>
      have hstructs : structs (m ++ [.function f]) = structs m :=
        List.filterMap_append.trans (List.append_nil _)
      rw [Distinct, hstructs]
      exact hm
    | struct s =>
      have hnew : s.name ∉ (structs m).map Struct.name := by
        intro hmem
        obtain ⟨first, hfirst, hname⟩ := List.mem_map.mp hmem
        obtain ⟨found, hfound⟩ := exists_struct?_of_mem (mem_structs.mp hfirst)
        rw [hname] at hfound
        rw [Declaration.first?, hfound] at hd
        cases hd
      have hstructs : structs (m ++ [.struct s]) = structs m ++ [s] := List.filterMap_append
      rw [Distinct, hstructs, List.map_append, List.map_singleton]
      exact List.nodup_append.mpr ⟨hm, List.nodup_singleton _, by simpa using hnew⟩

theorem undeclared?_of_unknownErrors {e : TypeExpr} {span : Span}
    (h : m.unknownErrors e span = []) : m.undeclared? e = none := by
  simpa [unknownErrors] using h

/-- Nothing is wrong with a member of a structure that has no errors. -/
theorem member_of_typeErrors {s : Struct} (h : s.typeErrors m = []) {front back : List Member}
    {member : Member} (hs : s.members = front ++ member :: back) :
    member.first? front = none ∧ m.undeclared? member.type = none := by
  have hmember : Member.typeErrors m s.name front member = [] := by
    rw [List.eq_nil_iff_forall_not_mem]
    intro e he
    have hmem : e ∈ s.typeErrors m := mem_flatten_withEarlier.mpr ⟨front, member, back, hs, he⟩
    rw [h] at hmem
    cases hmem
  unfold Member.typeErrors at hmember
  split at hmember
  · cases hmember
  · rename_i hfirst
    exact ⟨hfirst, undeclared?_of_unknownErrors hmember⟩

theorem written_of_typeErrors {d : Declaration} (h : d.typeErrors m [] = []) :
    ∀ e ∈ d.written, m.undeclared? e = none := by
  intro e he
  cases d with
  | function f =>
    obtain ⟨hparams, hreturn⟩ := List.append_eq_nil_iff.mp h
    rcases List.mem_append.mp he with he | he
    · obtain ⟨p, hp, rfl⟩ := List.mem_map.mp he
      exact undeclared?_of_unknownErrors (List.flatMap_eq_nil_iff.mp hparams p hp)
    · rw [List.mem_singleton.mp he]
      exact undeclared?_of_unknownErrors hreturn
  | struct s =>
    obtain ⟨member, hmember, rfl⟩ := List.mem_map.mp he
    obtain ⟨front, back, hs⟩ := List.append_of_mem hmember
    exact (member_of_typeErrors h hs).2

/-- **Where no error is found nothing is wrong.** -/
theorem clean_of_typeErrors (h : m.typeErrors = []) : m.Clean := by
  have hdistinct : m.Distinct := by
    refine distinct_of_first? fun front d back hm => ?_
    cases hfirst : d.first? front with
    | none => rfl
    | some first =>
      have hmem : .duplicateStruct d.name d.span first.span ∈ m.typeErrors := by
        refine List.mem_append_left _ (mem_flatten_withEarlier.mpr ⟨front, d, back, hm, ?_⟩)
        simp [Declaration.duplicateErrors, hfirst]
      rw [h] at hmem
      cases hmem
  rw [hdistinct.typeErrors, List.flatMap_eq_nil_iff] at h
  refine ⟨hdistinct, fun s hs front member back hsplit => ?_, fun e he => ?_⟩
  · exact (member_of_typeErrors (h _ hs) hsplit).1
  · obtain ⟨d, hd, he⟩ := List.mem_flatMap.mp he
    exact written_of_typeErrors (h d hd) e he

theorem Clean.struct?_of_mem (h : m.Clean) {s : Struct} (hs : .struct s ∈ m) :
    m.struct? s.name = some s :=
  h.distinct.struct?_eq_some.mpr ⟨hs, rfl⟩

/-- What does not depend on members of the same name is said of each member alone. -/
theorem Clean.withEarlier_members (h : m.Clean) {s : Struct} (hs : .struct s ∈ m) {β : Type}
    {f : List Member → Member → β} {g : Member → β}
    (hf : ∀ earlier member, member.first? earlier = none → f earlier member = g member) :
    withEarlier f [] s.members = s.members.map g :=
  withEarlier_eq_map fun front member back hsplit =>
    hf _ _ (h.members s hs front member back hsplit)

/-- Every type that is written counts. -/
theorem Clean.annotations_eq (h : m.Clean) : m.annotations = m.written := by
  rw [h.distinct.annotations, written]
  refine List.flatMap_congr fun d hd => ?_
  cases d with
  | function f => rfl
  | struct s =>
    have hmembers : withEarlier Member.annotations [] s.members =
        s.members.map fun member => [member.type] := by
      refine h.withEarlier_members hd fun earlier member hnew => ?_
      rw [Member.annotations, hnew]
      rfl
    show (withEarlier Member.annotations [] s.members).flatten = s.members.map Member.type
    rw [hmembers]
    exact List.map_eq_flatMap.symm

end Module

/-! ## The types used -/

/-- The type is that of a structure. -/
def TypeExpr.isNamed : TypeExpr → Bool
  | named _ => true
  | _ => false

/-- The types that the written ones come to, themselves or inside, each once and without
structures. -/
def Module.usedTypes (m : Module) : List TypeExpr :=
  ((m.written.flatMap TypeExpr.parts).filter fun e => !e.isNamed).dedup

theorem TypeExpr.core_of_mem_parts {e part : TypeExpr} (h : part ∈ e.parts) : part.core = part := by
  induction e using core_induction with
  | plain e d hd =>
    cases e <;> cases hd <;> rw [List.mem_singleton.mp h] <;> rfl
  | pointer e ih | array e _ ih =>
    rcases List.mem_cons.mp h with rfl | h
    · simp [core]
    · exact ih h
  | named name => rw [List.mem_singleton.mp h]; rfl
  | core e ih => rw [parts_core] at ih; exact ih h

section

variable {t : TypeSystem} {m : Module} {e : TypeExpr} {id : TypeId}

/-- The structures and the types used, as they are written. -/
def Module.allTypes (m : Module) : List TypeExpr :=
  (m.structs.map fun s => .named s.name) ++ m.usedTypes

theorem Module.mem_allTypes_of_named {name : String} {s : Struct} (h : m.struct? name = some s) :
    .named name ∈ m.allTypes := by
  refine List.mem_append_left _ (List.mem_map.mpr ⟨s, List.mem_of_find?_eq_some h, ?_⟩)
  rw [name_of_struct? h]

/-- Whatever points is a pointer in these types. -/
theorem Module.core_of_mem_allTypes (h : e ∈ m.allTypes) : e.core = e := by
  rcases List.mem_append.mp h with h | h
  · obtain ⟨s, _, rfl⟩ := List.mem_map.mp h
    rfl
  · rw [usedTypes, List.mem_dedup, List.mem_filter] at h
    obtain ⟨a, _, hpart⟩ := List.mem_flatMap.mp h.1
    exact TypeExpr.core_of_mem_parts hpart

theorem Module.Clean.nodup_allTypes (h : m.Clean) : m.allTypes.Nodup := by
  refine List.nodup_append.mpr ⟨?_, List.nodup_dedup _, ?_⟩
  · have hnames : (m.structs.map fun s => TypeExpr.named s.name) =
        (m.structs.map Struct.name).map TypeExpr.named := by simp
    rw [hnames]
    exact h.distinct.map fun a b hab => TypeExpr.named.inj hab
  · intro e he e' he' hsame
    obtain ⟨s, _, rfl⟩ := List.mem_map.mp he
    rw [usedTypes, List.mem_dedup, List.mem_filter, ← hsame] at he'
    cases he'.2

namespace TypeSystem.TypesOf

variable (h : t.TypesOf m) (hclean : m.Clean)

include h hclean

/-- Every written type is in the arena. -/
theorem exists_find?_of_written (he : e ∈ m.written) : ∃ id, t.find? e = some id :=
  (h.found e (hclean.annotations_eq ▸ he)).mpr (hclean.declared e he)

/-- Each of the types is in the arena. -/
theorem exists_find?_of_allTypes (he : e ∈ m.allTypes) : ∃ id, t.find? e = some id := by
  rcases List.mem_append.mp he with he | he
  · obtain ⟨s, hs, rfl⟩ := List.mem_map.mp he
    exact (h.declared s.name).mpr (Module.exists_struct?_of_mem (Module.mem_structs.mp hs))
  · rw [Module.usedTypes, List.mem_dedup, List.mem_filter] at he
    obtain ⟨a, ha, hpart⟩ := List.mem_flatMap.mp he.1
    obtain ⟨id, hid⟩ := h.exists_find?_of_written hclean ha
    exact exists_find?_of_mem_parts hpart hid

/-- Each type of the arena is one of them. -/
theorem exists_mem_allTypes (hlt : id < t.size) : ∃ e ∈ m.allTypes, t.find? e = some id := by
  have hnamed : ∀ name, t.find? (.named name) = some id →
      ∃ e ∈ m.allTypes, t.find? e = some id := by
    intro name hf
    obtain ⟨s, hs⟩ := (h.declared name).mp ⟨id, hf⟩
    exact ⟨.named name, Module.mem_allTypes_of_named hs, hf⟩
  rcases h.covered id hlt with ⟨name, hname⟩ | ⟨a, ha, part, hpart, hf⟩
  · exact hnamed name hname
  · rw [hclean.annotations_eq] at ha
    cases hkind : part.isNamed with
    | true =>
      cases part <;> cases hkind
      exact hnamed _ hf
    | false =>
      refine ⟨part, List.mem_append_right _ ?_, hf⟩
      rw [Module.usedTypes, List.mem_dedup, List.mem_filter, hkind]
      exact ⟨List.mem_flatMap.mpr ⟨a, ha, hpart⟩, rfl⟩

/-- **The arena has one type for each structure and for each type used.** Looking a type up and
reading it back are inverse to each other. -/
theorem size_eq_count : t.size = m.structs.length + m.usedTypes.length := by
  have hexpr : ∀ e ∈ m.allTypes, ∀ id, t.find? e = some id → t.expr? id = some e :=
    fun e he id hid => Module.core_of_mem_allTypes he ▸ h.wellFormed.expr?_of_find? hid
  have hcard : m.allTypes.toFinset.card = (Finset.range t.size).card := by
    refine Finset.card_nbij' (fun e => (t.find? e).getD 0) (fun id => (t.expr? id).getD .unit)
      ?_ ?_ ?_ ?_
    · intro e he
      obtain ⟨id, hid⟩ := h.exists_find?_of_allTypes hclean (List.mem_toFinset.mp he)
      simpa [hid] using h.wellFormed.lt_size_of_find? hid
    · intro id hid
      obtain ⟨e, he, hf⟩ := h.exists_mem_allTypes hclean (Finset.mem_range.mp hid)
      simpa [hexpr e he id hf] using he
    · intro e he
      obtain ⟨id, hid⟩ := h.exists_find?_of_allTypes hclean (List.mem_toFinset.mp he)
      simp [hid, hexpr e (List.mem_toFinset.mp he) id hid]
    · intro id hid
      obtain ⟨e, he, hf⟩ := h.exists_mem_allTypes hclean (Finset.mem_range.mp hid)
      simp [hexpr e he id hf, hf]
  rw [List.toFinset_card_of_nodup hclean.nodup_allTypes, Finset.card_range] at hcard
  rw [← hcard, Module.allTypes, List.length_append, List.length_map]

/-- The fields of a structure are its members in order, with their types as text. -/
theorem fieldTexts_eq {s : Struct} (hs : .struct s ∈ m) :
    (s.fieldsIn t).map (fun field => (field.1, t.text field.2)) =
      s.members.map fun member => (member.name, member.type.core.text) := by
  have hfields : s.fieldsIn t = s.members.flatMap fun member => (member.fieldIn? t).toList := by
    refine congrArg List.flatten (hclean.withEarlier_members hs fun earlier member hnew => ?_)
    rw [Member.fieldsIn, hnew]
    rfl
  rw [hfields, List.map_flatMap, List.map_eq_flatMap]
  refine List.flatMap_congr fun member hmember => ?_
  have hwritten : member.type ∈ m.written :=
    List.mem_flatMap.mpr ⟨.struct s, hs, List.mem_map_of_mem hmember⟩
  obtain ⟨id, hid⟩ := h.exists_find?_of_written hclean hwritten
  rw [Member.fieldIn?, hid]
  show [(member.name, t.text id)] = _
  rw [text_of_expr? (h.wellFormed.expr?_of_find? hid)]

/-- **Each structure is outlined with its members in order**, their types written with pointers
only. -/
theorem outlineStructs_eq (hslots : ∀ s, .struct s ∈ m → s.slot = .empty) :
    outlineStructs t (m.resolved t) =
      m.structs.map fun s => ⟨s.name, s.members.map fun member =>
        (member.name, member.type.core.text)⟩ := by
  have hstructs : (m.resolved t).structs = m.structs.map (Struct.resolved t) := by
    rw [hclean.distinct.resolved t, Module.structs, Module.structs, List.filterMap_map,
      List.map_filterMap]
    refine List.filterMap_congr fun d _ => ?_
    cases d <;> rfl
  rw [outlineStructs, hstructs, List.filterMap_map, List.filterMap_filterMap,
    ← List.filterMap_eq_map]
  refine List.filterMap_congr fun s hmem => ?_
  have hs : .struct s ∈ m := Module.mem_structs.mp hmem
  obtain ⟨id, hid, hget⟩ := h.fields s (hclean.struct?_of_mem hs)
  have hslot : t.readSlot? (s.resolved t).slot = some id := by
    have hempty : s.slot.readAs? t.stamp = none := by
      rw [hslots s hs]
      rfl
    exact (h.wellFormed.readSlot?_fillFound hempty (.named s.name)).trans hid
  rw [Function.comp_apply, hslot, Option.bind_some, hget, Function.comp_apply,
    ← h.fieldTexts_eq hclean hs]
  rfl

end TypeSystem.TypesOf

/-- A structure that refers to itself, and the types of a string, a slice, an array and a unit that
nobody writes. -/
def nodeSource : String :=
  "struct Node \x7bnext: &Node; name: str\x7d fn f(bytes: [int8], grid: [bool; 3])"

end

end FrontEnd
