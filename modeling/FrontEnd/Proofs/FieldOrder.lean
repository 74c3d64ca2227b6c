import FrontEnd.Proofs.ModuleTypes
import Mathlib.Data.Finset.Card
import Mathlib.Data.List.Induction

/-!
# The order of fields

The fields of a structure are a map that keeps the order of insertion. A field that is added again
is retyped where it stands, so its place is told by the first addition under its name and its type by
the last one.

* `StructType.addFields` adds fields one after the other, with what each call answers.
* `StructType.InsertionOrdered` is what the additions so far make of a structure;
  `InsertionOrdered.addField` says that the next one keeps it.
* `fields_insertion_ordered`: names, size, look-ups and answers, after any additions.
-/

set_option autoImplicit false

namespace FrontEnd

namespace StructType

/-- Fields added one after the other: what each call answers, and the structure that they make. -/
def addFields (s : StructType) : List (String × TypeId) → List (Option TypeId) × StructType
  | [] => ([], s)
  | (name, type) :: calls =>
    let (previous, s') := s.addField name type
    let (answers, s'') := s'.addFields calls
    (previous :: answers, s'')

/-- The names of the fields, in order. -/
def names (s : StructType) : List String := s.fields.map Prod.fst

/-- The type of the last addition under a name. -/
def lastAdded? (calls : List (String × TypeId)) (name : String) : Option TypeId :=
  (calls.filter fun call => call.1 = name).getLast?.map Prod.snd

/-- The structure is what additions make of one without fields: it has the names that were added,
each once, in the order of their first additions, and the types of their last ones. -/
structure InsertionOrdered (s : StructType) (calls : List (String × TypeId)) : Prop where
  mem_names : ∀ name, name ∈ s.names ↔ name ∈ calls.map Prod.fst
  nodup : s.names.Nodup
  ordered : s.names.Pairwise fun a b =>
    (calls.map Prod.fst).idxOf a < (calls.map Prod.fst).idxOf b
  field?_eq : ∀ name, s.field? name = lastAdded? calls name

section

variable {s : StructType} {calls : List (String × TypeId)} {name : String} {type : TypeId}

theorem addFields_concat (s : StructType) (calls : List (String × TypeId)) (name : String)
    (type : TypeId) :
    s.addFields (calls ++ [(name, type)]) =
      ((s.addFields calls).1 ++ [((s.addFields calls).2.addField name type).1],
        ((s.addFields calls).2.addField name type).2) := by
  induction calls generalizing s with
  | nil => rfl
  | cons call calls ih =>
    rw [List.cons_append, addFields, addFields]
    exact congrArg (fun r => (_ :: r.1, r.2)) (ih (s.addField call.1 call.2).2)

theorem lastAdded?_concat (calls : List (String × TypeId)) (name : String) (type : TypeId)
    (other : String) :
    lastAdded? (calls ++ [(name, type)]) other =
      if other = name then some type else lastAdded? calls other := by
  unfold lastAdded?
  rw [List.filter_append]
  by_cases h : other = name
  · rw [if_pos h, List.filter_cons_of_pos (by simp [h]), List.filter_nil, List.getLast?_concat]
    rfl
  · rw [if_neg h, List.filter_cons_of_neg (by simpa using Ne.symm h), List.filter_nil,
      List.append_nil]

/-- A field that is there keeps its place, and a new one goes to the end. -/
theorem names_setField (fields : List (String × TypeId)) (name : String) (type : TypeId) :
    (setField fields name type).map Prod.fst =
      if name ∈ fields.map Prod.fst then fields.map Prod.fst
      else fields.map Prod.fst ++ [name] := by
  fun_induction setField fields name type with
  | case1 => rfl
  | case2 => simp
  | case3 other type rest hne ih =>
    rw [List.map_cons, ih, List.map_cons]
    by_cases h : name ∈ rest.map Prod.fst
    · rw [if_pos h, if_pos (List.mem_cons_of_mem _ h)]
    · rw [if_neg h, if_neg (List.not_mem_cons_of_ne_of_not_mem (Ne.symm hne) h), List.cons_append]

theorem names_addField (s : StructType) (name : String) (type : TypeId) :
    (s.addField name type).2.names = if name ∈ s.names then s.names else s.names ++ [name] :=
  names_setField s.fields name type

namespace InsertionOrdered

theorem ofName (name : String) : (StructType.ofName name).InsertionOrdered [] :=
  ⟨fun _ => Iff.rfl, .nil, .nil, fun _ => rfl⟩

/-- The next addition. -/
theorem addField (h : s.InsertionOrdered calls) (name : String) (type : TypeId) :
    (s.addField name type).2.InsertionOrdered (calls ++ [(name, type)]) := by
  have hadded : (calls ++ [(name, type)]).map Prod.fst = calls.map Prod.fst ++ [name] := by simp
  -- the first addition under a name is not moved by what is added later
  have hkept : ∀ a ∈ s.names,
      ((calls ++ [(name, type)]).map Prod.fst).idxOf a = (calls.map Prod.fst).idxOf a := by
    intro a ha
    rw [hadded, List.idxOf_append_of_mem ((h.mem_names a).mp ha)]
  have hordered : s.names.Pairwise fun a b =>
      ((calls ++ [(name, type)]).map Prod.fst).idxOf a <
        ((calls ++ [(name, type)]).map Prod.fst).idxOf b := by
    refine h.ordered.imp_of_mem fun ha hb hlt => ?_
    rwa [hkept _ ha, hkept _ hb]
  refine ⟨fun other => ?_, ?_, ?_, fun other => ?_⟩
  · rw [names_addField, hadded, List.mem_append, List.mem_singleton, ← h.mem_names]
    split
    · next hname => exact ⟨.inl, fun hor => hor.elim id fun heq => heq ▸ hname⟩
    · rw [List.mem_append, List.mem_singleton]
  · rw [names_addField]
    split
    · exact h.nodup
    · next hname => exact h.nodup.append (List.nodup_singleton name) (by simpa using hname)
  · rw [names_addField]
    split
    · exact hordered
    · next hname =>
      refine List.pairwise_append.mpr ⟨hordered, List.pairwise_singleton _ _, fun a ha b hb => ?_⟩
      have hnew : name ∉ calls.map Prod.fst := fun hmem => hname ((h.mem_names name).mpr hmem)
      rw [List.mem_singleton.mp hb, hkept a ha, hadded, List.idxOf_append_of_notMem hnew]
      exact Nat.lt_add_right _ (List.idxOf_lt_length_of_mem ((h.mem_names a).mp ha))
  · rw [field?_addField, lastAdded?_concat, h.field?_eq]

theorem size_eq (h : s.InsertionOrdered calls) :
    s.size = (calls.map Prod.fst).toFinset.card := by
  have hsets : (calls.map Prod.fst).toFinset = s.names.toFinset := by
    ext name
    rw [List.mem_toFinset, List.mem_toFinset, h.mem_names]
  rw [hsets, List.toFinset_card_of_nodup h.nodup, names, List.length_map, size]

end InsertionOrdered

end

/-- **Fields are a map that keeps the order of insertion**, after any additions to a new structure:
the names are those that were added, each once and in the order of their first additions, the size is
their number, a look-up gives the type of the last addition under a name, and each call answered the
type of the addition before it under the same name. -/
theorem fields_insertion_ordered (name : String) (calls : List (String × TypeId)) :
    ((ofName name).addFields calls).2.InsertionOrdered calls ∧
      ((ofName name).addFields calls).2.size = (calls.map Prod.fst).toFinset.card ∧
      ((ofName name).addFields calls).1 =
        withEarlier (fun earlier call => lastAdded? earlier call.1) [] calls := by
  induction calls using List.reverseRecOn with
  | nil => exact ⟨.ofName name, rfl, rfl⟩
  | append_singleton calls call ih =>
    obtain ⟨field, type⟩ := call
    obtain ⟨hordered, -, hanswers⟩ := ih
    have hnext := hordered.addField field type
    have hprevious : (((ofName name).addFields calls).2.addField field type).1 =
        lastAdded? calls field := hordered.field?_eq field
    rw [addFields_concat, withEarlier_concat, List.nil_append, hanswers, hprevious]
    exact ⟨hnext, hnext.size_eq, rfl⟩

/-- A field that is added again keeps its place. -/
example : (ofName "Pair").addFields [("a", 1), ("b", 2), ("a", 9)] =
    ([none, none, some 1], ⟨"Pair", [("a", 9), ("b", 2)]⟩) := by
  decide

end StructType

end FrontEnd
