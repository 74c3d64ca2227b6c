import FrontEnd.Proofs.ModuleTypes

/-!
# Lowering a module

Lowering reports what is wrong with the types of a module, all of it and nothing else, and fills the
slots that it can fill.

* `declareStructs_registration`: the first pass registers the structures of the module, each under
  the name that it is the first to have.
* `Lowers`: a part was lowered. Its value is told for every arena that the types can grow to, so
  that a part need not be looked at again when later parts are lowered.
* `lowerMembers_lowers`, `lowerDeclaration_lowers`, `each_lowerDeclaration`: one such statement for
  each part, up to the second pass over the declarations.
* `lowerModule_typed`: the two passes together, and `lowerModule_resolved` for a module that nobody
  has lowered before.
-/

set_option autoImplicit false

namespace FrontEnd

open TypeSystem

variable {t t' : TypeSystem} {m : Module}

/-! ## Registering structures -/

/-- An arena of the structures of a module, all of them without fields yet. -/
structure TypeSystem.Registers (t : TypeSystem) (m : Module) : Prop where
  wellFormed : t.WellFormed
  declared : t.Declares m
  bare : ∀ {id d}, t.get? id = some d →
    ∃ name, d = .struct (.ofName name) ∧ t.findStruct? name = some id

namespace TypeSystem.Registers

theorem fresh (stamp : Nat) : (TypeSystem.fresh stamp).Registers [] where
  wellFormed := wellFormed_fresh stamp
  declared name := by
    constructor
    · rintro ⟨id, hid⟩
      cases hid
    · rintro ⟨s, hs⟩
      cases hs
  bare h := by simp [TypeSystem.fresh, get?] at h

theorem congr {m' : Module} (h : t.Registers m)
    (hsame : ∀ name, m'.struct? name = m.struct? name) : t.Registers m' where
  wellFormed := h.wellFormed
  declared name := by rw [hsame]; exact h.declared name
  bare := h.bare

theorem newStruct (h : t.Registers m) {s : Struct} (hnew : m.struct? s.name = none) :
    (t.newStruct s.name).2.Registers (m ++ [.struct s]) := by
  have hfind := findStruct?_newStruct (h.declared.findStruct?_eq_none hnew)
  refine ⟨h.wellFormed.newStruct s.name, fun name => ?_, fun {id d} hd => ?_⟩
  · rw [Module.struct?_append_new hnew, hfind]
    by_cases hname : name = s.name
    · rw [if_pos hname, if_pos hname]
      exact iff_of_true ⟨_, rfl⟩ ⟨_, rfl⟩
    · rw [if_neg hname, if_neg hname]
      exact h.declared name
  · rw [get?_newStruct, get?_push] at hd
    split at hd
    · rename_i hid
      cases hd
      exact ⟨s.name, rfl, by rw [hfind, if_pos rfl, hid]⟩
    · obtain ⟨name, rfl, hname⟩ := h.bare hd
      refine ⟨name, rfl, ?_⟩
      rw [hfind, if_neg, hname]
      rintro rfl
      rw [h.declared.findStruct?_eq_none hnew] at hname
      cases hname

end TypeSystem.Registers

/-- The structure with its own slot filled. -/
def Struct.registered (t : TypeSystem) (s : Struct) : Struct :=
  { s with slot := t.fillFound s.slot (.named s.name) }

/-- The declaration after the first pass. -/
def Declaration.registered (t : TypeSystem) (earlier : Module) : Declaration → Declaration
  | function f => .function f
  | struct s => .struct (if (earlier.struct? s.name).isSome then s else s.registered t)

/-- What the first pass filled, it fills in the same way for any later arena. -/
theorem Struct.registered_extends (h : t.Extends t') (s : Struct) :
    s.registered t' = s.registered t := by
  simp only [registered, fillFound, find?, h.findStruct?, assignSlot, h.stamp]

theorem Declaration.registered_extends (h : t.Extends t') (earlier : Module) (d : Declaration) :
    d.registered t' earlier = d.registered t earlier := by
  cases d with
  | function f => rfl
  | struct s => rw [registered, registered, Struct.registered_extends h]

/-- The first pass over the declarations that follow `earlier`. -/
structure Registration (t : TypeSystem) (earlier rest : Module) (r : Lowered Module) : Prop where
  registers : r.types.Registers (earlier ++ rest)
  stamp : r.types.stamp = t.stamp
  keeps : ∀ {name id}, t.findStruct? name = some id → r.types.findStruct? name = some id
  errors : r.errors = (withEarlier Declaration.duplicateErrors earlier rest).flatten
  value : r.value = withEarlier (Declaration.registered r.types) earlier rest

/-- A declaration that is not registered is passed over, with what it reports. -/
theorem Registration.skip {earlier rest : Module} {d : Declaration} {r : Lowered Module}
    (h : Registration t (earlier ++ [d]) rest r)
    (hvalue : d.registered r.types earlier = d) :
    Registration t earlier (d :: rest)
      ⟨d :: r.value, d.duplicateErrors earlier ++ r.errors, r.types⟩ where
  registers := by rw [List.append_cons]; exact h.registers
  stamp := h.stamp
  keeps := h.keeps
  errors := by rw [withEarlier, List.flatten_cons, h.errors]
  value := by rw [withEarlier, hvalue, h.value]

/-- A structure whose name nobody has takes it. -/
theorem Registration.register {earlier rest : Module} {s : Struct} {r : Lowered Module}
    (h : t.Registers earlier) (hnew : earlier.struct? s.name = none)
    (hrest : Registration (t.newStruct s.name).2 (earlier ++ [.struct s]) rest r) :
    Registration t earlier (.struct s :: rest)
      ⟨.struct { s with slot := (t.newStruct s.name).2.assignSlot s.slot (t.newStruct s.name).1 } ::
        r.value, r.errors, r.types⟩ := by
  have hmissing := h.declared.findStruct?_eq_none hnew
  have hfind := findStruct?_newStruct hmissing
  refine ⟨by rw [List.append_cons]; exact hrest.registers, ?_, fun {name id} hname => ?_, ?_, ?_⟩
  · rw [hrest.stamp, newStruct_of_missing hmissing]
    rfl
  · refine hrest.keeps ?_
    rw [hfind, if_neg, hname]
    rintro rfl
    rw [hmissing] at hname
    cases hname
  · rw [withEarlier, List.flatten_cons, hrest.errors, Declaration.duplicateErrors,
      Declaration.first?, hnew]
    rfl
  · have hfound : r.types.find? (.named s.name) = some (t.newStruct s.name).1 :=
      hrest.keeps (by rw [hfind, if_pos rfl, (size_newStruct t s.name).1])
    rw [withEarlier, hrest.value, Declaration.registered, hnew, Struct.registered,
      fillFound_of_some s.slot hfound]
    unfold assignSlot
    rw [hrest.stamp]
    rfl

theorem declareStructs_registration {earlier : Module} {seen : List (String × Span)}
    (h : t.Registers earlier)
    (hseen : ∀ name, seen.lookup name = (earlier.struct? name).map Struct.span) (rest : Module) :
    Registration t earlier rest (declareStructs seen t rest) := by
  induction rest generalizing t earlier seen with
  | nil => exact ⟨by rwa [List.append_nil], rfl, id, rfl, rfl⟩
  | cons d rest ih =>
    cases d with
    | function f =>
      have hsame : ∀ name, Module.struct? (earlier ++ [.function f]) name =
          earlier.struct? name :=
        Module.struct?_append_seen fun s hs => by cases hs
      exact (ih (h.congr hsame) fun name => by rw [hsame, hseen]).skip rfl
    | struct s =>
      cases hs : earlier.struct? s.name with
      | some first =>
        have hsame : ∀ name, Module.struct? (earlier ++ [.struct s]) name =
            earlier.struct? name :=
          Module.struct?_append_seen fun s' hs' => by cases hs'; exact ⟨first, hs⟩
        have hlook : seen.lookup s.name = some first.span := by rw [hseen, hs]; rfl
        have hrest := (ih (h.congr hsame) fun name => by rw [hsame, hseen]).skip
          (by rw [Declaration.registered, hs]; rfl)
        rw [Declaration.duplicateErrors, Declaration.first?, hs] at hrest
        rw [declareStructs, hlook]
        exact hrest
      | none =>
        have hlook : seen.lookup s.name = none := by rw [hseen, hs]; rfl
        rw [declareStructs, hlook]
        refine .register h hs (ih (h.newStruct hs) fun name => ?_)
        rw [lookup_cons_ite, hseen, Module.struct?_append_new hs]
        split <;> rfl

/-! ## Lowering the parts -/

section Parts

variable {α β γ δ : Type} {value : TypeSystem → β} {errors errors' : List TypeError}
  {changed changed' : Set String} {es es' : List TypeExpr} {r : Lowered β}

/-- A part was lowered: what the types grew for, what was reported, and the value in every arena
that the types may grow to. -/
structure Lowers (t : TypeSystem) (r : Lowered β) (value : TypeSystem → β)
    (errors : List TypeError) (changed : Set String) (es : List TypeExpr) : Prop where
  adds : t.Adds r.types changed es
  errors : r.errors = errors
  value : ∀ u, r.types.Extends u → r.value = value u

theorem Lowers.map (h : Lowers t r value errors changed es) (g : β → γ) :
    Lowers t ⟨g r.value, r.errors, r.types⟩ (fun u => g (value u)) errors changed es where
  adds := h.adds
  errors := h.errors
  value u hu := congrArg g (h.value u hu)

/-- Nothing is lowered. -/
theorem Lowers.skip (h : t.WellFormed) (b : β) : Lowers t ⟨b, errors, t⟩ (fun _ => b) errors
    changed [] where
  adds := .nothing h
  errors := rfl
  value _ _ := rfl

theorem Lowers.mono (h : Lowers t r value errors changed es) (hsub : changed ⊆ changed') :
    Lowers t r value errors changed' es :=
  ⟨h.adds.mono hsub, h.errors, h.value⟩

/-- One part after another. -/
theorem Lowers.followed {r' : Lowered γ} {value' : TypeSystem → γ}
    (h : Lowers t r value errors changed es)
    (h' : Lowers r.types r' value' errors' changed es') (g : β → γ → δ) :
    Lowers t ⟨g r.value r'.value, r.errors ++ r'.errors, r'.types⟩
      (fun u => g (value u) (value' u)) (errors ++ errors') changed (es ++ es') where
  adds := h.adds.trans h'.adds
  errors := by rw [h.errors, h'.errors]
  value u hu := by rw [h.value u (h'.adds.toExtends.trans hu), h'.value u hu]

theorem lowerSlot_lowers (h : t.WellFormed) (hm : t.Declares m) (e : TypeExpr) (span : Span)
    (slot : TypeSlot) :
    Lowers t (lowerSlot t e span slot) (fun u => u.fillFound slot e) (m.unknownErrors e span)
      changed [e] := by
  rcases hm.knows_or e with ⟨hk, hnone⟩ | ⟨name, hn, hmissing, hsome⟩
  · obtain ⟨id, t', hrun, hadds, hf⟩ := h.lowerType_known hk span
    rw [lowerSlot, hrun]
    refine ⟨hadds, by simp [Module.unknownErrors, hnone], fun u hu => ?_⟩
    rw [fillFound_of_some slot (hu.find? hadds.wellFormed hf)]
    simp only [assignSlot, hu.stamp]
  · rw [lowerSlot, lowerType_unknown hn hmissing]
    refine ⟨.refl h fun e' he' hk => ?_, by simp [Module.unknownErrors, hsome], fun u hu => ?_⟩
    · rw [List.mem_singleton.mp he'] at hk
      obtain ⟨id, hid⟩ := hk name hn
      rw [hmissing] at hid
      cases hid
    · rw [fillFound_of_none slot (find?_eq_none hn ((hu.findStruct? name).trans hmissing))]

theorem lowerParameter_lowers (h : t.WellFormed) (hm : t.Declares m) (p : Parameter) :
    Lowers t (lowerParameter t p) (fun u => p.resolved u) (m.unknownErrors p.type p.span) changed
      [p.type] :=
  (lowerSlot_lowers h hm p.type p.span p.slot).map fun slot => { p with slot }

/-- Parts that are lowered one after another, each with an arena in order. -/
theorem each_lowers {lower : TypeSystem → α → Lowered β} {valueOf : TypeSystem → α → β}
    {errorsOf : α → List TypeError} {typesOf : α → List TypeExpr}
    (hstep : ∀ {t : TypeSystem}, t.WellFormed → t.Declares m → ∀ a,
      Lowers t (lower t a) (fun u => valueOf u a) (errorsOf a) changed (typesOf a))
    (h : t.WellFormed) (hm : t.Declares m) (as : List α) :
    Lowers t (Lowered.each lower t as) (fun u => as.map (valueOf u)) (as.flatMap errorsOf) changed
      (as.flatMap typesOf) := by
  induction as generalizing t with
  | nil => exact .skip h []
  | cons a as ih =>
    have hfirst := hstep h hm a
    exact hfirst.followed (ih hfirst.adds.wellFormed (hm.extends hfirst.adds.toExtends)) List.cons

theorem lowerFunction_lowers (h : t.WellFormed) (hm : t.Declares m) (f : Function) :
    Lowers t (lowerFunction t f) (fun u => f.resolved u) (f.typeErrors m) changed
      f.annotations := by
  have hparams : Lowers t (Lowered.each lowerParameter t f.params) _ _ changed _ :=
    each_lowers (fun h hm p => lowerParameter_lowers h hm p) h hm f.params
  rw [← List.map_eq_flatMap] at hparams
  have hreturned : Lowers _ _ _ _ changed _ := lowerSlot_lowers hparams.adds.wellFormed
    (hm.extends hparams.adds.toExtends) f.returnType f.span f.slot
  exact hparams.followed hreturned fun params slot => { f with params, slot }

/-! ## Members -/

theorem setField_of_missing {fields : List (String × TypeId)} {name : String}
    (h : fields.lookup name = none) (id : TypeId) :
    StructType.setField fields name id = fields ++ [(name, id)] := by
  induction fields with
  | nil => rfl
  | cons field fields ih =>
    obtain ⟨other, type⟩ := field
    rw [lookup_cons_ite] at h
    by_cases hname : name = other
    · rw [if_pos hname] at h
      cases h
    · rw [if_neg hname] at h
      rw [StructType.setField, if_neg (Ne.symm hname), ih h]
      rfl

/-- A field of a structure is no new type. -/
theorem addField_adds (h : t.WellFormed) {target : TypeId} {s : StructType}
    (hs : t.get? target = some (.struct s)) (name : String) (type : TypeId) :
    t.Adds (t.addField target name type).2 {s.name} [] where
  wellFormed := h.addField target name type
  keeps := keeps_addField t target name type
  structs := by rw [addField_of_struct hs]
  stamp := by rw [addField_of_struct hs]
  fixed {id s'} hs' hname := by
    rw [get?_addField hs, if_neg, hs']
    rintro rfl
    rw [hs] at hs'
    cases hs'
    exact hname rfl
  covered id hlt hle := by
    rw [addField_of_struct hs] at hlt
    have hsize : id < t.size := by simpa [size] using hlt
    exact absurd hsize (Nat.not_lt_of_le hle)
  found _ he := absurd he List.not_mem_nil

/-- A type that was lowered gives its structure a field. -/
theorem lowerMember_of_ok {target id : TypeId} {member : Member} {s : StructType}
    (hrun : t.lowerType member.span member.type = (.ok id, t'))
    (hs : t'.get? target = some (.struct s)) :
    lowerMember target t member =
      ⟨{ member with slot := t'.assignSlot member.slot id }, [],
        (t'.addField target member.name id).2⟩ := by
  rw [lowerMember, hrun]
  dsimp only
  rw [addField_of_struct hs]

theorem lowerMember_lowers (h : t.WellFormed) (hm : t.Declares m) {target : TypeId}
    {structName : String} {fields : List (String × TypeId)}
    (ht : t.get? target = some (.struct ⟨structName, fields⟩)) {member : Member}
    (hnew : fields.lookup member.name = none) :
    Lowers t (lowerMember target t member)
        (fun u => { member with slot := u.fillFound member.slot member.type })
        (m.unknownErrors member.type member.span) {structName} [member.type] ∧
      ∀ u, (lowerMember target t member).types.Extends u →
        (lowerMember target t member).types.get? target =
          some (.struct ⟨structName, fields ++ (member.fieldIn? u).toList⟩) := by
  have hslot : Lowers t (lowerSlot t member.type member.span member.slot) _ _ {structName} _ :=
    lowerSlot_lowers h hm member.type member.span member.slot
  rw [lowerSlot] at hslot
  rcases hm.knows_or member.type with ⟨hk, hnone⟩ | ⟨name, hn, hmissing, hsome⟩
  · obtain ⟨id, t', hrun, hadds, hf⟩ := h.lowerType_known hk member.span
    have ht' : t'.get? target = some (.struct ⟨structName, fields⟩) :=
      hadds.fixed ht (Set.notMem_empty _)
    have hfield : Lowers t' (⟨(), [], (t'.addField target member.name id).2⟩ : Lowered Unit)
        (fun _ => ()) [] {structName} [] :=
      ⟨addField_adds hadds.wellFormed ht' member.name id, rfl, fun _ _ => rfl⟩
    have hfound : (t'.addField target member.name id).2.find? member.type = some id :=
      hfield.adds.find? hadds.wellFormed hf
    rw [hrun] at hslot
    have hall := hslot.followed hfield fun slot _ => { member with slot }
    rw [List.append_nil, List.append_nil] at hall
    rw [lowerMember_of_ok hrun ht']
    refine ⟨hall, fun u hu => ?_⟩
    dsimp only
    rw [get?_addField ht', if_pos rfl, Member.fieldIn?, hu.find? hfield.adds.wellFormed hfound,
      StructType.addField, setField_of_missing hnew]
    rfl
  · have hrun := lowerType_unknown hn hmissing member.span
    rw [hrun] at hslot
    rw [lowerMember, hrun]
    refine ⟨hslot.map fun slot => { member with slot }, fun u hu => ?_⟩
    dsimp only
    rw [ht, Member.fieldIn?, find?_eq_none hn ((hu.findStruct? name).trans hmissing),
      Option.map_none, Option.toList_none, List.append_nil]

theorem lowerMembers_lowers {target : TypeId} {structName : String} (rest : List Member)
    {earlier : List Member} {seen : List (String × Span)} {fields : List (String × TypeId)}
    (h : t.WellFormed) (hm : t.Declares m)
    (hseen : ∀ name, seen.lookup name = (Member.named? earlier name).map Member.span)
    (ht : t.get? target = some (.struct ⟨structName, fields⟩))
    (hfields : ∀ name, Member.named? earlier name = none → fields.lookup name = none) :
    Lowers t (lowerMembers structName target seen t rest)
        (fun u => withEarlier (Member.resolved u) earlier rest)
        (withEarlier (Member.typeErrors m structName) earlier rest).flatten {structName}
        (withEarlier Member.annotations earlier rest).flatten ∧
      ∀ u, (lowerMembers structName target seen t rest).types.Extends u →
        (lowerMembers structName target seen t rest).types.get? target =
          some (.struct ⟨structName,
            fields ++ (withEarlier (Member.fieldsIn u) earlier rest).flatten⟩) := by
  induction rest generalizing t earlier seen fields with
  | nil => exact ⟨.skip h [], fun u hu => by
    simpa [lowerMembers, Lowered.done, withEarlier] using ht⟩
  | cons member rest ih =>
    cases hfirst : Member.named? earlier member.name with
    | some first =>
      have hdup : Member.first? earlier member = some first := hfirst
      have hlook : seen.lookup member.name = some first.span := by rw [hseen, hfirst]; rfl
      have hsame := Member.named?_append_seen hfirst
      obtain ⟨hrest, hget⟩ := ih h hm (fun name => by rw [hsame, hseen]) ht
        fun name hname => hfields name (by rwa [hsame] at hname)
      have hskip : Lowers t (⟨member, [.duplicateMember structName member.name member.span
          first.span], t⟩ : Lowered Member) _ _ {structName} [] := .skip h member
      rw [lowerMembers, hlook]
      simp only [withEarlier, Member.resolved, Member.typeErrors, Member.annotations,
        Member.fieldsIn, hdup, Option.isSome_some, if_true, List.flatten_cons, List.nil_append]
      exact ⟨hskip.followed hrest List.cons, hget⟩
    | none =>
      have hnew : Member.first? earlier member = none := hfirst
      have hlook : seen.lookup member.name = none := by rw [hseen, hfirst]; rfl
      have hseen' : ∀ name, ((member.name, member.span) :: seen).lookup name =
          (Member.named? (earlier ++ [member]) name).map Member.span := by
        intro name
        rw [lookup_cons_ite, hseen, Member.named?_append_new hfirst]
        split <;> rfl
      have hfields' : ∀ u name, Member.named? (earlier ++ [member]) name = none →
          (fields ++ (member.fieldIn? u).toList).lookup name = none := by
        intro u name hname
        rw [Member.named?_append_new hfirst] at hname
        split at hname
        · cases hname
        · rename_i hne
          rw [List.lookup_append, hfields name hname, Member.fieldIn?]
          cases u.find? member.type with
          | none => rfl
          | some id =>
            show List.lookup name [(member.name, id)] = none
            rw [lookup_cons_ite, if_neg hne]
            rfl
      obtain ⟨hhead, hfield⟩ := lowerMember_lowers h hm ht (hfields _ hfirst)
      have hrest := fun u hu => ih hhead.adds.wellFormed (hm.extends hhead.adds.toExtends) hseen'
        (hfield u hu) (hfields' u)
      rw [lowerMembers, hlook]
      simp only [withEarlier, Member.resolved, Member.typeErrors, Member.annotations,
        Member.fieldsIn, hnew, Option.isSome_none, Bool.false_eq_true, if_false,
        List.flatten_cons]
      have htail := (hrest _ (.refl hhead.adds.wellFormed)).1
      refine ⟨hhead.followed htail List.cons, fun u hu => ?_⟩
      rw [← List.append_assoc]
      exact (hrest u (htail.adds.toExtends.trans hu)).2 u hu

end Parts

/-! ## Declarations -/

/-- A structure of the arena has the fields that its members have in a later arena. -/
def TypeSystem.HasFields (t u : TypeSystem) (s : Struct) : Prop :=
  ∃ id, t.findStruct? s.name = some id ∧ t.get? id = some (.struct ⟨s.name, s.fieldsIn u⟩)

/-- The structures that a declaration may change: it is the first to have their name. -/
def Declaration.newNames (earlier : Module) (d : Declaration) : Set String :=
  {name | earlier.struct? name = none ∧ ∃ s, d = .struct s ∧ s.name = name}

/-- A structure that was registered is lowered with its members. -/
theorem lowerStruct_lowers (h : t.WellFormed) (hm : t.Declares m) {s : Struct} {id : TypeId}
    (hid : t.findStruct? s.name = some id)
    (hbare : t.get? id = some (.struct (.ofName s.name))) :
    Lowers t (lowerStruct t (s.registered t)) (fun u => s.resolved u) (s.typeErrors m) {s.name}
        s.annotations ∧
      ∀ u, (lowerStruct t (s.registered t)).types.Extends u →
        (lowerStruct t (s.registered t)).types.HasFields u s := by
  have hseen : ∀ name, ([] : List (String × Span)).lookup name =
      (Member.named? [] name).map Member.span := fun _ => rfl
  have hread : t.readSlot? (s.registered t).slot = some id := h.readSlot?_of_find? s.slot hid
  obtain ⟨hmembers, hfields⟩ :=
    lowerMembers_lowers s.members h hm hseen hbare (fun _ _ => rfl)
  have hext := hmembers.adds.toExtends
  rw [lowerStruct, hread]
  refine ⟨⟨hmembers.adds, hmembers.errors, fun u hu => ?_⟩, fun u hu => ⟨id, ?_, hfields u hu⟩⟩
  · have hvalue := congrArg (fun members => { s.registered t with members }) (hmembers.value u hu)
    refine hvalue.trans ?_
    rw [← Struct.registered_extends (hext.trans hu)]
    rfl
  · exact (hext.findStruct? s.name).trans hid

theorem lowerDeclaration_lowers (h : t.WellFormed) (hm : t.Declares m) {earlier : Module}
    {d : Declaration}
    (hslot : ∀ s, d = .struct s → s.slot.readAs? t.stamp = none)
    (hdeclared : ∀ s, d = .struct s → ∃ id, t.findStruct? s.name = some id)
    (hbare : ∀ name id, earlier.struct? name = none → t.findStruct? name = some id →
      t.get? id = some (.struct (.ofName name))) :
    Lowers t (lowerDeclaration t (d.registered t earlier)) (fun u => d.resolved u earlier)
        (d.typeErrors m earlier) (d.newNames earlier) (d.annotations earlier) ∧
      ∀ s, d = .struct s → earlier.struct? s.name = none →
        ∀ u, (lowerDeclaration t (d.registered t earlier)).types.Extends u →
          (lowerDeclaration t (d.registered t earlier)).types.HasFields u s := by
  cases d with
  | function f =>
    exact ⟨(lowerFunction_lowers h hm f).map Declaration.function, fun s hs => by cases hs⟩
  | struct s =>
    cases hfirst : earlier.struct? s.name with
    | some first =>
      -- the slot of a structure that was not registered is not read
      have hunread := readSlot?_eq_none (hslot s rfl)
      have hrun : lowerDeclaration t (Declaration.registered t earlier (.struct s)) =
          ⟨.struct s, [], t⟩ := by
        simp [Declaration.registered, hfirst, lowerDeclaration, lowerStruct, hunread, Lowered.done]
      rw [hrun]
      simp only [Declaration.resolved, Declaration.typeErrors, Declaration.annotations, hfirst,
        Option.isSome_some, if_true]
      exact ⟨.skip h _, fun s' hs' hnone => by cases hs'; rw [hfirst] at hnone; cases hnone⟩
    | none =>
      obtain ⟨id, hid⟩ := hdeclared s rfl
      obtain ⟨hlowers, hfields⟩ := lowerStruct_lowers h hm hid (hbare s.name id hfirst hid)
      have hreg : Declaration.registered t earlier (.struct s) = .struct (s.registered t) := by
        simp [Declaration.registered, hfirst]
      rw [hreg]
      simp only [Declaration.resolved, Declaration.typeErrors, Declaration.annotations, hfirst,
        Option.isSome_none, Bool.false_eq_true, if_false]
      have hnames : ({s.name} : Set String) ⊆ Declaration.newNames earlier (.struct s) := by
        rintro _ rfl
        exact ⟨hfirst, s, rfl, rfl⟩
      exact ⟨(hlowers.map Declaration.struct).mono hnames,
        fun s' hs' _ => by cases hs'; exact hfields⟩

/-- The second pass over the declarations that follow `earlier`. -/
theorem each_lowerDeclaration {first : TypeSystem} (rest : Module) {earlier : Module}
    (h : t.WellFormed) (hm : t.Declares m) (hfirst : first.Extends t)
    (hslot : ∀ s, .struct s ∈ rest → s.slot.readAs? t.stamp = none)
    (hdeclared : ∀ s, .struct s ∈ rest → ∃ id, t.findStruct? s.name = some id)
    (hbare : ∀ name id, earlier.struct? name = none → t.findStruct? name = some id →
      t.get? id = some (.struct (.ofName name))) :
    let r := Lowered.each lowerDeclaration t
      (withEarlier (Declaration.registered first) earlier rest)
    Lowers t r (fun u => withEarlier (Declaration.resolved u) earlier rest)
        (withEarlier (Declaration.typeErrors m) earlier rest).flatten
        {name | earlier.struct? name = none}
        (withEarlier Declaration.annotations earlier rest).flatten ∧
      ∀ s, earlier.struct? s.name = none → rest.struct? s.name = some s →
        ∀ u, r.types.Extends u → r.types.HasFields u s := by
  induction rest generalizing t earlier with
  | nil => exact ⟨.skip h [], fun s _ hs => by cases hs⟩
  | cons d rest ih =>
    have hreg := Declaration.registered_extends hfirst earlier d
    obtain ⟨hhead, hfields⟩ := lowerDeclaration_lowers h hm
      (fun s hs => hslot s (hs ▸ List.mem_cons_self))
      (fun s hs => hdeclared s (hs ▸ List.mem_cons_self)) hbare
    rw [hreg] at hhead hfields
    have hext := hhead.adds.toExtends
    have hearlier : ∀ {name}, Module.struct? (earlier ++ [d]) name = none →
        earlier.struct? name = none ∧ name ∉ d.newNames earlier := by
      intro name hname
      rw [Module.struct?_append, Option.or_eq_none_iff] at hname
      refine ⟨hname.1, ?_⟩
      rintro ⟨_, s, rfl, rfl⟩
      rw [Module.struct?_cons_struct, if_pos rfl] at hname
      cases hname.2
    obtain ⟨htail, htailFields⟩ := ih hext.wellFormed (hm.extends hext)
      (hfirst.trans hext)
      (fun s hs => by rw [hext.stamp]; exact hslot s (List.mem_cons_of_mem d hs))
      (fun s hs => by rw [hext.findStruct?]; exact hdeclared s (List.mem_cons_of_mem d hs))
      (fun name id (hname : Module.struct? (earlier ++ [d]) name = none) hid => by
        rw [hext.findStruct?] at hid
        exact hhead.adds.fixed (hbare name id (hearlier hname).1 hid) (hearlier hname).2)
    have hall := (hhead.mono fun _ hname => hname.1).followed
      (htail.mono fun _ hname => (hearlier hname).1) List.cons
    refine ⟨hall, fun s hnew hs u hu => ?_⟩
    by_cases hd : d = .struct s
    · obtain ⟨id, hid, hget⟩ := hfields s hd hnew u (htail.adds.toExtends.trans hu)
      refine ⟨id, (htail.adds.findStruct? s.name).trans hid, htail.adds.fixed hget fun hname => ?_⟩
      exact (hearlier hname).2 ⟨hnew, s, hd, rfl⟩
    · obtain ⟨hother, hlater⟩ := Module.struct?_of_cons hs hd
      refine htailFields s ?_ hlater u hu
      rw [Module.struct?_append, hnew, hother]
      rfl

/-! ## Modules -/

/-- **Both passes over a module** none of whose structures has a slot that the arena filled: what is
reported, what the slots hold, and what the arena has. -/
theorem lowerModule_typed (m : Module) {stamp : Nat}
    (hslot : ∀ s, .struct s ∈ m → s.slot.readAs? stamp = none) :
    (lowerModule (.fresh stamp) m).errors = m.typeErrors ∧
      (lowerModule (.fresh stamp) m).value = m.resolved (lowerModule (.fresh stamp) m).types ∧
      (lowerModule (.fresh stamp) m).types.TypesOf m ∧
      (lowerModule (.fresh stamp) m).types.stamp = stamp := by
  have hreg : Registration (.fresh stamp) [] m (declareStructs [] (.fresh stamp) m) :=
    declareStructs_registration (.fresh stamp) (fun _ => rfl) m
  have hfirst := hreg.registers
  rw [List.nil_append] at hfirst
  have hbare : ∀ name id, Module.struct? [] name = none →
      (declareStructs [] (.fresh stamp) m).types.findStruct? name = some id →
      (declareStructs [] (.fresh stamp) m).types.get? id = some (.struct (.ofName name)) := by
    intro name id _ hid
    obtain ⟨s, hs, rfl⟩ := hfirst.wellFormed.get?_of_findStruct? hid
    obtain ⟨name, hname, _⟩ := hfirst.bare hs
    cases hname
    exact hs
  obtain ⟨hrun, hfields⟩ := each_lowerDeclaration m hfirst.wellFormed hfirst.declared
    (.refl hfirst.wellFormed) (fun s hs => by rw [hreg.stamp]; exact hslot s hs)
    (fun s hs => (hfirst.declared s.name).mpr (Module.exists_struct?_of_mem hs)) hbare
  rw [← hreg.value] at hrun hfields
  have hext := hrun.adds.toExtends
  have hm := hfirst.declared.extends hext
  refine ⟨?_, hrun.value _ (.refl hext.wellFormed), ⟨hext.wellFormed, hm, fun s hs => ?_,
    fun e he => ?_, fun id hlt => ?_⟩, hext.stamp.trans hreg.stamp⟩
  · rw [lowerModule, hrun.errors, hreg.errors]
    rfl
  · exact hfields s rfl hs _ (.refl hext.wellFormed)
  · rw [← hm.knows_iff]
    refine ⟨fun ⟨id, hf⟩ => knows_of_find? hf, fun hk => ?_⟩
    exact hrun.adds.found e he (hext.knows_iff.mp hk)
  · by_cases hold : id < (declareStructs [] (.fresh stamp) m).types.size
    · obtain ⟨d, hd⟩ := get?_of_lt hold
      obtain ⟨name, _, hname⟩ := hfirst.bare hd
      exact .inl ⟨name, (hext.findStruct? name).trans hname⟩
    · exact .inr (hrun.adds.covered id hlt (Nat.le_of_not_lt hold))

theorem notAStruct_not_mem_typeErrors (m : Module) (field type : String) :
    .notAStruct field type ∉ m.typeErrors := by
  have hunknown : ∀ (e : TypeExpr) (span : Span),
      .notAStruct field type ∉ m.unknownErrors e span := by
    intro e span
    simp [Module.unknownErrors]
  unfold Module.typeErrors
  rw [List.mem_append, mem_flatten_withEarlier, mem_flatten_withEarlier]
  rintro (⟨front, d, back, _, hmem⟩ | ⟨front, d, back, _, hmem⟩)
  · simp [Declaration.duplicateErrors] at hmem
  cases d with
  | function f =>
    rcases List.mem_append.mp hmem with hmem | hmem
    · obtain ⟨p, _, hmem⟩ := List.mem_flatMap.mp hmem
      exact hunknown p.type p.span hmem
    · exact hunknown _ _ hmem
  | struct s =>
    dsimp only [Declaration.typeErrors] at hmem
    split at hmem
    · cases hmem
    rw [Struct.typeErrors, mem_flatten_withEarlier] at hmem
    obtain ⟨front, member, back, _, hmem⟩ := hmem
    unfold Member.typeErrors at hmem
    split at hmem
    · simp at hmem
    · exact hunknown _ _ hmem

/-- Structures and members that clash, and a name that nobody declares. -/
def clashing : Module :=
  [.struct ⟨"A", [⟨"x", .pointer (.named "B"), false, ⟨1, 2⟩, .empty⟩,
      ⟨"x", .named "C", false, ⟨3, 4⟩, .empty⟩, ⟨"y", .named "C", true, ⟨5, 6⟩, .empty⟩],
      ⟨0, 7⟩, .empty⟩,
    .struct ⟨"A", [⟨"z", .named "C", false, ⟨9, 10⟩, .empty⟩], ⟨8, 11⟩, .empty⟩,
    .function ⟨false, "f", [⟨"p", .slice (.named "A"), ⟨13, 14⟩, .empty⟩], false, .named "C", none,
      ⟨12, 15⟩, .empty⟩,
    .struct ⟨"B", [], ⟨16, 17⟩, .empty⟩]

end FrontEnd
