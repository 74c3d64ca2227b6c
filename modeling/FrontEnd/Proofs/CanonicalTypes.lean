import FrontEnd.Proofs.Resolution

/-!
# One index for one type

A type system gives written types the same index exactly when they are the same type: when they
are equal with every slice and reference written as a pointer, and `str` as a pointer to `int8`.
That is `TypeExpr.core`. It does not matter what was created, filled in or lowered before, between
and after.

* `Session.lower` lowers a written type, and `Session.Calls` is one call on a type system: an
  operation or the lowering of a type.
* `Session.Valid.calls`: any number of calls keep the type system in order and change no type but
  for its fields.
* `WellFormed.lowerType_eq_ok` says what a lowering gives, `WellFormed.lowerType_eq_error` when
  there is none.
* `lowered_canonical` is the result.
-/

set_option autoImplicit false

namespace FrontEnd

/-! ## One lowering -/

namespace TypeSystem

variable {t t' : TypeSystem} {e : TypeExpr} {id : TypeId} {span : Span} {error : TypeError}

/-- Either the name that a type is made of is known, or there is no structure with that name. -/
theorem WellFormed.knows_or_missing (h : t.WellFormed) (e : TypeExpr) :
    t.Knows e ∨ ∃ name, e.innermost? = some name ∧ ∀ id, ¬ t.IsStruct name id := by
  cases hinner : e.innermost? with
  | none => exact .inl fun name hname => by rw [hinner] at hname; cases hname
  | some name =>
    by_cases hstruct : ∃ id, t.IsStruct name id
    · obtain ⟨id, hid⟩ := hstruct
      refine .inl fun other hother => ?_
      rw [hinner] at hother
      cases hother
      exact h.exists_findStruct? hid
    · exact .inr ⟨name, rfl, fun id hid => hstruct ⟨id, hid⟩⟩

theorem WellFormed.findStruct?_eq_none {name : String} (h : t.WellFormed)
    (hno : ∀ id, ¬ t.IsStruct name id) : t.findStruct? name = none := by
  rw [Option.eq_none_iff_forall_ne_some]
  exact fun id hid => hno id (h.get?_of_findStruct? hid)

/-- **A lowering gives the type that the written type stands for**, in an arena with all types of
the one before. -/
theorem WellFormed.lowerType_eq_ok (h : t.WellFormed)
    (hrun : t.lowerType span e = (.ok id, t')) : t.Extends t' ∧ t'.find? e = some id := by
  rcases h.knows_or_missing e with hk | ⟨name, hinner, hno⟩
  · obtain ⟨id', t'', hrun', hadds, hf⟩ : ∃ id t', t.lowerType span e = (.ok id, t') ∧
        t.Adds t' ∅ [e] ∧ t'.find? e = some id := h.lowerType_known hk span
    rw [hrun] at hrun'
    cases hrun'
    exact ⟨hadds.toExtends, hf⟩
  · rw [lowerType_unknown hinner (h.findStruct?_eq_none hno)] at hrun
    cases hrun

/-- **A type is refused exactly when it is made of a name that no structure has**, and then nothing
is added. -/
theorem WellFormed.lowerType_eq_error (h : t.WellFormed) :
    t.lowerType span e = (.error error, t') ↔
      t' = t ∧ ∃ name, error = .unknownType name span ∧ e.innermost? = some name ∧
        ∀ id, ¬ t.IsStruct name id := by
  constructor
  · intro hrun
    rcases h.knows_or_missing e with hk | ⟨name, hinner, hno⟩
    · obtain ⟨id, t'', hrun', _⟩ : ∃ id t', t.lowerType span e = (.ok id, t') ∧
          t.Adds t' ∅ [e] ∧ t'.find? e = some id := h.lowerType_known hk span
      rw [hrun] at hrun'
      cases hrun'
    · rw [lowerType_unknown hinner (h.findStruct?_eq_none hno)] at hrun
      cases hrun
      exact ⟨rfl, name, rfl, hinner, hno⟩
  · rintro ⟨rfl, name, rfl, hinner, hno⟩
    exact lowerType_unknown hinner (h.findStruct?_eq_none hno) span

end TypeSystem

/-! ## Calls -/

namespace Session

open TypeSystem

variable {s s' : Session}

/-- A written type is lowered, and the type is given out if there is one. -/
def lower (s : Session) (span : Span) (e : TypeExpr) : Session :=
  match s.types.lowerType span e with
  | (.ok id, t) => s.issue (id, t)
  | (.error _, t) => { s with types := t }

/-- One call: an operation on types that the type system has given out, or the lowering of any
written type. -/
def Calls (s s' : Session) : Prop :=
  s.Steps s' ∨ ∃ span e, s' = s.lower span e

theorem types_lower (s : Session) (span : Span) (e : TypeExpr) :
    (s.lower span e).types = (s.types.lowerType span e).2 := by
  unfold lower
  split
  · rename_i id t hrun
    rw [hrun]
    rfl
  · rename_i error t hrun
    rw [hrun]

/-- A lowering keeps the type system in order. -/
theorem Valid.lower (h : s.Valid) (span : Span) (e : TypeExpr) :
    (s.lower span e).Valid ∧ s.types.Keeps (s.lower span e).types := by
  unfold Session.lower
  split
  · rename_i id t hrun
    obtain ⟨hextends, hf⟩ := h.wellFormed.lowerType_eq_ok hrun
    have hid := hextends.wellFormed.lt_size_of_find? hf
    exact ⟨h.issue hextends.wellFormed hextends.keeps hid, hextends.keeps⟩
  · rename_i error t hrun
    obtain ⟨rfl, _⟩ := h.wellFormed.lowerType_eq_error.mp hrun
    exact ⟨h, .refl _⟩

/-- What holds after one call holds after any number of them. -/
theorem Valid.calls (h : s.Valid) (hcalls : Relation.ReflTransGen Calls s s') :
    s'.Valid ∧ s.types.Keeps s'.types := by
  induction hcalls with
  | refl => exact ⟨h, .refl _⟩
  | tail _ hcall ih =>
    obtain ⟨hvalid, hkeeps⟩ := ih
    rcases hcall with ⟨operation, hids, rfl⟩ | ⟨span, e, rfl⟩
    · obtain ⟨hvalid', hkeeps'⟩ := hvalid.perform hids
      exact ⟨hvalid', hkeeps.trans hkeeps'⟩
    · obtain ⟨hvalid', hkeeps'⟩ := hvalid.lower span e
      exact ⟨hvalid', hkeeps.trans hkeeps'⟩

/-- A type that was lowered stands for the same index after any calls. -/
theorem Valid.find?_later {span : Span} {e : TypeExpr} {id : TypeId} {t : TypeSystem}
    (h : s.Valid) (hrun : s.types.lowerType span e = (.ok id, t))
    (hcalls : Relation.ReflTransGen Calls (s.lower span e) s') : s'.types.find? e = some id := by
  obtain ⟨hextends, hf⟩ := h.wellFormed.lowerType_eq_ok hrun
  have htypes : (s.lower span e).types = t := by rw [types_lower, hrun]
  obtain ⟨hvalid, hkeeps⟩ := (h.lower span e).1.calls hcalls
  rw [htypes] at hkeeps
  exact hextends.wellFormed.find?_of_keeps hvalid.wellFormed hkeeps hf

/-- The indices that a type system gives written types from now on are those of the types: the same
for two written types exactly when they are the same type, and written as that type after any
calls. A written type has none exactly when it is made of a name that no structure has, and asking
for it changes nothing. -/
structure Canonical (s : Session) : Prop where
  same_iff : ∀ {span span' : Span} {a b : TypeExpr} {i j : TypeId} {t t' : TypeSystem}
    {s' : Session}, s.types.lowerType span a = (.ok i, t) →
      Relation.ReflTransGen Calls (s.lower span a) s' →
        s'.types.lowerType span' b = (.ok j, t') → (i = j ↔ a.core = b.core)
  text : ∀ {span : Span} {a : TypeExpr} {i : TypeId} {t : TypeSystem} {s' : Session},
    s.types.lowerType span a = (.ok i, t) → Relation.ReflTransGen Calls (s.lower span a) s' →
      s'.types.text i = a.core.text
  refused_iff : ∀ (span : Span) (a : TypeExpr),
    (∃ error t, s.types.lowerType span a = (.error error, t)) ↔
      ∃ name, a.innermost? = some name ∧ ∀ id, ¬ s.types.IsStruct name id
  unchanged : ∀ {span : Span} {a : TypeExpr} {error : TypeError} {t : TypeSystem},
    s.types.lowerType span a = (.error error, t) → t = s.types

theorem Valid.canonical (h : s.Valid) : s.Canonical where
  same_iff {span span' a b i j t t' s'} ha hcalls hb := by
    have hvalid := ((h.lower span a).1.calls hcalls).1
    obtain ⟨hextends, hfb⟩ := hvalid.wellFormed.lowerType_eq_ok hb
    have hfa := hextends.find? hvalid.wellFormed (h.find?_later ha hcalls)
    constructor
    · rintro rfl
      have hexpr := hextends.wellFormed.expr?_of_find? hfa
      rw [hextends.wellFormed.expr?_of_find? hfb] at hexpr
      exact (Option.some.inj hexpr).symm
    · intro hcore
      rw [← find?_core, hcore, find?_core, hfb] at hfa
      exact (Option.some.inj hfa).symm
  text ha hcalls := by
    have hvalid := ((h.lower _ _).1.calls hcalls).1
    exact text_of_expr? (hvalid.wellFormed.expr?_of_find? (h.find?_later ha hcalls))
  refused_iff span a := by
    constructor
    · rintro ⟨error, t, hrun⟩
      obtain ⟨_, name, _, hname⟩ := h.wellFormed.lowerType_eq_error.mp hrun
      exact ⟨name, hname⟩
    · rintro ⟨name, hname⟩
      exact ⟨_, _, h.wellFormed.lowerType_eq_error.mpr ⟨rfl, name, rfl, hname⟩⟩
  unchanged hrun := (h.wellFormed.lowerType_eq_error.mp hrun).1

end Session

/-- A type system with a structure, a pointer to which was lowered. -/
def treeTypes : Session :=
  ((Session.start 1).perform (.newStruct "Tree")).lower Span.none (.pointer (.named "Tree"))

/-- A slice of the structure was lowered, another structure got the same name, the first one got a
field, and an unknown name was refused. -/
def grownTreeTypes : Session :=
  (((treeTypes.lower Span.none (.slice (.named "Tree"))).perform (.newStruct "Tree")).perform
    (.addField 0 "next" 1)).lower Span.none (.array (.named "Leaf") 2)

end FrontEnd
