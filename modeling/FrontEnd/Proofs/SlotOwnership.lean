import FrontEnd.Proofs.Arena
import Mathlib.Data.List.Nodup
import Mathlib.Logic.Function.Basic

/-!
# Slots among several type systems

A process starts type systems, one after the other or one within the other, and any of them may
fill any slot. Which of them is used next is left open, so whatever order their scopes begin and end
in is a run.

* `Process` is the supply of stamps, the type systems started so far and what each slot holds;
  `Process.Steps` is one event, `Process.Run` any number of them.
* `Process.lastFill?` reads the last filling of a slot off the events.
* `Process.Consistent` is the invariant: each type system is in order, and no two have one stamp.
* `Process.Holds` says that a slot holds what it was last filled with; `Run.holds` that it always
  does.
* `slots_private`: a type system reads exactly its own fillings.
-/

set_option autoImplicit false

namespace FrontEnd

open TypeSystem

/-! ## One type system -/

namespace TypeSystem

variable {t : TypeSystem} {slot : TypeSlot} {id : TypeId}

@[simp] theorem stamp_newStruct (t : TypeSystem) (name : String) :
    (t.newStruct name).2.stamp = t.stamp := by
  cases hl : t.structs.lookup name with
  | some first => rw [newStruct_of_found hl]; rfl
  | none => rw [newStruct_of_missing hl]; rfl

@[simp] theorem stamp_addField (t : TypeSystem) (target : TypeId) (name : String) (field : TypeId) :
    (t.addField target name field).2.stamp = t.stamp := by
  unfold addField
  split <;> rfl

/-- A type is read from a slot that holds it under the stamp of the reader. -/
theorem readSlot?_eq_some_iff :
    t.readSlot? slot = some id ↔ slot.resolution? = some ⟨t.stamp, id⟩ ∧ id < t.size := by
  rw [readSlot?, Option.filter_eq_some_iff, TypeSlot.readAs?_eq_some_iff, decide_eq_true_iff]

end TypeSystem

/-- The stamp of a type system never changes. -/
theorem Session.stamp_perform (s : Session) (operation : TypeOperation) :
    (s.perform operation).types.stamp = s.types.stamp := by
  cases operation with
  | newStruct name => exact stamp_newStruct s.types name
  | addField target name field => exact stamp_addField s.types target name field
  | _ => exact stamp_intern s.types _

/-! ## Processes -/

/-- The type systems that were started, in that order, and what each slot holds. -/
structure Process where
  supply : StampSupply
  sessions : List Session
  slots : Nat → TypeSlot

namespace Process

/-- Before the first type system no slot is filled. -/
def initial : Process := ⟨.initial, [], fun _ => TypeSlot.empty⟩

/-- What can happen. Type systems are numbered in the order in which they were started. -/
inductive Event where
  | start
  | operate (system : Nat) (operation : TypeOperation)
  | fill (system slot : Nat) (id : TypeId)

/-- One event. A type system works on the types that it has given out, and fills slots with them. -/
inductive Steps : Process → Event → Process → Prop where
  | start (p : Process) :
      Steps p .start
        { p with supply := p.supply.start.2, sessions := p.sessions ++ [⟨p.supply.start.1, []⟩] }
  | operate {p : Process} {i : Nat} {s : Session} {operation : TypeOperation}
      (hs : p.sessions[i]? = some s) (hids : ∀ id ∈ operation.operands, id ∈ s.issued) :
      Steps p (.operate i operation) { p with sessions := p.sessions.set i (s.perform operation) }
  | fill {p : Process} {i : Nat} {s : Session} {slot : Nat} {id : TypeId}
      (hs : p.sessions[i]? = some s) (hid : id ∈ s.issued) :
      Steps p (.fill i slot id)
        { p with slots :=
            Function.update p.slots slot (s.types.assignSlot (p.slots slot) id) }

/-- Events one after the other. -/
inductive Run : Process → List Event → Process → Prop where
  | nil (p : Process) : Run p [] p
  | cons {p p₁ p' : Process} {e : Event} {es : List Event} (hstep : Steps p e p₁)
      (hrun : Run p₁ es p') : Run p (e :: es) p'

/-- The type system that fills the slot and the type, if the event is one of filling it. -/
def Event.fillOf? (slot : Nat) : Event → Option (Nat × TypeId)
  | fill system filled id => if filled = slot then some (system, id) else none
  | _ => none

/-- The type system that fills the slot last, and the type. -/
def lastFill? (slot : Nat) : List Event → Option (Nat × TypeId)
  | [] => none
  | e :: es => (lastFill? slot es).or (e.fillOf? slot)

/-! ## The invariant -/

/-- Each type system is in order, no two have one stamp, and the next stamp is a new one. -/
structure Consistent (p : Process) : Prop where
  valid : ∀ s ∈ p.sessions, s.Valid
  below : ∀ s ∈ p.sessions, s.types.stamp < p.supply.next
  stamps : (p.sessions.map fun s => s.types.stamp).Nodup

/-- The type systems are still there, with their stamps and at least their types. -/
def Extends (p p' : Process) : Prop :=
  ∀ (i : Nat) (s : Session), p.sessions[i]? = some s → ∃ s' : Session,
    p'.sessions[i]? = some s' ∧ s'.types.stamp = s.types.stamp ∧ s.types.size ≤ s'.types.size

/-- The slot holds what it was last filled with, under the stamp of the type system that did. -/
def Holds (p : Process) (slot : Nat) : Option (Nat × TypeId) → Prop
  | none => p.slots slot = TypeSlot.empty
  | some (i, id) => ∃ s : Session, p.sessions[i]? = some s ∧ id < s.types.size ∧
      (p.slots slot).resolution? = some ⟨s.types.stamp, id⟩

variable {p p' : Process} {slot : Nat}

theorem consistent_initial : initial.Consistent where
  valid _ hs := absurd hs List.not_mem_nil
  below _ hs := absurd hs List.not_mem_nil
  stamps := List.nodup_nil

theorem Extends.refl (p : Process) : p.Extends p :=
  fun _ s hs => ⟨s, hs, rfl, Nat.le_refl _⟩

theorem Extends.trans {p'' : Process} (h : p.Extends p') (h' : p'.Extends p'') :
    p.Extends p'' := by
  intro i s hs
  obtain ⟨s', hs', hstamp, hsize⟩ := h i s hs
  obtain ⟨s'', hs'', hstamp', hsize'⟩ := h' i s' hs'
  exact ⟨s'', hs'', hstamp'.trans hstamp, Nat.le_trans hsize hsize'⟩

/-- A stamp belongs to one type system. -/
theorem Consistent.index_unique (h : p.Consistent) {i j : Nat} {s s' : Session}
    (hs : p.sessions[i]? = some s) (hs' : p.sessions[j]? = some s')
    (hstamp : s.types.stamp = s'.types.stamp) : i = j := by
  obtain ⟨hi, rfl⟩ := List.getElem?_eq_some_iff.mp hs
  obtain ⟨hj, rfl⟩ := List.getElem?_eq_some_iff.mp hs'
  have hi' : i < (p.sessions.map fun s => s.types.stamp).length := by simpa using hi
  have hj' : j < (p.sessions.map fun s => s.types.stamp).length := by simpa using hj
  have hsame : (p.sessions.map fun s => s.types.stamp)[i] =
      (p.sessions.map fun s => s.types.stamp)[j] := by simpa using hstamp
  exact h.stamps.getElem_inj_iff.mp hsame

/-- A slot that is left alone goes on to hold what it does. -/
theorem Holds.of_extends {last : Option (Nat × TypeId)} (h : p.Holds slot last)
    (hext : p.Extends p') (hslot : p'.slots slot = p.slots slot) : p'.Holds slot last := by
  cases last with
  | none => exact hslot.trans h
  | some last =>
    obtain ⟨s, hs, hid, hholds⟩ := h
    obtain ⟨s', hs', hstamp, hsize⟩ := hext last.1 s hs
    exact ⟨s', hs', Nat.lt_of_lt_of_le hid hsize, by rw [hslot, hholds, hstamp]⟩

/-! ## One event -/

/-- A type system that was just started has a stamp of its own. -/
theorem Consistent.start (h : p.Consistent) :
    ({ p with supply := p.supply.start.2
              sessions := p.sessions ++ [⟨p.supply.start.1, []⟩] } : Process).Consistent := by
  refine ⟨fun s hs => ?_, fun s hs => ?_, ?_⟩
  · rcases List.mem_append.mp hs with hs | hs
    · exact h.valid s hs
    · rw [List.mem_singleton.mp hs]
      exact Session.valid_start p.supply.next
  · rcases List.mem_append.mp hs with hs | hs
    · exact Nat.lt_succ_of_lt (h.below s hs)
    · rw [List.mem_singleton.mp hs]
      exact Nat.lt_succ_self p.supply.next
  · rw [List.map_append, List.map_singleton, List.nodup_append]
    refine ⟨h.stamps, List.nodup_singleton _, fun stamp hstamp new hnew => ?_⟩
    obtain ⟨s, hs, rfl⟩ := List.mem_map.mp hstamp
    rw [List.mem_singleton.mp hnew]
    exact Nat.ne_of_lt (h.below s hs)

theorem extends_start (p : Process) :
    p.Extends { p with supply := p.supply.start.2
                       sessions := p.sessions ++ [⟨p.supply.start.1, []⟩] } := by
  intro i s hs
  have hi : i < p.sessions.length := (List.getElem?_eq_some_iff.mp hs).1
  exact ⟨s, by rw [List.getElem?_append_left hi, hs], rfl, Nat.le_refl _⟩

section

variable {i : Nat} {s : Session} {operation : TypeOperation}

theorem stamps_set (hs : p.sessions[i]? = some s) (operation : TypeOperation) :
    (p.sessions.set i (s.perform operation)).map (fun s => s.types.stamp) =
      p.sessions.map fun s => s.types.stamp := by
  obtain ⟨hi, rfl⟩ := List.getElem?_eq_some_iff.mp hs
  have hlt : i < (p.sessions.map fun s => s.types.stamp).length := by simpa using hi
  have hstamp : (p.sessions[i].perform operation).types.stamp =
      (p.sessions.map fun s => s.types.stamp)[i] := by
    rw [Session.stamp_perform, List.getElem_map]
  rw [List.map_set, hstamp, List.set_getElem_self hlt]

/-- An operation on one type system leaves the stamps as they are. -/
theorem Consistent.operate (h : p.Consistent) (hs : p.sessions[i]? = some s)
    (hids : ∀ id ∈ operation.operands, id ∈ s.issued) :
    ({ p with sessions := p.sessions.set i (s.perform operation) } : Process).Consistent := by
  have hmem : s ∈ p.sessions := List.mem_of_getElem? hs
  refine ⟨fun s' hs' => ?_, fun s' hs' => ?_, ?_⟩
  · rcases List.mem_or_eq_of_mem_set hs' with hs' | rfl
    · exact h.valid s' hs'
    · exact ((h.valid s hmem).perform hids).1
  · rcases List.mem_or_eq_of_mem_set hs' with hs' | rfl
    · exact h.below s' hs'
    · rw [Session.stamp_perform]
      exact h.below s hmem
  · rw [stamps_set hs]
    exact h.stamps

theorem Consistent.extends_operate (h : p.Consistent) (hs : p.sessions[i]? = some s)
    (hids : ∀ id ∈ operation.operands, id ∈ s.issued) :
    p.Extends { p with sessions := p.sessions.set i (s.perform operation) } := by
  intro j s' hs'
  by_cases hij : i = j
  · subst hij
    rw [hs] at hs'
    cases hs'
    have hi : i < p.sessions.length := (List.getElem?_eq_some_iff.mp hs).1
    exact ⟨s.perform operation, List.getElem?_set_self hi, s.stamp_perform operation,
      ((h.valid s (List.mem_of_getElem? hs)).perform hids).2.size_le⟩
  · exact ⟨s', by rw [List.getElem?_set_ne hij, hs'], rfl, Nat.le_refl _⟩

end

/-- **An event keeps the process consistent**, and every type system with its stamp and types. -/
theorem Consistent.step {e : Event} (h : p.Consistent) (hstep : Steps p e p') :
    p'.Consistent ∧ p.Extends p' := by
  cases hstep with
  | start => exact ⟨h.start, extends_start p⟩
  | operate hs hids => exact ⟨h.operate hs hids, h.extends_operate hs hids⟩
  | fill _ _ => exact ⟨⟨h.valid, h.below, h.stamps⟩, .refl p⟩

/-- **After an event a slot holds what it was last filled with**: by the event, if that fills it. -/
theorem Holds.step {e : Event} {last : Option (Nat × TypeId)} (h : p.Holds slot last)
    (hp : p.Consistent) (hstep : Steps p e p') : p'.Holds slot ((e.fillOf? slot).or last) := by
  have hext := (hp.step hstep).2
  cases hstep with
  | start => exact h.of_extends hext rfl
  | operate _ _ => exact h.of_extends hext rfl
  | @fill i s filled id hs hid =>
    by_cases hfilled : filled = slot
    · subst hfilled
      rw [Event.fillOf?, if_pos rfl, Option.some_or]
      refine ⟨s, hs, (hp.valid s (List.mem_of_getElem? hs)).issued id hid, ?_⟩
      dsimp only
      rw [Function.update_self]
      rfl
    · rw [Event.fillOf?, if_neg hfilled, Option.none_or]
      refine h.of_extends hext ?_
      dsimp only
      rw [Function.update_of_ne (Ne.symm hfilled)]

/-! ## Whole runs -/

namespace Run

variable {es : List Event}

theorem consistent (h : Run p es p') (hp : p.Consistent) : p'.Consistent ∧ p.Extends p' := by
  induction h with
  | nil p => exact ⟨hp, .refl p⟩
  | cons hstep _ ih =>
    obtain ⟨hp₁, hext⟩ := hp.step hstep
    obtain ⟨hp', hext'⟩ := ih hp₁
    exact ⟨hp', hext.trans hext'⟩

theorem holds (h : Run p es p') (hp : p.Consistent) {last : Option (Nat × TypeId)}
    (hlast : p.Holds slot last) : p'.Holds slot ((lastFill? slot es).or last) := by
  induction h generalizing last with
  | nil p => exact hlast
  | cons hstep _ ih =>
    rw [lastFill?, Option.or_assoc]
    exact ih (hp.step hstep).1 (hlast.step hp hstep)

end Run

/-- What a type system reads from a slot is the type it was last filled with, if it did that. -/
theorem Holds.readSlot?_iff {last : Option (Nat × TypeId)} (h : p.Holds slot last)
    (hp : p.Consistent) {i : Nat} {s : Session} (hs : p.sessions[i]? = some s) (id : TypeId) :
    s.types.readSlot? (p.slots slot) = some id ↔ last = some (i, id) := by
  rw [readSlot?_eq_some_iff]
  cases last with
  | none =>
    have hempty : p.slots slot = TypeSlot.empty := h
    simp [hempty, TypeSlot.empty]
  | some last =>
    obtain ⟨j, id'⟩ := last
    obtain ⟨s', hs', hid', hholds⟩ := h
    rw [hholds]
    constructor
    · rintro ⟨hsame, -⟩
      obtain ⟨hstamp, rfl⟩ := Resolution.mk.inj (Option.some.inj hsame)
      rw [hp.index_unique hs' hs hstamp]
    · intro hsame
      cases hsame
      rw [hs'] at hs
      cases hs
      exact ⟨rfl, hid'⟩

/-- **A slot is private to the type system that filled it.** After any events, a type system reads a
type from a slot exactly if it was the last to fill the slot and did so with that type, and nothing
otherwise. The answer stays the same whatever happens later, but for the slot being filled again. -/
theorem slots_private {es : List Event} {p : Process} (h : Run initial es p) {i : Nat}
    {s : Session} (hs : p.sessions[i]? = some s) (slot : Nat) :
    (∀ id, s.types.readSlot? (p.slots slot) = some id ↔ lastFill? slot es = some (i, id)) ∧
      ((∀ id, lastFill? slot es ≠ some (i, id)) → s.types.readSlot? (p.slots slot) = none) ∧
      ∀ es' p', Run p es' p' → lastFill? slot es' = none →
        ∃ s' : Session, p'.sessions[i]? = some s' ∧ s'.types.stamp = s.types.stamp ∧
          s'.types.readSlot? (p'.slots slot) = s.types.readSlot? (p.slots slot) := by
  have hp := (h.consistent consistent_initial).1
  have hholds : p.Holds slot (lastFill? slot es) := by
    have hinitial : initial.Holds slot none := rfl
    simpa using h.holds consistent_initial hinitial
  have hreads := hholds.readSlot?_iff hp hs
  refine ⟨hreads, fun hno => ?_, fun es' p' hrun hnone => ?_⟩
  · exact Option.eq_none_iff_forall_ne_some.mpr fun id hid => hno id ((hreads id).mp hid)
  · obtain ⟨hp', hext⟩ := hrun.consistent hp
    obtain ⟨s', hs', hstamp, _⟩ := hext i s hs
    have hholds' : p'.Holds slot (lastFill? slot es) := by
      simpa [hnone] using hrun.holds hp hholds
    refine ⟨s', hs', hstamp, Option.ext fun id => ?_⟩
    rw [hholds'.readSlot?_iff hp' hs' id, hreads id]

/-- A type system is started within another, and both fill one slot with their first type. -/
def nestedFillings : List Event :=
  [.start, .operate 0 .newBool, .start, .operate 1 .newChar, .fill 0 5 0, .fill 1 5 0,
    .operate 0 .newUnit]

/-- Both have a type at the index in the slot; the inner one reads it and the outer one does not. -/
theorem slots_private_nested :
    ∃ (p : Process) (outer inner : Session), Run initial nestedFillings p ∧
      (p.sessions[0]? = some outer ∧ outer.types.get? 0 = some .bool ∧
        outer.types.readSlot? (p.slots 5) = none) ∧
      (p.sessions[1]? = some inner ∧ inner.types.get? 0 = some .char ∧
        inner.types.readSlot? (p.slots 5) = some 0) := by
  obtain ⟨p, outer, inner, hrun, houter, hbool, hinner, hchar⟩ :
      ∃ (p : Process) (outer inner : Session), Run initial nestedFillings p ∧
        p.sessions[0]? = some outer ∧ outer.types.get? 0 = some .bool ∧
        p.sessions[1]? = some inner ∧ inner.types.get? 0 = some .char :=
    ⟨_, _, _, .cons (.start _) <| .cons (.operate rfl (by decide)) <| .cons (.start _) <|
      .cons (.operate rfl (by decide)) <| .cons (.fill rfl (by decide)) <|
      .cons (.fill rfl (by decide)) <| .cons (.operate rfl (by decide)) <| .nil _,
      rfl, rfl, rfl, rfl⟩
  refine ⟨p, outer, inner, hrun, ⟨houter, hbool, ?_⟩, hinner, hchar, ?_⟩
  · refine (slots_private hrun houter 5).2.1 fun id hid => ?_
    cases hid
  · exact ((slots_private hrun hinner 5).1 0).mpr rfl

end Process

end FrontEnd
