import FrontEnd.Proofs.ReparsingModules
import FrontEnd.Proofs.Spelling

/-!
# The words of what is parsed

A tree says more than the tokens of a source can: a name may be any string in it. The trees that are
parsed from a source have only the names and characters that a source can spell.

* `Terminal.Lexed`, `TypeExpr.Lexed`, `Expr.Lexed`, `Declaration.Lexed` are the conditions.
* `Reads.lexed`: an expression that is derived from tokens of a source has no other words, by
  induction on the derivation; `parseModule_lexed` says it of a module.
-/

set_option autoImplicit false

namespace FrontEnd

open Grammar FrontEnd.Parser

/-! ## Conditions on trees -/

/-- A name is one that a source can spell, and a character no single quote. -/
def Terminal.Lexed : Terminal → Prop
  | identifier name => IsName name
  | character value => value ≠ '\''
  | _ => True

/-- Every name is one that a source can spell and that is no built-in type. -/
def TypeExpr.Lexed (e : TypeExpr) : Prop := (∀ s ∈ e.names, IsName s) ∧ e.OwnNames

/-- What holds of one node of a tree that is parsed from a source. -/
def Expr.Lexed : Expr → Prop
  | .atom _ terminal => terminal.Lexed
  | .accessor _ _ member => IsName member
  | _ => True

/-- Names, types and body have the words of a source. -/
structure Function.Lexed (f : Function) : Prop where
  name : IsName f.name
  params : ∀ p ∈ f.params, IsName p.name ∧ p.type.Lexed
  returnType : f.returnType.Lexed
  body : ∀ e ∈ f.body, e.All Expr.Lexed

/-- Names and types have the words of a source. -/
structure Struct.Lexed (s : Struct) : Prop where
  name : IsName s.name
  members : ∀ m ∈ s.members, IsName m.name ∧ m.type.Lexed

/-- What holds of a declaration that is parsed from a source. -/
def Declaration.Lexed : Declaration → Prop
  | .function f => f.Lexed
  | .struct s => s.Lexed

/-! ## Places in the tokens of a source -/

/-- The tokens that are left come from a source. -/
def Cursor.Lexed (c : Cursor) : Prop := ∀ t ∈ c.rest, t.Lexed

namespace Cursor.Lexed

variable {c c' : Cursor}

theorem after (h : c.Lexed) (hr : c.Reaches c') : c'.Lexed := fun t ht => h t (hr.mem ht)

theorem next (h : c.Lexed) : c.next.Lexed := by
  obtain ⟨passed, rest⟩ := c
  cases rest with
  | nil => exact h
  | cons t ts => exact fun u hu => h u (List.mem_cons_of_mem t hu)

theorem skipIf (h : c.Lexed) (kind : TokenKind) (text : String) : (c.skipIf kind text).Lexed := by
  cases hn : c.nextIs kind text with
  | true =>
    rw [Cursor.skipIf_of hn]
    exact h.next
  | false =>
    rw [Cursor.skipIf_of_not hn]
    exact h

theorem token {t : Token} (h : c.Lexed) (ht : c.peek? = some t) : t.Lexed := by
  refine h t ?_
  rw [Cursor.peek?_eq_some_iff.mp ht]
  exact List.mem_cons_self

theorem name {t : Token} (h : c.Lexed) (ht : c.peek? = some t) (hk : t.kind = .identifier) :
    IsName t.text :=
  (h.token ht).identifier hk

end Cursor.Lexed

/-! ## Derivations -/

theorem TerminalReads.lexed {a : Terminal} {c c' : Cursor} (h : TerminalReads a c c')
    (hc : c.Lexed) : a.Lexed := by
  cases h with
  | character ht hk hv =>
    obtain ⟨v, hx, hquote⟩ := (hc.token ht).char hk
    rw [hx, Char.toString_eq_singleton, String.toList_singleton] at hv
    cases hv
    exact hquote
  | identifier ht hk => exact hc.name ht hk
  | _ => trivial

theorem TypeReads.lexed {e : TypeExpr} {c c' : Cursor} (h : TypeReads e c c') :
    c.Lexed → e.Lexed := by
  induction h with
  | word ht hk =>
    intro hc
    unfold TypeExpr.ofWord
    rename_i c t
    cases hp : TypeExpr.primitive? t.text with
    | some e =>
      have hnone := (TypeExpr.words_of_primitive? hp).2
      rw [Option.getD_some]
      exact ⟨by simp [hnone], by simp [TypeExpr.OwnNames, hnone]⟩
    | none =>
      have hname := hc.name ht hk
      rw [Option.getD_none]
      exact ⟨by simpa [TypeExpr.names] using hname, by simpa [TypeExpr.OwnNames, TypeExpr.names]⟩
  | unit _ _ => exact fun _ => ⟨by simp [TypeExpr.names], by simp [TypeExpr.OwnNames, TypeExpr.names]⟩
  | slice _ _ _ ih => exact fun hc => ih hc.next
  | array _ _ _ _ _ _ ih => exact fun hc => ih hc.next
  | ref _ _ ih => exact fun hc => ih hc.next
  | refRef _ _ ih => exact fun hc => ih hc.next
  | pointer _ _ ih => exact fun hc => ih hc.next

/-- What holds of a phrase in the tokens of a source. -/
def Phrase.Lexed : Phrase → Prop
  | .operand e | .primary e | .operation e => e.All Expr.Lexed
  | .postfixes first e | .climb _ first e => first.All Expr.Lexed → e.All Expr.Lexed
  | .elements es | .statements es => Expr.AllIn Expr.Lexed es
  | .arms bs => Expr.AllInArms Expr.Lexed bs

/-- **What is derived from tokens of a source has the words of a source.** -/
theorem Reads.lexed {infixed : Bool} {p : Phrase} {c c' : Cursor} (h : Reads infixed p c c') :
    c.Lexed → p.Lexed := by
  induction h with
  | operand hp _ ihp ihx => exact fun hc => ihx (hc.after hp.reaches) (ihp hc)
  | unary _ _ _ ih => exact fun hc => ⟨trivial, ih hc.next⟩
  | atom ha => exact fun hc => ha.lexed hc
  | tuple _ _ _ ih => exact fun hc => ⟨trivial, ih hc.next⟩
  | block _ _ ih => exact fun hc => ⟨trivial, ih hc.next⟩
  | ifChain _ _ ih => exact fun hc => ⟨trivial, ih hc.next⟩
  | loop _ _ ih => exact fun hc => ⟨trivial, ih hc.next⟩
  | postfixesDone _ => exact fun _ hall => hall
  | emptyCall _ _ _ ih => exact fun hc hall => ih hc.next.next ⟨trivial, hall, trivial⟩
  | call _ hes _ _ ihes ih =>
    intro hc hall
    exact ih (hc.next.after hes.reaches).next ⟨trivial, hall, ihes hc.next⟩
  | access _ ht hk _ ih =>
    intro hc hall
    exact ih hc.next.next ⟨hc.next.name ht hk, hall⟩
  | operation hp _ ihp ihx => exact fun hc => ihx (hc.after hp.reaches) (ihp hc)
  | climbDone _ => exact fun _ hall => hall
  | climbStep _ _ hp hr _ ihp ihr ihx =>
    intro hc hall
    have hc₁ := hc.next.after hp.reaches
    have hright := ihr hc₁ (ihp hc.next)
    exact ihx (hc₁.after hr.reaches) ⟨trivial, hall, hright⟩
  | lastElement _ ih => exact fun hc => ⟨ih hc, trivial⟩
  | element he _ _ ih ihes => exact fun hc => ⟨ih hc, ihes (hc.after he.reaches).next⟩
  | noStatement _ => exact fun _ => trivial
  | statement _ he _ ih ihes =>
    exact fun hc => ⟨ih hc, ihes ((hc.after he.reaches).skipIf .symbol ";")⟩
  | lastArm hcond _ _ ihc ihb =>
    intro hc
    have hc₁ := (hc.after hcond.reaches).skipIf .keyword "then"
    exact ⟨⟨ihc hc, ihb hc₁⟩, trivial⟩
  | elseArm hcond hb _ _ _ ihc ihb ihl =>
    intro hc
    have hc₁ := (hc.after hcond.reaches).skipIf .keyword "then"
    exact ⟨⟨ihc hc, ihb hc₁⟩, ihl (hc₁.after hb.reaches).next, trivial⟩
  | elseIfArm hcond hb _ _ _ ihc ihb ihbs =>
    intro hc
    have hc₁ := (hc.after hcond.reaches).skipIf .keyword "then"
    exact ⟨⟨ihc hc, ihb hc₁⟩, ihbs (hc₁.after hb.reaches).next.next⟩

/-! ## Declarations -/

theorem BindingReads.lexed {name : String} {type : TypeExpr} {c c' : Cursor}
    (h : BindingReads name type c c') (hc : c.Lexed) : IsName name ∧ type.Lexed := by
  obtain ⟨t, ht, hk, hx⟩ := h.token
  exact ⟨hx ▸ hc.name ht hk, h.type.lexed hc.next.next⟩

theorem ParameterReads.lexed {p : Parameter} {c c' : Cursor} (h : ParameterReads p c c')
    (hc : c.Lexed) : IsName p.name ∧ p.type.Lexed := by
  cases h with
  | mk h => exact h.lexed hc

theorem MemberReads.lexed {m : Member} {c c' : Cursor} (h : MemberReads m c c')
    (hc : c.Lexed) : IsName m.name ∧ m.type.Lexed := by
  cases h with
  | mk h => exact h.lexed (hc.skipIf .keyword "public")

theorem ParameterReads.lexed_next {p : Parameter} {c c' : Cursor} (h : ParameterReads p c c')
    (hc : c.Lexed) : c'.next.Lexed :=
  (hc.after h.reaches).next

theorem MemberReads.lexed_next {m : Member} {c c' : Cursor} (h : MemberReads m c c')
    (hc : c.Lexed) : c'.next.Lexed :=
  (hc.after h.reaches).next

theorem ParameterListReads.lexed {ps : Parameters} {c c' : Cursor}
    (h : ParameterListReads ps c c') (hc : c.Lexed) :
    ∀ p ∈ ps.bindings, IsName p.name ∧ p.type.Lexed := by
  cases h with
  | empty _ _ => simp [Parameters.none]
  | fixed _ hps _ =>
    exact hps.forall_mem (fun _ _ _ h => h.lexed) (fun _ _ _ h => h.lexed_next) hc.next
  | variadic _ hps _ _ _ =>
    exact hps.forall_mem (fun _ _ _ h => h.lexed) (fun _ _ _ h => h.lexed_next) hc.next
  | omitted _ => simp [Parameters.none]

theorem ReturnReads.lexed {type : TypeExpr} {c c' : Cursor} (h : ReturnReads type c c')
    (hc : c.Lexed) : type.Lexed := by
  cases h with
  | written _ ht => exact ht.lexed hc.next
  | omitted _ => exact ⟨by simp [TypeExpr.names], by simp [TypeExpr.OwnNames, TypeExpr.names]⟩

theorem FunctionReads.lexed {infixed : Bool} {f : Function} {c c' : Cursor}
    (h : FunctionReads infixed f c c') (hc : c.Lexed) : f.Lexed := by
  cases h with
  | mk hhead _ ht hk hp hr hb =>
    subst hhead
    have hname := (hc.skipIf .keyword "extern").next
    have hc₁ := hname.next.after hp.reaches
    refine ⟨hname.name ht hk, hp.lexed hname.next, hr.lexed hc₁, ?_⟩
    intro e he
    cases hb with
    | written _ hbody =>
      cases he
      exact hbody.lexed (hc₁.after hr.reaches).next
    | omitted _ => cases he

theorem StructReads.lexed {s : Struct} {c c' : Cursor} (h : StructReads s c c')
    (hc : c.Lexed) : s.Lexed := by
  cases h with
  | mk _ ht hk _ hm _ =>
    refine ⟨hc.next.name ht hk, ?_⟩
    rcases hm with ⟨rfl, _⟩ | hm
    · simp
    · exact hm.forall_mem (fun _ _ _ h => h.lexed) (fun _ _ _ h => h.lexed_next) hc.next.next.next

/-- **The declarations of a source have the words of a source.** -/
theorem parseModule_lexed {tokens : List Token} (h : ∀ t ∈ tokens, t.Lexed) :
    ∀ d ∈ (parseModule tokens).declarations, d.Lexed := by
  intro d hd
  obtain ⟨c₁, c₂, hsuffix, hreads⟩ := mem_parseModule hd
  have hc : c₁.Lexed := fun t ht => h t (hsuffix.mem ht)
  cases hreads with
  | function h => exact h.lexed hc
  | struct h => exact h.lexed hc

end FrontEnd
