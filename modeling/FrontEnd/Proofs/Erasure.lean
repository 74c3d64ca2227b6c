import FrontEnd.Proofs.Shape

/-!
# Trees without their spans

Two readings of one declaration differ in where it stands only. `erase` forgets every span of a
tree and keeps the rest, slots included, so that equality of erased trees is equality in all but
spans.

* `Expr.erase`, `Declaration.erase`, `Module.erase`.
* `Module.toSource_erase`: spans are not printed.
-/

set_option autoImplicit false

namespace FrontEnd

/-- The slot alone. -/
def Site.erase (s : Site) : Site := ⟨Span.none, s.slot⟩

namespace Expr

mutual

/-- The expression with every span forgotten. -/
def erase : Expr → Expr
  | atom site a => atom site.erase a
  | unary site op operand => unary site.erase op operand.erase
  | binary site op left right => binary site.erase op left.erase right.erase
  | tuple site elements => tuple site.erase (eraseSeries elements)
  | call site callee args => call site.erase callee.erase (eraseSeries args)
  | block site statements => block site.erase (eraseSeries statements)
  | ifChain site branches => ifChain site.erase (eraseArms branches)
  | loop site body => loop site.erase body.erase
  | accessor site object member => accessor site.erase object.erase member

/-- Expressions with every span forgotten. -/
def eraseSeries : List Expr → List Expr
  | [] => []
  | e :: es => e.erase :: eraseSeries es

/-- An arm with every span forgotten. -/
def eraseArm : Branch → Branch
  | .guarded condition body => .guarded condition.erase body.erase
  | .always body => .always body.erase

/-- Arms with every span forgotten. -/
def eraseArms : List Branch → List Branch
  | [] => []
  | b :: bs => eraseArm b :: eraseArms bs

end

theorem isBinary_erase (e : Expr) : e.erase.isBinary = e.isBinary := by
  cases e <;> rfl

theorem isConditional_erase (e : Expr) : e.erase.isConditional = e.isConditional := by
  cases e <;> rfl

theorem isLooserThan_erase (e : Expr) (level : Nat) :
    e.erase.isLooserThan level = e.isLooserThan level := by
  cases e <;> rfl

theorem firstChar?_erase (e : Expr) : e.erase.firstChar? = e.firstChar? := by
  induction e using firstChar?.induct with
  | case5 site callee args ih => simpa [erase, firstChar?] using ih
  | case9 site object member ih => simpa [erase, firstChar?] using ih
  | _ => rfl

mutual

theorem pieces_erase : (e : Expr) → e.erase.pieces = e.pieces
  | atom _ _ => rfl
  | unary _ op operand => by
    rw [erase, pieces, pieces, pieces_erase operand, isBinary_erase, firstChar?_erase]
  | binary _ op left right => by
    rw [erase, pieces, pieces, pieces_erase left, pieces_erase right, isLooserThan_erase,
      isLooserThan_erase]
  | tuple _ elements => by rw [erase, pieces, pieces, listPieces_erase elements]
  | call _ callee args => by
    rw [erase, pieces, pieces, pieces_erase callee, listPieces_erase args, isBinary_erase]
  | block _ [] => rfl
  | block _ (e :: es) => by
    rw [erase, eraseSeries, pieces, pieces, pieces_erase e, statementPieces_erase es,
      isBinary_erase]
  | ifChain _ [] => rfl
  | ifChain _ (b :: bs) => by
    rw [erase, eraseArms, pieces, pieces, branchPieces_erase b, elsePieces_erase bs]
  | loop _ body => by rw [erase, pieces, pieces, pieces_erase body, isBinary_erase]
  | accessor _ object member => by
    rw [erase, pieces, pieces, pieces_erase object, isBinary_erase]

theorem listPieces_erase : (es : List Expr) → listPieces (eraseSeries es) = listPieces es
  | [] => rfl
  | e :: es => by
    rw [eraseSeries, listPieces, listPieces, pieces_erase e, commaPieces_erase es]

theorem commaPieces_erase : (es : List Expr) → commaPieces (eraseSeries es) = commaPieces es
  | [] => rfl
  | e :: es => by
    rw [eraseSeries, commaPieces, commaPieces, pieces_erase e, commaPieces_erase es]

theorem statementPieces_erase :
    (es : List Expr) → statementPieces (eraseSeries es) = statementPieces es
  | [] => rfl
  | e :: es => by
    rw [eraseSeries, statementPieces, statementPieces, pieces_erase e, statementPieces_erase es,
      isBinary_erase]

theorem branchPieces_erase : (b : Branch) → branchPieces (eraseArm b) = branchPieces b
  | .guarded condition body => by
    rw [eraseArm, branchPieces, branchPieces, pieces_erase condition, pieces_erase body,
      isBinary_erase, isBinary_erase]
  | .always body => by
    rw [eraseArm, branchPieces, branchPieces, pieces_erase body, isBinary_erase]

theorem elsePieces_erase : (bs : List Branch) → elsePieces (eraseArms bs) = elsePieces bs
  | [] => rfl
  | b :: bs => by
    rw [eraseArms, elsePieces, elsePieces, branchPieces_erase b, elsePieces_erase bs]

end

end Expr

/-- The parameter without its span. -/
def Parameter.erase (p : Parameter) : Parameter := { p with span := Span.none }

/-- The member without its span. -/
def Member.erase (m : Member) : Member := { m with span := Span.none }

/-- The function with every span forgotten. -/
def Function.erase (f : Function) : Function :=
  { f with params := f.params.map Parameter.erase, body := f.body.map Expr.erase,
           span := Span.none }

/-- The structure with every span forgotten. -/
def Struct.erase (s : Struct) : Struct :=
  { s with members := s.members.map Member.erase, span := Span.none }

/-- The declaration with every span forgotten. -/
def Declaration.erase : Declaration → Declaration
  | .function f => .function f.erase
  | .struct s => .struct s.erase

/-- The module with every span forgotten. -/
def Module.erase (m : Module) : Module := m.map Declaration.erase

theorem Function.pieces_erase (f : Function) : f.erase.pieces = f.pieces := by
  have hparams : (f.params.map Parameter.erase).map Parameter.pieces =
      f.params.map Parameter.pieces := by
    rw [List.map_map]
    rfl
  unfold Function.pieces Function.erase
  cases f.body with
  | none => simp only [hparams, Option.map_none]
  | some body => simp only [hparams, Option.map_some, Expr.pieces_erase]

theorem Struct.pieces_erase (s : Struct) : s.erase.pieces = s.pieces := by
  have hmembers : (s.members.map Member.erase).map Member.pieces =
      s.members.map Member.pieces := by
    rw [List.map_map]
    rfl
  unfold Struct.pieces Struct.erase
  simp only [hmembers, List.isEmpty_map]

theorem Declaration.pieces_erase (d : Declaration) : d.erase.pieces = d.pieces := by
  cases d with
  | function f => exact f.pieces_erase
  | struct s => exact s.pieces_erase

/-- Spans are not printed. -/
theorem Module.toSource_erase (indentSize : Nat) (m : Module) :
    Module.toSource indentSize m.erase = Module.toSource indentSize m := by
  have hpieces : Module.pieces m.erase = Module.pieces m := by
    unfold Module.pieces Module.erase
    rw [List.map_map]
    congr 1
    refine List.map_congr_left fun d _ => ?_
    rw [Function.comp_apply, d.pieces_erase]
  rw [Module.toSource, Module.toSource, hpieces]

end FrontEnd
