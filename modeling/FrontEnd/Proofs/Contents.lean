import FrontEnd.Proofs.Passing

/-!
# The contents of tokens

What is left of a list of tokens without its spans. A number and the suffix that stands directly
after it are one content, so that the contents say also which words are suffixes.

* `Carries` says that tokens have contents; `Carries.plain_inv` and the lemmas after it read one.
* `Terminal.contents`, `TypeExpr.contents`, `Expr.contents`, `Declaration.contents` are the contents
  of the tokens that a tree is written with.
-/

set_option autoImplicit false

namespace FrontEnd

open Grammar

/-- What one token says, or two that are a number and its suffix. -/
inductive Content where
  | integer (bits : UInt64) (type : TypeExpr)
  | boolean (value : Bool)
  | plain (kind : TokenKind) (text : String)
  deriving DecidableEq, Repr

namespace Content

/-- A symbol. -/
abbrev symbol (text : String) : Content := plain .symbol text

/-- A keyword. -/
abbrev keyword (text : String) : Content := plain .keyword text

/-- An identifier. -/
abbrev name (text : String) : Content := plain .identifier text

end Content

/-- The tokens have these contents. -/
inductive Carries : List Token → List Content → Prop where
  | nil : Carries [] []
  | integer {t : Token} {ts : List Token} {ws : List Content} (hk : t.kind = .number)
      (hs : suffixAt? ⟨[t], ts⟩ = none) (h : Carries ts ws) :
      Carries (t :: ts) (.integer t.value .defaultInteger :: ws)
  | suffixed {t u : Token} {ts : List Token} {ws : List Content} {type : TypeExpr}
      (hk : t.kind = .number) (hs : suffixAt? ⟨[t], u :: ts⟩ = some type) (h : Carries ts ws) :
      Carries (t :: u :: ts) (.integer t.value type :: ws)
  | boolean {t : Token} {ts : List Token} {ws : List Content} (hk : t.kind = .boolean)
      (h : Carries ts ws) : Carries (t :: ts) (.boolean (t.value != 0) :: ws)
  | plain {t : Token} {ts : List Token} {ws : List Content} (hn : t.kind ≠ .number)
      (hb : t.kind ≠ .boolean) (h : Carries ts ws) :
      Carries (t :: ts) (.plain t.kind t.text :: ws)

/-! ## Reading contents -/

section

variable {c : Cursor} {ws : List Content}

theorem Carries.rest_nil (h : Carries c.rest []) : c.rest = [] := by
  cases hr : c.rest with
  | nil => rfl
  | cons t ts =>
    rw [hr] at h
    cases h

theorem Carries.plain_inv {kind : TokenKind} {text : String}
    (h : Carries c.rest (.plain kind text :: ws)) :
    c.nextIs kind text = true ∧ Carries c.next.rest ws := by
  obtain ⟨passed, rest⟩ := c
  cases h with
  | plain hn hb h =>
    refine ⟨?_, h⟩
    simp [Cursor.nextIs, Cursor.peek?, Token.is]

theorem Carries.boolean_inv {b : Bool} (h : Carries c.rest (.boolean b :: ws)) :
    TerminalReads (.boolean b) c c.next ∧ Carries c.next.rest ws := by
  obtain ⟨passed, rest⟩ := c
  cases h with
  | boolean hk h => exact ⟨.boolean rfl hk, h⟩

theorem Carries.integer_inv {bits : UInt64} {type : TypeExpr}
    (h : Carries c.rest (.integer bits type :: ws)) :
    ∃ c', TerminalReads (.integer bits type) c c' ∧ Carries c'.rest ws := by
  obtain ⟨passed, rest⟩ := c
  cases h with
  | @integer t ts _ hk hs h =>
    refine ⟨Cursor.next ⟨passed, t :: ts⟩, .number rfl hk ?_, h⟩
    exact hs
  | @suffixed t u ts _ _ hk hs h =>
    refine ⟨(Cursor.next ⟨passed, t :: u :: ts⟩).next, .suffixed rfl hk ?_, h⟩
    exact hs

/-- The next token is of another kind than the first content says. -/
theorem Carries.nextIs_false {w : Content} {kind : TokenKind} {text : String}
    (h : Carries c.rest (w :: ws)) (hk : kind ≠ .number) (hb : kind ≠ .boolean)
    (hw : w ≠ .plain kind text) : c.nextIs kind text = false := by
  obtain ⟨passed, rest⟩ := c
  rw [Bool.eq_false_iff]
  intro his
  obtain ⟨t, ht, hkind, htext⟩ := Cursor.nextIs_iff.mp his
  cases h with
  | integer hk' _ _ =>
    cases ht
    exact hk (hkind.symm.trans hk')
  | suffixed hk' _ _ =>
    cases ht
    exact hk (hkind.symm.trans hk')
  | boolean hk' _ =>
    cases ht
    exact hb (hkind.symm.trans hk')
  | plain _ _ _ =>
    cases ht
    exact hw (by rw [hkind, htext])

/-- The contents do not start with this one, and then neither do the tokens. -/
theorem Carries.nextIs_false_of_head {kind : TokenKind} {text : String} (h : Carries c.rest ws)
    (hk : kind ≠ .number) (hb : kind ≠ .boolean) (hw : ws.head? ≠ some (.plain kind text)) :
    c.nextIs kind text = false := by
  cases ws with
  | nil => simp [Cursor.nextIs, Cursor.peek?, h.rest_nil]
  | cons w ws =>
    refine h.nextIs_false hk hb ?_
    rintro rfl
    exact hw rfl

theorem Carries.peek?_plain {kind : TokenKind} {text : String}
    (h : Carries c.rest (.plain kind text :: ws)) :
    ∃ t, c.peek? = some t ∧ t.kind = kind ∧ t.text = text :=
  Cursor.nextIs_iff.mp h.plain_inv.1

/-- The kind of the next token is what the first content says. -/
theorem Carries.kind_ne {t : Token} {kind : TokenKind} (h : Carries c.rest ws)
    (ht : c.peek? = some t) (hk : kind ≠ .number) (hb : kind ≠ .boolean)
    (hw : ∀ text, ws.head? ≠ some (.plain kind text)) : t.kind ≠ kind := by
  intro hkind
  have hno := h.nextIs_false_of_head hk hb (hw t.text)
  rw [Cursor.nextIs_eq_of_peek ht] at hno
  simp [Token.is, hkind] at hno

end

/-! ## The contents of trees -/

/-- The contents of a literal or identifier. -/
def Terminal.contents : Terminal → List Content
  | boolean value => [.boolean value]
  | integer bits type => [.integer bits type]
  | character value => [.plain .char value.toString]
  | string value => [.plain .string value]
  | identifier name => [.name name]
  | unit => [.symbol "(", .symbol ")"]

/-- The contents of a type. Two references are one symbol. -/
def TypeExpr.contents : TypeExpr → List Content
  | unit => [.symbol "(", .symbol ")"]
  | slice element => .symbol "[" :: element.contents ++ [.symbol "]"]
  | array element size =>
    .symbol "[" :: element.contents ++
      [.symbol ";", .integer size .defaultInteger, .symbol "]"]
  | ref (ref target) => .symbol "&&" :: target.contents
  | ref target => .symbol "&" :: target.contents
  | pointer target => .symbol "*" :: target.contents
  | word => [.name word.text]

theorem TypeExpr.contents_ref {target : TypeExpr} (h : ∀ t, target ≠ ref t) :
    (ref target).contents = .symbol "&" :: target.contents := by
  cases target with
  | ref t => exact absurd rfl (h t)
  | _ => rfl

namespace Expr

mutual

/-- The contents of an expression, no operation in it being put in parentheses. -/
def contents : Expr → List Content
  | atom _ terminal => terminal.contents
  | unary _ op operand => .symbol op.symbol :: operand.contents
  | binary _ op left right => left.contents ++ .symbol op.symbol :: right.contents
  | tuple _ elements => .symbol "(" :: seriesContents "," elements ++ [.symbol ")"]
  | call _ callee args => callee.contents ++ .symbol "(" :: seriesContents "," args ++ [.symbol ")"]
  | block _ statements => .symbol "\x7b" :: seriesContents ";" statements ++ [.symbol "\x7d"]
  | ifChain _ branches => armsContents branches
  | loop _ body => .keyword "loop" :: body.contents
  | accessor _ object member => object.contents ++ [.symbol ".", .name member]

/-- Expressions with a delimiter between each two. -/
def seriesContents (delimiter : String) : List Expr → List Content
  | [] => []
  | e :: es => e.contents ++ moreContents delimiter es

/-- Expressions with a delimiter before each. -/
def moreContents (delimiter : String) : List Expr → List Content
  | [] => []
  | e :: es => .symbol delimiter :: e.contents ++ moreContents delimiter es

/-- The contents of an arm. -/
def armContents : Branch → List Content
  | .guarded condition body =>
    .keyword "if" :: condition.contents ++ .keyword "then" :: body.contents
  | .always body => body.contents

/-- Arms with `else` between each two. -/
def armsContents : List Branch → List Content
  | [] => []
  | b :: bs => armContents b ++ elseContents bs

/-- Arms with `else` before each. -/
def elseContents : List Branch → List Content
  | [] => []
  | b :: bs => .keyword "else" :: armContents b ++ elseContents bs

end

end Expr

/-- A name, a colon and a type. -/
def bindingContents (name : String) (type : TypeExpr) : List Content :=
  .name name :: .symbol ":" :: type.contents

/-- The contents of a parameter. -/
def Parameter.contents (p : Parameter) : List Content := bindingContents p.name p.type

/-- The contents of a member. -/
def Member.contents (m : Member) : List Content :=
  (if m.isPublic then [.keyword "public"] else []) ++ bindingContents m.name m.type

/-- Contents with a delimiter between each two. -/
def delimited (delimiter : String) : List (List Content) → List Content
  | [] => []
  | [w] => w
  | w :: v :: rest => w ++ .symbol delimiter :: delimited delimiter (v :: rest)

/-- The contents of a body. -/
def bodyContents : Option Expr → List Content
  | some body => .symbol "=" :: body.contents
  | none => []

/-- The contents of a function. -/
def Function.contents (f : Function) : List Content :=
  (if f.isExtern then [.keyword "extern"] else []) ++ [.keyword "fn", .name f.name, .symbol "("] ++
    delimited "," (f.params.map Parameter.contents) ++
    (if f.isVariadic then [.symbol ",", .symbol "..."] else []) ++ [.symbol ")"] ++
    (if f.returnType = .unit then [] else .symbol "->" :: f.returnType.contents) ++
    bodyContents f.body

/-- The contents of a structure. -/
def Struct.contents (s : Struct) : List Content :=
  [.keyword "struct", .name s.name, .symbol "\x7b"] ++
    delimited ";" (s.members.map Member.contents) ++ [.symbol "\x7d"]

/-- The contents of a declaration. -/
def Declaration.contents : Declaration → List Content
  | .function f => f.contents
  | .struct s => s.contents

/-- The contents of a module. -/
def Module.contents (m : Module) : List Content := m.flatMap Declaration.contents

theorem Module.contents_cons (d : Declaration) (m : Module) :
    Module.contents (d :: m) = d.contents ++ Module.contents m := by
  rw [contents, List.flatMap_cons]
  rfl

end FrontEnd
