import FrontEnd.Printer.Source
import FrontEnd.Proofs.Passing

/-!
# The shape of what is parsed

Not every tree is built by the parser. The conditions that hold of those that are, on which the
printer relies.

* `Expr.All` says that a condition holds of every expression in a tree; `Expr.All.everywhere` is the
  induction over such a tree.
* `Expr.WellShaped` is the condition on one node, `Branches.WellShaped` its part for the arms of a
  conditional.
* `Phrase.Shaped` is the invariant of a derivation: what was built is well shaped, and the token
  that was left is one that would not have gone on with it. `Reads.shaped` proves it by induction
  on the derivation.

The callee of a call and the arms before an `else` depend on the token that was left: the inner
phrase is as long as it can be, so an outer one finds nothing there to go on with.
-/

set_option autoImplicit false

namespace FrontEnd

open Grammar FrontEnd.Parser

/-! ## Conditions on trees -/

namespace Expr

mutual

/-- The condition holds of the expression and of every one in it. -/
def All (P : Expr → Prop) : Expr → Prop
  | atom site a => P (atom site a)
  | unary site op operand => P (unary site op operand) ∧ operand.All P
  | binary site op left right => P (binary site op left right) ∧ left.All P ∧ right.All P
  | tuple site elements => P (tuple site elements) ∧ AllIn P elements
  | call site callee args => P (call site callee args) ∧ callee.All P ∧ AllIn P args
  | block site statements => P (block site statements) ∧ AllIn P statements
  | ifChain site branches => P (ifChain site branches) ∧ AllInArms P branches
  | loop site body => P (loop site body) ∧ body.All P
  | accessor site object member => P (accessor site object member) ∧ object.All P

/-- The condition holds of every expression in a list of trees. -/
def AllIn (P : Expr → Prop) : List Expr → Prop
  | [] => True
  | e :: es => e.All P ∧ AllIn P es

/-- The condition holds of every expression in an arm. -/
def AllInArm (P : Expr → Prop) : Branch → Prop
  | .guarded condition body => condition.All P ∧ body.All P
  | .always body => body.All P

/-- The condition holds of every expression in a list of arms. -/
def AllInArms (P : Expr → Prop) : List Branch → Prop
  | [] => True
  | b :: bs => AllInArm P b ∧ AllInArms P bs

end

/-- The expressions that an arm is made of. -/
def armParts : Branch → List Expr
  | .guarded condition body => [condition, body]
  | .always body => [body]

/-- The expressions that an expression is made of. -/
def children : Expr → List Expr
  | atom _ _ => []
  | unary _ _ operand => [operand]
  | binary _ _ left right => [left, right]
  | tuple _ elements => elements
  | call _ callee args => callee :: args
  | block _ statements => statements
  | ifChain _ branches => branches.flatMap armParts
  | loop _ body => [body]
  | accessor _ object _ => [object]

section

variable {P Q : Expr → Prop}

mutual

/-- Induction over a tree of which a condition holds everywhere: what holds of an expression
whenever it holds of those it is made of holds of every tree. -/
theorem All.everywhere (step : ∀ e, P e → (∀ x ∈ e.children, Q x) → Q e) :
    (e : Expr) → e.All P → Q e
  | .atom site a, h => step (.atom site a) h (by simp [children])
  | .unary site op operand, h =>
    step (.unary site op operand) h.1 (by simpa [children] using All.everywhere step operand h.2)
  | .binary site op left right, h => by
    have hl := All.everywhere step left h.2.1
    have hr := All.everywhere step right h.2.2
    exact step (.binary site op left right) h.1 (by simp [children, hl, hr])
  | .tuple site elements, h => step (.tuple site elements) h.1 (AllIn.everywhere step elements h.2)
  | .call site callee args, h => by
    have hf := All.everywhere step callee h.2.1
    have ha := AllIn.everywhere step args h.2.2
    exact step (.call site callee args) h.1 (by simpa [children, hf] using ha)
  | .block site statements, h =>
    step (.block site statements) h.1 (AllIn.everywhere step statements h.2)
  | .ifChain site branches, h =>
    step (.ifChain site branches) h.1 (AllInArms.everywhere step branches h.2)
  | .loop site body, h =>
    step (.loop site body) h.1 (by simpa [children] using All.everywhere step body h.2)
  | .accessor site object member, h =>
    step (.accessor site object member) h.1 (by simpa [children] using All.everywhere step object h.2)

theorem AllIn.everywhere (step : ∀ e, P e → (∀ x ∈ e.children, Q x) → Q e) :
    (es : List Expr) → AllIn P es → ∀ x ∈ es, Q x
  | [], _ => by simp
  | e :: es, h => by
    have he := All.everywhere step e h.1
    have hes := AllIn.everywhere step es h.2
    simpa [he] using hes

theorem AllInArm.everywhere (step : ∀ e, P e → (∀ x ∈ e.children, Q x) → Q e) :
    (b : Branch) → AllInArm P b → ∀ x ∈ armParts b, Q x
  | .guarded condition body, h => by
    have hc := All.everywhere step condition h.1
    have hb := All.everywhere step body h.2
    simp [armParts, hc, hb]
  | .always body, h => by
    have hb := All.everywhere step body h
    simp [armParts, hb]

theorem AllInArms.everywhere (step : ∀ e, P e → (∀ x ∈ e.children, Q x) → Q e) :
    (bs : List Branch) → AllInArms P bs → ∀ x ∈ bs.flatMap armParts, Q x
  | [], _ => by simp
  | b :: bs, h => by
    have hb := AllInArm.everywhere step b h.1
    have hbs := AllInArms.everywhere step bs h.2
    intro x hx
    rw [List.flatMap_cons, List.mem_append] at hx
    rcases hx with hx | hx
    · exact hb x hx
    · exact hbs x hx

end

end

section

variable {P Q : Expr → Prop}

mutual

/-- Two conditions that hold everywhere hold everywhere together. -/
theorem All.and : (e : Expr) → e.All P → e.All Q → e.All (fun x => P x ∧ Q x)
  | .atom _ _, h, h' => ⟨h, h'⟩
  | .unary _ _ operand, h, h' => ⟨⟨h.1, h'.1⟩, All.and operand h.2 h'.2⟩
  | .binary _ _ left right, h, h' =>
    ⟨⟨h.1, h'.1⟩, All.and left h.2.1 h'.2.1, All.and right h.2.2 h'.2.2⟩
  | .tuple _ elements, h, h' => ⟨⟨h.1, h'.1⟩, AllIn.and elements h.2 h'.2⟩
  | .call _ callee args, h, h' =>
    ⟨⟨h.1, h'.1⟩, All.and callee h.2.1 h'.2.1, AllIn.and args h.2.2 h'.2.2⟩
  | .block _ statements, h, h' => ⟨⟨h.1, h'.1⟩, AllIn.and statements h.2 h'.2⟩
  | .ifChain _ branches, h, h' => ⟨⟨h.1, h'.1⟩, AllInArms.and branches h.2 h'.2⟩
  | .loop _ body, h, h' => ⟨⟨h.1, h'.1⟩, All.and body h.2 h'.2⟩
  | .accessor _ object _, h, h' => ⟨⟨h.1, h'.1⟩, All.and object h.2 h'.2⟩

theorem AllIn.and : (es : List Expr) → AllIn P es → AllIn Q es → AllIn (fun x => P x ∧ Q x) es
  | [], _, _ => trivial
  | e :: es, h, h' => ⟨All.and e h.1 h'.1, AllIn.and es h.2 h'.2⟩

theorem AllInArm.and :
    (b : Branch) → AllInArm P b → AllInArm Q b → AllInArm (fun x => P x ∧ Q x) b
  | .guarded condition body, h, h' => ⟨All.and condition h.1 h'.1, All.and body h.2 h'.2⟩
  | .always body, h, h' => All.and body h h'

theorem AllInArms.and :
    (bs : List Branch) → AllInArms P bs → AllInArms Q bs → AllInArms (fun x => P x ∧ Q x) bs
  | [], _, _ => trivial
  | b :: bs, h, h' => ⟨AllInArm.and b h.1 h'.1, AllInArms.and bs h.2 h'.2⟩

end

end

/-- The expression is a conditional. -/
def isConditional : Expr → Bool
  | ifChain _ _ => true
  | _ => false

/-- Calls and member accesses may stand after the expression. -/
def takesPostfix : Expr → Bool
  | unary _ _ _ | binary _ _ _ _ | ifChain _ _ | loop _ _ => false
  | _ => true

mutual

/-- The expression ends in a conditional that an `else` would go on with. -/
def endsOpen : Expr → Bool
  | unary _ _ operand => operand.endsOpen
  | loop _ body => body.endsOpen
  | ifChain _ branches => armsEndOpen branches
  | _ => false

/-- The arm is one that an `else` would go on with. -/
def armEndsOpen : Branch → Bool
  | .guarded _ _ => true
  | .always body => body.endsOpen

/-- The last of the arms is one that an `else` would go on with. -/
def armsEndOpen : List Branch → Bool
  | [] => false
  | b :: bs => if bs.isEmpty then armEndsOpen b else armsEndOpen bs

end

end Expr

/-- The arms of a conditional as they are written: an `if` with a condition at least, after which an
arm without a condition can only come last. An arm before another does not end in a conditional
that the `else` after it would go on with, and the arm without a condition is no conditional, for
that would be one more arm. -/
structure Branches.WellShaped (branches : List Branch) : Prop where
  nonempty : branches ≠ []
  first : ∀ b ∈ branches.head?, b.condition?.isSome = true
  guarded : ∀ b ∈ branches.dropLast, b.condition?.isSome = true
  closed : ∀ b ∈ branches.dropLast, b.body.endsOpen = false
  last : ∀ body, Branch.always body ∈ branches → body.isConditional = false
  conditions : ∀ b ∈ branches, ∀ e ∈ b.condition?, e.isBinary = false
  bodies : ∀ b ∈ branches, b.body.isBinary = false

/-- What holds of one node of a tree that is parsed. -/
def Expr.NodeShaped : Expr → Prop
  | .atom _ (.integer _ type) => type.isInteger = true
  | .atom _ _ => True
  | .unary _ _ operand => operand.isBinary = false
  | .binary _ op left right =>
    left.isLooserThan op.precedence = false ∧ right.isLooserThan (op.precedence + 1) = false
  | .tuple _ elements => elements ≠ []
  | .call _ callee _ => callee.takesPostfix = true
  | .block _ statements => ∀ e ∈ statements, e.isBinary = false
  | .ifChain _ branches => Branches.WellShaped branches
  | .loop _ body => body.isBinary = false
  | .accessor _ object _ => object.takesPostfix = true

/-- What holds of one node of a tree that is parsed, its slot included. -/
def Expr.WellShaped (e : Expr) : Prop := e.site.slot = TypeSlot.empty ∧ e.NodeShaped

/-- A variadic function has a parameter, every slot is empty, and the body is well shaped. -/
structure Function.WellShaped (f : Function) : Prop where
  variadic : f.isVariadic = true → f.params ≠ []
  slot : f.slot = TypeSlot.empty
  params : ∀ p ∈ f.params, p.slot = TypeSlot.empty
  body : ∀ e ∈ f.body, e.All Expr.WellShaped

/-- Every slot is empty. -/
structure Struct.WellShaped (s : Struct) : Prop where
  slot : s.slot = TypeSlot.empty
  members : ∀ m ∈ s.members, m.slot = TypeSlot.empty

/-- What holds of a declaration that is parsed. -/
def Declaration.WellShaped : Declaration → Prop
  | .function f => f.WellShaped
  | .struct s => s.WellShaped

/-! ## The arms of a conditional -/

namespace Branches.WellShaped

theorem singleton {condition body : Expr} (hc : condition.isBinary = false)
    (hb : body.isBinary = false) : Branches.WellShaped [.guarded condition body] where
  nonempty := by simp
  first := by simp [Branch.condition?]
  guarded := by simp
  closed := by simp
  last := by simp
  conditions := by simp [Branch.condition?, hc]
  bodies := by simp [Branch.body, hb]

theorem pair {condition body last : Expr} (hc : condition.isBinary = false)
    (hb : body.isBinary = false) (hclosed : body.endsOpen = false)
    (hl : last.isBinary = false) (hnot : last.isConditional = false) :
    Branches.WellShaped [.guarded condition body, .always last] where
  nonempty := by simp
  first := by simp [Branch.condition?]
  guarded := by simp [Branch.condition?]
  closed := by simp [Branch.body, hclosed]
  last := by simp [hnot]
  conditions := by simp [Branch.condition?, hc]
  bodies := by simp [Branch.body, hb, hl]

theorem cons {condition body : Expr} {bs : List Branch} (hc : condition.isBinary = false)
    (hb : body.isBinary = false) (hclosed : body.endsOpen = false)
    (hbs : Branches.WellShaped bs) : Branches.WellShaped (.guarded condition body :: bs) where
  nonempty := by simp
  first := by simp [Branch.condition?]
  guarded := by
    intro b hmem
    rw [List.dropLast_cons_of_ne_nil hbs.nonempty, List.mem_cons] at hmem
    rcases hmem with rfl | hmem
    · rfl
    · exact hbs.guarded b hmem
  closed := by
    intro b hmem
    rw [List.dropLast_cons_of_ne_nil hbs.nonempty, List.mem_cons] at hmem
    rcases hmem with rfl | hmem
    · exact hclosed
    · exact hbs.closed b hmem
  last := by
    intro e hmem
    rw [List.mem_cons] at hmem
    rcases hmem with hmem | hmem
    · cases hmem
    · exact hbs.last e hmem
  conditions := by
    intro b hmem
    rw [List.mem_cons] at hmem
    rcases hmem with rfl | hmem
    · simp [Branch.condition?, hc]
    · exact hbs.conditions b hmem
  bodies := by
    intro b hmem
    rw [List.mem_cons] at hmem
    rcases hmem with rfl | hmem
    · exact hb
    · exact hbs.bodies b hmem

end Branches.WellShaped

/-! ## The invariant -/

/-- The tree is well shaped and no infix operation, and the place after it starts no `else` that
would go on with it. -/
structure Expr.LeftAt (e : Expr) (c : Cursor) : Prop where
  shaped : e.All Expr.WellShaped
  notBinary : e.isBinary = false
  noElse : e.endsOpen = true → c.nextIs .keyword "else" = false

/-- The next token is no operator that binds tighter than the root, if that is an operation. -/
def Expr.FitsBefore (e : Expr) (level : Nat) (c : Cursor) : Prop :=
  ∀ op, operatorAt? c level = some op → e.isLooserThan op.precedence = false

/-- What holds of a phrase and of the places where it starts and ends. -/
def Phrase.Shaped (infixed : Bool) : Phrase → Cursor → Cursor → Prop
  | .operand e, c, c' => e.LeftAt c' ∧ c'.startsPostfix = false ∧
      (c.nextIs .keyword "if" = false → e.isConditional = false)
  | .primary e, c, c' => e.LeftAt c' ∧ (e.takesPostfix = false → c'.startsPostfix = false) ∧
      (c.nextIs .keyword "if" = false → e.isConditional = false)
  | .postfixes first e, c, c' => first.LeftAt c →
      (first.takesPostfix = false → c.startsPostfix = false) →
      e.LeftAt c' ∧ c'.startsPostfix = false ∧
        (first.isConditional = false → e.isConditional = false)
  | .operation e, _, _ => e.All Expr.WellShaped
  | .climb level left e, c, c' => left.All Expr.WellShaped → left.isLooserThan level = false →
      left.FitsBefore level c →
      e.All Expr.WellShaped ∧ e.isLooserThan level = false ∧
        (infixed = true → operatorAt? c' level = none)
  | .elements es, _, _ => Expr.AllIn Expr.WellShaped es ∧ es ≠ []
  | .statements es, _, _ => Expr.AllIn Expr.WellShaped es ∧ ∀ e ∈ es, e.isBinary = false
  | .arms bs, _, c' => Expr.AllInArms Expr.WellShaped bs ∧ Branches.WellShaped bs ∧
      c'.startsPostfix = false ∧ (Expr.armsEndOpen bs = true → c'.nextIs .keyword "else" = false)

theorem isLooserThan_of_not_binary {e : Expr} (h : e.isBinary = false) (level : Nat) :
    e.isLooserThan level = false := by
  cases e with
  | binary _ _ _ _ => cases h
  | _ => rfl

theorem endsOpen_of_else {e : Expr} {c : Cursor} (h : e.LeftAt c)
    (he : c.nextIs .keyword "else" = true) : e.endsOpen = false := by
  cases ho : e.endsOpen with
  | false => rfl
  | true => rw [h.noElse ho] at he; cases he

theorem TerminalReads.integer_type {bits : UInt64} {type : TypeExpr} {c c' : Cursor}
    (h : TerminalReads (.integer bits type) c c') : type.isInteger = true := by
  cases h with
  | number _ _ _ => rfl
  | suffixed _ _ hs =>
    obtain ⟨_, _, _, _, _, hi⟩ := suffixAt?_eq_some_iff.mp hs
    exact hi

/-- What calls and accesses follow takes them. -/
theorem takesPostfix_of {e : Expr} {c : Cursor}
    (h : e.takesPostfix = false → c.startsPostfix = false)
    (hs : c.nextIs .symbol "(" = true ∨ (c.nextIs .symbol "." = true ∧
      ∃ t, c.next.peek? = some t ∧ t.kind = .identifier)) : e.takesPostfix = true := by
  cases ht : e.takesPostfix with
  | true => rfl
  | false =>
    have hno := h ht
    unfold Cursor.startsPostfix at hno
    rcases hs with ho | ⟨hd, t, hp, hk⟩
    · simp [ho] at hno
    · simp [hd, hp, hk] at hno

theorem leftAt_of_shaped {e : Expr} {c : Cursor} (h : e.All Expr.WellShaped)
    (hb : e.isBinary = false) (ho : e.endsOpen = false) : e.LeftAt c where
  shaped := h
  notBinary := hb
  noElse := by
    intro hopen
    rw [ho] at hopen
    cases hopen

/-- After an operand at a level the operators that are left bind no tighter. -/
theorem fitsBefore_binary {op : BinaryOp} {site : Site} {left right : Expr} {level : Nat}
    {c : Cursor} (h : operatorAt? c (op.precedence + 1) = none) :
    (Expr.binary site op left right).FitsBefore level c := by
  intro op' hop'
  unfold operatorAt? at h hop'
  rw [Option.filter_eq_some_iff] at hop'
  obtain ⟨hop', _⟩ := hop'
  rw [hop'] at h
  simp only [Option.filter_some, decide_eq_true_eq, ite_eq_right_iff, reduceCtorEq,
    imp_false, Nat.not_le] at h
  simp only [Expr.isLooserThan, decide_eq_false_iff_not]
  omega

/-- **What is derived is well shaped**, and the token that is left would not have gone on with it. -/
theorem Reads.shaped {infixed : Bool} {p : Phrase} {c c' : Cursor} (h : Reads infixed p c c') :
    p.Shaped infixed c c' := by
  induction h with
  | @operand c c₁ c' first e _ _ ihp ihx =>
    obtain ⟨hleft, hpost, hif⟩ := ihp
    obtain ⟨hleft', hpost', hif'⟩ := ihx hleft hpost
    exact ⟨hleft', hpost', fun hn => hif' (hif hn)⟩
  | unary _ _ _ ih =>
    obtain ⟨hleft, hpost, _⟩ := ih
    refine ⟨⟨?_, rfl, hleft.noElse⟩, fun _ => hpost, fun _ => rfl⟩
    exact ⟨⟨rfl, hleft.notBinary⟩, hleft.shaped⟩
  | @atom c c' a ha =>
    refine ⟨⟨⟨rfl, ?_⟩, rfl, by simp [Expr.endsOpen]⟩, by simp [Expr.takesPostfix], fun _ => rfl⟩
    cases a with
    | integer bits type => exact ha.integer_type
    | _ => trivial
  | tuple _ _ _ ih =>
    refine ⟨⟨?_, rfl, by simp [Expr.endsOpen]⟩, by simp [Expr.takesPostfix], fun _ => rfl⟩
    exact ⟨⟨rfl, ih.2⟩, ih.1⟩
  | block _ _ ih =>
    refine ⟨⟨?_, rfl, by simp [Expr.endsOpen]⟩, by simp [Expr.takesPostfix], fun _ => rfl⟩
    exact ⟨⟨rfl, ih.2⟩, ih.1⟩
  | ifChain ho _ ih =>
    obtain ⟨hall, hshape, hpost, helse⟩ := ih
    refine ⟨⟨⟨⟨rfl, hshape⟩, hall⟩, rfl, helse⟩, fun _ => hpost, ?_⟩
    intro hn
    rw [ho] at hn
    cases hn
  | loop _ _ ih =>
    obtain ⟨hleft, hpost, _⟩ := ih
    refine ⟨⟨?_, rfl, hleft.noElse⟩, fun _ => hpost, fun _ => rfl⟩
    exact ⟨⟨rfl, hleft.notBinary⟩, hleft.shaped⟩
  | postfixesDone hn =>
    intro hleft _
    exact ⟨hleft, hn, id⟩
  | emptyCall ho _ _ ih =>
    intro hleft hpost
    have hcallee := takesPostfix_of hpost (.inl ho)
    obtain ⟨hleft', hpost', hif'⟩ :=
      ih (leftAt_of_shaped ⟨⟨rfl, hcallee⟩, hleft.shaped, trivial⟩ rfl rfl)
        (by simp [Expr.takesPostfix])
    exact ⟨hleft', hpost', fun _ => hif' rfl⟩
  | call ho _ _ _ ihes ih =>
    intro hleft hpost
    have hcallee := takesPostfix_of hpost (.inl ho)
    obtain ⟨hleft', hpost', hif'⟩ :=
      ih (leftAt_of_shaped ⟨⟨rfl, hcallee⟩, hleft.shaped, ihes.1⟩ rfl rfl)
        (by simp [Expr.takesPostfix])
    exact ⟨hleft', hpost', fun _ => hif' rfl⟩
  | access ho ht hk _ ih =>
    intro hleft hpost
    have hobject := takesPostfix_of hpost (.inr ⟨ho, _, ht, hk⟩)
    obtain ⟨hleft', hpost', hif'⟩ :=
      ih (leftAt_of_shaped ⟨⟨rfl, hobject⟩, hleft.shaped⟩ rfl rfl) (by simp [Expr.takesPostfix])
    exact ⟨hleft', hpost', fun _ => hif' rfl⟩
  | operation _ _ ihp ihx =>
    obtain ⟨hleft, _, _⟩ := ihp
    have hloose := isLooserThan_of_not_binary hleft.notBinary
    exact (ihx hleft.shaped (hloose _) (fun _ _ => hloose _)).1
  | climbDone hn =>
    intro hall hloose _
    exact ⟨hall, hloose, hn⟩
  | @climbStep c c₁ c₂ c' level op left first right e hi hop _ _ _ ihp ihr ihx =>
    intro hall _ hfits
    obtain ⟨hleft, _, _⟩ := ihp
    have hfirst := isLooserThan_of_not_binary hleft.notBinary
    obtain ⟨hright, htight, hstop⟩ := ihr hleft.shaped (hfirst _) (fun _ _ => hfirst _)
    have hnode : (binaryNode op left right).All Expr.WellShaped :=
      ⟨⟨rfl, hfits op hop, htight⟩, hall, hright⟩
    refine ihx hnode ?_ (fitsBefore_binary (hstop hi))
    obtain ⟨_, _, _, _, hlevel⟩ := operatorAt?_eq_some hop
    simp only [binaryNode, Expr.isLooserThan, decide_eq_false_iff_not]
    omega
  | lastElement _ ih => exact ⟨⟨ih, trivial⟩, by simp⟩
  | element _ _ _ ih ihes => exact ⟨⟨ih, ihes.1⟩, by simp⟩
  | noStatement _ => exact ⟨trivial, by simp⟩
  | statement _ _ _ ih ihes =>
    obtain ⟨hleft, _, _⟩ := ih
    refine ⟨⟨hleft.shaped, ihes.1⟩, ?_⟩
    intro e hmem
    rw [List.mem_cons] at hmem
    rcases hmem with rfl | hmem
    · exact hleft.notBinary
    · exact ihes.2 e hmem
  | lastArm _ _ hn ihc ihb =>
    obtain ⟨hc, _, _⟩ := ihc
    obtain ⟨hb, hpost, _⟩ := ihb
    exact ⟨⟨⟨hc.shaped, hb.shaped⟩, trivial⟩, .singleton hc.notBinary hb.notBinary, hpost,
      fun _ => hn⟩
  | elseArm _ _ he hn _ ihc ihb ihl =>
    obtain ⟨hc, _, _⟩ := ihc
    obtain ⟨hb, _, _⟩ := ihb
    obtain ⟨hl, hpost, hif⟩ := ihl
    refine ⟨⟨⟨hc.shaped, hb.shaped⟩, hl.shaped, trivial⟩, ?_, hpost, ?_⟩
    · exact .pair hc.notBinary hb.notBinary (endsOpen_of_else hb he) hl.notBinary (hif hn)
    · exact hl.noElse
  | @elseIfArm _ _ _ _ _ _ bs _ _ he _ _ ihc ihb ihbs =>
    obtain ⟨hc, _, _⟩ := ihc
    obtain ⟨hb, _, _⟩ := ihb
    obtain ⟨hall, hshape, hpost, helse⟩ := ihbs
    refine ⟨⟨⟨hc.shaped, hb.shaped⟩, hall⟩, ?_, hpost, ?_⟩
    · exact .cons hc.notBinary hb.notBinary (endsOpen_of_else hb he) hshape
    · intro hopen
      have hne := hshape.nonempty
      cases bs with
      | nil => exact absurd rfl hne
      | cons b bs => exact helse hopen

/-! ## Declarations and whole inputs -/

/-- What holds of every element of a series that is read, given what holds of the place where it
starts and goes on to hold after each delimiter. -/
theorem Parser.SeriesReads.forall_mem {α : Type} {R : α → Cursor → Cursor → Prop} {Q : α → Prop}
    {I : Cursor → Prop} (hQ : ∀ a c c', R a c c' → I c → Q a)
    (hI : ∀ a c c', R a c c' → I c → I c'.next) {kind : TokenKind} {delimiter : String}
    {c c' : Cursor} {as : List α} (h : SeriesReads R kind delimiter as c c') :
    I c → ∀ a ∈ as, Q a := by
  induction h with
  | last ha =>
    intro hc a hmem
    rw [List.mem_singleton.mp hmem]
    exact hQ _ _ _ ha hc
  | more ha _ _ ih =>
    intro hc a hmem
    rcases List.mem_cons.mp hmem with rfl | hmem
    · exact hQ _ _ _ ha hc
    · exact ih (hI _ _ _ ha hc) a hmem

/-- What holds of every element of a series that is read, whatever the place. -/
theorem Parser.SeriesReads.forall_elements {α : Type} {R : α → Cursor → Cursor → Prop}
    {Q : α → Prop} (hQ : ∀ a c c', R a c c' → Q a) {kind : TokenKind} {delimiter : String}
    {c c' : Cursor} {as : List α} (h : SeriesReads R kind delimiter as c c') : ∀ a ∈ as, Q a :=
  h.forall_mem (I := fun _ => True) (fun a c c' ha _ => hQ a c c' ha) (fun _ _ _ _ _ => trivial)
    trivial

theorem ParameterListReads.slots {ps : Parameters} {c c' : Cursor}
    (h : ParameterListReads ps c c') :
    (ps.isVariadic = true → ps.bindings ≠ []) ∧ ∀ p ∈ ps.bindings, p.slot = TypeSlot.empty := by
  have hslot : ∀ p c c', ParameterReads p c c' → p.slot = TypeSlot.empty := by
    intro p c c' hp
    cases hp with
    | mk _ => rfl
  cases h with
  | empty _ _ => exact ⟨by simp [Parameters.none], by simp [Parameters.none]⟩
  | fixed _ hps _ => exact ⟨by simp, hps.forall_elements hslot⟩
  | variadic _ hps _ _ _ =>
    refine ⟨fun _ => ?_, hps.forall_elements hslot⟩
    cases hps with
    | last _ | more _ _ _ => simp
  | omitted _ => exact ⟨by simp [Parameters.none], by simp [Parameters.none]⟩

theorem FunctionReads.wellShaped {infixed : Bool} {f : Function} {c c' : Cursor}
    (h : FunctionReads infixed f c c') : f.WellShaped := by
  cases h with
  | mk _ _ _ _ hp _ hb =>
    obtain ⟨hvariadic, hslots⟩ := hp.slots
    refine ⟨hvariadic, rfl, hslots, ?_⟩
    intro e he
    cases hb with
    | written _ hr =>
      cases he
      exact hr.shaped
    | omitted _ => cases he

theorem StructReads.wellShaped {s : Struct} {c c' : Cursor} (h : StructReads s c c') :
    s.WellShaped := by
  cases h with
  | mk _ _ _ _ hm _ =>
    refine ⟨rfl, ?_⟩
    rcases hm with ⟨rfl, _⟩ | hm
    · simp
    · refine hm.forall_elements ?_
      intro m c c' hmem
      cases hmem with
      | mk _ => rfl

theorem DeclarationReads.wellShaped {infixed : Bool} {d : Declaration} {c c' : Cursor}
    (h : DeclarationReads infixed d c c') : d.WellShaped := by
  cases h with
  | function h => exact h.wellShaped
  | struct h => exact h.wellShaped

/-- **Everything that the parser builds is well shaped**: the declarations of a module, whether or
not errors were found in it, an expression that is the whole input, and an operation or an operand
read anywhere. -/
theorem parsed_wellShaped (tokens : List Token) (c : Cursor) :
    (∀ d ∈ (parseModule tokens).declarations, d.WellShaped) ∧
      (∀ e, parseExpression tokens = .ok e → e.All Expr.WellShaped) ∧
      (∀ e c', (operation climbing).run c = (.ok e, c') → e.All Expr.WellShaped) ∧
      (∀ e c', (operand climbing).run c = (.ok e, c') → e.All Expr.WellShaped) := by
  refine ⟨?_, ?_, ?_, ?_⟩
  · intro d hd
    obtain ⟨c₁, c₂, _, hreads⟩ := mem_parseModule hd
    exact hreads.wellShaped
  · intro e he
    obtain ⟨c', hrun, _⟩ := parse_complete_eq_ok.mp he
    have hreads : Reads true (.operation e) (Cursor.ofTokens tokens) c' := operation_run_iff.mp hrun
    exact hreads.shaped
  · intro e c' hrun
    have hreads : Reads true (.operation e) c c' := operation_run_iff.mp hrun
    exact hreads.shaped
  · intro e c' hrun
    have hreads : Reads true (.operand e) c c' := operand_run_iff.mp hrun
    exact hreads.shaped.1.shaped

end FrontEnd
