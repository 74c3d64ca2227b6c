import FrontEnd.Proofs.Shape
import FrontEnd.Token.Lexer

/-!
# The grouping of operators

What is read as one operation is a chain: a first operand, then operators with an operand after
each. Which of the trees over a chain is meant is settled by the levels of the operators.

* `Expr.firstOperand` and `Expr.laterOperands` are the chain of a tree, from left to right.
* `Expr.Grouped` says that tighter operators are deeper in a tree, and that of two operators of one
  level the later one is above the earlier.
* `Expr.joined_unique`: a chain has one grouped tree at most.
* `ChainReads` says that a chain stands between two places; `operation_groups_chain` that the
  parser of operations makes the grouped tree of it.
-/

set_option autoImplicit false

namespace FrontEnd

open Grammar FrontEnd.Parser

/-! ## The chain of a tree -/

namespace Expr

/-- The operand that comes first when operations are read from left to right. -/
def firstOperand : Expr → Expr
  | binary _ _ left _ => left.firstOperand
  | e => e

/-- The operators from left to right, each with the operand after it. -/
def laterOperands : Expr → List (BinaryOp × Expr)
  | binary _ op left right => left.laterOperands ++ (op, right.firstOperand) :: right.laterOperands
  | _ => []

/-- The operand on the left of an operator binds at least as tight as it, the operand on its right
tighter. -/
def Grouped : Expr → Prop
  | binary _ op left right =>
    left.isLooserThan op.precedence = false ∧ right.isLooserThan (op.precedence + 1) = false ∧
      left.Grouped ∧ right.Grouped
  | _ => True

/-- The tree with each operation placed from the start of its left operand to the end of its right
one. -/
def joined : Expr → Expr
  | binary _ op left right => binaryNode op left.joined right.joined
  | e => e

/-- Induction over the operations at the top of a tree, down to the operands. -/
@[elab_as_elim]
theorem operationsInduction {P : Expr → Prop} (operand : ∀ e, e.isBinary = false → P e)
    (operation : ∀ site op left right, P left → P right → P (binary site op left right)) :
    (e : Expr) → P e
  | binary site op left right =>
    operation site op left right (operationsInduction operand operation left)
      (operationsInduction operand operation right)
  | atom _ _ | unary _ _ _ | tuple _ _ | call _ _ _ | block _ _ | ifChain _ _ | loop _ _
  | accessor _ _ _ => operand _ rfl

section

variable {e : Expr}

theorem firstOperand_of_operand (h : e.isBinary = false) : e.firstOperand = e := by
  cases e with
  | binary _ _ _ _ => cases h
  | _ => rfl

theorem laterOperands_of_operand (h : e.isBinary = false) : e.laterOperands = [] := by
  cases e with
  | binary _ _ _ _ => cases h
  | _ => rfl

theorem joined_of_operand (h : e.isBinary = false) : e.joined = e := by
  cases e with
  | binary _ _ _ _ => cases h
  | _ => rfl

theorem isBinary_of_laterOperands (h : e.laterOperands = []) : e.isBinary = false := by
  cases e with
  | binary _ _ _ _ => simp [laterOperands] at h
  | _ => rfl

/-- What is well shaped is grouped. -/
theorem All.grouped (h : e.All WellShaped) : e.Grouped := by
  induction e using operationsInduction with
  | operand e he =>
    cases e with
    | binary _ _ _ _ => cases he
    | _ => trivial
  | operation site op left right ihl ihr =>
    obtain ⟨⟨_, hleft, hright⟩, hl, hr⟩ := h
    exact ⟨hleft, hright, ihl hl, ihr hr⟩

/-- Below a level there is no operator in a grouped tree whose root is not below it. -/
theorem Grouped.le_precedence (h : e.Grouped) {level : Nat} (hroot : e.isLooserThan level = false) :
    ∀ p ∈ e.laterOperands, level ≤ p.1.precedence := by
  induction e using operationsInduction generalizing level with
  | operand e he => simp [laterOperands_of_operand he]
  | operation site op left right ihl ihr =>
    obtain ⟨hleft, hright, hl, hr⟩ := h
    have hop : level ≤ op.precedence := by simpa [isLooserThan] using hroot
    intro p hp
    rw [laterOperands, List.mem_append, List.mem_cons] at hp
    rcases hp with hp | rfl | hp
    · exact Nat.le_trans hop (ihl hl hleft p hp)
    · exact hop
    · exact Nat.le_trans (Nat.le_succ_of_le hop) (ihr hr hright p hp)

end

end Expr

/-! ## One grouped tree -/

/-- In a list there is one place at most where an element is no heavier than those before it and
lighter than those after it. -/
theorem split_at_last_lightest {α : Type} (weight : α → Nat) {before before' after after' : List α}
    {a a' : α} (h : before ++ a :: after = before' ++ a' :: after')
    (hb : ∀ x ∈ before, weight a ≤ weight x) (ha : ∀ x ∈ after, weight a < weight x)
    (hb' : ∀ x ∈ before', weight a' ≤ weight x) (ha' : ∀ x ∈ after', weight a' < weight x) :
    before = before' ∧ a = a' ∧ after = after' := by
  rcases List.append_eq_append_iff.mp h with ⟨middle, rfl, hm⟩ | ⟨middle, rfl, hm⟩
  · cases middle with
    | nil => simpa using hm
    | cons x middle =>
      obtain ⟨rfl, rfl⟩ := List.cons.inj hm
      have hlt := ha a' (by simp)
      have hle := hb' a (by simp)
      omega
  · cases middle with
    | nil => simpa [eq_comm] using hm
    | cons x middle =>
      obtain ⟨rfl, rfl⟩ := List.cons.inj hm
      have hlt := ha' a (by simp)
      have hle := hb a' (by simp)
      omega

/-- **A chain has one grouped tree at most**, up to the places of its operations: the root is the
last of the loosest operators, and the chains before and after it are those of the two operands. -/
theorem Expr.joined_unique {e e' : Expr} (h : e.Grouped) (h' : e'.Grouped)
    (hfirst : e.firstOperand = e'.firstOperand) (hlater : e.laterOperands = e'.laterOperands) :
    e.joined = e'.joined := by
  induction e using operationsInduction generalizing e' with
  | operand e he =>
    rw [laterOperands_of_operand he] at hlater
    have he' := isBinary_of_laterOperands hlater.symm
    rw [firstOperand_of_operand he, firstOperand_of_operand he'] at hfirst
    rw [hfirst]
  | operation site op left right ihl ihr =>
    cases e' with
    | binary site' op' left' right' =>
      obtain ⟨hleft, hright, hl, hr⟩ := h
      obtain ⟨hleft', hright', hl', hr'⟩ := h'
      obtain ⟨hbefore, hroot, hafter⟩ := split_at_last_lightest (fun p => p.1.precedence) hlater
        (hl.le_precedence hleft) (hr.le_precedence hright)
        (hl'.le_precedence hleft') (hr'.le_precedence hright')
      obtain ⟨hop, hmiddle⟩ := Prod.mk.inj hroot
      simp only [joined]
      rw [hop, ihl hl hl' hfirst hbefore, ihr hr hr' hmiddle hafter]
    | _ => simp [laterOperands] at hlater

/-! ## The chain that is read -/

/-- Operators with an operand after each stand between the two places, and no operator comes next. -/
inductive ChainReads : List (BinaryOp × Expr) → Cursor → Cursor → Prop where
  | done {c : Cursor} (hend : c.peek?.bind binaryOp? = none) : ChainReads [] c c
  | more {c c₁ c' : Cursor} {op : BinaryOp} {e : Expr} {chain : List (BinaryOp × Expr)}
      (hop : c.peek?.bind binaryOp? = some op) (he : (operand climbing).run c.next = (.ok e, c₁))
      (hchain : ChainReads chain c₁ c') :
      ChainReads ((op, e) :: chain) c c'

theorem operatorAt?_of_le {c : Cursor} {op : BinaryOp} (h : c.peek?.bind binaryOp? = some op)
    {level : Nat} (hle : level ≤ op.precedence) : operatorAt? c level = some op := by
  simp [operatorAt?, h, hle]

theorem operatorAt?_of_lt {c : Cursor} {op : BinaryOp} (h : c.peek?.bind binaryOp? = some op)
    {level : Nat} (hlt : op.precedence < level) : operatorAt? c level = none := by
  simp [operatorAt?, h, hlt]

/-- Below the lowest level an operator is always taken, so nothing of the chain is left. -/
theorem ChainReads.eq_nil {chain : List (BinaryOp × Expr)} {c c' : Cursor}
    (h : ChainReads chain c c') (hstop : operatorAt? c 0 = none) : chain = [] ∧ c' = c := by
  cases h with
  | done _ => exact ⟨rfl, rfl⟩
  | more hop _ _ =>
    rw [operatorAt?_of_le hop (Nat.zero_le _)] at hstop
    cases hstop

/-- What climbing at a level makes of `left` and a chain after it: a front part of the chain is
taken into the tree, and what is left of it starts below the level. -/
structure Climbed (level : Nat) (left : Expr) (chain : List (BinaryOp × Expr)) (c c' : Cursor)
    (e : Expr) (taken remaining : List (BinaryOp × Expr)) (stop : Cursor) : Prop where
  split : chain = taken ++ remaining
  reads : Reads true (.climb level left e) c stop
  goesOn : ChainReads remaining stop c'
  stops : operatorAt? stop level = none
  first : e.firstOperand = left.firstOperand
  later : e.laterOperands = left.laterOperands ++ taken
  joined : left.joined = left → e.joined = e

/-- Nothing is taken where no operator of the level comes next. -/
theorem Climbed.none {level : Nat} {left : Expr} {chain : List (BinaryOp × Expr)} {c c' : Cursor}
    (h : ChainReads chain c c') (hn : operatorAt? c level = .none) :
    Climbed level left chain c c' left [] chain c where
  split := rfl
  reads := .climbDone fun _ => hn
  goesOn := h
  stops := hn
  first := rfl
  later := (List.append_nil _).symm
  joined := id

/-- One step: the operand after the operator climbs above the level of the operator, and the
operation that is made of it goes on at the level itself. -/
theorem Climbed.step {level : Nat} {left first right e : Expr} {op : BinaryOp}
    {chain taken taken' remaining remaining' : List (BinaryOp × Expr)} {c c₁ c₂ c₃ c' : Cursor}
    (hop : operatorAt? c level = some op) (hfirst : Reads true (.operand first) c.next c₁)
    (hright : Climbed (op.precedence + 1) first chain c₁ c' right taken remaining c₂)
    (hrest : Climbed level (binaryNode op left right) remaining c₂ c' e taken' remaining' c₃) :
    Climbed level left ((op, first) :: chain) c c' e ((op, first) :: (taken ++ taken'))
      remaining' c₃ := by
  have hoperand := hfirst.shaped.1.notBinary
  have hmiddle : right.firstOperand = first := by
    rw [hright.first, Expr.firstOperand_of_operand hoperand]
  have hlater : right.laterOperands = taken := by
    rw [hright.later, Expr.laterOperands_of_operand hoperand, List.nil_append]
  refine ⟨?_, .climbStep rfl hop hfirst hright.reads hrest.reads, hrest.goesOn, hrest.stops, ?_, ?_,
    ?_⟩
  · rw [hright.split, hrest.split, List.cons_append, List.append_assoc]
  · exact hrest.first
  · rw [hrest.later, binaryNode, Expr.laterOperands, hmiddle, hlater]
    simp
  · intro hleft
    refine hrest.joined ?_
    rw [binaryNode, Expr.joined, hleft, hright.joined (Expr.joined_of_operand hoperand)]
    rfl

/-- Climbing over a chain always comes to an end. The induction is on the length of the chain: the
right operand takes a part of what follows the operator, and the rest is shorter. -/
theorem ChainReads.climbed {n : Nat} : ∀ {chain : List (BinaryOp × Expr)}, chain.length ≤ n →
    ∀ {c c' : Cursor}, ChainReads chain c c' → ∀ (level : Nat) (left : Expr),
      ∃ e taken remaining stop, Climbed level left chain c c' e taken remaining stop := by
  induction n with
  | zero =>
    intro chain hn c c' h level left
    cases h with
    | done hend => exact ⟨left, [], [], c, .none (.done hend) (by simp [operatorAt?, hend])⟩
    | more _ _ _ => simp at hn
  | succ n ih =>
    intro chain hn c c' h level left
    cases h with
    | done hend => exact ⟨left, [], [], c, .none (.done hend) (by simp [operatorAt?, hend])⟩
    | @more _ c₁ _ op first chain hop he hchain =>
      rcases Nat.lt_or_ge op.precedence level with hlt | hle
      · exact ⟨left, [], _, c, .none (.more hop he hchain) (operatorAt?_of_lt hop hlt)⟩
      · have hlength : chain.length ≤ n := Nat.le_of_succ_le_succ hn
        have hfirst : Reads true (.operand first) c.next c₁ := operand_run_iff.mp he
        obtain ⟨right, taken, remaining, c₂, hright⟩ := ih hlength hchain (op.precedence + 1) first
        have hshorter : remaining.length ≤ n := by
          have hsplit := congrArg List.length hright.split
          rw [List.length_append] at hsplit
          omega
        obtain ⟨e, taken', remaining', c₃, hrest⟩ :=
          ih hshorter hright.goesOn level (binaryNode op left right)
        exact ⟨e, _, _, c₃, .step (operatorAt?_of_le hop hle) hfirst hright hrest⟩

/-- **Operators are grouped in the one correct way.** Where an operand is read and after it a chain
that ends before the end of the input or a token that is no operator, the parser of operations
succeeds and takes exactly that; the operands and operators of its tree are those of the chain in
their order, the tree is grouped, and every grouped tree over the chain is that tree. -/
theorem operation_groups_chain {c c₁ c' : Cursor} {first : Expr} {chain : List (BinaryOp × Expr)}
    (hfirst : (operand climbing).run c = (.ok first, c₁)) (hchain : ChainReads chain c₁ c') :
    ∃ e, (Grammar.operation climbing).run c = (.ok e, c') ∧
      (e.firstOperand = first ∧ e.laterOperands = chain ∧ e.Grouped ∧ e.joined = e) ∧
      ∀ e' : Expr, e'.firstOperand = first → e'.laterOperands = chain → e'.Grouped →
        e'.joined = e := by
  have hoperand : Reads true (.operand first) c c₁ := operand_run_iff.mp hfirst
  have hnot := hoperand.shaped.1.notBinary
  obtain ⟨e, taken, remaining, stop, h⟩ := hchain.climbed (Nat.le_refl _) 0 first
  obtain ⟨rfl, rfl⟩ := h.goesOn.eq_nil h.stops
  have hreads : Reads true (.operation e) c c' := .operation hoperand h.reads
  have hgrouped : e.Grouped := hreads.shaped.grouped
  have hfirst' : e.firstOperand = first := by rw [h.first, Expr.firstOperand_of_operand hnot]
  have hlater : e.laterOperands = chain := by
    rw [h.later, h.split, Expr.laterOperands_of_operand hnot, List.nil_append, List.append_nil]
  have hjoined : e.joined = e := h.joined (Expr.joined_of_operand hnot)
  refine ⟨e, operation_run_iff.mpr hreads, ⟨hfirst', hlater, hgrouped, hjoined⟩, ?_⟩
  intro e' he' hl' hg'
  rw [← hjoined]
  exact Expr.joined_unique hg' hgrouped (he'.trans hfirst'.symm) (hl'.trans hlater.symm)

/-- Three operators of two levels, before a token that is none. -/
theorem operation_groups_chain_mixed :
    ∃ tokens first c₁ chain c', lex "a - b * c - d)" = .ok tokens ∧
      (operand climbing).run (Cursor.ofTokens tokens) = (.ok first, c₁) ∧ ChainReads chain c₁ c' ∧
      chain.map (fun p => (p.1.symbol, p.2.text)) = [("-", "b"), ("*", "c"), ("-", "d")] ∧
      ∃ e, (Grammar.operation climbing).run (Cursor.ofTokens tokens) = (.ok e, c') ∧
        (e.firstOperand = first ∧ e.laterOperands = chain ∧ e.Grouped ∧ e.joined = e) ∧
        ∀ e' : Expr, e'.firstOperand = first → e'.laterOperands = chain → e'.Grouped →
          e'.joined = e := by
  obtain ⟨tokens, first, c₁, hlex, hfirst, chain, c', hchain, hwords⟩ :
      ∃ tokens first c₁, lex "a - b * c - d)" = .ok tokens ∧
        (operand climbing).run (Cursor.ofTokens tokens) = (.ok first, c₁) ∧
        ∃ chain c', ChainReads chain c₁ c' ∧
          chain.map (fun p => (p.1.symbol, p.2.text)) = [("-", "b"), ("*", "c"), ("-", "d")] :=
    ⟨_, _, _, rfl, rfl, _, _, .more rfl rfl (.more rfl rfl (.more rfl rfl (.done rfl))), rfl⟩
  exact ⟨tokens, first, c₁, chain, c', hlex, hfirst, hchain, hwords,
    operation_groups_chain hfirst hchain⟩

end FrontEnd
