import FrontEnd.Proofs.Recovery
import FrontEnd.Proofs.Reparsing

/-!
# Types and modules are read from their contents

* `TypeExpr.lengths` are the lengths of the arrays in a type, `TypeExpr.names` its words that are no
  built-in types. A length is written without suffix, so it is read as a signed number.
* `TypeExpr.reads_of_contents`: a type is read where its contents stand if its lengths are no
  negative numbers. `TypeReads.smallLengths` is the converse: where no number has a suffix of
  another type, no other lengths are read.
* `Declaration.reads_of_contents`, `parseModule_of_contents`: so are declarations and modules.
-/

set_option autoImplicit false

namespace FrontEnd

open Grammar FrontEnd.Parser

variable {c : Cursor} {ws : List Content}

/-! ## Types -/

namespace TypeExpr

/-- The lengths of the arrays in a type. -/
def lengths : TypeExpr → List UInt64
  | slice element => element.lengths
  | array element size => size :: element.lengths
  | ref target => target.lengths
  | pointer target => target.lengths
  | _ => []

/-- The words in a type that stand for no built-in type. -/
def names : TypeExpr → List String
  | slice element => element.names
  | array element _ => element.names
  | ref target => target.names
  | pointer target => target.names
  | named name => [name]
  | _ => []

/-- Every length can be written without a suffix: read as a signed number, none is negative. -/
def SmallLengths (e : TypeExpr) : Prop := ∀ n ∈ e.lengths, n.toNat < Word.signBit

instance (e : TypeExpr) : Decidable e.SmallLengths :=
  List.decidableBAll (fun n : UInt64 => n.toNat < Word.signBit) e.lengths

/-- No name is the word of a built-in type. -/
def OwnNames (e : TypeExpr) : Prop := ∀ s ∈ e.names, primitive? s = none

theorem primitives_words : ∀ p ∈ primitives, p.2.lengths = [] ∧ p.2.names = [] := by decide

theorem words_of_primitive? {s : String} {e : TypeExpr} (h : primitive? s = some e) :
    e.lengths = [] ∧ e.names = [] := by
  obtain ⟨before, after, hsplit, _⟩ := List.lookup_eq_some_iff.mp h
  exact primitives_words (s, e) (by rw [hsplit]; simp)

theorem arraySize?_default (n : UInt64) :
    arraySize? (.integer n .defaultInteger) = if Word.isNegative n then none else some n := rfl

theorem arraySize?_of_small {n : UInt64} (h : n.toNat < Word.signBit) :
    arraySize? (.integer n .defaultInteger) = some n := by
  rw [arraySize?_default, if_neg]
  rw [Word.isNegative_iff, Nat.not_le]
  exact h

theorem small_of_arraySize? {n size : UInt64}
    (h : arraySize? (.integer n .defaultInteger) = some size) : size.toNat < Word.signBit := by
  rw [arraySize?_default] at h
  split at h
  · cases h
  · rename_i hneg
    cases h
    rw [Word.isNegative_iff, Nat.not_le] at hneg
    exact hneg

theorem word_of_contents {e : TypeExpr} (he : ofWord e.text = e)
    (hc : Carries c.rest (.name e.text :: ws)) : ∃ c', Carries c'.rest ws ∧ TypeReads e c c' := by
  obtain ⟨t, ht, hk, hx⟩ := hc.peek?_plain
  have hr := TypeReads.word ht hk
  rw [hx, he] at hr
  exact ⟨c.next, hc.plain_inv.2, hr⟩

/-- A type is read where its contents stand. -/
theorem reads_of_contents (e : TypeExpr) :
    e.SmallLengths → e.OwnNames → ∀ c ws, Carries c.rest (e.contents ++ ws) →
      ∃ c', Carries c'.rest ws ∧ TypeReads e c c' := by
  induction e using contents.induct with
  | case1 =>
    intro _ _ c ws hc
    obtain ⟨ho, hc⟩ := hc.plain_inv
    obtain ⟨hclose, hws⟩ := hc.plain_inv
    exact ⟨c.next.next, hws, .unit ho hclose⟩
  | case2 element ih =>
    intro hl hn c ws hc
    simp only [contents, List.cons_append, List.append_assoc, List.nil_append] at hc
    obtain ⟨ho, hc⟩ := hc.plain_inv
    obtain ⟨c₁, hc₁, hr⟩ := ih hl hn c.next _ hc
    obtain ⟨hclose, hws⟩ := hc₁.plain_inv
    exact ⟨c₁.next, hws, .slice ho hr hclose⟩
  | case3 element size ih =>
    intro hl hn c ws hc
    simp only [contents, List.cons_append, List.append_assoc, List.nil_append] at hc
    have hsize : size.toNat < Word.signBit := hl size List.mem_cons_self
    obtain ⟨ho, hc⟩ := hc.plain_inv
    obtain ⟨c₁, hc₁, hr⟩ := ih (fun n hmem => hl n (List.mem_cons_of_mem size hmem)) hn c.next _ hc
    obtain ⟨hsemi, hc₁⟩ := hc₁.plain_inv
    obtain ⟨c₂, ha, hc₂⟩ := hc₁.integer_inv
    obtain ⟨hclose, hws⟩ := hc₂.plain_inv
    exact ⟨c₂.next, hws, .array ho hr hsemi ha (arraySize?_of_small hsize) hclose⟩
  | case4 target ih =>
    intro hl hn c ws hc
    obtain ⟨ho, hc⟩ := hc.plain_inv
    obtain ⟨c', hws, hr⟩ := ih hl hn c.next _ hc
    exact ⟨c', hws, .refRef ho hr⟩
  | case5 target hne ih =>
    intro hl hn c ws hc
    rw [contents_ref hne] at hc
    obtain ⟨ho, hc⟩ := hc.plain_inv
    obtain ⟨c', hws, hr⟩ := ih hl hn c.next _ hc
    exact ⟨c', hws, .ref ho hr⟩
  | case6 target ih =>
    intro hl hn c ws hc
    obtain ⟨ho, hc⟩ := hc.plain_inv
    obtain ⟨c', hws, hr⟩ := ih hl hn c.next _ hc
    exact ⟨c', hws, .pointer ho hr⟩
  | case7 word h₁ h₂ h₃ h₄ h₅ h₆ =>
    intro _ hn c ws hc
    cases word with
    | unit => exact absurd rfl h₁
    | slice e => exact absurd rfl (h₂ e)
    | array e n => exact absurd rfl (h₃ e n)
    | ref e => exact absurd rfl (h₅ e)
    | pointer e => exact absurd rfl (h₆ e)
    | named name =>
      have hown : primitive? name = none := hn name List.mem_cons_self
      have hword : ofWord name = named name := by
        rw [ofWord, hown]
        rfl
      exact word_of_contents (e := .named name) hword hc
    | sint w => cases w <;> exact word_of_contents (by decide) hc
    | uint w => cases w <;> exact word_of_contents (by decide) hc
    | float w => cases w <;> exact word_of_contents (by decide) hc
    | bool | char | str => exact word_of_contents (by decide) hc

end TypeExpr

/-! ## Lengths without suffix -/

/-- No number has a suffix of another type than the one it has without. -/
def DefaultSuffixes (tokens : List Token) : Prop :=
  ∀ t us type, t :: us <:+ tokens → t.kind = .number → suffixAt? ⟨[t], us⟩ = some type →
    type = .defaultInteger

theorem Carries.defaultSuffixes {tokens : List Token} (h : Carries tokens ws) :
    (∀ bits type, .integer bits type ∈ ws → type = .defaultInteger) → DefaultSuffixes tokens := by
  induction h with
  | nil =>
    intro _ t us type hsuffix
    cases List.suffix_nil.mp hsuffix
  | integer hk hs _ ih =>
    intro hw t us type hsuffix hkind ht
    rcases List.suffix_cons_iff.mp hsuffix with heq | hsuffix
    · cases heq
      rw [hs] at ht
      cases ht
    · exact ih (fun bits type hmem => hw bits type (List.mem_cons_of_mem _ hmem)) t us type hsuffix
        hkind ht
  | suffixed hk hs _ ih =>
    intro hw t us type hsuffix hkind ht
    rcases List.suffix_cons_iff.mp hsuffix with heq | hsuffix
    · cases heq
      rw [hs] at ht
      cases ht
      exact hw _ _ List.mem_cons_self
    rcases List.suffix_cons_iff.mp hsuffix with heq | hsuffix
    · cases heq
      obtain ⟨u, hu, hku, _⟩ := suffixAt?_eq_some_iff.mp hs
      cases hu
      rw [hkind] at hku
      cases hku
    · exact ih (fun bits type hmem => hw bits type (List.mem_cons_of_mem _ hmem)) t us type hsuffix
        hkind ht
  | boolean hk _ ih =>
    intro hw t us type hsuffix hkind ht
    rcases List.suffix_cons_iff.mp hsuffix with heq | hsuffix
    · cases heq
      rw [hkind] at hk
      cases hk
    · exact ih (fun bits type hmem => hw bits type (List.mem_cons_of_mem _ hmem)) t us type hsuffix
        hkind ht
  | plain hn _ _ ih =>
    intro hw t us type hsuffix hkind ht
    rcases List.suffix_cons_iff.mp hsuffix with heq | hsuffix
    · cases heq
      exact absurd hkind hn
    · exact ih (fun bits type hmem => hw bits type (List.mem_cons_of_mem _ hmem)) t us type hsuffix
        hkind ht

theorem DefaultSuffixes.after {c' : Cursor} (h : DefaultSuffixes c.rest) (hr : c.Reaches c') :
    DefaultSuffixes c'.rest := by
  obtain ⟨ts, hrest, _⟩ := hr
  intro t us type hsuffix
  exact h t us type (hsuffix.trans ⟨ts, hrest.symm⟩)

theorem DefaultSuffixes.terminal {bits : UInt64} {type : TypeExpr} {c' : Cursor}
    (h : DefaultSuffixes c.rest) (hr : TerminalReads (.integer bits type) c c') :
    type = .defaultInteger := by
  cases hr with
  | number _ _ _ => rfl
  | suffixed ht hk hs =>
    obtain ⟨passed, rest⟩ := c
    cases rest with
    | nil => cases ht
    | cons u ts =>
      obtain rfl := Option.some.inj ht
      exact h u ts type (List.suffix_refl _) hk hs

/-- Where no number has a suffix of another type, only small lengths are read. -/
theorem TypeReads.smallLengths {e : TypeExpr} {c c' : Cursor} (h : TypeReads e c c') :
    DefaultSuffixes c.rest → e.SmallLengths := by
  induction h with
  | @word c t _ _ =>
    intro _ n hn
    unfold TypeExpr.ofWord at hn
    cases hp : TypeExpr.primitive? t.text with
    | none =>
      rw [hp] at hn
      cases hn
    | some e =>
      rw [hp, Option.getD_some, (TypeExpr.words_of_primitive? hp).1] at hn
      cases hn
  | unit _ _ => exact fun _ n hn => by cases hn
  | slice ho _ _ ih => exact fun hd => ih (hd.after (.symbol ho))
  | @array c c₁ c₂ e a size ho he hsemi ha hs _ ih =>
    intro hd n hn
    have hd₁ := hd.after (.symbol ho)
    rcases List.mem_cons.mp hn with rfl | hn
    · cases a with
      | integer bits type =>
        have hdefault := ((hd₁.after he.reaches).after (.symbol hsemi)).terminal ha
        rw [hdefault] at hs
        exact TypeExpr.small_of_arraySize? hs
      | _ => cases hs
    · exact ih hd₁ n hn
  | ref ho _ ih => exact fun hd => ih (hd.after (.symbol ho))
  | refRef ho _ ih => exact fun hd => ih (hd.after (.symbol ho))
  | pointer ho _ ih => exact fun hd => ih (hd.after (.symbol ho))

/-- The lengths of arrays are the only numbers in a type, and they are written without suffix. -/
theorem TypeExpr.contents_default (e : TypeExpr) :
    ∀ bits type, Content.integer bits type ∈ e.contents → type = .defaultInteger := by
  induction e using contents.induct with
  | case1 => simp [contents]
  | case2 element ih =>
    intro bits type hmem
    exact ih bits type (by simpa [contents] using hmem)
  | case3 element size ih =>
    intro bits type hmem
    have hcases : Content.integer bits type ∈ element.contents ∨
        bits = size ∧ type = .defaultInteger := by simpa [contents] using hmem
    rcases hcases with hmem | ⟨_, hdefault⟩
    · exact ih bits type hmem
    · exact hdefault
  | case4 target ih =>
    intro bits type hmem
    exact ih bits type (by simpa [contents] using hmem)
  | case5 target hne ih =>
    intro bits type hmem
    rw [contents_ref hne] at hmem
    exact ih bits type (by simpa using hmem)
  | case6 target ih =>
    intro bits type hmem
    exact ih bits type (by simpa [contents] using hmem)
  | case7 word h₁ h₂ h₃ h₄ h₅ h₆ =>
    cases word with
    | unit => exact absurd rfl h₁
    | slice e => exact absurd rfl (h₂ e)
    | array e n => exact absurd rfl (h₃ e n)
    | ref e => exact absurd rfl (h₅ e)
    | pointer e => exact absurd rfl (h₆ e)
    | _ => simp [contents]

/-! ## Bindings -/

theorem binding_of_contents {name : String} {type : TypeExpr} (hl : type.SmallLengths)
    (hn : type.OwnNames) (hc : Carries c.rest (bindingContents name type ++ ws)) :
    ∃ c', Carries c'.rest ws ∧ BindingReads name type c c' := by
  unfold bindingContents at hc
  simp only [List.cons_append] at hc
  have htoken := hc.peek?_plain
  obtain ⟨hcolon, hc₁⟩ := hc.plain_inv.2.plain_inv
  obtain ⟨c', hws, hr⟩ := type.reads_of_contents hl hn _ _ hc₁
  exact ⟨c', hws, htoken, hcolon, hr⟩

theorem Parameter.reads_of_contents {p : Parameter} (hs : p.slot = TypeSlot.empty)
    (hl : p.type.SmallLengths) (hn : p.type.OwnNames)
    (hc : Carries c.rest (p.contents ++ ws)) :
    ∃ c' p', p'.erase = p.erase ∧ ParameterReads p' c c' ∧ Carries c'.rest ws := by
  obtain ⟨c', hws, hr⟩ := binding_of_contents hl hn hc
  refine ⟨c', _, ?_, .mk hr, hws⟩
  rw [Parameter.erase, Parameter.erase, hs]

theorem Member.reads_of_contents {m : Member} (hs : m.slot = TypeSlot.empty)
    (hl : m.type.SmallLengths) (hn : m.type.OwnNames)
    (hc : Carries c.rest (m.contents ++ ws)) :
    ∃ c' m', m'.erase = m.erase ∧ MemberReads m' c c' ∧ Carries c'.rest ws := by
  unfold Member.contents at hc
  have hstart : c.nextIs .keyword "public" = m.isPublic ∧
      Carries (c.skipIf .keyword "public").rest (bindingContents m.name m.type ++ ws) := by
    cases hp : m.isPublic with
    | true =>
      rw [hp, if_pos rfl] at hc
      obtain ⟨hpublic, hc⟩ := hc.plain_inv
      rw [Cursor.skipIf_of hpublic]
      exact ⟨hpublic, hc⟩
    | false =>
      rw [hp, if_neg (by simp), List.nil_append] at hc
      have hno : c.nextIs .keyword "public" = false := by
        unfold bindingContents at hc
        exact hc.nextIs_false (by decide) (by decide) (by simp)
      rw [Cursor.skipIf_of_not hno]
      exact ⟨hno, hc⟩
  obtain ⟨hpublic, hc⟩ := hstart
  obtain ⟨c', hws, hr⟩ := binding_of_contents hl hn hc
  refine ⟨c', _, ?_, .mk hr, hws⟩
  rw [Member.erase, Member.erase, hs, hpublic]

/-- A series is read where the contents of its elements stand. -/
theorem series_of_contents {α : Type} {R : α → Cursor → Cursor → Prop}
    {contents : α → List Content} {erase : α → α} {delimiter : String} {as : List α}
    (hread : ∀ a ∈ as, ∀ c ws, Carries c.rest (contents a ++ ws) →
      ∃ c' a', erase a' = erase a ∧ R a' c c' ∧ Carries c'.rest ws) :
    as ≠ [] → ∀ c ws, Carries c.rest (delimited delimiter (as.map contents) ++ ws) →
      ∃ c' as', as'.map erase = as.map erase ∧ SeriesReads R .symbol delimiter as' c c' ∧
        Carries c'.rest ws := by
  induction as with
  | nil => exact fun h => absurd rfl h
  | cons a as ih =>
    intro _ c ws hc
    have ha := hread a List.mem_cons_self
    cases as with
    | nil =>
      obtain ⟨c', a', hea, hr, hws⟩ := ha c ws hc
      exact ⟨c', [a'], by simp only [List.map_cons, List.map_nil, hea], .last hr, hws⟩
    | cons b as =>
      simp only [List.map_cons, delimited, List.append_assoc, List.cons_append] at hc
      obtain ⟨c₁, a', hea, hr, hc₁⟩ := ha c _ hc
      obtain ⟨hd, hc₁⟩ := hc₁.plain_inv
      obtain ⟨c', as', heas, hrs, hws⟩ :=
        ih (fun x hx => hread x (List.mem_cons_of_mem a hx)) (by simp) c₁.next ws hc₁
      refine ⟨c', a' :: as', ?_, .more hr hd hrs, hws⟩
      rw [List.map_cons, List.map_cons, hea, heas]

/-! ## Declarations -/

/-- The types that a declaration is written with. -/
def Declaration.types : Declaration → List TypeExpr
  | .function f => f.returnType :: f.params.map Parameter.type
  | .struct s => s.members.map Member.type

/-- What follows a declaration: nothing, or a keyword other than those in expressions. -/
def AfterDeclaration (ws : List Content) : Prop :=
  ws = [] ∨ ∃ s ws', ws = .keyword s :: ws' ∧ s ≠ "else"

theorem AfterDeclaration.ends (h : AfterDeclaration ws) : Ends ws := by
  rcases h with rfl | ⟨s, ws', rfl, hs⟩
  · exact ends_nil
  · exact ends_keyword hs

theorem AfterDeclaration.not_symbol (h : AfterDeclaration ws) (hc : Carries c.rest ws)
    (s : String) : c.nextIs .symbol s = false := by
  refine hc.nextIs_false_of_head (by decide) (by decide) ?_
  rcases h with rfl | ⟨k, ws', rfl, _⟩
  · simp
  · simp

theorem parameterList_of_contents {f : Function} (hs : f.WellShaped)
    (hl : ∀ e ∈ f.params.map Parameter.type, e.SmallLengths)
    (hn : ∀ e ∈ f.params.map Parameter.type, e.OwnNames)
    (hc : Carries c.rest (.symbol "(" :: (delimited "," (f.params.map Parameter.contents) ++
      ((if f.isVariadic then [.symbol ",", .symbol "..."] else []) ++ .symbol ")" :: ws)))) :
    ∃ c' params, params.bindings.map Parameter.erase = f.params.map Parameter.erase ∧
      params.isVariadic = f.isVariadic ∧ ParameterListReads params c c' ∧ Carries c'.rest ws := by
  obtain ⟨ho, hc⟩ := hc.plain_inv
  by_cases hnil : f.params = []
  · have hv : f.isVariadic = false := by
      rw [Bool.eq_false_iff]
      exact fun hv => hs.variadic hv hnil
    rw [hnil, hv] at hc
    obtain ⟨hclose, hws⟩ := hc.plain_inv
    exact ⟨c.next.next, Parameters.none, by simp [hnil, Parameters.none], hv.symm,
      .empty ho hclose, hws⟩
  · obtain ⟨c₁, ps, heps, hr, hc₁⟩ := series_of_contents (R := ParameterReads)
      (fun p hp c ws hc => p.reads_of_contents (hs.params p hp)
        (hl p.type (List.mem_map_of_mem hp)) (hn p.type (List.mem_map_of_mem hp)) hc)
      hnil c.next _ hc
    cases hv : f.isVariadic with
    | false =>
      rw [hv] at hc₁
      obtain ⟨hclose, hws⟩ := hc₁.plain_inv
      exact ⟨c₁.next, ⟨ps, false⟩, heps, rfl, .fixed ho hr hclose, hws⟩
    | true =>
      rw [hv] at hc₁
      obtain ⟨hd, hc₁⟩ := hc₁.plain_inv
      obtain ⟨he, hc₁⟩ := hc₁.plain_inv
      obtain ⟨hclose, hws⟩ := hc₁.plain_inv
      exact ⟨c₁.next.next.next, ⟨ps, true⟩, heps, rfl, .variadic ho hr hd he hclose, hws⟩

theorem returnType_of_contents {type : TypeExpr} (hl : type.SmallLengths) (hn : type.OwnNames)
    (hc : Carries c.rest ((if type = .unit then [] else .symbol "->" :: type.contents) ++ ws))
    (hno : ws.head? ≠ some (.symbol "->")) :
    ∃ c', ReturnReads type c c' ∧ Carries c'.rest ws := by
  by_cases hu : type = .unit
  · rw [if_pos hu, List.nil_append] at hc
    subst hu
    exact ⟨c, .omitted (hc.nextIs_false_of_head (by decide) (by decide) hno), hc⟩
  · rw [if_neg hu, List.cons_append] at hc
    obtain ⟨ho, hc⟩ := hc.plain_inv
    obtain ⟨c', hws, hr⟩ := type.reads_of_contents hl hn c.next ws hc
    exact ⟨c', .written ho hr, hws⟩

theorem body_of_contents {body : Option Expr} (hs : ∀ e ∈ body, e.All Expr.WellShaped)
    (hc : Carries c.rest (bodyContents body ++ ws)) (ha : AfterDeclaration ws) :
    ∃ c' body', body'.map Expr.erase = body.map Expr.erase ∧ BodyReads true body' c c' ∧
      Carries c'.rest ws := by
  cases body with
  | none => exact ⟨c, none, rfl, .omitted (ha.not_symbol hc "="), hc⟩
  | some e =>
    obtain ⟨ho, hc⟩ := hc.plain_inv
    obtain ⟨c', hws, e', hee, hr⟩ := (Expr.readable (hs e rfl)).operation hc ha.ends
    exact ⟨c', some e', congrArg some hee, .written ho hr, hws⟩

theorem Function.reads_of_contents {f : Function} (hs : f.WellShaped)
    (hl : ∀ e ∈ (Declaration.function f).types, e.SmallLengths)
    (hn : ∀ e ∈ (Declaration.function f).types, e.OwnNames)
    (hc : Carries c.rest (f.contents ++ ws)) (ha : AfterDeclaration ws) :
    ∃ c' f', f'.erase = f.erase ∧ FunctionReads true f' c c' ∧ Carries c'.rest ws := by
  simp only [Function.contents, List.append_assoc, List.cons_append,
    List.nil_append] at hc
  -- the place of `fn`
  have hstart : c.nextIs .keyword "extern" = f.isExtern ∧
      Carries (c.skipIf .keyword "extern").rest (.keyword "fn" :: .name f.name :: .symbol "(" ::
        (delimited "," (f.params.map Parameter.contents) ++
          ((if f.isVariadic then [.symbol ",", .symbol "..."] else []) ++ .symbol ")" ::
            ((if f.returnType = .unit then [] else .symbol "->" :: f.returnType.contents) ++
              (bodyContents f.body ++ ws))))) := by
    cases hx : f.isExtern with
    | true =>
      rw [hx, if_pos rfl, List.cons_append, List.nil_append] at hc
      obtain ⟨hext, hc⟩ := hc.plain_inv
      rw [Cursor.skipIf_of hext]
      exact ⟨hext, hc⟩
    | false =>
      rw [hx, if_neg (by simp), List.nil_append] at hc
      have hno : c.nextIs .keyword "extern" = false :=
        hc.nextIs_false (by decide) (by decide) (by simp)
      rw [Cursor.skipIf_of_not hno]
      exact ⟨hno, hc⟩
  obtain ⟨hext, hc⟩ := hstart
  obtain ⟨hfn, hc⟩ := hc.plain_inv
  obtain ⟨t, ht, hk, hx⟩ := hc.peek?_plain
  obtain ⟨c₁, params, hep, hev, hp, hc₁⟩ := parameterList_of_contents hs
    (fun e he => hl e (List.mem_cons_of_mem _ he)) (fun e he => hn e (List.mem_cons_of_mem _ he))
    hc.plain_inv.2
  have hnoArrow : (bodyContents f.body ++ ws).head? ≠ some (.symbol "->") := by
    cases f.body with
    | some body => simp [bodyContents]
    | none =>
      rcases ha with rfl | ⟨s, ws', rfl, _⟩
      · simp [bodyContents]
      · simp [bodyContents]
  obtain ⟨c₂, hr, hc₂⟩ := returnType_of_contents (hl _ List.mem_cons_self)
    (hn _ List.mem_cons_self) hc₁ hnoArrow
  obtain ⟨c₃, body', heb, hb, hws⟩ := body_of_contents hs.body hc₂ ha
  refine ⟨c₃, _, ?_, .mk rfl hfn ht hk hp hr hb, hws⟩
  simp only [Function.erase, hep, hev, heb, hx, hext, hs.slot]

theorem Struct.reads_of_contents {s : Struct} (hs : s.WellShaped)
    (hl : ∀ e ∈ (Declaration.struct s).types, e.SmallLengths)
    (hn : ∀ e ∈ (Declaration.struct s).types, e.OwnNames)
    (hc : Carries c.rest (s.contents ++ ws)) :
    ∃ c' s', s'.erase = s.erase ∧ StructReads s' c c' ∧ Carries c'.rest ws := by
  simp only [Struct.contents, List.append_assoc, List.cons_append, List.nil_append] at hc
  obtain ⟨hstruct, hc⟩ := hc.plain_inv
  obtain ⟨t, ht, hk, hx⟩ := hc.peek?_plain
  obtain ⟨ho, hc⟩ := hc.plain_inv.2.plain_inv
  by_cases hnil : s.members = []
  · rw [hnil] at hc
    obtain ⟨hclose, hws⟩ := hc.plain_inv
    refine ⟨c.next.next.next.next, _, ?_, .mk hstruct ht hk ho (.inl ⟨rfl, rfl⟩) hclose, hws⟩
    simp only [Struct.erase, hnil, hx, hs.slot]
  · obtain ⟨c₁, ms, hem, hr, hc₁⟩ := series_of_contents (R := MemberReads)
      (fun m hm c ws hc => m.reads_of_contents (hs.members m hm)
        (hl m.type (List.mem_map_of_mem hm)) (hn m.type (List.mem_map_of_mem hm)) hc)
      hnil c.next.next.next _ hc
    obtain ⟨hclose, hws⟩ := hc₁.plain_inv
    refine ⟨c₁.next, _, ?_, .mk hstruct ht hk ho (.inr hr) hclose, hws⟩
    simp only [Struct.erase, hem, hx, hs.slot]

/-- **A declaration is read where its contents stand.** -/
theorem Declaration.reads_of_contents {d : Declaration} (hs : d.WellShaped)
    (hl : ∀ e ∈ d.types, e.SmallLengths) (hn : ∀ e ∈ d.types, e.OwnNames)
    (hc : Carries c.rest (d.contents ++ ws)) (ha : AfterDeclaration ws) :
    ∃ c' d', d'.erase = d.erase ∧ DeclarationReads true d' c c' ∧ Carries c'.rest ws := by
  cases d with
  | function f =>
    obtain ⟨c', f', hef, hr, hws⟩ := Function.reads_of_contents hs hl hn hc ha
    exact ⟨c', .function f', congrArg Declaration.function hef, .function hr, hws⟩
  | struct s =>
    obtain ⟨c', s', hes, hr, hws⟩ := Struct.reads_of_contents hs hl hn hc
    exact ⟨c', .struct s', congrArg Declaration.struct hes, .struct hr, hws⟩

/-! ## Modules -/

theorem afterDeclaration_contents (m : Module) : AfterDeclaration (Module.contents m) := by
  cases m with
  | nil => exact .inl rfl
  | cons d m =>
    refine .inr ?_
    cases d with
    | function f =>
      obtain ⟨isExtern, _⟩ := f
      cases isExtern with
      | true => exact ⟨"extern", _, rfl, by decide⟩
      | false => exact ⟨"fn", _, rfl, by decide⟩
    | struct s => exact ⟨"struct", _, rfl, by decide⟩

theorem declarationsAux_of_contents {m : Module} (hs : ∀ d ∈ m, d.WellShaped)
    (hl : ∀ d ∈ m, ∀ e ∈ d.types, e.SmallLengths) (hn : ∀ d ∈ m, ∀ e ∈ d.types, e.OwnNames) :
    ∀ (fuel : Nat) (c : Cursor), c.rest.length < fuel → Carries c.rest (Module.contents m) →
      (declarationsAux climbing fuel c).1.errors = [] ∧
        Module.erase (declarationsAux climbing fuel c).1.declarations = Module.erase m := by
  induction m with
  | nil =>
    intro fuel c _ hc
    rw [declarationsAux_end hc.rest_nil]
    exact ⟨rfl, rfl⟩
  | cons d m ih =>
    intro fuel c hf hc
    cases fuel with
    | zero => omega
    | succ fuel =>
      rw [Module.contents_cons] at hc
      obtain ⟨c', d', hed, hr, hws⟩ := Declaration.reads_of_contents (hs d List.mem_cons_self)
        (hl d List.mem_cons_self) (hn d List.mem_cons_self) hc (afterDeclaration_contents m)
      have hlt := hr.progress
      have hne : c.rest ≠ [] := by
        intro hnil
        rw [hnil] at hlt
        simp at hlt
      obtain ⟨herrors, hdecls⟩ := ih (fun d hd => hs d (List.mem_cons_of_mem _ hd))
        (fun d hd => hl d (List.mem_cons_of_mem _ hd))
        (fun d hd => hn d (List.mem_cons_of_mem _ hd)) fuel c' (by omega) hws
      have hrun : (declaration climbing).run c = (.ok d', c') :=
        (@declaration_run_iff true d' c c').mpr hr
      rw [declarationsAux_ok hne hrun]
      refine ⟨herrors, ?_⟩
      simp only [Module.erase] at hdecls ⊢
      rw [ParsedModule.consDeclaration, List.map_cons, List.map_cons, hed, hdecls]

/-- **A module is read from its contents**, without an error. -/
theorem parseModule_of_contents {m : Module} {tokens : List Token} (hs : ∀ d ∈ m, d.WellShaped)
    (hl : ∀ d ∈ m, ∀ e ∈ d.types, e.SmallLengths) (hn : ∀ d ∈ m, ∀ e ∈ d.types, e.OwnNames)
    (hc : Carries tokens (Module.contents m)) :
    (parseModule tokens).errors = [] ∧
      Module.erase (parseModule tokens).declarations = Module.erase m :=
  declarationsAux_of_contents hs hl hn _ (Cursor.ofTokens tokens) (Nat.lt_succ_self _) hc

end FrontEnd
