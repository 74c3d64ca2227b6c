import FrontEnd.Proofs.Printing

/-!
# Pieces of printed modules

* `Declaration.writes`, `Module.writes`: the pieces of declarations and modules spell their contents.
* `Module.toSource_toList`: the text of a module is what its pieces add, for the pieces of its last
  declaration end no line, and one line feed comes after them.
* `Module.spells`: so the text of a module spells its contents.
-/

set_option autoImplicit false

namespace FrontEnd

open Lexer

variable {k : Nat} {ps : List Piece} {ws : List Content}

/-! ## Parts of declarations -/

theorem Follows.type {e : TypeExpr} (he : e.Lexed) (h : Follows k ps ws) :
    Writes k (.text e.text :: ps) (e.contents ++ ws) := by
  obtain ⟨c, cs, hcs, _⟩ := TypeExpr.text_start he
  exact .text (isEmpty_of_cons hcs) fun level =>
    e.spells he _ _ (h.closed level) (h.writes level false)

/-- A name, a colon and a type. -/
theorem binding_write {name : String} {type : TypeExpr} (hn : IsName name) (ht : type.Lexed)
    (h : Follows k ps ws) :
    Writes k (.text name :: .text ": " :: .text type.text :: ps)
      (bindingContents name type ++ ws) := by
  have hcolon : StandsFor ": " [.symbol ":"] := .symbolBlank (s := ":") (by decide)
  exact (Follows.lexeme hcolon (fun _ => closed_cons (by decide)) (by simp) (h.type ht)).name hn

theorem Parameter.writes {p : Parameter} (hp : IsName p.name ∧ p.type.Lexed)
    (h : Follows k ps ws) : Writes k (p.pieces ++ ps) (p.contents ++ ws) :=
  binding_write hp.1 hp.2 h

theorem Member.writes {m : Member} (hm : IsName m.name ∧ m.type.Lexed) (h : Follows k ps ws) :
    Writes k (m.pieces ++ ps) (m.contents ++ ws) := by
  have hbinding := binding_write hm.1 hm.2 h
  rw [pieces, contents]
  cases m.isPublic with
  | true => exact .lexeme (.keywordBlank (s := "public") (by decide)) hbinding
  | false => exact hbinding

/-- Pieces with a separator between each two spell what is separated by its delimiter. -/
theorem interleave_write {α : Type} {pieces : α → List Piece} {contents : α → List Content}
    {separator : List Piece} {delimiter : String} {as : List α}
    (hs : ∀ ps ws, Writes k ps ws → Follows k (separator ++ ps) (.symbol delimiter :: ws))
    (ha : ∀ a ∈ as, ∀ ps ws, Follows k ps ws → Writes k (pieces a ++ ps) (contents a ++ ws))
    (h : Follows k ps ws) :
    Writes k (interleave separator (as.map pieces) ++ ps)
      (delimited delimiter (as.map contents) ++ ws) := by
  induction as with
  | nil => exact h.writes
  | cons a as ih =>
    have hrest := ih fun x hx => ha x (List.mem_cons_of_mem a hx)
    cases as with
    | nil => exact ha a List.mem_cons_self ps ws h
    | cons b as =>
      simp only [List.map_cons, interleave, delimited, List.append_assoc,
        List.cons_append] at hrest ⊢
      exact ha a List.mem_cons_self _ _ (hs _ _ hrest)

/-! ## Declarations -/

theorem parameters_write {ps' : List Parameter} (hp : ∀ p ∈ ps', IsName p.name ∧ p.type.Lexed)
    (h : Follows k ps ws) :
    Writes k (interleave [.text ", "] (ps'.map Parameter.pieces) ++ ps)
      (delimited "," (ps'.map Parameter.contents) ++ ws) :=
  interleave_write
    (fun _ _ hw => .lexeme .comma (fun _ => closed_cons (by decide)) (by simp) hw)
    (fun p hmem _ _ hf => Parameter.writes (hp p hmem) hf) h

theorem variadicMark_follow {isVariadic : Bool} (h : Follows k ps ws) :
    Follows k ((if isVariadic then [.text ", ..."] else []) ++ ps)
      ((if isVariadic then [.symbol ",", .symbol "..."] else []) ++ ws) := by
  cases isVariadic with
  | true =>
    have hmark : StandsFor ", ..." [.symbol ",", .symbol "..."] :=
      .append (t := ", ") (u := "...") .comma (.symbol (by decide) rfl (by decide))
    exact .fragment hmark (fun _ => closed_cons (by decide)) (by simp) h.writes
  | false => exact h

theorem returnType_follow {type : TypeExpr} (ht : type.Lexed) (h : Follows k ps ws) :
    Follows k ((if type = .unit then [] else [.text " -> ", .text type.text]) ++ ps)
      ((if type = .unit then [] else .symbol "->" :: type.contents) ++ ws) := by
  by_cases hu : type = .unit
  · rw [if_pos hu, if_pos hu]
    exact h
  · have harrow : StandsFor " -> " [.symbol "->"] :=
      .append (t := " ") (u := "-> ") .blank (.symbolBlank (s := "->") (by decide))
    rw [if_neg hu, if_neg hu]
    exact .lexeme harrow (fun _ => closed_cons (by decide)) (by simp) (h.type ht)

/-- The pieces of a body. -/
def bodyPieces : Option Expr → List Piece
  | some body => .text " = " :: body.pieces
  | none => []

theorem body_follow {body : Option Expr} (hs : ∀ e ∈ body, e.All Expr.WellShaped)
    (hl : ∀ e ∈ body, e.All Expr.Lexed) (h : Follows k ps ws) :
    Follows k (bodyPieces body ++ ps) (bodyContents body ++ ws) := by
  cases body with
  | none => exact h
  | some e =>
    have hequals : StandsFor " = " [.symbol "="] :=
      .append (t := " ") (u := "= ") .blank (.symbolBlank (s := "=") (by decide))
    have he := (Expr.printed (hs e rfl) (hl e rfl)).writes ps ws h
    exact .lexeme hequals (fun _ => closed_cons (by decide)) (by simp) he

theorem Function.writes {f : Function} (hs : f.WellShaped) (hl : f.Lexed) (h : Follows k ps ws) :
    Writes k (f.pieces ++ ps) (f.contents ++ ws) := by
  have hbody := returnType_follow hl.returnType (body_follow hs.body hl.body h)
  have hclose : Follows k _ (.symbol ")" :: _) :=
    .lexeme .closeParen (fun _ => closed_cons (by decide)) (by simp) hbody.writes
  have hvariadic := @variadicMark_follow _ _ _ f.isVariadic hclose
  have hparams := parameters_write hl.params hvariadic
  have hopen : Follows k _ (.symbol "(" :: _) :=
    .lexeme .openParen (fun _ => closed_cons (by decide)) (by simp) hparams
  have hfn := Writes.lexeme (.keywordBlank (s := "fn") (by decide)) (hopen.name hl.name)
  have hpieces : f.pieces = (if f.isExtern then [.text "extern "] else []) ++
      [.text "fn ", .text f.name, .text "("] ++
      interleave [.text ", "] (f.params.map Parameter.pieces) ++
      (if f.isVariadic then [.text ", ..."] else []) ++ [.text ")"] ++
      (if f.returnType = .unit then [] else [.text " -> ", .text f.returnType.text]) ++
      bodyPieces f.body := by
    rw [pieces]
    cases f.body <;> rfl
  simp only [hpieces, contents, List.append_assoc, List.cons_append, List.nil_append]
  cases f.isExtern with
  | true => exact .lexeme (.keywordBlank (s := "extern") (by decide)) hfn
  | false => exact hfn

theorem Struct.writes {s : Struct} (hl : s.Lexed) (h : Writes k ps ws) :
    Writes k (s.pieces ++ ps) (s.contents ++ ws) := by
  have hstruct : StandsFor "struct " [.keyword "struct"] :=
    .keywordBlank (s := "struct") (by decide)
  simp only [pieces, contents, List.append_assoc, List.cons_append, List.nil_append]
  refine .lexeme hstruct (Follows.name hl.name ?_)
  by_cases hnil : s.members = []
  · have hbraces : StandsFor " \x7b\x7d" [.symbol "\x7b", .symbol "\x7d"] :=
      .append (t := " ") (u := "\x7b\x7d") .blank .braces
    rw [hnil]
    exact .fragment hbraces (fun _ => closed_cons (by decide)) (by simp) h
  · have hopen : StandsFor " \x7b" [.symbol "\x7b"] :=
      .append (t := " ") (u := "\x7b") .blank .openBrace
    have hclose : Writes k (.text "\x7d" :: ps) (.symbol "\x7d" :: ws) := .lexeme .closeBrace h
    have hseparator : ∀ ps ws, Writes k ps ws →
        Follows k ([.text ";", .newline] ++ ps) (.symbol ";" :: ws) := fun ps ws hw =>
      .lexeme (.symbol (by decide) rfl (by decide)) (fun _ => closed_cons (by decide)) (by simp)
        (Writes.newline hw)
    have hmembers := interleave_write hseparator
      (fun m hmem ps ws hf => Member.writes (hl.members m hmem) hf)
      (Follows.newline (by simp) hclose).dedent
    have hne : s.members.isEmpty = false := by simp [hnil]
    rw [hne, if_neg (by simp)]
    simp only [List.append_assoc, List.cons_append, List.nil_append]
    exact .lexeme hopen (fun _ => closed_cons (by decide)) (by simp) hmembers.newline.indent

/-- The pieces of a declaration spell its contents. -/
theorem Declaration.writes {d : Declaration} (hs : d.WellShaped) (hl : d.Lexed)
    (h : Follows k ps ws) : Writes k (d.pieces ++ ps) (d.contents ++ ws) := by
  cases d with
  | function f => exact Function.writes hs hl h
  | struct s => exact Struct.writes hl h.writes

/-! ## Modules -/

theorem Module.contents_noName (m : Module) (s : String) :
    (Module.contents m).head? ≠ some (.name s) := by
  rcases afterDeclaration_contents m with hnil | ⟨keyword, rest, hcons, _⟩
  · simp [hnil]
  · simp [hcons]

/-- The pieces of a module spell its contents. -/
theorem Module.writes {m : Module} (hs : ∀ d ∈ m, d.WellShaped) (hl : ∀ d ∈ m, d.Lexed) :
    Writes k (Module.pieces m) (Module.contents m) := by
  unfold Module.pieces
  induction m with
  | nil => exact .nil
  | cons d m ih =>
    have hm := ih (fun x hx => hs x (List.mem_cons_of_mem d hx))
      (fun x hx => hl x (List.mem_cons_of_mem d hx))
    have hd : ∀ ps, Writes k ps (Module.contents m) →
        Writes k (d.pieces ++ .newline :: ps) (d.contents ++ Module.contents m) := fun ps hps =>
      Declaration.writes (hs d List.mem_cons_self) (hl d List.mem_cons_self)
        (.newline (Module.contents_noName m) hps)
    rw [Module.contents_cons]
    cases m with
    | nil => exact hd [] .nil
    | cons e m =>
      simp only [List.map_cons, interleave, List.append_assoc, List.cons_append,
        List.nil_append] at hm ⊢
      exact hd _ hm.newline

/-! ## The end of the text -/

theorem Function.pieces_end {f : Function} (hs : f.WellShaped) (hl : f.Lexed) :
    EndsPlain f.pieces := by
  rw [pieces]
  cases hbody : f.body with
  | some e =>
    have he := Expr.printed (k := 0) (hs.body e hbody) (hl.body e hbody)
    exact (he.ending.of_append [.text " = "]).of_append _
  | none =>
    rw [List.append_nil]
    by_cases hu : f.returnType = .unit
    · rw [if_pos hu, List.append_nil]
      exact (EndsPlain.text (t := ")") (.of_text rfl)).of_append _
    · rw [if_neg hu]
      have htype := EndsPlain.text (f.returnType.plain hl.returnType)
      exact (htype.of_append [.text " -> "]).of_append _

theorem Struct.pieces_end (s : Struct) : EndsPlain s.pieces := by
  rw [pieces]
  split
  · exact (EndsPlain.text (t := " \x7b\x7d") (.of_text rfl)).of_append _
  · have hclose := EndsPlain.text (t := "\x7d") (.of_text rfl)
    exact ((hclose.of_append [.dedent, .newline]).of_append _).of_append _

theorem Declaration.pieces_end {d : Declaration} (hs : d.WellShaped) (hl : d.Lexed) :
    EndsPlain d.pieces := by
  cases d with
  | function f => exact Function.pieces_end hs hl
  | struct s => exact s.pieces_end

/-- The pieces of a module end with one line feed. -/
theorem Module.pieces_end {m : Module} (hne : m ≠ []) (hs : ∀ d ∈ m, d.WellShaped)
    (hl : ∀ d ∈ m, d.Lexed) : ∃ ps, Module.pieces m = ps ++ [.newline] ∧ EndsPlain ps := by
  unfold Module.pieces
  induction m with
  | nil => exact absurd rfl hne
  | cons d m ih =>
    have hd := Declaration.pieces_end (hs d List.mem_cons_self) (hl d List.mem_cons_self)
    cases m with
    | nil => exact ⟨d.pieces, rfl, hd⟩
    | cons e m =>
      obtain ⟨ps, hps, hend⟩ := ih (by simp) (fun x hx => hs x (List.mem_cons_of_mem d hx))
        (fun x hx => hl x (List.mem_cons_of_mem d hx))
      simp only [List.map_cons, interleave, List.append_assoc, List.cons_append,
        List.nil_append] at hps ⊢
      refine ⟨d.pieces ++ [.newline, .newline] ++ ps, ?_, hend.of_append _⟩
      rw [hps]
      simp

/-- A last fragment and a line feed are the end of the text. -/
theorem printed_end {t : String} (ht : t.isEmpty = false) (ps : List Piece) (level : Nat)
    (atStart : Bool) :
    ∃ cs, printed k level atStart (ps ++ [.text t] ++ [.newline]) = cs ++ (t.toList ++ ['\n']) := by
  induction ps generalizing level atStart with
  | nil =>
    simp only [List.nil_append, List.cons_append, printed, ht, if_neg Bool.false_ne_true]
    exact ⟨_, rfl⟩
  | cons p ps ih =>
    cases p with
    | text fragment =>
      simp only [List.cons_append, printed]
      split
      · exact ih level atStart
      · obtain ⟨cs, hcs⟩ := ih level false
        rw [hcs]
        refine ⟨(if atStart then List.replicate (level * k) ' ' else []) ++ fragment.toList ++ cs, ?_⟩
        simp only [List.append_assoc]
    | newline =>
      obtain ⟨cs, hcs⟩ := ih level true
      exact ⟨'\n' :: cs, congrArg ('\n' :: ·) hcs⟩
    | indent => exact ih (level + 1) atStart
    | dedent => exact ih (level - 1) atStart

theorem endWithNewline_of_plain {s : String} {cs ds : List Char} {c : Char}
    (hs : s.toList = cs ++ (ds ++ [c] ++ ['\n'])) (hc : isPlainChar c = true) :
    endWithNewline s = s := by
  have hne : c ≠ '\n' := by
    rintro rfl
    cases hc
  apply String.toList_injective
  unfold endWithNewline
  split
  · rfl
  · rw [String.toList_append, String.toList_ofList, hs]
    simp [hne]

/-- The text of a module is what its pieces add. -/
theorem Module.toSource_toList {m : Module} (hs : ∀ d ∈ m, d.WellShaped) (hl : ∀ d ∈ m, d.Lexed) :
    (Module.toSource k m).toList = printed k 0 true (Module.pieces m) := by
  have hrun := run_toList (Layout.empty k) (Module.pieces m)
  unfold Module.toSource Layout.finish
  by_cases hne : m = []
  · subst hne
    rfl
  · obtain ⟨ps, hps, before, t, rfl, ht⟩ := Module.pieces_end hne hs hl
    obtain ⟨⟨_, _, hcons, _⟩, ds, c, hds, hc⟩ := ht
    obtain ⟨cs, hcs⟩ := printed_end (k := k) (isEmpty_of_cons hcons) before 0 true
    have htext : ((Layout.empty k).run (Module.pieces m)).text.toList =
        cs ++ (ds ++ [c] ++ ['\n']) := by
      rw [hrun, hps, ← hds, ← hcs]
      rfl
    rw [endWithNewline_of_plain htext hc, hrun]
    rfl

/-- **The text of a module spells its contents**, whatever the indentation. -/
theorem Module.spells {m : Module} (hs : ∀ d ∈ m, d.WellShaped) (hl : ∀ d ∈ m, d.Lexed) :
    Spells (Module.toSource k m).toList (Module.contents m) := by
  rw [Module.toSource_toList hs hl]
  exact Module.writes hs hl 0 true

end FrontEnd
