import DeviceTree.Proofs.Lexing

/-!
# Lines as an assembler reads them

Every line of assembly text has its lexemes (`Directive.lexemes`) and its statement (`Directive.statement`). A line
is read as that statement if its symbols can be symbols and its remarks end where they should (`Directive.Reads`),
and a text of such lines is read line by line (`statements?_text`).
-/

namespace DeviceTree

open Assembler

namespace Assembly

/-! ## Operands -/

/-- The operand as lexemes. -/
def Operand.lexemes : Operand → List Lexeme
  | decimal n => [.word (toString n)]
  | hex n => [.word (Hex.prefixed n)]
  | symbol name => [.word name]
  | difference later earlier => [.word later, .mark '-', .word earlier]

/-- The operand as an assembler has it. -/
def Operand.amount : Operand → Amount
  | decimal n | hex n => ⟨.number n, []⟩
  | symbol name => ⟨.symbol name, []⟩
  | difference later earlier => ⟨.symbol later, [.symbol earlier]⟩

/-- The symbols in the operand. -/
def Operand.symbols : Operand → List String
  | decimal _ | hex _ => []
  | symbol name => [name]
  | difference later earlier => [later, earlier]

/-- The operands as lexemes, with commas between them. -/
def Operand.listLexemes : List Operand → List Lexeme
  | [] => []
  | [o] => o.lexemes
  | o :: os => o.lexemes ++ .mark ',' :: listLexemes os

namespace Directive

/-- The line as lexemes. -/
def lexemes : Directive → List Lexeme
  | blank | comment _ => []
  | define name n => [.mark '#', .word "define", .word name, .word (Hex.prefixed n)]
  | global name => [.word ".globl", .word name]
  | label name => [.word name, .mark ':']
  | quad operands => .word ".quad" :: Operand.listLexemes operands
  | long operand _ => .word ".long" :: operand.lexemes
  | short operand => .word ".short" :: operand.lexemes
  | byte operand => .word ".byte" :: operand.lexemes
  | string text => [.word ".string", .literal (Utf8.encode text)]
  | balign boundary => [.word ".balign", .word (toString boundary)]

/-- What the line does. -/
def statement : Directive → Statement
  | blank | comment _ | global _ => .nothing
  | define name n => .define name n
  | label name => .label name
  | quad operands => .numbers 8 (operands.map Operand.amount)
  | long operand _ => .numbers 4 [operand.amount]
  | short operand => .numbers 2 [operand.amount]
  | byte operand => .numbers 1 [operand.amount]
  | string text => .data (Utf8.encode text ++ [0])
  | balign boundary => .align boundary

/-- The symbols in the line. -/
def symbols : Directive → List String
  | blank | comment _ | string _ | balign _ => []
  | define name _ | global name | label name => [name]
  | quad operands => operands.flatMap Operand.symbols
  | long operand _ | short operand | byte operand => operand.symbols

/-- A remark on a line of its own or behind a number does not end before its end. -/
def RemarkEnds : Directive → Prop
  | comment text => '*' ∉ text.toList
  | long _ remark => remark = "" ∨ ∃ gap text, (gap = " " ∨ gap = "\t") ∧ '*' ∉ text.toList ∧
      remark = gap ++ "/* " ++ text ++ " */"
  | quad operands => operands ≠ []
  | _ => True

/-- The line is read as what it is meant to be. -/
structure Reads (d : Directive) : Prop where
  symbols : ∀ s ∈ d.symbols, IsSymbol s
  remark : d.RemarkEnds

end Directive

end Assembly

namespace Assembler

open Assembly (Operand Directive)

theorem IsSymbol.isWord {s : String} (h : IsSymbol s) : IsWord s := by
  refine ⟨fun hs => ?_, h.1⟩
  obtain ⟨c, hc, -⟩ := h.2
  rw [hs] at hc
  cases hc

theorem isWord_prefixed (n : Nat) : IsWord (Hex.prefixed n) := by
  have hlist : (Hex.prefixed n).toList = '0' :: 'x' :: Nat.toDigits 16 n := by
    simp [Hex.prefixed]
  refine ⟨fun h => ?_, fun c hc => ?_⟩
  · rw [h] at hlist
    cases hlist
  · rw [hlist] at hc
    rcases List.mem_cons.1 hc with rfl | hc
    · decide
    rcases List.mem_cons.1 hc with rfl | hc
    · decide
    exact isWordChar_of_mem_toDigits (by decide) (by decide) c hc

theorem isWord_toString (n : Nat) : IsWord (toString n) := by
  have hlist : (toString n).toList = Nat.toDigits 10 n := by
    rw [Nat.toString_eq_repr, Nat.toList_repr]
  refine ⟨fun h => ?_, fun c hc => ?_⟩
  · rw [h] at hlist
    exact absurd hlist.symm Nat.toDigits_ne_nil
  · rw [hlist] at hc
    exact isWordChar_of_mem_toDigits (by decide) (by decide) c hc

theorem term?_prefixed (n : Nat) : term? (Hex.prefixed n) = some (.number n) := by
  have hhead : (Hex.prefixed n).toList.head?.any Char.isDigit = true := by
    simp [Hex.prefixed]
  rw [term?, if_pos hhead, number?_prefixed]
  rfl

theorem term?_toString (n : Nat) : term? (toString n) = some (.number n) := by
  have hhead : (toString n).toList.head?.any Char.isDigit = true := by
    rw [Nat.toString_eq_repr, Nat.toList_repr]
    cases hd : Nat.toDigits 10 n with
    | nil => exact absurd hd Nat.toDigits_ne_nil
    | cons c cs =>
      refine Nat.isDigit_of_mem_toDigits (b := 10) (n := n) (by decide) (by decide) ?_
      rw [hd]
      exact List.mem_cons_self
  rw [term?, if_pos hhead, number?_toString]
  rfl

theorem IsSymbol.term? {s : String} (h : IsSymbol s) : term? s = some (.symbol s) := by
  obtain ⟨c, hc, hdigit⟩ := h.2
  have hhead : ¬s.toList.head?.any Char.isDigit = true := by
    rw [hc]
    simp [hdigit]
  rw [Assembler.term?, if_neg hhead]

theorem amount?_lexemes {o : Operand} (h : ∀ s ∈ o.symbols, IsSymbol s) : amount? o.lexemes = some o.amount := by
  cases o with
  | decimal n =>
    simp only [Operand.lexemes, amount?, less?, term?_toString]
    rfl
  | hex n =>
    simp only [Operand.lexemes, amount?, less?, term?_prefixed]
    rfl
  | symbol name =>
    have hname := (h name List.mem_cons_self).term?
    simp [Operand.lexemes, amount?, less?, hname, Operand.amount]
  | difference later earlier =>
    have hlater := (h later (by simp [Operand.symbols])).term?
    have hearlier := (h earlier (by simp [Operand.symbols])).term?
    simp [Operand.lexemes, amount?, less?, hlater, hearlier, Operand.amount]

/-- An operand in front of a character that belongs to no word. -/
theorem Lexes.operand {o : Operand} (h : ∀ s ∈ o.symbols, IsSymbol s) {c : Char} {cs : List Char} {ls : List Lexeme}
    (hc : isWordChar c = false) (hcs : Lexes (c :: cs) ls) : Lexes (o.text.toList ++ c :: cs) (o.lexemes ++ ls) := by
  cases o with
  | decimal n => exact .word (isWord_toString n) hc hcs
  | hex n => exact .word (isWord_prefixed n) hc hcs
  | symbol name => exact .word (h name List.mem_cons_self).isWord hc hcs
  | difference later earlier =>
    have hlater := (h later (by simp [Operand.symbols])).isWord
    have hearlier := (h earlier (by simp [Operand.symbols])).isWord
    have hblank : Lexes [' '] [] := .char (by decide)
    have hminus : Lexes ['-'] [.mark '-'] := .char (by decide)
    have htail := hblank.append (hminus.append (hblank.append (Lexes.word hearlier hc hcs)))
    have hall := Lexes.word (c := ' ') hlater (by decide) htail
    have htext : (Operand.difference later earlier).text.toList ++ c :: cs =
        later.toList ++ ' ' :: ('-' :: ' ' :: (earlier.toList ++ c :: cs)) := by
      simp [Operand.text]
    rw [htext]
    exact hall

theorem Lexes.newline : Lexes ['\n'] [.newline] :=
  .char (by decide)

theorem Lexes.gap {c : Char} (hc : c = ' ' ∨ c = '\t') : Lexes [c] [] := by
  rcases hc with rfl | rfl <;> exact .char (by decide)

theorem Lexes.operands {os : List Operand} (hne : os ≠ []) (h : ∀ s ∈ os.flatMap Operand.symbols, IsSymbol s)
    {c : Char} {cs : List Char} {ls : List Lexeme} (hc : isWordChar c = false) (hcs : Lexes (c :: cs) ls) :
    Lexes ((", ".intercalate (os.map Operand.text)).toList ++ c :: cs) (Operand.listLexemes os ++ ls) := by
  induction os with
  | nil => exact absurd rfl hne
  | cons o os ih =>
    rw [List.flatMap_cons, List.forall_mem_append] at h
    cases os with
    | nil => exact Lexes.operand h.1 hc hcs
    | cons o' os =>
      have hcomma : Lexes [','] [.mark ','] := .char (by decide)
      have htail := hcomma.append ((Lexes.gap (.inl rfl)).append (ih (List.cons_ne_nil _ _) h.2))
      have htext : (", ".intercalate ((o :: o' :: os).map Operand.text)).toList ++ c :: cs =
          o.text.toList ++ ',' :: ' ' :: ((", ".intercalate ((o' :: os).map Operand.text)).toList ++ c :: cs) := by
        simp [String.intercalate_cons_cons]
      have hlexemes : Operand.listLexemes (o :: o' :: os) ++ ls =
          o.lexemes ++ ([.mark ','] ++ (Operand.listLexemes (o' :: os) ++ ls)) := by
        simp [Operand.listLexemes]
      rw [htext, hlexemes]
      exact Lexes.operand h.1 (by decide) htail

/-- A comment with its blanks. -/
theorem Lexes.remark {text : String} (h : '*' ∉ text.toList) : Lexes ("/* " ++ text ++ " */").toList [] := by
  have hinner : '*' ∉ ' ' :: (text.toList ++ [' ']) := by
    simp [h]
  have hall := Lexes.comment hinner
  have htext : ("/* " ++ text ++ " */").toList = '/' :: '*' :: (' ' :: (text.toList ++ [' ']) ++ ['*', '/']) := by
    simp
  rw [htext]
  exact hall

/-- What ends a line behind a number. -/
theorem Lexes.lineEnd {o : Operand} {remark : String} (h : (Directive.long o remark).RemarkEnds) :
    ∃ c cs, remark.toList ++ ['\n'] = c :: cs ∧ isWordChar c = false ∧ Lexes (c :: cs) [.newline] := by
  rcases h with rfl | ⟨gap, text, hgap, htext, rfl⟩
  · exact ⟨'\n', [], rfl, by decide, .newline⟩
  · have hremark := (Lexes.remark htext).append .newline
    rcases hgap with rfl | rfl
    · refine ⟨' ', _, ?_, by decide, (Lexes.gap (.inl rfl)).append hremark⟩
      simp
    · refine ⟨'\t', _, ?_, by decide, (Lexes.gap (.inr rfl)).append hremark⟩
      simp

/-- A line with a directive between tabs. -/
theorem Lexes.directive {front name rest : String} (hfront : front = "\t" ++ name ++ "\t") (hname : IsWord name)
    {ls : List Lexeme} (h : Lexes (rest.toList ++ ['\n']) ls) :
    Lexes ((front ++ rest).toList ++ ['\n']) (.word name :: ls) := by
  have hgap : Lexes ['\t'] [] := .gap (.inr rfl)
  have hall := hgap.append (Lexes.word hname (by decide) (hgap.append h))
  have htext : (front ++ rest).toList ++ ['\n'] = '\t' :: (name.toList ++ '\t' :: (rest.toList ++ ['\n'])) := by
    simp [hfront]
  rw [htext]
  exact hall

theorem Lexes.line {d : Directive} (h : d.Reads) :
    Lexes (d.line.toList ++ ['\n']) (d.lexemes ++ [.newline]) := by
  obtain ⟨hsymbols, hremark⟩ := h
  cases d with
  | blank => exact .newline
  | comment text => exact (Lexes.remark hremark).append .newline
  | define name n =>
    have hgap : Lexes [' '] [] := .gap (.inl rfl)
    have hname := (hsymbols name List.mem_cons_self).isWord
    have hnumber := Lexes.word (isWord_prefixed n) (by decide) .newline
    have hrest := Lexes.word hname (by decide) (hgap.append hnumber)
    have hdefine := Lexes.word (by decide : IsWord "define") (by decide) (hgap.append hrest)
    have hsharp : Lexes ['#'] [.mark '#'] := .char (by decide)
    have hall := hsharp.append hdefine
    have htext : (Directive.define name n).line.toList ++ ['\n'] =
        '#' :: ("define".toList ++ ' ' :: (name.toList ++ ' ' :: ((Hex.prefixed n).toList ++ ['\n']))) := by
      simp [Directive.line]
    rw [htext]
    exact hall
  | global name =>
    have hname := Lexes.word (hsymbols name List.mem_cons_self).isWord (by decide) .newline
    exact .directive (by decide : "\t.globl\t" = "\t" ++ ".globl" ++ "\t") (by decide) hname
  | label name =>
    have hmark : Lexes [':'] [.mark ':'] := .char (by decide)
    have hcolon := hmark.append .newline
    have htext : (Directive.label name).line.toList ++ ['\n'] = name.toList ++ ([':'] ++ ['\n']) := by
      simp [Directive.line]
    rw [htext]
    exact .word (hsymbols name List.mem_cons_self).isWord (by decide) hcolon
  | quad operands =>
    have hoperands := Lexes.operands hremark hsymbols (by decide) .newline
    exact .directive (by decide : "\t.quad\t" = "\t" ++ ".quad" ++ "\t") (by decide) hoperands
  | long operand remark =>
    obtain ⟨c, cs, hend, hc, hcs⟩ := Lexes.lineEnd hremark
    have hoperand := Lexes.operand hsymbols hc hcs
    rw [← hend, ← List.append_assoc, ← String.toList_append] at hoperand
    rw [Directive.line, String.append_assoc]
    exact .directive (by decide : "\t.long\t" = "\t" ++ ".long" ++ "\t") (by decide) hoperand
  | short operand =>
    have hoperand := Lexes.operand hsymbols (by decide) .newline
    exact .directive (by decide : "\t.short\t" = "\t" ++ ".short" ++ "\t") (by decide) hoperand
  | byte operand =>
    have hoperand := Lexes.operand hsymbols (by decide) .newline
    exact .directive (by decide : "\t.byte\t" = "\t" ++ ".byte" ++ "\t") (by decide) hoperand
  | string text =>
    have hliteral := (Lexes.literal text).append .newline
    have hline : (Directive.string text).line =
        "\t.string\t" ++ ("\"" ++ (String.ofList (Literal.escaped text) ++ "\"")) := by
      simp [Directive.line, ← String.toList_inj]
    have htext : ("\"" ++ (String.ofList (Literal.escaped text) ++ "\"")).toList ++ ['\n'] =
        '"' :: (Literal.escaped text ++ ['"']) ++ ['\n'] := by
      simp
    rw [← htext] at hliteral
    rw [hline]
    exact .directive (by decide : "\t.string\t" = "\t" ++ ".string" ++ "\t") (by decide) hliteral
  | balign boundary =>
    have hnumber := Lexes.word (isWord_toString boundary) (by decide) .newline
    exact .directive (by decide : "\t.balign\t" = "\t" ++ ".balign" ++ "\t") (by decide) hnumber

theorem mem_listLexemes {os : List Operand} {l : Lexeme} (h : l ∈ Operand.listLexemes os) :
    l = .mark ',' ∨ ∃ o ∈ os, l ∈ o.lexemes := by
  induction os with
  | nil => cases h
  | cons o os ih =>
    cases os with
    | nil => exact .inr ⟨o, List.mem_cons_self, h⟩
    | cons o' os =>
      rcases List.mem_append.1 h with h | h
      · exact .inr ⟨o, List.mem_cons_self, h⟩
      · rcases List.mem_cons.1 h with h | h
        · exact .inl h
        · rcases ih h with h | ⟨p, hp, h⟩
          · exact .inl h
          · exact .inr ⟨p, List.mem_cons_of_mem o hp, h⟩

theorem splitOn_listLexemes {os : List Operand} (hne : os ≠ []) :
    (Operand.listLexemes os).splitOn (.mark ',') = os.map Operand.lexemes := by
  have hcomma (o : Operand) : Lexeme.mark ',' ∉ o.lexemes := by
    cases o <;> simp [Operand.lexemes]
  induction os with
  | nil => exact absurd rfl hne
  | cons o os ih =>
    cases os with
    | nil => exact List.splitOn_eq_singleton (hcomma o)
    | cons o' os =>
      show (o.lexemes ++ .mark ',' :: Operand.listLexemes (o' :: os)).splitOn (.mark ',') = _
      rw [List.splitOn_append_cons_self_of_not_mem (hcomma o), ih (List.cons_ne_nil _ _)]
      rfl

theorem mapM_amount? {os : List Operand} (h : ∀ s ∈ os.flatMap Operand.symbols, IsSymbol s) :
    (os.map Operand.lexemes).mapM amount? = some (os.map Operand.amount) := by
  induction os with
  | nil => rfl
  | cons o os ih =>
    rw [List.flatMap_cons, List.forall_mem_append] at h
    rw [List.map_cons, List.mapM_cons, amount?_lexemes h.1, ih h.2]
    rfl

/-- The operands of a number directive start with a word, so it is none of the other lines. -/
theorem statement?_numbers {name : String} {width : Nat} (hwidth : width? name = some width) {os : List Operand}
    (hne : os ≠ []) (h : ∀ s ∈ os.flatMap Operand.symbols, IsSymbol s) :
    statement? (.word name :: Operand.listLexemes os) = some (.numbers width (os.map Operand.amount)) := by
  have hword (o : Operand) : ∃ word more, o.lexemes = .word word :: more := by
    cases o <;> exact ⟨_, _, rfl⟩
  have hshape : statement? (.word name :: Operand.listLexemes os) = directive? name (Operand.listLexemes os) := by
    rcases os with - | ⟨o, - | ⟨o', os⟩⟩
    · exact absurd rfl hne
    · obtain ⟨word, more, ho⟩ := hword o
      simp only [Operand.listLexemes, ho]
      rfl
    · obtain ⟨word, more, ho⟩ := hword o
      simp only [Operand.listLexemes, ho]
      rfl
  rw [hshape]
  unfold directive?
  rw [hwidth]
  dsimp only
  rw [splitOn_listLexemes hne, mapM_amount? h]
  rfl

theorem statement?_lexemes {d : Directive} (h : d.Reads) : statement? d.lexemes = some d.statement := by
  obtain ⟨hsymbols, hremark⟩ := h
  have hone {o : Operand} (ho : ∀ s ∈ o.symbols, IsSymbol s) : ∀ s ∈ [o].flatMap Operand.symbols, IsSymbol s := by
    rw [List.flatMap_singleton]
    exact ho
  cases d with
  | blank | comment _ | label _ => rfl
  | global name => rfl
  | define name n => simp [Directive.lexemes, statement?, number?_prefixed, Directive.statement]
  | quad operands => exact statement?_numbers rfl hremark hsymbols
  | long operand _ | short operand | byte operand =>
    exact statement?_numbers rfl (List.cons_ne_nil operand []) (hone hsymbols)
  | string text => rfl
  | balign boundary =>
    show (number? (toString boundary).toList).map Statement.align = _
    rw [number?_toString]
    rfl

theorem newline_notMem_lexemes (d : Directive) : Lexeme.newline ∉ d.lexemes := by
  have hoperand (o : Operand) : Lexeme.newline ∉ o.lexemes := by
    cases o <;> simp [Operand.lexemes]
  cases d with
  | quad operands =>
    intro h
    rcases List.mem_cons.1 h with h | h
    · cases h
    · rcases mem_listLexemes h with h | ⟨o, -, h⟩
      · cases h
      · exact hoperand o h
  | long operand _ | short operand | byte operand => simp [Directive.lexemes, hoperand operand]
  | _ => simp [Directive.lexemes]

theorem Lexes.text {ds : List Directive} (h : ∀ d ∈ ds, d.Reads) :
    Lexes (Assembly.text ds).toList (ds.flatMap fun d => d.lexemes ++ [.newline]) := by
  induction ds with
  | nil => exact .nil
  | cons d ds ih =>
    obtain ⟨hd, hds⟩ := List.forall_mem_cons.1 h
    have htext : (Assembly.text (d :: ds)).toList = d.line.toList ++ ['\n'] ++ (Assembly.text ds).toList := by
      simp [Assembly.text]
    rw [htext, List.flatMap_cons]
    exact (Lexes.line hd).append (ih hds)

/-- Each line is read as what it is meant to be. Behind the last one there is an empty line. -/
theorem statements?_text {ds : List Directive} (h : ∀ d ∈ ds, d.Reads) :
    statements? (Assembly.text ds) = some (ds.map Directive.statement ++ [.nothing]) := by
  have hlex := Lexes.text h [] [] rfl
  rw [List.append_nil, List.append_nil] at hlex
  simp only [statements?, hlex, Option.bind_eq_bind, Option.bind_some]
  clear hlex
  induction ds with
  | nil => rfl
  | cons d ds ih =>
    obtain ⟨hd, hds⟩ := List.forall_mem_cons.1 h
    rw [List.flatMap_cons, List.append_assoc, List.singleton_append,
      List.splitOn_append_cons_self_of_not_mem (newline_notMem_lexemes d), List.mapM_cons, statement?_lexemes hd,
      ih hds]
    rfl

end Assembler

end DeviceTree
