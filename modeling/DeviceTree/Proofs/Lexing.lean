import DeviceTree.Assembly.Directive
import DeviceTree.Proofs.Escaping

/-!
# What an assembler reads in a line

The numbers, words, comments and literals that lines are made of, each with the lexeme that it is read as, whatever
follows (`Lexes`). The characters of a literal are taken one at a time, and the bytes are those of the rules
(`lexFrom_of_reads`). Where no other octal digit can follow, it makes no difference that the byte of the digits is known
only with the next character (`lexFrom_octal_full`).
-/

namespace DeviceTree.Assembler

/-! ## Numbers -/

theorem digit?_digitChar {d : Nat} (h : d < 16) : digit? (Nat.digitChar d) = some d := by
  have hall : ∀ d < 16, digit? (Nat.digitChar d) = some d := by decide
  exact hall d h

theorem isWordChar_digitChar {d : Nat} (h : d < 16) : isWordChar (Nat.digitChar d) = true := by
  have hall : ∀ d < 16, isWordChar (Nat.digitChar d) = true := by decide
  exact hall d h

theorem digitsFrom?_append {base : Nat} (cs cs' : List Char) (n : Nat) :
    digitsFrom? base n (cs ++ cs') = (digitsFrom? base n cs).bind fun m => digitsFrom? base m cs' := by
  induction cs generalizing n with
  | nil => rfl
  | cons c cs ih =>
    simp only [List.cons_append, digitsFrom?]
    cases digit? c with
    | none => rfl
    | some d =>
      dsimp only
      split
      · exact ih _
      · rfl

theorem digitsFrom?_toDigits {base : Nat} (h1 : 1 < base) (h16 : base ≤ 16) (n : Nat) :
    digitsFrom? base 0 (Nat.toDigits base n) = some n := by
  induction n using Nat.strongRecOn with
  | ind n ih =>
    rw [Nat.toDigits_eq_if h1]
    split
    · rename_i hlt
      simp [digitsFrom?, digit?_digitChar (Nat.lt_of_lt_of_le hlt h16), hlt]
    · rename_i hge
      have hdiv : n / base < n := Nat.div_lt_self (by omega) h1
      have hmod : n % base < base := Nat.mod_lt n (by omega)
      rw [digitsFrom?_append, ih _ hdiv]
      simp only [Option.bind_some, digitsFrom?, digit?_digitChar (Nat.lt_of_lt_of_le hmod h16), hmod, if_true]
      rw [Nat.mul_comm, Nat.div_add_mod]

theorem isWordChar_of_mem_toDigits {base n : Nat} (h1 : 1 < base) (h16 : base ≤ 16) :
    ∀ c ∈ Nat.toDigits base n, isWordChar c = true := by
  induction n using Nat.strongRecOn with
  | ind n ih =>
    rw [Nat.toDigits_eq_if h1]
    split
    · rename_i hlt
      intro c hc
      rw [List.mem_singleton.1 hc]
      exact isWordChar_digitChar (by omega)
    · intro c hc
      rcases List.mem_append.1 hc with hc | hc
      · exact ih _ (Nat.div_lt_self (by omega) h1) c hc
      · rw [List.mem_singleton.1 hc]
        exact isWordChar_digitChar (Nat.lt_of_lt_of_le (Nat.mod_lt n (by omega)) h16)

/-- The decimal form of a number other than zero does not start with a zero. -/
theorem head?_toDigits {n : Nat} (h : n ≠ 0) : (Nat.toDigits 10 n).head? ≠ some '0' := by
  induction n using Nat.strongRecOn with
  | ind n ih =>
    rw [Nat.toDigits_eq_if (by decide)]
    split
    · simpa using h
    · have hhead := ih (n / 10) (by omega) (by omega)
      cases hd : Nat.toDigits 10 (n / 10) with
      | nil => exact absurd hd Nat.toDigits_ne_nil
      | cons c cs =>
        rw [hd] at hhead
        exact hhead

theorem number?_prefixed (n : Nat) : number? (Hex.prefixed n).toList = some n := by
  have hlist : (Hex.prefixed n).toList = '0' :: 'x' :: Nat.toDigits 16 n := by
    simp [Hex.prefixed]
  rw [hlist]
  cases hd : Nat.toDigits 16 n with
  | nil => exact absurd hd Nat.toDigits_ne_nil
  | cons c cs =>
    show digitsFrom? 16 0 (c :: cs) = _
    rw [← hd]
    exact digitsFrom?_toDigits (by decide) (by decide) n

theorem number?_toString (n : Nat) : number? (toString n).toList = some n := by
  have hlist : (toString n).toList = Nat.toDigits 10 n := by
    rw [Nat.toString_eq_repr, Nat.toList_repr]
  rw [hlist]
  by_cases h : n = 0
  · subst h
    decide
  · have hhead := head?_toDigits h
    have hnumber : digitsFrom? 10 0 (Nat.toDigits 10 n) = some n := digitsFrom?_toDigits (by decide) (by decide) n
    unfold number?
    split
    · rename_i heq
      rw [heq] at hhead
      exact absurd rfl hhead
    · rename_i heq
      rw [heq] at hhead
      exact absurd rfl hhead
    · exact hnumber

/-! ## Lexemes -/

/-- The characters are read as these lexemes, and what follows is read on its own. -/
def Lexes (cs : List Char) (lexemes : List Lexeme) : Prop :=
  ∀ rest more, lexFrom .blank rest = some more → lexFrom .blank (cs ++ rest) = some (lexemes ++ more)

/-- The text has the characters of a word. -/
def IsWord (s : String) : Prop :=
  s ≠ "" ∧ ∀ c ∈ s.toList, isWordChar c = true

instance : DecidablePred IsWord := fun s =>
  decidable_of_iff (s ≠ "" ∧ s.toList.all isWordChar = true) (and_congr_right fun _ => List.all_eq_true)

theorem Lexes.nil : Lexes [] [] := fun _ _ h => h

theorem Lexes.append {cs cs' : List Char} {ls ls' : List Lexeme} (h : Lexes cs ls) (h' : Lexes cs' ls') :
    Lexes (cs ++ cs') (ls ++ ls') := by
  intro rest more hrest
  rw [List.append_assoc, List.append_assoc]
  exact h _ _ (h' _ _ hrest)

theorem lexFrom_of_step {s s' : State} {c : Char} {lexemes : List Lexeme} (h : step s c = some (lexemes, s'))
    (cs : List Char) : lexFrom s (c :: cs) = (lexFrom s' cs).map (lexemes ++ ·) := by
  cases s <;> · simp only [lexFrom, h, Option.bind_eq_bind, Option.bind_some]; cases lexFrom s' cs <;> rfl

theorem lexFrom_of_silent {s s' : State} {c : Char} (h : step s c = some ([], s')) (cs : List Char) :
    lexFrom s (c :: cs) = lexFrom s' cs := by
  rw [lexFrom_of_step h]
  cases lexFrom s' cs <;> rfl

/-- A character that leaves the reading between lexemes. -/
theorem Lexes.char {c : Char} {ls : List Lexeme} (h : start c = (ls, .blank)) : Lexes [c] ls := by
  intro rest more hrest
  have hstep : step .blank c = some (ls, .blank) := congrArg some h
  rw [List.singleton_append, lexFrom_of_step hstep, hrest]
  rfl

theorem lexFrom_word {cs : List Char} (hcs : ∀ c ∈ cs, isWordChar c = true) (front : List Char) {c : Char}
    (hc : isWordChar c = false) (rest : List Char) :
    lexFrom (.word front) (cs ++ c :: rest) =
      (lexFrom .blank (c :: rest)).map (.word (String.ofList (front ++ cs)) :: ·) := by
  induction cs generalizing front with
  | nil =>
    have hword : step (.word front) c = some (.word (String.ofList front) :: (start c).1, (start c).2) := by
      simp only [step, hc, Bool.false_eq_true, if_false]
    have hblank : step .blank c = some ((start c).1, (start c).2) := rfl
    rw [List.nil_append, List.append_nil, lexFrom_of_step hword, lexFrom_of_step hblank, Option.map_map]
    rfl
  | cons d cs ih =>
    obtain ⟨hd, hcs⟩ := List.forall_mem_cons.1 hcs
    have hstep : step (.word front) d = some ([], .word (front ++ [d])) := if_pos hd
    rw [List.cons_append, lexFrom_of_silent hstep, ih hcs, List.append_assoc]
    rfl

theorem Lexes.word {s : String} (hs : IsWord s) {c : Char} {cs : List Char} {ls : List Lexeme}
    (hc : isWordChar c = false) (h : Lexes (c :: cs) ls) : Lexes (s.toList ++ c :: cs) (.word s :: ls) := by
  intro rest more hrest
  obtain ⟨hne, hall⟩ := hs
  cases hs : s.toList with
  | nil => exact absurd (String.toList_eq_nil_iff.1 hs) hne
  | cons d ds =>
    rw [hs] at hall
    obtain ⟨hd, hds⟩ := List.forall_mem_cons.1 hall
    have hstep : step .blank d = some ([], .word [d]) := congrArg some (if_pos hd)
    have hfront : String.ofList ([d] ++ ds) = s := by
      rw [← String.toList_inj]
      simpa using hs.symm
    rw [List.append_assoc, List.cons_append, List.cons_append, lexFrom_of_silent hstep, lexFrom_word hds [d] hc,
      ← List.cons_append, h rest more hrest, hfront]
    rfl

theorem lexFrom_comment {cs : List Char} (hcs : '*' ∉ cs) (rest : List Char) :
    lexFrom .comment (cs ++ '*' :: '/' :: rest) = lexFrom .blank rest := by
  induction cs with
  | nil =>
    have hstar : step .comment '*' = some ([], .star) := rfl
    have hslash : step .star '/' = some ([], .blank) := rfl
    rw [List.nil_append, lexFrom_of_silent hstar, lexFrom_of_silent hslash]
  | cons c cs ih =>
    rw [List.mem_cons, not_or] at hcs
    have hstep : step .comment c = some ([], .comment) := by
      simp only [step, Ne.symm hcs.1, if_false]
    rw [List.cons_append, lexFrom_of_silent hstep, ih hcs.2]

theorem Lexes.comment {cs : List Char} (hcs : '*' ∉ cs) : Lexes ('/' :: '*' :: (cs ++ ['*', '/'])) [] := by
  intro rest more hrest
  have hslash : step .blank '/' = some ([], .slash) := by decide
  have hstar : step .slash '*' = some ([], .comment) := rfl
  rw [List.cons_append, List.cons_append, List.append_assoc, lexFrom_of_silent hslash, lexFrom_of_silent hstar]
  exact (lexFrom_comment hcs rest).trans hrest

/-! ## Literals -/

/-- A byte that is known, whether it is in front already or waits for more digits that do not come. -/
theorem lexFrom_octal_full {more : Nat} {cs : List Char} (hcs : cs ≠ [])
    (hend : 0 < more → ∀ c ∈ cs.head?, isOctal c = false) (front : Bytes) (n : Nat) :
    lexFrom (.literal front (.octal n more)) cs = lexFrom (.literal (front ++ [UInt8.ofNat n]) .plain) cs := by
  cases cs with
  | nil => exact absurd rfl hcs
  | cons c cs =>
    have hno : ¬ (isOctal c ∧ more ≠ 0) := by
      rintro ⟨hoctal, hmore⟩
      rw [hend (Nat.pos_of_ne_zero hmore) c rfl] at hoctal
      cases hoctal
    have hliteral : literalStep (.octal n more) c = (plainStep c).map fun p => (UInt8.ofNat n :: p.1, p.2) :=
      if_neg hno
    have hstep : step (.literal front (.octal n more)) c = step (.literal (front ++ [UInt8.ofNat n]) .plain) c := by
      have hplain : literalStep .plain c = plainStep c := rfl
      simp only [step, hliteral, hplain, Option.map_map]
      cases plainStep c with
      | none => rfl
      | some p =>
        obtain ⟨bs, ls⟩ := p
        cases ls <;> simp
    cases hplain : step (.literal (front ++ [UInt8.ofNat n]) .plain) c with
    | none => simp only [lexFrom, hstep, hplain]
    | some p => rw [lexFrom_of_step (hstep.trans hplain), lexFrom_of_step hplain]

theorem lexFrom_octal {digits cs : List Char} {more : Nat} (hoctal : ∀ d ∈ digits, isOctal d = true)
    (hlength : digits.length ≤ more) (hend : digits.length < more → ∀ c ∈ cs.head?, isOctal c = false) (hcs : cs ≠ [])
    (front : Bytes) (n : Nat) :
    lexFrom (.literal front (.octal n more)) (digits ++ cs) =
      lexFrom (.literal (front ++ [UInt8.ofNat (Nat.ofDigitChars 8 digits n)]) .plain) cs := by
  induction digits generalizing more n with
  | nil => exact lexFrom_octal_full hcs hend front n
  | cons d digits ih =>
    obtain ⟨hd, hoctal⟩ := List.forall_mem_cons.1 hoctal
    rw [List.length_cons] at hlength hend
    have hstep : step (.literal front (.octal n more)) d =
        some ([], .literal front (.octal (n * 8 + (d.toNat - 48)) (more - 1))) := by
      have hmore : more ≠ 0 := by omega
      simp [step, literalStep, hd, hmore]
    have hlength' : digits.length ≤ more - 1 := by omega
    have hend' (h : digits.length < more - 1) : ∀ c ∈ cs.head?, isOctal c = false := hend (by omega)
    rw [List.cons_append, lexFrom_of_silent hstep, ih hoctal hlength' hend', Nat.ofDigitChars_cons, Nat.mul_comm 8 n]
    rfl

theorem lexFrom_of_readsEscape {cs rest : List Char} {b : UInt8} (h : Literal.ReadsEscape cs b rest)
    (hrest : rest ≠ []) (front : Bytes) :
    lexFrom (.literal front .backslash) cs = lexFrom (.literal (front ++ [b]) .plain) rest := by
  cases h with
  | @sign c hc rest =>
    have hstep : step (.literal front .backslash) c = some ([], .literal (front ++ [UInt8.ofNat c.toNat]) .plain) := by
      rcases hc with rfl | rfl <;> rfl
    exact lexFrom_of_silent hstep rest
  | @octal digits rest hrun =>
    obtain ⟨hoctal, hne, hlength, hlongest⟩ := hrun
    cases digits with
    | nil => exact absurd rfl hne
    | cons d digits =>
      obtain ⟨hd, hoctal⟩ := List.forall_mem_cons.1 hoctal
      rw [List.length_cons] at hlength hlongest
      have hstep : step (.literal front .backslash) d = some ([], .literal front (.octal (d.toNat - 48) 2)) := by
        simp [step, literalStep, hd]
      have hlength' : digits.length ≤ 2 := by omega
      have hend (h : digits.length < 2) : ∀ c ∈ rest.head?, isOctal c = false := hlongest (by omega)
      rw [List.cons_append, lexFrom_of_silent hstep, lexFrom_octal hoctal hlength' hend hrest, Nat.ofDigitChars_cons,
        Nat.mul_zero, Nat.zero_add]
      rfl

/-- What is read as the inside of a literal makes up one lexeme, and the reading goes on behind it. -/
theorem lexFrom_of_reads {cs rest : List Char} {bs : Bytes} (h : Literal.Reads cs bs rest) (front : Bytes) :
    lexFrom (.literal front .plain) cs = (lexFrom .blank rest).map (.literal (front ++ bs) :: ·) := by
  induction h generalizing front with
  | close rest =>
    have hquote : step (.literal front .plain) '"' = some ([.literal front], .blank) := by
      simp [step, literalStep, plainStep]
    rw [lexFrom_of_step hquote, List.append_nil]
    rfl
  | @escape cs cs' rest b bs hb hmore ih =>
    have hbackslash : step (.literal front .plain) '\\' = some ([], .literal front .backslash) := by
      simp [step, literalStep, plainStep]
    have hne : cs' ≠ [] := by cases hmore <;> exact List.cons_ne_nil _ _
    rw [lexFrom_of_silent hbackslash, lexFrom_of_readsEscape hb hne, ih, List.append_assoc]
    rfl
  | @plain c cs rest bs hquote hbackslash hnewline hmore ih =>
    have hstep : step (.literal front .plain) c = some ([], .literal (front ++ String.utf8EncodeChar c) .plain) := by
      simp only [step, literalStep, plainStep, if_neg hquote, if_neg hbackslash, if_neg hnewline, Option.map_some]
    rw [lexFrom_of_silent hstep, ih, List.append_assoc]

theorem Lexes.literal (s : String) :
    Lexes ('"' :: (Literal.escaped s ++ ['"'])) [.literal (Utf8.encode s)] := by
  intro rest more hrest
  have hquote : step .blank '"' = some ([], .literal [] .plain) := by decide
  rw [List.cons_append, List.append_assoc, lexFrom_of_silent hquote, List.singleton_append,
    lexFrom_of_reads (Literal.reads_escaped s rest), hrest]
  rfl

end DeviceTree.Assembler
