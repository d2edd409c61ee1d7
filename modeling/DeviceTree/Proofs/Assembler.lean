import DeviceTree.Bytes.BigEndian

/-!
# An assembler

What a text of directives assembles to, for the directives that emitted text has, on a big-endian machine. It
knows nothing of who wrote the text. Characters are put together to lexemes, by a machine that takes one at a
time (`lexFrom`); each line is read as a statement (`statement?`); a first pass gives every label the place where
it stands (`labelsFrom`), and a second one the bytes (`bytesFrom?`). A place counts from the start of the blob, and
so does alignment; the address where the blob is loaded comes in only where the place of a label is asked for. A
text has no bytes if there is something in it that cannot be read, or a symbol is used that is not defined once.
-/

namespace DeviceTree.Assembler

/-! ## Lexemes -/

/-- The characters of symbols, directives and numbers. -/
def isWordChar (c : Char) : Bool :=
  c.isAlphanum || ['_', '.', '$'].contains c

/-- Whether a text can be a symbol: it has the characters of one and does not start with a digit. -/
def IsSymbol (s : String) : Prop :=
  (∀ c ∈ s.toList, isWordChar c = true) ∧ ∃ c, s.toList.head? = some c ∧ c.isDigit = false

instance : DecidablePred IsSymbol := fun s =>
  decidable_of_iff (s.toList.all isWordChar = true ∧ s.toList.head?.any (!·.isDigit) = true)
    (and_congr List.all_eq_true (by simp [Option.any_eq_true]))

/-- Where the reading of a string literal stands. -/
inductive LiteralState where
  /-- Between characters. -/
  | plain
  /-- After a backslash. -/
  | backslash
  /-- After a backslash and octal digits. So many more may follow. -/
  | octal (n more : Nat)
deriving DecidableEq, Repr

/-- The byte for a letter or a sign after a backslash. -/
def escaped? (c : Char) : Option UInt8 :=
  [('"', 0x22), ('\\', 0x5C), ('b', 8), ('t', 9), ('n', 10), ('f', 12), ('r', 13)].lookup c

/-- Whether the character is an octal digit. -/
def isOctal (c : Char) : Bool :=
  '0' ≤ c && c ≤ '7'

/-- The bytes of a character of a literal that stands for itself, and where it leaves the reading: nowhere, if it
ends the literal. -/
def plainStep (c : Char) : Option (Bytes × Option LiteralState) :=
  if c = '"' then some ([], none)
  else if c = '\\' then some ([], some .backslash)
  else if c = '\n' then none
  else some (String.utf8EncodeChar c, some .plain)

/-- The bytes that are known with one more character of a literal, and where it leaves the reading. -/
def literalStep : LiteralState → Char → Option (Bytes × Option LiteralState)
  | .plain, c => plainStep c
  | .backslash, c =>
    if isOctal c then some ([], some (.octal (c.toNat - 48) 2))
    else (escaped? c).map fun b => ([b], some .plain)
  | .octal n more, c =>
    if isOctal c ∧ more ≠ 0 then some ([], some (.octal (n * 8 + (c.toNat - 48)) (more - 1)))
    else (plainStep c).map fun (bs, s) => (UInt8.ofNat n :: bs, s)

/-- A piece of a line. -/
inductive Lexeme where
  /-- A symbol, a directive or a number. -/
  | word (s : String)
  /-- The bytes of a string literal. -/
  | literal (bs : Bytes)
  /-- Any other character. -/
  | mark (c : Char)
  /-- The end of a line. -/
  | newline
deriving DecidableEq, Repr

/-- Where the reading of lexemes stands. -/
inductive State where
  /-- Between lexemes. -/
  | blank
  /-- In a word, after these characters. -/
  | word (front : List Char)
  /-- After a slash, which may begin a comment. -/
  | slash
  /-- In a comment. -/
  | comment
  /-- In a comment, after a star. -/
  | star
  /-- In a string literal, after these bytes. -/
  | literal (front : Bytes) (s : LiteralState)
deriving DecidableEq, Repr

/-- The lexemes that are known with a character between lexemes, and where it leaves the reading. -/
def start (c : Char) : List Lexeme × State :=
  if isWordChar c then ([], .word [c])
  else if c = '"' then ([], .literal [] .plain)
  else if c = '/' then ([], .slash)
  else if c = '\n' then ([.newline], .blank)
  else if c = ' ' ∨ c = '\t' then ([], .blank)
  else ([.mark c], .blank)

/-- The lexemes that are known with one more character, and where it leaves the reading. -/
def step : State → Char → Option (List Lexeme × State)
  | .blank, c => some (start c)
  | .word front, c =>
    if isWordChar c then some ([], .word (front ++ [c]))
    else some (.word (String.ofList front) :: (start c).1, (start c).2)
  | .slash, c => if c = '*' then some ([], .comment) else some (.mark '/' :: (start c).1, (start c).2)
  | .comment, c => some ([], if c = '*' then .star else .comment)
  | .star, c => some ([], if c = '/' then .blank else if c = '*' then .star else .comment)
  | .literal front s, c =>
    (literalStep s c).map fun (bs, s) =>
      match s with
      | some s => ([], .literal (front ++ bs) s)
      | none => ([.literal (front ++ bs)], .blank)

/-- The lexemes of a text, read on from the given state. Comments and literals have to end in it. -/
def lexFrom : State → List Char → Option (List Lexeme)
  | .blank, [] => some []
  | .word front, [] => some [.word (String.ofList front)]
  | .slash, [] => some [.mark '/']
  | _, [] => none
  | s, c :: cs => do
    let (lexemes, s) ← step s c
    return lexemes ++ (← lexFrom s cs)

/-! ## Statements -/

/-- The value of a digit in a base up to sixteen. -/
def digit? (c : Char) : Option Nat :=
  if c.isDigit then some (c.toNat - 48)
  else if 'a' ≤ c ∧ c ≤ 'f' then some (c.toNat - 87)
  else if 'A' ≤ c ∧ c ≤ 'F' then some (c.toNat - 55)
  else none

/-- The number with the digits `n` has and those that follow. -/
def digitsFrom? (base : Nat) : Nat → List Char → Option Nat
  | n, [] => some n
  | n, c :: cs =>
    match digit? c with
    | some d => if d < base then digitsFrom? base (n * base + d) cs else none
    | none => none

/-- The number that is written: behind `0x` in base sixteen, behind another zero in base eight, otherwise in base
ten. -/
def number? : List Char → Option Nat
  | '0' :: 'x' :: c :: cs => digitsFrom? 16 0 (c :: cs)
  | '0' :: cs => digitsFrom? 8 0 cs
  | cs => digitsFrom? 10 0 cs

/-- What a word stands for. -/
inductive Term where
  | number (n : Nat)
  | symbol (name : String)
deriving DecidableEq, Repr

/-- The number or the symbol that a word is. -/
def term? (word : String) : Option Term :=
  if word.toList.head?.any Char.isDigit then (number? word.toList).map .number else some (.symbol word)

/-- A term, less other terms. -/
structure Amount where
  first : Term
  less : List Term := []
deriving DecidableEq, Repr

/-- The terms that are taken away. -/
def less? : List Lexeme → Option (List Term)
  | [] => some []
  | .mark '-' :: .word word :: more => do return (← term? word) :: (← less? more)
  | _ => none

/-- The amount that an operand is. -/
def amount? : List Lexeme → Option Amount
  | .word word :: more => do return ⟨← term? word, ← less? more⟩
  | _ => none

/-- What a line does. -/
inductive Statement where
  /-- It emits nothing, and nothing depends on it. -/
  | nothing
  /-- Defines a symbol as a number. -/
  | define (name : String) (n : Nat)
  /-- Defines a symbol as the place of what follows. -/
  | label (name : String)
  /-- Numbers of so many bytes each. -/
  | numbers (width : Nat) (amounts : List Amount)
  /-- Bytes. -/
  | data (bs : Bytes)
  /-- Zeros up to the next multiple of a boundary. -/
  | align (boundary : Nat)
deriving DecidableEq, Repr

/-- How many bytes a number takes. -/
def width? (directive : String) : Option Nat :=
  [(".byte", 1), (".short", 2), (".long", 4), (".quad", 8)].lookup directive

/-- The statement of a directive with its operands. -/
def directive? (directive : String) (operands : List Lexeme) : Option Statement :=
  match width? directive with
  | some width => ((operands.splitOn (.mark ',')).mapM amount?).map (.numbers width)
  | none =>
    match operands with
    | [.word word] =>
      if directive = ".globl" then some .nothing
      else if directive = ".balign" then (number? word.toList).map .align
      else none
    | [.literal bs] => if directive = ".string" then some (.data (bs ++ [0])) else none
    | _ => none

/-- The statement of a line. -/
def statement? : List Lexeme → Option Statement
  | [] => some .nothing
  | [.mark '#', .word keyword, .word name, .word n] =>
    if keyword = "define" then (number? n.toList).map (.define name) else none
  | [.word name, .mark ':'] => some (.label name)
  | .word name :: operands => directive? name operands
  | _ => none

/-! ## Bytes -/

/-- What symbols stand for. -/
structure Symbols where
  /-- Where the blob is loaded. -/
  address : Nat
  /-- The symbols for numbers. -/
  defined : List (String × Nat)
  /-- The labels with their places. -/
  labels : List (String × Nat)
deriving DecidableEq, Repr

/-- The value of a symbol: the number that it is defined as, or the address of the one label with its name. -/
def Symbols.value? (symbols : Symbols) (name : String) : Option Int :=
  match symbols.defined.lookup name with
  | some n => some n
  | none =>
    match symbols.labels.filter (·.1 == name) with
    | [(_, place)] => some (symbols.address + place : Nat)
    | _ => none

/-- The value of a term. -/
def Term.value? (symbols : Symbols) : Term → Option Int
  | number n => some n
  | symbol name => symbols.value? name

/-- The value of an amount. -/
def Amount.value? (symbols : Symbols) (a : Amount) : Option Int := do
  return (← a.less.mapM (Term.value? symbols)).foldl (· - ·) (← a.first.value? symbols)

/-- The low `width` bytes of a number, most significant first. -/
def numberBytes (width : Nat) (n : Int) : Bytes :=
  BigEndian.encode width (n % (BigEndian.limit width : Nat)).toNat

namespace Statement

/-- How many bytes the statement emits at its place. -/
def size (place : Nat) : Statement → Nat
  | numbers width amounts => width * amounts.length
  | data bs => bs.length
  | align boundary => padding boundary place
  | nothing | define .. | label _ => 0

/-- The bytes that the statement emits at its place. -/
def bytes? (symbols : Symbols) (place : Nat) : Statement → Option Bytes
  | numbers width amounts => do
    return (← amounts.mapM (Amount.value? symbols)).flatMap (numberBytes width)
  | data bs => some bs
  | align boundary => some (List.replicate (padding boundary place) 0)
  | nothing | define .. | label _ => some []

/-- The symbol that the statement defines as a number. -/
def defined? : Statement → Option (String × Nat)
  | define name n => some (name, n)
  | _ => none

end Statement

/-- The labels of statements from a place on, with their places. -/
def labelsFrom : Nat → List Statement → List (String × Nat)
  | _, [] => []
  | place, .label name :: statements => (name, place) :: labelsFrom place statements
  | place, statement :: statements => labelsFrom (place + statement.size place) statements

/-- The bytes of statements from a place on. -/
def bytesFrom? (symbols : Symbols) : Nat → List Statement → Option Bytes
  | _, [] => some []
  | place, statement :: statements => do
    let bs ← statement.bytes? symbols place
    return bs ++ (← bytesFrom? symbols (place + bs.length) statements)

/-- The statements of a text. -/
def statements? (text : String) : Option (List Statement) := do
  ((← lexFrom .blank text.toList).splitOn .newline).mapM statement?

/-- What the text assembles to, where it is loaded at an address. -/
def assemble (address : Nat) (text : String) : Option Bytes := do
  let statements ← statements? text
  let symbols : Symbols := ⟨address, statements.filterMap Statement.defined?, labelsFrom 0 statements⟩
  bytesFrom? symbols 0 statements

end DeviceTree.Assembler
