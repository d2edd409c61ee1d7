import DeviceTree.Assembly.Literal
import DeviceTree.Text.Hex

/-!
# Lines of assembly text

The lines that an assembler turns into a blob: directives for numbers, texts and alignment, labels, and lines
that emit nothing.
-/

namespace DeviceTree.Assembly

/-- An operand of a number directive. -/
inductive Operand where
  /-- A number in base ten. -/
  | decimal (n : Nat)
  /-- A number in base sixteen. -/
  | hex (n : Nat)
  /-- Where a symbol stands, or the number that it is defined as. -/
  | symbol (name : String)
  /-- How far one symbol stands after another. -/
  | difference (later earlier : String)
deriving DecidableEq, Repr

/-- The operand as it is written. -/
def Operand.text : Operand → String
  | decimal n => toString n
  | hex n => Hex.prefixed n
  | symbol name => name
  | difference later earlier => later ++ " - " ++ earlier

/-- A line of assembly text. -/
inductive Directive where
  /-- An empty line. -/
  | blank
  /-- A remark on a line of its own. -/
  | comment (text : String)
  /-- A symbol for a number. -/
  | define (name : String) (n : Nat)
  /-- Makes a symbol known outside. -/
  | global (name : String)
  /-- Defines a symbol as the place of what follows. -/
  | label (name : String)
  /-- Numbers of 64 bits. -/
  | quad (operands : List Operand)
  /-- A number of 32 bits, with whatever ends the line. -/
  | long (operand : Operand) (remark : String)
  /-- A number of 16 bits. -/
  | short (operand : Operand)
  /-- A number of 8 bits. -/
  | byte (operand : Operand)
  /-- A text and a NUL. -/
  | string (text : String)
  /-- Zeros up to the next multiple of a boundary. -/
  | balign (boundary : Nat)
deriving DecidableEq, Repr

/-- The line, without its end. -/
def Directive.line : Directive → String
  | blank => ""
  | comment text => "/* " ++ text ++ " */"
  | define name n => "#define " ++ name ++ " " ++ Hex.prefixed n
  | global name => "\t.globl\t" ++ name
  | label name => name ++ ":"
  | quad operands => "\t.quad\t" ++ ", ".intercalate (operands.map Operand.text)
  | long operand remark => "\t.long\t" ++ operand.text ++ remark
  | short operand => "\t.short\t" ++ operand.text
  | byte operand => "\t.byte\t" ++ operand.text
  | string text => "\t.string\t\"" ++ String.ofList (Literal.escaped text) ++ "\""
  | balign boundary => "\t.balign\t" ++ toString boundary

/-- The text of a list of lines. -/
def text (program : List Directive) : String :=
  String.join (program.map fun d => d.line ++ "\n")

end DeviceTree.Assembly
