import DeviceTree.BootInfo
import DeviceTree.Text.Hex

/-!
# Device tree source text

Boot information as source text: a version line, the reservations, and the tree, one property or brace to a
line. A value takes the most telling of four forms (`Property.form`). Texts are shown as they are, without
escapes, so a quotation mark inside a value can make two values look alike.
-/

namespace DeviceTree

/-- The forms in which a value is shown. -/
inductive ValueForm where
  /-- No value at all. -/
  | empty
  /-- Quoted texts. -/
  | texts (texts : List String)
  /-- 32-bit words in angle brackets. -/
  | words (words : List Bytes)
  /-- Single bytes in square brackets. -/
  | bytes (bytes : Bytes)
deriving DecidableEq, Repr

namespace Property

/-- Whether the byte is a visible ASCII character, a space or a NUL. -/
def isTextByte (b : UInt8) : Bool :=
  (0x20 ≤ b && b ≤ 0x7E) || b == 0

/-- Whether a value is shown as texts: it holds ASCII texts only, the last one is terminated, and none is
empty. -/
def showsAsTexts (value : Bytes) : Bool :=
  value.all isTextByte && value.getLast? == some 0 && value.head? != some 0 &&
    (value.zip value.tail).all (· != (0, 0))

/-- Cuts a run of bytes into groups of four; fewer at the end are left out. -/
def quads : Bytes → List Bytes
  | a :: b :: c :: d :: rest => [a, b, c, d] :: quads rest
  | _ => []

/-- The form in which the value is shown. -/
def form (p : Property) : ValueForm :=
  if p.value = [] then .empty
  else if showsAsTexts p.value then .texts p.texts
  else if p.value.length % 4 = 0 then .words (quads p.value)
  else .bytes p.value

end Property

namespace SourceText

/-- What follows a property's name on its line, without the semicolon. -/
def ofForm : ValueForm → String
  | .empty => ""
  | .texts texts => " = " ++ ", ".intercalate (texts.map fun text => "\"" ++ text ++ "\"")
  | .words words => " = <" ++ " ".intercalate (words.map fun w => "0x" ++ Hex.padded 8 (BigEndian.value w)) ++ ">"
  | .bytes bytes => " = [" ++ " ".intercalate (bytes.map fun b => Hex.padded 2 b.toNat) ++ "]"

/-- The blanks at the start of a line. -/
def indentation (depth : Nat) : String :=
  String.ofList (List.replicate (4 * depth) ' ')

/-- A label in front of what it names. -/
def ofLabel : Option String → String
  | some label => label ++ ": "
  | none => ""

/-- The line of a property. -/
def ofProperty (depth : Nat) (p : Property) : String :=
  indentation depth ++ ofLabel p.label ++ p.name ++ ofForm p.form ++ ";"

/-- The line that opens a node. A node without a name is shown as the root. -/
def opening (depth : Nat) (n : Node) : String :=
  indentation depth ++ ofLabel n.label ++ (if n.name = "" then "/" else n.name) ++ " \x7b"

/-- The line that closes a node. -/
def closing (depth : Nat) : String :=
  indentation depth ++ "\x7d;"

/-- The lines of a node and all nodes below it: its properties, then its children, with a blank line before
each child. -/
def nodeLines (n : Node) : Nat → List String :=
  n.fold fun n (below : List (Nat → List String)) depth =>
    opening depth n :: n.properties.map (ofProperty (depth + 1)) ++
      below.flatMap (fun lines => "" :: lines (depth + 1)) ++ [closing depth]

theorem nodeLines_eq (n : Node) (depth : Nat) :
    nodeLines n depth = opening depth n :: n.properties.map (ofProperty (depth + 1)) ++
      n.children.flatMap (fun child => "" :: nodeLines child (depth + 1)) ++ [closing depth] := by
  rw [nodeLines, Node.fold_eq, List.flatMap_map]
  rfl

/-- The line of a reservation. -/
def ofReservation (r : Reservation) : String :=
  "/memreserve/ " ++ Hex.prefixed r.address.toNat ++ " " ++ Hex.prefixed r.size.toNat ++ ";"

/-- All lines of the source text. -/
def lines (info : BootInfo) : List String :=
  ["/dts-v1/;", ""] ++ info.reservations.map ofReservation ++
    (if info.reservations = [] then [] else [""]) ++ nodeLines info.root 0

end SourceText

/-- The boot information as source text. -/
def BootInfo.toSource (info : BootInfo) : String :=
  String.join ((SourceText.lines info).map (· ++ "\n"))

end DeviceTree
