import DeviceTree.Bytes.BigEndian
import DeviceTree.Text.Utf8

/-!
# Properties

A property is a name with a value of raw bytes. What the bytes mean is up to the reader: `word?`, `text?` and
`texts` read them as one 32-bit word, as one NUL-terminated text and as a list of such texts.
-/

namespace DeviceTree

/-- A named value of a node. The label is a name for it in source and assembly text. -/
structure Property where
  name : String
  value : Bytes
  label : Option String := none
deriving DecidableEq, Repr

namespace Property

/-- The value as a 32-bit word, if it has four bytes. -/
def word? (p : Property) : Option UInt32 :=
  match BigEndian.word32? p.value with
  | some (w, []) => some w
  | _ => none

/-- The value as a text, if it is one followed by its only NUL. -/
def text? (p : Property) : Option String :=
  match p.value.untilNul? with
  | some (text, []) => Utf8.decode? text
  | _ => none

/-- The texts at the front of `pieces`, up to the first that is not UTF-8. -/
def leadingTexts : List Bytes → List String
  | [] => []
  | piece :: pieces =>
    match Utf8.decode? piece with
    | some text => text :: leadingTexts pieces
    | none => []

/-- The value as a list of NUL-terminated texts, up to the first piece that is not one. -/
def texts (p : Property) : List String :=
  leadingTexts p.value.terminated

end Property

end DeviceTree
