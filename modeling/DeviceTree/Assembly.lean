import DeviceTree.Assembly.Directive
import DeviceTree.Encode.Check
import DeviceTree.Header

/-!
# Boot information as assembly text

The same blob as text for an assembler. It names its parts with symbols, leaves sizes and offsets to the
assembler, and has the labels of nodes and properties. Since the assembled blob knows where it lies, it begins
its reservation map with itself.
-/

namespace DeviceTree

namespace Assembly

/-- The symbol that stands for a token. -/
def tokenSymbol : Token → String
  | .beginNode => "OF_DT_BEGIN_NODE"
  | .endNode => "OF_DT_END_NODE"
  | .property => "OF_DT_PROP"
  | .finish => "OF_DT_END"

/-- The symbol that stands for the magic number. -/
def magicSymbol : String := "OF_DT_HEADER"

/-- The lines of a token. -/
def ofToken (t : Token) : List Directive :=
  [.long (.symbol (tokenSymbol t)) ""]

/-- A label that is known outside. -/
def exported (name : String) : List Directive :=
  [.global name, .label name]

/-- The lines of a run of bytes: as many words as fit, then at most one number of 16 and one of 8 bits. -/
def ofBytes : Bytes → List Directive
  | a :: b :: c :: d :: rest => .long (.hex (BigEndian.value [a, b, c, d])) "" :: ofBytes rest
  | [a, b, c] => [.short (.hex (BigEndian.value [a, b])), .byte (.hex c.toNat)]
  | [a, b] => [.short (.hex (BigEndian.value [a, b]))]
  | [a] => [.byte (.hex a.toNat)]
  | [] => []

/-- The lines of an item of the structure block. -/
def ofItem : Structure.Item → List Directive
  | .beginNode l => (l.map exported).getD [] ++ ofToken .beginNode
  | .endNode l => ofToken .endNode ++ (l.map fun l => exported (l ++ "_end")).getD []
  | .property l => (l.map exported).getD [] ++ ofToken .property
  | .finish => ofToken .finish
  | .word n => [.long (.hex n) ""]
  | .text s => [.string s]
  | .data bs => ofBytes bs
  | .align boundary => [.balign boundary]

/-- The symbol of a part of the blob as other lines use it. -/
def partSymbol (symbolPrefix part : String) : String :=
  "_" ++ symbolPrefix ++ "_" ++ part

/-- Marks the beginning of a part of the blob. -/
def mark (symbolPrefix part : String) : List Directive :=
  exported (symbolPrefix ++ "_" ++ part) ++ [.label (partSymbol symbolPrefix part)]

/-- The lines in front of the blob, which define the numbers that are written as symbols. -/
def preamble : List Directive :=
  [.comment "autogenerated by dtc, do not edit", .blank,
    .define magicSymbol Header.magicNumber.toNat] ++
  [Token.beginNode, .endNode, .property, .finish].map (fun t => .define (tokenSymbol t) t.word.toNat) ++
  [.blank]

/-- The lines of the header. -/
def headerLines (v : Version) (s : Settings) : List Directive :=
  let span (later earlier : String) : Operand :=
    .difference (partSymbol s.symbolPrefix later) (partSymbol s.symbolPrefix earlier)
  let remark (field : HeaderField) : String := "/* " ++ field.name ++ " */"
  [.long (.symbol magicSymbol) (" " ++ remark .magic),
    .long (span "blob_end" "blob_start") (" " ++ remark .totalSize),
    .long (span "struct_start" "blob_start") (" " ++ remark .structureOffset),
    .long (span "strings_start" "blob_start") (" " ++ remark .stringsOffset),
    .long (span "reserve_map" "blob_start") (" " ++ remark .reservationsOffset),
    .long (.decimal v.number.toNat) (" " ++ remark .version),
    .long (.decimal v.lastCompatible.toNat) (" " ++ remark .lastCompatible)] ++
  (if v.features.bootCpuid then [.long (.hex s.assemblyCpuid.toNat) ("\t" ++ remark .bootCpuid)] else []) ++
  (if v.features.stringsSize then [.long (span "strings_end" "strings_start") ("\t" ++ remark .stringsSize)]
    else [])

/-- The lines of the reservation map. -/
def reservationLines (s : Settings) (reservations : List Reservation) : List Directive :=
  let start := partSymbol s.symbolPrefix "blob_start"
  [.quad [.symbol start, .difference (partSymbol s.symbolPrefix "blob_end") start]] ++
  (if reservations = [] then []
    else .comment "Memory reserve map from source file" ::
      reservations.flatMap fun r => ofBytes r.toBytes) ++
  [.quad [.decimal 0], .quad [.decimal 0]]

/-- All lines for a tree that was flattened into `items` and `table`. -/
def program (info : BootInfo) (v : Version) (s : Settings) (table : StringTable)
    (items : List Structure.Item) : List Directive :=
  let mark := mark s.symbolPrefix
  preamble ++ mark "blob_start" ++ mark "header" ++ headerLines v s ++ [.balign 8] ++
  mark "reserve_map" ++ reservationLines s info.reservations ++
  mark "struct_start" ++ items.flatMap ofItem ++ mark "struct_end" ++
  mark "strings_start" ++ table.names.map .string ++ mark "strings_end" ++ mark "blob_end"

end Assembly

/-- The boot information as assembly text. -/
def BootInfo.toAssembly (info : BootInfo) (s : Settings) : Except EncodeError String := do
  let v ← info.checkedVersion s
  let (table, items) ← Structure.flatten v.features info.root
  return Assembly.text (Assembly.program info v s table items)

end DeviceTree
