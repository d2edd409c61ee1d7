import DeviceTree.Bytes

/-!
# UTF-8

Names are texts, and a blob holds their UTF-8 form. `encode` writes that form. `scan` reads any run of bytes
with a machine that takes one byte at a time: a well-formed sequence gives its character, and a maximal run of
bytes that begins a sequence but does not complete it gives one gap, as does a byte that begins none. From the
scan come `lossy`, which shows each gap as the replacement character, and `decode?`, which wants no gap.
-/

namespace DeviceTree.Utf8

/-- The UTF-8 form of a text. -/
def encode (s : String) : Bytes :=
  s.toList.flatMap String.utf8EncodeChar

/-- Where a scan stands between two bytes. -/
inductive State where
  /-- Before the first byte of a sequence. -/
  | start
  /-- Inside a sequence: the bits read so far, the least and the greatest byte that may follow, and how many
  bytes come after that one. -/
  | inside (bits least greatest more : Nat)
deriving DecidableEq, Repr

/-- What the first byte of a sequence gives at once, and where it leaves the scan. The bounds on the second
byte keep out overlong forms, surrogates and numbers past the last character. -/
def lead (b : UInt8) : List (Option Char) × State :=
  let n := b.toNat
  if n < 0x80 then ([some (Char.ofNat n)], .start)
  else if n < 0xC2 then ([none], .start)
  else if n < 0xE0 then ([], .inside (n % 32) 0x80 0xBF 0)
  else if n = 0xE0 then ([], .inside 0 0xA0 0xBF 1)
  else if n = 0xED then ([], .inside 0xD 0x80 0x9F 1)
  else if n < 0xF0 then ([], .inside (n % 16) 0x80 0xBF 1)
  else if n = 0xF0 then ([], .inside 0 0x90 0xBF 2)
  else if n < 0xF4 then ([], .inside (n % 8) 0x80 0xBF 2)
  else if n = 0xF4 then ([], .inside 4 0x80 0x8F 2)
  else ([none], .start)

/-- The characters and gaps of `bs`, read from the given state. -/
def scanFrom : State → Bytes → List (Option Char)
  | .start, [] => []
  | .inside .., [] => [none]
  | .start, b :: bs => (lead b).1 ++ scanFrom (lead b).2 bs
  | .inside bits least greatest more, b :: bs =>
    if least ≤ b.toNat ∧ b.toNat ≤ greatest then
      let bits := bits * 64 + b.toNat % 64
      match more with
      | 0 => some (Char.ofNat bits) :: scanFrom .start bs
      | more + 1 => scanFrom (.inside bits 0x80 0xBF more) bs
    else none :: ((lead b).1 ++ scanFrom (lead b).2 bs)

/-- The characters of `bs` in order, with `none` for each ill-formed stretch. -/
def scan (bs : Bytes) : List (Option Char) :=
  scanFrom .start bs

/-- Whether `bs` is the UTF-8 form of a text. -/
def isValid (bs : Bytes) : Bool :=
  (scan bs).all Option.isSome

/-- The text of `bs`, each ill-formed stretch shown as U+FFFD. -/
def lossy (bs : Bytes) : String :=
  String.ofList ((scan bs).map (·.getD '\uFFFD'))

/-- The text whose UTF-8 form is `bs`, if there is one. -/
def decode? (bs : Bytes) : Option String :=
  if isValid bs then some (lossy bs) else none

end DeviceTree.Utf8
