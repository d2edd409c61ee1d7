/-!
# Settings for writing

Which version to write, and what goes into a blob or assembly text besides the boot information.
-/

namespace DeviceTree

/-- How boot information is to be written. -/
structure Settings where
  /-- The number of the format version. -/
  version : UInt32
  /-- The physical number of the boot processor, if it is known. -/
  bootCpuid : Option UInt32 := none
  /-- What the symbols of assembly text start with. -/
  symbolPrefix : String := "dt"
deriving DecidableEq, Repr

namespace Settings

/-- The number of the boot processor in a blob. One that is not known has a number that stands out. -/
def blobCpuid (s : Settings) : UInt32 :=
  s.bootCpuid.getD 0xFEEDBEEF

/-- The number of the boot processor in assembly text. One that is not known has a number that stands out. -/
def assemblyCpuid (s : Settings) : UInt32 :=
  s.bootCpuid.getD 0xDEADBEEF

/-- Whether nothing but the version is set. -/
def isPlain (s : Settings) : Bool :=
  s == { version := s.version }

end Settings

end DeviceTree
