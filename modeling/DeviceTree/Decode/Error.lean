import DeviceTree.Text.Hex

/-!
# Why a blob cannot be read

An error is a fault and the offset, from the start of the blob, of the bytes to blame.
-/

namespace DeviceTree

/-- A field of the header. -/
inductive HeaderField where
  | magic
  | totalSize
  | structureOffset
  | stringsOffset
  | reservationsOffset
  | version
  | lastCompatible
  | bootCpuid
  | stringsSize
deriving DecidableEq, Repr

namespace HeaderField

/-- Where in the header the field stands. -/
def position : HeaderField → Nat
  | magic => 0
  | totalSize => 4
  | structureOffset => 8
  | stringsOffset => 12
  | reservationsOffset => 16
  | version => 20
  | lastCompatible => 24
  | bootCpuid => 28
  | stringsSize => 32

/-- The field as the format names it. -/
def name : HeaderField → String
  | magic => "magic"
  | totalSize => "totalsize"
  | structureOffset => "off_dt_struct"
  | stringsOffset => "off_dt_strings"
  | reservationsOffset => "off_mem_rsvmap"
  | version => "version"
  | lastCompatible => "last_comp_version"
  | bootCpuid => "boot_cpuid_phys"
  | stringsSize => "size_dt_strings"

end HeaderField

/-- A failure that a stream of bytes can report, besides an interruption and an end that came too early. -/
inductive StreamFailure where
  | addrInUse
  | addrNotAvailable
  | alreadyExists
  | argumentListTooLong
  | brokenPipe
  | connectionAborted
  | connectionRefused
  | connectionReset
  | crossesDevices
  | deadlock
  | directoryNotEmpty
  | executableFileBusy
  | fileTooLarge
  | filesystemLoop
  | hostUnreachable
  | inProgress
  | invalidData
  | invalidFilename
  | invalidInput
  | isADirectory
  | networkDown
  | networkUnreachable
  | notADirectory
  | notConnected
  | notFound
  | notSeekable
  | other
  | outOfMemory
  | permissionDenied
  | quotaExceeded
  | readOnlyFilesystem
  | resourceBusy
  | staleNetworkFileHandle
  | storageFull
  | timedOut
  | tooManyLinks
  | uncategorized
  | unsupported
  | wouldBlock
  | writeZero
deriving DecidableEq, Repr

/-- The failure as a text. -/
def StreamFailure.message : StreamFailure → String
  | addrInUse => "address in use"
  | addrNotAvailable => "address not available"
  | alreadyExists => "entity already exists"
  | argumentListTooLong => "argument list too long"
  | brokenPipe => "broken pipe"
  | connectionAborted => "connection aborted"
  | connectionRefused => "connection refused"
  | connectionReset => "connection reset"
  | crossesDevices => "cross-device link or rename"
  | deadlock => "deadlock"
  | directoryNotEmpty => "directory not empty"
  | executableFileBusy => "executable file busy"
  | fileTooLarge => "file too large"
  | filesystemLoop => "filesystem loop or indirection limit (e.g. symlink loop)"
  | hostUnreachable => "host unreachable"
  | inProgress => "in progress"
  | invalidData => "invalid data"
  | invalidFilename => "invalid filename"
  | invalidInput => "invalid input parameter"
  | isADirectory => "is a directory"
  | networkDown => "network down"
  | networkUnreachable => "network unreachable"
  | notADirectory => "not a directory"
  | notConnected => "not connected"
  | notFound => "entity not found"
  | notSeekable => "seek on unseekable file"
  | other => "other error"
  | outOfMemory => "out of memory"
  | permissionDenied => "permission denied"
  | quotaExceeded => "quota exceeded"
  | readOnlyFilesystem => "read-only filesystem or storage medium"
  | resourceBusy => "resource busy"
  | staleNetworkFileHandle => "stale network file handle"
  | storageFull => "no storage space"
  | timedOut => "timed out"
  | tooManyLinks => "too many links"
  | uncategorized => "uncategorized error"
  | unsupported => "unsupported"
  | wouldBlock => "operation would block"
  | writeZero => "write zero"

/-- What is wrong with a blob. -/
inductive Fault where
  /-- It does not start with the magic number. -/
  | invalidMagic (magic : UInt32)
  /-- Its total size does not cover the smallest header. -/
  | blobTooSmall (size : UInt32)
  /-- It ends too early. -/
  | truncated
  /-- A header field leads past the end of the blob. -/
  | offsetOutOfBounds (field : HeaderField)
  /-- A name's offset leads to no terminated text in the string block. -/
  | stringOffsetOutOfBounds (offset : UInt32)
  /-- The structure block begins with another word than the token that opens a node. -/
  | missingBeginNode (word : UInt32)
  /-- The root is followed by another word than the token that ends the structure block. -/
  | missingEnd (word : UInt32)
  /-- The structure block ends inside a node. -/
  | prematureEnd
  /-- The word is no token. -/
  | badToken (word : UInt32)
  /-- A stored path does not hang directly off the path of the node around it. -/
  | pathMismatch (path parent : String)
  /-- There are too many nodes inside one another. -/
  | nestingTooDeep
  /-- A property's name is not UTF-8. -/
  | invalidString
  /-- The stream that the blob comes from failed. -/
  | stream (failure : StreamFailure)
deriving DecidableEq, Repr

/-- The fault as a text. -/
def Fault.message : Fault → String
  | invalidMagic magic => "blob has incorrect magic number 0x" ++ Hex.padded 8 magic.toNat
  | blobTooSmall size => "blob size (" ++ toString size.toNat ++ ") is too small"
  | truncated => "premature end of data parsing flat device tree"
  | offsetOutOfBounds field => field.name ++ " exceeds total size"
  | stringOffsetOutOfBounds offset => "string offset " ++ toString offset.toNat ++ " overruns string table"
  | missingBeginNode word =>
    "structure block doesn't begin with a begin-node token (begins with 0x" ++ Hex.padded 8 word.toNat ++ ")"
  | missingEnd word =>
    "structure block doesn't end with an end token (ends with 0x" ++ Hex.padded 8 word.toNat ++ ")"
  | prematureEnd => "premature end token in structure block"
  | badToken word => "invalid opcode word 0x" ++ Hex.padded 8 word.toNat
  | pathMismatch path parent => "path \"" ++ path ++ "\" is not valid as a child of \"" ++ parent ++ "\""
  | nestingTooDeep => "nodes are nested too deeply"
  | invalidString => "invalid string in blob"
  | stream failure => "error reading blob: " ++ failure.message

/-- A fault and where it is. -/
structure DecodeError where
  fault : Fault
  offset : Nat
deriving DecidableEq, Repr

/-- The error as a line of text. -/
def DecodeError.message (e : DecodeError) : String :=
  e.fault.message ++ " at offset " ++ toString e.offset

end DeviceTree
