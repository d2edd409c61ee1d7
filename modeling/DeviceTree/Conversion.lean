import DeviceTree.Assembly
import DeviceTree.Decode.Blob
import DeviceTree.Encode.Blob
import DeviceTree.SourceText

/-!
# From one form to another

Boot information is written as a blob, as assembly text or as source text; a blob can be read back. Here these
are put together: a blob into another form, and boot information into a blob and back.
-/

namespace DeviceTree

/-- The form in which boot information is wanted. -/
inductive Target where
  | blob (s : Settings)
  | assembly (s : Settings)
  | source
deriving DecidableEq, Repr

/-- Boot information in one of its forms. -/
inductive Product where
  | bytes (bytes : Bytes)
  | text (text : String)
deriving DecidableEq, Repr

/-- Writes boot information in the form wanted. -/
def BootInfo.toForm (info : BootInfo) : Target → Except EncodeError Product
  | .blob s => (info.toBlob s).result.map .bytes
  | .assembly s => (info.toAssembly s).map .text
  | .source => .ok (.text info.toSource)

/-- Reads a blob and writes it in the form wanted. An error comes from the one or from the other. -/
def convert (blob : Bytes) (target : Target) : Except (DecodeError ⊕ EncodeError) Product :=
  match (BootInfo.ofBlob blob).result with
  | .error e => .error (.inl e)
  | .ok info => (info.toForm target).mapError .inr

/-- Boot information written as a blob, and what was read back. -/
structure RoundTrip where
  blob : Bytes
  back : Outcome DecodeError BootInfo

namespace RoundTrip

/-- Whether the boot information came back as it was, labels and recorded paths included. -/
def isEqual (trip : RoundTrip) (info : BootInfo) : Bool :=
  match trip.back.result with
  | .ok back => back == info
  | .error _ => false

/-- Whether what came back is written as the same blob again. -/
def isStable (trip : RoundTrip) (s : Settings) : Bool :=
  match trip.back.result with
  | .ok back =>
    match (back.toBlob s).result with
    | .ok blob => blob == trip.blob
    | .error _ => false
  | .error _ => false

end RoundTrip

/-- Writes boot information as a blob and reads it back. -/
def BootInfo.roundTrip (info : BootInfo) (s : Settings) : Except EncodeError RoundTrip :=
  (info.toBlob s).result.map fun blob => ⟨blob, BootInfo.ofBlob blob⟩

end DeviceTree
