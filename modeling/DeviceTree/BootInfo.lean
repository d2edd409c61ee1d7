import DeviceTree.Node
import DeviceTree.Reservation

/-!
# Boot information

What a boot loader hands over: a device tree and the memory reserved from general use.
-/

namespace DeviceTree

/-- A device tree with its memory reservations. -/
structure BootInfo where
  root : Node
  reservations : List Reservation := []
deriving DecidableEq, Repr

namespace BootInfo

/-- The node at a path that starts with a slash: from the root, each name leads to the first child that has
it. -/
def find? (info : BootInfo) (path : String) : Option Node :=
  (Path.components? path).bind fun names => (info.root.descend names).toOption

end BootInfo

end DeviceTree
