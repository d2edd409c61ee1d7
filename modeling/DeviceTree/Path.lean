import DeviceTree.Text.Split

/-!
# Paths

A node's full path is its parent's path, a slash and its name. `join` writes that, `nameWithin?` takes a
stored path apart again where it must hang directly off its parent, and `components` lists the names on a path
that a reader asks for.
-/

namespace DeviceTree.Path

/-- The path of the node called `name` under `parent`. A parent that already ends in a slash gets no second
one. -/
def join (parent name : String) : String :=
  if parent.toList.getLast? = some '/' then parent ++ name else parent ++ "/" ++ name

/-- The name of the node stored with the path `path` inside the node with the path `parent`: what follows the
last slash, if the rest is `parent`. The node inside no other must have the path `/`, and its name is empty. -/
def nameWithin? (parent : Option String) (path : String) : Option String :=
  match parent with
  | none => if path = "/" then some "" else none
  | some parent =>
    match Split.splitLast? '/' path.toList with
    | none => none
    | some (dir, name) =>
      if (if dir = [] then ['/'] else dir) = parent.toList then some (String.ofList name) else none

/-- The names on a path, if it starts at the root. Empty names do not count. -/
def components? (path : String) : Option (List String) :=
  if path.toList.head? = some '/' then some ((Split.words '/' path.toList).map String.ofList) else none

end DeviceTree.Path
