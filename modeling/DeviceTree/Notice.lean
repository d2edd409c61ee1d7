import DeviceTree.Header

/-!
# Notices

Writing and reading leave notices, which say what happened without changing it. `Outcome` is a result together
with the notices given on the way to it, and keeps them also when the result is an error.

* `result_bind`: the result of going on does not depend on the notices.
-/

namespace DeviceTree

/-- How much a notice matters. -/
inductive Level where
  | trace
  | debug
  | warn
deriving DecidableEq, Repr

/-- The level as logs name it. -/
def Level.name : Level → String
  | trace => "TRACE"
  | debug => "DEBUG"
  | warn => "WARN"

/-- Something worth saying about a blob. -/
inductive Notice where
  /-- A tree was flattened into blocks of these sizes. -/
  | flattened (version : Version) (reservations structureSize stringsSize : Nat)
  /-- A blob with this header is about to be read. -/
  | reading (header : Header)
  /-- A node's stored name, shown here after replacement, was not UTF-8. -/
  | replacedName (name : String)
  /-- A node's name is not a regular one. -/
  | irregularName (name : String)
deriving DecidableEq, Repr

namespace Notice

/-- How much the notice matters. -/
def level : Notice → Level
  | flattened .. => .trace
  | reading _ => .debug
  | replacedName _ | irregularName _ => .warn

/-- The notice as a text. -/
def message : Notice → String
  | flattened version reservations structureSize stringsSize =>
    "flattened tree as version " ++ toString version.number.toNat ++ ": " ++ toString reservations ++
      " reservations, " ++ toString structureSize ++ " structure bytes, " ++ toString stringsSize ++
      " string bytes"
  | reading header => "decoding blob:\n" ++ header.summary
  | replacedName name => "node name \"" ++ name ++ "\" is not valid UTF-8"
  | irregularName name => "node name \"" ++ name ++ "\" has incorrect format"

end Notice

/-- A result, with the notices given on the way to it. -/
structure Outcome (ε α : Type) where
  notices : List Notice
  result : Except ε α

namespace Outcome

variable {ε α β : Type}

/-- The outcome with notices given before it. -/
def after (notices : List Notice) (o : Outcome ε α) : Outcome ε α :=
  ⟨notices ++ o.notices, o.result⟩

/-- A result without notices. -/
def ofExcept (result : Except ε α) : Outcome ε α :=
  ⟨[], result⟩

/-- Goes on from a result, if there is one. -/
def andThen (o : Outcome ε α) (f : α → Outcome ε β) : Outcome ε β :=
  match o.result with
  | .ok a => (f a).after o.notices
  | .error e => ⟨o.notices, .error e⟩

/-- A single notice. -/
def note (notice : Notice) : Outcome ε Unit :=
  ⟨[notice], .ok ()⟩

instance : Monad (Outcome ε) where
  pure a := ofExcept (.ok a)
  bind := andThen

instance : MonadLift (Except ε) (Outcome ε) := ⟨ofExcept⟩

@[simp] theorem result_after (notices : List Notice) (o : Outcome ε α) :
    (o.after notices).result = o.result := rfl

@[simp] theorem result_bind (o : Outcome ε α) (f : α → Outcome ε β) :
    (o >>= f).result = o.result >>= fun a => (f a).result := by
  show (o.andThen f).result = _
  unfold andThen
  cases o.result <;> rfl

end Outcome

end DeviceTree
