import DocBlock.Text.Basic

/-! Options that stay fixed while one text is annotated. -/

namespace DocBlock

/-- Whether what was found in a body is listed last-found first or in the order of the source. -/
inductive MinedOrder where
  | reverse | source
  deriving DecidableEq, Repr, Inhabited

theorem Options.capacity_pos : 0 < 1048576 := by decide

structure Options where
  boilerplate : Option Text := none
  prototypesOnly : Bool := false
  filename : Option Text := none
  bufferCapacity : Nat := 1048576
  bufferCapacity_pos : 0 < bufferCapacity := by first | exact Options.capacity_pos | decide
  typeCapacity : Nat := 200
  minedOrder : MinedOrder := .reverse
  emitNotes : Bool := false
  encoding : Text := Text.ofString "utf-8"
  deriving DecidableEq, Repr

instance : Inhabited Options := ⟨{}⟩

namespace Options

/-- The boilerplate path, an empty one counting as none. -/
def boilerplatePath? (o : Options) : Option Text := o.boilerplate.filter (· ≠ [])

/-- The name that a file header shows. -/
def shownName (o : Options) : Text := (o.filename.filter (· ≠ [])).getD (Text.ofString "<unknown>")

def arrange {α : Type} (o : Options) (found : List α) : List α :=
  match o.minedOrder with
  | .reverse => found.reverse
  | .source => found

end Options

end DocBlock
