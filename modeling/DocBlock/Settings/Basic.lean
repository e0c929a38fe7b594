import DocBlock.Options
import DocBlock.Settings.Read

/-! The settings of a run, and how they are checked. Every field is checked, and all issues are
reported in the order of the fields. -/

namespace DocBlock

theorem Suffixes.tmp_ne_nil : Text.ofString ".tmp" ≠ [] := by decide

theorem Suffixes.bak_ne_nil : Text.ofString ".bak" ≠ [] := by decide

structure Suffixes where
  temp : Text := .ofString ".tmp"
  backup : Text := .ofString ".bak"
  temp_ne : temp ≠ [] := by first | exact Suffixes.tmp_ne_nil | decide
  backup_ne : backup ≠ [] := by first | exact Suffixes.bak_ne_nil | decide
  deriving DecidableEq, Repr

instance : Inhabited Suffixes := ⟨{}⟩

structure Settings where
  options : Options := {}
  suffixes : Suffixes := {}
  deriving DecidableEq, Repr, Inhabited

/-- A value, or all that is wrong with it. -/
abbrev Checked (α : Type) := Except (List Issue) α

namespace Checked

variable {α β : Type}

/-- Both values, or the issues of both. -/
def both (a : Checked α) (b : Checked β) : Checked (α × β) :=
  match a, b with
  | .ok x, .ok y => .ok (x, y)
  | .ok _, .error js => .error js
  | .error is, .ok _ => .error is
  | .error is, .error js => .error (is ++ js)

/-- The field of that name, or its default if there is none. -/
def field (entries : List (Datum × Datum)) (name : String) (default : α) (read : Reader α) :
    Checked α :=
  match Datum.find? entries name with
  | none => .ok default
  | some d => (read d).mapError fun p => [⟨[name], p⟩]

/-- A group of fields under a name of its own. -/
def group (entries : List (Datum × Datum)) (name : String) (default : α)
    (check : List (Datum × Datum) → Checked α) : Checked α :=
  match Datum.find? entries name with
  | none => .ok default
  | some (.map inner) => (check inner).mapError (List.map (Issue.within name))
  | some _ => .error [⟨[name], .notMapping⟩]

end Checked

namespace MinedOrder

def ofName (s : String) : Except Problem MinedOrder :=
  if s = "reverse" then .ok .reverse
  else if s = "source" then .ok .source
  else .error .notAllowed

def read : Reader MinedOrder
  | .text t => Reader.spelled t >>= ofName
  | _ => .error .notAllowed

end MinedOrder

namespace Options

open Checked

def check (entries : List (Datum × Datum)) : Checked Options :=
  (both (field entries "boilerplate" none (.optional .text))
    (both (field entries "prototypes_only" false .switch)
      (both (field entries "filename" none (.optional .text))
        (both (field entries "buffer_capacity" ⟨1048576, by decide⟩ (.atLeast 1))
          (both (field entries "type_capacity" ⟨200, by decide⟩ (.atLeast 0))
            (both (field entries "mined_order" .reverse MinedOrder.read)
              (both (field entries "emit_notes" false .switch)
                (field entries "encoding" (.ofString "utf-8") .text)))))))).map
  fun (boilerplate, prototypesOnly, filename, capacity, typeCapacity, minedOrder, emitNotes,
      encoding) =>
    { boilerplate, prototypesOnly, filename
      bufferCapacity := capacity.val.toNat
      bufferCapacity_pos := by have := capacity.property; omega
      typeCapacity := typeCapacity.val.toNat
      minedOrder, emitNotes, encoding }

end Options

namespace Suffixes

open Checked

def readSuffix : Reader { s : Text // s ≠ [] } := fun d => do
  let s ← Reader.text d
  if h : s ≠ [] then .ok ⟨s, h⟩ else .error .emptySuffix

def check (entries : List (Datum × Datum)) : Checked Suffixes :=
  (both (field entries "temp_suffix" ⟨.ofString ".tmp", tmp_ne_nil⟩ readSuffix)
    (field entries "backup_suffix" ⟨.ofString ".bak", bak_ne_nil⟩ readSuffix)).map
  fun (t, b) => { temp := t.val, backup := b.val, temp_ne := t.property, backup_ne := b.property }

end Suffixes

namespace Settings

open Checked

/-- There is one version of the settings format. -/
def readVersion : Reader Unit := fun d => do
  if (← Reader.integer d) = 1 then .ok () else .error .version

def check (entries : List (Datum × Datum)) : Checked Settings :=
  (both (field entries "version" () readVersion)
    (both (group entries "options" {} Options.check)
      (group entries "files" {} Suffixes.check))).map
  fun (_, options, suffixes) => { options, suffixes }

end Settings

end DocBlock
