import DocBlock.Fault
import DocBlock.Text.Encoding

/-! A tree of files, directories and links, and the elementary changes to it. A file is known by a
number of its own and may have several names. A change happens as a whole, so the trees between the
changes of a run are all the trees that can be left behind.

Left out: permissions and owners (what they forbid is for the surroundings of a run to say), the parts
in which a file is written, times, and devices other than one that is always full, which is never
read. -/

namespace DocBlock

/-- A name as the system has it. Any bytes but a slash and a null can stand in it. -/
abbrev Name := Bytes

/-- A place in the tree: the names on the way from the root. The root itself is always there. -/
abbrev Place := List Name

/-- Where a link leads: the names to follow from the root, or from the directory of the link. -/
structure Target where
  isAbsolute : Bool
  names : List Name
  deriving DecidableEq, Repr, Inhabited

/-- The place that the names of a link are followed from. -/
def Target.base (target : Target) (link : Place) : Place :=
  if target.isAbsolute then [] else link.dropLast

/-- A full device can be opened but takes no byte; it is renamed and removed like a file. -/
inductive Entry where
  | file (id : Nat)
  | directory
  | link (target : Target)
  | fullDevice
  deriving DecidableEq, Repr, Inhabited

/-- A number not below `n`, and above that of the file. -/
def Entry.above (e : Entry) (n : Nat) : Nat :=
  match e with
  | .file id => max (id + 1) n
  | _ => n

structure Tree where
  entries : List (Place × Entry) := []
  contents : List (Nat × Bytes) := []
  deriving DecidableEq, Repr, Inhabited

namespace Name

def dot : Name := [0x2E]

def dotDot : Name := [0x2E, 0x2E]

/-- Half of a surrogate pair has no form in a name. -/
def ofText (t : Text) : Name := t.flatMap fun s => (Encoding.utf8.encodeSym? s).getD []

def toText (n : Name) : Text := Encoding.utf8.decode n

end Name

namespace Place

/-- One step down, or up for a double dot. -/
def child (p : Place) (n : Name) : Place :=
  if n = Name.dot then p else if n = Name.dotDot then p.dropLast else p ++ [n]

end Place

namespace Tree

def find? (t : Tree) (p : Place) : Option Entry :=
  if p = [] then some .directory else (t.entries.find? (·.1 = p)).map (·.2)

def content (t : Tree) (id : Nat) : Bytes := ((t.contents.find? (·.1 = id)).map (·.2)).getD []

/-- The bytes of the file at a place. -/
def bytes? (t : Tree) (p : Place) : Option Bytes :=
  match t.find? p with
  | some (.file id) => some (t.content id)
  | _ => none

def erase (t : Tree) (p : Place) : Tree := { t with entries := t.entries.filter (·.1 ≠ p) }

def put (t : Tree) (p : Place) (e : Entry) : Tree :=
  { t with entries := (p, e) :: (t.erase p).entries }

def store (t : Tree) (id : Nat) (bytes : Bytes) : Tree :=
  { t with contents := (id, bytes) :: t.contents.filter (·.1 ≠ id) }

/-- A number that no file has. -/
def fresh (t : Tree) : Nat := t.entries.foldr (fun e n => e.2.above n) 0

def isDirectory (t : Tree) (p : Place) : Bool := t.find? p = some .directory

/-- The place that a name in a directory stands for. What a directory is in has to be one too. -/
def step (t : Tree) (p : Place) (n : Name) : Except SystemError Place :=
  if !t.isDirectory p then .error (if (t.find? p).isSome then .notDirectory else .noEntry)
  else if 255 < n.length then .error .nameTooLong
  else if n = Name.dotDot && !t.isDirectory (p.child n) then .error .notDirectory
  else .ok (p.child n)

/-- Follows the names from a place; the last one need not be there. At a link, `follow` goes on from the
place where the link starts, with the names of the link before those that are left. -/
def walkWith (t : Tree) (follow : Place → List Name → Except SystemError Place) :
    Place → List Name → Except SystemError Place
  | p, [] => .ok p
  | p, n :: rest =>
    match t.step p n with
    | .error e => .error e
    | .ok q =>
      match t.find? q with
      | some (.link target) => follow (target.base q) (target.names ++ rest)
      | _ => t.walkWith follow q rest

/-- Follows the names from a place, through at most so many links. -/
def walk (t : Tree) : Nat → Place → List Name → Except SystemError Place
  | 0 => t.walkWith fun _ _ => .error .tooManyLinks
  | links + 1 => t.walkWith (t.walk links)

/-- How many links a system follows on one way. -/
def maxLinks : Nat := 40

/-- The place that the names lead to. -/
def follow (t : Tree) (p : Place) (names : List Name) : Except SystemError Place :=
  t.walk maxLinks p names

/-- The place where the last name itself stands, whether or not it is a link. -/
def entryPlace (t : Tree) (p : Place) (names : List Name) : Except SystemError Place :=
  match names.getLast? with
  | none => .ok p
  | some n =>
    match t.follow p names.dropLast with
    | .error e => .error e
    | .ok d => t.step d n

end Tree

inductive Change where
  /-- Opens a file for writing, which makes it or empties it. -/
  | create (p : Place)
  /-- Closes a file with all that was written to it. -/
  | fill (p : Place) (bytes : Bytes)
  | remove (p : Place)
  /-- Moves an entry, over whatever file was there. -/
  | rename (p q : Place)
  deriving DecidableEq, Repr, Inhabited

namespace Tree

/-- Writing to a file shows under all its names. Nothing else takes what is written. -/
def write (t : Tree) (p : Place) (bytes : Bytes) : Tree :=
  match t.find? p with
  | some (.file id) => t.store id bytes
  | _ => t

/-- Opening makes a file where there is nothing. -/
def create (t : Tree) (p : Place) : Tree :=
  match t.find? p with
  | none => (t.put p (.file t.fresh)).store t.fresh []
  | some _ => t.write p []

/-- Two places have the same file. -/
def isSameFile (t : Tree) (p q : Place) : Bool :=
  match t.find? p, t.find? q with
  | some (.file a), some (.file b) => a = b
  | _, _ => false

/-- Moving a file over another name of the same file leaves both names. -/
def rename (t : Tree) (p q : Place) : Tree :=
  match t.find? p with
  | none => t
  | some e => if t.isSameFile p q then t else (t.erase p).put q e

def apply (t : Tree) : Change → Tree
  | .create p => t.create p
  | .fill p bytes => t.write p bytes
  | .remove p => t.erase p
  | .rename p q => t.rename p q

def applyAll (t : Tree) (changes : List Change) : Tree := changes.foldl apply t

/-- Dropping one key hides nothing under another. -/
theorem find?_filter_key {α β : Type} [DecidableEq α] {a b : α} (h : b ≠ a) (l : List (α × β)) :
    (l.filter (·.1 ≠ a)).find? (·.1 = b) = l.find? (·.1 = b) := by
  rw [List.find?_filter]
  congr
  funext x
  by_cases hx : x.1 = b <;> simp [hx, h]

@[simp] theorem find?_nil (t : Tree) : t.find? [] = some .directory := rfl

@[simp] theorem find?_store (t : Tree) (id : Nat) (bytes : Bytes) (p : Place) :
    (t.store id bytes).find? p = t.find? p := rfl

@[simp] theorem content_put (t : Tree) (p : Place) (e : Entry) (id : Nat) :
    (t.put p e).content id = t.content id := rfl

@[simp] theorem content_erase (t : Tree) (p : Place) (id : Nat) :
    (t.erase p).content id = t.content id := rfl

@[simp] theorem content_store_self (t : Tree) (id : Nat) (bytes : Bytes) :
    (t.store id bytes).content id = bytes := by
  simp [content, store]

theorem content_store_of_ne {t : Tree} {i j : Nat} {bytes : Bytes} (h : i ≠ j) :
    (t.store j bytes).content i = t.content i := by
  simp only [content, store, List.find?_cons, Ne.symm h, decide_false]
  rw [find?_filter_key h]

theorem find?_put_self {t : Tree} {p : Place} {e : Entry} (h : p ≠ []) :
    (t.put p e).find? p = some e := by
  simp [find?, put, h]

theorem find?_erase_self {t : Tree} {p : Place} (h : p ≠ []) : (t.erase p).find? p = none := by
  simp [find?, erase, h]

theorem find?_erase_of_ne {t : Tree} {p q : Place} (h : q ≠ p) :
    (t.erase p).find? q = t.find? q := by
  simp only [find?, erase]
  rw [find?_filter_key h]

theorem find?_put_of_ne {t : Tree} {p q : Place} {e : Entry} (h : q ≠ p) :
    (t.put p e).find? q = t.find? q := by
  have := find?_erase_of_ne (t := t) h
  simp only [find?] at this ⊢
  by_cases hq : q = []
  · simp [hq]
  · simpa [put, hq, Ne.symm h] using this

end Tree

end DocBlock
