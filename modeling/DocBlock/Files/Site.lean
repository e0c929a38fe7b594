import DocBlock.Boilerplate
import DocBlock.Files.Tree
import DocBlock.Options

/-! The surroundings of a run: where it works, what it is told about users and encodings, and what the
system refuses to it. Whatever the tree alone does not settle is a function of the calls made so far,
so the same call may be answered differently at another time.

Left out: other programs that change the tree during a run, except for a temporary file that has gone
when processing breaks down. The boilerplate is opened anew for every header, but answers as it did the
first time. -/

namespace DocBlock

/-- What the system is asked to do. -/
inductive Syscall where
  | look (p : Path)
  | openRead (p : Path)
  | openWrite (p : Path)
  | remove (p : Path)
  | rename (p q : Path)
  deriving DecidableEq, Repr, Inhabited

/-- Processing comes to a sudden end: memory runs out, or reading or writing fails. -/
structure Breakdown where
  /-- The error of the system; without one it is memory that ran out. -/
  error : Option SystemError := none
  /-- What has been written by then. -/
  written : Bytes := []
  /-- Whether the temporary file has disappeared by then. -/
  losesTemp : Bool := false
  deriving DecidableEq, Repr, Inhabited

structure Site where
  here : Place
  /-- The home directories of users by name; the user of the run has the empty name. -/
  homes : Text → Option Text := fun _ => none
  codecs : String → Option Codec := Encoding.codec?
  /-- Which call is refused after which calls. -/
  refuses : List Syscall → Syscall → Option SystemError := fun _ _ => none
  /-- Where processing breaks down, for a file or for standard input, after which calls. -/
  breaksDown : List Syscall → Option Path → Option Breakdown := fun _ _ => none

/-- Why a call gives no result: the path cannot be handed to the system, or the system says so. -/
inductive Trouble where
  | path (fault : Fault)
  | system (error : SystemError)
  deriving DecidableEq, Repr, Inhabited

/-- The fault that a trouble is to one who is prepared for the errors of the system. -/
def Trouble.fault (expected : Fault) : Trouble → Fault
  | path fault => fault
  | system _ => expected

namespace Path

/-- The names that the path hands to the system. -/
def names (p : Path) : Except Fault (List Name) :=
  match nameFault? p.toText with
  | some f => .error f
  | none => .ok (p.parts.map Name.ofText)

/-- Why no file has the path, whatever the tree: it is too long, or a slash stands in one of its parts.
Behind that slash are single dots only, as no file has them behind its name. -/
def error? (p : Path) : Option SystemError :=
  if 4095 < (Name.ofText p.toText).length then some .nameTooLong
  else if p.parts.any (·.contains (.char '/')) then some .notDirectory
  else none

end Path

namespace Encoding

/-- The name of an encoding. Some texts cannot even be looked up. -/
def spelled (name : Text) : Except Fault String :=
  match name.toString? with
  | none => .error .unencodable
  | some s => if s.toList.contains '\x00' then .error .nullInEncoding else .ok s

end Encoding

namespace Site

variable (s : Site) (past : List Syscall) (t : Tree)

def codec (name : String) : Except Fault Codec :=
  match s.codecs name with
  | some c => .ok c
  | none => .error (.unknownEncoding name)

def start (p : Path) : Place := if p.isAbsolute then [] else s.here

/-- The place that belongs to a path, found in the tree by `find`. -/
def locate (find : Place → List Name → Except SystemError Place) (p : Path) : Except Trouble Place :=
  match p.names, p.error? with
  | .error f, _ => .error (.path f)
  | .ok _, some e => .error (.system e)
  | .ok names, none => (find (s.start p) names).mapError .system

/-- The place that the path leads to. -/
def reach? (p : Path) : Option Place := (s.locate t.follow p).toOption

/-- The place where the last name of the path itself stands. -/
def place? (p : Path) : Option Place := (s.locate t.entryPlace p).toOption

/-- The place that belongs to a path, if the system does what it is asked to. -/
def ask (call : Syscall) (find : Place → List Name → Except SystemError Place) (p : Path) :
    Except Trouble Place :=
  match p.names, s.refuses past call with
  | .error f, _ => .error (.path f)
  | .ok _, some e => .error (.system e)
  | .ok _, none => s.locate find p

/-- What the path leads to. -/
def look (p : Path) : Except Trouble Entry := do
  let place ← s.ask past (.look p) t.follow p
  match t.find? place with
  | some e => return e
  | none => throw (.system .noEntry)

/-- The file to read from. A device is never read. -/
def openRead (p : Path) : Except Trouble Nat := do
  let place ← s.ask past (.openRead p) t.follow p
  match t.find? place with
  | some (.file id) => return id
  | some .directory => throw (.system .isDirectory)
  | _ => throw (.system .noEntry)

/-- The place to write to. -/
def openWrite (p : Path) : Except Trouble Place := do
  let place ← s.ask past (.openWrite p) t.follow p
  if t.isDirectory place then throw (.system .isDirectory)
  return place

/-- The place to remove. -/
def remove (p : Path) : Except Trouble Place := do
  let place ← s.ask past (.remove p) t.entryPlace p
  match t.find? place with
  | some .directory => throw (.system .isDirectory)
  | some _ => return place
  | none => throw (.system .noEntry)

/-- The two places of a rename. Both paths are handed over before the system answers. No directory is
moved, and none is replaced. -/
def rename (p q : Path) : Except Trouble (Place × Place) := do
  let _ ← p.names.mapError .path
  let _ ← q.names.mapError .path
  let source ← s.ask past (.rename p q) t.entryPlace p
  let target ← s.ask past (.rename p q) t.entryPlace q
  if (t.find? source).isNone then throw (.system .noEntry)
  if t.isDirectory source || t.isDirectory target then throw (.system .isDirectory)
  return (source, target)

/-- The home directory of a user. Trailing slashes are dropped; some names cannot be looked up. -/
def home (user : Text) : Except Fault Path :=
  match if user = [] then none else Path.nameFault? user with
  | some f => .error f
  | none =>
    match (s.homes user).map (Text.trimRight (· = .char '/')) with
    | none => .error .noHome
    | some directory =>
      if directory = [] then .ok (Path.ofString "/")
      else if directory.head? = some (.char '~') then .error .noHome
      else .ok (Path.ofText directory)

/-- The path with a leading tilde, and the user behind it, replaced by a home directory. -/
def expandHome (p : Path) : Except Fault Path :=
  match p.anchor, p.parts with
  | .relative, (.char '~' :: user) :: rest => (s.home user).map (·.append rest)
  | _, _ => .ok p

/-- What reading the boilerplate file gives. -/
def readBoilerplate (encoding : Text) (p : Path) : Boilerplate.Reading := do
  let name ← Encoding.spelled encoding
  let id ← (s.openRead past t p).mapError (Trouble.fault (.boilerplate p))
  let decoded := (← s.codec name).decode (t.content id)
  if decoded.isComplete then return decoded.text
  throw .undecodable

/-- The boilerplate that the options ask for. It is read only when needed, but its path has to make
sense from the start. -/
def boilerplate? (o : Options) : Except Fault (Option Boilerplate.Reading) :=
  match o.boilerplatePath? with
  | none => .ok none
  | some path => do
    let p ← s.expandHome (Path.ofText path)
    return some (s.readBoilerplate past t o.encoding p)

end Site

end DocBlock
