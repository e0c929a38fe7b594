import DocBlock.Path
import DocBlock.Settings.Issue
import DocBlock.Text.Quoted
import DocBlock.Yaml.Fault

/-! Everything that can go wrong in a run. A fault with an exit code is reported and handled by the
command; the others end the run. -/

namespace DocBlock

instance decidableEqExcept {ε α : Type} [DecidableEq ε] [DecidableEq α] : DecidableEq (Except ε α)
  | .ok a, .ok b => decidable_of_iff (a = b) (by simp)
  | .error e, .error f => decidable_of_iff (e = f) (by simp)
  | .ok _, .error _ => .isFalse (by simp)
  | .error _, .ok _ => .isFalse (by simp)

inductive ExitCode where
  | ok
  | read
  | write
  | backup
  | rename
  | boilerplate
  | memory
  | config
  deriving DecidableEq, Repr, Inhabited

def ExitCode.toNat : ExitCode → Nat
  | ok => 0
  | read => 1
  | write => 2
  | backup => 3
  | rename => 4
  | boilerplate => 5
  | memory => 6
  | config => 7

/-- An error as the system reports it. -/
structure SystemError where
  code : Nat
  text : String
  deriving DecidableEq, Repr, Inhabited

namespace SystemError

def noEntry : SystemError := ⟨2, "No such file or directory"⟩

def denied : SystemError := ⟨13, "Permission denied"⟩

def notDirectory : SystemError := ⟨20, "Not a directory"⟩

def isDirectory : SystemError := ⟨21, "Is a directory"⟩

def noSpace : SystemError := ⟨28, "No space left on device"⟩

def nameTooLong : SystemError := ⟨36, "File name too long"⟩

def tooManyLinks : SystemError := ⟨40, "Too many levels of symbolic links"⟩

/-- The error says no more than that nothing is there. -/
def isAbsence (e : SystemError) : Bool := [2, 9, 20, 40].contains e.code

def message (e : SystemError) : String := s!"[Errno {e.code}] {e.text}"

def messageAt (e : SystemError) (path : Path) : String :=
  e.message ++ ": " ++ Quoted.ofText path.toText

end SystemError

/-- Why a configuration file was refused. -/
inductive ConfigFault where
  | missing (path : Path)
  | system (error : SystemError) (path : Path)
  | notUtf8
  | notYaml (fault : Yaml.Fault)
  | notMapping (path : Path)
  | invalid (issues : List Issue)
  deriving DecidableEq, Repr, Inhabited

namespace ConfigFault

def message : ConfigFault → String
  | missing path => s!"YAML file not found: {path}"
  | system error path => error.messageAt path
  | notUtf8 => "the file is not encoded in utf-8"
  | notYaml fault => fault.message
  | notMapping path => s!"Expected a mapping at the top of {path}"
  | invalid issues => "\n".intercalate (issues.map Issue.message)

end ConfigFault

inductive Fault where
  | read (path : Path)
  | openTemp (path : Path)
  | write (temp : Path) (error : SystemError)
  | backup (source target : Path)
  | rename (source target : Path)
  | boilerplate (path : Path)
  | memory (path : Path)
  | config (path : Text) (cause : ConfigFault)
  | emptyName (path : Path)
  | invalidName (name : Text)
  | unknownEncoding (name : String)
  | unencodable
  | undecodable
  /-- A path with a null character in it cannot be handed to the system. -/
  | nullInPath
  | nullInEncoding
  /-- An error of the system that nothing was prepared for. -/
  | system (error : SystemError) (path : Option Path)
  | outOfMemory
  | linkLoop (path : Path)
  | noHome
  | keyNotText
  /-- A value in the configuration has no meaning. -/
  | value (fault : Yaml.Fault)
  deriving DecidableEq, Repr, Inhabited

namespace Fault

def exitCode? : Fault → Option ExitCode
  | read _ => some .read
  | openTemp _ | write _ _ => some .write
  | backup _ _ => some .backup
  | rename _ _ => some .rename
  | boilerplate _ => some .boilerplate
  | memory _ => some .memory
  | config _ _ => some .config
  | _ => none

def message : Fault → String
  | read path => s!"unable to open '{path}' for reading"
  | openTemp path => s!"unable to open '{path}' for writing"
  | write temp error =>
    let reason := error.message
    s!"unable to write '{temp}': {reason}"
  | backup source target => s!"unable to rename '{source}' to '{target}'"
  | rename source target => s!"unable to rename '{source}' to '{target}'"
  | boilerplate path => s!"unable to open '{path}' to read"
  | memory path => s!"out of memory while processing '{path}'"
  | config path cause =>
    let shown := path.display
    let reason := cause.message
    s!"invalid config '{shown}': {reason}"
  | emptyName path => s!"PosixPath('{path}') has an empty name"
  | invalidName name => "Invalid name " ++ Quoted.ofText name
  | unknownEncoding name => s!"unknown encoding: {name}"
  | unencodable => "a character has no form in the encoding"
  | undecodable => "some bytes make no sense in the encoding"
  | nullInPath => "embedded null byte"
  | nullInEncoding => "embedded null character"
  | system error none => error.message
  | system error (some path) => error.messageAt path
  | outOfMemory => "out of memory"
  | linkLoop path => "Symlink loop from " ++ Quoted.ofText path.toText
  | noHome => "Could not determine home directory."
  | keyNotText => "keywords must be strings"
  | value fault => fault.message

end Fault

/-- Why the system cannot be asked for a name. -/
def Path.nameFault? (name : Text) : Option Fault :=
  if name.any Sym.isSurrogate then some .unencodable
  else if name.contains (.char '\x00') then some .nullInPath
  else none

/-- The path with `suffix` added to its name. -/
def Path.addSuffix (p : Path) (suffix : Text) : Except Fault Path :=
  if p.name = [] then .error (.emptyName p)
  else if !Path.isName (p.name ++ suffix) then .error (.invalidName (p.name ++ suffix))
  else .ok (p.withName (p.name ++ suffix))

end DocBlock
