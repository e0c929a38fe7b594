import DocBlock.CommandLine

/-! The program. It looks at the files that the command line names, lets the library decide what is to
be done, and does it. -/

namespace DocBlock.Main

def usage : String :=
  "Usage: insertdox [OPTIONS] [FILES]...\n\n" ++
  "  -p, --prototypes        Only emit function comments and prototypes.\n" ++
  "  -b, --boilerplate TEXT  File copied into every file header comment.\n" ++
  "  -c, --config TEXT       Path to config YAML.\n" ++
  "  --debug                 Log scanner decisions to stderr.\n" ++
  "  -v, --version           Print the version, then carry on with any files.\n"

def absolute (p : Place) : String := (TextPlace.toPath (p.map Name.toText)).toText.display

/-- What is known of the real files: the entries looked at, and those that cannot be read. Links count
as what they lead to. -/
structure View where
  tree : Tree := {}
  unreadable : List Place := []

def look (v : View) (p : Place) : IO View := do
  let file := (← IO.currentDir) / absolute p
  if (v.tree.find? p).isSome then return v
  else if ← file.isDir then return { v with tree := v.tree.put p .directory }
  else if ← file.pathExists then
    let made := v.tree.create p
    try
      let bytes ← IO.FS.readBinFile file
      return { v with tree := made.write p bytes.toList }
    catch _ =>
      return { v with tree := made, unreadable := p :: v.unreadable }
  else return v

/-- Looks at all places on the way along a path. -/
def lookAlong (s : Site) (v : View) (p : Path) : IO View := do
  let start := s.start p
  let names := p.names.toOption.getD []
  let v ← (List.range (start.length + 1)).foldlM (fun v n => look v (start.take n)) v
  let (v, _) ← names.foldlM (fun (v, place) n => do
    let place := Place.child place n
    return (← look v place, place)) (v, start)
  return v

def lookAt (s : Site) (v : View) (p : Except Fault Path) : IO View :=
  match p with
  | .ok p => lookAlong s v p
  | .error _ => return v

/-- Looks at everything that the request may touch. -/
def survey (s : Site) (r : Request) : IO View := do
  let v : View := {}
  let v ← match r.config with
    | some config => lookAlong s v (Path.ofText config)
    | none => pure v
  let settings := (s.settings Settings.loader v.tree r).toOption.getD {}
  let options := Site.requested r settings.options
  let v ← match options.boilerplatePath? with
    | some path => lookAt s v (s.expandHome (Path.ofText path))
    | none => pure v
  (r.files.filter (!Site.isOption ·)).foldlM (fun v file => do
    let path := Path.ofText file
    let v ← lookAlong s v path
    let v ← lookAt s v (path.addSuffix settings.suffixes.temp)
    lookAt s v (path.addSuffix settings.suffixes.backup)) v

/-- The site with what cannot be read refused. -/
def refusing (s : Site) (v : View) : Site :=
  { s with refuses := fun _ call =>
      match call with
      | .openRead p =>
        let place := p.names.toOption.bind fun names => (v.tree.follow (s.start p) names).toOption
        if place.any v.unreadable.contains then some .denied else none
      | _ => none }

def perform (c : Change) : IO Unit := do
  let file (p : Place) := return (← IO.currentDir) / absolute p
  match c with
  | .create p => IO.FS.writeBinFile (← file p) ByteArray.empty
  | .fill p bytes => IO.FS.writeBinFile (← file p) bytes.toByteArray
  | .remove p => IO.FS.removeFile (← file p)
  | .rename p q => IO.FS.rename (← file p) (← file q)

partial def readAll (input : IO.FS.Stream) (done : ByteArray) : IO ByteArray := do
  let chunk ← input.read 65536
  if chunk.isEmpty then return done else readAll input (done ++ chunk)

def report (l : Logging) (r : Run) : IO UInt32 := do
  r.changes.forM perform
  let out ← IO.getStdout
  out.write r.output.toByteArray
  out.flush
  (r.diagnostics.filterMap (·.line l)).forM fun line => IO.eprintln line
  match r.result with
  | .ok code => return code.toNat.toUInt32
  | .error f =>
    IO.eprintln f.message
    return 1

def run (i : Invocation) : IO UInt32 := do
  let here := (Path.ofString (← IO.currentDir).toString).parts.map Name.ofText
  let home ← IO.getEnv "HOME"
  let s : Site := { here, homes := fun user => if user = [] then home.map .ofString else none }
  let v ← survey s i.request
  let readsInput := i.request.files.all Site.isOption
  let input ← if readsInput then readAll (← IO.getStdin) ByteArray.empty else pure ByteArray.empty
  report i.logging (i.run Settings.loader (refusing s v) v.tree input.toList)

end DocBlock.Main

def main (arguments : List String) : IO UInt32 :=
  match DocBlock.Invocation.ofArguments (arguments.map DocBlock.Text.ofString) with
  | .error fault => do
    IO.eprintln fault.message
    return 2
  | .ok invocation =>
    if invocation.help then do
      IO.print DocBlock.Main.usage
      return 0
    else DocBlock.Main.run invocation
