import DocBlock.Files.Site

/-! The real path behind a path: links are replaced by what they lead to, whether or not anything is
there in the end. The parts stay texts throughout, so what was written is kept as it was written. -/

namespace DocBlock

/-- The texts of the names on the way from the root. -/
abbrev TextPlace := List Text

/-- Why a path was not resolved to its end. -/
inductive Unresolved where
  | fault (f : Fault)
  /-- A link leads back to itself; the rest of the path was not looked at. -/
  | loop (reached : TextPlace)
  deriving DecidableEq, Repr, Inhabited

namespace TextPlace

/-- The place one part further, without a look at what is there. -/
def child (p : TextPlace) (part : Text) : TextPlace :=
  if part = Text.ofString "." then p
  else if part = Text.ofString ".." then p.dropLast
  else p ++ [part]

def toPath (p : TextPlace) : Path := { anchor := .root, parts := p }

/-- Resolves the parts one after the other. A part that is a link is resolved by `follow`, from its
own place, the place before it, and its target. -/
def resolveWith (linkAt : TextPlace → Option Target)
    (follow : TextPlace → TextPlace → Target → Except Unresolved TextPlace) :
    TextPlace → List Text → Except Unresolved TextPlace
  | p, [] => .ok p
  | p, part :: rest =>
    if part = Text.ofString "." || part = Text.ofString ".." then
      resolveWith linkAt follow (child p part) rest
    else
      match Path.nameFault? part, linkAt (p ++ [part]) with
      | some f, _ => .error (.fault f)
      | none, none => resolveWith linkAt follow (p ++ [part]) rest
      | none, some target =>
        match follow (p ++ [part]) p target with
        | .ok q => resolveWith linkAt follow q rest
        | .error (.loop q) => .error (.loop (rest.foldl child q))
        | .error e => .error e

/-- Resolves the parts while the links in `active` are being resolved. No more than `links` links can be
resolved within each other. -/
def resolve (linkAt : TextPlace → Option Target) (links : Nat) (active : List TextPlace) :
    TextPlace → List Text → Except Unresolved TextPlace :=
  resolveWith linkAt fun link p target =>
    match links with
    | 0 => .error (.loop link)
    | links + 1 =>
      if active.contains link then .error (.loop link)
      else
        resolve linkAt links (link :: active) (if target.isAbsolute then [] else p)
          (target.names.map Name.toText)

end TextPlace

namespace Site

variable (s : Site) (past : List Syscall) (t : Tree)

/-- The link at a place, if the system lets it be seen. -/
def linkAt (p : TextPlace) : Option Target :=
  match s.refuses past (.look (TextPlace.toPath p)), t.find? (p.map Name.ofText) with
  | none, some (.link target) => some target
  | _, _ => none

/-- The resolved place itself, once a look at it has noticed no loop. -/
def checkedPlace (q : TextPlace) : Except Fault TextPlace :=
  match s.look past t (TextPlace.toPath q) with
  | .error (.path f) => .error f
  | .error (.system e) =>
    if e.code = SystemError.tooManyLinks.code then .error (.linkLoop (TextPlace.toPath q)) else .ok q
  | .ok _ => .ok q

/-- The real path behind the parts followed from a place. -/
def realPlace (p : TextPlace) (parts : List Text) : Except Fault TextPlace :=
  match TextPlace.resolve (s.linkAt past t) t.entries.length [] p parts with
  | .error (.fault f) => .error f
  | .error (.loop q) | .ok q => s.checkedPlace past t q

end Site

end DocBlock
