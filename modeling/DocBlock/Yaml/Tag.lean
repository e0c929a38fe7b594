import DocBlock.Text.Basic

/-! The tags that say what kind of value a node is. -/

namespace DocBlock.Yaml

inductive Tag where
  | null | bool | int | real | binary | timestamp | str
  | seq | map | set | omap | pairs
  | merge | value
  /-- A tag that stands for no kind of value. -/
  | unknown
  deriving DecidableEq, Repr, Inhabited

namespace Tag

/-- What the tags of the standard kinds start with. -/
def standard : String := "tag:yaml.org,2002:"

def names : List (String × Tag) :=
  [("null", null), ("bool", bool), ("int", int), ("float", real), ("binary", binary),
    ("timestamp", timestamp), ("str", str), ("seq", seq), ("map", map), ("set", set), ("omap", omap),
    ("pairs", pairs), ("merge", merge), ("value", value)]

def ofName (name : String) : Tag :=
  ((names.find? fun n => standard ++ n.1 = name).map (·.2)).getD unknown

/-- Values of these kinds cannot be keys. -/
def isCollection : Tag → Bool
  | seq | map | set | omap | pairs => true
  | _ => false

end Tag

end DocBlock.Yaml
