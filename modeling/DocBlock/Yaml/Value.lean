import DocBlock.Settings.Datum
import DocBlock.Yaml.Base64
import DocBlock.Yaml.Document

/-! The value of a YAML stream. Scalars get their values as they are met; the members of a collection
are met only after all collections found before it. The first fault on this way counts. -/

namespace DocBlock.Yaml

namespace Graph

def isMerge (g : Graph) (entry : Nat × Nat) : Bool := (g.get entry.1).tag = .merge

/-- The text of a scalar, or that under the default key of a mapping. -/
def scalarText (g : Graph) : Nat → Node → Except Fault Text
  | 0, _ => .error .endless
  | limit + 1, n =>
    match n with
    | .scalar _ text => .ok text
    | .sequence _ _ => .error .malformed
    | .mapping _ entries =>
      match entries.find? fun e => (g.get e.1).tag = .value with
      | some e => g.scalarText limit (g.get e.2)
      | none => .error .malformed

def switches : List (String × Bool) :=
  [("yes", true), ("no", false), ("true", true), ("false", false), ("on", true), ("off", false)]

def switchValue (text : Text) : Except Fault Datum :=
  match text.lower.toString?.bind (List.lookup · switches) with
  | some b => .ok (.bool b)
  | none => .error (.unknownSwitch text.lower)

def dateValue (text : Text) : Except Fault Datum :=
  match (text.mapM Sym.char?).bind fun cs => Timestamp.ofChars? (beforeBreak cs) with
  | none => .error .noDate
  | some t => t.problem?.elim (.ok .date) fun p => .error (.badDate p)

def isMapping : Node → Bool
  | .mapping _ _ => true
  | _ => false

/-- The value of a node whose tag is not that of a collection. -/
def scalarValue (g : Graph) (n : Node) : Except Fault Datum := do
  if [Tag.merge, .value, .unknown].contains n.tag then throw .malformed
  let text ← g.scalarText (g.nodes.size + 1) n
  match n.tag with
  | .null => return .null
  | .bool => switchValue text
  | .int => return .int (← integerValue text)
  | .real => return .real (← realValue text)
  | .binary => ((Base64.decode? text).map Datum.bytes).elim (.error .malformed) .ok
  | .timestamp => if isMapping n then .error .dateNode else dateValue text
  | _ => return .text text

/-- The mappings that a merge key stands for; of two that have the same key the earlier counts. -/
def merged (g : Graph) (i : Nat) : Except Fault (List Nat) :=
  match g.get i with
  | .mapping _ _ => .ok [i]
  | .sequence _ items =>
    if items.all fun j => isMapping (g.get j) then .ok items else .error .malformed
  | .scalar _ _ => .error .malformed

def entries (g : Graph) (i : Nat) : List (Nat × Nat) :=
  match g.get i with
  | .mapping _ es => es
  | _ => []

def setEntries (g : Graph) (i : Nat) (es : List (Nat × Nat)) : Graph :=
  match g.get i with
  | .mapping tag _ => g.set i (.mapping tag es)
  | _ => g

/-- A default key that is not used as such is text. -/
def settleKey (g : Graph) (i : Nat) : Graph :=
  if (g.get i).tag = .value then g.set i ((g.get i).setTag .str) else g

/-- Puts the entries of merged mappings in place of the merge keys, in front of all others, so that
those count. `found` are the entries from merge keys that are gone already. -/
def flatten (limit : Nat) (i : Nat) (found : List (Nat × Nat)) (g : Graph) : Except Fault Graph :=
  match limit with
  | 0 => .error .endless
  | limit + 1 =>
    match (g.entries i).find? g.isMerge with
    | none =>
      let all := found ++ g.entries i
      .ok (all.foldl (fun g e => g.settleKey e.1) (g.setEntries i all))
    | some e => do
      let g := g.setEntries i ((g.entries i).erase e)
      let targets ← g.merged e.2
      let g ← targets.foldlM (fun g j => flatten limit j [] g) g
      flatten limit i (found ++ targets.reverse.flatMap g.entries) g

/-- How many merge keys there are. Each is used up only once, so this bounds the work on them. -/
def mergeCount (g : Graph) : Nat :=
  ((List.range g.nodes.size).flatMap fun i => (g.entries i).filter g.isMerge).length

end Graph

/-- The walk through a document. -/
structure Walk where
  graph : Graph
  /-- The values of the nodes met so far, by number; a collection only counts as met. -/
  values : Array (Option Datum)
  /-- Collections whose members are still to be met. -/
  waiting : List Nat := []
  deriving Inhabited

namespace Walk

def value? (w : Walk) (i : Nat) : Option Datum := w.values[i]?.join

def note (w : Walk) (i : Nat) (d : Datum) : Walk :=
  { w with values := w.values.setIfInBounds i (some d) }

def meet (w : Walk) (i : Nat) : Except Fault Walk := do
  let n := w.graph.get i
  if (w.value? i).isSome then return w
  else if n.tag.isCollection then
    let kind := if n.tag = .set then Datum.set else .list
    return { w.note i kind with waiting := w.waiting ++ [i] }
  else return w.note i (← w.graph.scalarValue n)

/-- A key and its value. Collections cannot be keys. -/
def meetEntry (w : Walk) (e : Nat × Nat) : Except Fault Walk := do
  let w ← w.meet e.1
  if (w.graph.get e.1).tag.isCollection then throw .malformed
  w.meet e.2

/-- An item of a list of pairs: a mapping with one entry. -/
def meetPair (w : Walk) (i : Nat) : Except Fault Walk :=
  match w.graph.get i with
  | .mapping _ [e] => do (← w.meet e.1).meet e.2
  | _ => .error .malformed

/-- Meets the members of a collection, whose tag has to fit its form. -/
def meetMembers (w : Walk) (i : Nat) : Except Fault Walk :=
  match w.graph.get i with
  | .sequence .seq items => items.foldlM meet w
  | .sequence .omap items | .sequence .pairs items => items.foldlM meetPair w
  | .mapping .map _ | .mapping .set _ => do
    let graph ← w.graph.flatten (w.graph.mergeCount + 1) i []
    (graph.entries i).foldlM meetEntry { w with graph }
  | _ => .error .malformed

/-- Goes on until nothing is waiting. Every node waits at most once, so `limit` may be their number. -/
def finish : Nat → Walk → Except Fault Walk
  | 0, w => .ok w
  | limit + 1, w =>
    match w.waiting with
    | [] => .ok w
    | i :: rest => do (← { w with waiting := rest }.meetMembers i).finish limit

/-- The value of a node. Mappings are unfolded down to the depth, whatever they hold further down. -/
def datum (w : Walk) : Nat → Nat → Datum
  | 0, i => (w.value? i).getD .null
  | depth + 1, i =>
    match w.graph.get i with
    | .mapping .map es => .map (es.map fun e => ((w.value? e.1).getD .null, w.datum depth e.2))
    | _ => (w.value? i).getD .null

end Walk

/-- The depth to which settings are nested. -/
def settingsDepth : Nat := 2

/-- The value of the only document; null for an empty stream. -/
def value (cs : List Char) : Except Fault Datum := do
  match ← Graph.ofTokens (tokens cs) with
  | (_, none) => return .null
  | (graph, some top) =>
    let start : Walk := { graph, values := Array.replicate graph.nodes.size none }
    let w ← (← start.meet top).finish graph.nodes.size
    return w.datum settingsDepth top

end DocBlock.Yaml
