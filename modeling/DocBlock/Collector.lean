import DocBlock.Pending

/-! Cutting the text into constructs. The collector stores symbols, applies their markers, and
reports what is due for output as events; how an event is written is decided later. -/

namespace DocBlock

inductive Event where
  /-- A header for a file that starts without a comment is due. -/
  | header
  /-- The pending text, which is not empty, is complete. -/
  | flush (p : Pending)
  /-- The pending text reached its capacity and will be flushed. -/
  | full (size : Nat)
  /-- A closing brace closes nothing. -/
  | strayBrace
  deriving DecidableEq, Repr, Inhabited

structure Collector where
  pending : Pending := {}
  events : Array Event := #[]
  deriving Repr, Inhabited

namespace Collector

def report (k : Collector) (e : Event) : Collector := { k with events := k.events.push e }

def flush (k : Collector) : Collector where
  pending := {}
  events := if k.pending.size = 0 then k.events else k.events.push (.flush k.pending)

def apply (k : Collector) : Marker → Collector
  | .flush => k.flush
  | .fileHeader => k.report .header
  | m => { k with pending := k.pending.mark m }

/-- Stores a symbol; the flag says whether a flush is due in any case. -/
def store (k : Collector) (capacity : Int) (s : Sym) (due : Bool) : Collector :=
  let k := { k with pending := k.pending.push s }
  if k.pending.isFull capacity then (k.report (.full k.pending.size)).flush
  else if due then k.flush
  else k

/-- Applies the markers of a symbol, stores it, and flushes if that is due. -/
def feed (k : Collector) (capacity : Int) (s : Sym) (markers : List Marker) : Collector :=
  (markers.foldl apply k).store capacity s (markers.contains .flushAfter)

/-- What was reported, and the collector with that taken out. -/
def drain (k : Collector) : List Event × Collector := (k.events.toList, { k with events := #[] })

end Collector

/-- Scanner and collector on the way through a text. -/
structure Pass where
  scanner : Scanner := {}
  collector : Collector := {}
  deriving Repr, Inhabited

namespace Pass

def step (p : Pass) (capacity : Int) (s : Sym) (next : Option Sym) : Pass :=
  let (scanner, markers) := p.scanner.step s next
  let collector :=
    if p.scanner.isStrayBrace s then p.collector.report .strayBrace else p.collector
  { scanner, collector := collector.feed capacity s markers }

def run (capacity : Int) (p : Pass) : Text → Pass
  | [] => p
  | s :: rest => run capacity (p.step capacity s rest.head?) rest

/-- One symbol on the way through a text: its markers, the events that it caused, and what is
pending behind it. -/
structure Moment where
  markers : List Marker
  events : List Event
  pending : Pending
  deriving DecidableEq, Repr, Inhabited

/-- All moments of a text in order. -/
def moments (capacity : Int) (p : Pass) : Text → List Moment
  | [] => []
  | s :: rest =>
    let after := p.step capacity s rest.head?
    let (events, collector) := after.collector.drain
    { markers := (p.scanner.step s rest.head?).2, events, pending := collector.pending } ::
      moments capacity { after with collector } rest

end Pass

/-- Everything that becomes due while a text is read from start to end. -/
def events (capacity : Int) (t : Text) : List Event :=
  (Pass.run capacity {} t).collector.flush.events.toList

end DocBlock
