import Mathlib
import DocBlock.Proofs.Written

/-! Annotating in a single pass. An annotator has its options and its output with it, writes what is due
as soon as it is, and ends at the first fault. It writes what `annotate` does, where all that is due is
collected first and written by way of the options afterwards. -/

namespace DocBlock

/-- An annotator on its way through a text. -/
structure Annotator where
  options : Options
  plate : Option Boilerplate.Reading := none
  scanner : Scanner := {}
  pending : Pending := {}
  output : Output Sym := {}
  /-- The pending texts that were flushed so far. -/
  flushed : List Pending := []

namespace Annotator

/-- A fault has ended the run. -/
def isDone (a : Annotator) : Bool := a.output.fault.isSome

/-- Goes on unless a fault has ended the run. -/
def andThen (a : Annotator) (f : Annotator → Annotator) : Annotator := if a.isDone then a else f a

def write (a : Annotator) (p : Page) : Annotator := { a with output := a.output.append (.ofPage .ok p) }

/-- Writes the pending text in the form that the options ask for, and starts anew. -/
def flush (a : Annotator) : Annotator :=
  if a.pending.size = 0 then { a with pending := {} }
  else
    { a.write (a.pending.page a.options a.plate) with
        pending := {}
        flushed := a.flushed ++ [a.pending] }

def apply (a : Annotator) : Marker → Annotator
  | .flush => a.flush
  | .fileHeader => a.write (.fileHeader a.options a.plate)
  | x => { a with pending := a.pending.mark x }

/-- Stores a symbol; the flag says whether a flush is due in any case. -/
def store (a : Annotator) (c : Sym) (due : Bool) : Annotator :=
  let a := { a with pending := a.pending.push c }
  if a.pending.isFull a.options.bufferCapacity then (a.write { notes := [.full a.pending.size] }).flush
  else if due then a.flush
  else a

/-- Applies the markers of a symbol, stores it, and flushes if that is due. -/
def feed (a : Annotator) (c : Sym) (markers : List Marker) : Annotator :=
  (markers.foldl (fun a x => a.andThen (·.apply x)) a).andThen (·.store c (markers.contains .flushAfter))

def step (a : Annotator) (c : Sym) (n : Option Sym) : Annotator :=
  let (scanner, markers) := a.scanner.step c n
  let told := if a.scanner.isStrayBrace c then a.write { notes := [.strayBrace] } else a
  { told with scanner }.feed c markers

/-- Reads a text to its end, and flushes what is pending then. -/
def run (a : Annotator) : Text → Annotator
  | [] => a.andThen flush
  | c :: rest => (a.andThen (·.step c rest.head?)).run rest

end Annotator

/-- The pending text that the event flushes. -/
def Event.flushed? : Event → Option Pending
  | .flush p => some p
  | .header | .full _ | .strayBrace => none

theorem Output.append_empty {α : Type} (a : Output α) : a.append {} = a := by
  unfold append
  split
  · rfl
  · next h =>
    obtain ⟨data, notes, fault⟩ := a
    simp_all

namespace Collector

/-- What was reported stays reported. -/
def ExtendedBy (k k' : Collector) : Prop := k.events.toList <+: k'.events.toList

theorem extendedBy_flush (k : Collector) : k.ExtendedBy k.flush := by
  rw [ExtendedBy, events_flush]
  exact List.prefix_append _ _

theorem extendedBy_apply (k : Collector) (x : Marker) : k.ExtendedBy (k.apply x) := by
  by_cases hx : x = .flush
  · rw [hx]
    exact extendedBy_flush k
  · rw [ExtendedBy, (apply_of_ne_flush hx k).2]
    exact List.prefix_append _ _

end Collector

namespace Annotator

variable {o : Options} {plate : Option Boilerplate.Reading} {s s' : Scanner} {k k' : Collector}
  {a : Annotator}

/-- The annotator has written what the collector has reported. Unless a fault has ended the run, it is
where the scanner is, and the same is pending. -/
structure Follows (o : Options) (plate : Option Boilerplate.Reading) (s : Scanner) (k : Collector)
    (a : Annotator) : Prop where
  options_eq : a.options = o
  plate_eq : a.plate = plate
  output : a.output = .concat (k.events.toList.map fun e => .ofPage .ok (e.page o plate))
  scanner : a.isDone = false → a.scanner = s
  pending : a.isDone = false → a.pending = k.pending
  flushed : a.isDone = false → a.flushed = k.events.toList.filterMap Event.flushed?

/-- After a fault nothing that is reported has an effect. -/
theorem Follows.of_isDone (h : Follows o plate s k a) (hdone : a.isDone = true) (hk : k.ExtendedBy k')
    (s' : Scanner) : Follows o plate s' k' a where
  options_eq := h.options_eq
  plate_eq := h.plate_eq
  output := by
    obtain ⟨es, hes⟩ := hk
    rw [isDone] at hdone
    rw [← hes, List.map_append, Output.concat_append, ← h.output, Output.append, if_pos hdone]
  scanner hrun := absurd (hrun.symm.trans hdone) Bool.false_ne_true
  pending hrun := absurd (hrun.symm.trans hdone) Bool.false_ne_true
  flushed hrun := absurd (hrun.symm.trans hdone) Bool.false_ne_true

theorem Follows.andThen (h : Follows o plate s k a) (hk : k.ExtendedBy k') {f : Annotator → Annotator}
    (hf : a.isDone = false → Follows o plate s' k' (f a)) : Follows o plate s' k' (a.andThen f) := by
  unfold Annotator.andThen
  cases hdone : a.isDone with
  | true => exact h.of_isDone hdone hk s'
  | false => exact hf hdone

/-- What is reported is written, whatever becomes of the pending text. -/
theorem Follows.write (h : Follows o plate s k a) (hrun : a.isDone = false) (e : Event) (p : Pending) :
    Follows o plate s { pending := p, events := k.events.push e }
      { a.write (e.page o plate) with
          pending := p
          flushed := a.flushed ++ e.flushed?.toList } where
  options_eq := h.options_eq
  plate_eq := h.plate_eq
  output := by
    have hone : Output.concat [Output.ofPage .ok (e.page o plate)] =
        (Output.ofPage .ok (e.page o plate) : Output Sym) := Output.append_empty _
    rw [Array.toList_push, List.map_append, Output.concat_append, ← h.output, List.map_singleton, hone]
    rfl
  scanner _ := h.scanner hrun
  pending _ := rfl
  flushed _ := by
    rw [Array.toList_push, List.filterMap_append, ← h.flushed hrun]
    cases e <;> rfl

theorem Follows.flush (h : Follows o plate s k a) (hrun : a.isDone = false) :
    Follows o plate s k.flush a.flush := by
  obtain rfl := h.options_eq
  obtain rfl := h.plate_eq
  unfold Annotator.flush Collector.flush
  rw [← h.pending hrun]
  split
  · exact ⟨rfl, rfl, h.output, h.scanner, fun _ => rfl, h.flushed⟩
  · exact h.write hrun (.flush a.pending) {}

/-- What changes the pending text alone changes it for both. -/
theorem Follows.setPending (h : Follows o plate s k a) (hrun : a.isDone = false) (f : Pending → Pending) :
    Follows o plate s { k with pending := f k.pending } { a with pending := f a.pending } :=
  ⟨h.options_eq, h.plate_eq, h.output, h.scanner, fun _ => by rw [h.pending hrun], h.flushed⟩

theorem Follows.setScanner (h : Follows o plate s k a) (s' : Scanner) :
    Follows o plate s' k { a with scanner := s' } :=
  ⟨h.options_eq, h.plate_eq, h.output, fun _ => rfl, h.pending, h.flushed⟩

/-- What is reported without a flush leaves the pending text alone. -/
theorem Follows.report (h : Follows o plate s k a) (hrun : a.isDone = false) {e : Event}
    (he : e.flushed? = none) : Follows o plate s (k.report e) (a.write (e.page o plate)) := by
  have hwrite := h.write hrun e k.pending
  rw [he, Option.toList_none, List.append_nil] at hwrite
  have hsame : { a.write (e.page o plate) with pending := k.pending, flushed := a.flushed } =
      a.write (e.page o plate) := by
    rw [← h.pending hrun]
    rfl
  rwa [hsame] at hwrite

theorem Follows.apply (h : Follows o plate s k a) (x : Marker) :
    Follows o plate s (k.apply x) (a.andThen (·.apply x)) := by
  refine h.andThen (k.extendedBy_apply x) fun hrun => ?_
  obtain rfl := h.options_eq
  obtain rfl := h.plate_eq
  cases x
  case flush => exact h.flush hrun
  case fileHeader => exact h.report hrun (e := .header) rfl
  all_goals exact h.setPending hrun (·.mark _)

theorem Follows.foldl_apply (h : Follows o plate s k a) (markers : List Marker) :
    Follows o plate s (markers.foldl .apply k) (markers.foldl (fun a x => a.andThen (·.apply x)) a) := by
  induction markers generalizing k a with
  | nil => exact h
  | cons x markers ih => exact ih (h.apply x)

/-- A note does not end the run. -/
theorem isDone_write_notes (hrun : a.isDone = false) (notes : List Note) :
    (a.write { notes }).isDone = false := by
  rw [isDone] at hrun
  simp [isDone, Annotator.write, Output.append, hrun, Output.ofPage, Output.concat]

theorem Follows.store (h : Follows o plate s k a) (hrun : a.isDone = false) (c : Sym) (due : Bool) :
    Follows o plate s (k.store o.bufferCapacity c due) (a.store c due) := by
  obtain rfl := h.options_eq
  have hpush := h.setPending hrun (·.push c)
  unfold Annotator.store Collector.store
  simp only [← h.pending hrun] at hpush ⊢
  split
  · exact (hpush.report hrun (e := .full _) rfl).flush (isDone_write_notes hrun _)
  · split
    · exact hpush.flush hrun
    · exact hpush

theorem Follows.feed (h : Follows o plate s k a) (c : Sym) (markers : List Marker) :
    Follows o plate s (k.feed o.bufferCapacity c markers) (a.feed c markers) := by
  have happlied := h.foldl_apply markers
  refine happlied.andThen ?_ fun hrun => happlied.store hrun c _
  rw [Collector.ExtendedBy, Collector.feed, (Collector.events_store _ _ c _).2, List.append_assoc]
  exact List.prefix_append _ _

theorem Follows.step {p : Pass} (h : Follows o plate p.scanner p.collector a) (hrun : a.isDone = false)
    (c : Sym) (n : Option Sym) :
    let q := p.step o.bufferCapacity c n
    Follows o plate q.scanner q.collector (a.step c n) := by
  intro q
  have htold : Follows o plate p.scanner
      (if p.scanner.isStrayBrace c then p.collector.report .strayBrace else p.collector)
      (if a.scanner.isStrayBrace c then a.write { notes := [.strayBrace] } else a) := by
    rw [h.scanner hrun]
    split
    · exact h.report hrun (e := .strayBrace) rfl
    · exact h
  unfold q Annotator.step Pass.step
  rw [← h.scanner hrun] at htold ⊢
  exact (htold.setScanner (a.scanner.step c n).1).feed c (a.scanner.step c n).2

/-- From symbol to symbol, what is reported is written. -/
theorem Follows.run {p : Pass} (h : Follows o plate p.scanner p.collector a) (t : Text) :
    let q := Pass.run o.bufferCapacity p t
    Follows o plate q.scanner q.collector.flush (a.run t) := by
  induction t generalizing p a with
  | nil => exact h.andThen p.collector.extendedBy_flush h.flush
  | cons c rest ih =>
    refine ih (h.andThen ?_ fun hrun => h.step hrun c rest.head?)
    rw [Collector.ExtendedBy, (p.events_step o.bufferCapacity c rest.head?).2.2]
    simp only [List.append_assoc]
    exact List.prefix_append _ _

/-- A single pass writes what is due all the same, and flushes what is reported as flushed. -/
theorem output_run (o : Options) (plate : Option Boilerplate.Reading) (t : Text) :
    let a := run { options := o, plate } t
    a.output = annotate o plate t ∧
      (a.output.fault = none → a.flushed = (events o.bufferCapacity t).filterMap Event.flushed?) := by
  intro a
  have hstart : Follows o plate ({} : Pass).scanner ({} : Pass).collector { options := o, plate } :=
    ⟨rfl, rfl, rfl, fun _ => rfl, fun _ => rfl, fun _ => rfl⟩
  have h := hstart.run t
  refine ⟨?_, fun hfault => h.flushed ?_⟩
  · rw [annotate, pages, List.map_map]
    exact h.output
  · rw [isDone, hfault]
    rfl

end Annotator

end DocBlock
