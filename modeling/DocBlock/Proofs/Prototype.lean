import Mathlib
import DocBlock.Proofs.OnePass
import DocBlock.Proofs.Trace

/-! Options decide how an event is written, never which events there are, even where they are at hand
all the time. In prototype mode each event writes what it does otherwise, cut after the parameters of a
function and to nothing for plain text. -/

namespace DocBlock

open Text (ofString)

def Event.written (o : Options) (plate : Option Boilerplate.Reading) (e : Event) : Text :=
  (e.page o plate).written

/-- What an event writes in full, and what is left of that in prototype mode. -/
inductive Trimmed : Event → Text → Text → Prop
  | header (x : Text) : Trimmed .header x x
  | fileComment {p : Pending} (hp : p.fileComment = true) (x : Text) : Trimmed (.flush p) x x
  | function {p : Pending} (hc : p.fileComment = false) (hp : p.isFunction = true) (x : Text) :
    Trimmed (.flush p) (x ++ p.sliceFrom p.blockStop)
      (x ++ p.slice p.blockStop p.parameters.stop ++ ofString ";\n\n")
  | plain {p : Pending} (hc : p.fileComment = false) (hp : p.isFunction = false) :
    Trimmed (.flush p) p.text []
  | full (size : Nat) : Trimmed (.full size) [] []
  | strayBrace : Trimmed .strayBrace [] []

section

variable {o : Options} {plate : Option Boilerplate.Reading} {t : Text}

theorem data_annotate_trace (h : (annotate o plate t).fault = none) :
    (annotate o plate t).data =
      (Pass.trace o.bufferCapacity {} t).flatMap (·.flatMap (Event.written o plate)) := by
  rw [data_annotate h, pages, events_eq_trace, List.flatMap_map, List.flatMap_assoc,
    List.flatten_eq_flatMap, List.flatMap_assoc]
  rfl

/-- Both modes put the same block in the same place. -/
theorem trimmed_function {p : Pending} (hc : p.fileComment = false) (hp : p.isFunction = true)
    (ho : o.prototypesOnly = false) :
    Trimmed (.flush p) ((Event.flush p).written o plate)
      ((Event.flush p).written { o with prototypesOnly := true } plate) := by
  have hfull : (Event.flush p).written o plate =
      (p.slice 0 p.blockStart ++ (FunctionBlock.ofPending o p (p.declarator o)).render) ++
        p.sliceFrom p.blockStop := by
    simp [Event.written, Event.page, Pending.page, hc, hp, Pending.functionPage, ho, Page.written,
      Edit.written]
  have hhead : (Event.flush p).written { o with prototypesOnly := true } plate =
      (p.slice 0 p.blockStart ++ (FunctionBlock.ofPending o p (p.declarator o)).render) ++
        p.slice p.blockStop p.parameters.stop ++ ofString ";\n\n" := by
    simp [Event.written, Event.page, Pending.page, hc, hp, Pending.functionPage, Page.written,
      Edit.written]
    rfl
  rw [hfull, hhead]
  exact .function hc hp _

theorem trimmed_event (ho : o.prototypesOnly = false) (e : Event) :
    Trimmed e (e.written o plate) (e.written { o with prototypesOnly := true } plate) := by
  cases e with
  | header => exact .header _
  | flush p =>
    cases hc : p.fileComment with
    | true =>
      have hsame : (Event.flush p).written { o with prototypesOnly := true } plate =
          (Event.flush p).written o plate := by
        simp [Event.written, Event.page, Pending.page, hc]
      rw [hsame]
      exact .fileComment hc _
    | false =>
      cases hp : p.isFunction with
      | true => exact trimmed_function hc hp ho
      | false =>
        have hfull : (Event.flush p).written o plate = p.text := by
          simp [Event.written, Event.page, Pending.page, hc, hp, Pending.plainPage, ho, Page.written,
            Edit.written]
        have hnone : (Event.flush p).written { o with prototypesOnly := true } plate = [] := by
          simp [Event.written, Event.page, Pending.page, hc, hp, Pending.plainPage, Page.written,
            Edit.written]
        rw [hfull, hnone]
        exact .plain hc hp
  | full size => exact .full size
  | strayBrace => exact .strayBrace

end

/-- Two runs with the same capacity flush the same texts, and write one and the same trace, each in its own
way; prototype mode writes it trimmed. -/
theorem annotate_same_trace {o o' : Options} {plate plate' : Option Boilerplate.Reading} {t : Text}
    (hc : o'.bufferCapacity = o.bufferCapacity) (h : (annotate o plate t).fault = none)
    (h' : (annotate o' plate' t).fault = none) :
    let trace := Pass.trace o.bufferCapacity {} t
    let a := Annotator.run { options := o, plate } t
    let a' := Annotator.run { options := o', plate := plate' } t
    (a.output = annotate o plate t ∧ a'.output = annotate o' plate' t ∧
      a.flushed = trace.flatten.filterMap Event.flushed? ∧ a'.flushed = a.flushed) ∧
    (annotate o plate t).data = trace.flatMap (·.flatMap (Event.written o plate)) ∧
    (annotate o' plate' t).data = trace.flatMap (·.flatMap (Event.written o' plate')) ∧
    (o.prototypesOnly = false → o' = { o with prototypesOnly := true } → plate' = plate →
      ∀ es ∈ trace, ∀ e ∈ es, Trimmed e (e.written o plate) (e.written o' plate')) := by
  intro trace a a'
  refine ⟨?_, data_annotate_trace h, ?_, ?_⟩
  · obtain ⟨hout, hflushed⟩ := Annotator.output_run o plate t
    obtain ⟨hout', hflushed'⟩ := Annotator.output_run o' plate' t
    have ha := hflushed (by rw [hout, h])
    have ha' := hflushed' (by rw [hout', h'])
    rw [hc] at ha'
    refine ⟨hout, hout', ?_, ha'.trans ha.symm⟩
    rw [← events_eq_trace]
    exact ha
  · rw [data_annotate_trace h', hc]
  · rintro ho rfl rfl es - e -
    exact trimmed_event ho e

theorem annotate_same_trace_prototype :
    let t := ofString "int x; int f(int a) { return a; }"
    let o : Options := { prototypesOnly := true }
    (annotate {} none t).fault = none ∧ (annotate o none t).fault = none ∧
    (Annotator.run { options := o } t).flushed = (Annotator.run { options := {} } t).flushed ∧
    (annotate {} none t).data =
      (Pass.trace ({} : Options).bufferCapacity {} t).flatMap (·.flatMap (Event.written {} none)) ∧
    (annotate o none t).data =
      (Pass.trace ({} : Options).bufferCapacity {} t).flatMap (·.flatMap (Event.written o none)) ∧
    ∀ es ∈ Pass.trace ({} : Options).bufferCapacity {} t, ∀ e ∈ es,
      Trimmed e (e.written {} none) (e.written o none) := by
  intro t o
  have hfull : (annotate {} none t).fault = none := fault_annotate_none
  have hhead : (annotate o none t).fault = none := fault_annotate_none
  have hc : o.bufferCapacity = ({} : Options).bufferCapacity := rfl
  obtain ⟨⟨-, -, -, hflushed⟩, hdata, hdata', htrimmed⟩ := annotate_same_trace hc hfull hhead
  exact ⟨hfull, hhead, hflushed, hdata, hdata', htrimmed rfl rfl rfl⟩

end DocBlock
