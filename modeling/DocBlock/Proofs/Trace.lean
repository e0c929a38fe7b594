import Mathlib
import DocBlock.Proofs.Written

/-! What becomes due symbol by symbol. A trace has one list of events for each symbol and one for the
end of the text, so it tells what is written while any part of the text is read. -/

namespace DocBlock

namespace Pending

/-- What the end of the text reports. -/
def leftover (p : Pending) : List Event := if p.size = 0 then [] else [.flush p]

end Pending

namespace Pass

variable {capacity : Int} {p p' : Pass}

/-- The pass with all that it has reported taken out. -/
def drained (p : Pass) : Pass := { p with collector := p.collector.drain.2 }

/-- What each symbol of a text reports, and what its end does. -/
def trace (capacity : Int) (p : Pass) (t : Text) : List (List Event) :=
  (moments capacity p t).map (·.events) ++ [(run capacity p t).collector.pending.leftover]

/-- What each symbol of a text that `n` follows reports. -/
def traceTo (capacity : Int) (n : Option Sym) (p : Pass) : Text → List (List Event)
  | [] => []
  | c :: rest =>
    let after := p.step capacity c (rest.head?.or n)
    after.collector.events.toList :: traceTo capacity n after.drained rest

/-- The pass after a text that `n` follows. -/
def runTo (capacity : Int) (n : Option Sym) (p : Pass) : Text → Pass
  | [] => p
  | c :: rest => runTo capacity n (p.step capacity c (rest.head?.or n)).drained rest

@[simp] theorem scanner_drained (p : Pass) : p.drained.scanner = p.scanner := rfl

@[simp] theorem pending_drained (p : Pass) : p.drained.collector.pending = p.collector.pending := rfl

@[simp] theorem events_drained (p : Pass) : p.drained.collector.events = #[] := rfl

/-- What a symbol reports does not depend on what was reported before. -/
theorem step_drained (p : Pass) (c : Sym) (n : Option Sym) :
    (p.drained.step capacity c n).scanner = (p.step capacity c n).scanner ∧
      (p.drained.step capacity c n).collector.pending = (p.step capacity c n).collector.pending ∧
      (p.step capacity c n).collector.events.toList =
        p.collector.events.toList ++ (p.drained.step capacity c n).collector.events.toList := by
  obtain ⟨hs, hp, he⟩ := p.events_step capacity c n
  obtain ⟨hs', hp', he'⟩ := p.drained.events_step capacity c n
  refine ⟨hs'.trans hs.symm, hp'.trans hp.symm, ?_⟩
  rw [he, he']
  simp only [List.append_assoc]
  rfl

theorem ext_drained {q q' : Pass} (hs : q.scanner = q'.scanner)
    (hp : q.collector.pending = q'.collector.pending) : q.drained = q'.drained := by
  simp [drained, Collector.drain, hs, hp]

theorem drained_step_drained (p : Pass) (c : Sym) (n : Option Sym) :
    (p.drained.step capacity c n).drained = (p.step capacity c n).drained :=
  ext_drained (step_drained p c n).1 (step_drained p c n).2.1

theorem pending_run_drained (p : Pass) (t : Text) :
    (run capacity p.drained t).collector.pending = (run capacity p t).collector.pending := by
  induction t generalizing p with
  | nil => rfl
  | cons c rest ih =>
    rw [run, run, ← ih (p.step capacity c rest.head?), ← drained_step_drained, ih]

theorem trace_nil (p : Pass) : trace capacity p [] = [p.collector.pending.leftover] := rfl

theorem trace_cons (p : Pass) (c : Sym) (rest : Text) :
    trace capacity p (c :: rest) = (p.step capacity c rest.head?).collector.events.toList ::
      trace capacity (p.step capacity c rest.head?).drained rest := by
  simp only [trace, pending_run_drained]
  rfl

/-- All that is reported by the end of the text is what was reported before and the trace. -/
theorem events_flush_run (p : Pass) (t : Text) :
    (run capacity p t).collector.flush.events.toList =
      p.collector.events.toList ++ (trace capacity p.drained t).flatten := by
  induction t generalizing p with
  | nil =>
    simp only [run, Collector.events_flush, trace_nil, Pending.leftover, Pending.size_eq_length,
      List.length_eq_zero_iff, pending_drained, List.flatten_cons, List.flatten_nil, List.append_nil]
  | cons c rest ih =>
    rw [run, ih, trace_cons, drained_step_drained, (step_drained p c rest.head?).2.2]
    simp

@[simp] theorem length_traceTo (n : Option Sym) (p : Pass) (t : Text) :
    (traceTo capacity n p t).length = t.length := by
  induction t generalizing p with
  | nil => rfl
  | cons c rest ih => simp [traceTo, ih]

theorem trace_append (p : Pass) (a b : Text) :
    trace capacity p (a ++ b) =
      traceTo capacity b.head? p a ++ trace capacity (runTo capacity b.head? p a) b := by
  induction a generalizing p with
  | nil => rfl
  | cons c rest ih =>
    rw [List.cons_append, trace_cons, traceTo, runTo, List.cons_append, List.head?_append, ih]

theorem scanner_runTo (n : Option Sym) (p : Pass) (t : Text) :
    (runTo capacity n p t).scanner = p.scanner.runTo n t := by
  induction t generalizing p with
  | nil => rfl
  | cons c rest ih =>
    rw [runTo, ih, Scanner.runTo_cons]
    rfl

theorem runTo_concat (n : Option Sym) (p : Pass) (a : Text) (c : Sym) :
    runTo capacity n p (a ++ [c]) = ((runTo capacity (some c) p a).step capacity c n).drained := by
  induction a generalizing p with
  | nil => rfl
  | cons d rest ih =>
    rw [List.cons_append, runTo, runTo, ih, List.head?_append]
    cases rest <;> rfl

/-- Where the scanners differ at most in a mode that will not be resumed, the traces are the same. -/
theorem trace_congr (capacity : Int) (hs : p.scanner.settle = p'.scanner.settle) (hk : p.collector = p'.collector)
    (t : Text) : trace capacity p t = trace capacity p' t := by
  induction t generalizing p p' with
  | nil => rw [trace_nil, trace_nil, hk]
  | cons c rest ih =>
    obtain ⟨hm, hs'⟩ := Scanner.settle_congr (c := c) (n := rest.head?) hs
    have hstray : p.scanner.isStrayBrace c = p'.scanner.isStrayBrace c := by
      have hmode := congrArg Scanner.mode hs
      have hbraces := congrArg Scanner.braces hs
      simp only [Scanner.settle] at hmode hbraces
      simp [Scanner.isStrayBrace, hmode, hbraces]
    have hk' : (p.step capacity c rest.head?).collector = (p'.step capacity c rest.head?).collector := by
      simp only [step, hk, hm, hstray]
    rw [trace_cons, trace_cons, hk']
    congr 1
    exact ih hs' (congrArg (·.drain.2) hk')

theorem step_capacity {capacity' : Int} (c : Sym) (n : Option Sym)
    (h : p.collector.pending.size + 1 < capacity) (h' : p.collector.pending.size + 1 < capacity') :
    p.step capacity c n = p.step capacity' c n ∧
      (p.step capacity c n).collector.pending.size ≤ p.collector.pending.size + 1 := by
  set k := if p.scanner.isStrayBrace c then p.collector.report .strayBrace else p.collector with hk
  have hkp : k.pending = p.collector.pending := by
    rw [hk]
    split <;> rfl
  set k' := (p.scanner.step c n).2.foldl Collector.apply k with hk'
  have hsize : k'.pending.size ≤ p.collector.pending.size := by
    have hp : k'.pending = _ := (Collector.foldl_apply_markers p.scanner c n k).1
    rw [hp, Pending.size_eq_length, Pending.text_foldl_mark, Pending.size_eq_length]
    split
    · simp
    · rw [hkp]
  have hstore : ∀ d : Int, p.collector.pending.size + 1 < d → ∀ due,
      k'.store d c due = if due then { k' with pending := k'.pending.push c : Collector }.flush
        else { k' with pending := k'.pending.push c } := by
    intro d hd due
    have hfull : (k'.pending.push c).isFull d = false := by
      simp [Pending.isFull]
      omega
    simp [Collector.store, hfull]
  have hstep : ∀ d : Int, p.collector.pending.size + 1 < d → p.step d c n =
      ⟨(p.scanner.step c n).1, k'.store d c ((p.scanner.step c n).2.contains .flushAfter)⟩ :=
    fun d _ => rfl
  rw [hstep _ h, hstep _ h', hstore _ h, hstore _ h']
  refine ⟨rfl, ?_⟩
  split
  · simp [Collector.flush, Pending.size_eq_length]
  · simpa using hsize

/-- A capacity that the text cannot reach has no effect. -/
theorem trace_capacity {capacity' : Int} {t : Text} (h : p.collector.pending.size + t.length < capacity)
    (h' : p.collector.pending.size + t.length < capacity') :
    trace capacity p t = trace capacity' p t := by
  induction t generalizing p with
  | nil => rfl
  | cons c rest ih =>
    rw [List.length_cons] at h h'
    have hc : p.collector.pending.size + 1 < capacity := by omega
    have hc' : p.collector.pending.size + 1 < capacity' := by omega
    obtain ⟨hstep, hsize⟩ := step_capacity c rest.head? hc hc'
    rw [trace_cons, trace_cons, ← hstep, ih]
    · rw [pending_drained]
      omega
    · rw [pending_drained]
      omega

end Pass

/-- The events of a text are those of its trace. -/
theorem events_eq_trace (capacity : Int) (t : Text) :
    events capacity t = (Pass.trace capacity {} t).flatten :=
  Pass.events_flush_run {} t

end DocBlock
