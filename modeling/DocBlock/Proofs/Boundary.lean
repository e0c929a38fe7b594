import Mathlib
import DocBlock.Proofs.Faults
import DocBlock.Proofs.Overflow
import DocBlock.Proofs.Prototype

/-! What one function leaves behind for the next. Of all that was read up to the end of a body, the
parentheses still open in it are what the rest of the text can depend on, and nothing else. -/

namespace DocBlock

open Text (ofString)

namespace Output

variable {α : Type}

theorem concat_flatMap {β : Type} (f : β → List (Output α)) (bs : List β) :
    concat (bs.flatMap f) = concat (bs.map fun b => concat (f b)) := by
  induction bs with
  | nil => rfl
  | cons b bs ih =>
    rw [List.flatMap_cons, concat_append, ih]
    rfl

end Output

section Written

variable (o : Options) (plate : Option Boilerplate.Reading)

/-- The output of the events of one symbol. -/
def respond (es : List Event) : Output Sym := .concat (es.map fun e => .ofPage .ok (e.page o plate))

/-- What is written before the `k`-th symbol is read. -/
def writtenTo (k : Nat) (t : Text) : Output Sym :=
  .concat (((Pass.trace o.bufferCapacity {} t).take k).map (respond o plate))

/-- What is written from the `k`-th symbol on, if the run gets there. -/
def writtenFrom (k : Nat) (t : Text) : Text :=
  if (writtenTo o plate k t).fault.isSome then []
  else (Output.concat (((Pass.trace o.bufferCapacity {} t).drop k).map (respond o plate))).data

/-- A run writes the one and then the other. -/
theorem data_annotate_writtenFrom (k : Nat) (t : Text) :
    (annotate o plate t).data = (writtenTo o plate k t).data ++ writtenFrom o plate k t := by
  have hall : annotate o plate t =
      .concat ((Pass.trace o.bufferCapacity {} t).map (respond o plate)) := by
    rw [annotate, pages, events_eq_trace, List.map_map, List.flatten_eq_flatMap, List.map_flatMap,
      Output.concat_flatMap]
    rfl
  rw [hall, ← List.take_append_drop k (Pass.trace o.bufferCapacity {} t), List.map_append,
    Output.concat_append, Output.append, writtenFrom, writtenTo]
  split <;> simp

end Written

/-- The scanner behind a body, with `k` parentheses open. -/
def Scanner.bodyDone (k : Int) : Scanner := { parens := k, lineStart := false, fileStart := false }

/-- The last symbol of the text ends a body. -/
def EndsBody (t : Text) : Prop :=
  ∃ m ∈ (({} : Scanner).moments t).getLast?, .bodyEnd ∈ m.markers
  deriving Decidable

theorem EndsBody.exists_concat {t : Text} (h : EndsBody t) :
    ∃ u c, t = u ++ [c] ∧ .bodyEnd ∈ (((({} : Scanner).runTo (some c) u).step c none)).2 := by
  obtain ⟨m, hm, hb⟩ := h
  obtain rfl | ⟨u, c, rfl⟩ := List.eq_nil_or_concat' t
  · simp [Scanner.moments] at hm
  · rw [← Scanner.momentsTo_none, Scanner.momentsTo_concat, List.getLast?_concat,
      Option.mem_some_iff] at hm
    subst hm
    exact ⟨u, c, rfl, hb⟩

/-- Behind a body, every field is settled but the number of open parentheses. -/
theorem Scanner.settle_of_bodyEnd {s : Scanner} {c : Sym} {n : Option Sym} (hv : s.Valid)
    (h : .bodyEnd ∈ (s.step c n).2) : (s.step c n).1.settle = bodyDone s.parens := by
  obtain ⟨hb, hm, rfl⟩ := mem_step_iff.mp h
  obtain ⟨ho, hs⟩ := hv.quiet (by simp [hm, Mode.isComment])
  have hf : s.fileStart = false := by
    by_contra hf
    rw [hv.eq_of_fileStart (by simpa using hf)] at hb
    simp at hb
  have hmode : s.stepMode '}' n =
      ({ s with braces := 0, between := true }, [.bodyEnd, .flushAfter]) := by
    simp [stepMode, hm, stepNormal, closeBrace, hb]
  have hblank : Sym.isBlank '}' = false := by decide
  simp [step, hmode, headMarkers, hf, settle, hm, Mode.isComment, bodyDone, ho, hs, hblank]

namespace Pass

theorem runTo_of_endsBody (capacity : Int) {t : Text} (h : EndsBody t) (n : Option Sym) :
    (runTo capacity n {} t).scanner.settle = .bodyDone (({} : Scanner).run t).parens ∧
      (runTo capacity n {} t).collector = {} := by
  obtain ⟨u, c, rfl, hb⟩ := h.exists_concat
  have hf := Scanner.flushAfter_of_bodyEnd hb
  have hstep := Scanner.step_eq_of_flushAfter n hf
  have hv : (({} : Scanner).runTo (some c) u).Valid := Scanner.valid_initial.runTo u
  constructor
  · rw [scanner_runTo, Scanner.runTo_concat, ← hstep, Scanner.settle_of_bodyEnd hv hb,
      ← Scanner.runTo_none, Scanner.runTo_concat, Scanner.step_parens]
    obtain ⟨hb, hm, rfl⟩ := Scanner.mem_step_iff.mp hb
    simp [Scanner.stepMode, hm, Scanner.stepNormal, Scanner.closeBrace]
  · rw [runTo_concat]
    obtain ⟨-, hp, -⟩ := (runTo capacity (some c) {} u).events_step capacity c n
    rw [scanner_runTo] at hp
    rw [Scanner.moment_markers, ← hstep, if_pos (.inr hf)] at hp
    change Collector.mk _ #[] = Collector.mk {} #[]
    rw [hp]

end Pass

/-- The event writes the header of the file. -/
def Event.isHeading : Event → Bool
  | .header => true
  | .flush p => p.fileComment
  | .full _ | .strayBrace => false

/-- Every way to write the header of the file takes the boilerplate. -/
theorem Event.fault_heading {o : Options} {f : Fault} {e : Event} (h : e.isHeading = true) :
    (e.page o (some (.error f))).fault = some f := by
  cases e with
  | header =>
    simp [page, Page.fileHeader, Page.fault_append, Page.boilerplate, Boilerplate.copy, Except.map,
      Page.insert]
  | flush p =>
    have hp : p.fileComment = true := h
    simp [page, Pending.page, hp, Page.fileComment, Page.fault_append, Page.missingBoilerplate,
      Boilerplate.compare, Except.map, Page.insert]
  | full | strayBrace => cases h

namespace Pass

variable {p : Pass} {done : List Event}

/-- The header of the file is still to come, pending, or reported. -/
def Headed (p : Pass) (done : List Event) : Prop :=
  p.scanner.fileStart = true ∨
    p.collector.pending.fileComment = true ∧ p.collector.pending.text ≠ [] ∨
    ∃ e ∈ done, e.isHeading = true

/-- What is pending, and holds the header comment, stays pending or is reported. -/
theorem Headed.of_pending {q : Pending} (hq : q.fileComment = true) (ht : q.text ≠ []) {ends : Prop}
    [Decidable ends] {es : List Event}
    (hp : p.collector.pending = if ends then {} else q) (he : ends → .flush q ∈ es) :
    Headed p es := by
  by_cases h : ends
  · exact .inr (.inr ⟨_, he h, hq⟩)
  · rw [if_neg h] at hp
    exact .inr (.inl (by rw [hp]; exact ⟨hq, ht⟩))

/-- A header comment that the symbol marks, or that was pending and is not flushed before it, is in what
is pending behind the symbol. -/
theorem Headed.step_of_fileComment (capacity : Int) {c : Sym} {n : Option Sym}
    (h : .fileComment ∈ (p.scanner.moment n c).marks ∨
      p.collector.pending.fileComment = true ∧ .flush ∉ (p.scanner.moment n c).markers) :
    Headed (p.step capacity c n).drained
      (done ++ (p.step capacity c n).collector.events.toList) := by
  obtain ⟨-, hp, he⟩ := p.events_step capacity c n
  set m := p.scanner.moment n c
  set q := (m.marks.foldl Pending.mark (if .flush ∈ m.markers then {} else p.collector.pending)).push c
    with hq
  refine Headed.of_pending (q := q) (Pending.fileComment_foldl_mark.mpr ?_) (by simp [hq]) hp ?_
  · rcases h with h | ⟨h, hn⟩
    · exact .inl h
    · rw [if_neg hn]
      exact .inr h
  · intro hends
    rw [he]
    simp [hends]

/-- The first symbol that is not blank starts the header comment, or has a header written before it. -/
theorem Headed.step_of_fileStart (capacity : Int) (h : p.scanner.fileStart = true) (c : Sym)
    (n : Option Sym) :
    Headed (p.step capacity c n).drained
      (done ++ (p.step capacity c n).collector.events.toList) := by
  obtain ⟨hs, -, he⟩ := p.events_step capacity c n
  by_cases hb : c.isBlank = true
  · left
    rw [scanner_drained, hs]
    simp [h, hb]
  by_cases hc : (p.scanner.stepMode c n).1.mode.isComment = true
  · have hcomment : .fileComment ∈ (p.scanner.moment n c).markers :=
      Scanner.mem_step_iff.mpr ⟨h, by simpa using hb, hc⟩
    exact step_of_fileComment capacity
      (.inl ((p.scanner.mem_marks_moment_iff n c (by simp)).mpr hcomment))
  · have hheader : .fileHeader ∈ (p.scanner.moment n c).markers :=
      Scanner.mem_step_iff.mpr ⟨h, by simpa using hb, by simpa using hc⟩
    have hmark := (p.scanner.mem_marks_moment_iff n c (by simp)).mpr hheader
    have hevent : Event.header ∈ (p.scanner.moment n c).events :=
      List.mem_append_right _ (List.mem_flatMap.mpr ⟨_, hmark, List.mem_singleton_self _⟩)
    refine .inr (.inr ⟨.header, ?_, rfl⟩)
    rw [he]
    simp [hevent]

theorem Headed.step (capacity : Int) (h : Headed p done) (c : Sym) (n : Option Sym) :
    Headed (p.step capacity c n).drained
      (done ++ (p.step capacity c n).collector.events.toList) := by
  obtain ⟨-, -, he⟩ := p.events_step capacity c n
  set m := p.scanner.moment n c
  rcases h with h | ⟨h, ht⟩ | ⟨e, hmem, hh⟩
  · exact step_of_fileStart capacity h c n
  · by_cases hf : .flush ∈ m.markers
    · refine .inr (.inr ⟨.flush (m.closing.foldl Pending.mark p.collector.pending), ?_, ?_⟩)
      · rw [he]
        simp [hf, ht]
      · exact Pending.fileComment_foldl_mark.mpr (.inr h)
    · exact step_of_fileComment capacity (.inr ⟨h, hf⟩)
  · exact .inr (.inr ⟨e, List.mem_append_left _ hmem, hh⟩)

theorem Headed.runTo (capacity : Int) (h : Headed p done) (n : Option Sym) (t : Text) :
    Headed (runTo capacity n p t) (done ++ (traceTo capacity n p t).flatten) := by
  induction t generalizing p done with
  | nil => simpa [Pass.runTo, traceTo] using h
  | cons c rest ih =>
    have := ih (h.step capacity c (rest.head?.or n))
    rwa [List.append_assoc] at this

/-- Behind a body, the header of the file has been reported. -/
theorem exists_heading_of_endsBody (capacity : Int) {t : Text} (h : EndsBody t) (n : Option Sym) :
    ∃ e ∈ (traceTo capacity n {} t).flatten, e.isHeading = true := by
  obtain ⟨hs, hk⟩ := runTo_of_endsBody capacity h n
  have hstart : Headed {} [] := .inl rfl
  rcases hstart.runTo capacity n t with hf | ⟨hf, -⟩ | hf
  · have := congrArg Scanner.fileStart hs
    simp [Scanner.settle, Scanner.bodyDone, hf] at this
  · simp [hk] at hf
  · simpa using hf

end Pass

section Boundary

variable {o : Options} {plate : Option Boilerplate.Reading}

theorem writtenTo_append (t q : Text) :
    writtenTo o plate t.length (t ++ q) =
      .concat ((Pass.traceTo o.bufferCapacity q.head? {} t).map (respond o plate)) := by
  rw [writtenTo, Pass.trace_append, List.take_left' (Pass.length_traceTo ..)]

/-- A run gets past the end of a body unless the boilerplate cannot be read. -/
theorem writtenTo_isSome_fault {t : Text} (h : EndsBody t) (q : Text) :
    (writtenTo o plate t.length (t ++ q)).fault.isSome = true ↔ ∃ f, plate = some (.error f) := by
  rw [writtenTo_append]
  constructor
  · intro hf
    obtain ⟨f, hf⟩ := Option.isSome_iff_exists.mp hf
    obtain ⟨out, hout, hf⟩ := Output.exists_of_fault_concat hf
    obtain ⟨es, -, rfl⟩ := List.mem_map.mp hout
    obtain ⟨out, hout, hf⟩ := Output.exists_of_fault_concat hf
    obtain ⟨e, -, rfl⟩ := List.mem_map.mp hout
    have hpage : (e.page o plate).fault ≠ none := by
      intro hn
      rw [Output.ofPage_ok.1.mpr hn] at hf
      cases hf
    obtain ⟨g, hg⟩ := Option.ne_none_iff_exists'.mp hpage
    exact ⟨g, Event.fault_page hg⟩
  · rintro ⟨f, rfl⟩
    obtain ⟨e, he, hh⟩ := Pass.exists_heading_of_endsBody o.bufferCapacity h q.head?
    obtain ⟨es, hes, he⟩ := List.mem_flatten.mp he
    by_contra hf
    rw [Option.not_isSome_iff_eq_none, Output.fault_concat] at hf
    have hpage := Output.fault_concat.mp (hf _ (List.mem_map_of_mem hes)) _ (List.mem_map_of_mem he)
    rw [Output.ofPage_ok.1, Event.fault_heading hh] at hpage
    cases hpage

/-- Behind a body, what is written depends on the parentheses that are open, and on nothing else. -/
theorem writtenFrom_congr {t t' : Text} (h : EndsBody t) (h' : EndsBody t')
    (hp : (({} : Scanner).run t).parens = (({} : Scanner).run t').parens) (q : Text) :
    writtenFrom o plate t.length (t ++ q) = writtenFrom o plate t'.length (t' ++ q) := by
  have hfault : (writtenTo o plate t.length (t ++ q)).fault.isSome =
      (writtenTo o plate t'.length (t' ++ q)).fault.isSome := by
    rw [Bool.eq_iff_iff, writtenTo_isSome_fault h, writtenTo_isSome_fault h']
  obtain ⟨hs, hk⟩ := Pass.runTo_of_endsBody o.bufferCapacity h q.head?
  obtain ⟨hs', hk'⟩ := Pass.runTo_of_endsBody o.bufferCapacity h' q.head?
  have htrace := Pass.trace_congr o.bufferCapacity (hs.trans (hp ▸ hs'.symm)) (hk.trans hk'.symm) q
  rw [writtenFrom, writtenFrom, hfault, Pass.trace_append, Pass.trace_append,
    List.drop_left' (Pass.length_traceTo ..), List.drop_left' (Pass.length_traceTo ..), htrace]

end Boundary

namespace Scanner

theorem step_bodyDone_paren {k : Int} (hk : 0 < k) (n : Option Sym) :
    (bodyDone k).step ')' n = (bodyDone (k - 1), if k = 1 then [.parametersEnd] else []) := by
  have hblank : Sym.isBlank ')' = false := by decide
  have hmode : (bodyDone k).stepMode ')' n =
      (bodyDone (k - 1), if k = 1 then [.parametersEnd] else []) := by
    simp [stepMode, bodyDone, stepNormal, hk]
  rw [step, hmode]
  simp only [headMarkers, hblank]
  by_cases h : k = 1 <;> simp [h, bodyDone]

theorem step_bodyDone_semicolon (k : Int) (n : Option Sym) :
    (bodyDone k).step ';' n = (bodyDone k, [.flushAfter]) := by
  have hblank : Sym.isBlank ';' = false := by decide
  simp [step, stepMode, bodyDone, stepNormal, headMarkers, hblank]

end Scanner

namespace Pass

open Scanner (bodyDone)

/-- What a pass goes on to write by default. -/
def writes (capacity : Int) (p : Pass) (t : Text) : Text :=
  (trace capacity p t).flatMap (·.flatMap (Event.written {} none))

/-- Closing parentheses, each with a semicolon behind it. -/
def pairs (k : Nat) : Text := (List.replicate k (ofString ");")).flatten

theorem writes_pair {capacity k : Int} (hc : 2 < capacity) (hk : 0 < k) (r : Text) :
    writes capacity ⟨bodyDone k, {}⟩ (ofString ");" ++ r) =
      ofString ");" ++ writes capacity ⟨bodyDone (k - 1), {}⟩ r := by
  have h₁ : ¬ capacity ≤ 1 := by omega
  have h₂ : ¬ capacity ≤ 2 := by omega
  have ht : ofString ");" = [.char ')', .char ';'] := by decide
  rw [ht]
  by_cases h : k = 1 <;>
    simp [writes, trace_cons, step, Scanner.step_bodyDone_paren, hk, Scanner.step_bodyDone_semicolon,
      drained, Collector.drain, Scanner.isStrayBrace, Collector.feed, Collector.store, Collector.apply,
      Collector.flush, Pending.isFull, Pending.push, Pending.size, Pending.mark, Event.written,
      Event.page, Pending.page, Pending.isFunction, Extent.isClosedOnce, Pending.plainPage, Pending.text,
      h, h₁, h₂] <;>
    rfl

/-- Each pair closes one of the open parentheses. -/
theorem writes_pairs {capacity j : Int} (hc : 2 < capacity) (hj : 0 ≤ j) (k : Nat) (r : Text) :
    writes capacity ⟨bodyDone (j + k), {}⟩ (pairs k ++ r) =
      pairs k ++ writes capacity ⟨bodyDone j, {}⟩ r := by
  induction k with
  | zero => simp [pairs]
  | succ k ih =>
    have hp : pairs (k + 1) = ofString ");" ++ pairs k := by simp [pairs, List.replicate_succ]
    have hk : j + (k + 1 : Nat) - 1 = j + k := by omega
    rw [hp, List.append_assoc, writes_pair hc (by omega), hk, ih, List.append_assoc]

/-- A function as short as can be. -/
def shortest : Text := ofString "f()\x7b\x7d"

/-- The function passes as plain text where a parenthesis is open. -/
theorem writes_shortest {capacity k : Int} (hc : 5 < capacity) (hk : 0 < k) :
    writes capacity ⟨bodyDone k, {}⟩ shortest = shortest := by
  have hk₁ : k ≠ 0 := by omega
  have hk₂ : 0 < k + 1 := by omega
  have ht : shortest = [.char 'f', .char '(', .char ')', .char '{', .char '}'] := by decide
  have hf : Sym.isBlank 'f' = false := by decide
  have hl : Sym.isNewline 'f' = false := by decide
  have hcap : trace capacity ⟨bodyDone k, {}⟩ shortest = trace 6 ⟨bodyDone k, {}⟩ shortest :=
    trace_capacity (by simpa [ht, Pending.size] using hc) (by simp [ht, Pending.size])
  rw [writes, hcap, ht]
  simp [trace_cons, trace_nil, step, bodyDone, Scanner.step, Scanner.stepMode, Scanner.stepNormal,
    Scanner.headMarkers, Scanner.closeBrace, hf, hl, hk₁, hk₂, drained, Collector.drain,
    Scanner.isStrayBrace, Collector.feed, Collector.store, Collector.apply, Collector.flush,
    Pending.isFull, Pending.push, Pending.size, Pending.mark, Event.written, Event.page, Pending.page,
    Pending.isFunction, Extent.isClosedOnce, Pending.plainPage, Pending.text, Extent.openAt,
    Pending.leftover]
  rfl

/-- Where none is open it gets its block. -/
theorem writes_shortest_ne {capacity : Int} (hc : 5 < capacity) :
    writes capacity ⟨bodyDone 0, {}⟩ shortest ≠ shortest := by
  have ht : shortest.length = 5 := by decide
  have hcap : trace capacity ⟨bodyDone 0, {}⟩ shortest = trace 6 ⟨bodyDone 0, {}⟩ shortest :=
    trace_capacity (by simpa [ht, Pending.size] using hc) (by simp [ht, Pending.size])
  have hne : writes 6 ⟨bodyDone 0, {}⟩ shortest ≠ shortest := by decide +kernel
  rwa [writes, hcap]

end Pass

theorem data_respond_none (o : Options) (es : List Event) :
    (respond o none es).fault = none ∧ (respond o none es).data = es.flatMap (Event.written o none) := by
  have hpage : ∀ e : Event, (e.page o none).fault = none := by
    intro e
    by_contra h
    obtain ⟨f, hf⟩ := Option.ne_none_iff_exists'.mp h
    cases Event.fault_page hf
  have hall : ∀ out ∈ es.map fun e => Output.ofPage .ok (e.page o none), out.fault = none := by
    intro out hout
    obtain ⟨e, -, rfl⟩ := List.mem_map.mp hout
    exact Output.ofPage_ok.1.mpr (hpage e)
  refine ⟨Output.fault_concat.mpr hall, ?_⟩
  rw [respond, Output.data_concat hall, List.flatMap_map]
  exact List.flatMap_congr fun e _ => Output.ofPage_ok.2 (hpage e)

theorem writtenFrom_none {t : Text} (h : EndsBody t) {o : Options} {capacity : Nat}
    (hpos : 0 < capacity) (ho : o = { bufferCapacity := capacity, bufferCapacity_pos := hpos }) (q : Text) :
    writtenFrom o none t.length (t ++ q) =
      Pass.writes capacity ⟨.bodyDone (({} : Scanner).run t).parens, {}⟩ q := by
  have hfault : (writtenTo o none t.length (t ++ q)).fault.isSome = false := by
    by_contra hf
    rw [Bool.not_eq_false, writtenTo_isSome_fault h] at hf
    obtain ⟨f, hf⟩ := hf
    cases hf
  obtain ⟨hs, hk⟩ := Pass.runTo_of_endsBody o.bufferCapacity h q.head?
  have hsettled : (Scanner.bodyDone (({} : Scanner).run t).parens).settle =
      .bodyDone (({} : Scanner).run t).parens := rfl
  have htrace : Pass.trace o.bufferCapacity (Pass.runTo o.bufferCapacity q.head? {} t) q =
      Pass.trace o.bufferCapacity ⟨.bodyDone (({} : Scanner).run t).parens, {}⟩ q :=
    Pass.trace_congr o.bufferCapacity (hs.trans hsettled.symm) hk q
  have hwritten : Event.written o none = Event.written {} none := by
    rw [ho]
    rfl
  have hall : ∀ out ∈ (Pass.trace o.bufferCapacity ⟨.bodyDone (({} : Scanner).run t).parens, {}⟩ q).map
      (respond o none), out.fault = none := by
    intro out hout
    obtain ⟨es, -, rfl⟩ := List.mem_map.mp hout
    exact (data_respond_none o es).1
  rw [writtenFrom, hfault, if_neg (by simp), Pass.trace_append,
    List.drop_left' (Pass.length_traceTo ..), htrace, Output.data_concat hall, List.flatMap_map,
    Pass.writes, ← hwritten, ho]
  exact List.flatMap_congr fun es _ => (data_respond_none _ es).2

/-- Where fewer parentheses are open behind one text than behind another, what follows can differ. -/
theorem exists_writtenFrom_ne {t t' : Text} (h : EndsBody t) (h' : EndsBody t')
    (hp : (({} : Scanner).run t).parens < (({} : Scanner).run t').parens) :
    ∃ (o : Options) (q : Text), (t ++ q).length < o.bufferCapacity ∧
      (t' ++ q).length < o.bufferCapacity ∧
      writtenFrom o none t.length (t ++ q) ≠ writtenFrom o none t'.length (t' ++ q) := by
  have hnonneg : 0 ≤ (({} : Scanner).run t).parens := by
    rw [← Scanner.runTo_none]
    exact (Scanner.valid_initial.runTo t).parens_nonneg
  obtain ⟨k, hk⟩ := Int.eq_ofNat_of_zero_le hnonneg
  obtain ⟨j, hj⟩ : ∃ j : Int, (({} : Scanner).run t').parens = j + k ∧ 0 < j :=
    ⟨(({} : Scanner).run t').parens - k, by omega, by omega⟩
  let q := Pass.pairs k ++ Pass.shortest
  let capacity := (t ++ q).length + (t' ++ q).length + 6
  have hpos : 0 < capacity := by omega
  refine ⟨{ bufferCapacity := capacity, bufferCapacity_pos := hpos }, q, ?_, ?_, ?_⟩
  · simp only [capacity]
    omega
  · simp only [capacity]
    omega
  have hc : (5 : Int) < capacity := by
    simp only [capacity]
    omega
  rw [writtenFrom_none h hpos rfl, writtenFrom_none h' hpos rfl, hj.1, hk,
    Pass.writes_pairs (by omega) hj.2.le, Pass.writes_shortest hc hj.2]
  have hzero : (k : Int) = 0 + k := by omega
  rw [hzero, Pass.writes_pairs (by omega) le_rfl]
  intro he
  exact Pass.writes_shortest_ne hc (List.append_cancel_left he)

/-- Behind the end of a body, any text is written alike whatever came before, exactly where the number of
parentheses left open is the same. -/
theorem writtenFrom_eq_iff {t t' : Text} (h : EndsBody t) (h' : EndsBody t') :
    (∀ (o : Options) (plate : Option Boilerplate.Reading) (q : Text),
      (t ++ q).length < o.bufferCapacity → (t' ++ q).length < o.bufferCapacity →
      writtenFrom o plate t.length (t ++ q) = writtenFrom o plate t'.length (t' ++ q)) ↔
    (({} : Scanner).run t).parens = (({} : Scanner).run t').parens := by
  constructor
  · intro hall
    by_contra hne
    rcases lt_or_gt_of_ne hne with hlt | hlt
    · obtain ⟨o, q, hl, hl', hq⟩ := exists_writtenFrom_ne h h' hlt
      exact hq (hall o none q hl hl')
    · obtain ⟨o, q, hl, hl', hq⟩ := exists_writtenFrom_ne h' h hlt
      exact hq (hall o none q hl' hl).symm
  · intro hp o plate q _ _
    exact writtenFrom_congr h h' hp q

theorem writtenFrom_eq_open :
    let t := ofString "int f(void)\x7b ( \x7d"
    let t' := ofString "/* g */ int g(int a)\x7b\n#if A(\n(\n#endif\n'('; \"(\"; /* ( */ \x7d"
    EndsBody t ∧ EndsBody t' ∧
    ∀ (o : Options) (plate : Option Boilerplate.Reading) (q : Text),
      (t ++ q).length < o.bufferCapacity → (t' ++ q).length < o.bufferCapacity →
      writtenFrom o plate t.length (t ++ q) = writtenFrom o plate t'.length (t' ++ q) := by
  intro t t'
  have h : EndsBody t := by decide +kernel
  have h' : EndsBody t' := by decide +kernel
  exact ⟨h, h', (writtenFrom_eq_iff h h').mpr (by decide +kernel)⟩

/-- A parenthesis left open in a body hides the next function. -/
theorem open_paren_hides_function :
    let t := ofString "int f()\x7b(\x7d"
    let t' := ofString "int f()\x7b\x7d"
    let q := ofString "int g()\x7b\x7d"
    EndsBody t ∧ EndsBody t' ∧ writtenFrom {} none t.length (t ++ q) = q ∧
      writtenFrom {} none t'.length (t' ++ q) ≠ q := by
  decide +kernel

end DocBlock
