import Mathlib
import DocBlock.Collector
import DocBlock.Proofs.Reading

/-! The text cut into passages, each of them what is collected between two flushes. What is pending is
a fold over the moments of a passage, and what is reported is the passages, one after the other. -/

namespace DocBlock

open Scanner (Moment)

namespace Scanner.Moment

/-- The markers that still belong to the text before the symbol. -/
def closing (m : Moment) : List Marker := m.markers.takeWhile (· ≠ .flush)

/-- The markers that belong to the text from the symbol on. -/
def marks (m : Moment) : List Marker :=
  if .flush ∈ m.markers then m.markers.dropWhile (· ≠ .flush) else m.markers

end Scanner.Moment

/-- Takes a symbol in, with the marks that it bears. -/
def Pending.read (p : Pending) (m : Moment) : Pending := (m.marks.foldl mark p).push m.sym

/-- What is collected between two flushes. -/
structure Passage where
  start : Scanner
  text : Text
  /-- The symbol behind the passage. -/
  next : Option Sym
  /-- The markers of that symbol that act before the flush. -/
  closing : List Marker := []
  deriving DecidableEq, Repr

namespace Passage

def moments (g : Passage) : List Moment := g.start.momentsTo g.next g.text

def pending (g : Passage) : Pending := g.closing.foldl Pending.mark (g.moments.foldl .read {})

end Passage

/-- The passages of a text that is read in state `s`, where `recent`, read from `start` on, is not
flushed yet. `full` says at which length a passage ends in any case. -/
def passages (full : Nat → Bool) (start : Scanner) (recent : Text) (s : Scanner) :
    Text → List Passage
  | [] => if recent = [] then [] else [⟨start, recent, none, []⟩]
  | c :: rest =>
    let m := s.moment rest.head? c
    let flushes := Marker.flush ∈ m.markers
    let done := if flushes ∧ recent ≠ [] then [⟨start, recent, some c, m.closing⟩] else []
    let start := if flushes then s else start
    let recent := if flushes then [c] else recent ++ [c]
    done ++
      if full recent.length ∨ .flushAfter ∈ m.markers then
        ⟨start, recent, rest.head?, []⟩ :: passages full m.after [] m.after rest
      else passages full start recent m.after rest

section Rules

variable {full : Nat → Bool} {start s : Scanner} {recent rest : Text} {c : Sym}

/-- A flush before the symbol ends the passage in progress, and the next one starts with the symbol. -/
theorem passages_of_flush (h : .flush ∈ (s.step c rest.head?).2) :
    passages full start recent s (c :: rest) =
      (if recent = [] then [] else
        [⟨start, recent, some c, (s.moment rest.head? c).closing⟩]) ++
        passages full s [] s (c :: rest) := by
  by_cases hr : recent = [] <;> simp [passages, h, hr]

/-- A symbol joins the passage in progress if no flush comes before it or it is the first one. -/
theorem passages_of_joins (h : .flush ∈ (s.step c rest.head?).2 → recent = [] ∧ start = s) :
    passages full start recent s (c :: rest) =
      if full (recent ++ [c]).length ∨ .flushAfter ∈ (s.step c rest.head?).2 then
        ⟨start, recent ++ [c], rest.head?, []⟩ ::
          passages full (s.step c rest.head?).1 [] (s.step c rest.head?).1 rest
      else passages full start (recent ++ [c]) (s.step c rest.head?).1 rest := by
  by_cases hf : .flush ∈ (s.step c rest.head?).2
  · obtain ⟨rfl, rfl⟩ := h hf
    simp [passages, hf]
  · simp [passages, hf]

end Rules

/-- What a marker reports by itself. -/
def Marker.events : Marker → List Event
  | .fileHeader => [.header]
  | _ => []

/-- What is reported for a symbol that is not flushed yet. -/
def Scanner.Moment.events (m : Moment) : List Event :=
  (if m.before.isStrayBrace m.sym then [.strayBrace] else []) ++ m.marks.flatMap Marker.events

theorem Scanner.Moment.mem_events {m : Moment} {e : Event} (h : e ∈ m.events) :
    e = .strayBrace ∨ e = .header := by
  unfold events at h
  rcases List.mem_append.mp h with h | h
  · split at h
    · exact .inl (List.mem_singleton.mp h)
    · simp at h
  · obtain ⟨x, -, hx⟩ := List.mem_flatMap.mp h
    cases x
    case fileHeader => exact .inr (List.mem_singleton.mp hx)
    all_goals simp [Marker.events] at hx

def Passage.events (capacity : Int) (g : Passage) : List Event :=
  g.moments.flatMap Moment.events ++
    (if capacity ≤ g.text.length then [.full g.text.length] else []) ++ [.flush g.pending]

namespace Pending

/-- The end of a comment changes the remarks and nothing else. -/
theorem endComment_eq (p : Pending) :
    ∃ todos notes, p.endComment = { p with commentStart := none, todos := todos, notes := notes } := by
  unfold endComment
  split
  · next h => exact ⟨p.todos, p.notes, by rw [← h]⟩
  · split
    · exact ⟨p.todos, p.notes, rfl⟩
    · exact ⟨_, p.notes, rfl⟩
    · exact ⟨p.todos, _, rfl⟩

/-- The end of a statement changes the values returned and nothing else. -/
theorem endStatement_eq (p : Pending) :
    ∃ returns, p.endStatement = { p with statementStart := none, returns := returns } := by
  unfold endStatement
  split
  · next h => exact ⟨p.returns, by rw [← h]⟩
  · split
    · exact ⟨p.returns, rfl⟩
    · exact ⟨_, rfl⟩

@[simp] theorem syms_mark (p : Pending) (m : Marker) : (p.mark m).syms = p.syms := by
  cases m <;> simp only [mark]
  · obtain ⟨_, _, h⟩ := p.endComment_eq
    rw [h]
  · obtain ⟨_, h⟩ := p.endStatement_eq
    rw [h]

@[simp] theorem syms_foldl_mark (ms : List Marker) (p : Pending) :
    (ms.foldl mark p).syms = p.syms := by
  induction ms generalizing p with
  | nil => rfl
  | cons m ms ih => simp [ih]

@[simp] theorem text_foldl_mark (ms : List Marker) (p : Pending) :
    (ms.foldl mark p).text = p.text := by
  simp [text]

@[simp] theorem text_foldl_read (ms : List Moment) (p : Pending) :
    (ms.foldl read p).text = p.text ++ ms.map (·.sym) := by
  induction ms generalizing p with
  | nil => simp
  | cons m ms ih => simp [ih, read]

@[simp] theorem text_empty : ({} : Pending).text = [] := rfl

theorem size_eq_length (p : Pending) : p.size = p.text.length := by
  simp [size, text]

end Pending

theorem Passage.take_moments {g : Passage} {u v : Text} {c : Sym} (ht : g.text = u ++ c :: v) :
    g.moments.take u.length = g.start.momentsTo (some c) u := by
  rw [Passage.moments, ht, Scanner.momentsTo_append]
  exact List.take_left' (Scanner.length_momentsTo u)

theorem Passage.map_sym_moments (g : Passage) : g.moments.map (·.sym) = g.text :=
  Scanner.map_sym_momentsTo g.text

@[simp] theorem Passage.text_pending (g : Passage) : g.pending.text = g.text := by
  simp only [pending, moments, Pending.text_foldl_mark, Pending.text_foldl_read,
    Scanner.map_sym_momentsTo]
  rfl

/-- Before a symbol, the collector flushes where a comment starts outside bodies and where the header
line comment ends; only the latter has a marker that acts before the flush. -/
theorem Scanner.closing_of_flush {s : Scanner} {c : Sym} {n : Option Sym}
    (h : .flush ∈ (s.step c n).2) :
    s.OpensComment c n ∧ (s.moment n c).closing = [] ∧
        (s.moment n c).marks =
          .flush :: .descriptionStart :: s.headMarkers c (s.stepMode c n).1.mode ∨
      s.ClosesLine c ∧ s.headerComment = true ∧ (s.moment n c).closing = [.descriptionEnd] ∧
        (s.moment n c).marks = .flush :: s.headMarkers c (s.stepMode c n).1.mode := by
  have hf : (s.moment n c).marks = (s.step c n).2.dropWhile (· ≠ .flush) := if_pos h
  obtain ⟨hb, ho | ⟨hl, hr, hc⟩⟩ := mem_step_iff.mp h
  · refine .inl ⟨ho, ?_, ?_⟩
    · simp [Moment.closing, step_markers, stepMode_of_opensComment ho, enterComment, hb]
    · simp [hf, step_markers, stepMode_of_opensComment ho, enterComment, hb]
  · refine .inr ⟨hl, hc, ?_, ?_⟩
    · simp [Moment.closing, step_markers, stepMode_of_closesLine hl, hb, hr, hc]
    · simp [hf, step_markers, stepMode_of_closesLine hl, hb, hr, hc]

theorem Scanner.Moment.markers_eq_of_flush {m : Moment} (h : .flush ∈ m.markers)
    (hd : m.markers.Nodup) :
    ∃ rest, m.markers = m.closing ++ .flush :: rest ∧ m.marks = .flush :: rest ∧ .flush ∉ rest ∧
      .flush ∉ m.closing := by
  have hs : m.markers = m.closing ++ m.markers.dropWhile (· ≠ .flush) :=
    (List.takeWhile_append_dropWhile ..).symm
  have hc : Marker.flush ∉ m.closing := by
    intro hc
    simpa using List.mem_takeWhile_imp hc
  have hm : m.marks = m.markers.dropWhile (· ≠ .flush) := by simp [marks, h]
  cases hr : m.markers.dropWhile (· ≠ .flush) with
  | nil =>
    rw [hr, List.append_nil] at hs
    exact absurd (hs ▸ h) hc
  | cons x rest =>
    have hx : x = .flush := by
      have := List.head?_dropWhile_not (· ≠ Marker.flush) m.markers
      rw [hr] at this
      simpa using this
    subst hx
    rw [hr] at hs
    refine ⟨rest, hs, hm.trans hr, ?_, hc⟩
    rw [hs] at hd
    exact (List.nodup_cons.mp (List.nodup_append.mp hd).2.1).1

theorem Scanner.not_isStrayBrace_of_flush {s : Scanner} {c : Sym} {n : Option Sym}
    (h : .flush ∈ (s.step c n).2) : s.isStrayBrace c = false := by
  rcases closing_of_flush h with ⟨⟨-, rfl, -⟩, -⟩ | ⟨⟨hm, -⟩, -⟩
  · simp [isStrayBrace]
  · simp [isStrayBrace, hm]

namespace Collector

theorem events_flush (k : Collector) :
    k.flush.events.toList =
      k.events.toList ++ if k.pending.text = [] then [] else [.flush k.pending] := by
  unfold flush
  simp only [Pending.size_eq_length, List.length_eq_zero_iff]
  split <;> simp

theorem apply_of_ne_flush {m : Marker} (h : m ≠ .flush) (k : Collector) :
    (k.apply m).pending = k.pending.mark m ∧
      (k.apply m).events.toList = k.events.toList ++ m.events := by
  cases m
  case flush => contradiction
  case fileHeader => exact ⟨rfl, by simp [apply, report, Marker.events]⟩
  all_goals exact ⟨rfl, (List.append_nil _).symm⟩

theorem foldl_apply {ms : List Marker} (h : .flush ∉ ms) (k : Collector) :
    (ms.foldl apply k).pending = ms.foldl Pending.mark k.pending ∧
      (ms.foldl apply k).events.toList = k.events.toList ++ ms.flatMap Marker.events := by
  induction ms generalizing k with
  | nil => simp
  | cons m ms ih =>
    rw [List.mem_cons, not_or] at h
    obtain ⟨hp, he⟩ := apply_of_ne_flush (Ne.symm h.1) k
    obtain ⟨hps, hes⟩ := ih h.2 (k.apply m)
    rw [List.foldl_cons, List.foldl_cons, List.flatMap_cons, hps, hes, hp, he, List.append_assoc]
    exact ⟨rfl, rfl⟩

theorem foldl_apply_markers (s : Scanner) (c : Sym) (n : Option Sym) (k : Collector) :
    let m := s.moment n c
    let due := Marker.flush ∈ m.markers
    (m.markers.foldl apply k).pending =
        m.marks.foldl Pending.mark (if due then {} else k.pending) ∧
      (m.markers.foldl apply k).events.toList =
        k.events.toList ++
          (if due ∧ k.pending.text ≠ [] then [.flush (m.closing.foldl Pending.mark k.pending)]
          else []) ++ m.marks.flatMap Marker.events := by
  intro m due
  by_cases h : due
  · obtain ⟨rest, hm, hr, hn, hc⟩ := Scanner.Moment.markers_eq_of_flush h Scanner.nodup_markers
    have hw : m.closing.flatMap Marker.events = [] := by
      rcases Scanner.closing_of_flush h with ⟨-, hc, -⟩ | ⟨-, -, hc, -⟩ <;> rw [hc] <;> rfl
    obtain ⟨hp, he⟩ := foldl_apply hc k
    obtain ⟨hp', he'⟩ := foldl_apply hn ((m.closing.foldl apply k).apply .flush)
    have hf : m.markers.foldl apply k = rest.foldl apply ((m.closing.foldl apply k).apply .flush) := by
      rw [hm, List.foldl_append, List.foldl_cons]
    rw [hr, hf, hp', he']
    refine ⟨by simp [h, apply, flush, Pending.mark], ?_⟩
    simp only [apply, events_flush, he, hp, hw, Pending.text_foldl_mark, h, true_and, List.append_nil]
    split <;> simp_all [Marker.events]
  · obtain ⟨hp, he⟩ := foldl_apply h k
    have hm : m.marks = m.markers := if_neg h
    simp [h, hp, he, hm]

/-- Storing a symbol flushes when the pending text is full or a flush is due. -/
theorem events_store (k : Collector) (capacity : Int) (c : Sym) (due : Bool) :
    let q := k.pending.push c
    (k.store capacity c due).pending = (if q.isFull capacity ∨ due then {} else q) ∧
      (k.store capacity c due).events.toList = k.events.toList ++
        (if q.isFull capacity then [.full q.size] else []) ++
        (if q.isFull capacity ∨ due then [.flush q] else []) := by
  intro q
  have ht : q.text ≠ [] := by simp [q]
  unfold store
  by_cases hf : q.isFull capacity
  · simp only [q] at hf ht ⊢
    simp only [hf, if_true, true_or, events_flush]
    exact ⟨rfl, by simp [report]⟩
  · by_cases hd : due
    · simp only [q] at hf ht ⊢
      simp only [hf, hd, if_true, or_true, Bool.false_eq_true, if_false, events_flush]
      exact ⟨rfl, by simp⟩
    · simp [q] at hf ⊢
      simp [hf, hd]

end Collector

namespace Pass

theorem ext_toList {p q : Pass} (hs : p.scanner = q.scanner)
    (hp : p.collector.pending = q.collector.pending)
    (he : p.collector.events.toList = q.collector.events.toList) : p = q := by
  obtain ⟨s, pending, events⟩ := p
  obtain ⟨s', pending', events'⟩ := q
  obtain rfl : s = s' := hs
  obtain rfl : pending = pending' := hp
  obtain rfl : events = events' := Array.ext' he
  rfl

theorem events_step (p : Pass) (capacity : Int) (c : Sym) (n : Option Sym) :
    let m := p.scanner.moment n c
    let q := (m.marks.foldl Pending.mark
      (if .flush ∈ m.markers then {} else p.collector.pending)).push c
    let ends := q.isFull capacity ∨ .flushAfter ∈ m.markers
    (p.step capacity c n).scanner = m.after ∧
      (p.step capacity c n).collector.pending = (if ends then {} else q) ∧
      (p.step capacity c n).collector.events.toList =
        p.collector.events.toList ++
          (if .flush ∈ m.markers ∧ p.collector.pending.text ≠ [] then
            [.flush (m.closing.foldl Pending.mark p.collector.pending)] else []) ++
          m.events ++ (if q.isFull capacity then [.full q.size] else []) ++
          (if ends then [.flush q] else []) := by
  intro m q ends
  set k := if p.scanner.isStrayBrace c then p.collector.report .strayBrace else p.collector with hk
  have hkp : k.pending = p.collector.pending := by
    rw [hk]
    split <;> rfl
  have hke : k.events.toList = p.collector.events.toList ++
      if p.scanner.isStrayBrace c then [.strayBrace] else [] := by
    rw [hk]
    split <;> simp [Collector.report]
  obtain ⟨hp, he⟩ := Collector.foldl_apply_markers p.scanner c n k
  obtain ⟨hp', he'⟩ := Collector.events_store (m.markers.foldl .apply k) capacity c
    (m.markers.contains .flushAfter)
  rw [hkp] at hp he
  rw [hke] at he
  rw [hp] at hp' he'
  rw [he] at he'
  refine ⟨rfl, hp'.trans ?_, he'.trans ?_⟩
  · simp only [ends, q, m, List.contains_iff_mem]
  · simp only [ends, q, m, List.contains_iff_mem, Scanner.Moment.events, Scanner.moment_before,
      Scanner.moment_sym]
    by_cases hf : .flush ∈ (p.scanner.moment n c).markers
    · have hs : p.scanner.isStrayBrace c = false := Scanner.not_isStrayBrace_of_flush hf
      simp [hs]
    · simp only [hf, false_and, if_false, List.append_nil, List.append_assoc]
      congr!

end Pass

/-- Amid a passage, `done` is what was reported before it, and the moments read since are pending. -/
structure Collector.Amid (k : Collector) (done : List Event) (ms : List Moment) : Prop where
  pending : k.pending = ms.foldl .read {}
  events : k.events.toList = done ++ ms.flatMap Moment.events

namespace Collector.Amid

variable {capacity : Int} {start : Scanner} {recent : Text} {c : Sym} {n : Option Sym} {k : Collector}
  {done : List Event}

theorem text_pending (h : k.Amid done (start.momentsTo n recent)) : k.pending.text = recent := by
  simp [h.pending]

/-- A flush before the symbol ends the passage. The symbol is stored as if nothing had been pending. -/
theorem step_of_flush (h : k.Amid done (start.momentsTo (some c) recent)) (hl : recent.length < capacity)
    (hf : .flush ∈ ((start.runTo (some c) recent).step c n).2) :
    let s := start.runTo (some c) recent
    let ended : List Passage :=
      if recent = [] then [] else [⟨start, recent, some c, (s.moment n c).closing⟩]
    ∃ k' : Collector, k'.Amid (done ++ ended.flatMap (Passage.events capacity)) [] ∧
      Pass.step ⟨s, k⟩ capacity c n = Pass.step ⟨s, k'⟩ capacity c n := by
  intro s ended
  let k' : Collector := ⟨{}, (done ++ ended.flatMap (Passage.events capacity)).toArray⟩
  have hevents : done ++ ended.flatMap (Passage.events capacity) = k.events.toList ++
      if k.pending.text = [] then [] else [.flush ((s.moment n c).closing.foldl Pending.mark k.pending)] := by
    rw [h.text_pending, h.events, h.pending]
    by_cases hr : recent = []
    · simp [ended, hr]
    · simp [ended, hr, Passage.events, Passage.moments, Passage.pending, not_le.mpr hl]
  refine ⟨k', ⟨rfl, by simp [k']⟩, ?_⟩
  obtain ⟨hs, hp, he⟩ := Pass.events_step ⟨s, k⟩ capacity c n
  obtain ⟨hs', hp', he'⟩ := Pass.events_step ⟨s, k'⟩ capacity c n
  simp only [Scanner.moment_markers, s, hf, if_true, true_and, ne_eq, ite_not] at hp he hp' he'
  refine Pass.ext_toList (hs.trans hs'.symm) (hp.trans hp'.symm) (he.trans (Eq.trans ?_ he'.symm))
  rw [← hevents]
  simp [k']

/-- A symbol that no flush comes before, or that is the first one, joins the passage. -/
theorem step_of_joins (capacity : Int) (h : k.Amid done (start.momentsTo (some c) recent))
    (hf : .flush ∈ ((start.runTo (some c) recent).step c n).2 → recent = []) :
    let s := start.runTo (some c) recent
    let g : Passage := ⟨start, recent ++ [c], n, []⟩
    let p := Pass.step ⟨s, k⟩ capacity c n
    p.scanner = (s.step c n).1 ∧
      if capacity ≤ (recent ++ [c]).length ∨ .flushAfter ∈ (s.step c n).2 then
        p.collector.Amid (done ++ g.events capacity) []
      else p.collector.Amid done g.moments := by
  intro s g p
  obtain ⟨hs, hp, he⟩ := Pass.events_step ⟨s, k⟩ capacity c n
  have hpending : (if .flush ∈ (s.moment n c).markers then {} else k.pending) = k.pending := by
    split
    · next hflush => simp [h.pending, hf hflush]
    · rfl
  have hnone : ¬ (.flush ∈ (s.moment n c).markers ∧ k.pending.text ≠ []) := by
    rw [h.text_pending]
    exact fun hflush => hflush.2 (hf hflush.1)
  have hmoments : g.moments = start.momentsTo (some c) recent ++ [s.moment n c] :=
    Scanner.momentsTo_concat recent c
  have hread : ((s.moment n c).marks.foldl Pending.mark k.pending).push c = g.moments.foldl .read {} := by
    rw [hmoments, List.foldl_append, ← h.pending]
    rfl
  have hsize : (g.moments.foldl Pending.read {}).size = (recent ++ [c]).length := by
    rw [Pending.size_eq_length, Pending.text_foldl_read, Passage.map_sym_moments]
    rfl
  have hevents : k.events.toList ++ (s.moment n c).events = done ++ g.moments.flatMap Moment.events := by
    rw [hmoments, h.events, List.flatMap_append]
    simp
  simp only [hpending, hread, Pending.isFull, hsize, decide_eq_true_eq] at hp he
  rw [if_neg hnone, List.append_nil, hevents] at he
  refine ⟨hs, ?_⟩
  by_cases hends : capacity ≤ (recent ++ [c]).length ∨ .flushAfter ∈ (s.step c n).2
  · rw [Scanner.moment_markers, if_pos hends] at hp he
    rw [if_pos hends]
    refine ⟨hp, he.trans ?_⟩
    simp [Passage.events, Passage.pending, g]
  · rw [Scanner.moment_markers, if_neg hends] at hp he
    rw [if_neg hends]
    refine ⟨hp, he.trans ?_⟩
    rw [if_neg fun hfull => hends (.inl hfull), List.append_nil, List.append_nil]

end Collector.Amid

/-- From a point amid a passage on, the rest of a text is reported as its passages. -/
theorem Pass.events_run (capacity : Int) (t : Text) (start : Scanner) (recent : Text) {k : Collector}
    {done : List Event} (h : k.Amid done (start.momentsTo t.head? recent))
    (hl : recent.length < capacity) :
    (run capacity ⟨start.runTo t.head? recent, k⟩ t).collector.flush.events.toList =
      done ++ (passages (fun l => capacity ≤ l) start recent (start.runTo t.head? recent) t).flatMap
        (Passage.events capacity) := by
  induction t generalizing start recent k done with
  | nil =>
    simp only [run, Collector.events_flush, h.text_pending, h.events, passages]
    by_cases hr : recent = []
    · simp [hr]
    · simp [hr, Passage.events, Passage.moments, Passage.pending, h.pending, not_le.mpr hl]
  | cons c rest ih =>
    have joins (start : Scanner) (recent : Text) {k : Collector} {done : List Event}
        (h : k.Amid done (start.momentsTo (some c) recent))
        (hf : .flush ∈ ((start.runTo (some c) recent).step c rest.head?).2 → recent = []) :
        (run capacity ⟨start.runTo (some c) recent, k⟩ (c :: rest)).collector.flush.events.toList =
          done ++ (passages (fun l => capacity ≤ l) start recent (start.runTo (some c) recent)
            (c :: rest)).flatMap (Passage.events capacity) := by
      obtain ⟨hs, hk⟩ := h.step_of_joins capacity hf
      have hrule : .flush ∈ ((start.runTo (some c) recent).step c rest.head?).2 →
          recent = [] ∧ start = start.runTo (some c) recent := by
        intro hflush
        obtain rfl := hf hflush
        exact ⟨rfl, rfl⟩
      rw [run, passages_of_joins hrule]
      simp only [decide_eq_true_eq]
      generalize step ⟨start.runTo (some c) recent, k⟩ capacity c rest.head? = p at hs hk
      obtain ⟨s, k'⟩ := p
      obtain rfl : s = _ := hs
      split at hk
      · next hends =>
        rw [if_pos hends, List.flatMap_cons, ← List.append_assoc]
        exact ih _ [] hk (by simp; omega)
      · next hends =>
        rw [if_neg hends, ← Scanner.runTo_concat]
        exact ih start (recent ++ [c]) hk (by omega)
    -- A flush before the symbol leaves nothing pending, so the symbol is the first of a passage.
    by_cases hf : .flush ∈ ((start.runTo (some c) recent).step c rest.head?).2
    · obtain ⟨k', hk', hstep⟩ := h.step_of_flush hl hf
      have hrun := joins (start.runTo (some c) recent) [] hk' fun _ => rfl
      rw [Scanner.runTo_nil, run, ← hstep] at hrun
      rw [List.head?_cons, passages_of_flush hf, List.flatMap_append, ← List.append_assoc, ← hrun, run]
    · exact joins start recent h fun hflush => absurd hflush hf

/-- Reading a text reports its passages, one after the other. -/
theorem events_eq {capacity : Int} (hc : 0 < capacity) (t : Text) :
    events capacity t =
      (passages (fun l => capacity ≤ l) {} [] {} t).flatMap (Passage.events capacity) := by
  have h : Collector.Amid {} [] [] := ⟨rfl, rfl⟩
  exact Pass.events_run capacity t {} [] h hc

/-- What is flushed are the pending texts of the passages. -/
theorem flush_mem_events_iff {capacity : Int} (hc : 0 < capacity) {t : Text} {p : Pending} :
    .flush p ∈ events capacity t ↔
      ∃ g ∈ passages (fun l => capacity ≤ l) {} [] {} t, g.pending = p := by
  rw [events_eq hc, List.mem_flatMap]
  refine exists_congr fun g => and_congr_right fun _ => ⟨fun hp => ?_, ?_⟩
  · simp only [Passage.events, List.mem_append, List.mem_flatMap, List.mem_singleton] at hp
    rcases hp with (⟨m, -, hm⟩ | hp) | hp
    · rcases Moment.mem_events hm with h | h <;> contradiction
    · split at hp <;> simp at hp
    · exact (Event.flush.inj hp).symm
  · rintro rfl
    simp [Passage.events]

/-- A capacity that the text cannot reach has no effect. -/
theorem passages_congr {full full' : Nat → Bool} {start : Scanner} {recent : Text} {s : Scanner}
    {t : Text} (h : ∀ l ≤ recent.length + t.length, full l = full' l) :
    passages full start recent s t = passages full' start recent s t := by
  induction t generalizing start recent s with
  | nil => rfl
  | cons c rest ih =>
    simp only [List.length_cons] at h
    have hl (hf : Prop) [Decidable hf] :
        (if hf then [c] else recent ++ [c]).length ≤ recent.length + 1 := by
      split <;> simp
    simp only [passages]
    rw [h _ (by have := hl (Marker.flush ∈ (s.moment rest.head? c).markers); omega),
      ih fun l hle => h l (by simp at hle; omega),
      ih fun l hle => h l (by
        have := hl (Marker.flush ∈ (s.moment rest.head? c).markers); omega)]

end DocBlock
