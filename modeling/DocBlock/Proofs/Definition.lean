import Mathlib
import DocBlock.Proofs.Code
import DocBlock.Proofs.FunctionPassage
import DocBlock.Proofs.Trace

/-! Function definitions outside bodies are recognised. Each part of a definition gives the markers that
belong to it and takes the scanner to where the next part starts, so the pending text of a definition
has exactly its parts marked. -/

namespace DocBlock

open Text (ofString)
open Scanner (Moment)

/-- The symbol has no meaning of its own where code is read, but for blanks. -/
def Sym.isOrdinary (c : Sym) : Bool := !(ofString "\\/#'\"()\x7b\x7d;").contains c

/-- No parenthesis is closed before it is opened, and all are closed in the end. -/
def Balanced (t : Text) : Prop :=
  (∀ u ∈ t.inits, u.count (.char ')') ≤ u.count (.char '(')) ∧ t.count (.char ')') = t.count (.char '(')
  deriving Decidable

/-- The comment before a definition, if any, with the blanks between them. -/
inductive Lead : Text → Text → Prop
  | none (gap : Text) : Lead [] gap
  | block (inside : Text) (h : ¬ closer <:+: inside) (gap : Text) :
    Lead (ofString "/*" ++ inside ++ ofString "*/") gap
  | line (inside : Text) (h : ∀ c ∈ inside, c.isNewline = false) {c : Sym} (hc : c.isNewline = true)
    (gap : Text) : Lead (ofString "//" ++ inside) (c :: gap)

/-- The parts of a function definition. -/
structure Definition where
  lead : Text
  gap : Text
  declarator : Text
  parameters : Text
  trail : Text
  body : Text

namespace Definition

/-- All up to the brace that opens the body. -/
def head (d : Definition) : Text :=
  d.lead ++ d.gap ++ d.declarator ++ [Sym.char '('] ++ d.parameters ++ [Sym.char ')'] ++ d.trail ++ [Sym.char '{']

/-- The body behind its first brace. -/
def tail (d : Definition) : Text := d.body ++ [Sym.char '}']

def text (d : Definition) : Text := d.head ++ d.tail

structure WellFormed (d : Definition) : Prop where
  lead : Lead d.lead d.gap
  gap : ∀ c ∈ d.gap, c.isBlank = true
  declarator_start : ∃ c ∈ d.declarator.head?, c.isBlank = false
  declarator : ∀ c ∈ d.declarator, c.isOrdinary = true
  parameters : ∀ c ∈ d.parameters, c.isOrdinary = true ∨ c = .char '(' ∨ c = .char ')'
  balanced : Balanced d.parameters
  trail : ∀ c ∈ d.trail, c.isOrdinary = true

/-- Read behind what comes before it, the body is first left with its last symbol. -/
def Encloses (d : Definition) (s : Scanner) : Prop :=
  let ms := (s.runTo d.tail.head? d.head).moments d.tail
  (∀ m ∈ ms.dropLast, m.after.braces ≠ 0) ∧ ∀ m ∈ ms.getLast?, m.after.braces = 0
  deriving Decidable

end Definition

namespace Scanner

/-- Code is read outside bodies and behind the header, with `k` parentheses open; the flag says that no
declaration is in progress. -/
structure Outside (between : Bool) (k : Int) (s : Scanner) : Prop where
  mode : s.mode = .normal
  braces : s.braces = 0
  parens : s.parens = k
  between : s.between = between
  fileStart : s.fileStart = false
  headerComment : s.headerComment = false

theorem isSpecial_of_isOrdinary {c : Sym} (h : c.isOrdinary = true) : isSpecial c = c.isNewline := by
  have hc : ∀ x ∈ ofString "\\/#'\"()\x7b\x7d;", c ≠ x := by
    rintro x hx rfl
    simp [Sym.isOrdinary, hx] at h
  have ht : ofString "\\/#'\"()\x7b\x7d;" = [.char '\\', .char '/', .char '#', .char '\'', .char '"',
    .char '(', .char ')', .char '{', .char '}', .char ';'] := by decide
  rw [ht] at hc
  simp only [List.forall_mem_cons] at hc
  simp [isSpecial, hc]

section Outside

variable {s : Scanner} {c : Sym} {n : Option Sym} {b : Bool} {k : Int}

/-- A step that stays in the same mode and flushes nothing. -/
theorem Outside.step (h : Outside b k s) {s' : Scanner} {ms : List Marker}
    (hstep : s.stepNormal c n = (s', ms)) (hf : .flush ∉ ms) (ha : .flushAfter ∉ ms)
    (hm : s'.mode = .normal) (hb : s'.braces = 0) :
    (s.step c n).2 = ms ∧ Outside s'.between s'.parens (s.step c n).1 := by
  have hmode : s.stepMode c n = (s', ms) := by simp only [stepMode, h.mode, hstep]
  have hmarkers : (s.step c n).2 = ms := by
    simp [step_markers, hmode, headMarkers, h.fileStart]
  refine ⟨hmarkers, ?_, ?_, ?_, ?_, ?_, ?_⟩
  · rw [step_mode, hmode, hm]
  · rw [step_braces, hmode, hb]
  · rw [step_parens, hmode]
  · rw [Bool.eq_iff_iff, step_between, hmarkers, hmode]
    simp [hf, ha]
  · exact step_headless h.headerComment h.fileStart |>.2
  · exact step_headless h.headerComment h.fileStart |>.1

/-- Blanks change nothing. -/
theorem Outside.step_blank (h : Outside b k s) (hc : c.isBlank = true) :
    (s.step c n).2 = [] ∧ Outside b k (s.step c n).1 := by
  have := h.step (stepNormal_blank (n := n) hc) (by simp) (by simp) (by split <;> exact h.mode)
    (by split <;> exact h.braces)
  rwa [show (if c.isNewline then { s with lineStart := true } else s).between = b by
      split <;> exact h.between,
    show (if c.isNewline then { s with lineStart := true } else s).parens = k by
      split <;> exact h.parens] at this

/-- Once a declaration is in progress, words change nothing. -/
theorem Outside.step_ordinary (h : Outside false k s) (hc : c.isOrdinary = true) :
    (s.step c n).2 = [] ∧ Outside false k (s.step c n).1 := by
  by_cases hb : c.isBlank = true
  · exact h.step_blank hb
  · have hl : isSpecial c = c.isNewline := isSpecial_of_isOrdinary hc
    rw [Sym.isNewline_of_not_blank (by simpa using hb)] at hl
    simp only [isSpecial, Bool.or_eq_false_iff, decide_eq_false_iff_not] at hl
    have hs : s.stepNormal c n = (s, []) := by simp [stepNormal, hl, h.between]
    have := h.step hs (by simp) (by simp) h.mode h.braces
    rwa [h.between, h.parens] at this

/-- A word starts a declaration. -/
theorem Outside.step_start (h : Outside true k s) (hc : c.isOrdinary = true) (hb : c.isBlank = false) :
    (s.step c n).2 = [.functionStart] ∧ Outside false k (s.step c n).1 := by
  have hl : isSpecial c = c.isNewline := isSpecial_of_isOrdinary hc
  rw [Sym.isNewline_of_not_blank hb] at hl
  simp only [isSpecial, Bool.or_eq_false_iff, decide_eq_false_iff_not] at hl
  have hs : s.stepNormal c n = ({ s with between := false }, [.functionStart]) := by
    simp [stepNormal, hl, h.between, hb, h.braces]
  have := h.step hs (by simp) (by simp) h.mode h.braces
  rwa [show ({ s with between := false } : Scanner).parens = k from h.parens] at this

theorem Outside.step_open (h : Outside b k s) :
    (s.step (.char '(') n).2 = (if k = 0 then [.parametersStart] else []) ∧
      Outside b (k + 1) (s.step (.char '(') n).1 := by
  have hs : s.stepNormal (.char '(') n =
      ({ s with parens := k + 1 }, if k = 0 then [.parametersStart] else []) := by
    simp [stepNormal, h.braces, h.parens]
  have := h.step hs (by split <;> simp) (by split <;> simp) h.mode h.braces
  rwa [show ({ s with parens := k + 1 } : Scanner).between = b from h.between] at this

theorem Outside.step_close (h : Outside b k s) (hk : 0 < k) :
    (s.step (.char ')') n).2 = (if k = 1 then [.parametersEnd] else []) ∧
      Outside b (k - 1) (s.step (.char ')') n).1 := by
  have hs : s.stepNormal (.char ')') n =
      ({ s with parens := k - 1 }, if k = 1 then [.parametersEnd] else []) := by
    simp [stepNormal, h.braces, h.parens, hk]
  have := h.step hs (by split <;> simp) (by split <;> simp) h.mode h.braces
  rwa [show ({ s with parens := k - 1 } : Scanner).between = b from h.between] at this

/-- What each step keeps, without any marker, a whole text keeps. -/
theorem run_still {P : Scanner → Prop} {t : Text}
    (step : ∀ s n, ∀ c ∈ t, P s → (s.step c n).2 = [] ∧ P (s.step c n).1) (hs : P s) :
    (∀ m ∈ s.momentsTo n t, m.markers = []) ∧ P (s.runTo n t) := by
  induction t generalizing s with
  | nil => exact ⟨by simp, hs⟩
  | cons c rest ih =>
    obtain ⟨hm, hP⟩ := step s (rest.head?.or n) c (by simp) hs
    obtain ⟨hms, hrun⟩ := ih (fun s n c hc => step s n c (by simp [hc])) hP
    rw [momentsTo_cons, List.forall_mem_cons]
    exact ⟨⟨hm, hms⟩, hrun⟩

theorem Outside.run_blank (h : Outside b k s) {t : Text} (ht : ∀ c ∈ t, c.isBlank = true) :
    (∀ m ∈ s.momentsTo n t, m.markers = []) ∧ Outside b k (s.runTo n t) :=
  run_still (fun _ _ c hc hs => hs.step_blank (ht c hc)) h

theorem Outside.run_ordinary (h : Outside false k s) {t : Text} (ht : ∀ c ∈ t, c.isOrdinary = true) :
    (∀ m ∈ s.momentsTo n t, m.markers = []) ∧ Outside false k (s.runTo n t) :=
  run_still (fun _ _ c hc hs => hs.step_ordinary (ht c hc)) h

/-- Within a parameter list, parentheses are counted; the list does not end as long as those closed in
it were opened in it. -/
theorem Outside.run_parameters (h : Outside false k s) (hk : 0 < k) {t : Text}
    (ht : ∀ c ∈ t, c.isOrdinary = true ∨ c = .char '(' ∨ c = .char ')')
    (hb : ∀ u ∈ t.inits, (u.count (.char ')') : Int) < u.count (.char '(') + k) :
    (∀ m ∈ s.momentsTo n t, m.markers = []) ∧
      Outside false (k + t.count (.char '(') - t.count (.char ')')) (s.runTo n t) := by
  induction t generalizing s k with
  | nil => simpa using h
  | cons c rest ih =>
    rw [List.forall_mem_cons] at ht
    have hprefix : ∀ u ∈ rest.inits,
        ((c :: u).count (.char ')') : Int) < (c :: u).count (.char '(') + k := by
      intro u hu
      exact hb _ (by simpa using hu)
    rw [momentsTo_cons, List.forall_mem_cons, runTo_cons]
    rcases ht.1 with hc | rfl | rfl
    · obtain ⟨hm, hs⟩ := h.step_ordinary (n := rest.head?.or n) hc
      have hne : c ≠ .char '(' ∧ c ≠ .char ')' := by
        constructor <;> rintro rfl <;> exact absurd hc (by decide)
      simp only [List.count_cons_of_ne hne.1, List.count_cons_of_ne hne.2] at hprefix ⊢
      obtain ⟨hms, hrun⟩ := ih hs hk ht.2 hprefix
      exact ⟨⟨hm, hms⟩, hrun⟩
    · obtain ⟨hm, hs⟩ := h.step_open (n := rest.head?.or n)
      rw [if_neg (by omega)] at hm
      have hne : Sym.char '(' ≠ .char ')' := by decide
      simp only [List.count_cons_self, List.count_cons_of_ne hne] at hprefix ⊢
      obtain ⟨hms, hrun⟩ := ih hs (by omega) ht.2 fun u hu => by
        have := hprefix u hu
        omega
      have hsum : k + 1 + (rest.count (.char '(') : Int) - rest.count (.char ')') =
          k + (rest.count (.char '(') + 1 : Nat) - rest.count (.char ')') := by omega
      rw [hsum] at hrun
      exact ⟨⟨hm, hms⟩, hrun⟩
    · have hne : Sym.char ')' ≠ .char '(' := by decide
      simp only [List.count_cons_self, List.count_cons_of_ne hne] at hprefix ⊢
      have hk' : 1 < k := by
        have := hprefix [] (by simp)
        simpa using this
      obtain ⟨hm, hs⟩ := h.step_close (n := rest.head?.or n) hk
      rw [if_neg (by omega)] at hm
      obtain ⟨hms, hrun⟩ := ih hs (by omega) ht.2 fun u hu => by
        have := hprefix u hu
        omega
      have hsum : k - 1 + (rest.count (.char '(') : Int) - rest.count (.char ')') =
          k + rest.count (.char '(') - (rest.count (.char ')') + 1 : Nat) := by omega
      rw [hsum] at hrun
      exact ⟨⟨hm, hms⟩, hrun⟩

end Outside

end Scanner

/-! What is pending while a definition is read. -/

/-- The four stretches that are marked in pending text. -/
structure Extents where
  function : Extent := {}
  parameters : Extent := {}
  body : Extent := {}
  description : Extent := {}
  deriving DecidableEq

/-- What a marker does to the stretches, `size` symbols into the text. -/
def Extents.mark (size : Nat) (e : Extents) : Marker → Extents
  | .descriptionStart => { e with description := e.description.openAt size }
  | .descriptionEnd => { e with description := e.description.closeAt size }
  | .descriptionEndAfter => { e with description := e.description.closeAt (size + 1) }
  | .descriptionDiscard => { e with description := {} }
  | .functionStart => { e with function := e.function.openAt size }
  | .parametersStart =>
    { e with function := e.function.closeAt size, parameters := e.parameters.openAt size }
  | .parametersEnd => { e with parameters := e.parameters.closeAt (size + 1) }
  | .bodyStart => { e with body := e.body.openAt size }
  | .bodyEnd => { e with body := e.body.closeAt (size + 1) }
  | _ => e

/-- The marker belongs to a comment or a statement in a body. -/
def Marker.IsInner (x : Marker) : Prop :=
  x = .commentStart ∨ x = .commentEnd ∨ x = .statementStart ∨ x = .statementEnd

theorem Extents.mark_of_isInner {x : Marker} (h : x.IsInner) (size : Nat) (e : Extents) :
    e.mark size x = e := by
  rcases h with rfl | rfl | rfl | rfl <;> rfl

namespace Pending

def extents (p : Pending) : Extents := ⟨p.function, p.parameters, p.body, p.description⟩

theorem extents_mark (p : Pending) (x : Marker) : (p.mark x).extents = p.extents.mark p.size x := by
  cases x
  case commentEnd =>
    obtain ⟨_, _, h⟩ := p.endComment_eq
    simp [mark, h, extents, Extents.mark]
  case statementEnd =>
    obtain ⟨_, h⟩ := p.endStatement_eq
    simp [mark, h, extents, Extents.mark]
  all_goals rfl

theorem extents_foldl_mark (l : List Marker) (p : Pending) :
    (l.foldl mark p).extents = l.foldl (Extents.mark p.size) p.extents := by
  induction l generalizing p with
  | nil => rfl
  | cons x l ih =>
    have hsize : (p.mark x).size = p.size := by simp [size]
    rw [List.foldl_cons, List.foldl_cons, ih, extents_mark, hsize]

/-- The pending text and what is marked in it, which is no header. -/
structure Shows (p : Pending) (t : Text) (e : Extents) : Prop where
  text : p.text = t
  extents : p.extents = e
  fileComment : p.fileComment = false

theorem Shows.read {p : Pending} {t : Text} {e : Extents} (h : p.Shows t e) {l : List Marker}
    (hl : .fileComment ∉ l) (c : Sym) :
    ((l.foldl mark p).push c).Shows (t ++ [c]) (l.foldl (Extents.mark t.length) e) where
  text := by rw [text_push, text_foldl_mark, h.text]
  extents := by
    change (l.foldl mark p).extents = _
    rw [extents_foldl_mark, h.extents, size_eq_length, h.text]
  fileComment := by
    change (l.foldl mark p).fileComment = false
    rw [Bool.eq_false_iff, Ne, fileComment_foldl_mark]
    simp [hl, h.fileComment]

end Pending

namespace Pass

variable {capacity : Int} {p : Pass} {n : Option Sym} {c : Sym} {t : Text} {e : Extents}

theorem traceTo_append (p : Pass) (n : Option Sym) (a b : Text) :
    traceTo capacity n p (a ++ b) =
      traceTo capacity (b.head?.or n) p a ++
        traceTo capacity n (runTo capacity (b.head?.or n) p a) b := by
  induction a generalizing p with
  | nil => rfl
  | cons c rest ih =>
    simp only [List.cons_append, traceTo, runTo, List.head?_append, Option.or_assoc, ih]

/-- Reading the text, which `n` follows, has reported nothing and leaves it pending as a whole. -/
structure Reached (capacity : Int) (p : Pass) (n : Option Sym) (t : Text) (e : Extents) : Prop where
  trace : traceTo capacity n p t = List.replicate t.length []
  shows : (runTo capacity n p t).collector.pending.Shows t e
  events : (runTo capacity n p t).collector.events = #[]

theorem Reached.nil (s : Scanner) (n : Option Sym) : Reached capacity ⟨s, {}⟩ n [] {} where
  trace := rfl
  shows := ⟨rfl, rfl, rfl⟩
  events := rfl

/-- One more symbol is read, before which nothing but maybe the empty text is flushed. -/
theorem Reached.next (h : Reached capacity p (some c) t e)
    (hh : (p.scanner.runTo (some c) t).headerComment = false)
    (hs : (p.scanner.runTo (some c) t).fileStart = false) {ms : List Marker}
    (hms : ((p.scanner.runTo (some c) t).step c n).2 = ms) (hf : .flush ∈ ms → t = [] ∧ e = {})
    (hb : (p.scanner.runTo (some c) t).isStrayBrace c = false) (hc : t.length + 1 < capacity) :
    ∃ q : Pending, q.Shows (t ++ [c]) (ms.foldl (Extents.mark t.length) e) ∧
      ((runTo capacity (some c) p t).step capacity c n).collector.pending =
        (if .flushAfter ∈ ms then {} else q) ∧
      ((runTo capacity (some c) p t).step capacity c n).collector.events.toList =
        (if .flushAfter ∈ ms then [.flush q] else []) := by
  set p' := runTo capacity (some c) p t with hp'
  have hscan : p'.scanner = p.scanner.runTo (some c) t := scanner_runTo _ _ _
  rw [← hscan] at hh hs hms hb
  set m := p'.scanner.moment n c with hm
  have hmarkers : m.markers = ms := hms
  have hmarks : m.marks = ms := (Scanner.marks_of_headless hh).trans hms
  have hheader : .fileHeader ∉ ms ∧ .fileComment ∉ ms := by
    rw [← hms, Scanner.mem_step_iff, Scanner.mem_step_iff]
    simp [Scanner.Due, hs]
  have hevents : m.events = [] := by
    have hnone : ms.flatMap Marker.events = [] := by
      rw [List.flatMap_eq_nil_iff]
      intro x hx
      cases x <;> first | rfl | exact absurd hx hheader.1
    rw [Scanner.Moment.events, hmarks, hnone]
    simp [hm, hb]
  obtain ⟨-, hp, he⟩ := p'.events_step capacity c n
  rw [← hm, hmarkers, hmarks] at hp he
  -- A flush finds nothing pending, so the text goes on as if there had been none.
  have hshows : (if .flush ∈ ms then {} else p'.collector.pending : Pending).Shows t e := by
    split
    · next hflush =>
      obtain ⟨rfl, rfl⟩ := hf hflush
      exact ⟨rfl, rfl, rfl⟩
    · exact h.shows
  have hread := hshows.read hheader.2 c
  have hfull : Pending.isFull ((ms.foldl Pending.mark
      (if .flush ∈ ms then {} else p'.collector.pending)).push c) capacity = false := by
    rw [Pending.isFull, Pending.size_eq_length, hread.text]
    simp
    omega
  have hbefore : ¬ (.flush ∈ ms ∧ p'.collector.pending.text ≠ []) := by
    rintro ⟨hflush, hne⟩
    obtain ⟨rfl, -⟩ := hf hflush
    exact hne h.shows.text
  rw [hfull] at hp he
  rw [if_neg hbefore, h.events, hevents] at he
  simp only [Bool.false_eq_true, false_or, if_false, List.append_nil, List.nil_append] at hp he
  exact ⟨_, hread, hp, he⟩

theorem Reached.step (h : Reached capacity p (some c) t e)
    (hh : (p.scanner.runTo (some c) t).headerComment = false)
    (hs : (p.scanner.runTo (some c) t).fileStart = false) {ms : List Marker}
    (hms : ((p.scanner.runTo (some c) t).step c n).2 = ms)
    (hf : .flush ∈ ms → t = [] ∧ e = {}) (ha : .flushAfter ∉ ms) (hc : t.length + 1 < capacity) :
    Reached capacity p n (t ++ [c]) (ms.foldl (Extents.mark t.length) e) := by
  have hstray : (p.scanner.runTo (some c) t).isStrayBrace c = false := by
    by_contra hb
    simp only [Scanner.isStrayBrace, Bool.not_eq_false, Bool.and_eq_true, decide_eq_true_eq] at hb
    apply ha
    rw [← hms, Scanner.mem_step_iff]
    exact .inl ⟨hb.1.1, .inl ⟨hb.1.2, .inl hb.2⟩⟩
  obtain ⟨q, hq, hp, he⟩ := h.next hh hs hms hf hstray hc
  rw [if_neg ha] at hp he
  refine ⟨?_, ?_, ?_⟩
  · rw [traceTo_append]
    change traceTo capacity (some c) p t ++
      [((runTo capacity (some c) p t).step capacity c n).collector.events.toList] = _
    rw [h.trace, he, List.length_append, List.replicate_add]
    rfl
  · rw [Pass.runTo_concat, pending_drained, hp]
    exact hq
  · rw [Pass.runTo_concat]
    rfl

/-- The symbol ends the text that is pending. -/
theorem Reached.flush (h : Reached capacity p (some c) t e)
    (hh : (p.scanner.runTo (some c) t).headerComment = false)
    (hs : (p.scanner.runTo (some c) t).fileStart = false) {ms : List Marker}
    (hms : ((p.scanner.runTo (some c) t).step c n).2 = ms) (hf : .flush ∉ ms) (ha : .flushAfter ∈ ms)
    (hb : (p.scanner.runTo (some c) t).isStrayBrace c = false) (hc : t.length + 1 < capacity) :
    ∃ q : Pending, q.Shows (t ++ [c]) (ms.foldl (Extents.mark t.length) e) ∧
      traceTo capacity n p (t ++ [c]) = List.replicate t.length [] ++ [[Event.flush q]] := by
  obtain ⟨q, hq, -, he⟩ := h.next hh hs hms (fun hflush => absurd hflush hf) hb hc
  rw [if_pos ha] at he
  refine ⟨q, hq, ?_⟩
  rw [traceTo_append]
  change traceTo capacity (some c) p t ++
    [((runTo capacity (some c) p t).step capacity c n).collector.events.toList] = _
  rw [h.trace, he]

/-- More text is read that has no markers but those of a body. -/
theorem Reached.append {b : Text} (h : Reached capacity p (b.head?.or n) t e)
    (hh : (p.scanner.runTo (b.head?.or n) t).headerComment = false)
    (hs : (p.scanner.runTo (b.head?.or n) t).fileStart = false)
    (hms : ∀ m ∈ (p.scanner.runTo (b.head?.or n) t).momentsTo n b, ∀ x ∈ m.markers, x.IsInner)
    (hc : t.length + b.length < capacity) : Reached capacity p n (t ++ b) e := by
  induction b generalizing t with
  | nil => simpa using h
  | cons c rest ih =>
    rw [Scanner.momentsTo_cons, List.forall_mem_cons] at hms
    simp only [List.head?_cons, Option.some_or] at h hh hs hms
    rw [List.length_cons] at hc
    have hstill : ∀ x ∈ ((p.scanner.runTo (some c) t).step c (rest.head?.or n)).2, x.IsInner := hms.1
    have hfold : ∀ l : List Marker, (∀ x ∈ l, x.IsInner) → l.foldl (Extents.mark t.length) e = e := by
      intro l hl
      induction l with
      | nil => rfl
      | cons x l ihl =>
        rw [List.forall_mem_cons] at hl
        rw [List.foldl_cons, Extents.mark_of_isInner hl.1, ihl hl.2]
    have hnext := h.step hh hs rfl (fun hf => by simpa [Marker.IsInner] using hstill _ hf)
      (fun ha => by simpa [Marker.IsInner] using hstill _ ha) (by omega)
    rw [hfold _ hstill] at hnext
    have hrun : p.scanner.runTo (rest.head?.or n) (t ++ [c]) =
        ((p.scanner.runTo (some c) t).step c (rest.head?.or n)).1 := Scanner.runTo_concat t c
    obtain ⟨hh', hs'⟩ := Scanner.step_headless (c := c) (n := rest.head?.or n) hh hs
    have := ih hnext (by rw [hrun]; exact hh') (by rw [hrun]; exact hs') (by rw [hrun]; exact hms.2)
      (by rw [List.length_append, List.length_singleton]; omega)
    rwa [List.append_assoc] at this

end Pass

/-! The comment before a definition. -/

namespace Scanner

variable {s : Scanner} {k : Int}

/-- A comment of either kind opens. -/
theorem Outside.step_opensComment (h : Outside true k s) {n : Option Sym} (hn : opensComment n = true) :
    s.step (.char '/') n =
      ({ s with
          mode := if n = some (.char '*') then .blockComment else .lineComment
          resume := .normal, opening := true, star := false, lineStart := false },
        [.flush, .descriptionStart]) := by
  have hmode : s.stepMode (.char '/') n = s.enterComment n := stepMode_of_opensComment ⟨.inl h.mode, rfl, hn⟩
  have hblank : Sym.isBlank '/' = false := by decide
  simp [Scanner.step, hmode, enterComment, h.braces, headMarkers, h.fileStart, hblank, h.headerComment, h.mode,
    h.between]

theorem Outside.scan_block (h : Outside true k s) {inside : Text} (hb : ¬ closer <:+: inside)
    (n : Option Sym) :
    let s₁ := (s.step (.char '/') (some (.char '*'))).1
    let s₂ := s₁.runTo (some (.char '/')) (.char '*' :: (inside ++ [Sym.char '*']))
    (∀ m ∈ s₁.momentsTo (some (.char '/')) (.char '*' :: (inside ++ [Sym.char '*'])), m.markers = []) ∧
      (s₂.step (.char '/') n).2 = [.descriptionEndAfter] ∧ Outside true k (s₂.step (.char '/') n).1 := by
  intro s₁ s₂
  let inBlock : Scanner := { s with
    mode := .blockComment, resume := .normal, opening := false, star := false, lineStart := false }
  have hopen : ∀ n, s₁.step (.char '*') n = (inBlock, []) := by
    intro n
    simp only [s₁]
    rw [h.step_opensComment (by decide)]
    simp [Scanner.step, stepMode, stepBlockComment, headMarkers, h.fileStart, h.headerComment, inBlock]
  have hclose : ¬ closer <:+: inside ++ [Sym.char '*'] :=
    not_closer_append hb (by decide) (.inr (by simp))
  obtain ⟨hrun, hall⟩ := momentsTo_inBlock (s := inBlock) (n := some (.char '/'))
    (inside ++ [Sym.char '*']) rfl rfl h.fileStart rfl hclose
  have h₂ : s₂ = { inBlock with star := true } := by
    simp only [s₂]
    rw [runTo_cons, hopen, hrun]
    simp
  have hlast : s₂.step (.char '/') n =
      ({ s with resume := .normal, opening := false, star := false, lineStart := false },
        [.descriptionEndAfter]) := by
    simp [Scanner.step, stepMode, stepBlockComment, headMarkers, h₂, inBlock, h.fileStart,
      h.headerComment, h.braces, h.mode, h.between]
  refine ⟨?_, by rw [hlast], ?_⟩
  · rw [momentsTo_cons, List.forall_mem_cons, hopen]
    exact ⟨by rw [moment_markers, hopen], fun m hm => (hall m hm).1⟩
  · rw [hlast]
    exact ⟨h.mode, h.braces, h.parens, h.between, h.fileStart, h.headerComment⟩

theorem Outside.scan_line (h : Outside true k s) {inside : Text}
    (hi : ∀ c ∈ inside, c.isNewline = false) {c : Sym} (hc : c.isNewline = true) (n : Option Sym) :
    let s₁ := (s.step (.char '/') (some (.char '/'))).1
    let s₂ := s₁.runTo (some c) (.char '/' :: inside)
    (∀ m ∈ s₁.momentsTo (some c) (.char '/' :: inside), m.markers = []) ∧
      (s₂.step c n).2 = [.descriptionEnd] ∧ Outside true k (s₂.step c n).1 := by
  intro s₁ s₂
  let inLine : Scanner := { s with
    mode := .lineComment, resume := .normal, opening := false, star := false, lineStart := false }
  have hopen : ∀ n, s₁.step (.char '/') n = (inLine, []) := by
    intro n
    simp only [s₁]
    rw [h.step_opensComment (by decide)]
    simp [Scanner.step, stepMode, stepLineComment, headMarkers, h.fileStart, h.headerComment, inLine]
  have hstill : ∀ s n, ∀ d ∈ inside, s = inLine → (s.step d n).2 = [] ∧ (s.step d n).1 = inLine := by
    rintro s n d hd rfl
    simp [Scanner.step, stepMode, stepLineComment, hi d hd, headMarkers, inLine, h.fileStart,
      h.headerComment]
  obtain ⟨hall, hrun⟩ := run_still (n := some c) hstill rfl
  have h₂ : s₂ = inLine := by
    simp only [s₂]
    rw [runTo_cons, hopen, hrun]
  have hlast : s₂.step c n =
      ({ s with resume := .normal, opening := false, star := false, lineStart := true },
        [.descriptionEnd]) := by
    simp [Scanner.step, stepMode, stepLineComment, hc, headMarkers, h₂, inLine, h.fileStart,
      h.headerComment, h.braces, h.mode, h.between, Sym.isBlank_of_isNewline hc]
  refine ⟨?_, by rw [hlast], ?_⟩
  · rw [momentsTo_cons, List.forall_mem_cons, hopen]
    exact ⟨by rw [moment_markers, hopen], hall⟩
  · rw [hlast]
    exact ⟨h.mode, h.braces, h.parens, h.between, h.fileStart, h.headerComment⟩

end Scanner

namespace Scanner

variable {s : Scanner} {c : Sym} {n : Option Sym}

theorem step_braces_nonneg (h : 0 ≤ s.braces) : 0 ≤ (s.step c n).1.braces := by
  rw [step_braces]
  cases hm : s.mode <;> simp only [stepMode, hm]
  case normal =>
    fun_cases stepNormal <;> simp [enterComment, closeBrace, h]
    omega
  case escape => fun_cases stepEscape <;> exact h
  case blockComment => fun_cases stepBlockComment <;> exact h
  case lineComment => fun_cases stepLineComment <;> exact h
  case directive => fun_cases stepDirective <;> exact h
  all_goals fun_cases stepLiteral <;> exact h

/-- As long as a body goes on, all markers are of its own kind. -/
theorem isInner_of_braces (hf : s.fileStart = false) (hb : 0 < s.braces)
    (ha : (s.step c n).1.braces ≠ 0) {x : Marker} (hx : x ∈ (s.step c n).2) : x.IsInner := by
  have hne : s.braces ≠ 0 := by omega
  have hclose : ¬ (s.mode = .normal ∧ c = .char '}' ∧ s.braces = 1) := by
    rintro ⟨hm, rfl, h₁⟩
    apply ha
    simp [stepMode, hm, stepNormal, closeBrace, h₁]
  have hdue := mem_step_iff.mp hx
  cases x <;> simp only [Due, hne, hf, false_and, Bool.false_eq_true] at hdue <;>
    simp only [Marker.IsInner, reduceCtorEq, or_false, or_true, or_self]
  case flushAfter =>
    rcases hdue with ⟨hm, ⟨hc, h | h⟩ | ⟨-, h⟩⟩ | h
    · exact h
    · exact hclose ⟨hm, hc, h⟩
    · exact h
    · exact h
  case bodyEnd => exact hclose ⟨hdue.2.1, hdue.2.2, hdue.1⟩

/-- A body that goes on, read from within. -/
theorem run_inner (hf : s.fileStart = false) (hb : 0 < s.braces) {t : Text}
    (ht : ∀ m ∈ s.momentsTo n t, m.after.braces ≠ 0) :
    (∀ m ∈ s.momentsTo n t, ∀ x ∈ m.markers, x.IsInner) ∧ 0 < (s.runTo n t).braces := by
  induction t generalizing s with
  | nil => exact ⟨by simp, hb⟩
  | cons c rest ih =>
    rw [momentsTo_cons, List.forall_mem_cons] at ht
    have hnext : 0 < (s.step c (rest.head?.or n)).1.braces :=
      lt_of_le_of_ne (step_braces_nonneg hb.le) (Ne.symm ht.1)
    obtain ⟨hms, hrun⟩ := ih (by simp [hf]) hnext ht.2
    rw [momentsTo_cons, List.forall_mem_cons]
    exact ⟨⟨fun x hx => isInner_of_braces hf hb ht.1 hx, hms⟩, hrun⟩

/-- The symbol that ends a body. -/
theorem step_leaves (hf : s.fileStart = false) (hb : 0 < s.braces)
    (ha : (s.step c none).1.braces = 0) (n : Option Sym) :
    (s.step c n).2 = [.bodyEnd, .flushAfter] ∧ s.isStrayBrace c = false ∧
      (s.step c n).1.mode = .normal ∧ (s.step c n).1.braces = 0 ∧ (s.step c n).1.between = true := by
  have hend : .bodyEnd ∈ (s.step c none).2 := by
    by_contra hn
    have := step_braces_pos hb hn
    omega
  obtain ⟨h₁, hm, rfl⟩ := mem_step_iff.mp hend
  simp [step, stepMode, hm, stepNormal, closeBrace, h₁, headMarkers, hf, isStrayBrace]

theorem Outside.step_body {k : Int} (h : Outside false k s) :
    (s.step (.char '{') n).2 = [.bodyStart] ∧ (s.step (.char '{') n).1.braces = 1 := by
  simp [Scanner.step, stepMode, h.mode, stepNormal, h.braces, headMarkers, h.fileStart]

end Scanner

namespace Pass

open Scanner (Outside)

variable {capacity : Int} {s : Scanner} {t u : Text} {e : Extents} {b b' : Bool} {k k' : Int}

/-- The text can be read from the state on without any report, whatever follows it, and leads outside
bodies again. -/
structure Passes (capacity : Int) (s : Scanner) (t : Text) (e : Extents) (b : Bool) (k : Int) : Prop where
  reached : ∀ n, Reached capacity ⟨s, {}⟩ n t e
  outside : ∀ n, Outside b k (s.runTo n t)

theorem Passes.concat (h : Passes capacity s t e b k) {c : Sym} {ms : List Marker}
    (hstep : ∀ s n, Outside b k s → (s.step c n).2 = ms ∧ Outside b' k' (s.step c n).1)
    (hf : .flush ∉ ms) (ha : .flushAfter ∉ ms) (hc : t.length + 1 < capacity) :
    Passes capacity s (t ++ [c]) (ms.foldl (Extents.mark t.length) e) b' k' where
  reached n := by
    have ho := h.outside (some c)
    exact (h.reached (some c)).step ho.headerComment ho.fileStart (hstep _ n ho).1
      (fun hflush => absurd hflush hf) ha hc
  outside n := by
    rw [Scanner.runTo_concat]
    exact (hstep _ n (h.outside (some c))).2

theorem Passes.append (h : Passes capacity s t e b k)
    (hrun : ∀ s n, Outside b k s →
      (∀ m ∈ s.momentsTo n u, m.markers = []) ∧ Outside b' k' (s.runTo n u))
    (hc : t.length + u.length < capacity) : Passes capacity s (t ++ u) e b' k' where
  reached n := by
    have ho := h.outside (u.head?.or n)
    refine (h.reached (u.head?.or n)).append ho.headerComment ho.fileStart ?_ hc
    intro m hm x hx
    rw [(hrun _ n ho).1 m hm] at hx
    cases hx
  outside n := by
    rw [Scanner.runTo_append]
    exact (hrun _ n (h.outside (u.head?.or n))).2

/-- A comment is read that ends with the symbol `c` and the marker `y`. -/
theorem reached_comment (h : Outside true k s) {x c : Sym} {n : Option Sym} {y : Marker}
    (hx : Scanner.opensComment (some x) = true)
    (hu : ∀ m ∈ (s.step (.char '/') (some x)).1.momentsTo (some c) (x :: u), m.markers = [])
    (hy : (((s.step (.char '/') (some x)).1.runTo (some c) (x :: u)).step c n).2 = [y])
    (hf : y ≠ .flush) (ha : y ≠ .flushAfter) (hc : u.length + 3 < capacity) :
    Reached capacity ⟨s, {}⟩ n (.char '/' :: x :: (u ++ [c])) (Extents.mark (u.length + 2) {} y) := by
  have hopen := h.step_opensComment hx
  obtain ⟨hh, hs⟩ := Scanner.step_headless (c := .char '/') (n := some x) h.headerComment h.fileStart
  obtain ⟨hh', hs'⟩ := Scanner.runTo_headless (n := some c) hh hs (x :: u)
  have h₁ : Reached capacity ⟨s, {}⟩ (some x) [.char '/'] {} :=
    (Reached.nil s (some (.char '/'))).step h.headerComment h.fileStart
      (congrArg Prod.snd hopen) (fun _ => ⟨rfl, rfl⟩) (by simp) (by simp; omega)
  have h₂ : Reached capacity ⟨s, {}⟩ (some c) ([Sym.char '/'] ++ x :: u) {} := by
    refine Reached.append (n := some c) h₁ hh hs ?_ (by simp; omega)
    intro m hm z hz
    rw [hu m hm] at hz
    cases hz
  have h₃ := h₂.step hh' hs' hy (by simp [hf.symm]) (by simp [ha.symm]) (by simp; omega)
  have hlen : ([Sym.char '/'] ++ x :: u).length = u.length + 2 := by
    rw [List.length_append, List.length_singleton, List.length_cons]
    omega
  rw [hlen] at h₃
  exact h₃

/-- A whole comment is passed, once it is known what the scanner makes of it. -/
theorem passes_comment (h : Outside true k s) {x c : Sym} {y : Marker}
    (hx : Scanner.opensComment (some x) = true)
    (hscan : ∀ n, let s₁ := (s.step (.char '/') (some x)).1
      let s₂ := s₁.runTo (some c) (x :: u)
      (∀ m ∈ s₁.momentsTo (some c) (x :: u), m.markers = []) ∧
        (s₂.step c n).2 = [y] ∧ Outside true k (s₂.step c n).1)
    (hf : y ≠ .flush) (ha : y ≠ .flushAfter) (hc : u.length + 3 < capacity) :
    Passes capacity s (.char '/' :: (x :: u ++ [c])) (Extents.mark (u.length + 2) {} y) true k where
  reached n := reached_comment h hx (hscan n).1 (hscan n).2.1 hf ha hc
  outside n := by
    rw [Scanner.runTo_cons, Scanner.runTo_concat]
    exact (hscan n).2.2

/-- The stretches that are marked behind the comment before a definition. -/
def leadExtents (lead : Text) : Extents :=
  { description := if lead = [] then {} else ⟨0, lead.length, .once⟩ }

theorem passes_lead (h : Outside true k s) {lead gap : Text} (hl : Lead lead gap)
    (hg : ∀ c ∈ gap, c.isBlank = true) (hc : (lead ++ gap).length < capacity) :
    Passes capacity s (lead ++ gap) (leadExtents lead) true k := by
  cases hl with
  | none =>
    have hnil : Passes capacity s [] {} true k := ⟨fun n => Reached.nil s n, fun _ => h⟩
    exact hnil.append (fun _ _ ho => ho.run_blank hg) (by simpa using hc)
  | @block inside hi =>
    have hstart : ofString "/*" = [.char '/', .char '*'] := by decide
    have hend : ofString "*/" = [.char '*', .char '/'] := by decide
    have ht : ofString "/*" ++ inside ++ ofString "*/" =
        .char '/' :: (.char '*' :: (inside ++ [Sym.char '*']) ++ [Sym.char '/']) := by
      simp [hstart, hend]
    have he : leadExtents (ofString "/*" ++ inside ++ ofString "*/") =
        Extents.mark ((inside ++ [Sym.char '*']).length + 2) {} .descriptionEndAfter := by
      simp [leadExtents, Extents.mark, Extent.closeAt, Closings.next, hstart, hend]
      omega
    rw [he, ht]
    simp only [hstart, hend, List.length_append, List.length_cons, List.length_nil] at hc
    have hlen : ((inside ++ [Sym.char '*']).length : Int) + 3 < capacity := by
      simp
      omega
    exact (passes_comment h (by decide) (h.scan_block hi) (by decide) (by decide) hlen).append
      (fun _ _ ho => ho.run_blank hg) (by simp; omega)
  | @line inside hi c hn gap =>
    have hstart : ofString "//" = [.char '/', .char '/'] := by decide
    have ht : ofString "//" ++ inside ++ c :: gap =
        .char '/' :: (.char '/' :: inside ++ [c]) ++ gap := by
      simp [hstart]
    have he : leadExtents (ofString "//" ++ inside) =
        Extents.mark (inside.length + 2) {} .descriptionEnd := by
      simp [leadExtents, Extents.mark, Extent.closeAt, Closings.next, hstart]
      omega
    rw [he, ht]
    rw [List.forall_mem_cons] at hg
    simp only [hstart, List.length_append, List.length_cons, List.length_nil] at hc
    exact (passes_comment h (by decide) (h.scan_line hi hn) (by decide) (by decide) (by omega)).append
      (fun _ _ ho => ho.run_blank hg.2) (by simp; omega)

end Pass

namespace Definition

open Scanner (Outside)

variable {d : Definition} {s : Scanner} {capacity : Int}

/-- Where the parts of a definition are. -/
def extents (d : Definition) : Extents :=
  let function := d.lead.length + d.gap.length
  let parameters := function + d.declarator.length
  let trail := parameters + d.parameters.length + 2
  let body := trail + d.trail.length
  { function := ⟨function, parameters, .once⟩
    parameters := ⟨parameters, trail, .once⟩
    body := ⟨body, body + d.body.length + 2, .once⟩
    description := if d.lead = [] then {} else ⟨0, d.lead.length, .once⟩ }

theorem length_text (d : Definition) : d.text.length = d.head.length + d.body.length + 1 := by
  simp [text, tail]
  omega

theorem length_head (d : Definition) :
    d.head.length = d.lead.length + d.gap.length + d.declarator.length + d.parameters.length +
      d.trail.length + 3 := by
  simp [head]
  omega

/-- Up to the parameter list. -/
theorem passes_declarator (hs : Outside true 0 s) (hd : d.WellFormed) (hc : d.text.length < capacity) :
    Pass.Passes capacity s (d.lead ++ d.gap ++ d.declarator)
      ((Pass.leadExtents d.lead).mark (d.lead ++ d.gap).length .functionStart) false 0 := by
  rw [length_text, length_head] at hc
  obtain ⟨c, hhead, hblank⟩ := hd.declarator_start
  obtain ⟨rest, hrest⟩ := List.head?_eq_some_iff.mp hhead
  have hordinary := hd.declarator
  rw [hrest, List.forall_mem_cons] at hordinary
  have hlen : d.declarator.length = rest.length + 1 := by rw [hrest, List.length_cons]
  have hlead : Pass.Passes capacity s (d.lead ++ d.gap) (Pass.leadExtents d.lead) true 0 := by
    refine Pass.passes_lead hs hd.lead hd.gap ?_
    rw [List.length_append]
    omega
  have hstart := hlead.concat (fun _ _ ho => ho.step_start hordinary.1 hblank) (by simp) (by simp) (by
    rw [List.length_append]
    omega)
  have hword := hstart.append (fun _ _ ho => ho.run_ordinary hordinary.2) (by
    simp only [List.length_append, List.length_singleton]
    omega)
  rw [List.append_assoc (d.lead ++ d.gap)] at hword
  rw [hrest]
  exact hword

/-- Up to the end of the parameter list. -/
theorem passes_parameters (hs : Outside true 0 s) (hd : d.WellFormed) (hc : d.text.length < capacity) :
    Pass.Passes capacity s
      (d.lead ++ d.gap ++ d.declarator ++ [Sym.char '('] ++ d.parameters ++ [Sym.char ')'])
      ((((Pass.leadExtents d.lead).mark (d.lead ++ d.gap).length .functionStart).mark
        (d.lead ++ d.gap ++ d.declarator).length .parametersStart).mark
        (d.lead ++ d.gap ++ d.declarator ++ [Sym.char '('] ++ d.parameters).length .parametersEnd)
      false 0 := by
  have hdeclarator := passes_declarator hs hd hc
  rw [length_text, length_head] at hc
  have hopen := hdeclarator.concat (fun _ _ ho => ho.step_open) (by simp) (by simp) (by
    simp only [List.length_append]
    omega)
  have hrun : ∀ s n, Outside false (0 + 1) s → (∀ m ∈ s.momentsTo n d.parameters, m.markers = []) ∧
      Outside false 1 (s.runTo n d.parameters) := by
    intro s n ho
    have hrun := ho.run_parameters (n := n) (by decide) hd.parameters fun u hu => by
      have := hd.balanced.1 u hu
      omega
    rw [hd.balanced.2] at hrun
    simpa using hrun
  have hlist := hopen.append hrun (by
    simp only [List.length_append, List.length_singleton]
    omega)
  exact hlist.concat (fun _ _ ho => ho.step_close (by decide)) (by simp) (by simp) (by
    simp only [List.length_append, List.length_singleton]
    omega)

theorem headExtents_eq (d : Definition) :
    { d.extents with body := ({} : Extent).openAt d.extents.body.start } =
      [Marker.bodyStart].foldl (Extents.mark
        (d.lead ++ d.gap ++ d.declarator ++ [Sym.char '('] ++ d.parameters ++ [Sym.char ')'] ++
          d.trail).length)
      ((((Pass.leadExtents d.lead).mark (d.lead ++ d.gap).length .functionStart).mark
        (d.lead ++ d.gap ++ d.declarator).length .parametersStart).mark
        (d.lead ++ d.gap ++ d.declarator ++ [Sym.char '('] ++ d.parameters).length .parametersEnd) := by
  simp [extents, Pass.leadExtents, Extents.mark, Extent.openAt, Extent.closeAt, Closings.next]
  omega

/-- Up to the brace that opens the body. -/
theorem reached_head (hs : Outside true 0 s) (hd : d.WellFormed) (hc : d.text.length < capacity)
    (n : Option Sym) :
    Pass.Reached capacity ⟨s, {}⟩ n d.head
        { d.extents with body := ({} : Extent).openAt d.extents.body.start } ∧
      (s.runTo n d.head).braces = 1 ∧ (s.runTo n d.head).fileStart = false ∧
      (s.runTo n d.head).headerComment = false := by
  have hlist := passes_parameters hs hd hc
  rw [length_text, length_head] at hc
  have htrail := hlist.append (fun _ _ ho => ho.run_ordinary hd.trail) (by
    simp only [List.length_append, List.length_singleton]
    omega)
  have ho := htrail.outside (some (.char '{'))
  obtain ⟨hms, hbraces⟩ := ho.step_body (n := n)
  obtain ⟨hh, hf⟩ := Scanner.step_headless (c := .char '{') (n := n) ho.headerComment ho.fileStart
  have hbody := (htrail.reached (some (.char '{'))).step ho.headerComment ho.fileStart hms (by simp)
    (by simp) (by
      simp only [List.length_append, List.length_singleton]
      omega)
  have hrun : s.runTo n d.head = _ := Scanner.runTo_concat _ (.char '{')
  rw [hrun]
  refine ⟨?_, hbraces, hf, hh⟩
  have he : { d.extents with body := ({} : Extent).openAt d.extents.body.start } = _ := headExtents_eq d
  rw [he]
  exact hbody

theorem extents_eq (d : Definition) :
    [Marker.bodyEnd, .flushAfter].foldl (Extents.mark (d.head ++ d.body).length)
      { d.extents with body := ({} : Extent).openAt d.extents.body.start } = d.extents := by
  simp [extents, Extents.mark, Extent.openAt, Extent.closeAt, Closings.next, length_head]
  omega

/-- The body, from behind its first brace up to its last symbol. -/
theorem exists_flush (hs : Outside true 0 s) (hd : d.WellFormed) (he : d.Encloses s)
    (hc : d.text.length < capacity) (n : Option Sym) :
    (∃ q : Pending, q.Shows d.text d.extents ∧
      Pass.traceTo capacity n ⟨s, {}⟩ d.text =
        List.replicate (d.text.length - 1) [] ++ [[Event.flush q]]) ∧
    (s.runTo n d.text).mode = .normal ∧ (s.runTo n d.text).braces = 0 ∧
      (s.runTo n d.text).between = true := by
  obtain ⟨hhead, hbraces, hf, hh⟩ := reached_head hs hd hc d.tail.head?
  set s₁ := s.runTo d.tail.head? d.head with hs₁
  rw [length_text] at hc
  obtain ⟨hgoes, hends⟩ := he
  rw [← Scanner.momentsTo_none, tail, Scanner.momentsTo_concat, List.dropLast_concat] at hgoes
  rw [← Scanner.momentsTo_none, tail, Scanner.momentsTo_concat, List.getLast?_concat] at hends
  obtain ⟨hinner, hpos⟩ := Scanner.run_inner hf (by rw [hbraces]; decide) hgoes
  obtain ⟨hh₂, hf₂⟩ := Scanner.runTo_headless (n := some (.char '}')) hh hf d.body
  obtain ⟨hms, hstray, hmode, hzero, hbetween⟩ := Scanner.step_leaves hf₂ hpos (hends _ rfl) n
  have hnext : d.tail.head? = d.body.head?.or (some (.char '}')) := by
    rw [tail, List.head?_append]
    rfl
  have hrun : s.runTo (some (.char '}')) (d.head ++ d.body) = s₁.runTo (some (.char '}')) d.body := by
    rw [Scanner.runTo_append, ← hnext]
  have ht : d.text = d.head ++ d.body ++ [Sym.char '}'] := by simp [text, tail]
  have hbody : Pass.Reached capacity ⟨s, {}⟩ (some (.char '}')) (d.head ++ d.body)
      { d.extents with body := ({} : Extent).openAt d.extents.body.start } := by
    rw [hnext] at hhead
    rw [hs₁, hnext] at hh hf hinner
    exact hhead.append hh hf hinner (by omega)
  rw [← hrun] at hh₂ hf₂ hms hstray hmode hzero hbetween
  constructor
  · obtain ⟨q, hq, htrace⟩ := hbody.flush hh₂ hf₂ hms (by simp) (by simp) hstray (by
      rw [List.length_append]
      omega)
    rw [extents_eq, ← ht] at hq
    refine ⟨q, hq, ?_⟩
    rw [length_text, Nat.add_sub_cancel, ← List.length_append, ← htrace, ht]
  · rw [ht, Scanner.runTo_concat]
    exact ⟨hmode, hzero, hbetween⟩

end Definition

theorem Pending.extentText_of_append {q : Pending} {e : Extent} {a b c : Text}
    (h : q.text = a ++ b ++ c) (hstart : e.start = a.length) (hstop : e.stop = a.length + b.length) :
    q.extentText e = b := by
  have hstop' : e.stop = (a.length + b.length : Nat) := by
    rw [hstop]
    simp
  rw [extentText, hstart, hstop', slice_natCast, h, List.take_left' (List.length_append ..),
    List.drop_left]

namespace Definition

variable {d : Definition} {s : Scanner} {capacity : Int}

/-- The marked stretches hold the parts of the definition. -/
theorem extentText_eq {q : Pending} (h : q.Shows d.text d.extents) :
    q.extentText d.extents.function = d.declarator ∧
      q.extentText d.extents.parameters = [Sym.char '('] ++ d.parameters ++ [Sym.char ')'] ∧
      q.extentText d.extents.body = [Sym.char '{'] ++ d.body ++ [Sym.char '}'] ∧
      (d.lead ≠ [] → q.extentText d.extents.description = d.lead) := by
  have htext := h.text
  simp only [text, head, tail] at htext
  refine ⟨?_, ?_, ?_, ?_⟩
  · refine Pending.extentText_of_append (a := d.lead ++ d.gap) (c := [Sym.char '('] ++ d.parameters ++
      [Sym.char ')'] ++ d.trail ++ [Sym.char '{'] ++ d.body ++ [Sym.char '}']) (by simp [htext]) ?_ ?_ <;>
      simp [extents]
  · refine Pending.extentText_of_append (a := d.lead ++ d.gap ++ d.declarator)
      (c := d.trail ++ [Sym.char '{'] ++ d.body ++ [Sym.char '}']) (by simp [htext]) ?_ ?_ <;>
      simp [extents] <;> omega
  · refine Pending.extentText_of_append (a := d.lead ++ d.gap ++ d.declarator ++ [Sym.char '('] ++
      d.parameters ++ [Sym.char ')'] ++ d.trail) (c := []) (by simp [htext]) ?_ ?_ <;>
      simp [extents] <;> omega
  · intro hne
    refine Pending.extentText_of_append (a := []) (c := d.gap ++ d.declarator ++ [Sym.char '('] ++
      d.parameters ++ [Sym.char ')'] ++ d.trail ++ [Sym.char '{'] ++ d.body ++ [Sym.char '}']) (by simp [htext])
      ?_ ?_ <;> simp [extents, hne]

/-- A definition that is read outside bodies is reported with its last symbol, as a function with
exactly its parts marked, and nothing is reported before. -/
theorem recognised (hs : Scanner.Outside true 0 s) (hd : d.WellFormed) (he : d.Encloses s)
    (hc : d.text.length < capacity) (rest : Text) :
    (∃ q : Pending,
      (Pass.trace capacity ⟨s, {}⟩ (d.text ++ rest)).take d.text.length =
        List.replicate (d.text.length - 1) [] ++ [[Event.flush q]] ∧
      q.text = d.text ∧ q.fileComment = false ∧ q.isFunction = true ∧ q.extents = d.extents ∧
      q.extentText q.function = d.declarator ∧
      q.extentText q.parameters = [Sym.char '('] ++ d.parameters ++ [Sym.char ')'] ∧
      q.extentText q.body = [Sym.char '{'] ++ d.body ++ [Sym.char '}'] ∧
      (if d.lead = [] then q.description.isClosed = false
        else q.extentText q.description = d.lead)) ∧
    (s.runTo rest.head? d.text).mode = .normal ∧ (s.runTo rest.head? d.text).braces = 0 ∧
      (s.runTo rest.head? d.text).between = true := by
  obtain ⟨⟨q, hq, htrace⟩, hend⟩ := exists_flush hs hd he hc rest.head?
  refine ⟨⟨q, ?_, hq.text, hq.fileComment, ?_, hq.extents, ?_⟩, hend⟩
  · rw [Pass.trace_append, List.take_left' (Pass.length_traceTo ..), htrace]
  all_goals
    have hfunction : q.function = d.extents.function := congrArg Extents.function hq.extents
    have hparameters : q.parameters = d.extents.parameters := congrArg Extents.parameters hq.extents
    have hbody : q.body = d.extents.body := congrArg Extents.body hq.extents
    have hdescription : q.description = d.extents.description :=
      congrArg Extents.description hq.extents
  · rw [Pending.isFunction, hfunction, hparameters, hbody]
    rfl
  · obtain ⟨htext₁, htext₂, htext₃, htext₄⟩ := extentText_eq hq
    rw [hfunction, hparameters, hbody, hdescription]
    refine ⟨htext₁, htext₂, htext₃, ?_⟩
    split
    · next hnil => simp [extents, hnil, Extent.isClosed]
    · next hne => exact htext₄ hne

theorem recognised_callback :
    let s : Scanner := { lineStart := false, fileStart := false, parens := 0, star := true }
    let d : Definition := {
      lead := ofString "// calls back", gap := ofString "\n ", declarator := ofString "static int\nf"
      parameters := ofString "int (*a)(int), ...", trail := ofString "\n"
      body := ofString " if (a) \x7b /* \x7d */ puts(\"\x7d\"); \x7d\n#if \x7d\nreturn '\\\x7d'; " }
    Scanner.Outside true 0 s ∧ d.WellFormed ∧ d.Encloses s ∧ (d.text.length : Int) < 1000 ∧
    (∃ q : Pending,
      (Pass.trace 1000 ⟨s, {}⟩ (d.text ++ ofString " int x;")).take d.text.length =
        List.replicate (d.text.length - 1) [] ++ [[Event.flush q]] ∧ q.isFunction = true ∧
      q.extents = d.extents ∧ q.extentText q.description = d.lead) := by
  intro s d
  have hs : Scanner.Outside true 0 s := ⟨rfl, rfl, rfl, rfl, rfl, rfl⟩
  have hd : d.WellFormed :=
    { lead := .line (ofString " calls back") (by decide +kernel) (by decide) (ofString " ")
      gap := by decide +kernel
      declarator_start := ⟨.char 's', by decide +kernel, by decide⟩
      declarator := by decide +kernel
      parameters := by decide +kernel
      balanced := by decide +kernel
      trail := by decide +kernel }
  have he : d.Encloses s := by decide +kernel
  have hc : (d.text.length : Int) < 1000 := by decide +kernel
  obtain ⟨⟨q, htrace, -, -, hfunction, hextents, -, -, -, hdescription⟩, -⟩ :=
    recognised hs hd he hc (ofString " int x;")
  exact ⟨hs, hd, he, hc, q, htrace, hfunction, hextents, hdescription⟩

end Definition

end DocBlock
