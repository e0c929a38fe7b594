import Mathlib
import DocBlock.Proofs.Block
import DocBlock.Proofs.Bracketing

/-! What is found in the body of a function: the values that its statements return and the remarks in its
comments. Each is taken from the text between a marker and the next one of another kind, in the order of
the text, and nothing that stands outside the body is filed for the function. -/

namespace DocBlock

open Scanner (Moment)

/-! Stretches between two markers. Places are counted from `k`, that of the first symbol. -/

/-- Where the marker `y` is given first. -/
def nextAt (y : Marker) (k : Nat) : List Moment → Option Nat
  | [] => none
  | m :: ms => if y ∈ m.markers then some k else nextAt y (k + 1) ms

/-- Each place where `x` is given, with the next one behind it where `y` is. -/
def spansFrom (x y : Marker) (k : Nat) : List Moment → List (Nat × Nat)
  | [] => []
  | m :: ms =>
    (if x ∈ m.markers then ((nextAt y (k + 1) ms).map (k, ·)).toList else []) ++
      spansFrom x y (k + 1) ms

/-- A marker `x` is given only where no stretch is in progress, and not together with `y`, which ends one;
the flag says whether one is in progress at first. -/
def Spaced (x y : Marker) : Bool → List Moment → Prop
  | _, [] => True
  | busy, m :: ms =>
    (x ∈ m.markers → busy = false ∧ y ∉ m.markers) ∧
      Spaced x y (x ∈ m.markers || busy && y ∉ m.markers) ms

section Spans

variable {x y : Marker} {k j : Nat} {ms rest : List Moment} {ij : Nat × Nat}

theorem nextAt_bounds (h : nextAt y k ms = some j) : k ≤ j ∧ j < k + ms.length := by
  induction ms generalizing k with
  | nil => simp [nextAt] at h
  | cons m ms ih =>
    rw [nextAt] at h
    rw [List.length_cons]
    split_ifs at h
    · obtain rfl := Option.some.inj h
      omega
    · have := ih h
      omega

theorem spansFrom_bounds (h : ij ∈ spansFrom x y k ms) :
    k ≤ ij.1 ∧ ij.1 < ij.2 ∧ ij.2 < k + ms.length := by
  induction ms generalizing k with
  | nil => simp [spansFrom] at h
  | cons m ms ih =>
    rw [List.length_cons]
    rcases List.mem_append.mp h with h | h
    · split_ifs at h
      · obtain ⟨j, hj, rfl⟩ := Option.map_eq_some_iff.mp (Option.mem_toList.mp h)
        have := nextAt_bounds hj
        refine ⟨le_rfl, ?_, ?_⟩ <;> dsimp only <;> omega
      · contradiction
    · have := ih h
      omega

theorem spansFrom_append_of_notMem (h : ∀ m ∈ ms, x ∉ m.markers) :
    spansFrom x y k (ms ++ rest) = spansFrom x y (k + ms.length) rest := by
  induction ms generalizing k with
  | nil => rfl
  | cons m ms ih =>
    rw [List.forall_mem_cons] at h
    rw [List.cons_append, spansFrom, if_neg h.1, ih h.2, List.length_cons, List.nil_append,
      Nat.add_right_comm, Nat.add_assoc k ms.length 1]

/-- Where a stretch is in progress, no other one starts before it ends. -/
theorem Spaced.lt_of_mem (h : Spaced x y true ms) (hj : nextAt y k ms = some j)
    (hij : ij ∈ spansFrom x y k ms) : j < ij.1 := by
  induction ms generalizing k with
  | nil => simp [nextAt] at hj
  | cons m ms ih =>
    obtain ⟨hx, h⟩ := h
    have hx : x ∉ m.markers := fun hm => absurd (hx hm).1 (by decide)
    rw [spansFrom, if_neg hx, List.nil_append] at hij
    rw [nextAt] at hj
    split_ifs at hj with hy
    · obtain rfl := Option.some.inj hj
      exact (spansFrom_bounds hij).1
    · simp only [hx, hy, decide_false, not_false_eq_true, decide_true, Bool.and_self, Bool.or_true] at h
      exact ih h hj hij

/-- Stretches do not overlap: each one ends before the next starts. -/
theorem Spaced.pairwise_spansFrom {busy : Bool} (h : Spaced x y busy ms) :
    (spansFrom x y k ms).Pairwise fun a b => a.2 < b.1 := by
  induction ms generalizing k busy with
  | nil => exact List.Pairwise.nil
  | cons m ms ih =>
    obtain ⟨-, h⟩ := h
    rw [spansFrom]
    split_ifs with hx
    · rw [decide_eq_true hx, Bool.true_or] at h
      cases hj : nextAt y (k + 1) ms with
      | none => exact ih h
      | some j => exact List.Pairwise.cons (fun _ => h.lt_of_mem hj) (ih h)
    · exact ih h

/-- Before the first `x`, no stretch is in progress. -/
theorem Spaced.append_of_notMem (hms : ∀ m ∈ ms, x ∉ m.markers) (h : Spaced x y false rest) :
    Spaced x y false (ms ++ rest) := by
  induction ms with
  | nil => exact h
  | cons m ms ih =>
    rw [List.forall_mem_cons] at hms
    refine ⟨fun hx => absurd hx hms.1, ?_⟩
    rw [decide_eq_false hms.1, Bool.false_or, Bool.false_and]
    exact ih hms.2

end Spans

/-! Filing. -/

/-- The text of the remark in a comment, if it is one of this kind. -/
def Remark.textOf? (kind : RemarkKind) (t : Text) : Option Text :=
  ((ofComment? t).filter (·.kind = kind)).map (·.text)

/-- The remarks of a kind that were found so far. -/
def Pending.remarks (p : Pending) : RemarkKind → List Text
  | .todo => p.todos
  | .note => p.notes

theorem Pending.text_read (p : Pending) (m : Moment) : (p.read m).text = p.text ++ [m.sym] :=
  text_foldl_read [m] p

/-- Something that is filed from a body: the markers before and behind it, where the stretch in progress
starts, what was filed so far, and what is taken from the text of a stretch. -/
structure Filing where
  opening : Marker
  closing : Marker
  start : Pending → Option Nat
  found : Pending → List Text
  pick : Text → Option Text

namespace Filing

def returns : Filing where
  opening := .statementStart
  closing := .statementEnd
  start := (·.statementStart)
  found := (·.returns)
  pick := returnValue?

def remarks (kind : RemarkKind) : Filing where
  opening := .commentStart
  closing := .commentEnd
  start := (·.commentStart)
  found := (·.remarks kind)
  pick := Remark.textOf? kind

def state (f : Filing) (p : Pending) : Option Nat × List Text := (f.start p, f.found p)

/-- What is filed if the stretch in progress ends here. -/
def filed (f : Filing) (p : Pending) : List Text :=
  ((f.start p).bind fun i => f.pick (p.sliceFrom i)).toList

/-- What is taken from the stretch between two places of a text. -/
def pickAt (f : Filing) (t : Text) (ij : Nat × Nat) : Option Text := f.pick ((t.take ij.2).drop ij.1)

/-- What is filed where a stretch ends can be read off any text that goes on from there. -/
theorem filed_eq {f : Filing} {p : Pending} {t rest : Text} (ht : t = p.text ++ rest) :
    f.filed p =
      ((f.start p).bind fun i => (some p.size).map (i, ·)).toList.filterMap (f.pickAt t) := by
  have htake : t.take p.size = p.text := by
    rw [ht, Pending.size_eq_length, List.take_left]
  cases hp : f.start p with
  | none => simp [filed, hp]
  | some i =>
    simp only [filed, hp, Option.bind_some, Option.map_some, Option.toList_some, pickAt,
      Pending.sliceFrom_natCast, htake, List.filterMap_cons, List.filterMap_nil]
    cases f.pick (p.text.drop i) <;> rfl

/-- Only the two markers touch what is filed. -/
structure Lawful (f : Filing) : Prop where
  opening_ne : f.opening ≠ .descriptionEnd
  closing_ne : f.closing ≠ .descriptionEnd
  initial : f.state {} = (none, [])
  push : ∀ (p : Pending) (c : Sym), f.state (p.push c) = f.state p
  mark : ∀ (p : Pending) (z : Marker), f.state (p.mark z) =
    if z = f.opening then (some p.size, f.found p)
    else if z = f.closing then (none, f.found p ++ f.filed p) else f.state p

theorem lawful_returns : returns.Lawful where
  opening_ne := by decide
  closing_ne := by decide
  initial := rfl
  push _ _ := rfl
  mark p z := by
    cases z
    case statementEnd =>
      simp only [returns, state, filed, Pending.mark, Pending.endStatement, Pending.sliceFrom]
      split
      · simp_all
      · split <;> simp_all
    case commentEnd =>
      obtain ⟨_, _, h⟩ := p.endComment_eq
      simp [returns, state, Pending.mark, h]
    all_goals rfl

theorem lawful_remarks (kind : RemarkKind) : (remarks kind).Lawful where
  opening_ne := by cases kind <;> decide
  closing_ne := by cases kind <;> decide
  initial := by cases kind <;> rfl
  push _ _ := by cases kind <;> rfl
  mark p z := by
    cases z
    case statementEnd =>
      obtain ⟨_, h⟩ := p.endStatement_eq
      cases kind <;> simp [remarks, state, Pending.remarks, Pending.mark, h]
    case commentEnd =>
      simp only [remarks, state, filed, Pending.mark, Pending.endComment, Pending.sliceFrom,
        Remark.textOf?]
      split
      · simp_all
      · split <;> cases kind <;> simp_all [Pending.remarks, Option.filter]
    all_goals cases kind <;> rfl

namespace Lawful

variable {f : Filing} {l : List Marker} {p : Pending} {m : Moment} {ms : List Moment}

/-- The markers of one symbol open a stretch, end one, or do neither. -/
theorem state_foldl_mark (h : f.Lawful) (hn : l.Nodup) (hl : f.opening ∈ l → f.closing ∉ l) :
    f.state (l.foldl Pending.mark p) =
      if f.opening ∈ l then (some p.size, f.found p)
      else if f.closing ∈ l then (none, f.found p ++ f.filed p) else f.state p := by
  induction l generalizing p with
  | nil => rfl
  | cons z l ih =>
    obtain ⟨hz, hn⟩ := List.nodup_cons.mp hn
    have hrest := ih (p := p.mark z) hn fun ho hc =>
      hl (List.mem_cons_of_mem z ho) (List.mem_cons_of_mem z hc)
    have hmark := h.mark p z
    rw [List.foldl_cons, hrest]
    by_cases ho : z = f.opening
    · subst ho
      have hc : f.closing ∉ l := fun hc => hl List.mem_cons_self (List.mem_cons_of_mem _ hc)
      simp only [hz, hc, hmark, if_true, if_false, List.mem_cons_self]
    · rw [if_neg ho] at hmark
      by_cases hc : z = f.closing
      · subst hc
        have ho' : f.opening ∉ l := fun ho' => hl (List.mem_cons_of_mem _ ho') List.mem_cons_self
        simp only [hz, ho', hmark, if_true, if_false, List.mem_cons, Ne.symm ho, or_false]
      · rw [if_neg hc] at hmark
        have hfiled : f.filed (p.mark z) = f.filed p := by
          rw [filed, filed, (Prod.mk.inj hmark).1]
          simp [Pending.sliceFrom_natCast, Pending.text]
        rw [hmark, hfiled, (Prod.mk.inj hmark).2, Pending.size_mark]
        simp only [List.mem_cons, Ne.symm ho, Ne.symm hc, false_or]

/-- Reading one symbol opens a stretch, ends one, or does neither. -/
theorem state_read (h : f.Lawful) {s : Scanner} {n : Option Sym} {u : Text} (hm : m ∈ s.momentsTo n u)
    (hx : f.opening ∈ m.markers → f.closing ∉ m.markers) :
    f.state (p.read m) =
      if f.opening ∈ m.markers then (some p.size, f.found p)
      else if f.closing ∈ m.markers then (none, f.found p ++ f.filed p) else f.state p := by
  have hopening := Moment.mem_marks_iff hm h.opening_ne
  have hclosing := Moment.mem_marks_iff hm h.closing_ne
  rw [← hopening, ← hclosing] at hx
  rw [Pending.read, h.push, h.state_foldl_mark (Moment.nodup_marks hm) hx]
  simp only [hopening, hclosing]

/-- While a text is read, what is filed is taken from the stretch in progress, up to the next marker that
ends one, and from those that start behind it. -/
theorem found_foldl_read (h : f.Lawful) {s : Scanner} {n : Option Sym} {u t : Text}
    (hms : ∀ m ∈ ms, m ∈ s.momentsTo n u)
    (hs : Spaced f.opening f.closing (f.start p).isSome ms) (ht : t = p.text ++ ms.map (·.sym)) :
    f.found (ms.foldl .read p) = f.found p ++
      (((f.start p).bind fun i => (nextAt f.closing p.size ms).map (i, ·)).toList ++
        spansFrom f.opening f.closing p.size ms).filterMap (f.pickAt t) := by
  induction ms generalizing p with
  | nil => simp [nextAt, spansFrom]
  | cons m ms ih =>
    rw [List.forall_mem_cons] at hms
    obtain ⟨hspaced, hs⟩ := hs
    have hread := h.state_read (p := p) hms.1 fun hx => (hspaced hx).2
    have hsize : (p.read m).size = p.size + 1 := by
      simp [Pending.size_eq_length, Pending.text_read]
    have htext : t = (p.read m).text ++ ms.map (·.sym) := by
      simp [ht, Pending.text_read]
    rw [List.foldl_cons]
    by_cases hx : f.opening ∈ m.markers
    · have hnone : f.start p = none := by simpa using (hspaced hx).1
      rw [if_pos hx] at hread
      obtain ⟨hstart, hfound⟩ := Prod.mk.inj hread
      rw [ih hms.2 (by simpa [hstart, hx] using hs) htext, hstart, hfound, hsize, hnone, spansFrom,
        if_pos hx]
      rfl
    · rw [if_neg hx] at hread
      rw [spansFrom, if_neg hx, List.nil_append, nextAt]
      by_cases hy : f.closing ∈ m.markers
      · rw [if_pos hy] at hread
        obtain ⟨hstart, hfound⟩ := Prod.mk.inj hread
        rw [if_pos hy, ih hms.2 (by simpa [hstart, hx, hy] using hs) htext, hstart, hfound, hsize,
          filed_eq ht, Option.bind_none, Option.toList_none, List.nil_append, List.filterMap_append,
          List.append_assoc]
      · rw [if_neg hy] at hread
        obtain ⟨hstart, hfound⟩ := Prod.mk.inj hread
        rw [if_neg hy, ih hms.2 (by simpa [hstart, hx, hy] using hs) htext, hstart, hfound, hsize]

end Lawful

/-! Where the stretches of a body are in progress. -/

/-- In a body, a stretch starts only where `busy` does not hold, which then does up to its end. -/
structure Paced (f : Filing) (busy : Scanner → Bool) : Prop where
  inner : ∀ {s : Scanner} {c : Sym} {n : Option Sym},
    f.opening ∈ (s.step c n).2 → s.braces ≠ 0
  starts : ∀ {s : Scanner} {c : Sym} {n : Option Sym}, f.opening ∈ (s.step c n).2 →
    busy s = false ∧ busy (s.step c n).1 = true ∧ f.closing ∉ (s.step c n).2
  lasts : ∀ {s : Scanner} {c : Sym} {n : Option Sym}, s.Steady → 0 < s.braces →
    0 < (s.step c n).1.braces → busy s = true → f.closing ∉ (s.step c n).2 →
      busy (s.step c n).1 = true

theorem paced_remarks (kind : RemarkKind) : (remarks kind).Paced (·.mode.isComment) where
  inner h := (Scanner.mem_step_iff.mp h).1
  starts h := by
    obtain ⟨-, ho⟩ := Scanner.mem_step_iff.mp h
    obtain ⟨hm, hm'⟩ := Scanner.isComment_of_opens ho
    refine ⟨hm, hm', fun hc => ?_⟩
    obtain ⟨-, hc | hc⟩ := Scanner.mem_step_iff.mp hc
    · rw [hc.1] at hm
      contradiction
    · rw [hc.1] at hm
      contradiction
  lasts hs hb _ hm hc := by
    have ho : ∀ c n, ¬ Scanner.OpensComment _ c n := fun c n ho => by
      rw [(Scanner.isComment_of_opens ho).1] at hm
      contradiction
    rw [Scanner.isComment_of_not hs (ho _ _) fun h => hc (Scanner.mem_step_iff.mpr ⟨hb.ne', h⟩)]
    exact hm

end Filing

namespace Scanner

variable {s : Scanner} {c : Sym} {n : Option Sym}

/-- In a body, what ends a statement is marked as its end, but for the brace that ends the body. -/
theorem statementEnd_of_between (hs : 0 < s.braces) (hs' : 0 < (s.step c n).1.braces)
    (h : s.between = false) (h' : (s.stepMode c n).1.between = true) :
    .statementEnd ∈ (s.step c n).2 := by
  revert h' hs'
  rw [step_braces, step_markers, List.mem_append]
  cases hm : s.mode <;> simp only [stepMode, hm]
  case normal => fun_cases stepNormal <;> simp_all [enterComment, closeBrace] <;> grind
  case escape => fun_cases stepEscape <;> simp [h]
  case blockComment => fun_cases stepBlockComment <;> simp [h]
  case lineComment => fun_cases stepLineComment <;> simp [h]
  case directive => fun_cases stepDirective <;> simp [h, enterComment]
  all_goals fun_cases stepLiteral <;> simp [h]

/-- A statement starts where none is in progress, and is in progress from there on. -/
theorem between_of_statementStart (h : .statementStart ∈ (s.step c n).2) :
    s.between = true ∧ (s.step c n).1.between = false := by
  obtain ⟨hb, hm, hw, hc, hn⟩ := mem_step_iff.mp h
  have hmode : s.stepMode c n = ({ s with between := false }, [.statementStart]) := by
    simp only [isSpecial, Bool.or_eq_false_iff, decide_eq_false_iff_not] at hc
    simp [stepMode, hm, stepNormal, hc, hw, hn, hb]
  refine ⟨hw, ?_⟩
  rw [← Bool.not_eq_true, step_between, step_markers, hmode]
  simp [headMarkers, hm, Mode.isComment]

/-- Nothing is flushed in a body that goes on. -/
theorem not_flush_of_braces (hs : 0 < s.braces) (hs' : 0 < (s.step c n).1.braces) :
    .flush ∉ (s.step c n).2 ∧ .flushAfter ∉ (s.step c n).2 := by
  constructor
  · intro hf
    exact hs.ne' (mem_step_iff.mp hf).1
  · intro hf
    rcases mem_step_iff.mp hf with ⟨hm, ⟨rfl, hb⟩ | ⟨-, hb⟩⟩ | ⟨hb, -⟩
    · have hone : s.braces = 1 := hb.resolve_left hs.ne'
      simp [stepMode, hm, stepNormal, closeBrace, hone] at hs'
    · exact hs.ne' hb
    · exact hs.ne' hb

end Scanner

namespace Filing

variable {f : Filing} {busy : Scanner → Bool} {s : Scanner} {n : Option Sym}

theorem paced_returns : returns.Paced (!·.between) where
  inner h := (Scanner.mem_step_iff.mp h).1
  starts h := by
    obtain ⟨hw, hw'⟩ := Scanner.between_of_statementStart h
    refine ⟨by simp [hw], by simp [hw'], fun hc => ?_⟩
    obtain ⟨-, -, -, hspecial, -⟩ := Scanner.mem_step_iff.mp h
    obtain ⟨-, -, rfl | ⟨rfl, -⟩ | rfl⟩ := Scanner.mem_step_iff.mp hc
    all_goals exact absurd hspecial (by decide)
  lasts _ hs hs' hw hc := by
    obtain ⟨hflush, hafter⟩ := Scanner.not_flush_of_braces hs hs'
    rw [Bool.not_eq_true', ← Bool.not_eq_true, Scanner.step_between]
    rw [Bool.not_eq_true'] at hw
    rintro (h | h | h)
    · exact hc (Scanner.statementEnd_of_between hs hs' hw h)
    · exact hflush h
    · exact hafter h

/-- In a body, stretches start only where none is in progress. -/
theorem Paced.spaced_momentsTo (h : f.Paced busy) (hs : s.Steady) {t : Text} {inProgress : Bool}
    (hp : inProgress = true → busy s = true) (ht : ∀ m ∈ s.momentsTo n t, 0 < m.before.braces) :
    Spaced f.opening f.closing inProgress (s.momentsTo n t) := by
  induction t generalizing s inProgress with
  | nil => trivial
  | cons c rest ih =>
    rw [Scanner.momentsTo_cons, List.forall_mem_cons] at ht
    rw [Scanner.momentsTo_cons]
    refine ⟨fun hx => ?_, ?_⟩
    · obtain ⟨hidle, -, hy⟩ := h.starts hx
      refine ⟨?_, hy⟩
      by_contra hb
      rw [hp (by simpa using hb)] at hidle
      contradiction
    · cases rest with
      | nil => trivial
      | cons d rest =>
        -- the body goes on with the next symbol
        have hnext := ht.2 _ List.mem_cons_self
        refine ih hs.step (fun hb => ?_) ht.2
        simp only [Bool.or_eq_true, Bool.and_eq_true, decide_eq_true_eq] at hb
        rcases hb with hx | ⟨hb, hy⟩
        · exact (h.starts hx).2.1
        · exact h.lasts hs ht.1 hnext (hp hb) hy

end Filing

namespace Passage

variable {full : Nat → Bool} {g : Passage} {f : Filing} {busy : Scanner → Bool}

/-- The stretches of the passage from a marker `x` up to the next marker `y`. -/
def spans (g : Passage) (x y : Marker) : List (Nat × Nat) := spansFrom x y 0 g.moments

/-- The stretches lie in the body, one behind the other. -/
structure Encloses (g : Passage) (spans : List (Nat × Nat)) : Prop where
  apart : spans.Pairwise fun a b => a.2 < b.1
  inside : ∀ ij ∈ spans,
    g.pending.body.start < ij.1 ∧ ij.1 ≤ ij.2 ∧ ij.2 < g.pending.body.stop

section Body

variable {a b : List Moment} {m z : Moment}

theorem HasBody.opening_notMem (h : g.HasBody a m b z) (hp : f.Paced busy) :
    ∀ y ∈ a ++ [m], f.opening ∉ y.markers := by
  intro y hy hx
  have hg : y ∈ g.moments := by
    rw [h.moments, List.append_cons]
    exact List.mem_append_left _ hy
  obtain ⟨n, hn⟩ := Scanner.exists_step_of_mem hg
  rw [hn] at hx
  apply hp.inner hx
  rcases List.mem_append.mp hy with hy | hy
  · exact (h.before y hy).1
  · obtain ⟨n, hb, -, -⟩ := exists_due (g := g) (by simp [h.moments]) h.opening
    rw [List.mem_singleton.mp hy, hb]

theorem HasBody.spans_eq (h : g.HasBody a m b z) (hp : f.Paced busy) :
    g.spans f.opening f.closing = spansFrom f.opening f.closing (a.length + 1) (b ++ [z]) := by
  rw [spans, h.moments, List.append_cons, spansFrom_append_of_notMem (h.opening_notMem hp)]
  simp

theorem HasBody.spaced (h : g.HasBody a m b z) (hs : g.Sound full) (hp : f.Paced busy) :
    Spaced f.opening f.closing false g.moments := by
  have hms : g.start.momentsTo g.next g.text = (a ++ [m]) ++ (b ++ [z]) := by
    rw [← List.append_cons, ← h.moments, Passage.moments]
  obtain ⟨u, v, -, -, hv⟩ := Scanner.exists_of_momentsTo_eq_append hms
  rw [Passage.moments, hms]
  apply Spaced.append_of_notMem (h.opening_notMem hp)
  have hinner := h.inner
  rw [hv] at hinner ⊢
  exact hp.spaced_momentsTo (hs.valid.runTo u).toSteady (by simp) hinner

theorem HasBody.encloses (h : g.HasBody a m b z) (hs : g.Sound full)
    (hf : g.pending.isFunction = true) (hp : f.Paced busy) :
    g.Encloses (g.spans f.opening f.closing) where
  apart := (h.spaced hs hp).pairwise_spansFrom
  inside ij hij := by
    rw [h.spans_eq hp] at hij
    have hbounds := spansFrom_bounds hij
    rw [List.length_append, List.length_singleton] at hbounds
    rw [h.body_eq hs hf]
    dsimp only
    omega

/-- What is filed for a function is taken from the stretches of its passage. -/
theorem HasBody.found_pending (h : g.HasBody a m b z) (hs : g.Sound full) (hf : f.Lawful)
    (hp : f.Paced busy) :
    f.found g.pending = (g.spans f.opening f.closing).filterMap fun ij =>
      f.pick (g.pending.slice ij.1 ij.2) := by
  have hclosing : f.found g.pending = f.found (g.moments.foldl Pending.read {}) := by
    rw [pending]
    rcases hs.closing with he | ⟨he, -⟩
    · rw [he]
      rfl
    · rw [he]
      have hmark := hf.mark (g.moments.foldl Pending.read {}) .descriptionEnd
      rw [if_neg (Ne.symm hf.opening_ne), if_neg (Ne.symm hf.closing_ne)] at hmark
      exact (Prod.mk.inj hmark).2
  obtain ⟨hstart, hfound⟩ := Prod.mk.inj hf.initial
  have hspaced : Spaced f.opening f.closing (f.start {}).isSome g.moments := by
    rw [hstart]
    exact h.spaced hs hp
  have hms : ∀ y ∈ g.moments, y ∈ g.start.momentsTo g.next g.text := fun _ hy => hy
  have htext : g.text = ({} : Pending).text ++ g.moments.map (·.sym) := by
    rw [map_sym_moments]
    rfl
  rw [hclosing, hf.found_foldl_read hms hspaced htext, hstart, hfound]
  simp only [Filing.pickAt, Pending.slice_natCast, text_pending]
  rfl

end Body

/-- What was found in the body of a function, in the order of the text: the values that its statements
return and the remarks in its comments. -/
structure Mined (g : Passage) : Prop where
  returns : g.pending.returns = (g.spans .statementStart .statementEnd).filterMap fun ij =>
    returnValue? (g.pending.slice ij.1 ij.2)
  todos : g.pending.todos = (g.spans .commentStart .commentEnd).filterMap fun ij =>
    Remark.textOf? .todo (g.pending.slice ij.1 ij.2)
  notes : g.pending.notes = (g.spans .commentStart .commentEnd).filterMap fun ij =>
    Remark.textOf? .note (g.pending.slice ij.1 ij.2)
  statements : g.Encloses (g.spans .statementStart .statementEnd)
  comments : g.Encloses (g.spans .commentStart .commentEnd)

theorem Sound.mined (h : g.Sound full) (hf : g.pending.isFunction = true) : g.Mined := by
  obtain ⟨a, m, b, z, hbody⟩ := h.exists_body hf
  constructor
  case returns => exact hbody.found_pending h Filing.lawful_returns Filing.paced_returns
  case todos =>
    exact hbody.found_pending h (Filing.lawful_remarks .todo) (Filing.paced_remarks .todo)
  case notes =>
    exact hbody.found_pending h (Filing.lawful_remarks .note) (Filing.paced_remarks .note)
  case statements => exact hbody.encloses h hf Filing.paced_returns
  case comments => exact hbody.encloses h hf (Filing.paced_remarks .todo)

end Passage

/-! The lines of the block. -/

/-- Each entry on a line of its own behind the word of its tag. -/
def Text.listed (word : String) (entries : List Text) : Text :=
  entries.flatMap fun e => ofString "\n\t" ++ ofString word ++ ofString " " ++ e

/-- The page of a function has a block that lists these returned values, tasks and notes; no values are
listed for a function that returns nothing. -/
structure Pending.Lists (o : Options) (p : Pending) (returns todos notes : List Text) : Prop where
  inserted : ∀ plate, .insert (p.block o).render ∈ (p.page o plate).edits
  rendered : (p.block o).tags.render =
    Tags.group (p.block o).tags.params ++
      (if (p.declarator o).phrase = Text.ofString "void" then []
        else Text.listed "@return" [(p.declarator o).phrase] ++ Text.listed "@retval" returns ++
          Text.ofString "\n") ++
      (if o.emitNotes then Text.listed "@note" notes else []) ++ Text.listed "@todo" todos ++
      Text.ofString "\n\t@todo edit me (automatically generated by insertdox)"

theorem Tag.indented_append (l r : List Tag) : indented (l ++ r) = indented l ++ indented r :=
  List.flatMap_append

theorem Tag.indented_map (make : Text → Tag) (word : String)
    (h : ∀ e, (make e).line = Text.ofString word ++ Text.ofString " " ++ e) (entries : List Text) :
    indented (entries.map make) = Text.listed word entries := by
  rw [indented, List.flatMap_map, Text.listed]
  congr 1
  funext e
  rw [h]
  rfl

theorem Pending.lists_arrange {o : Options} {p : Pending} (hc : p.fileComment = false)
    (hf : p.isFunction = true) :
    p.Lists o (o.arrange p.returns) (o.arrange p.todos) (o.arrange p.notes) where
  inserted plate := by
    rw [page, hc, hf]
    simp [functionPage, block]
  rendered := by
    have hresults : Tags.group (p.block o).tags.results =
        if (p.declarator o).phrase = Text.ofString "void" then []
        else Text.listed "@return" [(p.declarator o).phrase] ++
          Text.listed "@retval" (o.arrange p.returns) ++ Text.ofString "\n" := by
      show Tags.group (if _ then _ else _ :: _) = _
      split_ifs with hvoid
      · rfl
      · rw [← Tag.indented_map .value "@retval" fun _ => rfl]
        simp [Tags.group, Tag.indented, Text.listed, Tag.line, Text.ofString]
    have hremarks : Tag.indented (p.block o).tags.remarks =
        (if o.emitNotes then Text.listed "@note" (o.arrange p.notes) else []) ++
          Text.listed "@todo" (o.arrange p.todos) ++
            Text.ofString "\n\t@todo edit me (automatically generated by insertdox)" := by
      have hnotes : Tag.indented (if o.emitNotes then (o.arrange p.notes).map .note else []) =
          if o.emitNotes then Text.listed "@note" (o.arrange p.notes) else [] := by
        split_ifs
        · exact Tag.indented_map .note "@note" (fun _ => rfl) _
        · rfl
      show Tag.indented ((if _ then _ else _) ++ _ ++ [Tag.reminder]) = _
      rw [Tag.indented_append, Tag.indented_append, hnotes,
        Tag.indented_map .todo "@todo" fun _ => rfl]
      rfl
    rw [Tags.render, hresults, hremarks]
    simp only [List.append_assoc]

/-- Whatever the text and the capacity, what is filed for a function was found in its own body, in the
order of the text and nothing left out, and its block lists it, last-found first or in that order. -/
theorem functions_mined {capacity : Int} (hc : 0 < capacity) (t : Text) :
    let gs := passages (fun l => capacity ≤ l) {} [] {} t
    gs.flatMap Passage.moments = ({} : Scanner).moments t ∧
      (∀ p, .flush p ∈ events capacity t ↔ ∃ g ∈ gs, g.pending = p) ∧
      ∀ g ∈ gs, g.pending.fileComment = false → g.pending.isFunction = true →
        g.Mined ∧ ∀ o : Options,
          (o.minedOrder = .reverse →
            g.pending.Lists o g.pending.returns.reverse g.pending.todos.reverse
              g.pending.notes.reverse) ∧
          (o.minedOrder = .source →
            g.pending.Lists o g.pending.returns g.pending.todos g.pending.notes) := by
  intro gs
  have hdivides : Divides (fun l => capacity ≤ l) {} t gs := divides_passages _ _ t
  refine ⟨hdivides.moments_eq, fun p => flush_mem_events_iff hc, fun g hg hcomment hf => ?_⟩
  refine ⟨(hdivides.sound Scanner.valid_initial g hg).mined hf, fun o => ?_⟩
  have hlists := Pending.lists_arrange (o := o) hcomment hf
  constructor
  · intro ho
    simpa only [Options.arrange, ho] using hlists
  · intro ho
    simpa only [Options.arrange, ho] using hlists

/-- Values in a nested block and behind it, and a remark of each kind. -/
theorem functions_mined_nested :
    let t := Text.ofString
      "int f()\x7bif(x)\x7breturn 1;\x7d/*todo a*/return 2;//nb b\n\x7d"
    let g : Passage := ⟨{}, t, none, []⟩
    let o : Options := { minedOrder := .source, emitNotes := true }
    (g ∈ passages (fun l => (64 : Int) ≤ l) {} [] {} t ∧ g.pending.fileComment = false ∧
        g.pending.isFunction = true ∧ g.pending.returns = [Text.ofString "1", Text.ofString "2"] ∧
        g.pending.todos = [Text.ofString "a"] ∧ g.pending.notes = [Text.ofString "b"]) ∧
      g.Mined ∧
      g.pending.Lists {} g.pending.returns.reverse g.pending.todos.reverse g.pending.notes.reverse ∧
      g.pending.Lists o g.pending.returns g.pending.todos g.pending.notes := by
  intro t g o
  have hg : g ∈ passages (fun l => (64 : Int) ≤ l) {} [] {} t := by decide +kernel
  have hcomment : g.pending.fileComment = false := by decide +kernel
  have hf : g.pending.isFunction = true := by decide +kernel
  obtain ⟨hmined, hlists⟩ := (functions_mined (by decide) t).2.2 g hg hcomment hf
  exact ⟨⟨hg, hcomment, hf, by decide +kernel⟩, hmined, (hlists {}).1 rfl, (hlists o).2 rfl⟩

/-- A value that is found in a function without a result is not listed. -/
theorem void_values_unlisted :
    let t := Text.ofString "void f(void) \x7b return 1; \x7d"
    let p := Passage.pending ⟨{}, t, none, []⟩
    .flush p ∈ events 64 t ∧ p.fileComment = false ∧ p.isFunction = true ∧
      p.returns = [Text.ofString "1"] ∧
      (p.block {}).tags.render =
        Text.ofString "\n\t@todo edit me (automatically generated by insertdox)" := by
  decide +kernel

end DocBlock
