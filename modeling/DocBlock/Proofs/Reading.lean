import Mathlib
import DocBlock.Proofs.Validity

/-! Which part of a state decides what the scanner does next. Two states that agree there read any
text alike. -/

namespace DocBlock.Scanner

variable {s s' : Scanner} {c : Sym} {n : Option Sym}

/-- The state without the mode to resume where no escape or comment is in progress. -/
def settle (s : Scanner) : Scanner :=
  { s with resume := if s.mode = .escape ∨ s.mode.isComment then s.resume else .normal }

/-- What decides the modes to come. -/
def reading (s : Scanner) : Scanner where
  mode := s.mode
  resume := s.settle.resume
  lineStart := s.lineStart
  fileStart := false
  opening := s.opening
  star := s.star

theorem settle_of_escape (h : s.mode = .escape) : s.settle = s := by
  simp only [settle, h, true_or, if_true]
  simp [← h]

theorem settle_of_isComment (h : s.mode.isComment = true) : s.settle = s := by
  simp [settle, h]

theorem stepMode_settle :
    (s.settle.stepMode c n).2 = (s.stepMode c n).2 ∧
      (s.settle.stepMode c n).1.settle = (s.stepMode c n).1.settle := by
  cases hm : s.mode
  case escape => simp [settle_of_escape hm]
  case blockComment | lineComment => simp [settle_of_isComment, hm, Mode.isComment]
  case normal =>
    simp only [stepMode, hm, show s.settle.mode = .normal from hm]
    fun_cases stepNormal s c n <;> simp only [stepNormal, *] <;>
      simp [settle, enterComment, closeBrace, Mode.isComment, *]
  case directive =>
    simp only [stepMode, hm, show s.settle.mode = .directive from hm]
    fun_cases stepDirective s c n <;> simp only [stepDirective, *] <;>
      simp [settle, enterComment, Mode.isComment, *]
  all_goals
    simp only [stepMode, hm, show s.settle.mode = _ from hm]
    fun_cases stepLiteral s c _ <;> simp only [stepLiteral, *] <;> simp [settle, Mode.isComment, *]

theorem stepMode_reading :
    (s.reading.stepMode c n).1.reading = (s.stepMode c n).1.reading := by
  cases hm : s.mode <;> simp only [stepMode, hm, show s.reading.mode = _ from hm]
  case normal =>
    fun_cases stepNormal s c n <;> simp only [stepNormal, *] <;>
      simp [reading, settle, enterComment, closeBrace, Mode.isComment, *]
    all_goals split <;> simp
  case directive =>
    fun_cases stepDirective s c n <;> simp only [stepDirective, *] <;>
      simp [reading, settle, enterComment, Mode.isComment, *]
  case escape =>
    fun_cases stepEscape s c n <;> simp only [stepEscape, *] <;> simp [reading, settle, hm]
  case blockComment =>
    have hc : Mode.blockComment.isComment = true := rfl
    fun_cases stepBlockComment s c <;> simp only [stepBlockComment, *] <;>
      simp [reading, settle, *]
  case lineComment =>
    fun_cases stepLineComment s c <;> simp only [stepLineComment, *] <;>
      simp [reading, settle, Mode.isComment, *]
  all_goals
    fun_cases stepLiteral s c _ <;> simp only [stepLiteral, *] <;>
      simp [reading, settle, Mode.isComment, *]

theorem step_fst_settle :
    (s.step c n).1.settle =
      { (s.stepMode c n).1.settle with
        fileStart := s.fileStart && c.isBlank
        lineStart := (s.stepMode c n).1.settle.lineStart && c.isBlank
        headerComment := (s.step c n).2.contains .fileComment ||
          ((s.stepMode c n).1.settle.headerComment &&
            !((s.step c n).2.contains .flush || (s.step c n).2.contains .flushAfter))
        between := (s.stepMode c n).1.settle.between ||
          ((s.step c n).2.contains .flush || (s.step c n).2.contains .flushAfter) } := rfl

theorem step_fst_reading :
    (s.step c n).1.reading =
      { (s.stepMode c n).1.reading with
        lineStart := (s.stepMode c n).1.reading.lineStart && c.isBlank } := rfl

/-- The mode to resume matters in escapes and comments only. -/
theorem step_settle :
    (s.settle.step c n).2 = (s.step c n).2 ∧
      (s.settle.step c n).1.settle = (s.step c n).1.settle := by
  obtain ⟨hm, hs⟩ := stepMode_settle (s := s) (c := c) (n := n)
  have hmode : (s.settle.stepMode c n).1.mode = (s.stepMode c n).1.mode := by
    have h := congrArg mode hs
    exact h
  have hmarkers : (s.settle.step c n).2 = (s.step c n).2 := by
    rw [step_markers, step_markers, hm, hmode]
    rfl
  refine ⟨hmarkers, ?_⟩
  rw [step_fst_settle, step_fst_settle, hs, hmarkers]
  rfl

theorem step_reading : (s.reading.step c n).1.reading = (s.step c n).1.reading := by
  rw [step_fst_reading, step_fst_reading, stepMode_reading]

theorem settle_congr (h : s.settle = s'.settle) :
    (s.step c n).2 = (s'.step c n).2 ∧ (s.step c n).1.settle = (s'.step c n).1.settle := by
  obtain ⟨h₁, h₂⟩ := step_settle (s := s) (c := c) (n := n)
  obtain ⟨h₃, h₄⟩ := step_settle (s := s') (c := c) (n := n)
  rw [h] at h₁ h₂
  exact ⟨h₁.symm.trans h₃, h₂.symm.trans h₄⟩

theorem reading_congr (h : s.reading = s'.reading) :
    (s.step c n).1.reading = (s'.step c n).1.reading := by
  rw [← step_reading, h, step_reading]

/-- The symbol behind matters only where a comment may open or a line break may be doubled. -/
theorem step_lookahead (n' : Option Sym) (hp : s.mode = .escape → c.isNewline = false)
    (hs : s.mode = .normal ∨ s.mode = .directive → c ≠ .char '/') :
    s.step c n = s.step c n' := by
  have h : s.stepMode c n = s.stepMode c n' := by
    cases hm : s.mode <;> simp only [stepMode, hm]
    case normal => simp [stepNormal, hs (.inl hm)]
    case directive => simp [stepDirective, hs (.inr hm)]
    case escape =>
      have hc := hp hm
      simp only [Sym.isNewline, Bool.or_eq_false_iff, decide_eq_false_iff_not] at hc
      simp [stepEscape, isLinePair, hc.1, hc.2]
  simp only [step, h]

theorem step_eq_of_flushAfter (n' : Option Sym) (h : .flushAfter ∈ (s.step c n).2) :
    s.step c n = s.step c n' := by
  rcases mem_step_iff.mp h with ⟨hm, hc⟩ | ⟨-, ⟨hm, hl⟩ | ⟨⟨hm, -⟩, -⟩ | ⟨⟨hm, -⟩, -⟩⟩
  · apply step_lookahead
    · simp [hm]
    · rcases hc with ⟨rfl, -⟩ | ⟨rfl, -⟩ <;> simp
  · apply step_lookahead
    · simp [hm]
    · rintro - rfl
      simp [Sym.isNewline] at hl
  all_goals apply step_lookahead <;> simp [hm]

/-- A text behind which a flush is due reads alike whatever follows it. -/
theorem eq_of_flushAfter (n' : Option Sym) {u : Text}
    (h : .flushAfter ∈ ((s.runTo (some c) u).step c n).2) :
    s.momentsTo n' (u ++ [c]) = s.momentsTo n (u ++ [c]) ∧
      s.runTo n' (u ++ [c]) = s.runTo n (u ++ [c]) := by
  have hstep := step_eq_of_flushAfter n' h
  rw [momentsTo_concat, momentsTo_concat, runTo_concat, runTo_concat, hstep]
  simp [moment, hstep]

theorem settle_runTo (h : s.settle = s'.settle) (t : Text) :
    (s.runTo n t).settle = (s'.runTo n t).settle := by
  induction t generalizing s s' with
  | nil => exact h
  | cons c rest ih => exact ih (settle_congr h).2

theorem reading_runTo (h : s.reading = s'.reading) (t : Text) :
    (s.runTo n t).reading = (s'.runTo n t).reading := by
  induction t generalizing s s' with
  | nil => exact h
  | cons c rest ih => exact ih (reading_congr h)

end DocBlock.Scanner
