import Mathlib
import DocBlock.Proofs.Markers

/-! What holds of every state of the scanner, and which part of a state decides what comes next. -/

namespace DocBlock.Scanner

variable {s : Scanner} {c : Sym} {n : Option Sym}

@[simp] theorem step_mode : (s.step c n).1.mode = (s.stepMode c n).1.mode := rfl

@[simp] theorem step_resume : (s.step c n).1.resume = (s.stepMode c n).1.resume := rfl

@[simp] theorem step_braces : (s.step c n).1.braces = (s.stepMode c n).1.braces := rfl

@[simp] theorem step_parens : (s.step c n).1.parens = (s.stepMode c n).1.parens := rfl

@[simp] theorem step_opening : (s.step c n).1.opening = (s.stepMode c n).1.opening := rfl

@[simp] theorem step_star : (s.step c n).1.star = (s.stepMode c n).1.star := rfl

@[simp] theorem step_fileStart : (s.step c n).1.fileStart = (s.fileStart && c.isBlank) := rfl

@[simp] theorem step_lineStart :
    (s.step c n).1.lineStart = ((s.stepMode c n).1.lineStart && c.isBlank) := rfl

theorem stepMode_headerComment : (s.stepMode c n).1.headerComment = s.headerComment := by
  cases hm : s.mode <;> simp only [stepMode, hm]
  case normal => fun_cases stepNormal <;> simp [enterComment, closeBrace]
  case escape => fun_cases stepEscape <;> rfl
  case blockComment => fun_cases stepBlockComment <;> rfl
  case lineComment => fun_cases stepLineComment <;> rfl
  case directive => fun_cases stepDirective <;> simp [enterComment]
  all_goals fun_cases stepLiteral <;> rfl

theorem step_headerComment :
    (s.step c n).1.headerComment = true ↔
      .fileComment ∈ (s.step c n).2 ∨
        s.headerComment = true ∧ .flush ∉ (s.step c n).2 ∧ .flushAfter ∉ (s.step c n).2 := by
  simp only [step_markers]
  simp [step, stepMode_headerComment]

theorem step_between :
    (s.step c n).1.between = true ↔
      (s.stepMode c n).1.between = true ∨ .flush ∈ (s.step c n).2 ∨ .flushAfter ∈ (s.step c n).2 := by
  simp only [step_markers]
  simp [step]

@[simp] theorem enterComment_isComment : (s.enterComment n).1.mode.isComment = true := by
  unfold enterComment
  split <;> rfl

theorem not_isComment_escape {m : Mode} (h : m = .escape) : m.isComment = false := by
  rw [h]
  rfl

/-- The part of the invariant that does not concern the start of the file. -/
structure Steady (s : Scanner) : Prop where
  braces_nonneg : 0 ≤ s.braces
  parens_nonneg : 0 ≤ s.parens
  isComment_of_opening : s.opening = true → s.mode.isComment = true
  of_star : s.star = true → s.mode = .blockComment ∧ s.opening = false
  resume_of_isComment : s.mode.isComment = true → s.resume = .normal ∨ s.resume = .directive
  resume_of_escape : s.mode = .escape →
    s.resume = .normal ∨ s.resume = .directive ∨ s.resume = .charLiteral ∨ s.resume = .stringLiteral

/-- What every state satisfies that a text can lead to. -/
structure Valid (s : Scanner) : Prop extends Steady s where
  of_headerComment : s.headerComment = true →
    s.mode.isComment = true ∧ s.braces = 0 ∧ s.resume = .normal ∧ s.fileStart = false
  eq_of_fileStart : s.fileStart = true → s = {}

theorem valid_initial : Valid {} where
  toSteady := by constructor <;> simp [Mode.isComment]
  of_headerComment := by simp
  eq_of_fileStart _ := rfl

theorem Steady.quiet (h : s.Steady) (hm : s.mode.isComment = false) :
    s.opening = false ∧ s.star = false := by
  have ho := h.isComment_of_opening
  have hs := h.of_star
  constructor
  · grind
  · by_contra hc
    have := (hs (by simpa using hc)).1
    simp [this, Mode.isComment] at hm

theorem Steady.enterComment (h : s.Steady) (hm : s.mode = .normal ∨ s.mode = .directive) :
    (s.enterComment n).1.Steady where
  braces_nonneg := h.braces_nonneg
  parens_nonneg := h.parens_nonneg
  isComment_of_opening _ := enterComment_isComment
  of_star hs := by simp [Scanner.enterComment] at hs
  resume_of_isComment _ := hm
  resume_of_escape he := by
    have := not_isComment_escape he
    simp at this

theorem Steady.stepMode (h : s.Steady) : (s.stepMode c n).1.Steady := by
  cases hm : s.mode <;> simp only [Scanner.stepMode, hm]
  case normal =>
    obtain ⟨ho, hs⟩ := h.quiet (by simp [hm, Mode.isComment])
    have hb := h.braces_nonneg
    have hp := h.parens_nonneg
    fun_cases stepNormal
    case case2 => exact h.enterComment (.inl hm)
    all_goals
      constructor <;> simp_all [closeBrace, Mode.isComment] <;> omega
  case escape =>
    obtain ⟨ho, hs⟩ := h.quiet (by simp [hm, Mode.isComment])
    have hr := h.resume_of_escape hm
    fun_cases stepEscape
    · exact h
    · exact ⟨h.braces_nonneg, h.parens_nonneg, by simp [ho], by simp [hs], by grind [Mode.isComment],
        by grind⟩
  case blockComment =>
    have hr := h.resume_of_isComment (by simp [hm, Mode.isComment])
    fun_cases stepBlockComment
    all_goals constructor <;> simp_all [Mode.isComment, h.braces_nonneg, h.parens_nonneg]
    grind [h.of_star]
  case lineComment =>
    have hs : s.star = false := by
      by_contra hc
      simp [(h.of_star (by simpa using hc)).1] at hm
    have hr := h.resume_of_isComment (by simp [hm, Mode.isComment])
    fun_cases stepLineComment
    all_goals constructor <;> simp_all [Mode.isComment, h.braces_nonneg, h.parens_nonneg]
  case directive =>
    obtain ⟨ho, hs⟩ := h.quiet (by simp [hm, Mode.isComment])
    fun_cases stepDirective
    case case3 => exact h.enterComment (.inr hm)
    all_goals constructor <;> simp_all [Mode.isComment, h.braces_nonneg, h.parens_nonneg]
  all_goals
    obtain ⟨ho, hs⟩ := h.quiet (by simp [hm, Mode.isComment])
    fun_cases stepLiteral
    all_goals constructor <;> simp_all [Mode.isComment, h.braces_nonneg, h.parens_nonneg]

theorem Steady.step (h : s.Steady) : (s.step c n).1.Steady :=
  ⟨h.stepMode.1, h.stepMode.2, h.stepMode.3, h.stepMode.4, h.stepMode.5, h.stepMode.6⟩

/-- A blank changes nothing but whether a line starts. -/
theorem stepNormal_blank (hc : c.isBlank = true) :
    s.stepNormal c n = (if c.isNewline then { s with lineStart := true } else s, []) := by
  fun_cases stepNormal <;> simp_all [Sym.isBlank, inRanges, blankRanges]

theorem stepMode_blank_initial (hc : c.isBlank = true) : ({} : Scanner).stepMode c n = ({}, []) := by
  change ({} : Scanner).stepNormal c n = _
  rw [stepNormal_blank hc]
  split <;> rfl

/-- Blanks at the start of a file change nothing. -/
theorem step_blank_initial (hc : c.isBlank = true) : ({} : Scanner).step c n = ({}, []) := by
  simp [step, stepMode_blank_initial hc, headMarkers, hc]

theorem stepMode_initial_of_isComment (h : (({} : Scanner).stepMode c n).1.mode.isComment = true) :
    ({} : Scanner).stepMode c n = ({} : Scanner).enterComment n := by
  revert h
  simp only [stepMode]
  fun_cases stepNormal <;> simp_all [closeBrace, Mode.isComment]

theorem stepMode_of_opensComment (h : s.OpensComment c n) : s.stepMode c n = s.enterComment n := by
  obtain ⟨hm | hm, rfl, ho⟩ := h
  · simp [stepMode, hm, stepNormal, ho]
  · simp [stepMode, hm, stepDirective, ho, Sym.isNewline]

theorem stepMode_of_closesBlock (h : s.ClosesBlock c) :
    s.stepMode c n =
      ({ s with mode := s.resume, star := false },
        if s.braces = 0 then .descriptionEndAfter :: (if s.headerComment then [.flushAfter] else [])
        else [.commentEnd]) := by
  obtain ⟨hm, ho, hs, rfl⟩ := h
  simp [stepMode, hm, stepBlockComment, ho, hs]

theorem stepMode_of_closesLine (h : s.ClosesLine c) :
    s.stepMode c n =
      ({ s with mode := .normal, lineStart := true },
        if s.braces = 0 then
          .descriptionEnd ::
            (if s.resume = .directive then [.flushAfter]
            else if s.headerComment then [.flush] else [])
        else [.commentEnd]) := by
  obtain ⟨hm, ho, hl⟩ := h
  simp [stepMode, hm, stepLineComment, ho, hl]

/-- A comment in progress goes on, or its end is marked. -/
theorem stepMode_of_isComment (hm : s.mode.isComment = true) (hb : s.ClosesBlock c → False)
    (hl : s.ClosesLine c → False) :
    (s.stepMode c n).1.mode = s.mode ∧ (s.stepMode c n).1.resume = s.resume ∧
      (s.stepMode c n).1.braces = s.braces ∧ (s.stepMode c n).2 = [] := by
  cases h : s.mode <;> simp only [h, Mode.isComment, Bool.false_eq_true] at hm <;>
    simp only [stepMode, h]
  · fun_cases stepBlockComment <;> simp_all [ClosesBlock]
  · fun_cases stepLineComment <;> simp_all [ClosesLine]

/-- A comment that is in progress behind the symbol was so before, or starts with it. -/
theorem Steady.of_isComment_stepMode (h : s.Steady)
    (hc : (s.stepMode c n).1.mode.isComment = true) :
    (s.stepMode c n).1.braces = s.braces ∧ (s.OpensComment c n ∨ s.mode.isComment = true) := by
  revert hc
  cases hm : s.mode <;> simp only [Scanner.stepMode, hm]
  case normal =>
    fun_cases stepNormal <;> simp_all [OpensComment, closeBrace, Mode.isComment, Scanner.enterComment]
  case escape =>
    have hr := h.resume_of_escape hm
    fun_cases stepEscape <;> grind [Mode.isComment]
  case blockComment => fun_cases stepBlockComment <;> simp [Mode.isComment]
  case lineComment => fun_cases stepLineComment <;> simp [Mode.isComment]
  case directive =>
    fun_cases stepDirective <;> simp_all [OpensComment, Mode.isComment, Scanner.enterComment]
  all_goals fun_cases stepLiteral <;> simp_all [Mode.isComment]

/-- At the start of a file, a comment is in progress behind the symbol that opens it. -/
theorem isComment_stepMode_initial :
    (({} : Scanner).stepMode c n).1.mode.isComment = true ↔ ({} : Scanner).OpensComment c n := by
  constructor
  · intro h
    have ho := (valid_initial.toSteady.of_isComment_stepMode h).2
    exact ho.resolve_right (by simp [Mode.isComment])
  · intro h
    rw [stepMode_of_opensComment h]
    exact enterComment_isComment

theorem Valid.step (h : s.Valid) : (s.step c n).1.Valid where
  toSteady := ⟨h.stepMode.1, h.stepMode.2, h.stepMode.3, h.stepMode.4, h.stepMode.5, h.stepMode.6⟩
  of_headerComment hh := by
    rcases step_headerComment.mp hh with hf | ⟨hh, hf, ha⟩
    · obtain ⟨hs, hc, hm⟩ := mem_step_iff.mp hf
      obtain rfl := h.eq_of_fileStart hs
      have he := stepMode_initial_of_isComment hm
      simp [he, hc]
      simp [enterComment]
    · obtain ⟨hm, hb, hr, hs⟩ := h.of_headerComment hh
      rw [mem_step_iff] at hf ha
      obtain ⟨h₁, h₂, h₃, -⟩ := stepMode_of_isComment (c := c) (n := n) hm
        (fun hc => ha (.inr ⟨hb, .inr (.inl ⟨hc, hh⟩)⟩))
        (fun hc => hf ⟨hb, .inr ⟨hc, by simp [hr], hh⟩⟩)
      simp [h₁, h₂, h₃, hm, hb, hr, hs]
  eq_of_fileStart hf := by
    simp only [step_fileStart, Bool.and_eq_true] at hf
    rw [h.eq_of_fileStart hf.1, step_blank_initial hf.2]

theorem Valid.runTo (h : s.Valid) (t : Text) : (s.runTo n t).Valid := by
  induction t generalizing s with
  | nil => exact h
  | cons c rest ih => exact ih h.step

theorem valid_of_mem (h : s.Valid) {t : Text} {m : Moment} (hm : m ∈ s.momentsTo n t) :
    m.before.Valid := by
  induction t generalizing s with
  | nil => simp at hm
  | cons c rest ih =>
    rcases List.mem_cons.mp hm with rfl | hm
    · exact h
    · exact ih h.step hm

/-- Whatever the text, the scanner is in a valid state before and after each symbol and at the end. -/
theorem moments_valid (t : Text) :
    (({} : Scanner).run t).Valid ∧
      ∀ m ∈ ({} : Scanner).moments t, m.before.Valid ∧ m.after.Valid := by
  constructor
  · rw [← runTo_none]
    exact valid_initial.runTo t
  · intro m hm
    rw [← momentsTo_none] at hm
    obtain ⟨n, hn⟩ := exists_step_of_mem hm
    have hb : m.before.Valid := valid_of_mem valid_initial hm
    constructor
    · exact hb
    · rw [hn]
      exact hb.step

/-- The header comment is in progress and a star has been read. -/
theorem moments_valid_header :
    ∃ m ∈ ({} : Scanner).moments (Text.ofString "/*a*/"),
      (m.before.headerComment = true ∧ m.before.star = true) ∧ m.before.Valid ∧ m.after.Valid := by
  obtain ⟨m, hm, hstar⟩ : ∃ m ∈ ({} : Scanner).moments (Text.ofString "/*a*/"),
      m.before.headerComment = true ∧ m.before.star = true := by decide +kernel
  exact ⟨m, hm, hstar, (moments_valid _).2 m hm⟩

end DocBlock.Scanner
