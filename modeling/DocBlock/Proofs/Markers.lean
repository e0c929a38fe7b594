import Mathlib
import DocBlock.Proofs.Scan

/-! When each marker is due: the scanner gives a marker exactly where the state and the symbol call
for it. -/

namespace DocBlock.Scanner

variable (s : Scanner) (c : Sym) (n : Option Sym)

/-- A comment starts with the symbol. -/
def OpensComment : Prop :=
  (s.mode = .normal ∨ s.mode = .directive) ∧ c = .char '/' ∧ opensComment n = true

def ClosesBlock : Prop :=
  s.mode = .blockComment ∧ s.opening = false ∧ s.star = true ∧ c = .char '/'

def ClosesLine : Prop :=
  s.mode = .lineComment ∧ s.opening = false ∧ c.isNewline = true

/-- Symbols that are more than a part of a word where code is read. -/
def isSpecial (c : Sym) : Bool :=
  c = '\\' || c = '/' || c = '#' || c = '\'' || c = '"' || c = '(' || c = ')' || c = '{' || c = '}' ||
    c = ';' || c.isNewline

/-- A declaration or statement starts with the symbol. -/
def StartsWord : Prop :=
  s.mode = .normal ∧ s.between = true ∧ isSpecial c = false ∧ c.isBlank = false

/-- The condition under which the scanner gives a marker. -/
def Due : Marker → Prop
  | .flush =>
    s.braces = 0 ∧ (s.OpensComment c n ∨
      s.ClosesLine c ∧ s.resume ≠ .directive ∧ s.headerComment = true)
  | .flushAfter =>
    s.mode = .normal ∧ (c = .char '}' ∧ (s.braces = 0 ∨ s.braces = 1) ∨ c = .char ';' ∧ s.braces = 0) ∨
      s.braces = 0 ∧ (s.mode = .directive ∧ c.isNewline = true ∨
        s.ClosesBlock c ∧ s.headerComment = true ∨ s.ClosesLine c ∧ s.resume = .directive)
  | .fileComment =>
    s.fileStart = true ∧ c.isBlank = false ∧ (s.stepMode c n).1.mode.isComment = true
  | .fileHeader =>
    s.fileStart = true ∧ c.isBlank = false ∧ (s.stepMode c n).1.mode.isComment = false
  | .descriptionStart => s.braces = 0 ∧ s.OpensComment c n
  | .descriptionEnd => s.braces = 0 ∧ s.ClosesLine c
  | .descriptionEndAfter => s.braces = 0 ∧ s.ClosesBlock c
  | .descriptionDiscard => s.braces = 0 ∧ s.mode = .normal ∧ c = .char '#' ∧ s.lineStart = true
  | .commentStart => s.braces ≠ 0 ∧ s.OpensComment c n
  | .commentEnd => s.braces ≠ 0 ∧ (s.ClosesBlock c ∨ s.ClosesLine c)
  | .statementStart => s.braces ≠ 0 ∧ s.StartsWord c
  | .statementEnd =>
    s.braces ≠ 0 ∧ s.mode = .normal ∧
      (c = .char '{' ∨ c = .char '}' ∧ s.braces ≠ 1 ∨ c = .char ';')
  | .functionStart => s.braces = 0 ∧ s.StartsWord c
  | .parametersStart => s.braces = 0 ∧ s.mode = .normal ∧ c = .char '(' ∧ s.parens = 0
  | .parametersEnd => s.braces = 0 ∧ s.mode = .normal ∧ c = .char ')' ∧ s.parens = 1
  | .bodyStart => s.braces = 0 ∧ s.mode = .normal ∧ c = .char '{'
  | .bodyEnd => s.braces = 1 ∧ s.mode = .normal ∧ c = .char '}'

variable {s c n}

theorem step_markers :
    (s.step c n).2 = (s.stepMode c n).2 ++ s.headMarkers c (s.stepMode c n).1.mode := rfl

theorem mem_headMarkers {m : Marker} {after : Mode} :
    m ∈ s.headMarkers c after ↔
      s.fileStart = true ∧ c.isBlank = false ∧
        m = if after.isComment then .fileComment else .fileHeader := by
  unfold headMarkers
  split <;> simp_all

theorem due_of_mem_stepMode {m : Marker} (h : m ∈ (s.stepMode c n).2) : s.Due c n m := by
  revert h
  cases hm : s.mode <;> simp only [stepMode, hm]
  case normal =>
    fun_cases stepNormal <;> simp_all [enterComment, closeBrace] <;>
      grind [Due, OpensComment, StartsWord, isSpecial]
  case escape => simp
  case blockComment =>
    fun_cases stepBlockComment <;> simp_all
    grind [Due, ClosesBlock]
  case lineComment =>
    fun_cases stepLineComment <;> simp_all
    grind [Due, ClosesLine]
  case directive =>
    fun_cases stepDirective <;> simp_all [enterComment] <;> grind [Due, OpensComment]
  case charLiteral => simp
  case stringLiteral => simp

theorem mem_stepMode_of_due {m : Marker} (h : s.Due c n m) (hc : m ≠ .fileComment)
    (hh : m ≠ .fileHeader) : m ∈ (s.stepMode c n).2 := by
  cases m
  case fileComment | fileHeader => contradiction
  case flush =>
    rcases h with ⟨hb, ⟨hm | hm, rfl, ho⟩ | ⟨⟨hm, ho, hl⟩, hr, hd⟩⟩
    · simp [stepMode, hm, stepNormal, ho, enterComment, hb]
    · simp [stepMode, hm, stepDirective, ho, enterComment, hb, Sym.isNewline]
    · simp [stepMode, hm, stepLineComment, ho, hl, hb, hr, hd]
  case flushAfter =>
    rcases h with ⟨hm, ⟨rfl, hb | hb⟩ | ⟨rfl, hb⟩⟩ |
      ⟨hb, ⟨hm, hl⟩ | ⟨⟨hm, ho, hs, rfl⟩, hd⟩ | ⟨⟨hm, ho, hl⟩, hr⟩⟩
    · simp [stepMode, hm, stepNormal, closeBrace, hb]
    · simp [stepMode, hm, stepNormal, closeBrace, hb]
    · simp [stepMode, hm, stepNormal, hb]
    · have hne : c ≠ .char '\\' := by rintro rfl; simp [Sym.isNewline] at hl
      simp [stepMode, hm, stepDirective, hb, hl, hne]
    · simp [stepMode, hm, stepBlockComment, hb, ho, hs, hd]
    · simp [stepMode, hm, stepLineComment, hb, ho, hl, hr]
  case descriptionStart | commentStart =>
    obtain ⟨hb, hm | hm, rfl, ho⟩ := h
    · simp [stepMode, hm, stepNormal, ho, enterComment, hb]
    · simp [stepMode, hm, stepDirective, ho, enterComment, hb, Sym.isNewline]
  case descriptionEnd =>
    obtain ⟨hb, hm, ho, hl⟩ := h
    simp [stepMode, hm, stepLineComment, ho, hl, hb]
  case descriptionEndAfter =>
    obtain ⟨hb, hm, ho, hs, rfl⟩ := h
    simp [stepMode, hm, stepBlockComment, ho, hs, hb]
  case commentEnd =>
    rcases h with ⟨hb, ⟨hm, ho, hs, rfl⟩ | ⟨hm, ho, hl⟩⟩
    · simp [stepMode, hm, stepBlockComment, ho, hs, hb]
    · simp [stepMode, hm, stepLineComment, ho, hl, hb]
  case statementStart | functionStart =>
    obtain ⟨hb, hm, ht, hs, hn⟩ := h
    simp only [isSpecial, Bool.or_eq_false_iff, decide_eq_false_iff_not] at hs
    simp [stepMode, hm, stepNormal, hb, ht, hs, hn]
  case statementEnd =>
    rcases h with ⟨hb, hm, rfl | ⟨rfl, hb'⟩ | rfl⟩
    · simp [stepMode, hm, stepNormal, hb]
    · simp [stepMode, hm, stepNormal, closeBrace, hb, hb']
    · simp [stepMode, hm, stepNormal, hb]
  case descriptionDiscard =>
    obtain ⟨hb, hm, rfl, hl⟩ := h
    simp [stepMode, hm, stepNormal, hb, hl]
  case parametersStart | parametersEnd =>
    obtain ⟨hb, hm, rfl, hp⟩ := h
    simp [stepMode, hm, stepNormal, hb, hp]
  case bodyStart =>
    obtain ⟨hb, hm, rfl⟩ := h
    simp [stepMode, hm, stepNormal, hb]
  case bodyEnd =>
    obtain ⟨hb, hm, rfl⟩ := h
    simp [stepMode, hm, stepNormal, closeBrace, hb]

/-- A marker is given exactly when it is due. -/
theorem mem_step_iff {m : Marker} : m ∈ (s.step c n).2 ↔ s.Due c n m := by
  rw [step_markers, List.mem_append, mem_headMarkers]
  constructor
  · rintro (h | ⟨hf, hb, rfl⟩)
    · exact due_of_mem_stepMode h
    · split <;> simp_all [Due]
  · intro h
    by_cases hc : m = .fileComment
    · subst hc
      exact .inr ⟨h.1, h.2.1, by simp [h.2.2]⟩
    by_cases hh : m = .fileHeader
    · subst hh
      exact .inr ⟨h.1, h.2.1, by simp [h.2.2]⟩
    exact .inl (mem_stepMode_of_due h hc hh)

theorem nodup_stepMode :
    (s.stepMode c n).2.Nodup ∧ .fileComment ∉ (s.stepMode c n).2 ∧
      .fileHeader ∉ (s.stepMode c n).2 := by
  cases hm : s.mode <;> simp only [stepMode, hm]
  case normal => fun_cases stepNormal <;> simp [enterComment, closeBrace] <;> split_ifs <;> simp
  case escape | charLiteral | stringLiteral => simp
  case blockComment =>
    fun_cases stepBlockComment <;> simp
    split_ifs <;> simp
  case lineComment =>
    fun_cases stepLineComment <;> simp
    split_ifs <;> simp
  case directive => fun_cases stepDirective <;> simp [enterComment] <;> split_ifs <;> simp

/-- A marker is given at most once for a symbol. -/
theorem nodup_markers : (s.step c n).2.Nodup := by
  obtain ⟨hd, hc, hh⟩ := nodup_stepMode (s := s) (c := c) (n := n)
  rw [step_markers, headMarkers]
  split
  · split <;> simp [List.nodup_append, hd] <;> grind
  · simpa using hd

end DocBlock.Scanner
