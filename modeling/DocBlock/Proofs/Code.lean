import Mathlib
import DocBlock.Proofs.Comment

/-! What is read as code. A block is read as comment where it is put, provided that nothing in it ends
the comment and that it does not split a literal, so the code of a text survives. -/

namespace DocBlock

open Scanner (Moment)

/-- The symbol is read in a comment, or opens or closes one. -/
def Scanner.Moment.inComment (m : Moment) : Bool := m.before.mode.isComment || m.after.mode.isComment

def Scanner.Moment.isCode (m : Moment) : Bool := !m.inComment && !m.sym.isBlank

/-- The symbols that are code, in order. -/
def codeOf (ms : List Moment) : Text := (ms.filter (·.isCode)).map (·.sym)

/-- The code of a whole text. -/
def code (t : Text) : Text := codeOf (Scanner.moments {} t)

@[simp] theorem codeOf_nil : codeOf [] = [] := rfl

@[simp] theorem codeOf_append (a b : List Moment) : codeOf (a ++ b) = codeOf a ++ codeOf b := by
  simp [codeOf]

theorem codeOf_cons (m : Moment) (b : List Moment) :
    codeOf (m :: b) = (if m.isCode then [m.sym] else []) ++ codeOf b := by
  unfold codeOf
  rw [List.filter_cons]
  split <;> simp

theorem codeOf_eq_nil {ms : List Moment} (h : ∀ m ∈ ms, m.isCode = false) : codeOf ms = [] := by
  simpa [codeOf] using h

theorem isCode_of_blank {m : Moment} (h : m.sym.isBlank = true) : m.isCode = false := by
  simp [Scanner.Moment.isCode, h]

theorem isCode_of_inTopComment {m : Moment} (h : m.inTopComment = true) : m.isCode = false := by
  have hc : m.inComment = true := by
    simp only [Scanner.Moment.inTopComment, Bool.and_eq_true, Bool.or_eq_true,
      decide_eq_true_eq] at h
    rcases h.2 with ha | hb
    · simp [Scanner.Moment.inComment, ha]
    · simp [Scanner.Moment.inComment, hb, Mode.isComment]
  simp [Scanner.Moment.isCode, hc]

theorem Sym.isBlank_of_isNewline {c : Sym} (h : c.isNewline = true) : c.isBlank = true := by
  simp only [Sym.isNewline, Bool.or_eq_true, decide_eq_true_eq] at h
  rcases h with rfl | rfl <;> decide

theorem Sym.isNewline_of_not_blank {c : Sym} (h : c.isBlank = false) : c.isNewline = false := by
  by_contra hn
  rw [isBlank_of_isNewline (by simpa using hn)] at h
  contradiction

namespace Scanner

variable {s s' : Scanner} {c d : Sym} {n : Option Sym}

/-- Reading code, at the start of a line or not. -/
def coding (b : Bool) : Scanner := { lineStart := b, fileStart := false }

theorem coding_fresh (b : Bool) : (coding b).Fresh where
  valid := ⟨by constructor <;> simp [coding, Mode.isComment], by simp [coding], by simp [coding]⟩
  braces := rfl
  fileStart := rfl
  headerComment := rfl
  mode := .inl rfl

theorem reading_coding (b : Bool) : (coding b).reading = coding b := rfl

theorem reading_of_normal (h : s.Steady) (hm : s.mode = .normal) : s.reading = coding s.lineStart := by
  obtain ⟨ho, hs⟩ := h.quiet (by simp [hm, Mode.isComment])
  simp [reading, settle, coding, hm, ho, hs, Mode.isComment]

theorem mode_of_reading (h : s.reading = s'.reading) : s.mode = s'.mode := by
  have := congrArg mode h
  exact this

theorem isCode_congr (h : s.reading = s'.reading) :
    (s.moment n c).isCode = (s'.moment n c).isCode := by
  have ha := mode_of_reading (reading_congr (c := c) (n := n) h)
  simp only [Moment.isCode, Moment.inComment, moment_before, moment_after, moment_sym,
    mode_of_reading h, ha]

theorem codeOf_congr (h : s.reading = s'.reading) (t : Text) :
    codeOf (s.momentsTo n t) = codeOf (s'.momentsTo n t) := by
  induction t generalizing s s' with
  | nil => rfl
  | cons c rest ih =>
    rw [momentsTo_cons, momentsTo_cons, codeOf_cons, codeOf_cons, isCode_congr h,
      ih (reading_congr h)]
    rfl

theorem code_block {b : Bool} (h : s.reading = coding b) {body : Text}
    (hb : ¬ closer <:+: body ++ [Sym.char '*']) :
    let t : Text := .char '/' :: .char '*' :: (body ++ [Sym.char '*', .char '/'])
    codeOf (s.momentsTo n t) = [] ∧ (s.runTo n t).reading = coding false := by
  intro t
  have hr : s.reading = (coding b).reading := h
  obtain ⟨hrun, first, middle, last, hm, -, h₁, h₂, -, h₃⟩ :=
    scan_block (n := n) (coding_fresh b) rfl hb
  rw [codeOf_congr hr, reading_runTo hr, hrun, hm]
  refine ⟨codeOf_eq_nil ?_, rfl⟩
  rw [List.forall_mem_cons, List.forall_mem_append]
  refine ⟨isCode_of_inTopComment h₁, fun m hm => isCode_of_inTopComment (h₂ m hm).2, ?_⟩
  simpa using isCode_of_inTopComment h₃

/-- A line break in code starts a new line and is no code itself. -/
theorem code_newline {b : Bool} (h : s.reading = coding b) (hc : c.isNewline = true) :
    (s.moment n c).isCode = false ∧ (s.step c n).1.reading = coding true := by
  refine ⟨isCode_of_blank (Sym.isBlank_of_isNewline hc), ?_⟩
  have hr : s.reading = (coding b).reading := h
  rw [reading_congr hr]
  simp only [Sym.isNewline, Bool.or_eq_true, decide_eq_true_eq] at hc
  rcases hc with rfl | rfl <;> cases b <;> rfl

/-- Code is read, maybe within an escape. -/
def Plain (s : Scanner) : Prop := s.mode = .normal ∨ s.mode = .escape ∧ s.resume = .normal

theorem Plain.isComment (h : s.Plain) : s.mode.isComment = false := by
  rcases h with h | ⟨h, -⟩ <;> simp [h, Mode.isComment]

theorem isCode_of_plain (h : s.Plain) (h' : (s.step c n).1.Plain) :
    (s.moment n c).isCode = !c.isBlank := by
  have ha := h'.isComment
  rw [step_mode] at ha
  simp [Moment.isCode, Moment.inComment, h.isComment, ha]

/-- Code that is read behind a symbol outside bodies was read before it, unless a flush is due, a
comment ends or a literal does. -/
theorem plain_of_step (hm : (s.step c n).1.mode = .normal) (hb : (s.step c n).1.braces = 0)
    (hf : .flushAfter ∉ (s.step c n).2) (he : .descriptionEnd ∉ (s.step c n).2)
    (ha : .descriptionEndAfter ∉ (s.step c n).2) (h₁ : c ≠ .char '\'') (h₂ : c ≠ .char '"') :
    s.Plain := by
  rw [mem_step_iff] at hf he ha
  rw [step_mode] at hm
  rw [step_braces] at hb
  cases h : s.mode <;> simp only [stepMode, h] at hm hb
  case normal => exact .inl h
  case escape =>
    revert hm
    fun_cases stepEscape
    · simp [h]
    · exact fun hr => .inr ⟨h, hr⟩
  case blockComment =>
    revert hm hb
    fun_cases stepBlockComment <;> simp_all [Due, ClosesBlock]
  case lineComment =>
    revert hm hb
    fun_cases stepLineComment <;> simp_all [Due, ClosesLine]
  case directive =>
    revert hm hb
    fun_cases stepDirective <;> simp_all [Due, enterComment]
    split <;> simp
  all_goals
    revert hm
    fun_cases stepLiteral <;> simp_all

/-- A line break put behind a symbol after which code is read does not change that. -/
theorem plain_newline (h : (s.step c (some d)).1.Plain) :
    (s.step c (some (.char '\n'))).1.Plain := by
  by_cases hp : s.mode = .escape → c.isNewline = false
  · by_cases hc : s.mode = .normal ∨ s.mode = .directive → c ≠ .char '/'
    · rwa [step_lookahead (some d) hp hc]
    · push Not at hc
      obtain ⟨hm, rfl⟩ := hc
      have hn : ¬ s.OpensComment (.char '/') (some d) := by
        intro ho
        have := h.isComment
        rw [step_mode, stepMode_of_opensComment ho, enterComment_isComment] at this
        contradiction
      have ho : opensComment (some d) = false := by
        simpa [OpensComment, hm] using hn
      have ho' : opensComment (some (.char '\n')) = false := by decide
      have : s.step (.char '/') (some d) = s.step (.char '/') (some (.char '\n')) := by
        have he : s.stepMode (.char '/') (some d) = s.stepMode (.char '/') (some (.char '\n')) := by
          rcases hm with hm | hm
          · simp [stepMode, hm, stepNormal, ho, ho']
          · simp [stepMode, hm, stepDirective, ho, ho', Sym.isNewline]
        simp only [step, he]
      rwa [← this]
  · push Not at hp
    obtain ⟨hm, -⟩ := hp
    have hr : s.resume = .normal := by
      unfold Plain at h
      rw [step_mode, step_resume] at h
      simp only [stepMode, hm] at h
      revert h
      fun_cases stepEscape
      · simp [hm]
      · rintro (hr | ⟨-, hr⟩) <;> exact hr
    unfold Plain
    rw [step_mode, step_resume]
    simp only [stepMode, hm]
    fun_cases stepEscape <;> simp [hm, hr]

theorem Plain.step_newline (h : s.Plain) (hs : s.Steady) (hn : n ≠ some (.char '\r')) :
    ∃ b, (s.step (.char '\n') n).1.reading = coding b := by
  refine ⟨_, reading_of_normal hs.step ?_⟩
  rw [step_mode]
  rcases h with hm | ⟨hm, hr⟩
  · simp [stepMode, hm, stepNormal, Sym.isNewline]
  · simp [stepMode, hm, stepEscape, isLinePair, hn, hr]

/-- A word symbol is code and leaves the start of the line behind. -/
theorem Plain.step_word (h : s.Plain) (hs : s.Steady) (hc : isSpecial c = false)
    (hb : c.isBlank = false) :
    (s.moment n c).isCode = true ∧ (s.step c n).1.reading = coding false := by
  have hm : (s.step c n).1.mode = .normal := by
    rw [step_mode]
    simp only [isSpecial, Bool.or_eq_false_iff, decide_eq_false_iff_not] at hc
    rcases h with hm | ⟨hm, hr⟩
    · simp only [stepMode, hm]
      fun_cases stepNormal <;> simp_all
    · have hl := hc.2
      simp only [Sym.isNewline, Bool.or_eq_false_iff, decide_eq_false_iff_not] at hl
      simp [stepMode, hm, stepEscape, isLinePair, hl.1, hl.2, hr]
  refine ⟨?_, ?_⟩
  · rw [isCode_of_plain h (.inl hm), hb]
    rfl
  · rw [reading_of_normal hs.step hm, step_lineStart, hb, Bool.and_false]

/-- The symbol that is moved below a block. -/
theorem plain_moved (hr : s.reading = coding false) (h₁ : c ≠ .char '\'')
    (h₂ : c ≠ .char '"') (ho : ¬ (c = .char '/' ∧ opensComment n = true)) :
    (s.step c n).1.Plain := by
  have hm : s.mode = (coding false).mode := mode_of_reading hr
  change s.mode = .normal at hm
  have hl : s.lineStart = false := congrArg lineStart hr
  unfold Plain
  rw [step_mode, step_resume]
  simp only [stepMode, hm]
  fun_cases stepNormal <;> simp_all [closeBrace]

theorem Plain.break {u : Text} (h : (s.runTo (some d) u).Plain) :
    codeOf (s.momentsTo (some (.char '\n')) u) = codeOf (s.momentsTo (some d) u) ∧
      (s.runTo (some (.char '\n')) u).Plain := by
  rcases List.eq_nil_or_concat' u with rfl | ⟨w, x, rfl⟩
  · exact ⟨rfl, h⟩
  · rw [runTo_concat] at h ⊢
    have h' := plain_newline h
    have hcode : ((s.runTo (some x) w).moment (some (.char '\n')) x).isCode =
        ((s.runTo (some x) w).moment (some d) x).isCode := by
      have h₁ := h.isComment
      have h₂ := h'.isComment
      rw [step_mode] at h₁ h₂
      simp [Moment.isCode, Moment.inComment, h₁, h₂]
    rw [momentsTo_concat, momentsTo_concat, codeOf_append, codeOf_append, codeOf_cons, codeOf_cons,
      hcode]
    exact ⟨rfl, h'⟩

/-- A block on a line of its own is no code. -/
theorem Plain.code_block (h : s.Plain) (hs : s.Steady) {body : Text}
    (hb : ¬ closer <:+: body ++ [Sym.char '*']) :
    let t : Text := .char '\n' :: .char '/' :: .char '*' :: (body ++ [Sym.char '*', .char '/'])
    codeOf (s.momentsTo n t) = [] ∧ (s.runTo n t).reading = coding false := by
  intro t
  obtain ⟨b, hr⟩ := h.step_newline (n := some (.char '/')) hs (by simp)
  obtain ⟨hc, hr⟩ := Scanner.code_block (n := n) hr hb
  refine ⟨?_, hr⟩
  have hn : (s.moment (some (.char '/')) (.char '\n')).isCode = false :=
    isCode_of_blank (show (Sym.char '\n').isBlank = true by decide)
  rw [momentsTo_cons, codeOf_cons]
  simpa [hn] using hc

/-- The symbol before a word and the first symbol of the word. -/
theorem Plain.code_pair (h : s.Plain) (hs : s.Steady) (h' : (s.step d (some c)).1.Plain)
    (hc : isSpecial c = false) (hb : c.isBlank = false) :
    codeOf (s.momentsTo n [d, c]) = (if d.isBlank then [] else [d]) ++ [c] ∧
      (s.runTo n [d, c]).reading = coding false := by
  obtain ⟨hcode, hr⟩ := h'.step_word (n := n) hs.step hc hb
  have hn : ([c] : Text).head?.or n = some c := rfl
  refine ⟨?_, hr⟩
  rw [momentsTo_cons, momentsTo_cons, hn, codeOf_cons, codeOf_cons, isCode_of_plain h h']
  have hcode' : ((s.step d (some c)).1.moment (([] : Text).head?.or n) c).isCode = true := hcode
  rw [hcode']
  cases hd : d.isBlank <;> simp

theorem stepMode_lineStart (hm : s.mode = .normal) (hc : c ≠ .char '#') (l : Bool) :
    (({ s with lineStart := l } : Scanner).stepMode c n).2 = (s.stepMode c n).2 ∧
      { (({ s with lineStart := l } : Scanner).stepMode c n).1 with lineStart := false } =
        { (s.stepMode c n).1 with lineStart := false } := by
  simp only [stepMode, hm]
  fun_cases stepNormal s c n
  case case4 | case5 => contradiction
  all_goals
    simp only [stepNormal, *]
    simp [enterComment, closeBrace, *]

/-- Whether a line starts matters for a directive only. -/
theorem step_word (hm : s.mode = .normal) (hb : c.isBlank = false) (hc : c ≠ .char '#') (l : Bool) :
    ({ s with lineStart := l } : Scanner).step c n = s.step c n := by
  obtain ⟨hmarkers, hstate⟩ := stepMode_lineStart (n := n) hm hc l
  simp only [step, hmarkers, hb, Bool.and_false]
  generalize (({ s with lineStart := l } : Scanner).stepMode c n).1 = t at *
  generalize (s.stepMode c n).1 = t' at *
  cases t
  cases t'
  simp_all [headMarkers]

theorem code_lineStart {t : Text} (hne : t.dropWhile Sym.isBlank ≠ [])
    (h : (t.dropWhile Sym.isBlank).head? ≠ some (.char '#')) (b b' : Bool) :
    codeOf ((coding b).momentsTo n t) = codeOf ((coding b').momentsTo n t) ∧
      ((coding b).runTo n t).reading = ((coding b').runTo n t).reading := by
  induction t generalizing b b' with
  | nil => simp at hne
  | cons c rest ih =>
    rw [momentsTo_cons, momentsTo_cons, codeOf_cons, codeOf_cons, runTo_cons, runTo_cons]
    generalize rest.head?.or n = m
    by_cases hc : c.isBlank = true
    · rw [List.dropWhile_cons_of_pos hc] at hne h
      have hstep (b : Bool) :
          ∃ b', ((coding b).step c m).1.reading = (coding b').reading := by
        refine ⟨_, reading_of_normal (coding_fresh b).valid.toSteady.step ?_⟩
        rw [step_mode]
        change ((coding b).stepNormal c m).1.mode = .normal
        rw [stepNormal_blank hc]
        split <;> rfl
      obtain ⟨b₁, h₁⟩ := hstep b
      obtain ⟨b₂, h₂⟩ := hstep b'
      obtain ⟨ihc, ihr⟩ := ih hne h b₁ b₂
      rw [isCode_of_blank hc, isCode_of_blank hc, codeOf_congr h₁, codeOf_congr h₂,
        reading_runTo h₁, reading_runTo h₂, ihc, ihr]
      exact ⟨rfl, rfl⟩
    · rw [List.dropWhile_cons_of_neg (by simpa using hc)] at h
      have hstep : (coding b).step c m = (coding b').step c m :=
        step_word (s := coding b') rfl (by simpa using hc) (by simpa using h) b
      have hr : ((coding b).step c m).1.reading = ((coding b').step c m).1.reading := by rw [hstep]
      have hcode : ((coding b).moment m c).isCode = ((coding b').moment m c).isCode := by
        simp only [Moment.isCode, Moment.inComment, moment_before, moment_after, moment_sym,
          mode_of_reading hr]
        rfl
      rw [hcode, codeOf_congr hr, reading_runTo hr]
      exact ⟨rfl, rfl⟩

end Scanner

/-- Read from the same state, the two texts hold the same code and lead to the same. -/
def ReadAlike (s : Scanner) (n : Option Sym) (a b : Text) : Prop :=
  codeOf (s.momentsTo n a) = codeOf (s.momentsTo n b) ∧
    (s.runTo n a).reading = (s.runTo n b).reading

theorem ReadAlike.append {s : Scanner} {n : Option Sym} {a b v : Text}
    (h : ReadAlike s (v.head?.or n) a b) : ReadAlike s n (a ++ v) (b ++ v) := by
  unfold ReadAlike
  rw [Scanner.momentsTo_append, Scanner.momentsTo_append, codeOf_append, codeOf_append,
    Scanner.runTo_append, Scanner.runTo_append, h.1, Scanner.codeOf_congr h.2,
    Scanner.reading_runTo h.2]
  exact ⟨rfl, rfl⟩

end DocBlock
