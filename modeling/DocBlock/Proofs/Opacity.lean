import Mathlib
import DocBlock.Proofs.Comment
import DocBlock.Proofs.Escape

/-! Literals and block comments hide what stands in them. Where code is read, such a region leaves the
scanner in a state that does not depend on its inside, so one can stand for another. -/

namespace DocBlock

open Scanner (Moment isLinePair)

/-- What delimits a literal. -/
inductive Quote where
  | single | double
  deriving DecidableEq, Repr

/-- The block comment with this inside. -/
def blockComment (t : Text) : Text := .char '/' :: .char '*' :: (t ++ [Sym.char '*', .char '/'])

namespace Quote

def sym : Quote → Sym
  | single => .char '\''
  | double => .char '"'

/-- The mode inside the literal. -/
def mode : Quote → Mode
  | single => .charLiteral
  | double => .stringLiteral

/-- Symbols other than the quote and the backslash, and pairs of a backslash and any symbol. -/
inductive Body (q : Quote) : Text → Prop
  | nil : q.Body []
  | plain {c : Sym} {t : Text} : c ≠ q.sym → c ≠ .char '\\' → q.Body t → q.Body (c :: t)
  | pair {c : Sym} {t : Text} : q.Body t → q.Body (.char '\\' :: c :: t)

/-- The literal with this inside. -/
def literal (q : Quote) (t : Text) : Text := q.sym :: (t ++ [q.sym])

variable {q : Quote}

theorem isNewline_sym : q.sym.isNewline = false := by cases q <;> decide

theorem isBlank_sym : q.sym.isBlank = false := by cases q <;> decide

theorem hasEscapes_mode : q.mode.hasEscapes = true := by cases q <;> rfl

end Quote

namespace Scanner

variable {s s' s₁ : Scanner} {c : Sym} {n : Option Sym} {q : Quote} {t u : Text}

/-- The text leads from `s` to `s'` and nothing in it is marked. -/
structure ReadsQuietly (s : Scanner) (n : Option Sym) (t : Text) (s' : Scanner) : Prop where
  run : s.runTo n t = s'
  quiet : ∀ m ∈ s.momentsTo n t, m.markers = []

theorem step_of_quiet (h : s.stepMode c n = (s', [])) (hs : s.fileStart = false)
    (hf : s'.fileStart = false) (hl : s'.lineStart = false) : s.step c n = (s', []) := by
  cases s'
  simp_all [step, headMarkers]

theorem ReadsQuietly.nil : s.ReadsQuietly n [] s := ⟨rfl, by simp⟩

theorem ReadsQuietly.cons (hc : s.step c (t.head?.or n) = (s₁, [])) (h : s₁.ReadsQuietly n t s') :
    s.ReadsQuietly n (c :: t) s' := by
  constructor
  · rw [runTo_cons, hc]
    exact h.run
  · rw [momentsTo_cons, List.forall_mem_cons, moment_markers, hc]
    exact ⟨rfl, h.quiet⟩

/-! Literals. -/

theorem step_openQuote (h : s.InCode) :
    s.step q.sym n = ({ s with mode := q.mode, lineStart := false }, []) := by
  have hmode : s.stepMode q.sym n = ({ s with mode := q.mode }, []) := by
    cases q <;> simp [stepMode, h.mode, stepNormal, Quote.sym, Quote.mode]
  simp [step, hmode, headMarkers, h.fileStart, Quote.isBlank_sym]

/-- A literal is in progress. -/
structure InLiteral (q : Quote) (s : Scanner) : Prop where
  mode : s.mode = q.mode
  fileStart : s.fileStart = false
  lineStart : s.lineStart = false

namespace InLiteral

theorem step_close (h : InLiteral q s) : s.step q.sym n = ({ s with mode := .normal }, []) := by
  have hmode : s.stepMode q.sym n = ({ s with mode := .normal }, []) := by
    have hm := h.mode
    cases q <;> simp [stepMode, hm, Quote.mode, Quote.sym, stepLiteral]
  exact step_of_quiet hmode h.fileStart h.fileStart h.lineStart

theorem step_plain (h : InLiteral q s) (hq : c ≠ q.sym) (hc : c ≠ .char '\\') : s.step c n = (s, []) := by
  have hmode : s.stepMode c n = (s, []) := by
    have hm := h.mode
    cases q <;> simp [Quote.sym] at hq <;> simp [stepMode, hm, Quote.mode, stepLiteral, hc, hq]
  exact step_of_quiet hmode h.fileStart h.fileStart h.lineStart

theorem step_backslash (h : InLiteral q s) : s.step (.char '\\') n = (s.escaping, []) := by
  have hm : s.mode.hasEscapes = true := by
    rw [h.mode]
    exact Quote.hasEscapes_mode
  rw [Scanner.step_backslash hm, h.fileStart]
  rfl

theorem pastEscape (h : InLiteral q s) : InLiteral q s.pastEscape := ⟨h.mode, rfl, rfl⟩

/-- In an escape, the next symbol is passed over. If it is half of a line break, the escape may go on. -/
theorem escaping_cons (h₁ : s.pastEscape.ReadsQuietly n (t ++ [q.sym]) s')
    (h₂ : (∃ d ∈ t.head?, d.isNewline = true) → s.escaping.ReadsQuietly n (t ++ [q.sym]) s') :
    s.escaping.ReadsQuietly n (c :: (t ++ [q.sym])) s' := by
  have hstep := step_escaping (s := s) (c := c) (n := (t ++ [q.sym]).head?.or n)
  by_cases hp : isLinePair c ((t ++ [q.sym]).head?.or n) = true
  · rw [if_pos hp] at hstep
    apply ReadsQuietly.cons hstep
    apply h₂
    cases t with
    | nil =>
      have hq := Quote.isNewline_sym (q := q)
      rcases Text.isLinePair_iff.mp hp with ⟨-, hn⟩ | ⟨-, hn⟩
      all_goals
        obtain hq' : q.sym = _ := Option.some.inj hn
        simp [hq', Sym.isNewline] at hq
    | cons d t =>
      refine ⟨d, rfl, ?_⟩
      rcases Text.isLinePair_iff.mp hp with ⟨-, hn⟩ | ⟨-, hn⟩
      all_goals
        obtain rfl : d = _ := Option.some.inj hn
        decide
  · rw [if_neg hp] at hstep
    exact ReadsQuietly.cons hstep h₁

/-- The state behind the literal. -/
def close (s : Scanner) (resume : Mode) : Scanner := { s with mode := .normal, resume }

theorem close_pastEscape (h : InLiteral q s) (m : Mode) : close s.pastEscape m = close s m := by
  simp [close, Scanner.pastEscape, h.fileStart, h.lineStart]

theorem read_pastEscape (h : InLiteral q s) {p : Prop} [Decidable p]
    (hr : s.pastEscape.ReadsQuietly n t (close s.pastEscape (if p then q.mode else s.pastEscape.resume))) :
    s.pastEscape.ReadsQuietly n t (close s q.mode) := by
  have hresume : s.pastEscape.resume = q.mode := h.mode
  rwa [hresume, ite_self, h.close_pastEscape] at hr

/-- The inside of a literal and its closing quote are read without markers. The second part is about an
escape that is still in progress because a line break follows the one that it covers. -/
theorem read_body (hb : q.Body t) (h : InLiteral q s) :
    s.ReadsQuietly n (t ++ [q.sym]) (close s (if .char '\\' ∈ t then q.mode else s.resume)) ∧
      ((∃ d ∈ t.head?, d.isNewline = true) →
        s.escaping.ReadsQuietly n (t ++ [q.sym]) (close s q.mode)) := by
  induction hb generalizing s with
  | nil => exact ⟨.cons h.step_close .nil, by simp⟩
  | @plain c t hq hc hb ih =>
    constructor
    · have hrest := (ih h).1
      simp only [List.mem_cons, Ne.symm hc, false_or]
      exact .cons (h.step_plain hq hc) hrest
    · intro _
      exact escaping_cons (h.read_pastEscape (ih h.pastEscape).1) (ih h).2
  | @pair c t hb ih =>
    constructor
    · rw [if_pos (by simp)]
      exact .cons h.step_backslash (escaping_cons (h.read_pastEscape (ih h.pastEscape).1) (ih h).2)
    · rintro ⟨d, hd, hn⟩
      obtain rfl : .char '\\' = d := Option.some.inj hd
      simp [Sym.isNewline] at hn

end InLiteral

/-- Where code is read, a literal marks nothing and changes nothing for what follows. -/
theorem InCode.read_literal (h : s.InCode) (hb : q.Body t) :
    s.ReadsQuietly n (q.literal t)
      { s with lineStart := false, resume := if .char '\\' ∈ t then q.mode else s.resume } := by
  have hin : InLiteral q { s with mode := q.mode, lineStart := false } := ⟨rfl, h.fileStart, rfl⟩
  have hread := (hin.read_body (n := n) hb).1
  apply ReadsQuietly.cons (step_openQuote h)
  simpa [InLiteral.close, ← h.mode] using hread

/-! Comments. -/

/-- Each symbol is read in the state that the one before it led to. -/
theorem map_after_dropLast (t : Text) :
    (s.momentsTo n t).dropLast.map (·.after) = (s.momentsTo n t).tail.map (·.before) := by
  induction t generalizing s with
  | nil => rfl
  | cons c t ih =>
    cases t with
    | nil => rfl
    | cons d t =>
      rw [momentsTo_cons, List.dropLast_cons_of_ne_nil (by simp [momentsTo_eq_nil]), List.map_cons, ih,
        List.tail_cons, momentsTo_cons, List.tail_cons, List.map_cons]
      rfl

/-- Where code is read, a block comment is in progress up to its last symbol. Only its ends are marked. -/
theorem InCode.read_comment (h : s.InCode) (hx : ¬ closer <:+: t) :
    s.runTo n (blockComment t) = s.pastComment ∧
      (∀ m ∈ (s.momentsTo n (blockComment t)).dropLast, m.after.mode = .blockComment) ∧
      (s.momentsTo n (blockComment t)).map (·.markers) =
        s.openingMarkers :: (List.replicate (t.length + 2) [] ++ [s.closingMarkers]) := by
  have hx' : ¬ closer <:+: t ++ [Sym.char '*'] := not_closer_append hx (by decide) (.inr (by simp))
  obtain ⟨hrun, first, middle, last, hms, ⟨-, ho, -⟩, hmid, hc, hin⟩ := h.read_block (n := n) hx'
  have hlen : middle.length = t.length + 2 := by
    have := congrArg List.length hms
    simp only [length_momentsTo, List.length_cons, List.length_append, List.length_nil] at this
    omega
  refine ⟨hrun, ?_, ?_⟩
  · intro m hm
    have hafter : m.after ∈ (s.momentsTo n (blockComment t)).dropLast.map (·.after) :=
      List.mem_map_of_mem hm
    rw [map_after_dropLast, blockComment, hms, List.tail_cons] at hafter
    obtain ⟨m', hm', he⟩ := List.mem_map.mp hafter
    rw [← he]
    exact (hin m' hm').1
  · have hquiet : middle.map (·.markers) = List.replicate (t.length + 2) [] := by
      rw [← hlen, List.eq_replicate_iff]
      simpa using hmid
    rw [blockComment, hms, List.map_cons, List.map_append, hquiet, ho, List.map_singleton, hc]

/-! What follows a region. -/

/-- The moment without modes that will not be resumed. -/
def Moment.settle (m : Moment) : Moment := { m with before := m.before.settle, after := m.after.settle }

/-- What is read behind `a` is read in the same way behind `b`. -/
def Interchangeable (s : Scanner) (a b : Text) : Prop :=
  ∀ rest : Text,
    ((s.moments (a ++ rest)).drop a.length).map Moment.settle =
        ((s.moments (b ++ rest)).drop b.length).map Moment.settle ∧
      (s.run (a ++ rest)).settle = (s.run (b ++ rest)).settle

theorem map_settle_momentsTo (h : s.settle = s'.settle) (t : Text) :
    (s.momentsTo n t).map Moment.settle = (s'.momentsTo n t).map Moment.settle := by
  induction t generalizing s s' with
  | nil => rfl
  | cons c t ih =>
    obtain ⟨hmarkers, hafter⟩ := settle_congr (c := c) (n := t.head?.or n) h
    rw [momentsTo_cons, momentsTo_cons, List.map_cons, List.map_cons, ih hafter]
    simp [moment, Moment.settle, h, hmarkers, hafter]

theorem interchangeable_of_settle {a b : Text}
    (h : ∀ n, (s.runTo n a).settle = (s.runTo n b).settle) : s.Interchangeable a b := by
  intro rest
  have hdrop : ∀ a : Text, (s.moments (a ++ rest)).drop a.length = (s.runTo rest.head? a).moments rest := by
    intro a
    rw [moments_append]
    exact List.drop_left' (length_momentsTo a)
  rw [hdrop, hdrop, ← runTo_none, ← runTo_none, runTo_append, runTo_append, ← momentsTo_none,
    ← momentsTo_none, Option.or_none]
  exact ⟨map_settle_momentsTo (h _) rest, settle_runTo (h _) rest⟩

/-- Literals and block comments are opaque wherever code is read: a literal marks nothing and leaves the
state as it was, a comment is marked at its ends only, in a way that depends on nothing but whether it
stands in a body, and what follows does not depend on what stands inside. -/
theorem regions_opaque (s : Scanner) (h : s.InCode) :
    (∀ (q : Quote) (t : Text), q.Body t → ∀ n,
      s.ReadsQuietly n (q.literal t)
        { s with lineStart := false, resume := if .char '\\' ∈ t then q.mode else s.resume }) ∧
      (∀ x : Text, ¬ closer <:+: x → ∀ n,
        (∀ m ∈ (s.momentsTo n (blockComment x)).dropLast, m.after.mode = .blockComment) ∧
        (s.momentsTo n (blockComment x)).map (·.markers) =
          s.openingMarkers :: (List.replicate (x.length + 2) [] ++ [s.closingMarkers]) ∧
        s.runTo n (blockComment x) = s.pastComment) ∧
      (∀ (q q' : Quote) (t t' : Text), q.Body t → q'.Body t' →
        s.Interchangeable (q.literal t) (q'.literal t')) ∧
      ∀ x x' : Text, ¬ closer <:+: x → ¬ closer <:+: x' →
        s.Interchangeable (blockComment x) (blockComment x') := by
  refine ⟨fun q t hb n => h.read_literal hb, fun x hx n => ?_, fun q q' t t' hb hb' => ?_,
    fun x x' hx hx' => ?_⟩
  · obtain ⟨hrun, hinside, hmarkers⟩ := h.read_comment (n := n) hx
    exact ⟨hinside, hmarkers, hrun⟩
  · apply interchangeable_of_settle
    intro n
    rw [(h.read_literal hb).run, (h.read_literal hb').run]
    simp [settle, h.mode, Mode.isComment]
  · apply interchangeable_of_settle
    intro n
    rw [(h.read_comment hx).1, (h.read_comment hx').1]

/-- In a body, with quotes, braces and comment delimiters inside the regions. -/
theorem regions_opaque_delimiters :
    let s : Scanner := { braces := 1, between := false, fileStart := false }
    let t := Text.ofString "\\\"\x7d/*"
    let x := Text.ofString "/\"\x7b*"
    (s.InCode ∧ Quote.double.Body t ∧ Quote.single.Body [] ∧ ¬ closer <:+: x ∧ ¬ closer <:+: []) ∧
      s.ReadsQuietly none (Quote.double.literal t)
        { s with lineStart := false, resume := .stringLiteral } ∧
      s.runTo none (blockComment x) = s.pastComment ∧
      s.Interchangeable (Quote.double.literal t) (Quote.single.literal []) ∧
      s.Interchangeable (blockComment x) (blockComment []) := by
  intro s t x
  have hs : s.InCode := ⟨rfl, rfl, rfl, rfl, rfl⟩
  have ht : Quote.double.Body t :=
    .pair (.plain (by decide) (by decide) (.plain (by decide) (by decide)
      (.plain (by decide) (by decide) .nil)))
  have hx : ¬ closer <:+: x := by decide +kernel
  have hnil : ¬ closer <:+: ([] : Text) := by decide
  obtain ⟨hliteral, hcomment, hliterals, hcomments⟩ := regions_opaque s hs
  exact ⟨⟨hs, ht, .nil, hx, hnil⟩, hliteral .double t ht none, (hcomment x hx none).2.2,
    hliterals _ _ t [] ht .nil, hcomments x [] hx hnil⟩

end Scanner

end DocBlock
