import Mathlib
import DocBlock.Proofs.Reading

/-! How far an escape reaches. A backslash takes the symbol behind it. A carriage return and a line feed
next to each other keep the escape going, so where they alternate it takes all of them. -/

namespace DocBlock

open Scanner (isLinePair)

/-- A backslash starts an escape in this mode. -/
def Mode.hasEscapes : Mode → Bool
  | .normal | .directive | .charLiteral | .stringLiteral => true
  | .escape | .blockComment | .lineComment => false

theorem Mode.ne_escape_of_hasEscapes {m : Mode} (h : m.hasEscapes = true) : m ≠ .escape := by
  rintro rfl
  contradiction

namespace Text

/-- What an escape takes of the text behind it. -/
def escaped : Text → Text
  | [] => []
  | c :: rest => if isLinePair c rest.head? then c :: escaped rest else [c]

/-- The first symbol, a line break of two symbols counting as one. -/
def logical : Text → Text
  | [] => []
  | c :: rest => c :: if isLinePair c rest.head? then rest.take 1 else []

/-- The text starts with a line break of two symbols and the first half of another one. -/
def DoublesBreak (t : Text) : Prop :=
  [.char '\r', .char '\n', .char '\r'] <+: t ∨ [.char '\n', .char '\r', .char '\n'] <+: t
  deriving Decidable

theorem isLinePair_iff {c : Sym} {n : Option Sym} :
    isLinePair c n = true ↔
      c = .char '\r' ∧ n = some (.char '\n') ∨ c = .char '\n' ∧ n = some (.char '\r') := by
  simp [isLinePair]

theorem ne_nil_of_isLinePair {c : Sym} {t : Text} (h : isLinePair c t.head? = true) : t ≠ [] := by
  rintro rfl
  simp [isLinePair] at h

theorem exists_escaped_append (t : Text) : ∃ v, t = escaped t ++ v := by
  induction t with
  | nil => exact ⟨[], rfl⟩
  | cons c rest ih =>
    unfold escaped
    split
    · obtain ⟨v, hv⟩ := ih
      exact ⟨v, congrArg (c :: ·) hv⟩
    · exact ⟨rest, rfl⟩

theorem logical_append_drop (t : Text) : t = logical t ++ t.drop (logical t).length := by
  apply (List.prefix_iff_eq_append.mp _).symm
  cases t with
  | nil => exact List.nil_prefix
  | cons c rest =>
    rw [logical, List.cons_prefix_cons]
    refine ⟨rfl, ?_⟩
    split
    · exact List.take_prefix 1 rest
    · exact List.nil_prefix

theorem logical_eq_nil_iff {t : Text} : logical t = [] ↔ t = [] := by
  cases t <;> simp [logical]

theorem escaped_eq_nil_iff {t : Text} : escaped t = [] ↔ t = [] := by
  cases t with
  | nil => simp [escaped]
  | cons c rest =>
    unfold escaped
    split <;> simp

theorem escaped_eq_singleton_iff {c : Sym} {rest : Text} :
    escaped (c :: rest) = [c] ↔ isLinePair c rest.head? = false := by
  unfold escaped
  split
  · next h =>
    simp [h, escaped_eq_nil_iff, ne_nil_of_isLinePair h]
  · next h => simpa using h

theorem doublesBreak_iff {c d : Sym} {rest : Text} :
    DoublesBreak (c :: d :: rest) ↔ isLinePair c (some d) = true ∧ isLinePair d rest.head? = true := by
  unfold DoublesBreak isLinePair
  cases rest with
  | nil => simp
  | cons e rest =>
    simp only [List.cons_prefix_cons, List.nil_prefix, and_true, List.head?_cons]
    grind

/-- An escape takes one logical symbol unless a second line break joins the first. -/
theorem escaped_eq_logical_iff {t : Text} : escaped t = logical t ↔ ¬ DoublesBreak t := by
  match t with
  | [] => decide
  | [c] => simp [escaped, logical, isLinePair, DoublesBreak]
  | c :: d :: rest =>
    rw [doublesBreak_iff]
    by_cases hp : isLinePair c (some d) = true
    · have hlogical : logical (c :: d :: rest) = [c, d] := by simp [logical, hp]
      have hescaped : escaped (c :: d :: rest) = c :: escaped (d :: rest) := by
        rw [escaped]
        exact if_pos hp
      rw [hlogical, hescaped, List.cons.injEq, escaped_eq_singleton_iff]
      simp [hp]
    · simp [escaped, logical, hp]

end Text

namespace Scanner

variable {s : Scanner} {c : Sym} {n : Option Sym} {u v : Text}

/-- The state behind a backslash. -/
def escaping (s : Scanner) : Scanner :=
  { s with mode := .escape, resume := s.mode, lineStart := false, fileStart := false }

/-- The state behind an escape. -/
def pastEscape (s : Scanner) : Scanner :=
  { s with resume := s.mode, lineStart := false, fileStart := false }

/-- Behind a backslash that is read in state `s`, the escape takes `u` and leaves `v`: it is in progress up
to the last symbol of `u`, gives back the mode behind it, and marks nothing but the head of the file. -/
structure EscapeTakes (s : Scanner) (u v : Text) : Prop where
  inside : ∀ m ∈ (s.momentsTo v.head? (.char '\\' :: u)).dropLast, m.after.mode = .escape
  behind : (s.runTo v.head? (.char '\\' :: u)).mode = s.mode
  quiet : ∀ m ∈ s.momentsTo v.head? (.char '\\' :: u), ∀ x ∈ m.markers, x = .fileHeader

theorem step_backslash (hm : s.mode.hasEscapes = true) :
    s.step (.char '\\') n = (s.escaping, if s.fileStart then [.fileHeader] else []) := by
  have hmode : s.stepMode (.char '\\') n = ({ s with mode := .escape, resume := s.mode }, []) := by
    cases h : s.mode <;> simp [h, Mode.hasEscapes] at hm <;>
      simp [stepMode, h, stepNormal, stepDirective, stepLiteral]
  have hb : (Sym.char '\\').isBlank = false := by decide
  cases hf : s.fileStart <;> simp [step, hmode, headMarkers, hb, hf, escaping, Mode.isComment]

/-- An escape goes on between the halves of a line break and ends with any other symbol. -/
theorem step_escaping :
    s.escaping.step c n = (if isLinePair c n then s.escaping else s.pastEscape, []) := by
  by_cases hp : isLinePair c n = true
  · simp [step, stepMode, stepEscape, headMarkers, hp, escaping]
  · simp [step, stepMode, stepEscape, headMarkers, hp, escaping, pastEscape]

/-- The symbols behind a backslash, up to where the mode is given back. -/
theorem escaping_takes_iff (hm : s.mode ≠ .escape) (hr : u ++ v ≠ []) :
    ((∀ m ∈ (s.escaping.momentsTo v.head? u).dropLast, m.after.mode = .escape) ∧
      (s.escaping.runTo v.head? u).mode = s.mode) ↔ u = Text.escaped (u ++ v) := by
  induction u with
  | nil =>
    have hv : Text.escaped v ≠ [] := fun h => hr (Text.escaped_eq_nil_iff.mp h)
    simp [escaping, hm.symm, hv.symm]
  | cons c u ih =>
    have hstep := step_escaping (s := s) (c := c) (n := u.head?.or v.head?)
    have hescaped : Text.escaped (c :: u ++ v) =
        if isLinePair c (u.head?.or v.head?) then c :: Text.escaped (u ++ v) else [c] := by
      rw [List.cons_append, Text.escaped, List.head?_append]
    rw [hescaped, momentsTo_cons, runTo_cons, hstep]
    by_cases hp : isLinePair c (u.head?.or v.head?) = true
    · have hrest : u ++ v ≠ [] := Text.ne_nil_of_isLinePair (by rwa [List.head?_append])
      have hafter : (s.escaping.moment (u.head?.or v.head?) c).after = s.escaping := by
        rw [moment_after, hstep, if_pos hp]
      rw [if_pos hp, if_pos hp, List.cons.injEq, ← ih hrest]
      cases u with
      | nil => simp [escaping, hm.symm]
      | cons d u =>
        rw [List.dropLast_cons_of_ne_nil (by simp [momentsTo_eq_nil]), List.forall_mem_cons, hafter]
        simp [escaping]
    · have hafter : (s.escaping.moment (u.head?.or v.head?) c).after = s.pastEscape := by
        rw [moment_after, hstep, if_neg hp]
      rw [if_neg hp, if_neg hp]
      cases u with
      | nil => simp [pastEscape]
      | cons d u =>
        rw [List.dropLast_cons_of_ne_nil (by simp [momentsTo_eq_nil]), List.forall_mem_cons, hafter]
        simp [pastEscape, hm]

theorem runTo_escaped (hr : u ++ v ≠ []) (hu : u = Text.escaped (u ++ v)) :
    s.escaping.runTo v.head? u = s.pastEscape ∧
      ∀ m ∈ s.escaping.momentsTo v.head? u, m.markers = [] := by
  induction u with
  | nil => exact absurd (Text.escaped_eq_nil_iff.mp hu.symm) hr
  | cons c u ih =>
    have hstep := step_escaping (s := s) (c := c) (n := u.head?.or v.head?)
    have hquiet : (s.escaping.moment (u.head?.or v.head?) c).markers = [] := by
      rw [moment_markers, hstep]
    rw [List.cons_append, Text.escaped, List.head?_append] at hu
    rw [runTo_cons, momentsTo_cons, List.forall_mem_cons, hstep]
    by_cases hp : isLinePair c (u.head?.or v.head?) = true
    · have hrest : u ++ v ≠ [] := Text.ne_nil_of_isLinePair (by rwa [List.head?_append])
      rw [if_pos hp] at hu ⊢
      obtain ⟨hrun, hall⟩ := ih hrest (List.cons.inj hu).2
      exact ⟨hrun, hquiet, hall⟩
    · rw [if_neg hp] at hu ⊢
      obtain rfl : u = [] := (List.cons.inj hu).2
      exact ⟨rfl, hquiet, by simp⟩

theorem escapeTakes_iff (hm : s.mode.hasEscapes = true) :
    s.EscapeTakes u v ↔ u ≠ [] ∧ u = Text.escaped (u ++ v) := by
  have hstep (n : Option Sym) := step_backslash (n := n) hm
  have hne := Mode.ne_escape_of_hasEscapes hm
  cases u with
  | nil =>
    have hescape : ¬ s.EscapeTakes [] v := by
      intro h
      have hbehind := h.behind
      rw [runTo_cons, hstep] at hbehind
      exact hne hbehind.symm
    simp [hescape]
  | cons c u =>
    have hr : c :: u ++ v ≠ [] := by simp
    have hafter : (s.moment (some c) (.char '\\')).after.mode = .escape := by
      rw [moment_after, hstep]
      rfl
    have hinside : (s.momentsTo v.head? (.char '\\' :: c :: u)).dropLast =
        s.moment (some c) (.char '\\') :: (s.escaping.momentsTo v.head? (c :: u)).dropLast := by
      rw [momentsTo_cons, hstep, List.dropLast_cons_of_ne_nil (by simp [momentsTo_eq_nil])]
      rfl
    have hbehind : s.runTo v.head? (.char '\\' :: c :: u) = s.escaping.runTo v.head? (c :: u) := by
      rw [runTo_cons, hstep]
    have htakes := escaping_takes_iff (u := c :: u) (v := v) hne hr
    constructor
    · rintro ⟨h₁, h₂, -⟩
      rw [hinside, List.forall_mem_cons] at h₁
      rw [hbehind] at h₂
      exact ⟨by simp, htakes.mp ⟨h₁.2, h₂⟩⟩
    · rintro ⟨-, hu⟩
      obtain ⟨h₁, h₂⟩ := htakes.mpr hu
      constructor
      · rw [hinside, List.forall_mem_cons]
        exact ⟨hafter, h₁⟩
      · rw [hbehind, h₂]
      · rw [momentsTo_cons, hstep, List.forall_mem_cons]
        constructor
        · rw [moment_markers, hstep]
          split <;> simp
        · intro m hmem
          simp [(runTo_escaped hr hu).2 m hmem]

theorem moments_backslash (hm : s.mode.hasEscapes = true) {r : Text} (hv : r = Text.escaped r ++ v) :
    s.moments (.char '\\' :: r) =
      s.momentsTo v.head? (.char '\\' :: Text.escaped r) ++ s.pastEscape.moments v := by
  by_cases hr : r = []
  · obtain ⟨-, rfl⟩ := List.append_eq_nil_iff.mp (hv.symm.trans hr)
    rw [hr, ← momentsTo_none]
    exact (List.append_nil _).symm
  · have hne : Text.escaped r ++ v ≠ [] := hv ▸ hr
    have hrun : s.runTo v.head? (.char '\\' :: Text.escaped r) = s.pastEscape := by
      rw [runTo_cons, step_backslash hm]
      exact (runTo_escaped hne (congrArg Text.escaped hv)).1
    calc s.moments (.char '\\' :: r)
        = s.moments ((.char '\\' :: Text.escaped r) ++ v) := by rw [List.cons_append, ← hv]
      _ = _ := by rw [moments_append, hrun]

/-- An escape takes one logical symbol exactly where no second line break joins the first. In any case it
takes the whole run of alternating line breaks, and what follows is read in the mode that it came from; so a
line break there ends a directive. -/
theorem escape_takes_logical_iff (s : Scanner) (hm : s.mode.hasEscapes = true) (r : Text) :
    (s.EscapeTakes (Text.logical r) (r.drop (Text.logical r).length) ↔
        r ≠ [] ∧ ¬ Text.DoublesBreak r) ∧
      (∀ u v, r = u ++ v → (s.EscapeTakes u v ↔ u ≠ [] ∧ u = Text.escaped r)) ∧
      ∃ v, r = Text.escaped r ++ v ∧
        s.moments (.char '\\' :: r) =
          s.momentsTo v.head? (.char '\\' :: Text.escaped r) ++ s.pastEscape.moments v ∧
        s.pastEscape.mode = s.mode ∧
        (s.mode = .directive → ∀ c w, v = c :: w → c.isNewline = true →
          (s.pastEscape.step c w.head?).1.mode = .normal) := by
  have htakes : ∀ u v, r = u ++ v → (s.EscapeTakes u v ↔ u ≠ [] ∧ u = Text.escaped r) := by
    rintro u v rfl
    exact escapeTakes_iff hm
  obtain ⟨v, hv⟩ := Text.exists_escaped_append r
  refine ⟨?_, htakes, v, hv, moments_backslash hm hv, rfl, ?_⟩
  · rw [htakes _ _ (Text.logical_append_drop r), ← Text.escaped_eq_logical_iff, Ne, Ne,
      Text.logical_eq_nil_iff, eq_comm (a := Text.logical r)]
  · intro hd c w _ hc
    have hne : c ≠ .char '\\' := by
      rintro rfl
      simp [Sym.isNewline] at hc
    simp [stepMode, pastEscape, hd, stepDirective, hne, hc]

/-- A line continuation in a directive. -/
theorem escape_takes_logical_continuation :
    let s : Scanner := { mode := .directive, lineStart := false, fileStart := false }
    s.EscapeTakes (Text.ofString "\r\n") (Text.ofString "\nx") := by
  intro s
  exact (escape_takes_logical_iff s rfl (Text.ofString "\r\n\nx")).1.mpr (by decide)

/-- The empty line behind a line continuation is taken too, so the directive goes on. -/
theorem blank_line_escaped :
    let s : Scanner := { mode := .directive, lineStart := false, fileStart := false }
    let r := Text.ofString "\r\n\r\nx"
    Text.logical r = Text.ofString "\r\n" ∧ (s.run (.char '\\' :: r)).mode = .directive ∧
      ¬ s.EscapeTakes (Text.logical r) (r.drop (Text.logical r).length) := by
  intro s r
  refine ⟨by decide, by decide +kernel, fun h => ?_⟩
  exact absurd h.behind (by decide +kernel)

end Scanner

end DocBlock
