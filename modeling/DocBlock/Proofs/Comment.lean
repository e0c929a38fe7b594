import Mathlib
import DocBlock.Proofs.TopComment

/-! Reading a block comment that ends where its text ends. Outside bodies it takes the scanner to a
known state, and it is the description of what follows. -/

namespace DocBlock

open Scanner (Moment)

/-- What ends a block comment. -/
def closer : Text := ['*', '/']

/-- The text does not end a block comment before its last symbol. -/
def Text.Sealed (t : Text) : Prop := ¬ closer <:+: t.dropLast
  deriving Decidable

theorem not_closer_of_suffix {a b : Text} (h : ¬ closer <:+: a ++ b) : ¬ closer <:+: b :=
  fun hb => h (hb.trans (List.suffix_append a b).isInfix)

theorem Text.Sealed.not_closer {body : Text}
    (h : Text.Sealed (.char '/' :: .char '*' :: (body ++ [Sym.char '*', .char '/']))) :
    ¬ closer <:+: body ++ [Sym.char '*'] := by
  have he : Sym.char '/' :: .char '*' :: (body ++ [Sym.char '*', .char '/']) =
      [.char '/', .char '*'] ++ (body ++ [Sym.char '*']) ++ [Sym.char '/'] := by simp
  rw [Text.Sealed, he, List.dropLast_concat] at h
  exact not_closer_of_suffix h

/-- What ends a comment is not put together from two texts. -/
theorem not_closer_append {a b : Text} (ha : ¬ closer <:+: a) (hb : ¬ closer <:+: b)
    (hab : a.getLast? ≠ some (.char '*') ∨ b.head? ≠ some (.char '/')) : ¬ closer <:+: a ++ b := by
  induction a with
  | nil => exact hb
  | cons x a ih =>
    rw [List.infix_cons_iff, not_or] at ha
    rw [List.cons_append, List.infix_cons_iff, not_or]
    cases a with
    | nil =>
      refine ⟨fun hp => ?_, hb⟩
      obtain ⟨rfl, r, hr⟩ := List.cons_prefix_cons.mp hp
      obtain rfl : .char '/' :: r = b := hr
      simp at hab
    | cons y a =>
      refine ⟨fun hp => ha.1 ?_, ih ha.2 (by simpa using hab)⟩
      simpa [closer, List.cons_prefix_cons] using hp

namespace Scanner

variable {s : Scanner} {c : Sym} {n : Option Sym}

/-- Within a block comment only the star is kept track of. -/
theorem step_inBlock (hm : s.mode = .blockComment) (ho : s.opening = false)
    (hf : s.fileStart = false) (hl : s.lineStart = false) (hc : s.star = true → c ≠ .char '/') :
    s.step c n = ({ s with star := c = .char '*' }, []) := by
  have hmode : s.stepMode c n = ({ s with star := c = .char '*' }, []) := by
    have hn : ¬ (s.star = true ∧ c = .char '/') := fun h => hc h.1 h.2
    simp [stepMode, hm, stepBlockComment, ho, hn]
  simp [step, hmode, headMarkers, hf, hl]

/-- A block comment goes on as long as no star is followed by a slash. -/
theorem momentsTo_inBlock (t : Text) (hm : s.mode = .blockComment) (ho : s.opening = false)
    (hf : s.fileStart = false) (hl : s.lineStart = false)
    (hb : ¬ closer <:+: (if s.star then [.char '*'] else []) ++ t) :
    s.runTo n t = { s with star := t.foldl (fun _ c => c = .char '*') s.star } ∧
      ∀ m ∈ s.momentsTo n t, m.markers = [] ∧ m.before.braces = s.braces ∧
        m.before.mode = .blockComment := by
  induction t generalizing s with
  | nil => simp
  | cons c t ih =>
    have hc : s.star = true → c ≠ .char '/' := by
      rintro hstar rfl
      apply hb
      simp only [hstar, if_true]
      exact ⟨[], t, rfl⟩
    have hs := step_inBlock (n := t.head?.or n) hm ho hf hl hc
    have hrest : ¬ closer <:+: (if c = .char '*' then [.char '*'] else []) ++ t := by
      have hsuffix := not_closer_of_suffix hb
      split
      · next h =>
        rw [h] at hsuffix
        exact hsuffix
      · exact not_closer_of_suffix (a := [c]) hsuffix
    obtain ⟨hr, hall⟩ := ih (s := { s with star := c = .char '*' }) hm ho hf hl (by simpa using hrest)
    rw [runTo_cons, momentsTo_cons, hs]
    refine ⟨hr, ?_⟩
    rw [List.forall_mem_cons]
    exact ⟨⟨by rw [moment_markers, hs], rfl, hm⟩, hall⟩

/-- Reading stands outside bodies, literals and comments, and behind the start of the file. -/
structure Fresh (s : Scanner) : Prop where
  valid : s.Valid
  braces : s.braces = 0
  fileStart : s.fileStart = false
  headerComment : s.headerComment = false
  mode : s.mode = .normal ∨ s.mode = .directive

/-- The state behind a block comment. -/
def pastBlock (s : Scanner) : Scanner :=
  { s with resume := .normal, lineStart := false, between := true }

theorem Fresh.quiet (h : s.Fresh) : s.opening = false ∧ s.star = false :=
  h.valid.quiet (by rcases h.mode with hm | hm <;> simp [hm, Mode.isComment])

theorem Fresh.step_opensComment (h : s.Fresh) (hc : s.OpensComment c n) :
    s.step c n =
      ({ s with
          mode := if n = some (.char '*') then .blockComment else .lineComment
          resume := s.mode, opening := true, star := false, lineStart := false, between := true },
        [.flush, .descriptionStart]) := by
  obtain ⟨-, rfl, -⟩ := id hc
  have hb : (Sym.char '/').isBlank = false := by decide
  simp [step, stepMode_of_opensComment hc, enterComment, h.braces, headMarkers, h.fileStart, hb,
    h.headerComment]

/-- Code is read, behind the start of the file. -/
structure InCode (s : Scanner) : Prop where
  mode : s.mode = .normal
  opening : s.opening = false
  star : s.star = false
  fileStart : s.fileStart = false
  headerComment : s.headerComment = false

theorem Fresh.inCode (h : s.Fresh) (hm : s.mode = .normal) : s.InCode :=
  ⟨hm, h.quiet.1, h.quiet.2, h.fileStart, h.headerComment⟩

/-- The markers of the symbol that opens a comment. -/
def openingMarkers (s : Scanner) : List Marker :=
  if s.braces = 0 then [.flush, .descriptionStart] else [.commentStart]

/-- The markers of the symbol that closes a block comment. -/
def closingMarkers (s : Scanner) : List Marker :=
  if s.braces = 0 then [.descriptionEndAfter] else [.commentEnd]

/-- The state behind a block comment, in a body or outside. -/
def pastComment (s : Scanner) : Scanner :=
  { s with resume := .normal, lineStart := false, between := s.between || s.braces = 0 }

/-- A block comment is read up to the first star that a slash follows, whatever stands in it. -/
theorem InCode.read_block (h : s.InCode) {x : Text} (hx : ¬ closer <:+: x ++ [Sym.char '*']) :
    let t : Text := .char '/' :: .char '*' :: (x ++ [Sym.char '*', .char '/'])
    s.runTo n t = s.pastComment ∧
      ∃ first middle last, s.momentsTo n t = first :: (middle ++ [last]) ∧
        (first.before = s ∧ first.markers = s.openingMarkers ∧ first.after.mode = .blockComment) ∧
        (∀ m ∈ middle, m.markers = []) ∧ last.markers = s.closingMarkers ∧
        ∀ m ∈ middle ++ [last], m.before.mode = .blockComment ∧ m.before.braces = s.braces := by
  intro t
  set s₁ : Scanner :=
    { s.pastComment with mode := .blockComment, opening := true, star := false } with hs₁
  set s₂ : Scanner := { s₁ with opening := false } with hs₂
  have hb : (Sym.char '/').isBlank = false := by decide
  have hopens : s.OpensComment (.char '/') (some (.char '*')) := ⟨.inl h.mode, rfl, by decide⟩
  have h₁ : s.step (.char '/') (some (.char '*')) = (s₁, s.openingMarkers) := by
    by_cases hz : s.braces = 0 <;>
      simp [step, stepMode_of_opensComment hopens, enterComment, hz, headMarkers, h.fileStart,
        h.headerComment, h.mode, hb, hs₁, pastComment, openingMarkers]
  have h₂ (n : Option Sym) : s₁.step (.char '*') n = (s₂, []) := by
    simp [step, stepMode, stepBlockComment, headMarkers, hs₁, hs₂, pastComment, h.fileStart,
      h.headerComment]
  obtain ⟨h₃, hmid⟩ := momentsTo_inBlock (s := s₂) (n := some (.char '/')) (x ++ [Sym.char '*']) rfl
    rfl h.fileStart rfl (by simpa [hs₂, hs₁] using hx)
  simp only [List.foldl_append, List.foldl_cons, List.foldl_nil, decide_true] at h₃
  have h₄ : ({ s₂ with star := true } : Scanner).step (.char '/') n =
      (s.pastComment, s.closingMarkers) := by
    by_cases hz : s.braces = 0 <;>
      simp [step, stepMode, stepBlockComment, headMarkers, hs₁, hs₂, h.fileStart, h.headerComment, hz,
        pastComment, closingMarkers, ← h.mode, h.opening, h.star]
  have ht : t = .char '/' :: .char '*' :: ((x ++ [Sym.char '*']) ++ [Sym.char '/']) := by simp [t]
  have hnext : ((Sym.char '*' :: ((x ++ [Sym.char '*']) ++ [Sym.char '/'])).head?.or n) =
      some (.char '*') := rfl
  rw [ht, runTo_cons, momentsTo_cons, hnext, h₁, runTo_cons, momentsTo_cons, h₂, runTo_concat,
    momentsTo_concat, h₃, h₄]
  refine ⟨rfl, s.moment (some (.char '*')) (.char '/'), s₁.moment _ (.char '*') :: _, _, rfl,
    ⟨rfl, by rw [moment_markers, h₁], by rw [moment_after, h₁]⟩, ?_, by rw [moment_markers, h₄], ?_⟩
  · rw [List.forall_mem_cons]
    exact ⟨by rw [moment_markers, h₂], fun m hm => (hmid m hm).1⟩
  · rw [List.cons_append, List.forall_mem_cons, List.forall_mem_append, List.forall_mem_singleton]
    exact ⟨⟨rfl, rfl⟩, fun m hm => ⟨(hmid m hm).2.2, (hmid m hm).2.1⟩, rfl, rfl⟩

/-- Outside bodies such a comment is the description of what follows. -/
theorem scan_block (h : s.Fresh) (hm : s.mode = .normal) {body : Text}
    (hb : ¬ closer <:+: body ++ [Sym.char '*']) :
    let t : Text := .char '/' :: .char '*' :: (body ++ [Sym.char '*', .char '/'])
    s.runTo n t = s.pastBlock ∧
      ∃ first middle last, s.momentsTo n t = first :: (middle ++ [last]) ∧
        first.markers = [.flush, .descriptionStart] ∧ first.inTopComment = true ∧
        (∀ m ∈ middle, m.markers = [] ∧ m.inTopComment = true) ∧
        last.markers = [.descriptionEndAfter] ∧ last.inTopComment = true := by
  intro t
  obtain ⟨hrun, first, middle, last, hms, ⟨hs, ho, ha⟩, hmid, hc, hin⟩ :=
    (h.inCode hm).read_block (n := n) hb
  have htop : ∀ m ∈ middle ++ [last], m.inTopComment = true := by
    intro m hmem
    simp [Moment.inTopComment, hin m hmem, h.braces]
  rw [List.forall_mem_append, List.forall_mem_singleton] at htop
  have hpast : s.pastComment = s.pastBlock := by simp [pastComment, pastBlock, h.braces]
  refine ⟨hrun.trans hpast, first, middle, last, hms, ?_, ?_, fun m hmem => ⟨hmid m hmem, htop.1 m hmem⟩,
    ?_, htop.2⟩
  · rw [ho, openingMarkers, if_pos h.braces]
  · simp [Moment.inTopComment, hs, ha, h.braces, Mode.isComment]
  · rw [hc, closingMarkers, if_pos h.braces]

end Scanner

end DocBlock
