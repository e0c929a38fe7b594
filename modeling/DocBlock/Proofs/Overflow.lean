import Mathlib
import DocBlock.Proofs.TopComment
import DocBlock.Proofs.Written

/-! Constructs that a full buffer cuts. Such a construct passes through as it is unless it is the header
comment, or what is read after the cut still looks like a function of its own. -/

namespace DocBlock

open Scanner (Moment)

/-- How often an extent was closed, as far as it is told apart. -/
def Closings.ofCount : Nat → Closings
  | 0 => .none
  | 1 => .once
  | _ => .repeated

theorem Closings.next_ofCount (k : Nat) : (ofCount k).next = ofCount (k + 1) := by
  match k with
  | 0 | 1 | _ + 2 => rfl

theorem Closings.ofCount_eq_once {k : Nat} : ofCount k = .once ↔ k = 1 := by
  match k with
  | 0 | 1 | _ + 2 => simp [ofCount]

namespace Pending

/-- The extents of a function were closed so many times. -/
structure Closed (p : Pending) (declarators lists bodies : Nat) : Prop where
  function : p.function.closings = .ofCount declarators
  parameters : p.parameters.closings = .ofCount lists
  body : p.body.closings = .ofCount bodies

theorem Closed.isFunction {p : Pending} {i j k : Nat} (h : p.Closed i j k) :
    p.isFunction = true ↔ i = 1 ∧ j = 1 ∧ k = 1 := by
  simp [Pending.isFunction, Extent.isClosedOnce, h.function, h.parameters, h.body,
    Closings.ofCount_eq_once, and_assoc]

theorem Closed.mark {p : Pending} {i j k : Nat} (h : p.Closed i j k) (x : Marker) :
    (p.mark x).Closed (i + if x = .parametersStart then 1 else 0)
      (j + if x = .parametersEnd then 1 else 0) (k + if x = .bodyEnd then 1 else 0) := by
  obtain ⟨hf, hp, hb⟩ := h
  cases x
  case parametersStart =>
    exact ⟨by simp [Pending.mark, Extent.closeAt, hf, Closings.next_ofCount], hp, hb⟩
  case parametersEnd =>
    exact ⟨hf, by simp [Pending.mark, Extent.closeAt, hp, Closings.next_ofCount], hb⟩
  case bodyEnd =>
    exact ⟨hf, hp, by simp [Pending.mark, Extent.closeAt, hb, Closings.next_ofCount]⟩
  case commentEnd =>
    obtain ⟨_, _, he⟩ := p.endComment_eq
    rw [Pending.mark, he]
    exact ⟨hf, hp, hb⟩
  case statementEnd =>
    obtain ⟨_, he⟩ := p.endStatement_eq
    rw [Pending.mark, he]
    exact ⟨hf, hp, hb⟩
  all_goals exact ⟨hf, hp, hb⟩

theorem Closed.foldl_mark (l : List Marker) {p : Pending} {i j k : Nat} (h : p.Closed i j k) :
    (l.foldl Pending.mark p).Closed (i + l.count .parametersStart) (j + l.count .parametersEnd)
      (k + l.count .bodyEnd) := by
  induction l generalizing p i j k with
  | nil => exact h
  | cons x l ih =>
    have hs := ih (h.mark x)
    rw [List.foldl_cons]
    simp only [List.count_cons, beq_iff_eq]
    convert hs using 1 <;> omega

theorem Closed.foldl_read (ms : List Moment) {p : Pending} {i j k : Nat} (h : p.Closed i j k) :
    (ms.foldl read p).Closed (i + (ms.flatMap (·.marks)).count .parametersStart)
      (j + (ms.flatMap (·.marks)).count .parametersEnd)
      (k + (ms.flatMap (·.marks)).count .bodyEnd) := by
  induction ms generalizing p i j k with
  | nil => exact h
  | cons m ms ih =>
    obtain ⟨hf, hp, hb⟩ := h.foldl_mark m.marks
    have hs := ih (p := p.read m) ⟨hf, hp, hb⟩
    simp only [List.flatMap_cons, List.count_append, ← Nat.add_assoc]
    exact hs

theorem fileComment_foldl_read {ms : List Moment} {p : Pending} :
    (ms.foldl read p).fileComment = true ↔
      .fileComment ∈ ms.flatMap (·.marks) ∨ p.fileComment = true := by
  induction ms generalizing p with
  | nil => simp
  | cons m ms ih =>
    refine (ih (p := p.read m)).trans ?_
    have hm : (p.read m).fileComment = true ↔ .fileComment ∈ m.marks ∨ p.fileComment = true :=
      fileComment_foldl_mark
    rw [hm, List.flatMap_cons, List.mem_append, or_left_comm, or_assoc]

end Pending

/-- A marker other than the one that ends a line comment belongs to the text from its symbol on. -/
theorem Scanner.count_marks (s : Scanner) (n : Option Sym) (c : Sym) {x : Marker}
    (hx : x ≠ .descriptionEnd) :
    (s.moment n c).marks.count x = (s.moment n c).markers.count x := by
  by_cases h : .flush ∈ (s.step c n).2
  · obtain ⟨rest, hm, hr, -⟩ := Moment.markers_eq_of_flush (m := s.moment n c) h nodup_markers
    have hc : (s.moment n c).closing.count x = 0 := by
      rcases closing_of_flush h with ⟨-, hc, -⟩ | ⟨-, -, hc, -⟩
      · simp [hc]
      · simp [hc, hx.symm]
    rw [hm, hr, List.count_append, hc, Nat.zero_add]
  · rw [Moment.marks, if_neg (by simpa using h)]

theorem Scanner.mem_marks_moment_iff (s : Scanner) (n : Option Sym) (c : Sym) {x : Marker}
    (hx : x ≠ .descriptionEnd) : x ∈ (s.moment n c).marks ↔ x ∈ (s.moment n c).markers := by
  rw [← List.count_pos_iff, ← List.count_pos_iff, s.count_marks n c hx]

namespace Passage

variable {full : Nat → Bool} {g : Passage}

/-- How often the passage has the marker. -/
def count (g : Passage) (x : Marker) : Nat := (g.moments.flatMap (·.markers)).count x

/-- The passage has the marks of a whole function. -/
def HoldsFunction (g : Passage) : Prop :=
  g.count .parametersStart = 1 ∧ g.count .parametersEnd = 1 ∧ g.count .bodyEnd = 1
  deriving Decidable

theorem count_flatMap_marks (g : Passage) {x : Marker} (hx : x ≠ .descriptionEnd) :
    (g.moments.flatMap (·.marks)).count x = g.count x := by
  unfold count
  simp only [List.count_flatMap]
  congr 1
  refine List.map_congr_left fun m hm => ?_
  obtain ⟨n, hm⟩ := Scanner.exists_step_of_mem hm
  simp only [Function.comp_apply]
  rw [hm]
  exact m.before.count_marks n m.sym hx

theorem count_pos {x : Marker} : 0 < g.count x ↔ ∃ m ∈ g.moments, x ∈ m.markers := by
  simp [count, List.count_pos_iff]

theorem Sound.isFunction_iff (h : g.Sound full) :
    g.pending.isFunction = true ↔ g.HoldsFunction := by
  have hr := Pending.Closed.foldl_read g.moments (p := {}) (i := 0) (j := 0) (k := 0) ⟨rfl, rfl, rfl⟩
  have hc := hr.foldl_mark g.closing
  have hz : ∀ x, x ≠ .descriptionEnd → g.closing.count x = 0 := by
    intro x hx
    rcases h.closing with he | ⟨he, -⟩
    · simp [he]
    · simp [he, hx.symm]
  rw [pending, hc.isFunction, HoldsFunction]
  simp only [Nat.zero_add, hz _ (show Marker.parametersStart ≠ .descriptionEnd by decide),
    hz _ (show Marker.parametersEnd ≠ .descriptionEnd by decide),
    hz _ (show Marker.bodyEnd ≠ .descriptionEnd by decide), Nat.add_zero]
  rw [g.count_flatMap_marks (by decide), g.count_flatMap_marks (by decide),
    g.count_flatMap_marks (by decide)]

theorem Sound.fileComment_iff (h : g.Sound full) :
    g.pending.fileComment = true ↔ 0 < g.count .fileComment := by
  have hc : .fileComment ∉ g.closing := by
    rcases h.closing with he | ⟨he, -⟩ <;> simp [he]
  rw [← g.count_flatMap_marks (by decide), List.count_pos_iff, pending,
    Pending.fileComment_foldl_mark, Pending.fileComment_foldl_read]
  simp [hc]

/-- The passage is written as it is. -/
def Verbatim (o : Options) (plate : Option Boilerplate.Reading) (g : Passage) : Prop :=
  (g.pending.page o plate).edits = [.keep g.text]
  deriving Decidable

theorem Sound.verbatim_iff {o : Options} {plate : Option Boilerplate.Reading} (h : g.Sound full)
    (hp : o.prototypesOnly = false) :
    g.Verbatim o plate ↔ g.count .fileComment = 0 ∧ ¬ g.HoldsFunction := by
  have hz : g.count .fileComment = 0 ↔ ¬ g.pending.fileComment = true := by
    rw [h.fileComment_iff]
    omega
  rw [Verbatim, hz, ← h.isFunction_iff, Pending.page]
  by_cases hf : g.pending.fileComment = true
  · obtain ⟨es, he, -⟩ := Page.edits_fileComment plate g.pending
    simp [hf, he]
  · by_cases hn : g.pending.isFunction = true
    · simp [hf, hn, Pending.functionPage, hp]
    · simp [hf, hn, Pending.plainPage, hp]

end Passage

namespace Scanner

variable {s : Scanner} {t : Text} {l r : List Moment}

theorem exists_moments_of_split {m : Moment} (h : s.moments t = l ++ m :: r) :
    ∃ rest, r = m.after.moments rest := by
  induction l generalizing s t with
  | nil =>
    cases t with
    | nil => simp [moments] at h
    | cons c rest =>
      obtain ⟨rfl, rfl⟩ := List.cons.inj h
      exact ⟨rest, rfl⟩
  | cons x l ih =>
    cases t with
    | nil => simp [moments] at h
    | cons c rest => exact ih (List.cons.inj h).2

theorem fileStart_of_mem (h : s.fileStart = false) {m : Moment} (hm : m ∈ s.moments t) :
    m.before.fileStart = false := by
  induction t generalizing s with
  | nil => simp [moments] at hm
  | cons c rest ih =>
    rcases List.mem_cons.mp hm with rfl | hm
    · exact h
    · exact ih (by simp [h]) hm

theorem step_braces_pos {c : Sym} {n : Option Sym} (h : 0 < s.braces)
    (hb : .bodyEnd ∉ (s.step c n).2) : 0 < (s.step c n).1.braces := by
  rw [mem_step_iff] at hb
  rw [step_braces]
  cases hm : s.mode <;> simp only [stepMode, hm]
  case normal =>
    have hc : c = .char '}' → s.braces ≠ 1 := fun hc h₁ => hb ⟨h₁, hm, hc⟩
    fun_cases stepNormal <;> simp [enterComment, closeBrace, h] <;> grind
  case escape => fun_cases stepEscape <;> exact h
  case blockComment => fun_cases stepBlockComment <;> exact h
  case lineComment => fun_cases stepLineComment <;> exact h
  case directive => fun_cases stepDirective <;> exact h
  all_goals fun_cases stepLiteral <;> exact h

/-- A body goes on until its end is marked. -/
theorem braces_pos_of_mem (hs : s.moments t = l ++ r) (h : 0 < s.braces)
    (hb : ∀ m ∈ l.dropLast, .bodyEnd ∉ m.markers) {m : Moment} (hm : m ∈ l) : 0 < m.before.braces := by
  induction l generalizing s t with
  | nil => simp at hm
  | cons x l ih =>
    cases t with
    | nil => simp [moments] at hs
    | cons c rest =>
      obtain ⟨rfl, ht⟩ := List.cons.inj hs
      rcases List.mem_cons.mp hm with rfl | hm
      · exact h
      · obtain ⟨y, l, rfl⟩ := List.exists_cons_of_ne_nil (List.ne_nil_of_mem hm)
        rw [List.dropLast_cons_cons, List.forall_mem_cons] at hb
        exact ih ht (step_braces_pos h hb.1) hb.2 hm

end Scanner

/-- What is read in one go and may be cut in the middle. -/
inductive Construct where
  | comment | declarator | parameters | body
  deriving DecidableEq, Repr

namespace Construct

def opening : Construct → Marker
  | comment => .descriptionStart
  | declarator => .functionStart
  | parameters => .parametersStart
  | body => .bodyStart

def closings : Construct → List Marker
  | comment => [.descriptionEnd, .descriptionEndAfter]
  | declarator => [.parametersStart]
  | parameters => [.parametersEnd]
  | body => [.bodyEnd]

/-- The start of the construct was marked and its end not since. -/
def InProgress (k : Construct) (ms : List Moment) : Prop :=
  ∃ a m b, ms = a ++ m :: b ∧ k.opening ∈ m.markers ∧ ∀ x ∈ b, ∀ y ∈ k.closings, y ∉ x.markers

instance (k : Construct) (ms : List Moment) : Decidable (k.InProgress ms) :=
  decidable_of_iff
    (∃ l ∈ ms.tails, (∃ m ∈ l.head?, k.opening ∈ m.markers) ∧
      ∀ x ∈ l.tail, ∀ y ∈ k.closings, y ∉ x.markers) <| by
    constructor
    · rintro ⟨l, hl, ⟨m, hm, ho⟩, hb⟩
      obtain ⟨a, rfl⟩ := List.mem_tails _ _ |>.mp hl
      obtain ⟨b, rfl⟩ := List.head?_eq_some_iff.mp hm
      exact ⟨a, m, b, rfl, ho, hb⟩
    · rintro ⟨a, m, b, rfl, ho, hb⟩
      exact ⟨m :: b, List.mem_tails _ _ |>.mpr ⟨a, rfl⟩, ⟨m, rfl, ho⟩, hb⟩

end Construct

/-- The passages up to the next flush that a marker asks for. -/
def untilFlush : List Passage → List Passage
  | [] => []
  | [g] => [g]
  | g :: h :: gs =>
    if 0 < g.count .flushAfter ∨ 0 < h.count .flush then [g] else g :: untilFlush (h :: gs)

theorem exists_untilFlush (g : Passage) (gs : List Passage) :
    ∃ hs rest, untilFlush (g :: gs) = g :: hs ∧ gs = hs ++ rest ∧ ∀ h ∈ hs, h.count .flush = 0 := by
  induction gs generalizing g with
  | nil => exact ⟨[], [], rfl, rfl, by simp⟩
  | cons h gs ih =>
    unfold untilFlush
    split
    · exact ⟨[], h :: gs, rfl, rfl, by simp⟩
    · next hn =>
      obtain ⟨hs, rest, hu, rfl, hf⟩ := ih h
      refine ⟨h :: hs, rest, by rw [hu], by simp, ?_⟩
      rw [List.forall_mem_cons]
      exact ⟨by omega, hf⟩

/-- The flush that ends the passages comes behind their last symbol, if behind any. -/
theorem flushAfter_untilFlush {full : Nat → Bool} {gs : List Passage}
    (hg : ∀ g ∈ gs, g.Unbroken full) :
    ∀ m ∈ ((untilFlush gs).flatMap Passage.moments).dropLast, .flushAfter ∉ m.markers := by
  fun_induction untilFlush gs with
  | case1 => simp
  | case2 g => simpa using (hg g (by simp)).flushAfter
  | case3 g h gs hd => simpa using (hg g (by simp)).flushAfter
  | case4 g h gs hd ih =>
    rw [List.forall_mem_cons] at hg
    have hz : ∀ m ∈ g.moments, .flushAfter ∉ m.markers := by
      intro m hm hf
      exact hd (.inl (Passage.count_pos.mpr ⟨m, hm, hf⟩))
    intro m hm
    rw [List.flatMap_cons, List.dropLast_append] at hm
    split at hm
    · exact (hg.1.flushAfter m hm)
    · rcases List.mem_append.mp hm with hm | hm
      · exact hz m hm
      · exact ih hg.2 m hm

section Cut

variable {full : Nat → Bool} {g : Passage} {past rest : List Moment}

theorem Scanner.flushAfter_of_bodyEnd {s : Scanner} {c : Sym} {n : Option Sym}
    (h : .bodyEnd ∈ (s.step c n).2) : .flushAfter ∈ (s.step c n).2 := by
  rw [mem_step_iff] at h ⊢
  exact .inl ⟨h.2.1, .inl ⟨h.2.2, .inr h.1⟩⟩

/-- A construct other than a comment starts with a symbol outside comments that is not blank. -/
theorem Construct.opening_spec {k : Construct} (hk : k ≠ .comment) {s : Scanner} {c : Sym}
    {n : Option Sym} (hs : s.Valid) (h : k.opening ∈ (s.step c n).2) :
    c.isBlank = false ∧ (s.moment n c).inTopComment = false := by
  have key : s.mode = .normal → c ≠ .char '/' → (s.moment n c).inTopComment = false := by
    intro hm hc
    have ha : (s.stepMode c n).1.mode.isComment = false := by
      by_contra hn
      obtain ⟨-, ho | ho⟩ := hs.of_isComment_stepMode (by simpa using hn)
      · exact hc ho.2.1
      · simp [hm, Mode.isComment] at ho
    simp [Scanner.Moment.inTopComment, ha, hm]
  rw [Scanner.mem_step_iff] at h
  cases k
  case comment => contradiction
  case declarator =>
    obtain ⟨-, hm, -, hc, hb⟩ := h
    refine ⟨hb, key hm ?_⟩
    rintro rfl
    simp [Scanner.isSpecial] at hc
  case parameters =>
    obtain ⟨-, hm, rfl, -⟩ := h
    exact ⟨by decide, key hm (by decide)⟩
  case body =>
    obtain ⟨-, hm, rfl⟩ := h
    exact ⟨by decide, key hm (by decide)⟩

/-- The construct in progress starts in the last passage or before it. -/
theorem Construct.InProgress.cases {k : Construct} (h : k.InProgress (past ++ g.moments)) :
    ∃ a m b, k.opening ∈ m.markers ∧ (∀ x ∈ b, ∀ y ∈ k.closings, y ∉ x.markers) ∧
      past ++ g.moments = a ++ m :: b ∧
      ((∃ c, g.moments = c ++ m :: b) ∨ ∃ c, b = c ++ g.moments) := by
  obtain ⟨a, m, b, he, hm, hb⟩ := h
  refine ⟨a, m, b, hm, hb, he, ?_⟩
  rcases List.append_eq_append_iff.mp he with ⟨c, -, hc⟩ | ⟨c, -, hc⟩
  · exact .inl ⟨c, hc⟩
  · cases c with
    | nil => exact .inl ⟨[], hc.symm⟩
    | cons x c =>
      obtain ⟨-, hc⟩ := List.cons.inj hc
      exact .inr ⟨c, hc⟩

theorem Passage.Sound.count_fileComment {k : Construct} (hg : g.Sound full) (hk : k ≠ .comment)
    {t : Text} (ht : Scanner.moments {} t = past ++ g.moments ++ rest)
    (h : k.InProgress (past ++ g.moments)) : g.count .fileComment = 0 := by
  by_contra hc
  have hpos : 0 < g.count .fileComment := by omega
  have hall := hg.inTopComment.1 (hg.fileComment_iff.mpr hpos)
  obtain ⟨x, hx, hfc⟩ := Passage.count_pos.mp hpos
  obtain ⟨a, m, b, hm, -, he, hpos⟩ := h.cases
  have hmt : m ∈ Scanner.momentsTo none {} t := by
    rw [Scanner.momentsTo_none, ht, he]
    simp
  obtain ⟨n, hmn⟩ := Scanner.exists_step_of_mem hmt
  have hv := Scanner.valid_of_mem Scanner.valid_initial hmt
  rw [hmn] at hm
  obtain ⟨hblank, htop⟩ := Construct.opening_spec hk hv hm
  rcases hpos with ⟨c, hc⟩ | ⟨c, hc⟩
  · -- The passage is the header comment, but the construct is none.
    have := hall m (by simp [hc])
    rw [hmn, htop] at this
    contradiction
  · -- The file has started already where the passage starts.
    rw [he, List.append_assoc, List.cons_append] at ht
    obtain ⟨u, hu⟩ := Scanner.exists_moments_of_split ht
    have hf : m.after.fileStart = false := by
      rw [hmn]
      simp [hblank]
    have hxu : x ∈ m.after.moments u := by
      rw [← hu, hc]
      simp [hx]
    have hxf := Scanner.fileStart_of_mem hf hxu
    obtain ⟨n', hxn⟩ := Scanner.exists_step_of_mem hx
    rw [hxn] at hfc
    have := (Scanner.mem_step_iff.mp hfc).1
    rw [hxf] at this
    contradiction

theorem Passage.Sound.not_bodyEnd (hg : g.Sound full) (h : Construct.body.InProgress (past ++ g.moments)) :
    ∀ x ∈ g.moments, .bodyEnd ∉ x.markers := by
  intro x hx hxb
  obtain ⟨n, hxn⟩ := Scanner.exists_step_of_mem hx
  have hxa : .flushAfter ∈ x.markers := by
    rw [hxn] at hxb ⊢
    exact Scanner.flushAfter_of_bodyEnd hxb
  obtain ⟨a, m, b, hm, hb, -, ⟨c, hc⟩ | ⟨c, hc⟩⟩ := h.cases
  · rw [hc, List.mem_append, List.mem_cons] at hx
    rcases hx with hx | rfl | hx
    · refine hg.flushAfter x ?_ hxa
      rw [hc, List.dropLast_append_of_ne_nil (by simp)]
      exact List.mem_append_left _ hx
    · rw [hxn] at hm hxb
      have h₁ := (Scanner.mem_step_iff.mp hm).2.2
      have h₂ := (Scanner.mem_step_iff.mp hxb).2.2
      simp [h₁] at h₂
    · exact hb x hx .bodyEnd (by simp [Construct.closings]) hxb
  · refine hb x ?_ .bodyEnd (by simp [Construct.closings]) hxb
    rw [hc]
    exact List.mem_append_right _ hx

/-- A body that is in progress goes on through the passages up to the next flush. -/
theorem braces_pos_of_body {after : List Passage} {hs : List Passage} {t : Text}
    (ht : Scanner.moments {} t = past ++ g.moments ++ (hs.flatMap Passage.moments ++ rest))
    (hu : untilFlush (g :: after) = g :: hs) (hall : ∀ h ∈ g :: after, h.Unbroken full)
    (h : Construct.body.InProgress (past ++ g.moments)) :
    ∀ x ∈ hs.flatMap Passage.moments, 0 < x.before.braces := by
  obtain ⟨a, m, b, hm, hb, he, -⟩ := h.cases
  have hmt : m ∈ Scanner.momentsTo none {} t := by
    rw [Scanner.momentsTo_none, ht, he]
    simp
  obtain ⟨n, hmn⟩ := Scanner.exists_step_of_mem hmt
  have hpos : 0 < m.after.braces := by
    rw [hmn] at hm ⊢
    obtain ⟨hz, hmode, hc⟩ := Scanner.mem_step_iff.mp hm
    simp [Scanner.stepMode, hmode, hc, Scanner.stepNormal, hz]
  rw [he, List.append_assoc, List.cons_append, ← List.append_assoc] at ht
  obtain ⟨u, hu'⟩ := Scanner.exists_moments_of_split ht
  intro x hx
  refine Scanner.braces_pos_of_mem hu'.symm hpos ?_ (List.mem_append_right b hx)
  intro y hy hyb
  rw [List.dropLast_append] at hy
  split at hy
  · exact hb y (List.mem_of_mem_dropLast hy) .bodyEnd (by simp [Construct.closings]) hyb
  · next hne =>
    rcases List.mem_append.mp hy with hy | hy
    · exact hb y hy .bodyEnd (by simp [Construct.closings]) hyb
    · have hya : .flushAfter ∈ y.markers := by
        obtain ⟨h, -, hyh⟩ := List.mem_flatMap.mp (List.mem_of_mem_dropLast hy)
        obtain ⟨n, hyn⟩ := Scanner.exists_step_of_mem hyh
        rw [hyn] at hyb ⊢
        exact Scanner.flushAfter_of_bodyEnd hyb
      refine flushAfter_untilFlush hall y ?_ hya
      rw [hu, List.flatMap_cons, List.dropLast_append, if_neg hne]
      exact List.mem_append_right _ hy

theorem fileComment_of_flush {h : Passage} (hv : h.start.Valid) (hz : h.count .flush = 0) :
    h.count .fileComment = 0 := by
  by_contra hc
  obtain ⟨x, hx, hfc⟩ := Passage.count_pos.mp (Nat.pos_of_ne_zero hc)
  refine (Passage.count_pos.mpr ⟨x, hx, ?_⟩).ne' hz
  have hxv := Scanner.valid_of_mem hv hx
  obtain ⟨n, hxn⟩ := Scanner.exists_step_of_mem hx
  rw [hxn] at hfc ⊢
  obtain ⟨hfs, -, hm⟩ := Scanner.mem_step_iff.mp hfc
  rw [hxv.eq_of_fileStart hfs] at hm ⊢
  obtain ⟨-, ho | ho⟩ := Scanner.valid_initial.of_isComment_stepMode hm
  · have hdue : Scanner.Due {} x.sym n .flush := ⟨rfl, .inl ho⟩
    exact Scanner.mem_step_iff.mpr hdue
  · simp [Mode.isComment] at ho

end Cut

/-- Where a passage ends within a construct, as it does when it is full, all of it from there up to the
next flush is written as it is unless the construct is the header comment or one of the passages has
the marks of a whole function; a body always is. -/
theorem cut_construct_verbatim_iff (o : Options) (plate : Option Boilerplate.Reading) (t : Text)
    (hp : o.prototypesOnly = false) {before after : List Passage} {g : Passage}
    (hg : passages (fun l => o.bufferCapacity ≤ l) {} [] {} t = before ++ g :: after)
    {k : Construct} (hk : k.InProgress ((before ++ [g]).flatMap Passage.moments)) :
    (∀ h ∈ untilFlush (g :: after), h.Verbatim o plate) ↔
      (k = .comment → g.count .fileComment = 0) ∧
      (k ≠ .body → ∀ h ∈ untilFlush (g :: after), ¬ h.HoldsFunction) := by
  have hd := divides_passages (fun l => o.bufferCapacity ≤ l) {} t
  have hall := hd.sound Scanner.valid_initial
  have hmom := hd.moments_eq
  rw [hg] at hall hmom
  obtain ⟨hs, tail, hu, rfl, hflush⟩ := exists_untilFlush g after
  rw [List.flatMap_append, List.flatMap_cons, List.flatMap_nil, List.append_nil] at hk
  rw [List.flatMap_append, List.flatMap_cons, List.flatMap_append, ← List.append_assoc] at hmom
  have hsound : ∀ h ∈ g :: hs, h.Sound fun l => o.bufferCapacity ≤ l := by
    intro h hh
    refine hall h (List.mem_append_right _ ?_)
    rw [← List.cons_append]
    exact List.mem_append_left _ hh
  have hiff : ∀ h ∈ g :: hs, h.Verbatim o plate ↔ h.count .fileComment = 0 ∧ ¬ h.HoldsFunction :=
    fun h hh => (hsound h hh).verbatim_iff hp
  rw [hu]
  constructor
  · intro hv
    refine ⟨fun _ => ?_, fun _ h hh => ((hiff h hh).mp (hv h hh)).2⟩
    exact ((hiff g List.mem_cons_self).mp (hv g List.mem_cons_self)).1
  · rintro ⟨hc, hf⟩ h hh
    rw [hiff h hh]
    constructor
    · rcases List.mem_cons.mp hh with rfl | hh
      · by_cases hkc : k = .comment
        · exact hc hkc
        · exact (hsound h List.mem_cons_self).count_fileComment hkc hmom.symm hk
      · exact fileComment_of_flush (hsound h (List.mem_cons_of_mem _ hh)).valid (hflush h hh)
    · by_cases hkb : k = .body
      · subst hkb
        rintro ⟨hstart, -, hend⟩
        rcases List.mem_cons.mp hh with rfl | hh
        · obtain ⟨x, hx, hxb⟩ := Passage.count_pos.mp (hend ▸ Nat.one_pos)
          exact (hsound h List.mem_cons_self).not_bodyEnd hk x hx hxb
        · obtain ⟨x, hx, hxs⟩ := Passage.count_pos.mp (hstart ▸ Nat.one_pos)
          have hb := braces_pos_of_body hmom.symm hu
            (fun h hh => (hall h (List.mem_append_right _ hh)).toUnbroken) hk x
            (List.mem_flatMap.mpr ⟨h, hh, hx⟩)
          obtain ⟨n, hxn⟩ := Scanner.exists_step_of_mem hx
          rw [hxn] at hxs
          have := (Scanner.mem_step_iff.mp hxs).1
          omega
      · exact hf hkb h hh

/-- A full buffer cuts a comment that is not the header, and both halves pass through. -/
theorem cut_comment_verbatim :
    ∃ (o : Options) (t : Text) (before after : List Passage) (g : Passage),
      o.prototypesOnly = false ∧
      passages (fun l => o.bufferCapacity ≤ l) {} [] {} t = before ++ g :: after ∧
      o.bufferCapacity ≤ g.text.length ∧
      Construct.comment.InProgress ((before ++ [g]).flatMap Passage.moments) ∧
      ∀ h ∈ untilFlush (g :: after), h.Verbatim o none := by
  let o : Options := { bufferCapacity := 5, bufferCapacity_pos := by decide }
  let p : Passage := ⟨{}, Text.ofString "x;", some (.char '/'), []⟩
  let g : Passage := ⟨p.stop, Text.ofString "/*ab*", some (.char '/'), []⟩
  let h : Passage := ⟨g.stop, Text.ofString "/y;", none, []⟩
  have hg : passages (fun l => o.bufferCapacity ≤ l) {} [] {} (Text.ofString "x;/*ab*/y;") =
      [p] ++ g :: [h] := by decide +kernel
  have hk : Construct.comment.InProgress (([p] ++ [g]).flatMap Passage.moments) := by decide +kernel
  refine ⟨o, _, [p], [h], g, rfl, hg, by decide, hk, ?_⟩
  refine (cut_construct_verbatim_iff o none _ rfl hg hk).mpr ⟨fun _ => ?_, fun _ => ?_⟩
  · decide +kernel
  · decide +kernel

/-- A full buffer cuts the header comment, and the first half is written as a block of its own. -/
theorem cut_header_rewritten :
    ∃ (o : Options) (t : Text) (before after : List Passage) (g : Passage),
      o.prototypesOnly = false ∧
      passages (fun l => o.bufferCapacity ≤ l) {} [] {} t = before ++ g :: after ∧
      o.bufferCapacity ≤ g.text.length ∧
      Construct.comment.InProgress ((before ++ [g]).flatMap Passage.moments) ∧
      ¬ ∀ h ∈ untilFlush (g :: after), h.Verbatim o none := by
  let o : Options := { bufferCapacity := 5, bufferCapacity_pos := by decide }
  let g : Passage := ⟨{}, Text.ofString "/*abc", some (.char '*'), []⟩
  let h : Passage := ⟨g.stop, Text.ofString "*/", none, []⟩
  refine ⟨o, Text.ofString "/*abc*/", [], [h], g, ?_, ?_, ?_, ?_, ?_⟩ <;> decide +kernel

end DocBlock
