import Mathlib
import DocBlock.Proofs.Heading
import DocBlock.Proofs.ReadBack
import DocBlock.Proofs.Shift

/-! Reading what a function was written as. Behind its block the function is found again, with the
block as its description and with the same tags, so it is written as it is. -/

namespace DocBlock

open Scanner (Moment)

namespace Scanner

variable {s s' : Scanner} {c : Sym} {n : Option Sym} {k : Int} {l l' : Bool}

/-- Between two declarations outside bodies, with `k` parentheses open. -/
def idle (k : Int) (l : Bool) : Scanner := { parens := k, lineStart := l, fileStart := false }

theorem settle_eq_idle (hs : s.Steady) (hm : s.mode = .normal) (hb : s.braces = 0)
    (ht : s.between = true) (hf : s.fileStart = false) (hh : s.headerComment = false) :
    s.settle = idle s.parens s.lineStart := by
  obtain ⟨ho, hst⟩ := hs.quiet (by simp [hm, Mode.isComment])
  simp [settle, idle, hm, hb, ht, hf, hh, ho, hst, Mode.isComment]

theorem fresh_of_settle (hv : s.Valid) (h : s.settle = idle k l) :
    s.Fresh ∧ s.mode = .normal ∧ s.between = true ∧ s.parens = k := by
  have hmode : s.settle.mode = .normal := by rw [h]; rfl
  have hbraces : s.settle.braces = 0 := by rw [h]; rfl
  have hfile : s.settle.fileStart = false := by rw [h]; rfl
  have hheader : s.settle.headerComment = false := by rw [h]; rfl
  have hbetween : s.settle.between = true := by rw [h]; rfl
  have hparens : s.settle.parens = k := by rw [h]; rfl
  exact ⟨⟨hv, hbraces, hfile, hheader, .inl hmode⟩, hmode, hbetween, hparens⟩

theorem Fresh.settle_pastBlock (h : s.Fresh) (hm : s.mode = .normal) :
    s.pastBlock.settle = idle s.parens false := by
  obtain ⟨ho, hst⟩ := h.quiet
  simp [settle, pastBlock, idle, hm, h.braces, h.fileStart, h.headerComment, ho, hst]

theorem idle_step_blank (hc : c.isBlank = true) :
    (idle k l).step c n = (idle k (l || c.isNewline), []) := by
  have hmode : (idle k l).stepMode c n = (idle k (l || c.isNewline), []) := by
    change (idle k l).stepNormal c n = _
    rw [stepNormal_blank hc]
    cases c.isNewline <;> simp [idle]
  simp only [step, hmode]
  simp [headMarkers, idle, hc]

/-- Blanks change nothing but whether a line starts. -/
theorem run_blanks {t : Text} (h : s.settle = idle k l) (ht : ∀ c ∈ t, c.isBlank = true) :
    (s.runTo n t).settle = idle k (l || t.any Sym.isNewline) ∧
      ∀ m ∈ s.momentsTo n t, m.markers = [] := by
  induction t generalizing s l with
  | nil => exact ⟨by simpa using h, by simp⟩
  | cons c rest ih =>
    rw [List.forall_mem_cons] at ht
    have hi : s.settle = (idle k l).settle := h
    obtain ⟨hm, hs⟩ := settle_congr (c := c) (n := rest.head?.or n) hi
    rw [idle_step_blank ht.1] at hm hs
    obtain ⟨hr, hms⟩ := ih (show _ = idle k (l || c.isNewline) from hs) ht.2
    rw [runTo_cons, momentsTo_cons, List.forall_mem_cons, hr, List.any_cons, Bool.or_assoc]
    exact ⟨rfl, hm, hms⟩

/-- Between declarations the same is read, unless a directive may start. -/
theorem same_of_idle {v : Text} (h : s.settle = idle k l) (h' : s'.settle = idle k l')
    (hl : l = l' ∨ c.isBlank = false ∧ c ≠ .char '#') :
    List.Forall₂ Moment.Same (s.momentsTo n (c :: v)) (s'.momentsTo n (c :: v)) ∧
      (s.runTo n (c :: v)).settle = (s'.runTo n (c :: v)).settle := by
  have hstep : (idle k l).step c (v.head?.or n) = (idle k l').step c (v.head?.or n) := by
    rcases hl with rfl | ⟨hb, hc⟩
    · rfl
    · exact step_word (s := idle k l') rfl hb hc l
  have hi : s.settle = (idle k l).settle := h
  have hi' : s'.settle = (idle k l').settle := h'
  obtain ⟨hm, hs⟩ := settle_congr (c := c) (n := v.head?.or n) hi
  obtain ⟨hm', hs'⟩ := settle_congr (c := c) (n := v.head?.or n) hi'
  rw [hstep, ← hm'] at hm
  rw [hstep, ← hs'] at hs
  exact ⟨.cons ⟨rfl, hm⟩ (same_of_settle hs n v), settle_runTo hs v⟩

theorem stepMode_parens_of_isComment (hm : s.mode.isComment = true) :
    (s.stepMode c n).1.parens = s.parens ∧ (s.stepMode c n).1.between = s.between := by
  cases h : s.mode <;> simp only [h, Mode.isComment, Bool.false_eq_true] at hm <;>
    simp only [stepMode, h]
  · fun_cases stepBlockComment <;> exact ⟨rfl, rfl⟩
  · fun_cases stepLineComment <;> exact ⟨rfl, rfl⟩

/-- Where a comment is read outside bodies, it alone is marked. -/
theorem isOuter_of_isComment (hb : s.braces = 0) (hf : s.fileStart = false)
    (h : s.mode.isComment = true ∨ s.OpensComment c n) (ha : .flushAfter ∉ (s.step c n).2) :
    ∀ x ∈ (s.step c n).2, x.IsOuter := by
  intro x hx
  have hdue := mem_step_iff.mp hx
  have hnormal : s.mode = .normal → c = .char '/' := by
    intro hm
    rcases h with h | h
    · simp [hm, Mode.isComment] at h
    · exact h.2.1
  cases x
  case flush | descriptionStart | descriptionEnd | descriptionEndAfter => simp [Marker.IsOuter]
  case flushAfter => contradiction
  case fileComment | fileHeader => simp [Due, hf] at hdue
  case commentStart | commentEnd | statementStart | statementEnd => simp [Due, hb] at hdue
  case bodyEnd => simp [Due, hb] at hdue
  case descriptionDiscard => simp [hnormal hdue.2.1] at hdue; simp [Due] at hdue
  case functionStart =>
    have := hdue.2.2.2.1
    simp [hnormal hdue.2.1, isSpecial] at this
  case parametersStart | parametersEnd =>
    have := hdue.2.2.1
    simp [hnormal hdue.2.1] at this
  case bodyStart =>
    have := hdue.2.2
    simp [hnormal hdue.2.1] at this

end Scanner

namespace Passage

variable {full : Nat → Bool} {g : Passage} {o : Options}

theorem moments_of_text {u v : Text} {c : Sym} (ht : g.text = u ++ c :: v) :
    g.moments = g.start.momentsTo (some c) u ++
      (g.start.runTo (some c) u).momentsTo g.next (c :: v) := by
  rw [moments, ht, Scanner.momentsTo_append]
  rfl

/-- What holds of a passage holds of its beginnings. -/
theorem Sound.take (h : g.Sound full) {u v : Text} {c : Sym} (ht : g.text = u ++ c :: v) (hu : u ≠ []) :
    Sound full ⟨g.start, u, some c, []⟩ := by
  have hm := moments_of_text ht
  have hne : g.start.momentsTo (some c) u ≠ [] := by rwa [ne_eq, Scanner.momentsTo_eq_nil]
  refine ⟨⟨hu, fun m hmem => h.flush m ?_, fun m hmem => h.flushAfter m ?_, fun l h₀ hl => ?_⟩,
    h.valid, .inl rfl⟩
  · rw [hm, List.tail_append_of_ne_nil hne]
    exact List.mem_append_left _ hmem
  · rw [hm, List.dropLast_append_of_ne_nil (by simp [Scanner.momentsTo_cons])]
    exact List.mem_append_left _ (List.mem_of_mem_dropLast hmem)
  · refine h.early l h₀ ?_
    rw [ht, List.length_append]
    exact Nat.lt_add_right _ hl

/-- A comment in progress outside bodies started with the passage and changed nothing else. -/
theorem Sound.stop_of_isComment (h : g.Sound full) (hs : g.start.Fresh)
    (hm : g.stop.mode.isComment = true) (hb : g.stop.braces = 0) :
    g.stop.parens = g.start.parens ∧ g.stop.between = true := by
  have hstart : g.start.mode.isComment = false := by
    rcases hs.mode with h | h <;> simp [h, Mode.isComment]
  have key := h.induction (P := fun ms s => (ms = [] → s = g.start) ∧ (ms ≠ [] →
    s.mode.isComment = true → s.braces = 0 → s.parens = g.start.parens ∧ s.between = true))
    ⟨fun _ => rfl, by simp⟩ ?_
  · refine key.2 ?_ hm hb
    rw [moments, ne_eq, Scanner.momentsTo_eq_nil]
    exact h.text_ne
  · rintro ms s c n hv hf - ⟨h₀, h₁⟩
    refine ⟨by simp, fun _ hm hb => ?_⟩
    obtain ⟨he, ho⟩ := hv.of_isComment_stepMode hm
    have hb' : s.braces = 0 := he ▸ hb
    rw [Scanner.step_parens, Scanner.step_between]
    rcases ho with ho | ho
    · obtain rfl := h₀ (eq_nil_of_opensComment hf hb' ho)
      rw [Scanner.stepMode_of_opensComment ho]
      exact ⟨rfl, .inr (.inl (Scanner.mem_step_iff.mpr ⟨hb', .inl ho⟩))⟩
    · have hne : ms ≠ [] := by
        intro he
        rw [h₀ he, hstart] at ho
        contradiction
      obtain ⟨hp, ht⟩ := Scanner.stepMode_parens_of_isComment (c := c) (n := n) ho
      rw [hp, ht]
      exact ⟨(h₁ hne ho hb').1, .inl (h₁ hne ho hb').2⟩

/-- The comment of a function ends with `d`, which a line comment leaves out, and `c` follows. -/
structure Described (g : Passage) (u : Text) (d c : Sym) (v : Text) : Prop where
  text : g.text = (u ++ [d]) ++ c :: v
  braces : (g.start.runTo (some d) u).braces = 0
  ends : (g.start.runTo (some d) u).ClosesBlock d ∧ g.pending.description.stop = u.length + 1 ∨
    (g.start.runTo (some d) u).ClosesLine d ∧ g.pending.description.stop = u.length

section Described

variable {u v : Text} {c d : Sym}

/-- The body is still to come, so the comment is not all there is. -/
theorem Sound.exists_described (h : g.Sound full) (hs : g.start.Fresh)
    (hf : g.pending.isFunction = true) (hd : g.pending.description.isClosed = true) :
    ∃ u d c v, g.Described u d c v := by
  obtain ⟨u, d, w, ht, hb, hcl⟩ := h.described hs hd
  cases w with
  | cons c v => exact ⟨u, d, c, v, by simp [ht], hb, hcl⟩
  | nil =>
    exfalso
    obtain ⟨u', c, ht', hend⟩ := h.exists_bodyEnd hf
    obtain ⟨-, hcd⟩ := List.append_inj' (ht.symm.trans ht') rfl
    obtain rfl : d = c := by simpa using hcd
    have hc := (Scanner.mem_step_iff.mp hend).2.2
    rcases hcl with ⟨hx, -⟩ | ⟨hx, -⟩
    · have := hx.2.2.2
      simp [hc] at this
    · have := hx.2.2
      simp [hc, Sym.isNewline] at this

theorem Described.isComment (q : g.Described u d c v) :
    (g.start.runTo (some d) u).mode.isComment = true := by
  rcases q.ends with ⟨hc, -⟩ | ⟨hc, -⟩ <;> simp [hc.1, Mode.isComment]

theorem Described.ne_nil (q : g.Described u d c v) (hs : g.start.Fresh) : u ≠ [] := by
  rintro rfl
  have hi : g.start.mode.isComment = true := q.isComment
  rcases hs.mode with hm | hm <;> simp [hm, Mode.isComment] at hi

/-- Behind the comment of a function the next declaration may start. -/
theorem Sound.settle_described (h : g.Sound full) (hs : g.start.Fresh)
    (hf : g.pending.isFunction = true) (q : g.Described u d c v) (n : Option Sym) :
    (g.start.runTo n (u ++ [d])).settle = .idle g.start.parens d.isNewline := by
  have ht : g.text = u ++ d :: c :: v := by simp [q.text]
  have hi := q.isComment
  have hb := q.braces
  have hends := q.ends
  obtain ⟨hp, hbt⟩ := (h.take ht (q.ne_nil hs)).stop_of_isComment hs hi hb
  change (g.start.runTo (some d) u).parens = g.start.parens at hp
  change (g.start.runTo (some d) u).between = true at hbt
  have hv : (g.start.runTo (some d) u).Valid := hs.valid.runTo u
  have hr : (g.start.runTo (some d) u).resume = .normal := by
    refine (hv.resume_of_isComment hi).resolve_right fun hr => ?_
    exact h.not_inDirective hf ht (by simp) hb (.inr ⟨.inr hi, hr⟩)
  obtain ⟨hh, hfs⟩ := Scanner.runTo_headless hs.headerComment hs.fileStart u (n := some d)
  obtain ⟨hh', hfs'⟩ := Scanner.step_headless (c := d) (n := n) hh hfs
  obtain ⟨hp', hbt'⟩ := Scanner.stepMode_parens_of_isComment (c := d) (n := n) hi
  rw [Scanner.runTo_concat]
  generalize g.start.runTo (some d) u = s at *
  have hline : (s.step d n).1.lineStart = d.isNewline := by
    rcases hends with ⟨hc, -⟩ | ⟨hc, -⟩
    · have hblank : (Sym.char '/').isBlank = false := by decide
      rw [Scanner.step_lineStart, hc.2.2.2, hblank, Bool.and_false]
      rfl
    · rw [Scanner.step_lineStart, Scanner.stepMode_of_closesLine hc, hc.2.2,
        Sym.isBlank_of_isNewline hc.2.2]
      rfl
  have hmode : (s.step d n).1.mode = .normal ∧ (s.step d n).1.braces = 0 := by
    rw [Scanner.step_mode, Scanner.step_braces]
    rcases hends with ⟨hc, -⟩ | ⟨hc, -⟩
    · rw [Scanner.stepMode_of_closesBlock hc]
      exact ⟨hr, hb⟩
    · rw [Scanner.stepMode_of_closesLine hc]
      exact ⟨rfl, hb⟩
  rw [Scanner.settle_eq_idle hv.step.toSteady hmode.1 hmode.2 ?_ hfs' hh', hline, Scanner.step_parens,
    hp', hp]
  rw [Scanner.step_between, hbt']
  exact .inl hbt

/-- Up to the end of its comment a function marks nothing but the comment. -/
theorem Sound.isOuter_described (h : g.Sound full) (hs : g.start.Fresh)
    (hd : g.pending.description.isClosed = true) (q : g.Described u d c v) :
    ∀ m ∈ g.start.momentsTo (some c) (u ++ [d]), ∀ x ∈ m.markers, x.IsOuter := by
  intro m hm
  obtain ⟨n, hmn⟩ := Scanner.exists_step_of_mem hm
  have hfile := Scanner.forall_before_of_step (P := fun s => s.fileStart = false)
    (Q := fun _ => True) (fun s c n h _ => by simp [h]) hs.fileStart (fun _ _ => trivial) m hm
  have hafter : .flushAfter ∉ m.markers := by
    refine h.flushAfter m ?_
    rw [moments_of_text q.text, List.dropLast_append_of_ne_nil (by simp [Scanner.momentsTo_cons])]
    exact List.mem_append_left _ hm
  suffices hin : m.before.braces = 0 ∧
      (m.before.mode.isComment = true ∨ m.before.OpensComment m.sym n) by
    rw [hmn] at hafter ⊢
    exact Scanner.isOuter_of_isComment hin.1 hfile hin.2 hafter
  rw [Scanner.momentsTo_concat] at hm
  rcases List.mem_append.mp hm with hm | hm
  · have ht : g.text = u ++ d :: c :: v := by simp [q.text]
    obtain ⟨-, -, hfill⟩ := h.inTopComment
    obtain ⟨k, -, hk, hall⟩ := hfill hd
    have hle : u.length ≤ k := by rcases q.ends with ⟨-, he⟩ | ⟨-, he⟩ <;> omega
    rw [← take_moments ht] at hm
    have htop := hall m (List.take_subset_take_left _ hle hm)
    simp only [Moment.inTopComment, Bool.and_eq_true, Bool.or_eq_true, decide_eq_true_eq] at htop
    refine ⟨htop.1, ?_⟩
    rcases htop.2 with ha | ha
    · rw [hmn] at ha
      have hvalid := Scanner.valid_of_mem hs.valid (List.mem_of_mem_take hm)
      exact (hvalid.of_isComment_stepMode ha).2.symm
    · exact .inl (by simp [ha, Mode.isComment])
  · rw [List.mem_singleton.mp hm]
    exact ⟨q.braces, .inl q.isComment⟩

end Described

/-- Behind the comment that a function may start with, no comment outside bodies is marked. -/
theorem Sound.not_isOuter (h : g.Sound full) (hs : g.start.Fresh) (hf : g.pending.isFunction = true)
    {a v : Text} {c : Sym} {k : Int} {l : Bool} (ht : g.text = a ++ c :: v)
    (hst : (g.start.runTo (some c) a).settle = .idle k l)
    (hflush : ∀ m ∈ (g.start.runTo (some c) a).momentsTo g.next (c :: v), .flush ∉ m.markers) :
    ∀ m ∈ (g.start.runTo (some c) a).momentsTo g.next (c :: v), ∀ x ∈ m.markers,
      ¬ x.IsOuter ∧ x ≠ .descriptionDiscard := by
  have hmoments := moments_of_text ht
  have hv : (g.start.runTo (some c) a).Valid := hs.valid.runTo a
  obtain ⟨-, hmode, -⟩ := Scanner.fresh_of_settle hv hst
  generalize g.start.runTo (some c) a = s at *
  have hall := Scanner.forall_before_of_step (s := s) (n := g.next) (t := c :: v)
    (P := fun s => s.Steady ∧ (s.braces = 0 → s.mode.isComment = false)) (Q := (.flush ∉ ·)) ?_
    ⟨hv.toSteady, fun _ => by simp [hmode, Mode.isComment]⟩
    fun m hm => hflush m (List.mem_of_mem_dropLast hm)
  · intro m hm x hx
    refine ⟨?_, ?_⟩
    · obtain ⟨n, hmn⟩ := Scanner.exists_step_of_mem hm
      have hx' := hx
      rw [hmn] at hx'
      have hdue := Scanner.mem_step_iff.mp hx'
      have hcomment := (hall m hm).2
      rintro (rfl | rfl | rfl | rfl)
      · exact hflush m hm hx
      · refine hflush m hm ?_
        rw [hmn]
        exact Scanner.mem_step_iff.mpr ⟨hdue.1, .inl hdue.2⟩
      · have := hcomment hdue.1
        simp [hdue.2.1, Mode.isComment] at this
      · have := hcomment hdue.1
        simp [hdue.2.1, Mode.isComment] at this
    · rintro rfl
      refine h.not_discard hf m ?_ hx
      rw [hmoments]
      exact List.mem_append_right _ hm
  · rintro s c n ⟨hsteady, hi⟩ hn
    refine ⟨hsteady.step, fun hb => ?_⟩
    by_contra hm
    obtain ⟨he, ho⟩ := hsteady.of_isComment_stepMode (c := c) (n := n) (by simpa using hm)
    have hb' : s.braces = 0 := he ▸ hb
    rcases ho with ho | ho
    · exact hn (Scanner.mem_step_iff.mpr ⟨hb', .inl ho⟩)
    · rw [hi hb'] at ho
      contradiction

/-- How a function is written: its block stands between blanks and what was read from `c` on. Before
that the passage held nothing but a comment or blanks. -/
structure Recast (o : Options) (g : Passage) (above a below : Text) (c : Sym) (v : Text) : Prop where
  text : g.text = a ++ c :: v
  written : g.written o = above ++ ((g.pending.block o).comment ++ (below ++ c :: v))
  blank_above : ∀ x ∈ above, x.isBlank = true
  blank_below : ∀ x ∈ below, x.isBlank = true
  outer : ∀ m ∈ g.start.momentsTo (some c) a, ∀ x ∈ m.markers, x.IsOuter
  flush : ∀ m ∈ (g.start.runTo (some c) a).momentsTo g.next (c :: v), .flush ∉ m.markers
  idle : ∃ l, (g.start.runTo (some c) a).settle = .idle g.start.parens l ∧
    (l = below.any Sym.isNewline ∨ c.isBlank = false ∧ c ≠ .char '#')
  declared : ∃ m ∈ (g.start.runTo (some c) a).momentsTo g.next (c :: v), .functionStart ∈ m.markers

end Passage

namespace Pending

/-- The declarator starts behind the comment, or there is no comment and but blanks before it. -/
def Placed (p : Pending) : Prop :=
  if p.description.isClosed then p.description.stop ≤ p.function.start
  else (∀ c ∈ p.text.take p.function.start.toNat, c.isBlank = true) ∧
    ∃ c ∈ (p.text.drop p.function.start.toNat).head?, Scanner.isSpecial c = false ∧ c.isBlank = false

instance (p : Pending) : Decidable p.Placed := by
  unfold Placed
  infer_instance

end Pending

namespace Passage

variable {full : Nat → Bool} {g : Passage} {o : Options}

theorem exists_moment_of_text {x : Marker} {a u v w : Text} {c d : Sym} (ht : g.text = a ++ c :: v)
    (ht' : g.text = u ++ d :: w) (hl : a.length ≤ u.length)
    (hx : (g.start.runTo (some d) u).Due d (w.head?.or g.next) x) :
    ∃ m ∈ (g.start.runTo (some c) a).momentsTo g.next (c :: v), x ∈ m.markers := by
  obtain ⟨b, rfl, hb⟩ : ∃ b, u = a ++ b ∧ c :: v = b ++ d :: w := by
    rcases List.append_eq_append_iff.mp (ht.symm.trans ht') with ⟨b, hu, hv⟩ | ⟨b, hu, hv⟩
    · exact ⟨b, hu, hv⟩
    · obtain rfl : b = [] := by
        have := congrArg List.length hu
        simp at this
        exact List.length_eq_zero_iff.mp (by omega)
      exact ⟨[], by simpa using hu.symm, by simpa using hv.symm⟩
  refine ⟨(g.start.runTo (some d) (a ++ b)).moment (w.head?.or g.next) d, ?_,
    Scanner.mem_step_iff.mpr hx⟩
  have hc : (b ++ d :: w).head? = some c := by rw [← hb]; rfl
  have hr : g.start.runTo (some d) (a ++ b) = (g.start.runTo (some c) a).runTo (some d) b := by
    rw [Scanner.runTo_append]
    congr 2
    rw [← hc]
    cases b <;> rfl
  rw [hb, hr, Scanner.momentsTo_append, Scanner.momentsTo_cons]
  simp

/-- A declarator that does not start within the comment starts behind it. -/
theorem Sound.declared_described (h : g.Sound full) (hs : g.start.Fresh) {u v : Text} {c d : Sym}
    (q : g.Described u d c v) (hpl : g.pending.description.stop ≤ g.pending.function.start) :
    ∃ m ∈ (g.start.runTo (some c) (u ++ [d])).momentsTo g.next (c :: v), .functionStart ∈ m.markers := by
  obtain ⟨u', d', v', ht', hst, hbr, hword⟩ := (h.function_start hs).resolve_left fun hn => by
    rw [hn.2] at hpl
    have := List.length_pos_iff.mpr (q.ne_nil hs)
    rcases q.ends with ⟨-, he⟩ | ⟨-, he⟩ <;> omega
  refine exists_moment_of_text q.text ht' ?_ ⟨hbr, hword⟩
  rw [List.length_append, List.length_singleton]
  rcases q.ends with ⟨-, he⟩ | ⟨hl, he⟩
  · omega
  · -- The line break that ends a line comment is no declarator.
    by_contra hlt
    have hlen : u'.length = u.length := by omega
    have ht : g.text = u ++ d :: c :: v := by simp [q.text]
    obtain ⟨rfl, hcd⟩ := List.append_inj (ht'.symm.trans ht) hlen
    obtain rfl : d' = d := (List.cons.inj hcd).1
    have := hword.2.2.1
    simp [Scanner.isSpecial, hl.2.2] at this

theorem Sound.recast_described (h : g.Sound full) (hs : g.start.Fresh) (hp : o.prototypesOnly = false)
    (hf : g.pending.isFunction = true) (hd : g.pending.description.isClosed = true)
    (hpl : g.pending.Placed) : ∃ a below c v, g.Recast o [] a below c v := by
  rw [Pending.Placed, if_pos hd] at hpl
  obtain ⟨u, d, c, v, q⟩ := h.exists_described hs hf hd
  have hset := h.settle_described hs hf q (some c)
  have houter := h.isOuter_described hs hd q
  have hdecl := h.declared_described hs q hpl
  have hflush : ∀ m ∈ (g.start.runTo (some c) (u ++ [d])).momentsTo g.next (c :: v),
      .flush ∉ m.markers := by
    intro m hm
    refine h.flush m ?_
    rw [moments_of_text q.text, List.tail_append_of_ne_nil (by simp [Scanner.momentsTo_eq_nil])]
    exact List.mem_append_right _ hm
  rcases q.ends with ⟨hc, hk⟩ | ⟨hc, hk⟩
  · refine ⟨u ++ [d], [], c, v, q.text, ?_, by simp, by simp, houter, hflush,
      ⟨_, hset, .inl (by rw [hc.2.2.2]; rfl)⟩, hdecl⟩
    have hk' : g.pending.description.stop = ((u ++ [d]).length : Nat) := by simp [hk]
    rw [h.written_described hs hp hf hd hk', q.text, List.drop_left]
    rfl
  · refine ⟨u ++ [d], [d], c, v, q.text, ?_, by simp, ?_, houter, hflush,
      ⟨_, hset, .inl (by simp)⟩, hdecl⟩
    · rw [h.written_described hs hp hf hd hk, q.text, List.append_assoc, List.drop_left]
      rfl
    · simpa using Sym.isBlank_of_isNewline hc.2.2

/-- No comment starts with a declarator or behind it. -/
theorem Sound.not_flush_of_startsWord (h : g.Sound full) {a v : Text} {c : Sym}
    (ht : g.text = a ++ c :: v) (hw : (g.start.runTo (some c) a).StartsWord c) :
    ∀ m ∈ (g.start.runTo (some c) a).momentsTo g.next (c :: v), .flush ∉ m.markers := by
  intro m hm
  rw [Scanner.momentsTo_cons] at hm
  rcases List.mem_cons.mp hm with rfl | hm
  · intro hx
    obtain ⟨-, ho | ⟨hl, -⟩⟩ := Scanner.mem_step_iff.mp hx
    · have := hw.2.2.1
      simp [Scanner.isSpecial, ho.2.1] at this
    · have := hl.1
      simp [hw.1] at this
  · refine h.flush m ?_
    rw [moments_of_text ht, List.tail_append]
    split
    · exact hm
    · exact List.mem_append_right _ (by simp [Scanner.momentsTo_cons, hm])

/-- Without a comment there are but blanks before the declarator. -/
theorem Sound.exists_declarator (h : g.Sound full) (hs : g.start.Fresh)
    (hf : g.pending.isFunction = true) (hd : g.pending.description.isClosed = false)
    (hpl : g.pending.Placed) (hbt : g.start.between = true) :
    ∃ a c v, g.text = a ++ c :: v ∧ g.pending.function.start = a.length ∧
      (g.start.runTo (some c) a).braces = 0 ∧ (g.start.runTo (some c) a).StartsWord c ∧
      ∀ x ∈ a, x.isBlank = true := by
  rw [Pending.Placed, if_neg (by simp [hd]), text_pending] at hpl
  obtain ⟨hblank, c, hc, hsp, hb⟩ := hpl
  rcases h.function_start hs with hn | ⟨a, c, v, ht, hst, hbr, hword⟩
  · -- The first symbol is a word, so a declarator starts with it.
    exfalso
    rw [hn.2, Int.toNat_zero, List.drop_zero] at hc
    obtain ⟨v, hv⟩ := List.head?_eq_some_iff.mp hc
    refine hn.1 (g.start.moment (v.head?.or g.next) c) ?_ ?_
    · rw [moments, hv, Scanner.momentsTo_cons]
      simp
    · exact Scanner.mem_step_iff.mpr ⟨hs.braces, h.start_mode hs hf, hbt, hsp, hb⟩
  · rw [hst, Int.toNat_natCast, ht, List.take_left] at hblank
    exact ⟨a, c, v, ht, hst, hbr, hword, hblank⟩

theorem Sound.recast_undescribed (h : g.Sound full) (hs : g.start.Fresh)
    (hp : o.prototypesOnly = false) (hf : g.pending.isFunction = true)
    (hd : g.pending.description.isClosed = false) (hpl : g.pending.Placed)
    (hbt : g.start.between = true) : ∃ above a below c v, above ≠ [] ∧ g.Recast o above a below c v := by
  obtain ⟨a, c, v, ht, hst, hbr, hword, hblank⟩ := h.exists_declarator hs hf hd hpl hbt
  have hidle := Scanner.settle_eq_idle hs.valid.toSteady (h.start_mode hs hf) hs.braces hbt
    hs.fileStart hs.headerComment
  obtain ⟨hrun, hmark⟩ := Scanner.run_blanks (n := some c) hidle hblank
  have hflush := h.not_flush_of_startsWord ht hword
  have hne : c ≠ .char '#' := by
    rintro rfl
    exact absurd hword.2.2.1 (by decide)
  have houter : ∀ m ∈ g.start.momentsTo (some c) a, ∀ x ∈ m.markers, x.IsOuter := by
    intro m hm x hx
    simp [hmark m hm] at hx
  have hfirst := exists_moment_of_text (x := .functionStart) ht ht le_rfl ⟨hbr, hword⟩
  have hnl : (Sym.char '\n').isBlank = true := by decide
  rcases List.eq_nil_or_concat' a with rfl | ⟨u, d, rfl⟩
  · refine ⟨[.char '\n'], [], [.char '\n'], c, v, by simp, ht, ?_, by simpa using hnl,
      by simpa using hnl, houter, hflush, ⟨_, hrun, .inr ⟨hword.2.2.2, hne⟩⟩, hfirst⟩
    rw [h.written_atStart hs hp hf hd hst, ht]
    rfl
  · have hmoved : g.Moved u d c v := by
      rw [Scanner.runTo_concat] at hbr hword
      exact ⟨by simp [ht], by simp [hst], hbr, hword⟩
    rw [List.forall_mem_append] at hblank
    refine ⟨u ++ [Sym.char '\n'], u ++ [d], [d], c, v, by simp, ht, ?_, ?_, hblank.2,
      houter, hflush, ⟨_, hrun, .inr ⟨hword.2.2.2, hne⟩⟩, hfirst⟩
    · rw [h.written_moved hs hp hf hd hmoved]
      simp
    · rw [List.forall_mem_append]
      exact ⟨hblank.1, by simpa using hnl⟩

end Passage

namespace Pending

theorem description_foldl_read {ms : List Moment}
    (h : ∀ m ∈ ms, ∀ x ∈ m.markers, ¬ x.IsOuter ∧ x ≠ .descriptionDiscard) (p : Pending) :
    (ms.foldl read p).description = p.description := by
  induction ms generalizing p with
  | nil => rfl
  | cons m ms ih =>
    rw [List.forall_mem_cons] at h
    have hm : ∀ x ∈ m.marks, ¬ x.IsOuter ∧ x ≠ .descriptionDiscard :=
      fun x hx => h.1 x (Moment.mem_marks hx)
    rw [List.foldl_cons, ih h.2]
    refine description_foldl_mark_of_notMem ?_ ?_ ?_ ?_ p <;> intro hx
    · exact (hm _ hx).1 (.inr (.inl rfl))
    · exact (hm _ hx).1 (.inr (.inr (.inl rfl)))
    · exact (hm _ hx).1 (.inr (.inr (.inr rfl)))
    · exact (hm _ hx).2 rfl

/-- A block comment is all of the description. -/
theorem description_foldl_read_comment {first last : Moment} {middle : List Moment}
    (h₁ : first.markers = [.flush, .descriptionStart]) (h₂ : ∀ m ∈ middle, m.markers = [])
    (h₃ : last.markers = [.descriptionEndAfter]) :
    ((first :: (middle ++ [last])).foldl read {}).description =
      { start := 0, stop := (first :: (middle ++ [last])).length, closings := .once } := by
  have hmid : (middle.foldl read (read {} first)).description = (read {} first).description :=
    description_foldl_read (fun m hm x hx => by simp [h₂ m hm] at hx) _
  have hsize : ((first :: middle).foldl read {}).size = middle.length + 1 := by
    rw [size_foldl_read, List.length_cons]
  have hfirst : (read {} first).description = { start := 0, stop := 0, closings := .none } := by
    simp [read, Moment.marks, h₁, mark, push, Extent.openAt, size]
  have hlast : last.marks = [.descriptionEndAfter] := by simp [Moment.marks, h₃]
  rw [← List.cons_append, List.foldl_append, List.foldl_cons, List.foldl_nil, read, hlast]
  change ((first :: middle).foldl read {}).description.closeAt
    (((first :: middle).foldl read {}).size + 1) = _
  rw [hsize, List.foldl_cons, hmid, hfirst]
  simp [Extent.closeAt, Closings.next]
  omega

end Pending

theorem Scanner.exists_same_of_mem {ms ms' : List Moment} (h : List.Forall₂ Moment.Same ms ms')
    {m : Moment} (hm : m ∈ ms') : ∃ m₀ ∈ ms, m₀.markers = m.markers := by
  have := List.mem_map_of_mem (f := Moment.markers) hm
  rw [← same_markers h] at this
  exact List.mem_map.mp this

theorem Scanner.same_dropLast {ms ms' : List Moment} (h : List.Forall₂ Moment.Same ms ms') :
    List.Forall₂ Moment.Same ms.dropLast ms'.dropLast := by
  rw [List.dropLast_eq_take, List.dropLast_eq_take, h.length_eq]
  exact List.forall₂_take _ h

namespace Passage

variable {g : Passage} {o : Options} {above a below v : Text} {c : Sym} {s : Scanner} {n : Option Sym}

/-- The block and what was written below it. -/
def again (o : Options) (g : Passage) (below : Text) (c : Sym) (v : Text) (s : Scanner)
    (n : Option Sym) : Passage :=
  ⟨s, (g.pending.block o).comment ++ (below ++ c :: v), n, []⟩

/-- How the block and the function below it are read. -/
structure Reread (o : Options) (g : Passage) (a below : Text) (c : Sym) (v : Text) (s : Scanner)
    (n : Option Sym) (first last : Moment) (middle gap rest : List Moment) : Prop where
  moments : (g.again o below c v s n).moments = first :: (middle ++ [last]) ++ (gap ++ rest)
  length : (first :: (middle ++ [last])).length = (g.pending.block o).comment.length
  first : first.markers = [.flush, .descriptionStart]
  middle : ∀ m ∈ middle, m.markers = []
  last : last.markers = [.descriptionEndAfter]
  gap : ∀ m ∈ gap, m.markers = []
  same : List.Forall₂ Moment.Same ((g.start.runTo (some c) a).momentsTo g.next (c :: v)) rest
  stop : (g.again o below c v s n).stop.settle = g.stop.settle

theorem Recast.exists_reread (r : g.Recast o above a below c v) (h : g.Sound fun _ => false)
    (hf : g.pending.isFunction = true) (hb : (g.pending.block o).comment.Sealed) (hs : s.Fresh)
    (hm : s.mode = .normal) (hp : s.parens = g.start.parens) (n : Option Sym) :
    ∃ first last middle gap rest, g.Reread o a below c v s n first last middle gap rest := by
  obtain ⟨hrun, first, middle, last, hmo, h₁, -, h₂, h₃, -⟩ :=
    Scanner.scan_block (n := (below ++ c :: v).head?.or n) hs hm (FunctionBlock.not_closer_inside hb)
  rw [← FunctionBlock.comment_eq] at hrun hmo
  obtain ⟨l, hidle, hl⟩ := r.idle
  have hpast := hs.settle_pastBlock hm
  rw [hp] at hpast
  obtain ⟨hgap, hmark⟩ := Scanner.run_blanks (n := some c) hpast r.blank_below
  rw [Bool.false_or] at hgap
  obtain ⟨hsame, hstop⟩ := Scanner.same_of_idle (n := n) (v := v) hidle hgap hl
  -- A flush is due behind the function, so what follows it does not matter.
  obtain ⟨u, x, htext, hend⟩ := h.exists_bodyEnd hf
  obtain ⟨hmoments, hruns⟩ := Scanner.eq_of_flushAfter n (Scanner.flushAfter_of_bodyEnd hend)
  rw [← htext, r.text, Scanner.momentsTo_append, Scanner.momentsTo_append] at hmoments
  rw [← htext, r.text, Scanner.runTo_append] at hruns
  have hrest := List.append_cancel_left hmoments
  simp only [List.head?_cons, Option.some_or] at hrest hruns
  rw [hrest] at hsame
  refine ⟨first, last, middle, _, _, ?_, by rw [← hmo, Scanner.length_momentsTo], h₁,
    fun m hm => (h₂ m hm).1, h₃, hmark, hsame, ?_⟩
  · rw [moments, again, Scanner.momentsTo_append, hmo, hrun, Scanner.momentsTo_append]
    rfl
  · rw [stop, again, Scanner.runTo_append, hrun, Scanner.runTo_append]
    refine hstop.symm.trans ?_
    rw [hruns, stop, r.text]

section Reread

variable {first last : Moment} {middle gap rest : List Moment}
  (q : g.Reread o a below c v s n first last middle gap rest)
include q

theorem Reread.unbroken (r : g.Recast o above a below c v) (h : g.Sound fun _ => false) :
    (g.again o below c v s n).Unbroken fun _ => false := by
  have hne : (g.start.runTo (some c) a).momentsTo g.next (c :: v) ≠ [] := by
    simp [Scanner.momentsTo_cons]
  have hrest : rest ≠ [] := by
    intro he
    exact hne (List.length_eq_zero_iff.mp (by rw [q.same.length_eq, he]; rfl))
  refine ⟨by simp [again, FunctionBlock.comment_eq], fun m hm hx => ?_, fun m hm hx => ?_,
    fun _ _ _ => rfl⟩
  · rw [q.moments, List.cons_append, List.tail_cons] at hm
    simp only [List.mem_append, List.mem_singleton] at hm
    rcases hm with (hm | rfl) | hm | hm
    · simp [q.middle m hm] at hx
    · simp [q.last] at hx
    · simp [q.gap m hm] at hx
    · obtain ⟨m₀, hm₀, he⟩ := Scanner.exists_same_of_mem q.same hm
      exact r.flush m₀ hm₀ (he ▸ hx)
  · rw [q.moments, List.dropLast_append_of_ne_nil (by simp [hrest]),
      List.dropLast_append_of_ne_nil hrest] at hm
    simp only [List.mem_append, List.mem_cons, List.not_mem_nil, or_false] at hm
    rcases hm with (rfl | hm | rfl) | hm | hm
    · simp [q.first] at hx
    · simp [q.middle m hm] at hx
    · simp [q.last] at hx
    · simp [q.gap m hm] at hx
    · obtain ⟨m₀, hm₀, he⟩ := Scanner.exists_same_of_mem (Scanner.same_dropLast q.same) hm
      refine h.flushAfter m₀ ?_ (he ▸ hx)
      rw [moments_of_text r.text, List.dropLast_append_of_ne_nil hne]
      exact List.mem_append_right _ hm₀

/-- A marker of the function is found behind the comment, and found there again. -/
theorem Reread.exists_marked (r : g.Recast o above a below c v) {x : Marker} (hx : ¬ x.IsOuter)
    (hm : ∃ m ∈ g.moments, x ∈ m.markers) :
    (∃ m ∈ (g.start.runTo (some c) a).momentsTo g.next (c :: v), x ∈ m.markers) ∧
      ∃ m ∈ (g.again o below c v s n).moments, x ∈ m.markers := by
  obtain ⟨m, hm, hmx⟩ := hm
  rw [moments_of_text r.text] at hm
  rcases List.mem_append.mp hm with hm | hm
  · exact absurd (r.outer m hm x hmx) hx
  · refine ⟨⟨m, hm, hmx⟩, ?_⟩
    have := List.mem_map_of_mem (f := Moment.markers) hm
    rw [Scanner.same_markers q.same] at this
    obtain ⟨m', hm', he⟩ := List.mem_map.mp this
    refine ⟨m', ?_, he ▸ hmx⟩
    rw [q.moments]
    simp [hm']

/-- The block is all of the description. -/
theorem Reread.description (r : g.Recast o above a below c v) (h : g.Sound fun _ => false)
    (hg : g.start.Fresh) (hf : g.pending.isFunction = true) (hs : s.Fresh)
    (hsound : (g.again o below c v s n).Sound fun _ => false) :
    (g.again o below c v s n).pending.description =
      { start := 0, stop := (g.pending.block o).comment.length, closings := .once } := by
  obtain ⟨l, hidle, -⟩ := r.idle
  have hinner := h.not_isOuter hg hf r.text hidle r.flush
  rw [hsound.pending_eq hs, q.moments, List.foldl_append, List.foldl_append,
    Pending.description_foldl_read, Pending.description_foldl_read,
    Pending.description_foldl_read_comment q.first q.middle q.last, q.length]
  · exact fun m hm x hx => by simp [q.gap m hm] at hx
  · intro m hm x hx
    obtain ⟨m₀, hm₀, he⟩ := Scanner.exists_same_of_mem q.same hm
    exact hinner m₀ hm₀ x (he ▸ hx)

/-- The block marks nothing but a description. -/
theorem Reread.bare : ((first :: (middle ++ [last]) ++ gap).foldl Pending.read {}).Bare := by
  refine Pending.bare_empty.foldl_read fun m hm x hx => ?_
  simp only [List.mem_append, List.mem_cons, List.not_mem_nil, or_false] at hm
  rcases hm with (rfl | hm | rfl) | hm
  · rcases by simpa [q.first] using hx with rfl | rfl <;> simp [Marker.IsOuter]
  · simp [q.middle m hm] at hx
  · obtain rfl : x = .descriptionEndAfter := by simpa [q.last] using hx
    simp [Marker.IsOuter]
  · simp [q.gap m hm] at hx

/-- The function is found again, with the same tags. -/
theorem Reread.tags (r : g.Recast o above a below c v) (h : g.Sound fun _ => false)
    (hg : g.start.Fresh) (hf : g.pending.isFunction = true) (hs : s.Fresh)
    (hsound : (g.again o below c v s n).Sound fun _ => false) :
    (g.again o below c v s n).pending.isFunction = true ∧
      ((g.again o below c v s n).pending.block o).tags = (g.pending.block o).tags := by
  set z := (g.start.runTo (some c) a).momentsTo g.next (c :: v) with hz
  have hmarks {x : Marker} (hx : ∃ m ∈ z, x ∈ m.markers) : ∃ m ∈ z, x ∈ m.marks := by
    obtain ⟨m, hm, hx⟩ := hx
    refine ⟨m, hm, ?_⟩
    rwa [Moment.marks, if_neg (r.flush m hm)]
  have htied := (Pending.Tied.of_bare (Pending.bare_empty.foldl_read r.outer) q.bare).foldl_read q.same
  have hpend : g.pending = z.foldl Pending.read
      ((g.start.momentsTo (some c) a).foldl Pending.read {}) := by
    rw [h.pending_eq hg, moments_of_text r.text, List.foldl_append]
  have hpend' : (g.again o below c v s n).pending =
      rest.foldl Pending.read ((first :: (middle ++ [last]) ++ gap).foldl Pending.read {}) := by
    rw [hsound.pending_eq hs, q.moments, ← List.append_assoc, List.foldl_append]
  rw [← hpend, ← hpend'] at htied
  -- The declarator and the parameter list are opened behind the two beginnings.
  obtain ⟨hparams, -⟩ := q.exists_marked r (x := .parametersStart) (by simp [Marker.IsOuter])
    (count_pos.mp ((h.isFunction_iff.mp hf).1 ▸ Nat.one_pos))
  exact ⟨htied.isFunction ▸ hf, (htied.tags (.inr (hmarks r.declared)) (.inr (hmarks hparams))).symm⟩

/-- The function is documented by the block that stands before it. -/
theorem Reread.written (r : g.Recast o above a below c v) (h : g.Sound fun _ => false)
    (hg : g.start.Fresh) (hf : g.pending.isFunction = true) (hp : o.prototypesOnly = false)
    (hl : (g.pending.block o).Legible) (hs : s.Fresh)
    (hsound : (g.again o below c v s n).Sound fun _ => false) :
    (g.again o below c v s n).written o = (g.again o below c v s n).text ∧
      (g.again o below c v s n).pending.description.isClosed = true := by
  obtain ⟨hfun, htags⟩ := q.tags r h hg hf hs hsound
  have hdesc := q.description r h hg hf hs hsound
  have hclosed : (g.again o below c v s n).pending.description.isClosed = true := by
    rw [hdesc]
    rfl
  have htext : (g.again o below c v s n).pending.extentText
      (g.again o below c v s n).pending.description = (g.pending.block o).comment := by
    rw [hdesc, Pending.extentText, Pending.slice_zero, text_pending]
    exact List.take_left
  refine ⟨?_, hclosed⟩
  rw [hsound.written_described hs hp hfun hclosed (k := (g.pending.block o).comment.length)
    (by rw [hdesc]), FunctionBlock.comment_block_eq FunctionBlock.genuine_block hl htags hclosed
      htext, again, List.drop_left]

end Reread

end Passage

end DocBlock
