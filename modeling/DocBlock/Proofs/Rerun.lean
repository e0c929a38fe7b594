import Mathlib
import DocBlock.Proofs.Reread

/-! Annotating a text twice. What is written falls into passages that are written as they are, so a
second run changes nothing, provided that each block can be read back and stands where it is found
again. -/

namespace DocBlock

open Scanner (Moment)

/-- The passage is written as it is, and a function in it has a description. -/
def Passage.Calm (o : Options) (g : Passage) : Prop :=
  g.written o = g.text ∧ (g.pending.isFunction = true → g.pending.description.isClosed = true)

/-- Every passage of the text, read from the given state on, is written as it is. -/
def Settled (o : Options) (s : Scanner) (t : Text) : Prop :=
  ∃ gs, Divides (fun _ => false) s t gs ∧ ∀ g ∈ gs, g.Calm o

theorem Divides.flatMap_text {full : Nat → Bool} {s : Scanner} {t : Text} {gs : List Passage}
    (h : Divides full s t gs) : gs.flatMap Passage.text = t := by
  have hm := congrArg (List.map Moment.sym) h.moments_eq
  rw [Scanner.map_sym_moments, List.map_flatMap] at hm
  simpa [Passage.moments] using hm

theorem Scanner.Fresh.of_settle {s s' : Scanner} (h : s.Fresh) (hv : s'.Valid)
    (he : s'.settle = s.settle) : s'.Fresh where
  valid := hv
  braces := (congrArg Scanner.braces he).trans h.braces
  fileStart := (congrArg Scanner.fileStart he).trans h.fileStart
  headerComment := (congrArg Scanner.headerComment he).trans h.headerComment
  mode := by
    have hm : s'.settle.mode = s.settle.mode := congrArg Scanner.mode he
    change s'.settle.mode = .normal ∨ s'.settle.mode = .directive
    rw [hm]
    exact h.mode

namespace Settled

variable {o : Options} {s : Scanner} {t rest : Text} {g : Passage}

theorem nil (s : Scanner) : Settled o s [] := ⟨[], .nil s, by simp⟩

theorem cons (hh : g.Heads (fun _ => false) s t rest) (hv : s.Valid)
    (hc : g.Sound (fun _ => false) → g.Calm o) (hr : Settled o g.stop rest) : Settled o s t := by
  obtain ⟨gs, hd, hall⟩ := hr
  have hd' := Divides.cons hh hd
  exact ⟨g :: gs, hd', List.forall_mem_cons.mpr ⟨hc (hd'.sound hv g List.mem_cons_self), hall⟩⟩

theorem rewritten_eq (h : Settled o s t) : rewritten o s t = t := by
  obtain ⟨gs, hd, hall⟩ := h
  rw [hd.rewritten_eq, ← hd.flatMap_text]
  exact List.flatMap_congr fun g hg => (hall g hg).1

end Settled

namespace Passage

variable {g g' : Passage} {o : Options}

/-! Passages that bear the same markers. -/

theorem count_congr (h : g.moments.map (·.markers) = g'.moments.map (·.markers)) (x : Marker) :
    g.count x = g'.count x := by
  rw [count, count, List.flatMap_def, List.flatMap_def, h]

theorem exists_marked_congr (h : g.moments.map (·.markers) = g'.moments.map (·.markers)) (x : Marker) :
    (∃ m ∈ g.moments, x ∈ m.markers) ↔ ∃ m ∈ g'.moments, x ∈ m.markers := by
  rw [← count_pos, ← count_pos, count_congr h]

theorem Unbroken.congr (hg : g.Unbroken fun _ => false) (ht : g'.text ≠ [])
    (h : g.moments.map (·.markers) = g'.moments.map (·.markers)) : g'.Unbroken fun _ => false := by
  refine ⟨ht, fun m hm => ?_, fun m hm => ?_, fun _ _ _ => rfl⟩
  · have hmem := List.mem_map_of_mem (f := Moment.markers) hm
    rw [List.map_tail, ← h, ← List.map_tail] at hmem
    obtain ⟨m₀, hm₀, he⟩ := List.mem_map.mp hmem
    exact he ▸ hg.flush m₀ hm₀
  · have hmem := List.mem_map_of_mem (f := Moment.markers) hm
    rw [List.map_dropLast, ← h, ← List.map_dropLast] at hmem
    obtain ⟨m₀, hm₀, he⟩ := List.mem_map.mp hmem
    exact he ▸ hg.flushAfter m₀ hm₀

theorem Sound.calm_of_plain (h : g.Sound fun _ => false) (hs : g.start.Fresh)
    (hp : o.prototypesOnly = false) (hf : g.pending.isFunction = false) : g.Calm o :=
  ⟨h.written_plain hs hp hf, by simp [hf]⟩

theorem Sound.isFunction_congr (h : g.Sound fun _ => false) (h' : g'.Sound fun _ => false)
    (hm : ∀ x, g'.count x = g.count x) : g'.pending.isFunction = g.pending.isFunction := by
  rw [Bool.eq_iff_iff, h.isFunction_iff, h'.isFunction_iff, HoldsFunction, HoldsFunction, hm, hm, hm]

/-- The description of a passage starts with it. -/
theorem Sound.opensComment_of_described (h : g.Sound fun _ => false) (hs : g.start.Fresh)
    (hd : g.pending.description.isClosed = true) {c : Sym} {v : Text} (ht : g.text = c :: v) :
    g.start.OpensComment c (v.head?.or g.next) := by
  have hmode : g.start.mode.isComment = false := by
    rcases hs.mode with hm | hm <;> simp [hm, Mode.isComment]
  obtain ⟨-, -, hfill⟩ := h.inTopComment
  obtain ⟨k, -, hk, hall⟩ := hfill hd
  obtain ⟨u, d, w, ht', -, hcl⟩ := h.described hs hd
  have hu : u ≠ [] := by
    rintro rfl
    have hc : g.start.mode = .blockComment ∨ g.start.mode = .lineComment := hcl.imp (·.1.1) (·.1.1)
    rcases hc with hc | hc <;> simp [hc, Mode.isComment] at hmode
  have hpos : 0 < k := by
    have := List.length_pos_iff.mpr hu
    rcases hcl with ⟨-, he⟩ | ⟨-, he⟩ <;> omega
  have hfirst : g.start.moment (v.head?.or g.next) c ∈ g.moments.take k := by
    rw [moments, ht, Scanner.momentsTo_cons, ← Nat.succ_pred_eq_of_pos hpos, List.take_succ_cons]
    exact List.mem_cons_self
  have htop := hall _ hfirst
  simp only [Moment.inTopComment, Bool.and_eq_true, Bool.or_eq_true, decide_eq_true_eq] at htop
  rcases htop.2 with ha | ha
  · refine (hs.valid.of_isComment_stepMode ha).2.resolve_right fun hc => ?_
    simp [hmode] at hc
  · rw [Scanner.moment_before] at ha
    simp [ha, Mode.isComment] at hmode

end Passage

/-- Reading stands where a passage starts: a declaration may follow, or a comment does. -/
structure Scanner.Poised (s : Scanner) (t : Text) : Prop where
  fresh : s.Fresh
  starts : s.between = true ∨ ∃ c r, t = c :: r ∧ s.OpensComment c r.head?

namespace Passage

variable {g : Passage} {o : Options} {s s' : Scanner} {t rest w x : Text}

theorem Heads.poised_stop (h : g.Heads (fun _ => false) s t rest) (hs : s.Fresh) :
    rest = [] ∨ g.stop.Poised rest := by
  obtain rfl := h.start
  obtain ⟨hh, hf⟩ := Scanner.runTo_headless hs.headerComment hs.fileStart g.text (n := g.next)
  rcases h.ends with hl | hn | ⟨c, r, rfl, hx⟩
  · obtain ⟨u, c, ht, hx⟩ := h.whole.exists_flushAfter (hl.resolve_left (by simp))
    obtain ⟨hh, hf⟩ := Scanner.runTo_headless hs.headerComment hs.fileStart u (n := some c)
    have hfresh := Scanner.fresh_of_flushAfter (hs.valid.runTo u) hh hf hx
    refine .inr ⟨?_, .inl ?_⟩ <;> rw [stop, ht, Scanner.runTo_concat]
    · exact hfresh
    · exact Scanner.step_between.mpr (.inr (.inr hx))
  · exact .inl hn
  · obtain ⟨hfresh, ho⟩ := Scanner.fresh_of_flush (hs.valid.runTo g.text) hh hf hx
    exact .inr ⟨hfresh, .inr ⟨c, r, rfl, ho⟩⟩

theorem Unbroken.exists_heads (h : Unbroken (fun _ => false) ⟨s, x, w.head?, []⟩)
    (he : Full (fun _ => false) ⟨s, x, w.head?, []⟩ ∨ w = [] ∨ ∃ c r, w = c :: r ∧
      .flush ∈ ((s.runTo w.head? x).step c r.head?).2) :
    ∃ closing, Heads (fun _ => false) s (x ++ w) w ⟨s, x, w.head?, closing⟩ := by
  by_cases hf : Full (fun _ => false) ⟨s, x, w.head?, []⟩
  · exact ⟨[], rfl, rfl, rfl, h, .inl hf, fun _ => rfl, fun hn => absurd hf hn⟩
  · exact ⟨closingBy (s.runTo w.head? x) w, rfl, rfl, rfl, ⟨h.1, h.2, h.3, h.4⟩, he,
      fun hn => absurd hn hf, fun _ => rfl⟩

/-- What follows a passage is written so that the passage ends there again. -/
def FollowedBy (g : Passage) (rest w : Text) : Prop :=
  (rest = [] → w = []) ∧ ∀ c r, rest = c :: r → g.stop.OpensComment c r.head? →
    ∃ r', w = c :: r' ∧ g.stop.OpensComment c r'.head?

/-- A passage without a function is read again as such. -/
theorem Heads.settled_plain (h : g.Heads (fun _ => false) s t rest) (hs : s.Fresh)
    (hg : g.Sound fun _ => false) (hp : o.prototypesOnly = false)
    (hf : g.pending.isFunction = false) (hv : s'.Valid) (he : s'.settle = s.settle)
    (hw : g.FollowedBy rest w)
    (hnext : ∀ z : Scanner, z.Valid → z.settle = g.stop.settle → Settled o z w) :
    Settled o s' (g.text ++ w) := by
  obtain rfl := h.start
  obtain ⟨hh, hfs⟩ := Scanner.runTo_headless hs.headerComment hs.fileStart g.text (n := g.next)
  -- What follows matters only where the passage ends because of it.
  have hread : g.start.momentsTo w.head? g.text = g.moments ∧ g.start.runTo w.head? g.text = g.stop := by
    rcases h.ends with hl | rfl | ⟨c, r, rfl, hx⟩
    · obtain ⟨u, c, ht, hx⟩ := h.whole.exists_flushAfter (hl.resolve_left (by simp))
      rw [moments, stop, ht]
      exact Scanner.eq_of_flushAfter w.head? hx
    · rw [moments, stop, h.next, hw.1 rfl]
      exact ⟨rfl, rfl⟩
    · obtain ⟨-, ho⟩ := Scanner.fresh_of_flush (hs.valid.runTo g.text) hh hfs hx
      obtain ⟨r', rfl, -⟩ := hw.2 c r rfl ho
      rw [moments, stop, h.next]
      exact ⟨rfl, rfl⟩
  have hsame := Scanner.same_of_settle he w.head? g.text
  have hmark : g.moments.map (·.markers) = (s'.momentsTo w.head? g.text).map (·.markers) := by
    rw [Scanner.same_markers hsame, hread.1]
  have hstop : (s'.runTo w.head? g.text).settle = g.stop.settle := by
    rw [Scanner.settle_runTo he, hread.2]
  have hunbroken : Unbroken (fun _ => false) ⟨s', g.text, w.head?, []⟩ :=
    h.whole.congr h.whole.text_ne hmark
  have hafter : (∃ m ∈ g.moments, .flushAfter ∈ m.markers) ↔
      ∃ m ∈ moments ⟨s', g.text, w.head?, []⟩, .flushAfter ∈ m.markers :=
    exists_marked_congr hmark .flushAfter
  obtain ⟨closing, hheads⟩ := hunbroken.exists_heads (by
    rcases h.ends with (hl | hl) | rfl | ⟨c, r, rfl, hx⟩
    · contradiction
    · exact .inl (.inr (hafter.mp hl))
    · exact .inr (.inl (hw.1 rfl))
    · obtain ⟨-, ho⟩ := Scanner.fresh_of_flush (hs.valid.runTo g.text) hh hfs hx
      obtain ⟨r', hw', ho'⟩ := hw.2 c r rfl ho
      refine .inr (.inr ⟨c, r', hw', ?_⟩)
      rw [(Scanner.settle_congr hstop).1]
      exact Scanner.mem_step_iff.mpr ⟨(Scanner.mem_step_iff.mp hx).1, .inl ho'⟩)
  refine Settled.cons hheads hv (fun hsound => ?_) (hnext _ (hv.runTo _) hstop)
  refine hsound.calm_of_plain (hs.of_settle hv he) hp ?_
  rw [hg.isFunction_congr hsound fun x => (count_congr hmark x).symm]
  exact hf

/-- A block and the function below it are one passage, which is written as it is. -/
theorem Recast.settled {above a below v : Text} {c : Sym} (r : g.Recast o above a below c v)
    (h : g.Sound fun _ => false) (hg : g.start.Fresh) (hf : g.pending.isFunction = true)
    (hp : o.prototypesOnly = false) (hb : (g.pending.block o).comment.Sealed)
    (hl : (g.pending.block o).Legible) (hs : s.Fresh) (hm : s.mode = .normal)
    (hparens : s.parens = g.start.parens)
    (hnext : ∀ z : Scanner, z.Valid → z.settle = g.stop.settle → Settled o z w) :
    Settled o s ((g.pending.block o).comment ++ (below ++ c :: v) ++ w) := by
  obtain ⟨first, last, middle, gap, rest, q⟩ := r.exists_reread h hf hb hs hm hparens w.head?
  have hfull : (g.again o below c v s w.head?).Full fun _ => false := by
    obtain ⟨u, d, ht, hend⟩ := h.exists_bodyEnd hf
    refine .inr (q.exists_marked r (by simp [Marker.IsOuter])
      ⟨(g.start.runTo (some d) u).moment g.next d, ?_, Scanner.flushAfter_of_bodyEnd hend⟩).2
    rw [moments, ht, Scanner.momentsTo_concat]
    exact List.mem_append_right _ (List.mem_singleton_self _)
  have hheads : (g.again o below c v s w.head?).Heads (fun _ => false) s _ w :=
    ⟨rfl, rfl, rfl, q.unbroken r h, .inl hfull, fun _ => rfl, fun hn => absurd hfull hn⟩
  refine Settled.cons hheads hs.valid (fun hsound => ?_) (hnext _ (hs.valid.runTo _) q.stop)
  obtain ⟨hw, hd⟩ := q.written r h hg hf hp hl hs hsound
  exact ⟨hw, fun _ => hd⟩

theorem Sound.calm_of_unmarked (h : g.Sound fun _ => false) (hp : o.prototypesOnly = false)
    (hm : ∀ m ∈ g.moments, m.markers = []) : g.Calm o := by
  refine ⟨h.written_unmarked hp hm, fun hf => ?_⟩
  obtain ⟨m, hmem, hx⟩ := count_pos.mp ((h.isFunction_iff.mp hf).1 ▸ Nat.one_pos)
  simp [hm m hmem] at hx

end Passage

/-- Blanks before a comment, or at the end of the text, are a passage of their own. -/
theorem Settled.blanks_append {o : Options} {s : Scanner} {x w : Text} {k : Int} {l : Bool}
    (h : s.settle = .idle k l) (hv : s.Valid) (hp : o.prototypesOnly = false)
    (hx : ∀ d ∈ x, d.isBlank = true) (hne : x ≠ [])
    (hw : w = [] ∨ ∃ c r, w = c :: r ∧ ({} : Scanner).OpensComment c r.head?)
    (hr : Settled o (s.runTo w.head? x) w) : Settled o s (x ++ w) := by
  obtain ⟨hrun, hmark⟩ := Scanner.run_blanks (n := w.head?) h hx
  obtain ⟨hfresh, hmode, -⟩ := Scanner.fresh_of_settle (hv.runTo x) hrun
  have hunbroken : Passage.Unbroken (fun _ => false) ⟨s, x, w.head?, []⟩ := by
    refine ⟨hne, fun m hm => ?_, fun m hm => ?_, fun _ _ _ => rfl⟩
    · simp [hmark m (List.mem_of_mem_tail hm)]
    · simp [hmark m (List.mem_of_mem_dropLast hm)]
  obtain ⟨closing, hheads⟩ := hunbroken.exists_heads (.inr (hw.imp_right fun ⟨c, r, he, ho⟩ =>
    ⟨c, r, he, Scanner.mem_step_iff.mpr ⟨hfresh.braces, .inl ⟨.inl hmode, ho.2⟩⟩⟩))
  exact Settled.cons hheads hv (fun hsound => hsound.calm_of_unmarked hp hmark) hr

namespace Pending

/-- What is written for the pending text is found again: the block ends where it should, is read back
and stands before the function. -/
def Repeatable (o : Options) (p : Pending) : Prop :=
  if p.fileComment then (Page.fileComment none p).written.Sealed
  else if p.isFunction then (p.block o).comment.Sealed ∧ (p.block o).Legible ∧ p.Placed
  else True
  deriving Decidable

end Pending

/-- What is written for the event is found again. -/
def Event.Repeatable (o : Options) : Event → Prop
  | .flush p => p.Repeatable o
  | _ => True

instance (o : Options) : DecidablePred (Event.Repeatable o)
  | .flush p => inferInstanceAs (Decidable (p.Repeatable o))
  | .header | .full _ | .strayBrace => .isTrue trivial

namespace Passage

variable {g : Passage} {o : Options} {s s' : Scanner} {t rest w x : Text}

theorem Heads.settled_function (h : g.Heads (fun _ => false) s t rest) (hs : s.Poised t)
    (hg : g.Sound fun _ => false) (hp : o.prototypesOnly = false) (hf : g.pending.isFunction = true)
    (hk : g.pending.Repeatable o) (hv : s'.Valid) (he : s'.settle = s.settle)
    (hnext : ∀ z : Scanner, z.Valid → z.settle = g.stop.settle → Settled o z w) :
    Settled o s' (g.written o ++ w) := by
  obtain rfl := h.start
  have hfresh := hs.fresh
  have hmode := hg.start_mode hfresh hf
  rw [Pending.Repeatable, hg.fileComment_eq_false hfresh, if_neg (by simp), if_pos hf] at hk
  obtain ⟨hseal, hlegible, hplaced⟩ := hk
  cases hd : g.pending.description.isClosed
  · -- Without a comment the blanks before the block come first, as a passage of their own.
    have hbetween : g.start.between = true := by
      refine hs.starts.resolve_right ?_
      rintro ⟨c, r, rfl, ho⟩
      obtain ⟨d, v, ht⟩ := List.exists_cons_of_ne_nil h.whole.text_ne
      obtain ⟨rfl, rfl⟩ : c = d ∧ r = v ++ rest := by simpa [ht] using h.text
      rw [List.head?_append, ← h.next] at ho
      exact hg.not_opensComment hfresh hf hd ht ho
    obtain ⟨above, a, below, c, v, hne, r⟩ :=
      hg.recast_undescribed hfresh hp hf hd hplaced hbetween
    have hidle : s'.settle = .idle g.start.parens g.start.lineStart := he.trans
      (Scanner.settle_eq_idle hfresh.valid.toSteady hmode hfresh.braces hbetween hfresh.fileStart
        hfresh.headerComment)
    rw [r.written, List.append_assoc]
    refine Settled.blanks_append hidle hv hp r.blank_above hne
      (.inr ⟨_, _, by rw [FunctionBlock.comment_eq]; rfl, .inl rfl, rfl, rfl⟩) ?_
    obtain ⟨hrun, -⟩ := Scanner.run_blanks
      (n := ((g.pending.block o).comment ++ (below ++ c :: v) ++ w).head?) hidle r.blank_above
    obtain ⟨hs₁, hm₁, -, hp₁⟩ := Scanner.fresh_of_settle (hv.runTo above) hrun
    exact r.settled hg hfresh hf hp hseal hlegible hs₁ hm₁ hp₁ hnext
  · obtain ⟨a, below, c, v, r⟩ := hg.recast_described hfresh hp hf hd hplaced
    have hs₁ := hfresh.of_settle hv he
    have hm₁ : s'.settle.mode = g.start.settle.mode := congrArg Scanner.mode he
    have hp₁ : s'.settle.parens = g.start.settle.parens := congrArg Scanner.parens he
    rw [r.written, List.nil_append]
    exact r.settled hg hfresh hf hp hseal hlegible hs₁ (hm₁.trans hmode) hp₁ hnext

end Passage

/-- What is written for a text is written as it is. -/
theorem Divides.settled_written {o : Options} {s s' : Scanner} {t : Text} {gs : List Passage}
    (h : Divides (fun _ => false) s t gs) (hs : s.Poised t) (hp : o.prototypesOnly = false)
    (hk : ∀ g ∈ gs, g.pending.Repeatable o) (hv : s'.Valid) (he : s'.settle = s.settle) :
    Settled o s' (gs.flatMap (Passage.written o)) := by
  -- The two readings stand at different places, so the state before each passage is the same up to
  -- `settle` only.
  induction gs generalizing s t s' with
  | nil => exact .nil s'
  | cons g gs ih =>
    obtain ⟨rest, hh, ho⟩ := h.heads
    have hg := h.sound hs.fresh.valid g List.mem_cons_self
    rw [List.forall_mem_cons] at hk
    have hrest := hh.poised_stop hs.fresh
    have hnext : ∀ z : Scanner, z.Valid → z.settle = g.stop.settle →
        Settled o z (gs.flatMap (Passage.written o)) := by
      intro z hz hze
      rcases hrest with rfl | hpoised
      · rw [ho.eq_nil_iff.mpr rfl]
        exact .nil z
      · exact ih ho hpoised hk.2 hz hze
    rw [List.flatMap_cons]
    cases hf : g.pending.isFunction
    · rw [hg.written_plain (hh.start ▸ hs.fresh) hp hf]
      refine hh.settled_plain hs.fresh hg hp hf hv he ⟨?_, ?_⟩ hnext
      · rintro rfl
        rw [ho.eq_nil_iff.mpr rfl]
        rfl
      · rintro c r rfl hopen
        exact ho.opens_written (fun _ => rfl) (hrest.resolve_left (by simp)).fresh hp hopen
    · exact hh.settled_function hs hg hp hf hk.1 hv he hnext

namespace Scanner

variable {n : Option Sym}

theorem coding_step_newline (b : Bool) : (coding b).step (.char '\n') n = (coding true, []) := by
  have := idle_step_blank (k := 0) (l := b) (n := n) (c := .char '\n') (by decide)
  rwa [Sym.isNewline, Bool.or_comm] at this

theorem runTo_newline_cons (b : Bool) (t : Text) :
    (coding b).runTo n (.char '\n' :: t) = (coding true).runTo n t := by
  rw [runTo_cons, coding_step_newline]

theorem momentsTo_newline_cons (b : Bool) (t : Text) :
    ∃ m : Moment, (coding b).momentsTo n (.char '\n' :: t) = m :: (coding true).momentsTo n t ∧
      m.markers = [] := by
  refine ⟨(coding b).moment (t.head?.or n) (.char '\n'), ?_, ?_⟩
  · rw [momentsTo_cons, coding_step_newline]
  · rw [moment_markers, coding_step_newline]

end Scanner

/-- A line break in front becomes part of a passage that does not start with a comment. -/
theorem Passage.Heads.newline_cons {g : Passage} {t rest v : Text} {c : Sym}
    (h : g.Heads (fun _ => false) (.coding true) t rest) (hcv : g.text = c :: v)
    (ho : ¬ (Scanner.coding true).OpensComment c (v.head?.or g.next)) (b : Bool) :
    ∃ g' : Passage, g'.Heads (fun _ => false) (.coding b) (.char '\n' :: t) rest ∧
      g'.stop = g.stop ∧ ∀ x, g'.count x = g.count x := by
  obtain ⟨m, hm, hnone⟩ := Scanner.momentsTo_newline_cons (n := rest.head?) b g.text
  have hmoments : (Scanner.coding true).momentsTo rest.head? g.text = g.moments := by
    rw [moments, h.start, h.next]
  have hstop : (Scanner.coding b).runTo rest.head? (.char '\n' :: g.text) = g.stop := by
    rw [Scanner.runTo_newline_cons, stop, h.start, h.next]
  rw [hmoments] at hm
  have hne : g.moments ≠ [] := by
    rw [moments, ne_eq, Scanner.momentsTo_eq_nil]
    exact h.whole.text_ne
  have hflush : ∀ m ∈ g.moments, .flush ∉ m.markers := by
    have hc : g.moments = g.start.moment (v.head?.or g.next) c ::
        (g.start.step c (v.head?.or g.next)).1.momentsTo g.next v := by
      rw [moments, hcv, Scanner.momentsTo_cons]
    intro m hm hx
    rcases List.mem_cons.mp (hc ▸ hm) with rfl | hm
    · refine ho ?_
      obtain ⟨-, ho | ⟨-, -, hh⟩⟩ := Scanner.mem_step_iff.mp hx
      · rwa [← h.start]
      · rw [h.start] at hh
        contradiction
    · refine h.whole.flush m ?_ hx
      rwa [hc]
  have hunbroken : Unbroken (fun _ => false) ⟨.coding b, .char '\n' :: g.text, rest.head?, []⟩ := by
    refine ⟨by simp, ?_, ?_, fun _ _ _ => rfl⟩
    · rw [moments, hm]
      exact hflush
    · rw [moments, hm, List.dropLast_cons_of_ne_nil hne, List.forall_mem_cons, hnone]
      exact ⟨by simp, h.whole.flushAfter⟩
  obtain ⟨closing, hheads⟩ := hunbroken.exists_heads (by
    rw [hstop]
    rcases h.ends with (hl | ⟨x, hx, hf⟩) | he
    · contradiction
    · refine .inl (.inr ⟨x, ?_, hf⟩)
      rw [moments, hm]
      exact List.mem_cons_of_mem _ hx
    · exact .inr he)
  rw [h.text]
  refine ⟨_, hheads, hstop, fun x => ?_⟩
  rw [count, moments, hm, List.flatMap_cons, hnone]
  rfl

/-- A line break in front changes nothing: it is a passage, or part of one that holds no function. -/
theorem Settled.newline_cons {o : Options} {t : Text} (h : Settled o (.coding true) t)
    (hp : o.prototypesOnly = false) (b : Bool) : Settled o (.coding b) (.char '\n' :: t) := by
  have hb := Scanner.coding_fresh b
  have ht := Scanner.coding_fresh true
  by_cases ho : t = [] ∨ ∃ c r, t = c :: r ∧ ({} : Scanner).OpensComment c r.head?
  · refine Settled.blanks_append (x := [.char '\n']) (k := 0) (l := b) rfl hb.valid hp
      (by decide) (by simp) ho ?_
    rwa [Scanner.runTo_newline_cons]
  obtain ⟨gs, hd, hall⟩ := h
  have hsound := hd.sound ht.valid
  cases gs with
  | nil => exact absurd (.inl (hd.eq_nil_iff.mp rfl)) ho
  | cons g gs =>
    rw [List.forall_mem_cons] at hall hsound
    obtain ⟨rest, hh, hothers⟩ := hd.heads
    obtain ⟨c, v, hcv⟩ := List.exists_cons_of_ne_nil hh.whole.text_ne
    have hfirst : ¬ (Scanner.coding true).OpensComment c (v.head?.or g.next) := by
      rintro ⟨-, hc⟩
      refine ho (.inr ⟨c, v ++ rest, by rw [hh.text, hcv]; rfl, .inl rfl, ?_⟩)
      rwa [List.head?_append, ← hh.next]
    have hplain : g.pending.isFunction = false := by
      by_contra hf
      have := hsound.1.opensComment_of_described (hh.start ▸ ht) (hall.1.2 (by simpa using hf)) hcv
      rw [hh.start] at this
      exact hfirst this
    obtain ⟨g', hheads, hstop, hcount⟩ := hh.newline_cons hcv hfirst b
    refine Settled.cons hheads hb.valid (fun hg => ?_) ⟨gs, hstop ▸ hothers, hall.2⟩
    refine hg.calm_of_plain (hheads.start ▸ hb) hp ?_
    rw [hsound.1.isFunction_congr hg hcount]
    exact hplain

/-- Nothing but the frame stands around what a header says. -/
theorem commentBody_headerBlock (x : Text) : (headerBlock x).commentBody = x.commentBody := by
  rw [headerBlock, Text.commentBody, Text.trim_append (by decide) (by decide)]
  exact Text.trim_trim _ x

theorem headerBlock_headerBlock (x : Text) : headerBlock (headerBlock x) = headerBlock x := by
  rw [headerBlock, commentBody_headerBlock]
  rfl

/-- The header of a file is a block like one that a comment is turned into. -/
theorem exists_headerText (o : Options) (hn : ∀ f ∈ o.filename, ¬ closer <:+: f) :
    ∃ x, headerText o = headerBlock x ++ [Sym.char '\n', .char '\n'] ∧
      ∀ rest, HeaderComment (headerBlock x) rest := by
  set y : Text := Text.ofString "@file " ++ o.shownName ++ Text.ofString
    ("\n\n\tPut a description of the file here.\n\n\t" ++
      "@todo Edit file comment (automatically generated by insertdox)") with hy
  have hbody : y.commentBody = y := by
    refine Text.trim_eq_self ?_ ?_
    · intro c hc
      obtain rfl : c = .char '@' := by simpa [hy, Text.ofString] using hc.symm
      decide
    · intro c hc
      rw [hy, List.getLast?_append] at hc
      obtain rfl : c = .char ')' := by simpa [Text.ofString] using hc.symm
      decide
  have hinside : headerInside o = Text.ofString "*\n\t" ++ y ++ Text.ofString "\n" := by
    simp [headerInside, hy, Text.ofString]
  refine ⟨y, ?_, fun rest => ?_⟩
  · rw [headerText_eq, headerBlock_eq, hbody, hinside]
  · rw [headerBlock_eq, hbody, ← hinside]
    exact .block _ rest (not_closer_headerInside hn)

/-- A second run adds no block, no tag and no placeholder: it changes nothing. -/
theorem annotate_annotate (o : Options) (t : Text) (hp : o.prototypesOnly = false)
    (hl : t.length < o.bufferCapacity) (hl' : (annotate o none t).data.length < o.bufferCapacity)
    (hn : ∀ f ∈ o.filename, ¬ closer <:+: f)
    (hk : ∀ e ∈ events o.bufferCapacity t, e.Repeatable o) :
    (annotate o none (annotate o none t).data).data = (annotate o none t).data := by
  have hsettled (b : Bool) (u : Text) (hu : ∀ p ∈ pendings (.coding b) u, p.Repeatable o) :
      Settled o (.coding b) (rewritten o (.coding b) u) := by
    have hd := divides_passages (fun _ => false) (.coding b) u
    have hb := Scanner.coding_fresh b
    rw [hd.rewritten_eq]
    exact hd.settled_written ⟨hb, .inl rfl⟩ hp (fun g hg => hu _ (List.mem_map_of_mem hg)) hb.valid rfl
  have hnone := List.forall_mem_nil (Sym.isBlank · = true)
  rcases exists_heading t with hb | ⟨ws, hws, ⟨c, rest, rfl, hc, ho⟩ | ⟨x, rest, rfl, hx⟩⟩
  · have ht := data_annotate_blank hl hp hb
    rw [ht, ht]
  · set u := ws ++ c :: rest with hu
    have hw : Settled o (.coding true) (rewritten o (.coding true) u) := by
      refine hsettled true u fun p hp => hk (.flush p) (mem_pendings hl ?_)
      rwa [pendings_congr (alike_first hws hc ho)]
    have hlines := (hw.newline_cons hp true).newline_cons hp false
    obtain ⟨x, hx, hcomment⟩ := exists_headerText o hn
    have hdata : (annotate o none u).data =
        [] ++ headerBlock x ++ Sym.char '\n' :: .char '\n' :: rewritten o (.coding true) u := by
      rw [data_annotate_first hl hws hc ho, hx, hu]
      simp
    rw [hdata] at hl' ⊢
    rw [(data_annotate_header hl' hp hnone (hcomment _)).1, headerBlock_headerBlock,
      hlines.rewritten_eq]
  · obtain ⟨hdata, ⟨p, hpm, rfl, hpc⟩, hmem⟩ := data_annotate_header hl hp hws hx
    have hseal : (headerBlock p.text).Sealed := by
      have := hk (.flush p) (mem_pendings hl hpm)
      rwa [Event.Repeatable, Pending.Repeatable, if_pos hpc, Page.written_fileComment] at this
    have hw := hsettled false rest fun q hq => hk (.flush q) (mem_pendings hl (hmem q hq))
    rw [hdata] at hl' ⊢
    rw [(data_annotate_header hl' hp hws (.of_sealed hseal _)).1, headerBlock_headerBlock,
      hw.rewritten_eq]

/-- A function with a result and no comment, and a static one with a line comment and a remark. -/
theorem annotate_annotate_functions :
    let o : Options := {}
    let t : Text := Text.ofString
      "int f() \x7b return '\"'; \x7d\n// g\nstatic g(a) \x7b // TODO: b\n\x7d"
    (∀ e ∈ events o.bufferCapacity t, e.Repeatable o) ∧
      (annotate o none (annotate o none t).data).data = (annotate o none t).data := by
  intro o t
  have hk : ∀ e ∈ events o.bufferCapacity t, e.Repeatable o := by decide +kernel
  exact ⟨hk, annotate_annotate o t rfl (by decide +kernel) (by decide +kernel) (by simp [o]) hk⟩

/-- A result of two lines is not recognised in the block. It is kept as description and added anew. -/
theorem annotate_annotate_adds :
    let t : Text := Text.ofString "int f(void) \x7b return 1 +\n2; \x7d"
    (annotate {} none (annotate {} none t).data).data ≠ (annotate {} none t).data := by
  decide +kernel

end DocBlock
