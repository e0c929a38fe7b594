import Mathlib
import DocBlock.Proofs.Comment
import DocBlock.Proofs.Overflow

/-! Passages that hold a function. No directive is read in them outside the body, and the marked
extents are where the markers were given. -/

namespace DocBlock

open Scanner (Moment)

namespace Scanner

variable {s : Scanner} {c : Sym} {n : Option Sym}

/-- A directive is in progress, maybe within an escape or a comment. -/
def InDirective (s : Scanner) : Prop :=
  s.mode = .directive ∨ (s.mode = .escape ∨ s.mode.isComment = true) ∧ s.resume = .directive

/-- Outside bodies the end of a directive is a flush. -/
theorem InDirective.step (h : s.InDirective) (hb : s.braces = 0)
    (hf : .flushAfter ∉ (s.step c n).2) :
    (s.step c n).1.InDirective ∧ (s.step c n).1.braces = 0 := by
  rw [mem_step_iff] at hf
  unfold InDirective
  rw [step_mode, step_resume, step_braces]
  rcases h with hm | ⟨hm | hm, hr⟩
  · simp only [stepMode, hm]
    fun_cases stepDirective
    · exact ⟨.inr ⟨.inl rfl, rfl⟩, hb⟩
    · next hl => exact absurd (.inr ⟨hb, .inl ⟨hm, hl⟩⟩) hf
    · exact ⟨.inr ⟨.inr enterComment_isComment, hm⟩, hb⟩
    · exact ⟨.inl hm, hb⟩
  · simp only [stepMode, hm]
    fun_cases stepEscape
    · exact ⟨.inr ⟨.inl hm, hr⟩, hb⟩
    · exact ⟨.inl hr, hb⟩
  · by_cases hc : s.ClosesBlock c
    · rw [stepMode_of_closesBlock hc]
      exact ⟨.inl hr, hb⟩
    · have hl : ¬ s.ClosesLine c := fun hl => hf (.inr ⟨hb, .inr (.inr ⟨hl, hr⟩)⟩)
      obtain ⟨h₁, h₂, h₃, -⟩ := stepMode_of_isComment (n := n) hm hc hl
      rw [h₁, h₂, h₃]
      exact ⟨.inr ⟨.inr hm, hr⟩, hb⟩

/-- Behind the header no marker acts before a flush. -/
theorem marks_of_headless (h : s.headerComment = false) :
    (s.moment n c).marks = (s.moment n c).markers := by
  by_cases hf : .flush ∈ (s.step c n).2
  · rcases closing_of_flush hf with ⟨-, hc, -⟩ | ⟨-, hh, -⟩
    · obtain ⟨rest, hm, hr, -⟩ := Moment.markers_eq_of_flush (m := s.moment n c) hf nodup_markers
      rw [hm, hr, hc, List.nil_append]
    · rw [h] at hh
      contradiction
  · exact if_neg hf

theorem step_headless (h : s.headerComment = false) (hf : s.fileStart = false) :
    (s.step c n).1.headerComment = false ∧ (s.step c n).1.fileStart = false := by
  refine ⟨?_, by simp [hf]⟩
  by_contra hn
  rcases step_headerComment.mp (by simpa using hn) with hc | ⟨hh, -⟩
  · have := (mem_step_iff.mp hc).1
    rw [hf] at this
    contradiction
  · rw [h] at hh
    contradiction

theorem runTo_headless (hh : s.headerComment = false) (hf : s.fileStart = false) (t : Text) :
    (s.runTo n t).headerComment = false ∧ (s.runTo n t).fileStart = false := by
  induction t generalizing s with
  | nil => exact ⟨hh, hf⟩
  | cons c rest ih =>
    obtain ⟨hh', hf'⟩ := step_headless (c := c) (n := rest.head?.or n) hh hf
    exact ih hh' hf'

theorem fresh_of_flush (hv : s.Valid) (hh : s.headerComment = false) (hf : s.fileStart = false)
    (h : .flush ∈ (s.step c n).2) : s.Fresh ∧ s.OpensComment c n := by
  obtain ⟨hb, ho | ⟨-, -, hh'⟩⟩ := mem_step_iff.mp h
  · exact ⟨⟨hv, hb, hf, hh, ho.1⟩, ho⟩
  · rw [hh] at hh'
    contradiction

theorem fresh_of_flushAfter (hv : s.Valid) (hh : s.headerComment = false) (hf : s.fileStart = false)
    (h : .flushAfter ∈ (s.step c n).2) : (s.step c n).1.Fresh := by
  obtain ⟨hh', hf'⟩ := step_headless (c := c) (n := n) hh hf
  suffices hm : (s.step c n).1.braces = 0 ∧ (s.step c n).1.mode = .normal from
    ⟨hv.step, hm.1, hf', hh', .inl hm.2⟩
  rw [step_braces, step_mode]
  rcases mem_step_iff.mp h with ⟨hm, ⟨rfl, hb | hb⟩ | ⟨rfl, hb⟩⟩ |
    ⟨hb, ⟨hm, hl⟩ | ⟨-, hd⟩ | ⟨hc, -⟩⟩
  · simp [stepMode, hm, stepNormal, closeBrace, hb]
  · simp [stepMode, hm, stepNormal, closeBrace, hb]
  · simp [stepMode, hm, stepNormal, hb]
  · have hne : c ≠ .char '\\' := by
      rintro rfl
      simp [Sym.isNewline] at hl
    simp [stepMode, hm, stepDirective, hb, hl, hne]
  · rw [hh] at hd
    contradiction
  · rw [stepMode_of_closesLine hc]
    exact ⟨hb, rfl⟩

/-- The markers of a description, behind the header, come with hardly anything else. -/
theorem step_descriptionMarkers (hh : s.headerComment = false) (hf : s.fileStart = false) :
    (.descriptionStart ∈ (s.step c n).2 → (s.step c n).2 = [.flush, .descriptionStart]) ∧
    (.descriptionEnd ∈ (s.step c n).2 → (s.step c n).2 = [.descriptionEnd] ∨
      (s.step c n).2 = [.descriptionEnd, .flushAfter]) ∧
    (.descriptionEndAfter ∈ (s.step c n).2 → (s.step c n).2 = [.descriptionEndAfter]) ∧
    (.descriptionDiscard ∈ (s.step c n).2 → (s.step c n).2 = [.descriptionDiscard]) := by
  have hmk : (s.step c n).2 = (s.stepMode c n).2 := by
    simp [step_markers, headMarkers, hf]
  refine ⟨fun hx => ?_, fun hx => ?_, fun hx => ?_, fun hx => ?_⟩ <;>
    have hdue := mem_step_iff.mp hx <;> rw [hmk]
  · obtain ⟨hb, ho⟩ := hdue
    simp [stepMode_of_opensComment ho, enterComment, hb]
  · obtain ⟨hb, hl⟩ := hdue
    by_cases hr : s.resume = .directive <;> simp [stepMode_of_closesLine hl, hb, hh, hr]
  · obtain ⟨hb, hc⟩ := hdue
    simp [stepMode_of_closesBlock hc, hb, hh]
  · obtain ⟨hb, hm, rfl, hl⟩ := hdue
    simp [stepMode, hm, stepNormal, hl, hb]

end Scanner

namespace Pending

theorem function_start_foldl_mark (l : List Marker) (p : Pending) :
    (l.foldl mark p).function.start =
      if .functionStart ∈ l then (p.size : Int) else p.function.start := by
  have hm : ∀ (p : Pending) x, (p.mark x).function.start =
      if Marker.functionStart = x then (p.size : Int) else p.function.start := by
    intro p x
    cases x
    case commentEnd =>
      obtain ⟨_, _, h⟩ := p.endComment_eq
      simp [mark, h]
    case statementEnd =>
      obtain ⟨_, h⟩ := p.endStatement_eq
      simp [mark, h]
    all_goals rfl
  induction l generalizing p with
  | nil => simp
  | cons x l ih =>
    have hs : (p.mark x).size = p.size := by simp [size]
    rw [List.foldl_cons, ih, hm, hs]
    by_cases hl : .functionStart ∈ l <;> simp [hl]

/-- Markers of other extents leave the description as it is. -/
theorem description_foldl_mark_of_notMem {l : List Marker} (h₁ : .descriptionStart ∉ l)
    (h₂ : .descriptionEnd ∉ l) (h₃ : .descriptionEndAfter ∉ l) (h₄ : .descriptionDiscard ∉ l)
    (p : Pending) : (l.foldl mark p).description = p.description := by
  refine List.foldlRecOn l _ (motive := fun (q : Pending) => q.description = p.description) rfl ?_
  intro q hq x hx
  cases x
  case descriptionStart | descriptionEnd | descriptionEndAfter | descriptionDiscard => contradiction
  case commentEnd =>
    obtain ⟨_, _, h⟩ := q.endComment_eq
    simp [mark, h, hq]
  case statementEnd =>
    obtain ⟨_, h⟩ := q.endStatement_eq
    simp [mark, h, hq]
  all_goals exact hq

end Pending

/-- The last symbol with the marker `x` is at place `k`. -/
def LastMarked (x : Marker) (ms : List Moment) (k : Nat) : Prop :=
  ∃ a m b, ms = a ++ m :: b ∧ x ∈ m.markers ∧ (∀ y ∈ b, x ∉ y.markers) ∧ a.length = k

theorem lastMarked_concat {x : Marker} {m : Moment} (ms : List Moment) (h : x ∈ m.markers) :
    LastMarked x (ms ++ [m]) ms.length :=
  ⟨ms, m, [], rfl, h, by simp, rfl⟩

theorem LastMarked.concat {x : Marker} {ms : List Moment} {k : Nat} (h : LastMarked x ms k)
    {m : Moment} (hm : x ∉ m.markers) : LastMarked x (ms ++ [m]) k := by
  obtain ⟨a, y, b, rfl, hy, hb, hk⟩ := h
  refine ⟨a, y, b ++ [m], by simp, hy, ?_, hk⟩
  rw [List.forall_mem_append]
  exact ⟨hb, by simpa using hm⟩

/-- Where the extents of a passage come from, behind the header. -/
structure Traced (ms : List Moment) (s : Scanner) (p : Pending) : Prop where
  headerComment : s.headerComment = false
  fileStart : s.fileStart = false
  function : (∀ m ∈ ms, .functionStart ∉ m.markers) ∧ p.function.start = 0 ∨
    ∃ k, LastMarked .functionStart ms k ∧ p.function.start = k
  described : p.description.isClosed = true →
    ∃ k, LastMarked .descriptionEndAfter ms k ∧ p.description.stop = k + 1 ∨
      LastMarked .descriptionEnd ms k ∧ p.description.stop = k
  undescribed : p.description.isClosed = false →
    (∀ m ∈ ms, .descriptionEnd ∉ m.markers ∧ .descriptionEndAfter ∉ m.markers) ∨
      ∃ m ∈ ms, .descriptionDiscard ∈ m.markers

/-- What a symbol behind the header does to the description. -/
inductive DescriptionStep (markers : List Marker) (size : Int) (e : Extent) : Extent → Prop
  | start (h : .descriptionStart ∈ markers) (hf : .flush ∈ markers) :
    DescriptionStep markers size e (e.openAt size)
  | stop (h : .descriptionEnd ∈ markers) (hn : .descriptionEndAfter ∉ markers) :
    DescriptionStep markers size e (e.closeAt size)
  | stopAfter (h : .descriptionEndAfter ∈ markers) (hn : .descriptionEnd ∉ markers) :
    DescriptionStep markers size e (e.closeAt (size + 1))
  | discard (h : .descriptionDiscard ∈ markers) : DescriptionStep markers size e {}
  | none (h₁ : .descriptionEnd ∉ markers) (h₂ : .descriptionEndAfter ∉ markers) :
    DescriptionStep markers size e e

theorem Scanner.descriptionStep {s : Scanner} (c : Sym) (n : Option Sym)
    (hh : s.headerComment = false) (hf : s.fileStart = false) (p : Pending) :
    DescriptionStep (s.step c n).2 p.size p.description
      ((s.step c n).2.foldl Pending.mark p).description := by
  obtain ⟨hds, hde, hda, hdd⟩ := step_descriptionMarkers (c := c) (n := n) hh hf
  by_cases h₁ : .descriptionStart ∈ (s.step c n).2
  · rw [hds h₁]
    exact .start (by simp) (by simp)
  by_cases h₂ : .descriptionEnd ∈ (s.step c n).2
  · rcases hde h₂ with he | he <;> rw [he] <;> exact .stop (by simp) (by simp)
  by_cases h₃ : .descriptionEndAfter ∈ (s.step c n).2
  · rw [hda h₃]
    exact .stopAfter (by simp) (by simp)
  by_cases h₄ : .descriptionDiscard ∈ (s.step c n).2
  · rw [hdd h₄]
    exact .discard (by simp)
  · rw [Pending.description_foldl_mark_of_notMem h₁ h₂ h₃ h₄]
    exact .none h₂ h₃

theorem Extent.isClosed_closeAt (e : Extent) (k : Int) : (e.closeAt k).isClosed = true := by
  cases h : e.closings <;> simp [isClosed, closeAt, h, Closings.next]

section Step

variable {ms : List Moment} {m : Moment} {s : Scanner} {c : Sym} {n : Option Sym}

/-- The start of a declarator is traced on: the symbol marks it, or it is where it was. -/
theorem functionStart_concat {i : Int}
    (h : (∀ x ∈ ms, .functionStart ∉ x.markers) ∧ i = 0 ∨ ∃ k, LastMarked .functionStart ms k ∧ i = k) :
    let j : Int := if .functionStart ∈ m.markers then (ms.length : Int) else i
    (∀ x ∈ ms ++ [m], .functionStart ∉ x.markers) ∧ j = 0 ∨
      ∃ k, LastMarked .functionStart (ms ++ [m]) k ∧ j = k := by
  intro j
  by_cases hx : .functionStart ∈ m.markers
  · exact .inr ⟨ms.length, lastMarked_concat ms hx, if_pos hx⟩
  · have hj : j = i := if_neg hx
    rw [hj]
    rcases h with ⟨hn, hz⟩ | ⟨k, hk, hi⟩
    · refine .inl ⟨?_, hz⟩
      rw [List.forall_mem_append]
      exact ⟨hn, by simpa using hx⟩
    · exact .inr ⟨k, hk.concat hx, hi⟩

namespace DescriptionStep

variable {e e' : Extent}

/-- A description that is closed behind a symbol was closed by it, or before and left alone. -/
theorem closed_concat (hd : DescriptionStep m.markers ms.length e e') (hstart : e.start = 0)
    (hflush : .flush ∈ m.markers → e.isClosed = false)
    (h : e.isClosed = true → ∃ k, LastMarked .descriptionEndAfter ms k ∧ e.stop = k + 1 ∨
      LastMarked .descriptionEnd ms k ∧ e.stop = k) (hc : e'.isClosed = true) :
    ∃ k, LastMarked .descriptionEndAfter (ms ++ [m]) k ∧ e'.stop = k + 1 ∨
      LastMarked .descriptionEnd (ms ++ [m]) k ∧ e'.stop = k := by
  cases hd with
  | start _ hf =>
    have hopen : (e.openAt ms.length).isClosed = e.isClosed := rfl
    rw [hopen, hflush hf] at hc
    contradiction
  | stop hm _ =>
    refine ⟨ms.length, .inr ⟨lastMarked_concat ms hm, ?_⟩⟩
    simp [Extent.closeAt, hstart]
  | stopAfter hm _ =>
    refine ⟨ms.length, .inl ⟨lastMarked_concat ms hm, ?_⟩⟩
    simp only [Extent.closeAt, hstart]
    omega
  | discard => simp [Extent.isClosed] at hc
  | none h₁ h₂ =>
    obtain ⟨k, ⟨hk, he⟩ | ⟨hk, he⟩⟩ := h hc
    · exact ⟨k, .inl ⟨hk.concat h₂, he⟩⟩
    · exact ⟨k, .inr ⟨hk.concat h₁, he⟩⟩

/-- A description that is not closed behind a symbol never was, or it was discarded. -/
theorem unclosed_concat (hd : DescriptionStep m.markers ms.length e e')
    (hstart : .descriptionStart ∈ m.markers →
      .descriptionEnd ∉ m.markers ∧ .descriptionEndAfter ∉ m.markers)
    (h : e.isClosed = false →
      (∀ x ∈ ms, .descriptionEnd ∉ x.markers ∧ .descriptionEndAfter ∉ x.markers) ∨
        ∃ x ∈ ms, .descriptionDiscard ∈ x.markers) (hc : e'.isClosed = false) :
    (∀ x ∈ ms ++ [m], .descriptionEnd ∉ x.markers ∧ .descriptionEndAfter ∉ x.markers) ∨
      ∃ x ∈ ms ++ [m], .descriptionDiscard ∈ x.markers := by
  have hkept (hm : .descriptionEnd ∉ m.markers ∧ .descriptionEndAfter ∉ m.markers)
      (hc : e.isClosed = false) :
      (∀ x ∈ ms ++ [m], .descriptionEnd ∉ x.markers ∧ .descriptionEndAfter ∉ x.markers) ∨
        ∃ x ∈ ms ++ [m], .descriptionDiscard ∈ x.markers := by
    rcases h hc with ha | ⟨x, hx, hxm⟩
    · refine .inl ?_
      rw [List.forall_mem_append]
      exact ⟨ha, by simpa using hm⟩
    · exact .inr ⟨x, by simp [hx], hxm⟩
  cases hd with
  | start hm _ => exact hkept (hstart hm) hc
  | stop | stopAfter => simp [Extent.isClosed_closeAt] at hc
  | discard hm => exact .inr ⟨m, by simp, hm⟩
  | none h₁ h₂ => exact hkept ⟨h₁, h₂⟩ hc

end DescriptionStep

theorem Traced.read (hf : ms ≠ [] → .flush ∉ (s.step c n).2)
    (h₀ : (ms.foldl Pending.read {}).description.start = 0) (h : Traced ms s (ms.foldl .read {})) :
    Traced (ms ++ [s.moment n c]) (s.step c n).1 ((ms ++ [s.moment n c]).foldl .read {}) := by
  obtain ⟨hh, hfs⟩ := Scanner.step_headless (c := c) (n := n) h.headerComment h.fileStart
  obtain ⟨hstart, -⟩ := Scanner.step_descriptionMarkers (c := c) (n := n) h.headerComment h.fileStart
  have hread : (ms ++ [s.moment n c]).foldl Pending.read {} =
      ((s.step c n).2.foldl Pending.mark (ms.foldl Pending.read {})).push c := by
    rw [List.foldl_append, List.foldl_cons, List.foldl_nil, Pending.read,
      Scanner.marks_of_headless h.headerComment]
    rfl
  have hfunction := Pending.function_start_foldl_mark (s.step c n).2 (ms.foldl Pending.read {})
  have hd := Scanner.descriptionStep c n h.headerComment h.fileStart (ms.foldl Pending.read {})
  rw [Pending.size_foldl_read ms] at hfunction hd
  rw [hread]
  refine ⟨hh, hfs, ?_, hd.closed_concat (m := s.moment n c) h₀ ?_ h.described,
    hd.unclosed_concat (m := s.moment n c) ?_ h.undescribed⟩
  · have hnext := functionStart_concat (m := s.moment n c) h.function
    rwa [Scanner.moment_markers, ← hfunction] at hnext
  · intro hflush
    obtain rfl : ms = [] := not_not.mp fun hne => hf hne hflush
    rfl
  · intro hx
    rw [Scanner.moment_markers, hstart hx]
    decide

end Step

namespace Passage

variable {full : Nat → Bool} {g : Passage}

/-- The last symbol of a function closes its body. -/
theorem Sound.exists_bodyEnd (h : g.Sound full) (hf : g.pending.isFunction = true) :
    ∃ u c, g.text = u ++ [c] ∧ .bodyEnd ∈ ((g.start.runTo (some c) u).step c g.next).2 := by
  obtain ⟨-, -, hb⟩ := h.isFunction_iff.mp hf
  obtain ⟨x, hx, hxb⟩ := count_pos.mp (hb ▸ Nat.one_pos)
  obtain ⟨u, c, ht⟩ := List.eq_nil_or_concat' g.text |>.resolve_left h.text_ne
  have hm : g.moments = g.start.momentsTo (some c) u ++ [(g.start.runTo (some c) u).moment g.next c] := by
    rw [moments, ht, Scanner.momentsTo_concat]
  refine ⟨u, c, ht, ?_⟩
  rw [hm] at hx
  rcases List.mem_append.mp hx with hx | hx
  · obtain ⟨n, hxn⟩ := Scanner.exists_step_of_mem hx
    have hd := h.flushAfter x (by rw [hm, List.dropLast_concat]; exact hx)
    rw [hxn] at hxb hd
    exact absurd (Scanner.flushAfter_of_bodyEnd hxb) hd
  · rw [List.mem_singleton.mp hx] at hxb
    exact hxb

/-- Outside the body of a function no directive is read. -/
theorem Sound.not_inDirective (h : g.Sound full) (hf : g.pending.isFunction = true) {u v : Text}
    (ht : g.text = u ++ v) (hv : v ≠ [])
    (hb : (g.start.runTo (v.head?.or g.next) u).braces = 0) :
    ¬ (g.start.runTo (v.head?.or g.next) u).InDirective := by
  intro hd
  have hm : g.moments = g.start.momentsTo (v.head?.or g.next) u ++
      (g.start.runTo (v.head?.or g.next) u).momentsTo g.next v := by
    rw [moments, ht, Scanner.momentsTo_append]
  have hne : (g.start.runTo (v.head?.or g.next) u).momentsTo g.next v ≠ [] := by
    rwa [ne_eq, Scanner.momentsTo_eq_nil]
  have hall := Scanner.forall_before_of_step (P := fun s => s.InDirective ∧ s.braces = 0)
    (Q := (.flushAfter ∉ ·)) (fun s c n h => h.1.step h.2) (s := g.start.runTo (v.head?.or g.next) u)
    (n := g.next) (t := v) ⟨hd, hb⟩ (fun m hmem => h.flushAfter m (by
      rw [hm, List.dropLast_append_of_ne_nil hne]
      exact List.mem_append_right _ hmem))
  obtain ⟨u', c, ht', hend⟩ := h.exists_bodyEnd hf
  obtain ⟨w, d, rfl⟩ := List.eq_nil_or_concat' v |>.resolve_left hv
  rw [← List.append_assoc] at ht
  obtain ⟨rfl, hcd⟩ := List.append_inj' (ht'.symm.trans ht) rfl
  obtain rfl : c = d := by simpa using hcd
  have hlast := hall ((g.start.runTo (some c) (u ++ w)).moment g.next c) (by
    rw [Scanner.momentsTo_concat, Scanner.runTo_append]
    simp)
  have hmode := (Scanner.mem_step_iff.mp hend).2.1
  rcases hlast.1 with hd | ⟨hd | hd, -⟩ <;> simp [hmode, Mode.isComment] at hd

theorem Sound.traced (h : g.Sound full) (hs : g.start.Fresh) :
    Traced g.moments g.stop (g.moments.foldl .read {}) := by
  have key : CommentFirst g.moments g.stop (g.moments.foldl .read {}) ∧
      Traced g.moments g.stop (g.moments.foldl .read {}) := by
    refine h.induction (P := fun ms s => CommentFirst ms s (ms.foldl .read {}) ∧
      Traced ms s (ms.foldl .read {})) ⟨commentFirst_nil g.start, ?_⟩ ?_
    · exact ⟨hs.headerComment, hs.fileStart, .inl ⟨by simp, rfl⟩,
        fun hc => by simp [Extent.isClosed] at hc, fun _ => .inl (by simp)⟩
    · rintro ms s c n hv hf ha ⟨hc, ht⟩
      exact ⟨hc.read hv hf ha, ht.read hf hc.description_start⟩
  exact key.2

theorem Sound.closing_eq_nil (h : g.Sound full) (hs : g.start.Fresh) : g.closing = [] := by
  rcases h.closing with he | ⟨-, hh, -⟩
  · exact he
  · rw [(h.traced hs).headerComment] at hh
    contradiction

theorem Sound.pending_eq (h : g.Sound full) (hs : g.start.Fresh) :
    g.pending = g.moments.foldl .read {} := by
  rw [pending, h.closing_eq_nil hs]
  rfl

/-- The text of a passage falls apart at a symbol with a given marker. -/
theorem exists_of_lastMarked {x : Marker} {k : Nat} (h : LastMarked x g.moments k) :
    ∃ u c v, g.text = u ++ c :: v ∧ u.length = k ∧
      (g.start.runTo (some c) u).Due c (v.head?.or g.next) x := by
  obtain ⟨a, m, b, he, hm, -, hk⟩ := h
  obtain ⟨u, c, v, ht, ha, rfl, -⟩ := Scanner.exists_of_momentsTo_eq_cons he
  refine ⟨u, c, v, ht, ?_, Scanner.mem_step_iff.mp hm⟩
  rw [← hk, ha, Scanner.length_momentsTo]

/-- A declarator starts where the first word of the passage does, if there is one. -/
theorem Sound.function_start (h : g.Sound full) (hs : g.start.Fresh) :
    (∀ m ∈ g.moments, .functionStart ∉ m.markers) ∧ g.pending.function.start = 0 ∨
      ∃ u c v, g.text = u ++ c :: v ∧ g.pending.function.start = u.length ∧
        (g.start.runTo (some c) u).braces = 0 ∧ (g.start.runTo (some c) u).StartsWord c := by
  rw [h.pending_eq hs]
  refine (h.traced hs).function.imp_right ?_
  rintro ⟨k, hk, he⟩
  obtain ⟨u, c, v, ht, hl, hdue⟩ := exists_of_lastMarked hk
  exact ⟨u, c, v, ht, by rw [he, hl], hdue⟩

theorem Sound.described (h : g.Sound full) (hs : g.start.Fresh)
    (hc : g.pending.description.isClosed = true) :
    ∃ u c v, g.text = u ++ c :: v ∧ (g.start.runTo (some c) u).braces = 0 ∧
      ((g.start.runTo (some c) u).ClosesBlock c ∧ g.pending.description.stop = u.length + 1 ∨
        (g.start.runTo (some c) u).ClosesLine c ∧ g.pending.description.stop = u.length) := by
  rw [h.pending_eq hs] at hc ⊢
  obtain ⟨k, ⟨hk, he⟩ | ⟨hk, he⟩⟩ := (h.traced hs).described hc
  · obtain ⟨u, c, v, ht, hl, hb, hdue⟩ := exists_of_lastMarked hk
    exact ⟨u, c, v, ht, hb, .inl ⟨hdue, by rw [he, hl]⟩⟩
  · obtain ⟨u, c, v, ht, hl, hb, hdue⟩ := exists_of_lastMarked hk
    exact ⟨u, c, v, ht, hb, .inr ⟨hdue, by rw [he, hl]⟩⟩

/-- A comment is dropped for a directive, which is never part of a function. -/
theorem Sound.not_discard (h : g.Sound full) (hf : g.pending.isFunction = true) :
    ∀ m ∈ g.moments, .descriptionDiscard ∉ m.markers := by
  intro m hm hx
  obtain ⟨a, b, he⟩ := List.append_of_mem hm
  obtain ⟨u, c, v, ht, -, rfl, -⟩ := Scanner.exists_of_momentsTo_eq_cons he
  obtain ⟨hb, hmode, rfl, hl⟩ := Scanner.mem_step_iff.mp hx
  obtain ⟨u', d, ht', hend⟩ := h.exists_bodyEnd hf
  have hv : v ≠ [] := by
    rintro rfl
    obtain ⟨-, hd⟩ := List.append_inj' (ht.symm.trans ht') rfl
    have hd' := (Scanner.mem_step_iff.mp hend).2.2
    simp [hd'] at hd
  rw [← List.singleton_append, ← List.append_assoc] at ht
  refine h.not_inDirective hf ht hv ?_ (.inl ?_) <;> rw [Scanner.runTo_concat]
  · simp [Scanner.stepMode, hmode, Scanner.stepNormal, hl, hb]
  · simp [Scanner.stepMode, hmode, Scanner.stepNormal, hl]

/-- In a function without a description no comment outside the body ends. -/
theorem Sound.undescribed (h : g.Sound full) (hs : g.start.Fresh)
    (hf : g.pending.isFunction = true) (hc : g.pending.description.isClosed = false) :
    ∀ m ∈ g.moments, .descriptionEnd ∉ m.markers ∧ .descriptionEndAfter ∉ m.markers := by
  rw [h.pending_eq hs] at hc
  rcases (h.traced hs).undescribed hc with ha | ⟨m, hm, hx⟩
  · exact ha
  · exact absurd hx (h.not_discard hf m hm)

/-- A function without a description does not start with a comment. -/
theorem Sound.not_opensComment (h : g.Sound full) (hs : g.start.Fresh)
    (hf : g.pending.isFunction = true) (hc : g.pending.description.isClosed = false) {c : Sym}
    {v : Text} (ht : g.text = c :: v) : ¬ g.start.OpensComment c (v.head?.or g.next) := by
  intro ho
  have hall := Scanner.forall_before_of_step
    (P := fun s => s.mode.isComment = true ∧ s.braces = 0)
    (Q := fun l => .descriptionEnd ∉ l ∧ .descriptionEndAfter ∉ l)
    (s := (g.start.step c (v.head?.or g.next)).1) (n := g.next) (t := v) ?_ ?_ ?_
  · obtain ⟨u, d, ht', hend⟩ := h.exists_bodyEnd hf
    obtain ⟨-, hm, rfl⟩ := Scanner.mem_step_iff.mp hend
    cases u with
    | nil =>
      obtain ⟨rfl, -⟩ : c = .char '}' ∧ v = [] := by simpa using ht.symm.trans ht'
      exact absurd ho.2.1 (by decide)
    | cons x u =>
      obtain ⟨rfl, rfl⟩ : c = x ∧ v = u ++ [Sym.char '}'] := by simpa using ht.symm.trans ht'
      have hlast := hall ((g.start.runTo (some (.char '}')) (c :: u)).moment g.next (.char '}')) (by
        rw [Scanner.momentsTo_concat, Scanner.runTo_cons]
        simp)
      rw [Scanner.moment_before, hm] at hlast
      exact absurd hlast.1 (by decide)
  · rintro s c n ⟨hm, hb⟩ ⟨he, ha⟩
    rw [Scanner.mem_step_iff] at he ha
    obtain ⟨h₁, -, h₃, -⟩ := Scanner.stepMode_of_isComment (c := c) (n := n) hm
      (fun hcl => ha ⟨hb, hcl⟩) (fun hcl => he ⟨hb, hcl⟩)
    exact ⟨by rw [Scanner.step_mode, h₁, hm], by rw [Scanner.step_braces, h₃, hb]⟩
  · rw [Scanner.step_mode, Scanner.step_braces, Scanner.stepMode_of_opensComment ho]
    exact ⟨Scanner.enterComment_isComment, hs.braces⟩
  · intro m hm
    refine h.undescribed hs hf hc m ?_
    rw [moments, ht, Scanner.momentsTo_cons]
    exact List.mem_cons_of_mem _ (List.mem_of_mem_dropLast hm)

/-- A function is not read from within a directive. -/
theorem Sound.start_mode (h : g.Sound full) (hs : g.start.Fresh)
    (hf : g.pending.isFunction = true) : g.start.mode = .normal := by
  refine hs.mode.resolve_right fun hm => ?_
  exact h.not_inDirective hf (u := []) rfl h.text_ne hs.braces (.inl hm)

end Passage

end DocBlock
