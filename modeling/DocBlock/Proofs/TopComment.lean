import Mathlib
import DocBlock.Proofs.Division

/-! Comments outside bodies. Such a comment is opened behind a flush, so it stands first in its passage,
and what a passage holds as header or description is comment throughout. -/

namespace DocBlock

open Scanner (Moment)

/-- The symbol is part of a comment outside bodies: from the opening slash to the closing one, or up
to the end of the line. -/
def Scanner.Moment.inTopComment (m : Moment) : Bool :=
  m.before.braces = 0 && (m.after.mode.isComment || m.before.mode = .blockComment)

namespace Pending

theorem slice_natCast (p : Pending) (i j : Nat) : p.slice i j = (p.text.take j).drop i := by
  have hl : (min (j : Int) p.size).toNat = min j p.text.length := by
    rw [size_eq_length]
    omega
  have hf : (min (max (i : Int) 0) (min (j : Int) p.size)).toNat = min i (min j p.text.length) := by
    rw [size_eq_length]
    omega
  have hs : p.slice i j = (p.text.drop (min i (min j p.text.length))).take
      (min j p.text.length - min i (min j p.text.length)) := by
    unfold slice
    simp only [Array.toList_extract, List.extract_eq_take_drop, hf, hl]
    rfl
  rw [hs]
  apply List.ext_getElem?
  intro k
  simp only [List.getElem?_take, List.getElem?_drop]
  grind

theorem sliceFrom_natCast (p : Pending) (i : Nat) : p.sliceFrom i = p.text.drop i := by
  rw [sliceFrom, slice_natCast, size_eq_length, List.take_length]

theorem size_foldl_read (ms : List Moment) : (ms.foldl read {}).size = ms.length := by
  simp [size_eq_length]

end Pending

theorem Pending.fileComment_foldl_mark {l : List Marker} {p : Pending} :
    (l.foldl mark p).fileComment = true ↔ .fileComment ∈ l ∨ p.fileComment = true := by
  have hm : ∀ (p : Pending) x, (p.mark x).fileComment = true ↔
      Marker.fileComment = x ∨ p.fileComment = true := by
    intro p x
    cases x
    case commentEnd =>
      obtain ⟨_, _, h⟩ := p.endComment_eq
      simp [mark, h]
    case statementEnd =>
      obtain ⟨_, h⟩ := p.endStatement_eq
      simp [mark, h]
    all_goals simp [mark]
  induction l generalizing p with
  | nil => simp
  | cons x l ih =>
    refine (ih (p := p.mark x)).trans ?_
    rw [hm, List.mem_cons, or_left_comm, or_assoc]

theorem Scanner.Moment.mem_marks {m : Moment} {x : Marker} (h : x ∈ m.marks) : x ∈ m.markers := by
  unfold marks at h
  split at h
  · exact (List.dropWhile_sublist _).subset h
  · exact h

/-- The extent stops within the moments, and comments fill it from their start on. -/
def Extent.FilledBy (e : Extent) (ms : List Moment) : Prop :=
  ∃ k ≤ ms.length, e.stop = k ∧ ∀ m ∈ ms.take k, m.inTopComment = true

theorem Extent.FilledBy.append {e : Extent} {ms : List Moment} (h : e.FilledBy ms)
    (l : List Moment) : e.FilledBy (ms ++ l) := by
  obtain ⟨k, hk, hs, hall⟩ := h
  refine ⟨k, hk.trans (by simp), hs, ?_⟩
  rwa [List.take_append_of_le_length hk]

/-- What is known of comments while a passage is read. -/
structure CommentFirst (ms : List Moment) (s : Scanner) (p : Pending) : Prop where
  of_isComment : s.mode.isComment = true → s.braces = 0 → ∀ m ∈ ms, m.inTopComment = true
  description_start : p.description.start = 0
  of_isClosed : p.description.isClosed = true → p.description.FilledBy ms
  of_fileComment : p.fileComment = true → (∀ m ∈ ms, m.inTopComment = true) ∧
    ((∀ m ∈ ms, .flushAfter ∉ m.markers) → s.headerComment = true)

theorem commentFirst_nil (s : Scanner) : CommentFirst [] s {} where
  of_isComment := by simp
  description_start := rfl
  of_isClosed h := by simp [Extent.isClosed] at h
  of_fileComment h := by simp at h

section Step

variable {ms : List Moment} {s : Scanner} {c : Sym} {n : Option Sym}

/-- A comment outside bodies is opened behind a flush, so nothing else is pending. -/
theorem eq_nil_of_opensComment (hf : ms ≠ [] → .flush ∉ (s.step c n).2) (hb : s.braces = 0)
    (ho : s.OpensComment c n) : ms = [] := by
  by_contra hne
  exact hf hne (Scanner.mem_step_iff.mpr ⟨hb, .inl ho⟩)

theorem description_mark (hf : ms ≠ [] → .flush ∉ (s.step c n).2)
    (hc : s.mode.isComment = true → s.braces = 0 → ∀ m ∈ ms, m.inTopComment = true)
    {x : Marker} (hx : x ∈ (s.step c n).2) {p : Pending} (hp : p.size = ms.length)
    (h₁ : p.description.start = 0)
    (h₂ : p.description.isClosed = true → p.description.FilledBy (ms ++ [s.moment n c])) :
    (p.mark x).description.start = 0 ∧ ((p.mark x).description.isClosed = true →
      (p.mark x).description.FilledBy (ms ++ [s.moment n c])) := by
  rw [Scanner.mem_step_iff] at hx
  cases x
  case descriptionStart =>
    obtain rfl := eq_nil_of_opensComment hf hx.1 hx.2
    have hz : (p.size : Int) = 0 := by simp [hp]
    exact ⟨hz, fun _ => ⟨0, by simp, hz, by simp⟩⟩
  case descriptionEnd =>
    have hm : s.mode.isComment = true := by simp [hx.2.1, Mode.isComment]
    refine ⟨h₁, fun _ => ⟨ms.length, by simp, ?_, ?_⟩⟩
    · simp [Pending.mark, Extent.closeAt, h₁, hp]
    · simpa using hc hm hx.1
  case descriptionEndAfter =>
    have hm : s.mode.isComment = true := by simp [hx.2.1, Mode.isComment]
    have hl : (s.moment n c).inTopComment = true := by
      simp [Scanner.Moment.inTopComment, hx.1, hx.2.1]
    refine ⟨h₁, fun _ => ⟨ms.length + 1, by simp, ?_, ?_⟩⟩
    · simp only [Pending.mark, Extent.closeAt, h₁, hp]
      omega
    · rw [List.take_of_length_le (by simp)]
      simpa [or_imp, forall_and, hl] using hc hm hx.1
  case descriptionDiscard => simp [Pending.mark, Extent.isClosed]
  case commentEnd =>
    obtain ⟨_, _, he⟩ := p.endComment_eq
    rw [Pending.mark, he]
    exact ⟨h₁, h₂⟩
  case statementEnd =>
    obtain ⟨_, he⟩ := p.endStatement_eq
    rw [Pending.mark, he]
    exact ⟨h₁, h₂⟩
  all_goals exact ⟨h₁, h₂⟩

theorem description_foldl_mark (hf : ms ≠ [] → .flush ∉ (s.step c n).2)
    (h : CommentFirst ms s (ms.foldl .read {})) :
    let q := (s.moment n c).marks.foldl Pending.mark (ms.foldl .read {})
    q.description.start = 0 ∧
      (q.description.isClosed = true → q.description.FilledBy (ms ++ [s.moment n c])) := by
  let P : Pending → Prop := fun q => q.size = ms.length ∧ q.description.start = 0 ∧
    (q.description.isClosed = true → q.description.FilledBy (ms ++ [s.moment n c]))
  suffices hq : P ((s.moment n c).marks.foldl Pending.mark (ms.foldl .read {})) from hq.2
  refine List.foldlRecOn _ _ ⟨Pending.size_foldl_read ms, h.description_start, fun hc => ?_⟩ ?_
  · exact (h.of_isClosed hc).append _
  · rintro q ⟨hsz, h₁, h₂⟩ x hx
    refine ⟨by simp [Pending.size, ← hsz], ?_⟩
    exact description_mark hf h.of_isComment (Scanner.Moment.mem_marks hx) hsz h₁ h₂

/-- The comment that the file starts with is all that is pending with it. -/
theorem header_inTopComment (hs : s.Valid) (hf : .flush ∉ (s.step c n).2)
    (hh : s.headerComment = true) : (s.moment n c).inTopComment = true := by
  obtain ⟨hm, hb, hr, -⟩ := hs.of_headerComment hh
  by_cases hk : s.mode = .blockComment
  · simp [Scanner.Moment.inTopComment, hb, hk]
  · have hl : ¬ s.ClosesLine c := by
      intro hl
      exact hf (Scanner.mem_step_iff.mpr ⟨hb, .inr ⟨hl, by simp [hr], hh⟩⟩)
    obtain ⟨ha, -⟩ := Scanner.stepMode_of_isComment (n := n) hm (fun h => hk h.1) hl
    simp [Scanner.Moment.inTopComment, hb, ha, hm]

theorem CommentFirst.read (hs : s.Valid) (hf : ms ≠ [] → .flush ∉ (s.step c n).2)
    (ha : ∀ m ∈ ms, .flushAfter ∉ m.markers) (h : CommentFirst ms s (ms.foldl .read {})) :
    CommentFirst (ms ++ [s.moment n c]) (s.step c n).1
      ((ms ++ [s.moment n c]).foldl .read {}) := by
  obtain ⟨h₁, h₂⟩ := description_foldl_mark hf h
  rw [List.foldl_append, List.foldl_cons, List.foldl_nil]
  refine ⟨fun hm hb => ?_, h₁, h₂, fun hfc => ?_⟩
  · obtain ⟨he, ho⟩ := hs.of_isComment_stepMode hm
    have hb' : s.braces = 0 := he ▸ hb
    have hc : (s.moment n c).inTopComment = true := by
      have hm' : (s.stepMode c n).1.mode.isComment = true := hm
      simp [Scanner.Moment.inTopComment, hb', hm']
    rw [List.forall_mem_append]
    refine ⟨?_, by simpa using hc⟩
    rcases ho with ho | ho
    · simp [eq_nil_of_opensComment hf hb' ho]
    · exact h.of_isComment ho hb'
  · rcases Pending.fileComment_foldl_mark.mp hfc with hx | hp
    · have hx := Scanner.Moment.mem_marks hx
      obtain ⟨hfs, -, hm⟩ := Scanner.mem_step_iff.mp hx
      obtain rfl := hs.eq_of_fileStart hfs
      obtain ⟨-, ho | ho⟩ := hs.of_isComment_stepMode hm
      · obtain rfl := eq_nil_of_opensComment hf rfl ho
        refine ⟨?_, fun _ => Scanner.step_headerComment.mpr (.inl hx)⟩
        simp [Scanner.Moment.inTopComment, hm]
      · simp [Mode.isComment] at ho
    · obtain ⟨hall, hh⟩ := h.of_fileComment hp
      have hne : ms ≠ [] := by
        rintro rfl
        simp at hp
      have hh := hh ha
      refine ⟨?_, fun hn => ?_⟩
      · rw [List.forall_mem_append]
        exact ⟨hall, by simpa using header_inTopComment hs (hf hne) hh⟩
      · refine Scanner.step_headerComment.mpr (.inr ⟨hh, hf hne, ?_⟩)
        exact hn (s.moment n c) (by simp)

end Step

namespace Passage

variable {full : Nat → Bool} {g : Passage}

theorem Sound.commentFirst (h : g.Sound full) :
    CommentFirst g.moments g.stop (g.moments.foldl .read {}) := by
  refine h.induction (P := fun ms s => CommentFirst ms s (ms.foldl .read {})) ?_ ?_
  · exact commentFirst_nil g.start
  · exact fun ms s c n hs hf ha => CommentFirst.read hs hf ha

/-- What is left out as a header or a description is comment throughout. -/
theorem Sound.inTopComment (h : g.Sound full) :
    (g.pending.fileComment = true → ∀ m ∈ g.moments, m.inTopComment = true) ∧
      g.pending.description.start = 0 ∧
      (g.pending.description.isClosed = true → g.pending.description.FilledBy g.moments) := by
  have hc := h.commentFirst
  rcases h.closing with he | ⟨he, hh, -⟩
  · simp only [pending, he, List.foldl_nil]
    exact ⟨fun hf => (hc.of_fileComment hf).1, hc.description_start, hc.of_isClosed⟩
  · obtain ⟨hm, hb, -⟩ := (h.valid.runTo g.text).of_headerComment hh
    have hall := hc.of_isComment hm hb
    simp only [pending, he, List.foldl_cons, List.foldl_nil, Pending.mark]
    refine ⟨fun _ => hall, hc.description_start, fun _ => ⟨g.moments.length, le_rfl, ?_, ?_⟩⟩
    · simp [Extent.closeAt, hc.description_start, Pending.size_foldl_read]
    · simpa using hall

end Passage

end DocBlock
