import Mathlib
import DocBlock.Proofs.Definition

/-! Where the parts of a function lie in the text that is flushed with it. Each part is a stretch that
one marker opens and another one closes, so where they are given settles where the part lies. -/

namespace DocBlock

open Scanner (Moment)

/-- The stretch lies within the first `k` symbols. -/
structure Extent.Within (e : Extent) (k : Int) : Prop where
  start_nonneg : 0 ≤ e.start
  start_le : e.start ≤ e.stop
  stop_le : e.stop ≤ k

/-- What is marked in pending text. -/
inductive Part where
  | function | parameters | body | description
  deriving DecidableEq, Repr

namespace Part

def opening : Part → Marker
  | function => .functionStart
  | parameters => .parametersStart
  | body => .bodyStart
  | description => .descriptionStart

def closing : Part → Marker
  | function => .parametersStart
  | parameters => .parametersEnd
  | body => .bodyEnd
  | description => .descriptionEndAfter

/-- A description can be closed before the symbol, too. -/
def isClosedBy (r : Part) (x : Marker) : Bool := x = r.closing || (r = description && x = .descriptionEnd)

/-- The marker makes the part as if it had never been seen. -/
def isForgottenBy (r : Part) (x : Marker) : Bool := r = description && x = .descriptionDiscard

theorem opening_ne (r : Part) : r.opening ≠ .descriptionEnd := by
  cases r <;> decide

theorem closing_ne (r : Part) : r.closing ≠ .descriptionEnd := by
  cases r <;> decide

end Part

/-- How far behind its own place a marker closes a part. -/
def Marker.reach : Marker → Nat
  | .parametersEnd | .bodyEnd | .descriptionEndAfter => 1
  | _ => 0

theorem Marker.reach_le (x : Marker) : x.reach ≤ 1 := by
  cases x <;> decide

namespace Extents

def part (e : Extents) : Part → Extent
  | .function => e.function
  | .parameters => e.parameters
  | .body => e.body
  | .description => e.description

@[simp] theorem part_empty (r : Part) : ({} : Extents).part r = {} := by
  cases r <;> rfl

variable {r : Part} {l : List Marker} {k : Nat} {e : Extents}

/-- A marker makes a part forgotten, closes it, opens it, or leaves it alone. -/
theorem part_mark (k : Nat) (e : Extents) (x : Marker) (r : Part) :
    (e.mark k x).part r =
      if r.isForgottenBy x then {}
      else if r.isClosedBy x then (e.part r).closeAt (k + x.reach)
      else if x = r.opening then (e.part r).openAt k
      else e.part r := by
  cases x <;> cases r <;>
    simp [mark, part, Part.isForgottenBy, Part.isClosedBy, Part.opening, Part.closing, Marker.reach]

/-- What is no description is closed by one marker and never forgotten. -/
theorem part_mark_of_ne (hr : r ≠ .description) (k : Nat) (e : Extents) (x : Marker) :
    (e.mark k x).part r =
      if x = r.closing then (e.part r).closeAt (k + r.closing.reach)
      else if x = r.opening then (e.part r).openAt k
      else e.part r := by
  rw [part_mark]
  by_cases hx : x = r.closing <;> simp [Part.isForgottenBy, Part.isClosedBy, hr, hx]

theorem within_mark (x : Marker) (h : (e.part r).Within (k + 1)) :
    ((e.mark k x).part r).Within (k + 1) := by
  obtain ⟨h₁, h₂, h₃⟩ := h
  have hreach := x.reach_le
  rw [part_mark]
  split_ifs
  · constructor <;> simp only [] <;> omega
  · constructor <;> simp only [Extent.closeAt] <;> omega
  · constructor <;> simp only [Extent.openAt] <;> omega
  · exact ⟨h₁, h₂, h₃⟩

/-! One symbol. -/

theorem part_foldl_of_notMem (hr : r ≠ .description) (hx : r.opening ∉ l) (hy : r.closing ∉ l) :
    (l.foldl (Extents.mark k) e).part r = e.part r := by
  induction l generalizing e with
  | nil => rfl
  | cons z l ih =>
    simp only [List.mem_cons, not_or] at hx hy
    rw [List.foldl_cons, ih hx.2 hy.2, part_mark_of_ne hr, if_neg (Ne.symm hy.1), if_neg (Ne.symm hx.1)]

theorem part_foldl_of_opening (hr : r ≠ .description) (hx : r.opening ∈ l) (hy : r.closing ∉ l) :
    (l.foldl (Extents.mark k) e).part r = (e.part r).openAt k := by
  induction l generalizing e with
  | nil => simp at hx
  | cons z l ih =>
    simp only [List.mem_cons, not_or] at hy
    rw [List.foldl_cons]
    by_cases hz : z = r.opening
    · have hmark : (e.mark k z).part r = (e.part r).openAt k := by
        rw [part_mark_of_ne hr, if_neg (Ne.symm hy.1), if_pos hz]
      by_cases hl : r.opening ∈ l
      · rw [ih hl hy.2, hmark]
        rfl
      · rw [part_foldl_of_notMem hr hl hy.2, hmark]
    · have hl : r.opening ∈ l := (List.mem_cons.mp hx).resolve_left (Ne.symm hz)
      rw [ih hl hy.2, part_mark_of_ne hr, if_neg (Ne.symm hy.1), if_neg hz]

theorem part_foldl_of_closing (hr : r ≠ .description) (hn : l.Nodup) (hx : r.opening ∉ l)
    (hy : r.closing ∈ l) :
    (l.foldl (Extents.mark k) e).part r = (e.part r).closeAt (k + r.closing.reach) := by
  induction l generalizing e with
  | nil => simp at hy
  | cons z l ih =>
    simp only [List.mem_cons, not_or] at hx
    obtain ⟨hz, hn⟩ := List.nodup_cons.mp hn
    rw [List.foldl_cons]
    by_cases hzy : z = r.closing
    · rw [part_foldl_of_notMem hr hx.2 (hzy ▸ hz), part_mark_of_ne hr, if_pos hzy]
    · have hl : r.closing ∈ l := (List.mem_cons.mp hy).resolve_left (Ne.symm hzy)
      rw [ih hn hx.2 hl, part_mark_of_ne hr, if_neg hzy, if_neg (Ne.symm hx.1)]

theorem closings_foldl (hr : r ≠ .description) (hy : r.closing ∉ l) :
    ((l.foldl (Extents.mark k) e).part r).closings = (e.part r).closings := by
  by_cases hx : r.opening ∈ l
  · rw [part_foldl_of_opening hr hx hy]
    rfl
  · rw [part_foldl_of_notMem hr hx hy]

theorem start_foldl (hr : r ≠ .description) (hx : r.opening ∉ l) :
    ((l.foldl (Extents.mark k) e).part r).start = (e.part r).start := by
  induction l generalizing e with
  | nil => rfl
  | cons z l ih =>
    simp only [List.mem_cons, not_or] at hx
    rw [List.foldl_cons, ih hx.2, part_mark_of_ne hr]
    split
    · rfl
    · rw [if_neg (Ne.symm hx.1)]

theorem within_foldl (h : (e.part r).Within (k + 1)) :
    ((l.foldl (Extents.mark k) e).part r).Within (k + 1) := by
  induction l generalizing e with
  | nil => exact h
  | cons z l ih => exact ih (within_mark z h)

end Extents

theorem Pending.extents_read (p : Pending) (m : Moment) :
    (p.read m).extents = m.marks.foldl (Extents.mark p.size) p.extents := by
  rw [← extents_foldl_mark]
  rfl

theorem Scanner.Moment.mem_marks_iff {s : Scanner} {n : Option Sym} {t : Text} {m : Moment}
    (hm : m ∈ s.momentsTo n t) {x : Marker} (hx : x ≠ .descriptionEnd) :
    x ∈ m.marks ↔ x ∈ m.markers := by
  obtain ⟨n', hn⟩ := exists_step_of_mem hm
  rw [hn]
  exact m.before.mem_marks_moment_iff n' m.sym hx

theorem Scanner.Moment.nodup_marks {s : Scanner} {n : Option Sym} {t : Text} {m : Moment}
    (hm : m ∈ s.momentsTo n t) : m.marks.Nodup := by
  obtain ⟨n', hn⟩ := exists_step_of_mem hm
  have hnodup : m.markers.Nodup := by
    rw [hn]
    exact nodup_markers
  unfold marks
  split
  · exact (List.dropWhile_sublist _).nodup hnodup
  · exact hnodup

namespace Pending

variable {r : Part} {a b c ms : List Moment} {m z : Moment} {p : Pending}

/-! All symbols of a passage, or a part of them. -/

theorem part_foldl_read_of_notMem (hr : r ≠ .description)
    (hms : ∀ m ∈ ms, r.opening ∉ m.markers ∧ r.closing ∉ m.markers) :
    (ms.foldl .read p).extents.part r = p.extents.part r := by
  induction ms generalizing p with
  | nil => rfl
  | cons m ms ih =>
    rw [List.forall_mem_cons] at hms
    rw [List.foldl_cons, ih hms.2, extents_read]
    exact Extents.part_foldl_of_notMem hr (fun hx => hms.1.1 (Moment.mem_marks hx))
      (fun hy => hms.1.2 (Moment.mem_marks hy))

theorem closings_foldl_read (hr : r ≠ .description) (hms : ∀ m ∈ ms, r.closing ∉ m.markers) :
    ((ms.foldl .read p).extents.part r).closings = (p.extents.part r).closings := by
  induction ms generalizing p with
  | nil => rfl
  | cons m ms ih =>
    rw [List.forall_mem_cons] at hms
    rw [List.foldl_cons, ih hms.2, extents_read]
    exact Extents.closings_foldl hr fun hy => hms.1 (Moment.mem_marks hy)

theorem start_foldl_read (hr : r ≠ .description) (hms : ∀ m ∈ ms, r.opening ∉ m.markers) :
    ((ms.foldl .read p).extents.part r).start = (p.extents.part r).start := by
  induction ms generalizing p with
  | nil => rfl
  | cons m ms ih =>
    rw [List.forall_mem_cons] at hms
    rw [List.foldl_cons, ih hms.2, extents_read]
    exact Extents.start_foldl hr fun hx => hms.1 (Moment.mem_marks hx)

/-- No stretch reaches beyond what was read. -/
theorem within_foldl_read (r : Part) (ms : List Moment) :
    ((ms.foldl Pending.read {}).extents.part r).Within ms.length := by
  induction ms using List.reverseRecOn with
  | nil =>
    show (({} : Extents).part r).Within _
    rw [Extents.part_empty]
    exact ⟨le_rfl, le_rfl, le_rfl⟩
  | append_singleton ms m ih =>
    rw [List.foldl_append, List.foldl_cons, List.foldl_nil, extents_read,
      size_foldl_read, List.length_append, List.length_singleton, Nat.cast_add]
    obtain ⟨h₁, h₂, h₃⟩ := ih
    exact Extents.within_foldl ⟨h₁, h₂, by omega⟩

section Split

variable {s : Scanner} {n : Option Sym} {t : Text}

/-- A stretch starts where it was opened last. -/
theorem start_of_split (hr : r ≠ .description) (hms : s.momentsTo n t = a ++ m :: b)
    (hm : r.opening ∈ m.markers) (hy : r.closing ∉ m.markers) (hb : ∀ z ∈ b, r.opening ∉ z.markers) :
    (((s.momentsTo n t).foldl Pending.read {}).extents.part r).start = a.length := by
  have hmt : m ∈ s.momentsTo n t := by simp [hms]
  rw [← Moment.mem_marks_iff hmt r.opening_ne] at hm
  rw [hms, List.foldl_append, List.foldl_cons, start_foldl_read hr hb, extents_read,
    Extents.part_foldl_of_opening hr hm fun hy' => hy (Moment.mem_marks hy')]
  simp [Extent.openAt, size_foldl_read]

/-- A stretch that is opened, then closed for the only time, runs from the one to the other. -/
theorem extent_of_split (hr : r ≠ .description) (hms : s.momentsTo n t = a ++ m :: (b ++ z :: c))
    (hm : r.opening ∈ m.markers) (hz : r.closing ∈ z.markers) (ha : ∀ w ∈ a ++ [m], r.closing ∉ w.markers)
    (hb : ∀ w ∈ b, r.opening ∉ w.markers ∧ r.closing ∉ w.markers) (hxz : r.opening ∉ z.markers)
    (hc : ∀ w ∈ c, r.opening ∉ w.markers ∧ r.closing ∉ w.markers) :
    ((s.momentsTo n t).foldl Pending.read {}).extents.part r =
      ⟨a.length, a.length + 1 + b.length + r.closing.reach, .once⟩ := by
  have hmt : m ∈ s.momentsTo n t := by simp [hms]
  have hzt : z ∈ s.momentsTo n t := by simp [hms]
  rw [← Moment.mem_marks_iff hmt r.opening_ne] at hm
  rw [← Moment.mem_marks_iff hzt r.closing_ne] at hz
  rw [List.forall_mem_append, List.forall_mem_singleton] at ha
  have hclosings : ((a.foldl Pending.read {}).extents.part r).closings = .none := by
    rw [closings_foldl_read hr ha.1]
    show (({} : Extents).part r).closings = _
    rw [Extents.part_empty]
  have hopen : ((a.foldl Pending.read {}).read m).extents.part r = ⟨a.length, a.length, .none⟩ := by
    rw [extents_read, Extents.part_foldl_of_opening hr hm fun hy => ha.2 (Moment.mem_marks hy)]
    simp [Extent.openAt, size_foldl_read, hclosings]
  have hsize : (b.foldl Pending.read ((a.foldl Pending.read {}).read m)).size =
      a.length + 1 + b.length := by
    have := size_foldl_read (a ++ m :: b)
    rw [List.foldl_append, List.foldl_cons] at this
    rw [this, List.length_append, List.length_cons]
    omega
  have hclose : ((b.foldl Pending.read ((a.foldl Pending.read {}).read m)).read z).extents.part r =
      ⟨a.length, a.length + 1 + b.length + r.closing.reach, .once⟩ := by
    rw [extents_read, Extents.part_foldl_of_closing hr (Moment.nodup_marks hzt)
      (fun hx => hxz (Moment.mem_marks hx)) hz, hsize, part_foldl_read_of_notMem hr hb, hopen]
    simp only [Extent.closeAt, Closings.next, Extent.mk.injEq, and_true, true_and]
    push_cast
    omega
  rw [hms, List.foldl_append, List.foldl_cons, List.foldl_append, List.foldl_cons,
    part_foldl_read_of_notMem hr hc, hclose]

end Split

end Pending

namespace Scanner

variable {s : Scanner} {c : Sym} {n : Option Sym}

/-- Outside bodies only the brace that opens one leads into it. -/
theorem step_braces_zero (h : s.braces = 0) (hb : .bodyStart ∉ (s.step c n).2) :
    (s.step c n).1.braces = 0 := by
  rw [mem_step_iff] at hb
  rw [step_braces]
  cases hm : s.mode <;> simp only [stepMode, hm]
  case normal =>
    have hc : c ≠ .char '{' := fun hc => hb ⟨h, hm, hc⟩
    fun_cases stepNormal <;> simp_all [enterComment, closeBrace]
  case escape => fun_cases stepEscape <;> exact h
  case blockComment => fun_cases stepBlockComment <;> exact h
  case lineComment => fun_cases stepLineComment <;> exact h
  case directive => fun_cases stepDirective <;> exact h
  all_goals fun_cases stepLiteral <;> exact h

/-- Outside bodies and parentheses only the start of a parameter list leads into parentheses. -/
theorem step_parens_zero (hb : s.braces = 0) (h : s.parens = 0)
    (hp : .parametersStart ∉ (s.step c n).2) : (s.step c n).1.parens = 0 := by
  rw [mem_step_iff] at hp
  rw [step_parens]
  cases hm : s.mode <;> simp only [stepMode, hm]
  case normal =>
    have hc : c ≠ .char '(' := fun hc => hp ⟨hb, hm, hc, h⟩
    fun_cases stepNormal <;> simp_all [enterComment, closeBrace]
  case escape => fun_cases stepEscape <;> exact h
  case blockComment => fun_cases stepBlockComment <;> exact h
  case lineComment => fun_cases stepLineComment <;> exact h
  case directive => fun_cases stepDirective <;> exact h
  all_goals fun_cases stepLiteral <;> exact h

/-- A declaration is in progress, or the body that belongs to it. -/
def Declaring (s : Scanner) : Prop := 0 ≤ s.braces ∧ (s.between = false ∨ 0 < s.braces)

theorem Declaring.not_functionStart (h : s.Declaring) : .functionStart ∉ (s.step c n).2 := by
  intro hx
  obtain ⟨hb, -, hw, -⟩ := mem_step_iff.mp hx
  rcases h.2 with h | h
  · rw [h] at hw
    contradiction
  · omega

theorem declaring_of_functionStart (h : .functionStart ∈ (s.step c n).2) :
    (s.step c n).1.Declaring := by
  obtain ⟨hb, hm, hw, hc, hn⟩ := mem_step_iff.mp h
  have hmode : s.stepMode c n = ({ s with between := false }, [.functionStart]) := by
    simp only [isSpecial, Bool.or_eq_false_iff, decide_eq_false_iff_not] at hc
    simp [stepMode, hm, stepNormal, hc, hw, hn, hb]
  constructor
  · rw [step_braces, hmode]
    exact hb.ge
  · left
    rw [← Bool.not_eq_true, step_between, step_markers, hmode]
    simp [headMarkers, hm, Mode.isComment]

/-- What ends a declaration outside bodies is flushed, but for the start of its body. -/
theorem between_stepMode (hs : 0 ≤ s.braces) (h : (s.stepMode c n).1.between = true) :
    s.between = true ∨ 0 < (s.step c n).1.braces ∨ .flushAfter ∈ (s.step c n).2 := by
  revert h
  rw [step_braces, step_markers, List.mem_append]
  cases hm : s.mode <;> simp only [stepMode, hm]
  case normal => fun_cases stepNormal <;> simp_all [enterComment, closeBrace] <;> grind
  case escape => fun_cases stepEscape <;> exact .inl
  case blockComment => fun_cases stepBlockComment <;> exact .inl
  case lineComment => fun_cases stepLineComment <;> exact .inl
  case directive => fun_cases stepDirective <;> exact .inl
  all_goals fun_cases stepLiteral <;> exact .inl

/-- A declaration goes on until something is flushed. -/
theorem Declaring.step (h : s.Declaring) (hf : .flush ∉ (s.step c n).2)
    (ha : .flushAfter ∉ (s.step c n).2) : (s.step c n).1.Declaring := by
  obtain ⟨hs, h | h⟩ := h
  · refine ⟨step_braces_nonneg hs, ?_⟩
    by_contra hn
    simp only [not_or, Bool.not_eq_false, step_between] at hn
    obtain ⟨hm | hm | hm, hb⟩ := hn
    · rcases between_stepMode hs hm with hw | hb' | ha'
      · rw [h] at hw
        contradiction
      · exact hb hb'
      · exact ha ha'
    · exact hf hm
    · exact ha hm
  · have hb := step_braces_pos h fun hb => ha (flushAfter_of_bodyEnd hb)
    exact ⟨hb.le, .inr hb⟩

/-- A body that goes on was opened by a brace of its own, if part of what was read is outside it. -/
theorem exists_bodyStart {t : Text} (hs : 0 ≤ s.braces) (hend : 0 < (s.runTo n t).braces)
    (hout : ∃ y ∈ s.momentsTo n t, y.before.braces = 0)
    (hb : ∀ y ∈ s.momentsTo n t, .bodyEnd ∉ y.markers) :
    s.braces = 0 ∧ ∃ a m b, s.momentsTo n t = a ++ m :: b ∧
      (∀ y ∈ a, y.before.braces = 0 ∧ .bodyStart ∉ y.markers) ∧ .bodyStart ∈ m.markers ∧
      ∀ y ∈ b, 0 < y.before.braces := by
  -- Once inside, reading stays inside: only the end of the body leads out.
  have inner : ∀ (s : Scanner) (t : Text), 0 < s.braces →
      (∀ y ∈ s.momentsTo n t, .bodyEnd ∉ y.markers) → ∀ y ∈ s.momentsTo n t, 0 < y.before.braces :=
    fun s t hs ht => forall_before_of_step (Q := (.bodyEnd ∉ ·))
      (fun _ _ _ => step_braces_pos) hs fun y hy => ht y (List.mem_of_mem_dropLast hy)
  induction t generalizing s with
  | nil => simp at hout
  | cons c rest ih =>
    have hz : s.braces = 0 := by
      obtain ⟨y, hy, hyb⟩ := hout
      by_contra hne
      have := inner s (c :: rest) (by omega) hb y hy
      omega
    rw [momentsTo_cons, List.forall_mem_cons] at hb
    by_cases ho : .bodyStart ∈ (s.step c (rest.head?.or n)).2
    · obtain ⟨-, hm, rfl⟩ := mem_step_iff.mp ho
      refine ⟨hz, [], _, _, rfl, by simp, ho, inner _ rest ?_ hb.2⟩
      rw [step_braces]
      simp [stepMode, hm, stepNormal, hz]
    · have hz' := step_braces_zero hz ho
      have hout' : ∃ y ∈ (s.step c (rest.head?.or n)).1.momentsTo n rest, y.before.braces = 0 := by
        cases rest with
        | nil =>
          simp only [runTo_cons, runTo_nil] at hend
          omega
        | cons d rest => exact ⟨_, List.mem_cons_self, hz'⟩
      obtain ⟨-, a, m, b, he, ha, hm, hpos⟩ := ih hz'.ge hend hout' hb.2
      refine ⟨hz, s.moment (rest.head?.or n) c :: a, m, b, ?_, ?_, hm, hpos⟩
      · rw [momentsTo_cons, he, List.cons_append]
      · rw [List.forall_mem_cons]
        exact ⟨⟨hz, ho⟩, ha⟩

end Scanner

/-- The marker belongs to the declarator or the parameter list of a function. -/
def Marker.IsHead (x : Marker) : Prop :=
  x = .functionStart ∨ x = .parametersStart ∨ x = .parametersEnd

theorem Scanner.due_of_isHead {s : Scanner} {c : Sym} {n : Option Sym} {x : Marker} (h : x.IsHead)
    (hx : x ∈ (s.step c n).2) : s.braces = 0 ∧ c ≠ .char '{' := by
  rw [mem_step_iff] at hx
  rcases h with rfl | rfl | rfl
  · refine ⟨hx.1, ?_⟩
    rintro rfl
    exact absurd hx.2.2.2.1 (by decide)
  · exact ⟨hx.1, by simp [hx.2.2.1]⟩
  · exact ⟨hx.1, by simp [hx.2.2.1]⟩

namespace Passage

variable {full : Nat → Bool} {g : Passage}

theorem exists_due {m : Moment} (h : m ∈ g.moments) {x : Marker} (hx : x ∈ m.markers) :
    ∃ n, m.before.Due m.sym n x := by
  obtain ⟨n, hn⟩ := Scanner.exists_step_of_mem h
  rw [hn] at hx
  exact ⟨n, Scanner.mem_step_iff.mp hx⟩

/-- A marker that is given once is given nowhere else. -/
theorem notMem_of_count {x : Marker} (h : g.count x = 1) {a b : List Moment} {m : Moment}
    (he : g.moments = a ++ m :: b) (hm : x ∈ m.markers) :
    (∀ y ∈ a, x ∉ y.markers) ∧ ∀ y ∈ b, x ∉ y.markers := by
  have hpos := List.count_pos_iff.mpr hm
  rw [count, he, List.flatMap_append, List.flatMap_cons, List.count_append, List.count_append] at h
  have hz : (a.flatMap (·.markers)).count x = 0 ∧ (b.flatMap (·.markers)).count x = 0 := by omega
  simp only [List.count_eq_zero, List.mem_flatMap, not_exists, not_and] at hz
  exact hz

theorem Sound.part_pending (h : g.Sound full) {r : Part} (hr : r ≠ .description) :
    g.pending.extents.part r = (g.moments.foldl Pending.read {}).extents.part r := by
  rw [pending, Pending.extents_foldl_mark]
  rcases h.closing with he | ⟨he, -⟩
  · rw [he]
    rfl
  · rw [he]
    exact Extents.part_foldl_of_notMem hr (by simpa using r.opening_ne) (by simpa using r.closing_ne)

/-- The body among the moments of a passage: the brace that opens it, what it holds and the brace that
closes it. -/
structure HasBody (g : Passage) (a : List Moment) (m : Moment) (b : List Moment) (z : Moment) :
    Prop where
  moments : g.moments = a ++ m :: (b ++ [z])
  start_braces : g.start.braces = 0
  before : ∀ y ∈ a, y.before.braces = 0 ∧ .bodyStart ∉ y.markers
  opening : .bodyStart ∈ m.markers
  inner : ∀ y ∈ b ++ [z], 0 < y.before.braces
  closing : .bodyEnd ∈ z.markers

theorem Sound.exists_body (h : g.Sound full) (hf : g.pending.isFunction = true) :
    ∃ a m b z, g.HasBody a m b z := by
  obtain ⟨u, c, ht, hend⟩ := h.exists_bodyEnd hf
  obtain ⟨hone, hmode, rfl⟩ := Scanner.mem_step_iff.mp hend
  have hms : g.moments = g.start.momentsTo (some (.char '}')) u ++
      [(g.start.runTo (some (.char '}')) u).moment g.next (.char '}')] := by
    rw [Passage.moments, ht, Scanner.momentsTo_concat]
  have hnoend : ∀ y ∈ g.start.momentsTo (some (.char '}')) u, .bodyEnd ∉ y.markers := by
    intro y hy hb
    obtain ⟨n, hn⟩ := Scanner.exists_step_of_mem hy
    refine h.flushAfter y (by rwa [hms, List.dropLast_concat]) ?_
    rw [hn] at hb ⊢
    exact Scanner.flushAfter_of_bodyEnd hb
  -- The parameter list starts outside the body.
  have hout : ∃ y ∈ g.start.momentsTo (some (.char '}')) u, y.before.braces = 0 := by
    obtain ⟨hp, -, -⟩ := h.isFunction_iff.mp hf
    obtain ⟨y, hy, hyp⟩ := count_pos.mp (hp ▸ Nat.one_pos)
    obtain ⟨n, hb, -, -⟩ := exists_due hy hyp
    rw [hms] at hy
    rcases List.mem_append.mp hy with hy | hy
    · exact ⟨y, hy, hb⟩
    · rw [List.mem_singleton.mp hy] at hb
      exact absurd (hb.symm.trans hone) (by decide)
  obtain ⟨hz, a, m, b, he, ha, hm, hb⟩ :=
    Scanner.exists_bodyStart h.valid.braces_nonneg (by rw [hone]; decide) hout hnoend
  refine ⟨a, m, b, _, by rw [hms, he, List.append_assoc, List.cons_append], hz, ha, hm, ?_, hend⟩
  rw [List.forall_mem_append, List.forall_mem_singleton]
  refine ⟨hb, ?_⟩
  show 0 < (g.start.runTo (some (.char '}')) u).braces
  rw [hone]
  decide

namespace HasBody

variable {a b : List Moment} {m z : Moment}

theorem sym_opening (h : g.HasBody a m b z) : m.sym = .char '{' := by
  obtain ⟨n, -, -, hc⟩ := exists_due (g := g) (by simp [h.moments]) h.opening
  exact hc

theorem sym_closing (h : g.HasBody a m b z) : z.sym = .char '}' := by
  obtain ⟨n, -, -, hc⟩ := exists_due (g := g) (by simp [h.moments]) h.closing
  exact hc

theorem size_pending (h : g.HasBody a m b z) : g.pending.size = a.length + 1 + b.length + 1 := by
  rw [Pending.size_eq_length, text_pending, ← map_sym_moments, List.length_map, h.moments]
  simp
  omega

theorem text (h : g.HasBody a m b z) :
    g.pending.text = a.map (·.sym) ++ (.char '{' :: (b.map (·.sym) ++ [Sym.char '}'])) := by
  rw [text_pending, ← map_sym_moments, h.moments]
  simp [h.sym_opening, h.sym_closing]

/-- From the body on, nothing belongs to the declarator or the parameter list. -/
theorem not_isHead (h : g.HasBody a m b z) {x : Marker} (hx : x.IsHead) :
    ∀ y ∈ m :: (b ++ [z]), x ∉ y.markers := by
  intro y hy hxy
  obtain ⟨n, hn⟩ := Scanner.exists_step_of_mem
    (show y ∈ g.moments by rw [h.moments]; exact List.mem_append_right _ hy)
  rw [hn] at hxy
  obtain ⟨hb, hc⟩ := Scanner.due_of_isHead hx hxy
  rcases List.mem_cons.mp hy with rfl | hy
  · exact hc h.sym_opening
  · have := h.inner y hy
    omega

theorem body_eq (h : g.HasBody a m b z) (hs : g.Sound full) (hf : g.pending.isFunction = true) :
    g.pending.body = ⟨a.length, a.length + 1 + b.length + 1, .once⟩ := by
  obtain ⟨-, -, hone⟩ := hs.isFunction_iff.mp hf
  have hend := notMem_of_count hone (a := a ++ m :: b) (b := []) (by simp [h.moments]) h.closing
  rw [List.forall_mem_append, List.forall_mem_cons] at hend
  have hstart : ∀ y ∈ b ++ [z], .bodyStart ∉ y.markers := by
    intro y hy hx
    obtain ⟨n, hz, -, -⟩ := exists_due (g := g) (by rw [h.moments]; simp_all) hx
    have := h.inner y hy
    omega
  rw [List.forall_mem_append, List.forall_mem_singleton] at hstart
  have he := Pending.extent_of_split (r := .body) (by decide) (s := g.start) (n := g.next) (t := g.text)
    h.moments h.opening h.closing
    (by rw [List.forall_mem_append, List.forall_mem_singleton]; exact ⟨hend.1.1, hend.1.2.1⟩)
    (fun y hy => ⟨hstart.1 y hy, hend.1.2.2 y hy⟩) hstart.2 (by simp)
  exact (hs.part_pending (r := .body) (by decide)).trans he

/-- The declarator and the parameter list lie before the body. -/
theorem within (h : g.HasBody a m b z) (hs : g.Sound full) {r : Part} (hr : r ≠ .description)
    (hx : r.opening.IsHead) (hy : r.closing.IsHead) : (g.pending.extents.part r).Within a.length := by
  rw [hs.part_pending hr, h.moments, List.foldl_append, Pending.part_foldl_read_of_notMem hr]
  · exact Pending.within_foldl_read r a
  · exact fun w hw => ⟨h.not_isHead hx w hw, h.not_isHead hy w hw⟩

theorem blockStop_le (h : g.HasBody a m b z) (hs : g.Sound full) :
    g.pending.blockStart ≤ g.pending.blockStop ∧ g.pending.blockStop ≤ a.length := by
  obtain ⟨-, hzero, hfilled⟩ := hs.inTopComment
  unfold Pending.blockStart Pending.blockStop
  by_cases hc : g.pending.description.isClosed = true
  · obtain ⟨k, hk, hstop, hall⟩ := hfilled hc
    rw [if_pos hc, if_pos hc, hzero, hstop]
    refine ⟨by omega, ?_⟩
    by_contra hlt
    -- The brace that opens the body would be part of the comment.
    have hmem : m ∈ g.moments.take k := by
      rw [h.moments, List.take_append, List.take_cons (by omega)]
      simp
    obtain ⟨n, hn⟩ := Scanner.exists_step_of_mem (List.mem_of_mem_take hmem)
    have hvalid := Scanner.valid_of_mem hs.valid (List.mem_of_mem_take hmem)
    have htop := hall m hmem
    have hopen := h.opening
    rw [hn] at hopen htop
    rw [(Construct.opening_spec (k := .body) (by decide) hvalid hopen).2] at htop
    contradiction
  · have hw := h.within hs (r := .function) (by decide) (.inl rfl) (.inr (.inl rfl))
    have hle := hw.start_le.trans hw.stop_le
    have hnn := hw.start_nonneg
    change g.pending.function.start ≤ a.length at hle
    rw [if_neg hc, if_neg hc]
    refine ⟨le_rfl, ?_⟩
    omega

/-- Where no parenthesis is open at first, the parameter list ends behind its start. -/
theorem exists_parameters (h : g.HasBody a m b z) (hs : g.Sound full)
    (hf : g.pending.isFunction = true) (hp : g.start.parens = 0) :
    ∃ c i d j e, a = c ++ i :: (d ++ j :: e) ∧ .parametersStart ∈ i.markers ∧
      .parametersEnd ∈ j.markers := by
  obtain ⟨-, hend, -⟩ := hs.isFunction_iff.mp hf
  obtain ⟨j, hj, hjx⟩ := count_pos.mp (hend ▸ Nat.one_pos)
  have hja : j ∈ a := by
    rw [h.moments] at hj
    refine (List.mem_append.mp hj).resolve_right fun hj => ?_
    exact h.not_isHead (.inr (.inr rfl)) j hj hjx
  obtain ⟨c', e, rfl⟩ := List.append_of_mem hja
  suffices hstart : ∃ i ∈ c', .parametersStart ∈ i.markers by
    obtain ⟨i, hi, hix⟩ := hstart
    obtain ⟨c, d, rfl⟩ := List.append_of_mem hi
    exact ⟨c, i, d, j, e, by simp, hix, hjx⟩
  -- Without a start before it, no parenthesis would be open where the list ends.
  by_contra hno
  push Not at hno
  have hms : g.start.momentsTo g.next g.text = (c' ++ [j]) ++ (e ++ m :: (b ++ [z])) := by
    rw [← Passage.moments, h.moments]
    simp
  obtain ⟨u, v, -, hu, -⟩ := Scanner.exists_of_momentsTo_eq_append hms
  have hall := Scanner.forall_before_of_step (n := v.head?.or g.next) (t := u)
    (P := fun s => s.braces = 0 ∧ s.parens = 0)
    (Q := fun l => .bodyStart ∉ l ∧ .parametersStart ∉ l)
    (fun s c n hs hl => ⟨Scanner.step_braces_zero hs.1 hl.1, Scanner.step_parens_zero hs.1 hs.2 hl.2⟩)
    ⟨h.start_braces, hp⟩ (by
      rw [← hu, List.dropLast_concat]
      exact fun y hy => ⟨(h.before y (by simp [hy])).2, hno y hy⟩)
  obtain ⟨n, -, -, -, hone⟩ := exists_due hj hjx
  have hzero := (hall j (by simp [← hu])).2
  omega

theorem parameters_text (h : g.HasBody a m b z) (hs : g.Sound full)
    (hf : g.pending.isFunction = true) (hp : g.start.parens = 0) :
    ∃ inside, g.pending.extentText g.pending.parameters =
      .char '(' :: (inside ++ [Sym.char ')']) := by
  obtain ⟨c, i, d, j, e, rfl, hi, hj⟩ := h.exists_parameters hs hf hp
  obtain ⟨hstart, hend, -⟩ := hs.isFunction_iff.mp hf
  have hms : g.moments = c ++ i :: (d ++ j :: (e ++ m :: (b ++ [z]))) := by
    rw [h.moments]
    simp
  obtain ⟨-, hsi⟩ := notMem_of_count hstart hms hi
  obtain ⟨hei, hej⟩ := notMem_of_count hend (a := c ++ i :: d)
    (b := e ++ m :: (b ++ [z])) (by simp [hms]) hj
  rw [List.forall_mem_append, List.forall_mem_cons] at hsi hei
  have heq : g.pending.parameters = ⟨c.length, c.length + 1 + d.length + 1, .once⟩ := by
    refine (hs.part_pending (r := .parameters) (by decide)).trans ?_
    refine Pending.extent_of_split (r := .parameters) (by decide) hms hi hj ?_
      (fun y hy => ⟨hsi.1 y hy, hei.2.2 y hy⟩) hsi.2.1 (fun y hy => ⟨hsi.2.2 y hy, hej y hy⟩)
    rw [List.forall_mem_append, List.forall_mem_singleton]
    exact ⟨hei.1, hei.2.1⟩
  have hisym : i.sym = .char '(' := by
    obtain ⟨n, -, -, hc, -⟩ := exists_due (g := g) (by simp [hms]) hi
    exact hc
  have hjsym : j.sym = .char ')' := by
    obtain ⟨n, -, -, hc, -⟩ := exists_due (g := g) (by simp [hms]) hj
    exact hc
  refine ⟨d.map (·.sym), Pending.extentText_of_append (a := c.map (·.sym))
    (c := (e ++ m :: (b ++ [z])).map (·.sym)) ?_ ?_ ?_⟩
  · rw [text_pending, ← map_sym_moments, hms]
    simp [hisym, hjsym]
  · simp [heq]
  · simp [heq]
    omega

end HasBody

/-- A marker `x` is given, and a marker `y` behind it. -/
def Precedes (g : Passage) (x y : Marker) : Prop :=
  ∃ a m b, g.moments = a ++ m :: b ∧ x ∈ m.markers ∧ ∃ z ∈ b, y ∈ z.markers

/-- Up to the end of its body, no declarator follows the one of a function. -/
theorem Sound.not_functionStart (h : g.Sound full) {a b : List Moment} {m : Moment}
    (he : g.moments = a ++ m :: b) (hm : .functionStart ∈ m.markers) :
    ∀ y ∈ b, .functionStart ∉ y.markers := by
  obtain ⟨u, c, v, ht, ha, rfl, hb⟩ := Scanner.exists_of_momentsTo_eq_cons he
  have hflush : ∀ y ∈ b, .flush ∉ y.markers := by
    intro y hy
    refine h.flush y ?_
    rw [he]
    cases a with
    | nil => exact hy
    | cons x a => exact List.mem_append_right _ (List.mem_cons_of_mem _ hy)
  have hafter : ∀ y ∈ b.dropLast, .flushAfter ∉ y.markers := by
    intro y hy
    refine h.flushAfter y ?_
    rw [he]
    cases b with
    | nil => simp at hy
    | cons x b =>
      rw [List.dropLast_append_cons, List.dropLast_cons_cons]
      exact List.mem_append_right _ (List.mem_cons_of_mem _ hy)
  -- From the declarator on, a declaration is in progress, and no other one starts.
  have hall := Scanner.forall_before_of_step (P := Scanner.Declaring) (n := g.next) (t := v)
    (Q := fun l => .flush ∉ l ∧ .flushAfter ∉ l) (fun s c n hs hl => hs.step hl.1 hl.2)
    (Scanner.declaring_of_functionStart hm) (by
      intro y hy
      rw [Scanner.moment_after] at hb
      rw [← hb] at hy
      exact ⟨hflush y (List.mem_of_mem_dropLast hy), hafter y hy⟩)
  intro y hy hx
  rw [hb] at hy
  obtain ⟨n, hn⟩ := Scanner.exists_step_of_mem hy
  rw [hn] at hx
  exact (hall y hy).not_functionStart hx

/-- A declarator that starts before the parameter list ends with it. -/
theorem Sound.function_stop (h : g.Sound full) (hf : g.pending.isFunction = true)
    (hp : g.Precedes .functionStart .parametersStart) :
    g.pending.function.start < g.pending.function.stop ∧
      g.pending.function.stop = g.pending.parameters.start := by
  obtain ⟨a, m, b, he, hm, y, hy, hyp⟩ := hp
  obtain ⟨b, c, rfl⟩ := List.append_of_mem hy
  obtain ⟨hone, -, -⟩ := h.isFunction_iff.mp hf
  have hfun := h.not_functionStart he hm
  obtain ⟨hbefore, hbehind⟩ := notMem_of_count hone (a := a ++ m :: b) (b := c) (by simp [he]) hyp
  rw [List.forall_mem_append, List.forall_mem_cons] at hfun hbefore
  have hfunction : g.pending.function = ⟨a.length, a.length + 1 + b.length + 0, .once⟩ := by
    refine (h.part_pending (r := .function) (by decide)).trans ?_
    refine Pending.extent_of_split (r := .function) (by decide) he hm hyp ?_
      (fun w hw => ⟨hfun.1 w hw, hbefore.2.2 w hw⟩) hfun.2.1 (fun w hw => ⟨hfun.2.2 w hw, hbehind w hw⟩)
    rw [List.forall_mem_append, List.forall_mem_singleton]
    exact ⟨hbefore.1, hbefore.2.1⟩
  have hparameters : g.pending.parameters.start = (a ++ m :: b).length := by
    have heq := h.part_pending (r := .parameters) (by decide)
    change g.pending.parameters = _ at heq
    rw [heq]
    refine Pending.start_of_split (r := .parameters) (by decide) (s := g.start) (n := g.next) (t := g.text)
      (b := c) ?_ hyp ?_ hbehind
    · rw [← Passage.moments, he]
      simp
    · intro hx
      obtain ⟨n, -, -, hc, -⟩ := exists_due (g := g) (by simp [he]) hyp
      obtain ⟨n, -, -, hc', -⟩ := exists_due (g := g) (by simp [he]) hx
      rw [hc] at hc'
      exact absurd hc' (by decide)
  rw [hfunction, hparameters, List.length_append, List.length_cons]
  constructor
  · show (a.length : Int) < a.length + 1 + b.length + 0
    omega
  · show (a.length : Int) + 1 + b.length + 0 = _
    push_cast
    omega

/-- The block of a function goes before its body, and the body is whole. Where no parenthesis was open
at first, the parameter list is whole too; behind a declarator, it starts where that ends. -/
structure LaidOut (g : Passage) : Prop where
  block : g.pending.blockStart ≤ g.pending.blockStop
  block_le : g.pending.blockStop ≤ g.pending.body.start
  body_lt : g.pending.body.start < g.pending.body.stop
  body_stop : g.pending.body.stop = g.pending.size
  function_le : g.pending.function.stop ≤ g.pending.body.start
  parameters_le : g.pending.parameters.stop ≤ g.pending.body.start
  body_text : ∃ inside, g.pending.extentText g.pending.body = .char '{' :: (inside ++ [Sym.char '}'])
  parameters_text : g.start.parens = 0 → ∃ inside,
    g.pending.extentText g.pending.parameters = .char '(' :: (inside ++ [Sym.char ')'])
  function_stop : g.Precedes .functionStart .parametersStart →
    g.pending.function.start < g.pending.function.stop ∧
      g.pending.function.stop = g.pending.parameters.start

theorem Sound.laidOut (h : g.Sound full) (hf : g.pending.isFunction = true) : g.LaidOut := by
  obtain ⟨a, m, b, z, hbody⟩ := h.exists_body hf
  have heq := hbody.body_eq h hf
  obtain ⟨hblock, hblockStop⟩ := hbody.blockStop_le h
  have hfunction := hbody.within h (r := .function) (by decide) (.inl rfl) (.inr (.inl rfl))
  have hparameters := hbody.within h (r := .parameters) (by decide) (.inr (.inl rfl)) (.inr (.inr rfl))
  have hsize := hbody.size_pending
  constructor
  case block => exact hblock
  case block_le =>
    rw [heq]
    exact hblockStop
  case body_lt =>
    rw [heq]
    show (a.length : Int) < a.length + 1 + b.length + 1
    omega
  case body_stop =>
    rw [heq, hsize]
    push_cast
    rfl
  case function_le =>
    rw [heq]
    exact hfunction.stop_le
  case parameters_le =>
    rw [heq]
    exact hparameters.stop_le
  case body_text =>
    refine ⟨b.map (·.sym), Pending.extentText_of_append (a := a.map (·.sym)) (c := []) ?_ ?_ ?_⟩
    · rw [hbody.text, List.append_nil]
    · simp [heq]
    · simp [heq]
      omega
  case parameters_text => exact hbody.parameters_text h hf
  case function_stop => exact h.function_stop hf

end Passage

/-- Whatever the text and the capacity, the passages between two flushes make up all that is read, each
flush hands one of them over, and every passage that is taken for a function is laid out as one. -/
theorem functions_laidOut {capacity : Int} (hc : 0 < capacity) (t : Text) :
    let gs := passages (fun l => capacity ≤ l) {} [] {} t
    gs.flatMap Passage.moments = ({} : Scanner).moments t ∧
      (∀ p, .flush p ∈ events capacity t ↔ ∃ g ∈ gs, g.pending = p) ∧
      ∀ g ∈ gs, g.pending.fileComment = false → g.pending.isFunction = true → g.LaidOut := by
  intro gs
  have hdivides : Divides (fun l => capacity ≤ l) {} t gs := divides_passages _ _ t
  refine ⟨hdivides.moments_eq, fun p => flush_mem_events_iff hc, fun g hg _ hf => ?_⟩
  exact (hdivides.sound Scanner.valid_initial g hg).laidOut hf

/-- A function behind a declaration that did not fit. -/
theorem functions_laidOut_behind_full :
    let t := Text.ofString "extern int a; f(x) \x7b\x7d"
    let g : Passage :=
      ⟨{ lineStart := false, fileStart := false }, Text.ofString " f(x) \x7b\x7d", none, []⟩
    g ∈ passages (fun l => (12 : Int) ≤ l) {} [] {} t ∧
      (g.pending.isFunction = true ∧ g.start.parens = 0 ∧
        g.Precedes .functionStart .parametersStart) ∧ g.LaidOut := by
  intro t g
  have hg : g ∈ passages (fun l => (12 : Int) ≤ l) {} [] {} t := by decide +kernel
  have hf : g.pending.isFunction = true := by decide +kernel
  have hp : g.Precedes .functionStart .parametersStart :=
    ⟨g.moments.take 1, g.start.moment (some (.char '(')) (.char 'f'), g.moments.drop 2,
      by decide +kernel, by decide +kernel, by decide +kernel⟩
  exact ⟨hg, ⟨hf, rfl, hp⟩, (functions_laidOut (by decide) t).2.2 g hg (by decide +kernel) hf⟩

end DocBlock
