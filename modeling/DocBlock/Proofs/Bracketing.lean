import Mathlib
import DocBlock.Proofs.History

/-! Markers that open and close the same thing take turns. So while a text is read, the description starts
with the pending text, and neither it nor the body is closed a second time before a flush. -/

namespace DocBlock

open Scanner (Moment)

/-- Two kinds of markers, one that opens and one that closes what is in progress while `isOpen` holds. -/
structure Bracket where
  opening : Marker
  closings : List Marker
  isOpen : Scanner → Bool

namespace Bracket

/-- A comment outside bodies. -/
def description : Bracket where
  opening := .descriptionStart
  closings := [.descriptionEnd, .descriptionEndAfter]
  isOpen s := s.mode.isComment && s.braces = 0

/-- A comment in a body. -/
def comment : Bracket where
  opening := .commentStart
  closings := [.commentEnd]
  isOpen s := s.mode.isComment && s.braces ≠ 0

def body : Bracket where
  opening := .bodyStart
  closings := [.bodyEnd]
  isOpen s := s.braces ≠ 0

/-- The markers of the bracket take turns; the flag says whether a closing one is next. -/
def takeTurns (b : Bracket) : Bool → List Marker → Bool
  | _, [] => true
  | closingNext, x :: l =>
    if x = b.opening then !closingNext && b.takeTurns true l
    else if x ∈ b.closings then closingNext && b.takeTurns false l
    else b.takeTurns closingNext l

/-- The marker is one of the bracket. -/
def Has (b : Bracket) (x : Marker) : Prop := x = b.opening ∨ x ∈ b.closings

/-- What a symbol read in state `s` does to the bracket. -/
structure Follows (b : Bracket) (s : Scanner) (c : Sym) (n : Option Sym) : Prop where
  opens : b.opening ∈ (s.step c n).2 → b.isOpen s = false ∧ b.isOpen (s.step c n).1 = true
  closes : ∀ x ∈ b.closings, x ∈ (s.step c n).2 →
    b.isOpen s = true ∧ b.isOpen (s.step c n).1 = false ∧ ∀ y ∈ b.closings, y ∈ (s.step c n).2 → y = x
  keeps : (∀ x ∈ (s.step c n).2, ¬ b.Has x) → b.isOpen (s.step c n).1 = b.isOpen s

variable {b : Bracket} {s : Scanner} {c : Sym} {n : Option Sym} {l : List Marker} {x : Marker}

theorem takeTurns_append_of_not (h : ∀ x ∈ l, ¬ b.Has x) (closingNext : Bool) (rest : List Marker) :
    b.takeTurns closingNext (l ++ rest) = b.takeTurns closingNext rest := by
  induction l with
  | nil => rfl
  | cons x l ih =>
    rw [List.forall_mem_cons] at h
    obtain ⟨hx, hx'⟩ := not_or.mp h.1
    rw [List.cons_append, takeTurns, if_neg hx, if_neg hx']
    exact ih h.2

/-- Only the one marker of the bracket that a list has matters. -/
theorem takeTurns_append_of_unique (hn : l.Nodup) (hx : x ∈ l) (h : ∀ y ∈ l, b.Has y → y = x)
    (closingNext : Bool) (rest : List Marker) :
    b.takeTurns closingNext (l ++ rest) = b.takeTurns closingNext (x :: rest) := by
  obtain ⟨a, r, rfl⟩ := List.append_of_mem hx
  rw [List.nodup_append, List.nodup_cons] at hn
  obtain ⟨-, ⟨hr, -⟩, ha⟩ := hn
  have hbefore : ∀ y ∈ a, ¬ b.Has y := by
    intro y hy hb
    exact ha y hy x (by simp) (h y (by simp [hy]) hb)
  have hbehind : ∀ y ∈ r, ¬ b.Has y := by
    intro y hy hb
    exact hr (h y (by simp [hy]) hb ▸ hy)
  rw [List.append_assoc, takeTurns_append_of_not hbefore, List.cons_append, takeTurns, takeTurns,
    takeTurns_append_of_not hbehind, takeTurns_append_of_not hbehind, takeTurns_append_of_not hbehind]

namespace Follows

theorem unique_opening (h : b.Follows s c n) (ho : b.opening ∈ (s.step c n).2) :
    ∀ y ∈ (s.step c n).2, b.Has y → y = b.opening := by
  rintro y hy (rfl | hb)
  · rfl
  · have hopen := (h.closes y hb hy).1
    rw [(h.opens ho).1] at hopen
    contradiction

theorem unique_closing (h : b.Follows s c n) (hb : x ∈ b.closings) (hx : x ∈ (s.step c n).2) :
    ∀ y ∈ (s.step c n).2, b.Has y → y = x := by
  rintro y hy (rfl | hb')
  · exact (h.unique_opening hy x hx (.inr hb)).symm
  · exact (h.closes x hb hx).2.2 y hb' hy

/-- One symbol takes the bracket from its state before to its state behind. -/
theorem takeTurns_step (h : b.Follows s c n) (hne : b.opening ∉ b.closings) (rest : List Marker) :
    b.takeTurns (b.isOpen s) ((s.step c n).2 ++ rest) = b.takeTurns (b.isOpen (s.step c n).1) rest := by
  by_cases hhas : ∃ x ∈ (s.step c n).2, b.Has x
  · obtain ⟨x, hx, rfl | hb⟩ := hhas
    · obtain ⟨hs, hs'⟩ := h.opens hx
      rw [takeTurns_append_of_unique Scanner.nodup_markers hx (h.unique_opening hx), hs, hs', takeTurns]
      simp
    · obtain ⟨hs, hs', -⟩ := h.closes x hb hx
      have hxo : x ≠ b.opening := fun he => hne (he ▸ hb)
      rw [takeTurns_append_of_unique Scanner.nodup_markers hx (h.unique_closing hb hx), hs, hs', takeTurns]
      simp [hxo, hb]
  · have hnot : ∀ x ∈ (s.step c n).2, ¬ b.Has x := fun x hx hb => hhas ⟨x, hx, hb⟩
    rw [takeTurns_append_of_not hnot, h.keeps hnot]

end Follows

/-- The markers of a text take turns if those of every symbol follow the state. -/
theorem takeTurns_moments (hb : b.opening ∉ b.closings)
    (h : ∀ s c n, s.Steady → b.Follows s c n) (hs : s.Steady) (t : Text) :
    b.takeTurns (b.isOpen s) ((s.momentsTo n t).flatMap (·.markers)) = true := by
  induction t generalizing s with
  | nil => rfl
  | cons c t ih =>
    rw [Scanner.momentsTo_cons, List.flatMap_cons, Scanner.moment_markers,
      (h s c _ hs).takeTurns_step hb]
    exact ih hs.step

end Bracket

/-! Comments. They open and close in the same way in bodies and outside; only the markers differ. -/

namespace Scanner

variable {s : Scanner} {c : Sym} {n : Option Sym}

theorem isComment_of_opens (h : s.OpensComment c n) :
    s.mode.isComment = false ∧ (s.step c n).1.mode.isComment = true := by
  constructor
  · rcases h.1 with hm | hm
    · rw [hm]; rfl
    · rw [hm]; rfl
  · rw [step_mode, stepMode_of_opensComment h]
    exact enterComment_isComment

theorem isComment_of_closes (hs : s.Steady) (h : s.ClosesBlock c ∨ s.ClosesLine c) :
    s.mode.isComment = true ∧ (s.step c n).1.mode.isComment = false := by
  rw [step_mode]
  rcases h with h | h
  · have hm : s.mode.isComment = true := by rw [h.1]; rfl
    rw [stepMode_of_closesBlock h]
    rcases hs.resume_of_isComment hm with hr | hr
    · exact ⟨hm, by rw [hr]; rfl⟩
    · exact ⟨hm, by rw [hr]; rfl⟩
  · rw [stepMode_of_closesLine h, h.1]
    exact ⟨rfl, rfl⟩

theorem isComment_of_not (hs : s.Steady) (ho : ¬ s.OpensComment c n)
    (h : ¬ (s.ClosesBlock c ∨ s.ClosesLine c)) :
    (s.step c n).1.mode.isComment = s.mode.isComment := by
  rw [step_mode]
  by_cases hm : s.mode.isComment = true
  · rw [(stepMode_of_isComment hm (fun hb => h (.inl hb)) fun hl => h (.inr hl)).1]
  · rw [Bool.eq_false_iff.mpr hm, Bool.eq_false_iff]
    intro hc
    rcases (hs.of_isComment_stepMode hc).2 with h' | h'
    · exact ho h'
    · exact hm h'

end Scanner

namespace Bracket

variable {b : Bracket} {s : Scanner} {c : Sym} {n : Option Sym}

/-- Markers that are due where comments open and close at the depths `deep`. -/
theorem follows_of_comment (hs : s.Steady) (deep : Int → Bool)
    (hopen : ∀ s, b.isOpen s = (s.mode.isComment && deep s.braces))
    (hstart : b.opening ∈ (s.step c n).2 ↔ deep s.braces = true ∧ s.OpensComment c n)
    (hend : (∃ x ∈ b.closings, x ∈ (s.step c n).2) ↔
      deep s.braces = true ∧ (s.ClosesBlock c ∨ s.ClosesLine c))
    (hone : ∀ x ∈ b.closings, x ∈ (s.step c n).2 → ∀ y ∈ b.closings, y ∈ (s.step c n).2 → y = x) :
    b.Follows s c n where
  opens h := by
    obtain ⟨hd, ho⟩ := hstart.mp h
    obtain ⟨hm, hm'⟩ := Scanner.isComment_of_opens ho
    have hb := (hs.of_isComment_stepMode hm').1
    rw [hopen, hopen, hm, hm', Scanner.step_braces, hb, hd]
    exact ⟨rfl, rfl⟩
  closes x hx h := by
    obtain ⟨hd, hc⟩ := hend.mp ⟨x, hx, h⟩
    obtain ⟨hm, hm'⟩ := Scanner.isComment_of_closes (n := n) hs hc
    rw [hopen, hopen, hm, hm', hd]
    exact ⟨rfl, rfl, hone x hx h⟩
  keeps h := by
    have ho : deep s.braces = true → ¬ s.OpensComment c n :=
      fun hd ho => h _ (hstart.mpr ⟨hd, ho⟩) (.inl rfl)
    have hc : deep s.braces = true → ¬ (s.ClosesBlock c ∨ s.ClosesLine c) := by
      intro hd hc
      obtain ⟨x, hx, hmem⟩ := hend.mpr ⟨hd, hc⟩
      exact h x hmem (.inr hx)
    -- a comment that is in progress behind the symbol is as deep as it was before
    have hdeep : (s.step c n).1.mode.isComment = true → (s.step c n).1.braces = s.braces :=
      fun hm => (hs.of_isComment_stepMode hm).1
    rw [hopen, hopen]
    cases hd : deep s.braces with
    | true =>
      have hm := Scanner.isComment_of_not (n := n) hs (ho hd) (hc hd)
      rw [← hm]
      cases hm' : (s.step c n).1.mode.isComment with
      | true => rw [hdeep hm', hd]
      | false => rfl
    | false =>
      cases hm' : (s.step c n).1.mode.isComment with
      | true => rw [hdeep hm', hd, Bool.and_false, Bool.and_false]
      | false => rw [Bool.and_false, Bool.false_and]

theorem follows_description (hs : s.Steady) : description.Follows s c n := by
  apply follows_of_comment hs (fun k => k = 0) (fun _ => rfl)
  · rw [decide_eq_true_iff]
    exact Scanner.mem_step_iff
  · simp only [description, List.mem_cons, List.not_mem_nil, or_false, exists_eq_or_imp,
      exists_eq_left, Scanner.mem_step_iff, Scanner.Due, decide_eq_true_iff]
    tauto
  · simp only [description, List.mem_cons, List.not_mem_nil, or_false, Scanner.mem_step_iff]
    rintro x (rfl | rfl) ⟨-, hx, -⟩ y (rfl | rfl) ⟨-, hy, -⟩
    · rfl
    · rw [hx] at hy; contradiction
    · rw [hx] at hy; contradiction
    · rfl

theorem follows_comment (hs : s.Steady) : comment.Follows s c n := by
  apply follows_of_comment hs (fun k => k ≠ 0) (fun _ => rfl)
  · rw [decide_eq_true_iff]
    exact Scanner.mem_step_iff
  · simp only [comment, List.mem_singleton, exists_eq_left, Scanner.mem_step_iff, Scanner.Due,
      decide_eq_true_iff]
  · simp only [comment, List.mem_singleton]
    rintro x rfl - y rfl -
    rfl

/-! Bodies. -/

theorem follows_body (hs : s.Steady) : body.Follows s c n where
  opens h := by
    obtain ⟨hb, hm, rfl⟩ := Scanner.mem_step_iff.mp h
    simp [body, hb, Scanner.stepMode, hm, Scanner.stepNormal]
  closes x hx h := by
    obtain rfl := List.mem_singleton.mp hx
    obtain ⟨hb, hm, rfl⟩ := Scanner.mem_step_iff.mp h
    simp [body, hb, Scanner.stepMode, hm, Scanner.stepNormal, Scanner.closeBrace]
  keeps h := by
    have hstart : .bodyStart ∉ (s.step c n).2 := fun hm => h _ hm (.inl rfl)
    have hend : .bodyEnd ∉ (s.step c n).2 := fun hm => h _ hm (.inr (List.mem_singleton_self _))
    have hnonneg := hs.braces_nonneg
    apply decide_eq_decide.mpr
    by_cases hb : s.braces = 0
    · rw [Scanner.step_braces_zero hb hstart, hb]
    · have hpos := Scanner.step_braces_pos (by omega) hend
      exact ⟨fun _ => hb, fun _ => hpos.ne'⟩

/-- In every text, the markers of each bracket take turns. -/
theorem takeTurns_text (hb : b ∈ [description, comment, body]) (t : Text) :
    b.takeTurns false ((({} : Scanner).moments t).flatMap (·.markers)) = true := by
  have hs : ({} : Scanner).Steady := Scanner.valid_initial.toSteady
  rw [← Scanner.momentsTo_none]
  simp only [List.mem_cons, List.not_mem_nil, or_false] at hb
  rcases hb with rfl | rfl | rfl
  · exact takeTurns_moments (by decide) (fun _ _ _ => follows_description) hs t
  · exact takeTurns_moments (by decide) (fun _ _ _ => follows_comment) hs t
  · exact takeTurns_moments (by decide) (fun _ _ _ => follows_body) hs t

end Bracket

/-! Neighbours. -/

namespace Marker

/-- Every `x` in the list stands directly behind a `y`. -/
def Behind (x y : Marker) (l : List Marker) : Prop := ∀ a r, l = a ++ x :: r → ∃ a', a = a' ++ [y]

theorem Behind.of_append {x y : Marker} {l r : List Marker} (h : Behind x y (l ++ r)) : Behind x y l := by
  rintro a b rfl
  exact h a (b ++ r) (by simp)

/-- Every `x` in the list stands directly before a `y`. -/
def Before (x y : Marker) (l : List Marker) : Prop := ∀ a r, l = a ++ x :: r → ∃ r', r = y :: r'

end Marker

namespace Scanner

variable {s : Scanner} {c : Sym} {n : Option Sym}

/-- The two parts around a marker of a symbol. -/
theorem split_unique {a r u v : List Marker} {x : Marker} (h : (s.step c n).2 = a ++ x :: r)
    (h' : (s.step c n).2 = u ++ x :: v) : a = u ∧ r = v := by
  have hn : (u ++ x :: v).Nodup := h' ▸ nodup_markers
  rw [List.nodup_append, List.nodup_cons] at hn
  obtain ⟨-, ⟨hv, -⟩, hu⟩ := hn
  have hxu : x ∉ u := fun hx => hu x hx x (by simp) rfl
  obtain ⟨ha, -, hr⟩ := (List.append_cons_inj_of_notMem hxu hv).mp (h'.symm.trans h)
  exact ⟨ha.symm, hr.symm⟩

theorem descriptionStart_behind_flush : Marker.Behind .descriptionStart .flush (s.step c n).2 := by
  intro a r h
  obtain ⟨hb, ho⟩ := mem_step_iff.mp (h ▸ List.mem_append_cons_self : .descriptionStart ∈ (s.step c n).2)
  have hmarkers : (s.step c n).2 =
      [.flush] ++ .descriptionStart :: s.headMarkers c (s.stepMode c n).1.mode := by
    rw [step_markers, stepMode_of_opensComment ho]
    simp [enterComment, hb]
  exact ⟨[], (split_unique h hmarkers).1⟩

theorem bodyEnd_before_flushAfter : Marker.Before .bodyEnd .flushAfter (s.step c n).2 := by
  intro a r h
  obtain ⟨hb, hm, rfl⟩ := mem_step_iff.mp (h ▸ List.mem_append_cons_self : .bodyEnd ∈ (s.step c n).2)
  have hmarkers : ∃ v, (s.step '}' n).2 = [] ++ .bodyEnd :: .flushAfter :: v := by
    rw [step_markers]
    simp [stepMode, hm, stepNormal, closeBrace, hb]
  obtain ⟨v, hv⟩ := hmarkers
  exact ⟨v, (split_unique h hv).2⟩

end Scanner

/-! What the order of the markers means for the pending text. -/

namespace Pending

variable {p : Pending} {x : Marker} {l rest : List Marker} {closingNext : Bool}

/-- What is pending after the markers of a list. -/
def afterMarkers (p : Pending) (l : List Marker) : Pending := (l.map Marker.deed).foldl perform p

theorem afterMarkers_concat (p : Pending) (l : List Marker) (x : Marker) :
    p.afterMarkers (l ++ [x]) = (p.afterMarkers l).perform x.deed := by
  simp [afterMarkers]

/-- The description starts with the text and is closed at most once, and not yet if its end is next. -/
structure Described (p : Pending) (closingNext : Bool) : Prop where
  start : p.description.start = 0
  unclosed : closingNext = true → p.description.closings = .none
  once : p.description.closings ≠ .repeated

theorem described_empty : Described {} closingNext where
  start := rfl
  unclosed _ := rfl
  once := by decide

theorem Described.push (h : p.Described closingNext) (c : Sym) : (p.push c).Described closingNext :=
  ⟨h.start, h.unclosed, h.once⟩

/-- A marker resets a part, closes it, opens it, or leaves it alone. -/
theorem part_perform (p : Pending) (x : Marker) (r : Part) :
    (p.perform x.deed).part r =
      if r.forgets x.deed then {}
      else if r.closes x.deed then (p.part r).closeAt (p.size + x.reach)
      else if x = r.opening then (p.part r).openAt p.size
      else p.part r := by
  by_cases hx : x = .flush
  · subst hx
    cases r <;> rfl
  · rw [Marker.deed_of_ne hx]
    exact part_mark p x r

theorem closings_perform (p : Pending) (x : Marker) (r : Part) :
    ((p.perform x.deed).part r).closings =
      if r.forgets x.deed then .none
      else if r.closes x.deed then (p.part r).closings.next
      else (p.part r).closings := by
  rw [part_perform]
  split_ifs <;> rfl

theorem description_perform_of_not (hx : ¬ Bracket.description.Has x) :
    (p.perform x.deed).description = {} ∨ (p.perform x.deed).description = p.description := by
  obtain ⟨hopen, hclose⟩ := not_or.mp hx
  have hcloses : ¬ Part.description.closes x.deed = true := by
    cases x
    case descriptionEnd | descriptionEndAfter => simp [Bracket.description] at hclose
    all_goals exact Bool.false_ne_true
  have hpart := part_perform p x .description
  split_ifs at hpart with hforgets hopens
  · exact .inl hpart
  · exact absurd hopens hopen
  · exact .inr hpart

/-- A marker whose turn it is keeps the description in order. -/
theorem Described.perform (h : p.Described closingNext)
    (ht : Bracket.description.takeTurns closingNext (x :: l) = true)
    (hx : x = .descriptionStart → p = {}) :
    ∃ closingNext', Bracket.description.takeTurns closingNext' l = true ∧
      (p.perform x.deed).Described closingNext' := by
  rw [Bracket.takeTurns] at ht
  split_ifs at ht with hopen hclose
  · rw [hx hopen, hopen]
    exact ⟨true, (Bool.and_eq_true_iff.mp ht).2, rfl, fun _ => rfl, by decide⟩
  · obtain ⟨hnext, ht⟩ := Bool.and_eq_true_iff.mp ht
    have hclosed : (p.perform x.deed).description = p.description.closeAt (p.size + x.reach) := by
      have hpart := part_perform p x .description
      rcases List.mem_pair.mp hclose with rfl | rfl
      · exact hpart
      · exact hpart
    refine ⟨false, ht, ?_, by simp, ?_⟩
    · rw [hclosed]
      exact h.start
    · rw [hclosed]
      simp [Extent.closeAt, h.unclosed hnext, Closings.next]
  · refine ⟨closingNext, ht, ?_⟩
    rcases description_perform_of_not (p := p) (not_or.mpr ⟨hopen, hclose⟩) with hd | hd
    · constructor <;> simp [hd]
    · constructor <;> rw [hd]
      · exact h.start
      · exact h.unclosed
      · exact h.once

/-- The markers of a symbol keep the description in order if they take turns with those behind. -/
theorem Described.afterMarkers (h : p.Described closingNext)
    (ht : Bracket.description.takeTurns closingNext (l ++ rest) = true)
    (hl : Marker.Behind .descriptionStart .flush l) :
    ∃ closingNext', Bracket.description.takeTurns closingNext' rest = true ∧
      (p.afterMarkers l).Described closingNext' := by
  induction l using List.reverseRecOn generalizing rest with
  | nil => exact ⟨closingNext, ht, h⟩
  | append_singleton l x ih =>
    rw [List.append_assoc] at ht
    obtain ⟨_, ht, hd⟩ := ih ht hl.of_append
    rw [afterMarkers_concat]
    apply hd.perform ht
    rintro rfl
    obtain ⟨a, rfl⟩ := hl l [] rfl
    rw [afterMarkers_concat]
    rfl

theorem body_perform_of_ne (hx : x ≠ .bodyEnd) :
    (p.perform x.deed).body.closings = .none ∨
      (p.perform x.deed).body.closings = p.body.closings := by
  have hcloses : ¬ Part.body.closes x.deed = true := by
    cases x
    case bodyEnd => contradiction
    all_goals exact Bool.false_ne_true
  have hclosings := closings_perform p x .body
  split_ifs at hclosings
  · exact .inl hclosings
  · exact .inr hclosings

/-- If no body was closed before the markers of a symbol, one is closed at most once by them. -/
theorem body_afterMarkers (h : p.body.closings = .none) (hl : l.Nodup) :
    (.bodyEnd ∉ l → (p.afterMarkers l).body.closings = .none) ∧
      (p.afterMarkers l).body.closings ≠ .repeated := by
  induction l using List.reverseRecOn with
  | nil =>
    constructor
    · intro _
      exact h
    · rw [show p.afterMarkers [] = p from rfl, h]
      decide
  | append_singleton l x ih =>
    rw [← List.concat_eq_append, List.nodup_concat] at hl
    obtain ⟨hnone, honce⟩ := ih hl.2
    rw [afterMarkers_concat]
    by_cases hx : x = .bodyEnd
    · subst hx
      have hclosed : ((p.afterMarkers l).perform Marker.bodyEnd.deed).body.closings =
          (p.afterMarkers l).body.closings.next := closings_perform (p.afterMarkers l) .bodyEnd .body
      rw [hclosed, hnone hl.1]
      simp [Closings.next]
    · rcases body_perform_of_ne (p := p.afterMarkers l) hx with hc | hc
      · simp [hc]
      · rw [hc]
        exact ⟨fun hend => hnone fun hm => hend (List.mem_append_left _ hm), honce⟩

end Pending

/-! Every moment of a run. -/

namespace Pass

/-- What is pending while a symbol is read: before, behind each of its markers, and once it is stored. -/
def stagesOf (p : Pass) (c : Sym) (n : Option Sym) : List Pending :=
  let markers := (p.scanner.step c n).2
  markers.inits.map (fun l => (l.foldl Collector.apply p.collector).pending) ++
    [(markers.foldl Collector.apply p.collector).pending.push c]

/-- What is pending at each moment while a text is read, and behind it before and after the last flush. -/
def stages (capacity : Int) (p : Pass) : Text → List Pending
  | [] => [p.collector.pending, p.collector.flush.pending]
  | c :: rest => p.stagesOf c rest.head? ++ stages capacity (p.step capacity c rest.head?) rest

end Pass

/-! Every text that is flushed was pending at one of these moments. -/

namespace Collector

variable {k : Collector} {q : Pending} {markers : List Marker}

theorem mem_events_flush (h : .flush q ∈ k.flush.events.toList) :
    .flush q ∈ k.events.toList ∨ q = k.pending := by
  rw [events_flush] at h
  rcases List.mem_append.mp h with h | h
  · exact .inl h
  · split_ifs at h
    · contradiction
    · exact .inr (Event.flush.inj (List.mem_singleton.mp h))

theorem mem_events_apply {x : Marker} (h : .flush q ∈ (k.apply x).events.toList) :
    .flush q ∈ k.events.toList ∨ q = k.pending := by
  by_cases hx : x = .flush
  · subst hx
    exact mem_events_flush h
  · rw [(apply_of_ne_flush hx k).2] at h
    rcases List.mem_append.mp h with h | h
    · exact .inl h
    · cases x <;> simp [Marker.events] at h

theorem mem_events_foldl_apply (h : .flush q ∈ (markers.foldl apply k).events.toList) :
    .flush q ∈ k.events.toList ∨ ∃ l, l <+: markers ∧ q = (l.foldl apply k).pending := by
  induction markers using List.reverseRecOn with
  | nil => exact .inl h
  | append_singleton l x ih =>
    rw [List.foldl_append] at h
    rcases mem_events_apply h with h | h
    · rcases ih h with h | ⟨a, ha, hq⟩
      · exact .inl h
      · exact .inr ⟨a, ha.trans (List.prefix_append l [x]), hq⟩
    · exact .inr ⟨l, List.prefix_append l [x], h⟩

end Collector

namespace Pass

variable {p : Pass} {capacity : Int} {c : Sym} {n : Option Sym} {q : Pending}

/-- A symbol is fed to the collector as it is, but for a brace that closes nothing being reported. -/
theorem exists_feed (p : Pass) (capacity : Int) (c : Sym) (n : Option Sym) :
    ∃ k : Collector, (p.step capacity c n).collector = k.feed capacity c (p.scanner.step c n).2 ∧
      k.pending = p.collector.pending ∧
      ∀ q, .flush q ∈ k.events.toList → .flush q ∈ p.collector.events.toList := by
  refine ⟨_, rfl, ?_, fun q h => ?_⟩
  · split_ifs <;> rfl
  · split_ifs at h
    · simpa [Collector.report] using h
    · exact h

theorem mem_events_step (h : .flush q ∈ (p.step capacity c n).collector.events.toList) :
    .flush q ∈ p.collector.events.toList ∨ q ∈ p.stagesOf c n := by
  obtain ⟨k, hk, hpending, hevents⟩ := p.exists_feed capacity c n
  have hsame (l : List Marker) :
      (l.foldl Collector.apply k).pending = (l.foldl Collector.apply p.collector).pending := by
    rw [Collector.pending_foldl_apply, Collector.pending_foldl_apply, hpending]
  rw [hk, Collector.feed, (Collector.events_store _ _ _ _).2] at h
  simp only [List.mem_append] at h
  rcases h with (h | h) | h
  · rcases Collector.mem_events_foldl_apply h with h | ⟨l, hl, rfl⟩
    · exact .inl (hevents q h)
    · apply Or.inr
      apply List.mem_append_left
      exact List.mem_map.mpr ⟨l, (List.mem_inits _ _).mpr hl, (hsame l).symm⟩
  · split_ifs at h <;> simp at h
  · split_ifs at h
    · rw [Event.flush.inj (List.mem_singleton.mp h), hsame]
      exact .inr (List.mem_append_right _ (List.mem_singleton_self _))
    · contradiction

theorem mem_events_run {t : Text} (h : .flush q ∈ (p.run capacity t).collector.flush.events.toList) :
    .flush q ∈ p.collector.events.toList ∨ q ∈ p.stages capacity t := by
  induction t generalizing p with
  | nil =>
    rcases Collector.mem_events_flush h with h | h
    · exact .inl h
    · exact .inr (List.mem_cons.mpr (.inl h))
  | cons c t ih =>
    rcases ih h with h | h
    · rcases mem_events_step h with h | h
      · exact .inl h
      · exact .inr (List.mem_append_left _ h)
    · exact .inr (List.mem_append_right _ h)

end Pass

/-- The description starts with the pending text, and neither it nor the body is closed a second time. -/
structure Pending.Orderly (p : Pending) : Prop where
  description_start : p.description.start = 0
  description_once : p.description.isRepeated = false
  body_once : p.body.isRepeated = false

theorem Pending.orderly_of_described {p : Pending} {closingNext : Bool} (h : p.Described closingNext)
    (hb : p.body.closings ≠ .repeated) : p.Orderly where
  description_start := h.start
  description_once := decide_eq_false h.once
  body_once := decide_eq_false hb

namespace Pass

variable {p : Pass} {capacity : Int} {c : Sym} {n : Option Sym} {rest : List Marker} {closingNext : Bool}

theorem pending_step (p : Pass) (capacity : Int) (c : Sym) (n : Option Sym) :
    let markers := (p.scanner.step c n).2
    let q := (p.collector.pending.afterMarkers markers).push c
    (p.step capacity c n).collector.pending =
      if capacity ≤ q.size ∨ .flushAfter ∈ markers then {} else q := by
  obtain ⟨k, hk, hpending, -⟩ := p.exists_feed capacity c n
  rw [hk, Collector.pending_feed, hpending]
  rfl

/-- While a symbol is read, what is pending stays in order, and the markers behind can go on from there. -/
theorem orderly_stagesOf (hd : p.collector.pending.Described closingNext)
    (hb : p.collector.pending.body.closings = .none)
    (ht : Bracket.description.takeTurns closingNext ((p.scanner.step c n).2 ++ rest) = true) :
    ∀ q ∈ p.stagesOf c n, q.Orderly := by
  have hstage : ∀ l, l <+: (p.scanner.step c n).2 → (p.collector.pending.afterMarkers l).Orderly := by
    rintro l ⟨r, hr⟩
    have hbehind := Scanner.descriptionStart_behind_flush (s := p.scanner) (c := c) (n := n)
    have hnodup := Scanner.nodup_markers (s := p.scanner) (c := c) (n := n)
    rw [← hr] at ht hbehind hnodup
    rw [List.append_assoc] at ht
    obtain ⟨_, -, hd⟩ := hd.afterMarkers ht hbehind.of_append
    exact Pending.orderly_of_described hd (Pending.body_afterMarkers hb hnodup.of_append_left).2
  intro q hq
  rcases List.mem_append.mp hq with hq | hq
  · obtain ⟨l, hl, rfl⟩ := List.mem_map.mp hq
    rw [Collector.pending_foldl_apply]
    exact hstage l ((List.mem_inits _ _).mp hl)
  · rw [List.mem_singleton.mp hq, Collector.pending_foldl_apply]
    obtain ⟨h₁, h₂, h₃⟩ := hstage _ (List.prefix_refl _)
    exact ⟨h₁, h₂, h₃⟩

theorem described_step (capacity : Int) (hd : p.collector.pending.Described closingNext)
    (ht : Bracket.description.takeTurns closingNext ((p.scanner.step c n).2 ++ rest) = true) :
    ∃ closingNext', Bracket.description.takeTurns closingNext' rest = true ∧
      (p.step capacity c n).collector.pending.Described closingNext' := by
  obtain ⟨closingNext', ht, hd⟩ := hd.afterMarkers ht Scanner.descriptionStart_behind_flush
  refine ⟨closingNext', ht, ?_⟩
  rw [pending_step]
  split
  · exact Pending.described_empty
  · exact hd.push c

theorem body_step (hb : p.collector.pending.body.closings = .none) :
    (p.step capacity c n).collector.pending.body.closings = .none := by
  rw [pending_step]
  split
  · rfl
  · next hkept =>
    have hend : .bodyEnd ∉ (p.scanner.step c n).2 :=
      fun h => hkept (.inr (Scanner.flushAfter_of_bodyEnd h))
    exact (Pending.body_afterMarkers hb Scanner.nodup_markers).1 hend

/-- What is pending is in order at every moment if it is at the start and the markers take turns. -/
theorem orderly_stages {t : Text} (hd : p.collector.pending.Described closingNext)
    (hb : p.collector.pending.body.closings = .none)
    (ht : Bracket.description.takeTurns closingNext
      ((p.scanner.momentsTo none t).flatMap (·.markers)) = true) :
    ∀ q ∈ p.stages capacity t, q.Orderly := by
  induction t generalizing p closingNext with
  | nil =>
    intro q hq
    rcases List.mem_pair.mp hq with rfl | rfl
    · exact Pending.orderly_of_described hd (by rw [hb]; decide)
    · exact ⟨rfl, rfl, rfl⟩
  | cons c t ih =>
    rw [Scanner.momentsTo_cons, List.flatMap_cons, Scanner.moment_markers, Option.or_none] at ht
    intro q hq
    rcases List.mem_append.mp hq with hq | hq
    · exact orderly_stagesOf hd hb ht q hq
    · obtain ⟨closingNext', ht', hd'⟩ := described_step capacity hd ht
      exact ih hd' (body_step hb) ht' q hq

end Pass

/-- In every text, the markers that open and close a description, a comment in a body, and a body take
turns; a description starts directly behind a flush, and a flush is due directly behind the end of a body.
So, whatever the capacity, what is pending is in order at every moment, and with it all that is flushed. -/
theorem markers_bracketed (t : Text) :
    let ms := ({} : Scanner).moments t
    (∀ b ∈ [Bracket.description, .comment, .body], b.takeTurns false (ms.flatMap (·.markers)) = true) ∧
      (∀ m ∈ ms, Marker.Behind .descriptionStart .flush m.markers ∧
        Marker.Before .bodyEnd .flushAfter m.markers) ∧
      ∀ capacity : Int, (∀ q ∈ ({} : Pass).stages capacity t, q.Orderly) ∧
        ∀ q, .flush q ∈ events capacity t → q ∈ ({} : Pass).stages capacity t := by
  refine ⟨fun b hb => Bracket.takeTurns_text hb t, ?_, ?_⟩
  · intro m hm
    rw [← Scanner.momentsTo_none] at hm
    obtain ⟨n, hn⟩ := Scanner.exists_step_of_mem hm
    rw [hn]
    exact ⟨Scanner.descriptionStart_behind_flush, Scanner.bodyEnd_before_flushAfter⟩
  · intro capacity
    constructor
    · apply Pass.orderly_stages Pending.described_empty rfl
      rw [Scanner.momentsTo_none]
      exact Bracket.takeTurns_text (by simp) t
    · intro q hq
      exact (Pass.mem_events_run hq).resolve_left (by simp)

/-- The capacity is reached between the parameters of a function and its body. -/
theorem markers_bracketed_cut :
    let t := Text.ofString "/*a*/int f(){/*b*/}"
    let ms := ({} : Scanner).moments t
    let stages := ({} : Pass).stages 7 t
    ((∃ m ∈ ms, .descriptionStart ∈ m.markers) ∧ (∃ m ∈ ms, .bodyEnd ∈ m.markers) ∧
        (∃ q ∈ stages, q.description.isClosedOnce = true) ∧
        (∃ q ∈ stages, q.body.isClosedOnce = true) ∧ ∃ q ∈ stages, .flush q ∈ events 7 t) ∧
      (∀ b ∈ [Bracket.description, .comment, .body], b.takeTurns false (ms.flatMap (·.markers)) = true) ∧
      (∀ m ∈ ms, Marker.Behind .descriptionStart .flush m.markers ∧
        Marker.Before .bodyEnd .flushAfter m.markers) ∧
      (∀ q ∈ stages, q.Orderly) ∧ ∀ q, .flush q ∈ events 7 t → q ∈ stages := by
  intro t ms stages
  obtain ⟨hturns, hmarkers, hstages⟩ := markers_bracketed t
  exact ⟨by decide +kernel, hturns, hmarkers, hstages 7⟩

end DocBlock
