import Mathlib
import DocBlock.Proofs.Boundary
import DocBlock.Proofs.Heading
import DocBlock.Proofs.Prototype

/-! A file is headed once. The first symbol that is not blank decides how, and the passage that holds it
reports it, whatever the capacity; before that only blanks are written. -/

namespace DocBlock

open Scanner (Moment)

/-- The event is a message only. -/
def Event.IsMessage (e : Event) : Prop := e = .strayBrace ∨ ∃ size, e = .full size

theorem Event.IsMessage.isHeading {e : Event} (h : e.IsMessage) : e.isHeading = false := by
  rcases h with rfl | ⟨size, rfl⟩ <;> rfl

theorem Event.IsMessage.written {e : Event} (h : e.IsMessage) (o : Options)
    (plate : Option Boilerplate.Reading) : e.written o plate = [] := by
  rcases h with rfl | ⟨size, rfl⟩ <;> rfl

namespace Scanner

variable {c : Sym} {n : Option Sym} {ws : Text}

/-- Nothing is marked at the symbol, and it is blank. -/
def Moment.IsQuiet (m : Moment) : Prop := m.markers = [] ∧ m.sym.isBlank = true

/-- The symbol has no part in how the file is headed. -/
def Moment.IsPlain (m : Moment) : Prop := .fileHeader ∉ m.markers ∧ .fileComment ∉ m.markers

theorem Moment.IsQuiet.isPlain {m : Moment} (h : m.IsQuiet) : m.IsPlain := by
  simp [IsPlain, h.1]

theorem isPlain_of_fileStart {s : Scanner} (h : s.fileStart = false) {t : Text} :
    ∀ m ∈ s.moments t, m.IsPlain := by
  intro m hm
  have hf := fileStart_of_mem h hm
  rw [← momentsTo_none] at hm
  obtain ⟨n, hn⟩ := exists_step_of_mem hm
  have hdue : ∀ x ∈ m.markers, m.before.Due m.sym n x := by
    intro x hx
    rw [hn] at hx
    exact mem_step_iff.mp hx
  constructor
  · intro hx
    exact absurd (hdue _ hx).1 (by simp [hf])
  · intro hx
    exact absurd (hdue _ hx).1 (by simp [hf])

theorem opensComment_initial :
    ({} : Scanner).OpensComment c n ↔
      c = .char '/' ∧ (n = some (.char '*') ∨ n = some (.char '/')) := by
  simp [OpensComment, opensComment]

/-- The first symbol that is not blank heads the file, one way or the other. -/
theorem step_heads (hc : c.isBlank = false) :
    (.fileComment ∈ (({} : Scanner).step c n).2 ↔ ({} : Scanner).OpensComment c n) ∧
      (.fileHeader ∈ (({} : Scanner).step c n).2 ↔ ¬ ({} : Scanner).OpensComment c n) := by
  rw [mem_step_iff, mem_step_iff, ← isComment_stepMode_initial]
  simp [Due, hc]

theorem isQuiet_of_blank (hws : ∀ x ∈ ws, x.isBlank = true) :
    ∀ m ∈ ({} : Scanner).momentsTo n ws, m.IsQuiet := by
  intro m hm
  refine ⟨(momentsTo_blank hws).2 m hm, hws _ ?_⟩
  rw [← map_sym_momentsTo (s := {}) (n := n) ws]
  exact List.mem_map_of_mem hm

/-- Around the first symbol that is not blank, nothing has a part in how the file is headed. -/
theorem moments_first (hws : ∀ x ∈ ws, x.isBlank = true) (hc : c.isBlank = false) (rest : Text) :
    ∃ a b, ({} : Scanner).moments (ws ++ c :: rest) = a ++ ({} : Scanner).moment rest.head? c :: b ∧
      (∀ m ∈ a, m.IsQuiet) ∧ ∀ m ∈ b, m.IsPlain := by
  refine ⟨({} : Scanner).momentsTo (some c) ws, (({} : Scanner).step c rest.head?).1.moments rest,
    ?_, isQuiet_of_blank hws, isPlain_of_fileStart (by simp [hc])⟩
  rw [moments_append, List.head?_cons, (momentsTo_blank hws).1, moments_cons]

namespace Moment

variable {m : Moment}

theorem IsQuiet.events (h : m.IsQuiet) : m.events = [] := by
  have hc : m.sym ≠ .char '}' := by
    intro hc
    have := h.2
    rw [hc] at this
    exact absurd this (by decide)
  have hm : m.marks = [] := by simp [marks, h.1]
  simp [Moment.events, isStrayBrace, hc, hm]

/-- A symbol reports messages, and behind them that it has the file headed, if so. -/
theorem exists_messages {s : Scanner} {t : Text} (hm : m ∈ s.momentsTo n t) :
    ∃ es, m.events = es ++ (if .fileHeader ∈ m.markers then [.header] else []) ∧
      ∀ e ∈ es, e.IsMessage := by
  refine ⟨_, events_eq hm, ?_⟩
  intro e he
  split at he
  · exact .inl (List.mem_singleton.mp he)
  · simp at he

theorem isMessage_of_mem_events {s : Scanner} {t : Text} (hm : m ∈ s.momentsTo n t)
    (h : .fileHeader ∉ m.markers) : ∀ e ∈ m.events, e.IsMessage := by
  obtain ⟨es, he, hes⟩ := exists_messages hm
  rw [he, if_neg h, List.append_nil]
  exact hes

end Moment

end Scanner

namespace Passage

variable {full : Nat → Bool} {g : Passage} (capacity : Int)

theorem Sound.fileComment_pending (h : g.Sound full) :
    g.pending.fileComment = true ↔ ∃ m ∈ g.moments, .fileComment ∈ m.markers := by
  rw [h.fileComment_iff, count_pos]

/-- What a passage reports before it is flushed. -/
theorem events_eq_concat (h : ∀ m ∈ g.moments, .fileHeader ∉ m.markers) :
    ∃ es, g.events capacity = es ++ [.flush g.pending] ∧ ∀ e ∈ es, e.IsMessage := by
  refine ⟨_, rfl, ?_⟩
  rw [List.forall_mem_append]
  constructor
  · intro e he
    obtain ⟨m, hm, he⟩ := List.mem_flatMap.mp he
    exact Moment.isMessage_of_mem_events hm (h m hm) e he
  · intro e he
    split at he
    · exact .inr ⟨_, List.mem_singleton.mp he⟩
    · simp at he

theorem Sound.isHeading_events (h : g.Sound full) (hm : ∀ m ∈ g.moments, m.IsPlain) :
    ∀ e ∈ g.events capacity, e.isHeading = false := by
  obtain ⟨es, he, hes⟩ := events_eq_concat capacity fun m h => (hm m h).1
  rw [he, List.forall_mem_append, List.forall_mem_singleton]
  refine ⟨fun e he => (hes e he).isHeading, ?_⟩
  show g.pending.fileComment = false
  rw [← Bool.not_eq_true, h.fileComment_pending]
  rintro ⟨m, hmem, hx⟩
  exact (hm m hmem).2 hx

/-- Blanks are written as they are, and not at all in prototype mode. -/
theorem Sound.written_quiet (h : g.Sound full) (hm : ∀ m ∈ g.moments, m.IsQuiet) (o : Options)
    (plate : Option Boilerplate.Reading) :
    (g.events capacity).flatMap (Event.written o plate) =
      if o.prototypesOnly then [] else g.text := by
  obtain ⟨es, he, hes⟩ := events_eq_concat capacity fun m h => (hm m h).isPlain.1
  have hmessages : es.flatMap (Event.written o plate) = [] :=
    List.flatMap_eq_nil_iff.mpr fun e he => (hes e he).written o plate
  have hcount (x : Marker) : g.count x = 0 := by
    rw [count, List.flatMap_eq_nil_iff.mpr fun m h => (hm m h).1]
    rfl
  have hcomment : ¬ g.pending.fileComment = true := by
    rw [h.fileComment_iff, hcount]
    decide
  have hfunction : ¬ g.pending.isFunction = true := by
    rw [h.isFunction_iff, HoldsFunction, hcount]
    simp
  have hflush : (Event.flush g.pending).written o plate = if o.prototypesOnly then [] else g.text := by
    rw [Event.written, Event.page, Pending.page, if_neg hcomment, if_neg hfunction, Pending.plainPage,
      text_pending]
    split <;> simp [Page.written, Edit.written]
  rw [he, List.flatMap_append, hmessages, List.flatMap_singleton, hflush, List.nil_append]

/-- The passage with the symbol that heads the file reports the heading once, and before it messages
only. -/
theorem Sound.exists_heading (h : g.Sound full) {x y : List Moment} {m : Moment}
    (hg : g.moments = x ++ m :: y) (hx : ∀ w ∈ x, w.IsQuiet) (hy : ∀ w ∈ y, w.IsPlain)
    (hm : .fileComment ∈ m.markers ↔ ¬ .fileHeader ∈ m.markers) :
    ∃ before e after, g.events capacity = before ++ e :: after ∧ e.isHeading = true ∧
      (∀ e ∈ before, e.IsMessage) ∧ (∀ e ∈ after, e.isHeading = false) ∧
      (e = .header ↔ .fileHeader ∈ m.markers) := by
  have hmem : m ∈ g.moments := by simp [hg]
  -- A header is reported with the symbol itself, a header comment when its passage is flushed.
  by_cases hheader : .fileHeader ∈ m.markers
  · obtain ⟨es, he, hes⟩ := Moment.exists_messages hmem
    rw [if_pos hheader] at he
    have hquiet : x.flatMap Moment.events = [] :=
      List.flatMap_eq_nil_iff.mpr fun w hw => (hx w hw).events
    have hcomment : g.pending.fileComment = false := by
      rw [← Bool.not_eq_true, h.fileComment_pending, hg]
      rintro ⟨w, hw, hc⟩
      rcases List.mem_append.mp hw with hw | hw
      · exact (hx w hw).isPlain.2 hc
      · rcases List.mem_cons.mp hw with rfl | hw
        · exact hm.mp hc hheader
        · exact (hy w hw).2 hc
    refine ⟨es, .header, y.flatMap Moment.events ++
      (if capacity ≤ g.text.length then [.full g.text.length] else []) ++ [.flush g.pending],
      ?_, rfl, hes, ?_, by simp [hheader]⟩
    · rw [Passage.events, hg, List.flatMap_append, List.flatMap_cons, hquiet, he]
      simp
    · intro e he
      rcases List.mem_append.mp he with he | he
      · rcases List.mem_append.mp he with he | he
        · obtain ⟨w, hw, he⟩ := List.mem_flatMap.mp he
          have hwg : w ∈ g.moments := by simp [hg, hw]
          exact (Moment.isMessage_of_mem_events hwg (hy w hw).1 e he).isHeading
        · split at he
          · rw [List.mem_singleton.mp he]
            rfl
          · simp at he
      · rw [List.mem_singleton.mp he]
        exact hcomment
  · have hnone : ∀ w ∈ g.moments, .fileHeader ∉ w.markers := by
      rw [hg, List.forall_mem_append, List.forall_mem_cons]
      exact ⟨fun w hw => (hx w hw).isPlain.1, hheader, fun w hw => (hy w hw).1⟩
    obtain ⟨es, he, hes⟩ := events_eq_concat capacity hnone
    refine ⟨es, .flush g.pending, [], he, ?_, hes, by simp, by simp [hheader]⟩
    exact h.fileComment_pending.mpr ⟨m, hmem, hm.mpr hheader⟩

/-- The same for all passages up to some place. -/
theorem written_quiet {gs : List Passage} (hs : ∀ g ∈ gs, g.Sound full)
    (hm : ∀ m ∈ gs.flatMap Passage.moments, m.IsQuiet) (o : Options)
    (plate : Option Boilerplate.Reading) :
    (gs.flatMap (Passage.events capacity)).flatMap (Event.written o plate) =
      if o.prototypesOnly then [] else (gs.flatMap Passage.moments).map (·.sym) := by
  induction gs with
  | nil => simp
  | cons g gs ih =>
    rw [List.forall_mem_cons] at hs
    rw [List.flatMap_cons, List.forall_mem_append] at hm
    rw [List.flatMap_cons, List.flatMap_append, hs.1.written_quiet capacity hm.1, ih hs.2 hm.2,
      List.flatMap_cons, List.map_append, map_sym_moments]
    split <;> rfl

theorem isHeading_flatMap_events {gs : List Passage} (hs : ∀ g ∈ gs, g.Sound full)
    (hm : ∀ m ∈ gs.flatMap Passage.moments, m.IsPlain) :
    ∀ e ∈ gs.flatMap (Passage.events capacity), e.isHeading = false := by
  intro e he
  obtain ⟨g, hg, he⟩ := List.mem_flatMap.mp he
  exact (hs g hg).isHeading_events capacity (fun m hm' => hm m (List.mem_flatMap.mpr ⟨g, hg, hm'⟩)) e he

end Passage

/-- Where a list of lists put together splits, one of them does. -/
theorem exists_of_flatMap_eq_cons {α β : Type} {f : α → List β} {l : List α} {a b : List β} {m : β}
    (h : l.flatMap f = a ++ m :: b) :
    ∃ front g back x y, l = front ++ g :: back ∧ f g = x ++ m :: y ∧
      a = front.flatMap f ++ x ∧ b = y ++ back.flatMap f := by
  induction l generalizing a with
  | nil => simp at h
  | cons g l ih =>
    rw [List.flatMap_cons] at h
    rcases List.append_eq_append_iff.mp h with ⟨w, rfl, hw⟩ | ⟨w, hg, hw⟩
    · obtain ⟨front, g', back, x, y, rfl, hg', rfl, rfl⟩ := ih hw
      exact ⟨g :: front, g', back, x, y, rfl, hg', by simp, rfl⟩
    · cases w with
      | nil =>
        obtain ⟨front, g', back, x, y, rfl, hg', ha, rfl⟩ := ih (a := []) hw.symm
        refine ⟨g :: front, g', back, x, y, rfl, hg', ?_, rfl⟩
        rw [List.flatMap_cons, List.append_assoc, ← ha]
        simpa using hg.symm
      | cons m' w =>
        obtain ⟨rfl, rfl⟩ := List.cons.inj hw
        exact ⟨[], g, l, a, w, rfl, hg, rfl, rfl⟩

theorem data_annotate_events {o : Options} {plate : Option Boilerplate.Reading} {t : Text}
    (h : (annotate o plate t).fault = none) :
    (annotate o plate t).data =
      (events o.bufferCapacity t).flatMap (Event.written o plate) := by
  rw [data_annotate h, pages, List.flatMap_map, List.flatMap_assoc]
  rfl

/-- A file is headed exactly once, as its first symbol that is not blank asks for, and only blanks are
written before. A blank file is not headed at all. -/
theorem annotate_headed_once {o : Options} {plate : Option Boilerplate.Reading} {t : Text}
    (h : (annotate o plate t).fault = none) :
    ((∀ c ∈ t, c.isBlank = true) →
      (∀ e ∈ events o.bufferCapacity t, e.isHeading = false) ∧
        (annotate o plate t).data = if o.prototypesOnly then [] else t) ∧
    ∀ ws c rest, t = ws ++ c :: rest → (∀ x ∈ ws, x.isBlank = true) → c.isBlank = false →
      ∃ before e after, events o.bufferCapacity t = before ++ e :: after ∧
        e.isHeading = true ∧ (∀ x ∈ before ++ after, x.isHeading = false) ∧
        (e ≠ .header ↔
          c = .char '/' ∧ (rest.head? = some (.char '*') ∨ rest.head? = some (.char '/'))) ∧
        (annotate o plate t).data = before.flatMap (Event.written o plate) ++ e.written o plate ++
          after.flatMap (Event.written o plate) ∧
        ∀ x ∈ before.flatMap (Event.written o plate), x.isBlank = true := by
  have hcapacity : (0 : Int) < o.bufferCapacity := by exact_mod_cast o.bufferCapacity_pos
  rw [data_annotate_events h, events_eq hcapacity]
  set gs := passages (fun l => (o.bufferCapacity : Int) ≤ l) {} [] {} t
  have hdivides : Divides (fun l => (o.bufferCapacity : Int) ≤ l) {} t gs := divides_passages _ _ t
  have hsound := hdivides.sound Scanner.valid_initial
  have hmoments : gs.flatMap Passage.moments = ({} : Scanner).moments t := hdivides.moments_eq
  refine ⟨fun hblank => ?_, fun ws c rest ht hws hc => ?_⟩
  · have hquiet : ∀ m ∈ gs.flatMap Passage.moments, m.IsQuiet := by
      rw [hmoments, ← Scanner.momentsTo_none]
      exact Scanner.isQuiet_of_blank hblank
    constructor
    · exact Passage.isHeading_flatMap_events _ hsound fun m hm => (hquiet m hm).isPlain
    · rw [Passage.written_quiet _ hsound hquiet, hmoments, Scanner.map_sym_moments]
  · obtain ⟨a, b, hfirst, ha, hb⟩ := Scanner.moments_first hws hc rest
    rw [ht, hfirst] at hmoments
    -- The passages in front of the first symbol that is not blank are blank, those behind it plain.
    obtain ⟨front, g, back, x, y, hgs, hg, rfl, rfl⟩ := exists_of_flatMap_eq_cons hmoments
    rw [hgs, List.forall_mem_append, List.forall_mem_cons] at hsound
    rw [List.forall_mem_append] at ha hb
    obtain ⟨hcomment, hheader⟩ := Scanner.step_heads (n := rest.head?) hc
    obtain ⟨before, e, after, he, hheading, hbefore, hafter, hkind⟩ :=
      hsound.2.1.exists_heading o.bufferCapacity hg ha.2 hb.1 (by
        show .fileComment ∈ (({} : Scanner).step c rest.head?).2 ↔
          ¬ .fileHeader ∈ (({} : Scanner).step c rest.head?).2
        rw [hcomment, hheader, not_not])
    have hwritten := Passage.written_quiet o.bufferCapacity hsound.1 ha.1 o plate
    have hmessages : before.flatMap (Event.written o plate) = [] :=
      List.flatMap_eq_nil_iff.mpr fun e he => (hbefore e he).written o plate
    refine ⟨front.flatMap (Passage.events o.bufferCapacity) ++ before, e,
      after ++ back.flatMap (Passage.events o.bufferCapacity), ?_, hheading, ?_, ?_, ?_, ?_⟩
    · rw [hgs, List.flatMap_append, List.flatMap_cons, he]
      simp
    · simp only [List.forall_mem_append]
      refine ⟨⟨?_, fun e he => (hbefore e he).isHeading⟩, hafter, ?_⟩
      · exact Passage.isHeading_flatMap_events _ hsound.1 fun m hm => (ha.1 m hm).isPlain
      · exact Passage.isHeading_flatMap_events _ hsound.2.2 hb.2
    · rw [ne_eq, hkind, ← Scanner.opensComment_initial]
      show ¬ .fileHeader ∈ (({} : Scanner).step c rest.head?).2 ↔ _
      rw [hheader, not_not]
    · rw [hgs, List.flatMap_append, List.flatMap_cons, he]
      simp
    · rw [List.flatMap_append, hmessages, List.append_nil, hwritten]
      intro s hs
      split at hs
      · simp at hs
      · obtain ⟨m, hm, rfl⟩ := List.mem_map.mp hs
        exact (ha.1 m hm).2

/-- Behind blanks that fill the buffer, a header comment that does not fit. -/
theorem annotate_headed_once_full :
    let o : Options := { bufferCapacity := 2, bufferCapacity_pos := by decide }
    let t := Text.ofString "  \n/*a*/int x;"
    (annotate o none t).fault = none ∧
      ∃ before e after, events o.bufferCapacity t = before ++ e :: after ∧ e.isHeading = true ∧
        (∀ x ∈ before ++ after, x.isHeading = false) ∧ e ≠ .header ∧
        (annotate o none t).data = before.flatMap (Event.written o none) ++ e.written o none ++
          after.flatMap (Event.written o none) ∧
        ∀ x ∈ before.flatMap (Event.written o none), x.isBlank = true := by
  intro o t
  have hfault : (annotate o none t).fault = none := fault_annotate_none
  obtain ⟨before, e, after, he, hheading, hothers, hkind, hdata, hblank⟩ :=
    (annotate_headed_once hfault).2 (Text.ofString "  \n") (.char '/') (Text.ofString "*a*/int x;")
      (by decide) (by decide) (by decide)
  exact ⟨hfault, before, e, after, he, hheading, hothers, hkind.mpr ⟨rfl, .inl (by decide)⟩, hdata, hblank⟩

end DocBlock
