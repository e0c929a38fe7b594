import Mathlib
import DocBlock.Proofs.Block

/-! How a file is headed. A comment that the file starts with is turned into a block, and any other
file gets a block of its own; what follows is written as if no file had started. -/

namespace DocBlock

open Scanner (Moment)

/-- The two moments do the same to the pending text. -/
structure Scanner.Moment.Alike (m m' : Moment) : Prop where
  flush : .flush ∈ m.markers ↔ .flush ∈ m'.markers
  flushAfter : .flushAfter ∈ m.markers ↔ .flushAfter ∈ m'.markers
  closing : .flush ∈ m'.markers → m.closing = m'.closing
  read : ∀ p : Pending, p.read m = p.read m'

theorem Scanner.Moment.alike_of_eq {m m' : Moment} (hs : m.sym = m'.sym)
    (hm : m.markers = m'.markers) : m.Alike m' := by
  refine ⟨by rw [hm], by rw [hm], ?_, fun p => ?_⟩
  · rw [closing, closing, hm]
    exact fun _ => rfl
  · simp only [Pending.read, marks, hm, hs]

/-- Heading the file does nothing to the pending text. -/
theorem Scanner.Moment.alike_of_header {m m' : Moment} (hs : m.sym = m'.sym)
    (hm : m.markers = m'.markers ++ [Marker.fileHeader]) (hf : .flush ∉ m'.markers) : m.Alike m' := by
  refine ⟨by simp [hm], by simp [hm], fun h => absurd h hf, fun p => ?_⟩
  have hf' : .flush ∉ m.markers := by simp [hm, hf]
  rw [Pending.read, Pending.read, marks, marks, if_neg hf, if_neg hf', hm, List.foldl_append, hs]
  rfl

/-- The pending texts depend on what each symbol does only. -/
theorem map_pending_passages {full : Nat → Bool} {start start' s s' : Scanner} {recent t : Text}
    (hr : (start.momentsTo t.head? recent).foldl Pending.read {} =
      (start'.momentsTo t.head? recent).foldl Pending.read {})
    (hs : s = start.runTo t.head? recent) (hs' : s' = start'.runTo t.head? recent)
    (h : List.Forall₂ Moment.Alike (s.moments t) (s'.moments t)) :
    (passages full start recent s t).map Passage.pending =
      (passages full start' recent s' t).map Passage.pending := by
  induction t generalizing start start' recent s s' with
  | nil =>
    unfold passages
    split
    · rfl
    · simpa [Passage.pending, Passage.moments] using hr
  | cons c rest ih =>
    rw [List.head?_cons] at hr hs hs'
    obtain ⟨hm, hrest⟩ : (s.moment rest.head? c).Alike (s'.moment rest.head? c) ∧
        List.Forall₂ Moment.Alike ((s.step c rest.head?).1.moments rest)
          ((s'.step c rest.head?).1.moments rest) := List.forall₂_cons.mp h
    have joins (start start' : Scanner) (recent : Text) (hs : s = start.runTo (some c) recent)
        (hs' : s' = start'.runTo (some c) recent)
        (hr : (start.momentsTo (some c) recent).foldl Pending.read {} =
          (start'.momentsTo (some c) recent).foldl Pending.read {})
        (hf : .flush ∈ (s'.step c rest.head?).2 → recent = []) :
        (passages full start recent s (c :: rest)).map Passage.pending =
          (passages full start' recent s' (c :: rest)).map Passage.pending := by
      have hread : (start.momentsTo rest.head? (recent ++ [c])).foldl Pending.read {} =
          (start'.momentsTo rest.head? (recent ++ [c])).foldl Pending.read {} := by
        rw [Scanner.momentsTo_concat, Scanner.momentsTo_concat, List.foldl_append, List.foldl_append, hr,
          ← hs, ← hs']
        exact hm.read _
      rw [passages_of_joins fun hflush => ?_, passages_of_joins fun hflush => ?_]
      · have hdue : .flushAfter ∈ (s.step c rest.head?).2 ↔ .flushAfter ∈ (s'.step c rest.head?).2 :=
          hm.flushAfter
        simp only [hdue]
        split
        · have hnext : (passages full (s.step c rest.head?).1 [] (s.step c rest.head?).1 rest).map
                Passage.pending =
              (passages full (s'.step c rest.head?).1 [] (s'.step c rest.head?).1 rest).map
                Passage.pending := ih rfl rfl rfl hrest
          rw [List.map_cons, List.map_cons, hnext]
          simpa [Passage.pending, Passage.moments] using hread
        · refine ih hread ?_ ?_ hrest
          · rw [Scanner.runTo_concat, ← hs]
          · rw [Scanner.runTo_concat, ← hs']
      · obtain rfl := hf hflush
        exact ⟨rfl, hs'.symm⟩
      · obtain rfl := hf (hm.flush.mp hflush)
        exact ⟨rfl, hs.symm⟩
    by_cases hf : .flush ∈ (s'.step c rest.head?).2
    · rw [passages_of_flush (hm.flush.mpr hf), passages_of_flush hf, List.map_append, List.map_append,
        joins s s' [] rfl rfl rfl fun _ => rfl, hm.closing hf]
      congr 1
      split
      · rfl
      · simp [Passage.pending, Passage.moments, hr]
    · exact joins start start' recent hs hs' hr fun hflush => absurd hflush hf

/-- What is pending at each flush, when no file starts with the text. -/
def pendings (s : Scanner) (t : Text) : List Pending :=
  (passages (fun _ => false) s [] s t).map Passage.pending

/-- What the text is turned into when no file starts with it. -/
def rewritten (o : Options) (s : Scanner) (t : Text) : Text :=
  (pendings s t).flatMap fun p => (p.page o none).written

theorem Divides.pendings_eq {s : Scanner} {t : Text} {gs : List Passage}
    (h : Divides (fun _ => false) s t gs) : pendings s t = gs.map Passage.pending := by
  rw [pendings, h.eq_passages]

theorem Divides.rewritten_eq {o : Options} {s : Scanner} {t : Text} {gs : List Passage}
    (h : Divides (fun _ => false) s t gs) : rewritten o s t = gs.flatMap (Passage.written o) := by
  rw [rewritten, h.pendings_eq, List.flatMap_map]
  rfl

theorem pendings_congr {s s' : Scanner} {t : Text}
    (h : List.Forall₂ Moment.Alike (s.moments t) (s'.moments t)) : pendings s t = pendings s' t :=
  map_pending_passages rfl rfl rfl h

/-- All that a passage asks to write, without boilerplate. -/
def Passage.shown (o : Options) (g : Passage) : Text := (g.edits o none).flatMap Edit.written

/-- The header of a file that starts without a comment. -/
def headerText (o : Options) : Text := (Page.fileHeader o none).written

/-- What stands between the delimiters of the header of a file. -/
def headerInside (o : Options) : Text :=
  Text.ofString "*\n\t@file " ++ o.shownName ++ Text.ofString
    "\n\n\tPut a description of the file here.\n\n\t@todo Edit file comment (automatically generated by insertdox)\n"

theorem headerText_eq (o : Options) :
    headerText o = .char '/' :: .char '*' :: (headerInside o ++ [Sym.char '*', .char '/']) ++
      [.char '\n', .char '\n'] := by
  have he : (Page.fileHeader o none).edits = [
      .insert (Text.ofString "/**\n\t@file " ++ o.shownName ++
        Text.ofString "\n\n\tPut a description of the file here.\n"),
      .insert (Text.ofString
        "\n\t@todo Edit file comment (automatically generated by insertdox)\n*/\n\n")] := rfl
  rw [headerText, Page.written, he]
  simp [Edit.written, headerInside, Text.ofString]

theorem not_closer_shownName {o : Options} (h : ∀ f ∈ o.filename, ¬ closer <:+: f) :
    ¬ closer <:+: o.shownName := by
  unfold Options.shownName
  cases hf : o.filename.filter (· ≠ []) with
  | none => decide +kernel
  | some f => exact h f (Option.eq_some_of_filter_eq_some hf)

theorem not_closer_headerInside {o : Options} (h : ∀ f ∈ o.filename, ¬ closer <:+: f) :
    ¬ closer <:+: headerInside o ++ [Sym.char '*'] := by
  rw [headerInside, List.append_assoc]
  refine not_closer_append (not_closer_append (by decide +kernel) (not_closer_shownName h) ?_)
    (by decide +kernel) ?_
  · exact .inl (by decide +kernel)
  · exact .inr (by decide +kernel)

theorem mem_pendings {o : Options} {t : Text} {p : Pending} (hl : t.length < o.bufferCapacity)
    (h : p ∈ pendings {} t) : .flush p ∈ events o.bufferCapacity t := by
  have hc : (0 : Int) < o.bufferCapacity := by exact_mod_cast o.bufferCapacity_pos
  have hf : ∀ l ≤ ([] : Text).length + t.length, decide ((o.bufferCapacity : Int) ≤ l) = false := by
    intro l h
    simp at h
    simp
    omega
  rw [events_eq hc, passages_congr hf]
  obtain ⟨g, hg, rfl⟩ := List.mem_map.mp h
  exact List.mem_flatMap.mpr ⟨g, hg, by simp [Passage.events]⟩

theorem data_annotate_none {o : Options} {t : Text} (hl : t.length < o.bufferCapacity) :
    (annotate o none t).data =
      (passages (fun _ => false) {} [] {} t).flatMap (Passage.shown o) := by
  have hf : ∀ l ≤ ([] : Text).length + t.length, decide (o.bufferCapacity ≤ l) = false := by
    intro l h
    simp at h
    simp
    omega
  rw [data_annotate fault_annotate_none, edits_pages, passages_congr hf, List.flatMap_assoc]
  rfl

theorem flatMap_events (l : List Marker) :
    l.flatMap Marker.events = List.replicate (l.count .fileHeader) .header := by
  induction l with
  | nil => rfl
  | cons x l ih => cases x <;> simp [Marker.events, ih, List.replicate_succ]

/-- What a symbol reports: that it is a stray brace, and that it has the file headed. -/
theorem Scanner.Moment.events_eq {s : Scanner} {n : Option Sym} {t : Text} {m : Moment}
    (hm : m ∈ s.momentsTo n t) :
    m.events = (if m.before.isStrayBrace m.sym then [.strayBrace] else []) ++
      if .fileHeader ∈ m.markers then [.header] else [] := by
  obtain ⟨n', hn⟩ := exists_step_of_mem hm
  have hcount : m.marks.count .fileHeader = m.markers.count .fileHeader := by
    rw [hn]
    exact m.before.count_marks n' m.sym (by decide)
  have hnodup : m.markers.Nodup := by
    rw [hn]
    exact nodup_markers
  rw [events, flatMap_events, hcount]
  by_cases h : .fileHeader ∈ m.markers
  · rw [List.count_eq_one_of_mem hnodup h, if_pos h]
    rfl
  · rw [List.count_eq_zero.mpr h, if_neg h]
    rfl

/-- What a symbol writes by itself. -/
theorem Scanner.written_events (s : Scanner) (c : Sym) (n : Option Sym) (o : Options) :
    ((s.moment n c).events.flatMap fun e => (e.page o none).edits).flatMap Edit.written =
      if .fileHeader ∈ (s.step c n).2 then headerText o else [] := by
  have hs : (if (s.moment n c).before.isStrayBrace (s.moment n c).sym then [Event.strayBrace]
      else []).flatMap (fun e => (e.page o none).edits) = [] := by
    split <;> rfl
  have hm : s.moment n c ∈ s.momentsTo n [c] := by simp [momentsTo_cons]
  rw [Moment.events_eq hm, List.flatMap_append, hs, moment_markers, List.nil_append]
  split
  · simp [Event.page, headerText, Page.written]
  · rfl

namespace Passage

variable {o : Options} {g : Passage}

theorem shown_eq (g : Passage) :
    g.shown o = g.moments.flatMap (fun m => if .fileHeader ∈ m.markers then headerText o else []) ++
      g.written o := by
  have he : ((g.moments.flatMap Moment.events).flatMap (fun e => (e.page o none).edits)).flatMap
      Edit.written =
      g.moments.flatMap (fun m => if .fileHeader ∈ m.markers then headerText o else []) := by
    rw [List.flatMap_assoc, List.flatMap_assoc]
    refine List.flatMap_congr fun m hm => ?_
    obtain ⟨n, hn⟩ := Scanner.exists_step_of_mem hm
    have hw := m.before.written_events m.sym n o
    have hk : m.markers = (m.before.step m.sym n).2 := congrArg Moment.markers hn
    rwa [← hn, ← hk, List.flatMap_assoc] at hw
  rw [shown, edits, List.flatMap_append, he]
  rfl

theorem shown_of_headless (h : ∀ m ∈ g.moments, .fileHeader ∉ m.markers) :
    g.shown o = g.written o := by
  rw [shown_eq, List.flatMap_eq_nil_iff.mpr, List.nil_append]
  exact fun m hm => if_neg (h m hm)

theorem not_fileHeader (h : g.start.fileStart = false) :
    ∀ m ∈ g.moments, .fileHeader ∉ m.markers := by
  intro m hm hx
  have hall := Scanner.forall_before_of_step (P := fun s => s.fileStart = false)
    (Q := fun _ => True) (fun s c n h _ => by simp [h]) h (fun _ _ => trivial) m hm
  obtain ⟨n, hmn⟩ := Scanner.exists_step_of_mem hm
  rw [hmn] at hx
  have := (Scanner.mem_step_iff.mp hx).1
  rw [hall] at this
  contradiction

end Passage

namespace Scanner

variable {s : Scanner} {c : Sym} {n : Option Sym}

theorem stepMode_fileStart (f : Bool) :
    ({ s with fileStart := f } : Scanner).stepMode c n =
      ({ (s.stepMode c n).1 with fileStart := f }, (s.stepMode c n).2) := by
  cases hm : s.mode <;> simp only [stepMode, hm]
  case normal =>
    fun_cases stepNormal s c n <;> simp only [stepNormal, *] <;> simp [enterComment, closeBrace, *]
  case escape => fun_cases stepEscape s c n <;> simp [stepEscape, *]
  case blockComment => fun_cases stepBlockComment s c <;> simp [stepBlockComment, *]
  case lineComment => fun_cases stepLineComment s c <;> simp [stepLineComment, *]
  case directive =>
    fun_cases stepDirective s c n <;> simp only [stepDirective, *] <;> simp [enterComment, *]
  all_goals fun_cases stepLiteral s c _ <;> simp [stepLiteral, *]

theorem coding_eq : coding true = { ({} : Scanner) with fileStart := false } := rfl

theorem step_blank_coding (hc : c.isBlank = true) : (coding true).step c n = (coding true, []) := by
  rw [coding_eq, step, stepMode_fileStart, stepMode_blank_initial hc]
  simp [headMarkers, hc]

/-- The first symbol of a file that opens no comment. -/
theorem step_first (hc : c.isBlank = false) (ho : ¬ ({} : Scanner).OpensComment c n) :
    ({} : Scanner).step c n =
      (((coding true).step c n).1, ((coding true).step c n).2 ++ [Marker.fileHeader]) := by
  have hm : (({} : Scanner).stepMode c n).1.mode.isComment = false := by
    rw [← Bool.not_eq_true, isComment_stepMode_initial]
    exact ho
  rw [coding_eq, step, step, stepMode_fileStart]
  simp [headMarkers, hc, hm, stepMode_headerComment]

theorem moments_cons (s : Scanner) (c : Sym) (rest : Text) :
    s.moments (c :: rest) = s.moment rest.head? c :: (s.step c rest.head?).1.moments rest := rfl

theorem runTo_fileStart (h : s.fileStart = false) (t : Text) : (s.runTo n t).fileStart = false := by
  induction t generalizing s with
  | nil => exact h
  | cons c rest ih => exact ih (by simp [h])

theorem momentsTo_blank {ws : Text} (h : ∀ c ∈ ws, c.isBlank = true) :
    ({} : Scanner).runTo n ws = {} ∧ ∀ m ∈ ({} : Scanner).momentsTo n ws, m.markers = [] := by
  induction ws with
  | nil => simp
  | cons c ws ih =>
    rw [List.forall_mem_cons] at h
    rw [runTo_cons, momentsTo_cons, List.forall_mem_cons, moment_markers, step_blank_initial h.1]
    exact ⟨(ih h.2).1, rfl, (ih h.2).2⟩

end Scanner

namespace Scanner

variable {c : Sym} {n : Option Sym}

/-- In the comment that a file starts with, behind its opening. -/
def heading (m : Mode) : Scanner :=
  { mode := m, lineStart := false, fileStart := false, headerComment := true }

theorem step_header (h : ({} : Scanner).OpensComment c n) :
    ∃ m, m = (if n = some (.char '*') then .blockComment else .lineComment) ∧
      ({} : Scanner).step c n =
        ({ heading m with opening := true }, [.flush, .descriptionStart, .fileComment]) := by
  refine ⟨_, rfl, ?_⟩
  obtain ⟨-, rfl, ho⟩ := h
  simp only [opensComment, Bool.or_eq_true, decide_eq_true_eq] at ho
  rcases ho with rfl | rfl <;> decide

theorem step_heading_opening {m : Mode} (hm : m.isComment = true) :
    ({ heading m with opening := true } : Scanner).step c n = (heading m, []) := by
  cases m <;> simp [Mode.isComment] at hm <;>
    simp [step, stepMode, heading, stepBlockComment, stepLineComment, headMarkers]

theorem scan_opening (hc : c = .char '*' ∨ c = .char '/') (y : Text) (n : Option Sym) :
    ∃ first second, first.markers = [.flush, .descriptionStart, .fileComment] ∧
      second.markers = [] ∧
      ({} : Scanner).momentsTo n (.char '/' :: c :: y) = first :: second ::
        (heading (if c = .char '*' then .blockComment else .lineComment)).momentsTo n y ∧
      ({} : Scanner).runTo n (.char '/' :: c :: y) =
        (heading (if c = .char '*' then .blockComment else .lineComment)).runTo n y := by
  have ho : ({} : Scanner).OpensComment (.char '/') (some c) := by
    refine ⟨.inl rfl, rfl, ?_⟩
    rcases hc with rfl | rfl <;> decide
  obtain ⟨m, hm, hstep⟩ := step_header ho
  have hmode : m.isComment = true := by
    rw [hm]
    split <;> rfl
  obtain rfl : m = if c = .char '*' then .blockComment else .lineComment := by simpa using hm
  have hnext := step_heading_opening (c := c) (n := y.head?.or n) hmode
  have hmo : ({} : Scanner).momentsTo n (.char '/' :: c :: y) =
      ({} : Scanner).moment (some c) (.char '/') ::
        (({} : Scanner).step (.char '/') (some c)).1.moment (y.head?.or n) c ::
        ((({} : Scanner).step (.char '/') (some c)).1.step c (y.head?.or n)).1.momentsTo n y := rfl
  have hru : ({} : Scanner).runTo n (.char '/' :: c :: y) =
      ((({} : Scanner).step (.char '/') (some c)).1.step c (y.head?.or n)).1.runTo n y := rfl
  rw [hstep, hnext] at hmo hru
  refine ⟨_, _, ?_, ?_, hmo, hru⟩
  · rw [moment_markers, hstep]
  · rw [moment_markers, hnext]

theorem momentsTo_heading_line {body : Text} (h : ∀ c ∈ body, c.isNewline = false) :
    (heading .lineComment).runTo n body = heading .lineComment ∧
      ∀ m ∈ (heading .lineComment).momentsTo n body, m.markers = [] := by
  induction body with
  | nil => simp
  | cons c body ih =>
    rw [List.forall_mem_cons] at h
    have hs (n : Option Sym) : (heading .lineComment).step c n = (heading .lineComment, []) := by
      simp [step, stepMode, heading, stepLineComment, headMarkers, h.1]
    rw [runTo_cons, momentsTo_cons, List.forall_mem_cons, moment_markers, hs]
    exact ⟨(ih h.2).1, rfl, (ih h.2).2⟩

theorem step_heading_newline (hc : c.isNewline = true) :
    (heading .lineComment).step c n = (coding true, [.descriptionEnd, .flush]) ∧
      (coding false).step c n = (coding true, []) := by
  simp only [Sym.isNewline, Bool.or_eq_true, decide_eq_true_eq] at hc
  rcases hc with rfl | rfl <;> exact ⟨rfl, rfl⟩

end Scanner

section Headed

variable {o : Options} {ws rest : Text} {c : Sym}

theorem alike_first (hws : ∀ x ∈ ws, x.isBlank = true) (hc : c.isBlank = false)
    (ho : ¬ ({} : Scanner).OpensComment c rest.head?) :
    List.Forall₂ Moment.Alike (Scanner.moments {} (ws ++ c :: rest))
      ((Scanner.coding true).moments (ws ++ c :: rest)) := by
  induction ws with
  | nil =>
    have hfirst := Scanner.step_first hc ho
    rw [List.nil_append, Scanner.moments_cons, Scanner.moments_cons, hfirst]
    refine .cons (Moment.alike_of_header rfl ?_ ?_)
      (List.forall₂_same.mpr fun m _ => Moment.alike_of_eq rfl rfl)
    · rw [Scanner.moment_markers, hfirst]
      rfl
    · rw [Scanner.moment_markers, Scanner.mem_step_iff]
      rintro ⟨-, h | ⟨-, -, hh⟩⟩
      · exact ho h
      · exact absurd hh (by decide)
  | cons b ws ih =>
    rw [List.forall_mem_cons] at hws
    have h₁ (n : Option Sym) := Scanner.step_blank_initial (n := n) hws.1
    have h₂ (n : Option Sym) := Scanner.step_blank_coding (n := n) hws.1
    rw [List.cons_append, Scanner.moments_cons, Scanner.moments_cons, h₁, h₂]
    refine .cons (Moment.alike_of_eq rfl ?_) (ih hws.2)
    rw [Scanner.moment_markers, Scanner.moment_markers, h₁, h₂]

theorem Divides.flatMap_shown {full : Nat → Bool} {s : Scanner} {t : Text} {gs : List Passage}
    (h : Divides full s t gs) (hs : s.fileStart = false) :
    gs.flatMap (Passage.shown o) = gs.flatMap (Passage.written o) := by
  refine List.flatMap_congr fun g hg => Passage.shown_of_headless fun m hm => ?_
  have hmem : m ∈ s.moments t := by
    rw [← h.moments_eq]
    exact List.mem_flatMap.mpr ⟨g, hg, hm⟩
  exact Passage.not_fileHeader (g := ⟨s, t, none, []⟩) hs m (by
    rwa [Passage.moments, Scanner.momentsTo_none])

/-- The first symbol that is not blank is in the first passage, unless a comment starts with it. -/
theorem Passage.Heads.exists_first {g : Passage} {rest' : Text}
    (h : g.Heads (fun _ => false) {} (ws ++ c :: rest) rest') (hws : ∀ x ∈ ws, x.isBlank = true)
    (ho : ¬ ({} : Scanner).OpensComment c rest.head?) : ∃ v, g.text = ws ++ c :: v := by
  by_contra hn
  obtain ⟨w, rfl, hr⟩ : ∃ w, ws = g.text ++ w ∧ rest' = w ++ c :: rest := by
    rcases List.append_eq_append_iff.mp h.text with ⟨a, ha, hb⟩ | ⟨w, hw, hr⟩
    · cases a with
      | nil => exact ⟨[], by simpa using ha.symm, by simpa using hb.symm⟩
      | cons x a =>
        obtain ⟨rfl, -⟩ := List.cons.inj hb
        exact absurd ⟨a, ha⟩ hn
    · exact ⟨w, hw, hr⟩
  obtain ⟨hrun, hmark⟩ := Scanner.momentsTo_blank (n := g.next)
    (fun x hx => hws x (List.mem_append_left w hx))
  have hstop : g.stop = {} := by rw [stop, h.start, hrun]
  rcases h.ends with (hl | ⟨m, hm, hx⟩) | he | ⟨d, r, hd, hx⟩
  · simp at hl
  · rw [moments, h.start] at hm
    rw [hmark m hm] at hx
    simp at hx
  · simp [hr] at he
  · rw [hstop] at hx
    cases w with
    | nil =>
      obtain ⟨rfl, rfl⟩ : c = d ∧ rest = r := by simpa [hr] using hd
      obtain ⟨-, hx | ⟨-, -, hh⟩⟩ := Scanner.mem_step_iff.mp hx
      · exact ho hx
      · exact absurd hh (by decide)
    | cons x w =>
      obtain ⟨rfl, -⟩ : x = d ∧ w ++ c :: rest = r := by simpa [hr] using hd
      rw [Scanner.step_blank_initial (hws x (by simp))] at hx
      simp at hx

/-- A file that starts without a comment gets a header. -/
theorem data_annotate_first (hl : (ws ++ c :: rest).length < o.bufferCapacity)
    (hws : ∀ x ∈ ws, x.isBlank = true) (hc : c.isBlank = false)
    (ho : ¬ ({} : Scanner).OpensComment c rest.head?) :
    (annotate o none (ws ++ c :: rest)).data =
      headerText o ++ rewritten o (.coding true) (ws ++ c :: rest) := by
  have hd := divides_passages (fun _ => false) {} (ws ++ c :: rest)
  rw [data_annotate_none hl, rewritten, ← pendings_congr (alike_first hws hc ho), ← rewritten,
    hd.rewritten_eq]
  generalize passages (fun _ => false) {} [] {} (ws ++ c :: rest) = gs at hd
  cases gs with
  | nil => simpa using hd.eq_nil_iff
  | cons g gs =>
    obtain ⟨rest', hg, hothers⟩ := hd.heads
    obtain ⟨v, hv⟩ := hg.exists_first hws ho
    obtain ⟨hrun, hmark⟩ := Scanner.momentsTo_blank (n := some c) hws
    have hmoments : g.moments = ({} : Scanner).momentsTo (some c) ws ++
        ({} : Scanner).moment (v.head?.or g.next) c ::
          (({} : Scanner).step c (v.head?.or g.next)).1.momentsTo g.next v := by
      rw [Passage.moments, hg.start, hv, Scanner.momentsTo_append]
      simp only [List.head?_cons, Option.some_or, hrun]
      rfl
    have hnext : rest.head? = v.head?.or g.next := by
      have ht := hg.text
      rw [hv, List.append_assoc, List.append_cancel_left_eq] at ht
      obtain rfl : rest = v ++ rest' := List.cons.inj ht |>.2
      rw [List.head?_append, hg.next]
    have hfirst : .fileHeader ∈ (({} : Scanner).step c (v.head?.or g.next)).2 := by
      rw [← hnext, Scanner.step_first hc ho]
      simp
    have hshown : g.shown o = headerText o ++ g.written o := by
      have hblank : (({} : Scanner).momentsTo (some c) ws).flatMap
          (fun m => if .fileHeader ∈ m.markers then headerText o else []) = [] := by
        refine List.flatMap_eq_nil_iff.mpr fun m hm => ?_
        simp [hmark m hm]
      have hrest : ((({} : Scanner).step c (v.head?.or g.next)).1.momentsTo g.next v).flatMap
          (fun m => if .fileHeader ∈ m.markers then headerText o else []) = [] := by
        refine List.flatMap_eq_nil_iff.mpr fun m hm => if_neg ?_
        exact Passage.not_fileHeader
          (g := ⟨(({} : Scanner).step c (v.head?.or g.next)).1, v, g.next, []⟩) (by simp [hc]) m hm
      rw [Passage.shown_eq, hmoments, List.flatMap_append, List.flatMap_cons, hblank, hrest]
      simp [hfirst]
    have hstop : g.stop.fileStart = false := by
      rw [Passage.stop, hg.start, hv, Scanner.runTo_append]
      simp only [List.head?_cons, Option.some_or, hrun]
      exact Scanner.runTo_fileStart (by simp [hc]) v
    rw [List.flatMap_cons, List.flatMap_cons, hshown, hothers.flatMap_shown hstop, List.append_assoc]

/-- A passage without markers is written as it is. -/
theorem Passage.Sound.written_unmarked {full : Nat → Bool} {g : Passage} (h : g.Sound full)
    (hp : o.prototypesOnly = false) (hm : ∀ m ∈ g.moments, m.markers = []) :
    g.written o = g.text := by
  have hz (x : Marker) : g.count x = 0 := by
    rw [Passage.count, List.flatMap_eq_nil_iff.mpr hm]
    rfl
  have hv : g.Verbatim o none := (h.verbatim_iff hp).mpr ⟨hz _, fun hf => absurd hf.1 (by simp [hz])⟩
  rw [Passage.written, Page.written, hv]
  simp [Edit.written]

theorem Passage.heads_blank (hws : ∀ x ∈ ws, x.isBlank = true) (hne : ws ≠ [])
    (hr : rest = [] ∨ ∃ c r, rest = c :: r ∧ ({} : Scanner).OpensComment c r.head?) :
    Passage.Heads (fun _ => false) {} (ws ++ rest) rest ⟨{}, ws, rest.head?, []⟩ := by
  obtain ⟨hrun, hmark⟩ := Scanner.momentsTo_blank (n := rest.head?) hws
  have hstop : Passage.stop ⟨{}, ws, rest.head?, []⟩ = {} := hrun
  have hopen {c : Sym} {r : Text} (ho : ({} : Scanner).OpensComment c r.head?) :
      (({} : Scanner).step c r.head?).2 = [.flush, .descriptionStart, .fileComment] := by
    obtain ⟨m, -, hm⟩ := Scanner.step_header ho
    rw [hm]
  refine ⟨rfl, rfl, rfl, ⟨hne, fun m hm => ?_, fun m hm => ?_, by simp⟩, ?_, ?_, fun _ => ?_⟩
  · simp [hmark m (List.mem_of_mem_tail hm)]
  · simp [hmark m (List.mem_of_mem_dropLast hm)]
  · rw [hstop]
    exact .inr (hr.imp_right fun ⟨c, r, he, ho⟩ => ⟨c, r, he, by simp [hopen ho]⟩)
  · exact fun _ => rfl
  · rw [hstop]
    rcases hr with rfl | ⟨c, r, rfl, ho⟩
    · rfl
    · simp [closingBy, Moment.closing, hopen ho]

/-- A comment that a file starts with, and what follows it. -/
inductive HeaderComment : Text → Text → Prop
  | block (body rest : Text) (h : ¬ closer <:+: body ++ [Sym.char '*']) :
    HeaderComment (.char '/' :: .char '*' :: (body ++ [Sym.char '*', .char '/'])) rest
  | line (body rest : Text) (h : ∀ c ∈ body, c.isNewline = false)
      (hr : ∀ c ∈ rest.head?, c.isNewline = true) :
    HeaderComment (.char '/' :: .char '/' :: body) rest
  | unclosed (body : Text) (h : ¬ closer <:+: body) :
    HeaderComment (.char '/' :: .char '*' :: body) []

namespace HeaderComment

variable {x : Text}

/-- How the comment that a file starts with is read. -/
theorem scan (h : HeaderComment x rest) :
    ∃ first others, ({} : Scanner).momentsTo rest.head? x = first :: others ∧
      first.markers = [.flush, .descriptionStart, .fileComment] ∧
      ((∃ middle last, others = middle ++ [last] ∧ (∀ m ∈ middle, m.markers = []) ∧
          last.markers = [.descriptionEndAfter, .flushAfter] ∧
          ({} : Scanner).runTo rest.head? x = .coding false) ∨
        (∀ m ∈ others, m.markers = []) ∧ (rest = [] ∨
          ({} : Scanner).runTo rest.head? x = .heading .lineComment ∧
            ∃ c r, rest = c :: r ∧ c.isNewline = true)) := by
  cases h with
  | block body rest hb =>
    obtain ⟨first, second, h₁, h₂, hmo, hru⟩ := Scanner.scan_opening (.inl rfl)
      (body ++ [Sym.char '*', .char '/']) rest.head?
    obtain ⟨hrun, hmark⟩ := Scanner.momentsTo_inBlock (s := .heading .blockComment)
      (n := some (.char '/')) (body ++ [Sym.char '*']) rfl rfl rfl rfl (by simpa [Scanner.heading] using hb)
    simp only [List.foldl_append, List.foldl_cons, List.foldl_nil, decide_true] at hrun
    have hclose (n : Option Sym) :
        ({ Scanner.heading .blockComment with star := true } : Scanner).step (.char '/') n =
          (.coding false, [.descriptionEndAfter, .flushAfter]) := rfl
    have hsplit : body ++ [Sym.char '*', .char '/'] = (body ++ [Sym.char '*']) ++ [Sym.char '/'] := by simp
    rw [if_pos rfl, hsplit, Scanner.momentsTo_concat, hrun] at hmo
    rw [if_pos rfl, hsplit, Scanner.runTo_concat, hrun, hclose] at hru
    rw [hsplit]
    refine ⟨first, _, hmo, h₁, .inl ⟨second :: _, _, rfl, ?_, ?_, hru⟩⟩
    · exact List.forall_mem_cons.mpr ⟨h₂, fun m hm => (hmark m hm).1⟩
    · rw [Scanner.moment_markers, hclose]
  | line body rest hb hr =>
    obtain ⟨first, second, h₁, h₂, hmo, hru⟩ := Scanner.scan_opening (.inr rfl) body rest.head?
    obtain ⟨hrun, hmark⟩ := Scanner.momentsTo_heading_line (n := rest.head?) hb
    refine ⟨first, second :: _, hmo, h₁, .inr ⟨List.forall_mem_cons.mpr ⟨h₂, hmark⟩, ?_⟩⟩
    cases rest with
    | nil => exact .inl rfl
    | cons c r => exact .inr ⟨hru.trans hrun, c, r, rfl, hr c rfl⟩
  | unclosed body hb =>
    obtain ⟨first, second, h₁, h₂, hmo, -⟩ := Scanner.scan_opening (.inl rfl) body none
    obtain ⟨-, hmark⟩ := Scanner.momentsTo_inBlock (s := .heading .blockComment) (n := none) body rfl
      rfl rfl rfl hb
    refine ⟨first, second :: _, hmo, h₁, .inr ⟨List.forall_mem_cons.mpr ⟨h₂, ?_⟩, .inl rfl⟩⟩
    exact fun m hm => (hmark m hm).1

/-- The newline behind a header that is a line comment belongs to the next passage. -/
theorem pendings_newline {c : Sym} (hc : c.isNewline = true) (r : Text) :
    pendings (.heading .lineComment) (c :: r) = pendings (.coding false) (c :: r) := by
  obtain ⟨h₁, h₂⟩ := Scanner.step_heading_newline (n := r.head?) hc
  have hp : (passages (fun _ => false) (.heading .lineComment) [c] (.coding true) r).map
        Passage.pending =
      (passages (fun _ => false) (.coding false) [c] (.coding true) r).map Passage.pending := by
    refine map_pending_passages ?_ ?_ ?_ (List.forall₂_same.mpr fun m _ => Moment.alike_of_eq rfl rfl)
    · simp [Scanner.momentsTo_cons, Pending.read, Moment.marks, h₁, h₂, Pending.mark]
    · simp [Scanner.runTo_cons, h₁]
    · simp [Scanner.runTo_cons, h₂]
  rw [pendings, pendings, passages_of_joins fun _ => ⟨rfl, rfl⟩, passages_of_joins fun _ => ⟨rfl, rfl⟩,
    h₁, h₂]
  simpa using hp

theorem heads (h : HeaderComment x rest) :
    ∃ closing, Passage.Heads (fun _ => false) {} (x ++ rest) rest ⟨{}, x, rest.head?, closing⟩ ∧
      pendings (({} : Scanner).runTo rest.head? x) rest = pendings (.coding false) rest := by
  obtain ⟨first, others, hmo, hfirst, hcases⟩ := h.scan
  have hx : x ≠ [] := by cases h <;> simp
  rcases hcases with ⟨middle, last, rfl, hmid, hlast, hrun⟩ | ⟨hothers, hend⟩
  · have hfull : Passage.Full (fun _ => false) ⟨{}, x, rest.head?, []⟩ := by
      refine .inr ⟨last, ?_, by simp [hlast]⟩
      simp [Passage.moments, hmo]
    refine ⟨[], ⟨rfl, rfl, rfl, ⟨hx, ?_, ?_, by simp⟩, .inl hfull, fun _ => rfl,
      fun hn => absurd hfull hn⟩, by rw [hrun]⟩
    · intro m hm
      rw [Passage.moments, hmo, List.tail_cons] at hm
      rcases List.mem_append.mp hm with hm | hm
      · simp [hmid m hm]
      · simp [List.mem_singleton.mp hm, hlast]
    · intro m hm
      rw [Passage.moments, hmo, ← List.cons_append, List.dropLast_concat] at hm
      rcases List.mem_cons.mp hm with rfl | hm
      · simp [hfirst]
      · simp [hmid m hm]
  · have hroom (closing : List Marker) :
        ¬ Passage.Full (fun _ => false) ⟨{}, x, rest.head?, closing⟩ := by
      rintro (hl | ⟨m, hm, hx⟩)
      · simp at hl
      · rw [Passage.moments, hmo] at hm
        rcases List.mem_cons.mp hm with rfl | hm
        · simp [hfirst] at hx
        · simp [hothers m hm] at hx
    have hwhole (closing : List Marker) :
        Passage.Unbroken (fun _ => false) ⟨{}, x, rest.head?, closing⟩ := by
      refine ⟨hx, fun m hm => ?_, fun m hm hf => ?_, by simp⟩
      · rw [Passage.moments, hmo, List.tail_cons] at hm
        simp [hothers m hm]
      · exact hroom closing (.inr ⟨m, List.mem_of_mem_dropLast hm, hf⟩)
    rcases hend with rfl | ⟨hrun, c, r, rfl, hc⟩
    · exact ⟨[], ⟨rfl, rfl, rfl, hwhole _, .inr (.inl rfl), fun _ => rfl, fun _ => rfl⟩, rfl⟩
    · refine ⟨closingBy (.heading .lineComment) (c :: r), ⟨rfl, rfl, rfl, hwhole _,
        .inr (.inr ⟨c, r, rfl, ?_⟩), fun hf => absurd hf (hroom _), fun _ => ?_⟩, ?_⟩
      · rw [Passage.stop]
        simp only [hrun, (Scanner.step_heading_newline hc).1]
        simp
      · rw [Passage.stop]
        simp only [hrun]
      · rw [hrun, pendings_newline hc]

theorem markers (h : HeaderComment x rest) (closing : List Marker) :
    0 < Passage.count ⟨{}, x, rest.head?, closing⟩ .fileComment ∧
      ∀ m ∈ Passage.moments ⟨{}, x, rest.head?, closing⟩, .fileHeader ∉ m.markers := by
  obtain ⟨first, others, hmo, hfirst, hcases⟩ := h.scan
  refine ⟨Passage.count_pos.mpr ⟨first, by simp [Passage.moments, hmo], by simp [hfirst]⟩, ?_⟩
  rw [Passage.moments, hmo, List.forall_mem_cons]
  refine ⟨by simp [hfirst], fun m hm => ?_⟩
  rcases hcases with ⟨middle, last, rfl, hmid, hlast, -⟩ | ⟨hothers, -⟩
  · rcases List.mem_append.mp hm with hm | hm
    · simp [hmid m hm]
    · simp [List.mem_singleton.mp hm, hlast]
  · simp [hothers m hm]

end HeaderComment

/-- The comment that a file starts with, in the form of a block. -/
def headerBlock (x : Text) : Text :=
  Text.ofString "/**\n\t" ++ x.commentBody ++ Text.ofString "\n*/"

theorem headerBlock_eq (x : Text) :
    headerBlock x = .char '/' :: .char '*' ::
      (Text.ofString "*\n\t" ++ x.commentBody ++ Text.ofString "\n" ++ [Sym.char '*', .char '/']) := by
  simp [headerBlock, Text.ofString]

theorem HeaderComment.of_sealed {x : Text} (h : (headerBlock x).Sealed) (rest : Text) :
    HeaderComment (headerBlock x) rest := by
  rw [headerBlock_eq] at h ⊢
  exact .block _ rest h.not_closer

theorem Page.written_fileComment (p : Pending) :
    (Page.fileComment none p).written = headerBlock p.text := by
  have he : (Page.fileComment none p).edits = [.cut p.text,
      .insert (Text.ofString "/**\n\t" ++ p.text.commentBody ++ Text.ofString "\n"),
      .insert (Text.ofString "*/")] := rfl
  rw [Page.written, he]
  simp [Edit.written, headerBlock, Text.ofString]

theorem Passage.Sound.written_header {full : Nat → Bool} {g : Passage} (h : g.Sound full)
    (hc : 0 < g.count .fileComment) : g.written o = headerBlock g.text := by
  rw [written, Pending.page, if_pos (h.fileComment_iff.mpr hc), Page.written_fileComment, text_pending]

/-- The comment is a passage of its own, and what follows is read as code. -/
theorem HeaderComment.divides {x : Text} (h : HeaderComment x rest) :
    ∃ g gs, Divides (fun _ => false) {} (x ++ rest) (g :: gs) ∧
      g.text = x ∧ g.pending.fileComment = true ∧ g.shown o = headerBlock x ∧
      gs.map Passage.pending = pendings (.coding false) rest ∧
      gs.flatMap (Passage.shown o) = rewritten o (.coding false) rest := by
  obtain ⟨closing, hheads, hrest⟩ := h.heads
  obtain ⟨hcount, hnone⟩ := h.markers closing
  have hgs := divides_passages (fun _ => false) (({} : Scanner).runTo rest.head? x) rest
  have hd := Divides.cons hheads hgs
  have hsound := hd.sound Scanner.valid_initial _ List.mem_cons_self
  have hfile : (({} : Scanner).runTo rest.head? x).fileStart = false := by
    have hb : (Sym.char '/').isBlank = false := by decide
    cases h <;> rw [Scanner.runTo_cons] <;> exact Scanner.runTo_fileStart (by simp [hb]) _
  refine ⟨_, _, hd, rfl, hsound.fileComment_iff.mpr hcount, ?_, hrest, ?_⟩
  · rw [Passage.shown_of_headless hnone, hsound.written_header hcount]
  · rw [hgs.flatMap_shown hfile, ← hgs.rewritten_eq, rewritten, rewritten, hrest]

/-- Blanks before a comment, or at the end of the text, are a passage that is written as it is. -/
theorem Divides.blank_append {gs : List Passage} (h : Divides (fun _ => false) {} rest gs)
    (hp : o.prototypesOnly = false) (hws : ∀ c ∈ ws, c.isBlank = true)
    (hr : rest = [] ∨ ∃ c r, rest = c :: r ∧ ({} : Scanner).OpensComment c r.head?) :
    ∃ front, Divides (fun _ => false) {} (ws ++ rest) (front ++ gs) ∧
      front.flatMap (Passage.shown o) = ws := by
  by_cases hne : ws = []
  · exact ⟨[], by simpa [hne] using h, by simp [hne]⟩
  · obtain ⟨hrun, hmark⟩ := Scanner.momentsTo_blank (n := rest.head?) hws
    have hall := Divides.cons (Passage.heads_blank hws hne hr) (by
      rw [Passage.stop, hrun]
      exact h)
    refine ⟨[⟨{}, ws, rest.head?, []⟩], hall, ?_⟩
    rw [List.flatMap_singleton, Passage.shown_of_headless fun m hm => by simp [hmark m hm]]
    exact (hall.sound Scanner.valid_initial _ List.mem_cons_self).written_unmarked hp hmark

/-- A comment that a file starts with is turned into a block. -/
theorem data_annotate_header {x : Text} (hl : (ws ++ x ++ rest).length < o.bufferCapacity)
    (hp : o.prototypesOnly = false) (hws : ∀ c ∈ ws, c.isBlank = true) (h : HeaderComment x rest) :
    (annotate o none (ws ++ x ++ rest)).data =
        ws ++ headerBlock x ++ rewritten o (.coding false) rest ∧
      (∃ p ∈ pendings {} (ws ++ x ++ rest), p.text = x ∧ p.fileComment = true) ∧
      ∀ p ∈ pendings (.coding false) rest, p ∈ pendings {} (ws ++ x ++ rest) := by
  obtain ⟨g, gs, hd, hg, hc, hshown, hpend, hrest⟩ := h.divides (o := o)
  have hopen : ∃ c r, x ++ rest = c :: r ∧ ({} : Scanner).OpensComment c r.head? := by
    cases h <;> exact ⟨_, _, rfl, .inl rfl, rfl, rfl⟩
  obtain ⟨front, hall, hfront⟩ := hd.blank_append hp hws (.inr hopen)
  rw [← List.append_assoc] at hall
  refine ⟨?_, ?_⟩
  · rw [data_annotate_none hl, ← hall.eq_passages, List.flatMap_append, List.flatMap_cons, hfront,
      hshown, hrest, List.append_assoc]
  · rw [hall.pendings_eq, List.map_append, List.map_cons, hpend]
    exact ⟨⟨g.pending, by simp, g.text_pending.trans hg, hc⟩, fun p hp => by simp [hp]⟩

/-- A file of blanks stays as it is. -/
theorem data_annotate_blank (hl : ws.length < o.bufferCapacity) (hp : o.prototypesOnly = false)
    (hws : ∀ c ∈ ws, c.isBlank = true) : (annotate o none ws).data = ws := by
  obtain ⟨front, hall, hfront⟩ := (Divides.nil {}).blank_append hp hws (.inl rfl)
  rw [List.append_nil, List.append_nil] at hall
  rw [data_annotate_none hl, ← hall.eq_passages, hfront]

end Headed

/-- A block comment ends with the first star that a slash follows, or not at all. -/
theorem exists_closer (t : Text) :
    (∃ body rest, t = body ++ closer ++ rest ∧ ¬ closer <:+: body ++ [Sym.char '*']) ∨
      ¬ closer <:+: t := by
  induction t with
  | nil => exact .inr (by decide)
  | cons c t ih =>
    by_cases hp : closer <+: c :: t
    · obtain ⟨rest, hr⟩ := hp
      exact .inl ⟨[], rest, by simpa using hr.symm, by decide⟩
    · rcases ih with ⟨body, rest, rfl, hb⟩ | hn
      · refine .inl ⟨c :: body, rest, rfl, ?_⟩
        rw [List.cons_append, List.infix_cons_iff]
        rintro (h | h)
        · exact hp (h.trans ⟨.char '/' :: rest, by simp [closer]⟩)
        · exact hb h
      · refine .inr ?_
        rw [List.infix_cons_iff]
        exact not_or.mpr ⟨hp, hn⟩

/-- How a text starts: blank throughout, with something other than a comment, or with a comment. -/
theorem exists_heading (t : Text) :
    (∀ c ∈ t, c.isBlank = true) ∨
      ∃ ws, (∀ c ∈ ws, c.isBlank = true) ∧
        ((∃ c rest, t = ws ++ c :: rest ∧ c.isBlank = false ∧
            ¬ ({} : Scanner).OpensComment c rest.head?) ∨
          ∃ x rest, t = ws ++ x ++ rest ∧ HeaderComment x rest) := by
  rcases hd : t.dropWhile Sym.isBlank with _ | ⟨c, rest⟩
  · exact .inl (List.dropWhile_eq_nil_iff.mp hd)
  refine .inr ⟨t.takeWhile Sym.isBlank, fun c hc => List.mem_takeWhile_imp hc, ?_⟩
  have ht : t = t.takeWhile Sym.isBlank ++ c :: rest := by rw [← hd, List.takeWhile_append_dropWhile]
  have hc : c.isBlank = false := by
    have := List.head?_dropWhile_not Sym.isBlank t
    simpa [hd] using this
  by_cases ho : ({} : Scanner).OpensComment c rest.head?
  · refine .inr ?_
    obtain ⟨-, rfl, ho⟩ := ho
    cases rest with
    | nil => simp [Scanner.opensComment] at ho
    | cons d y =>
      simp only [Scanner.opensComment, List.head?_cons, Option.some.injEq, Bool.or_eq_true,
        decide_eq_true_eq] at ho
      rcases ho with rfl | rfl
      · rcases exists_closer y with ⟨body, rest, rfl, hb⟩ | hb
        · refine ⟨_, rest, ?_, .block body rest hb⟩
          simpa [closer] using ht
        · refine ⟨_, [], ?_, .unclosed y hb⟩
          simpa using ht
      · refine ⟨_, y.dropWhile (!·.isNewline), ?_, .line (y.takeWhile (!·.isNewline)) _ ?_ ?_⟩
        · rw [List.append_assoc, List.cons_append, List.cons_append, List.takeWhile_append_dropWhile]
          exact ht
        · exact fun c hc => by simpa using List.mem_takeWhile_imp hc
        · intro c hc
          have := List.head?_dropWhile_not (fun c : Sym => !c.isNewline) y
          simpa [Option.mem_def.mp hc] using this
  · exact .inl ⟨c, rest, ht, hc, ho⟩

end DocBlock
