import Mathlib
import DocBlock.Proofs.Faults
import DocBlock.Proofs.Rerun

/-! Boilerplate that is copied, and then read again in the header. It is copied whole, piece by piece.
It is looked for in what is left of the header without its frame, and the frame of the header may take
the end of the boilerplate with it, so whether the header stays as it is depends on how the
boilerplate begins and ends. -/

namespace DocBlock

open Scanner (Moment)
open Text (ofString)

namespace Text

variable {t : Text}

theorem occursIn_iff {part : Text} : part.occursIn t = true ↔ part <:+: t := by
  induction t with
  | nil => simp [occursIn]
  | cons c t ih =>
    rw [occursIn, Bool.or_eq_true, List.isPrefixOf_iff_prefix, ih, List.infix_cons_iff]

/-- The text, ended by a newline if it does not end a line itself. -/
def endLine (t : Text) : Text :=
  if (t.getLast?.getD (.char '\n')).isNewline then t else t ++ [Sym.char '\n']

theorem exists_endLine (t : Text) :
    ∃ e, t.endLine = t ++ e ∧ (e = [] ∨ e = [Sym.char '\n']) := by
  unfold endLine
  split
  · exact ⟨[], by simp, .inl rfl⟩
  · exact ⟨_, rfl, .inr rfl⟩

theorem strip_endLine (t : Text) : t.endLine.strip = t.strip := by
  obtain ⟨e, he, rfl | rfl⟩ := t.exists_endLine
  · rw [he, List.append_nil]
  · rw [he, strip_concat (by decide)]

end Text

namespace Boilerplate

variable {size : Nat} {b t header : Text}

theorem flatten_chunks (hs : size ≠ 0) (t : Text) : (chunks size t).flatten = t := by
  fun_induction chunks size t with
  | case1 t h => simp [h.resolve_right hs]
  | case2 t h ih => rw [List.flatten_cons, ih, List.take_append_drop]

theorem nil_notMem_chunks (size : Nat) (t : Text) : [] ∉ chunks size t := by
  fun_induction chunks size t with
  | case1 => simp
  | case2 t h ih =>
    rw [not_or] at h
    simpa [h.1, h.2] using ih

/-- The last symbol copied is the last one there is. -/
theorem getLast?_chunks (hs : size ≠ 0) (t : Text) :
    (chunks size t).getLast?.bind (·.getLast?) = t.getLast? := by
  conv_rhs => rw [← flatten_chunks hs t]
  have hne := nil_notMem_chunks size t
  rcases List.eq_nil_or_concat' (chunks size t) with h | ⟨cs, c, h⟩
  · simp [h]
  · have hc : c ≠ [] := by
      rintro rfl
      simp [h] at hne
    rw [h, List.getLast?_concat, List.flatten_append, List.flatten_singleton,
      List.getLast?_append_of_ne_nil _ hc]
    rfl

/-- However large the pieces are, copying writes the text, ended by a newline. -/
theorem flatten_pieces (hs : size ≠ 0) (t : Text) : (pieces size t).flatten = t.endLine := by
  unfold pieces Text.endLine
  simp only [getLast?_chunks hs]
  split
  · exact flatten_chunks hs t
  · rw [List.flatten_append, flatten_chunks hs]
    rfl

theorem isContained_iff :
    isContained b header = true ↔ needle b ≠ [] ∧ needle b <:+: header := by
  simp [isContained, Text.occursIn_iff]

/-- What is copied holds what a comparison with the same file looks for. -/
theorem needle_infix_flatten_pieces (hs : size ≠ 0) (t : Text) : needle t <:+: (pieces size t).flatten := by
  rw [flatten_pieces hs]
  obtain ⟨e, he, -⟩ := t.exists_endLine
  rw [he]
  exact t.strip_infix.trans (List.prefix_append t e).isInfix

/-- Wherever the pieces end, copying writes the whole text and one newline exactly if the text ends in
the middle of a line. So the text is found in its copy, unless it is blank, whether the comparison
reads the file or remembers it. -/
theorem copied_whole (hs : 1 ≤ size) (t : Text) :
    (pieces size t).flatten =
      t ++ (if t.getLast?.any fun c => c ≠ .char '\n' && c ≠ .char '\r' then ofString "\n" else []) ∧
    (needle t).occursIn (pieces size t).flatten = true ∧
    ∀ m : Boilerplate, m.seen = none ∨ m.seen = some t →
      m.compare (.ok t) (pieces size t).flatten = .ok (decide (needle t ≠ []), { seen := some t }) := by
  have hsize : size ≠ 0 := Nat.one_le_iff_ne_zero.mp hs
  have hneedle := needle_infix_flatten_pieces hsize t
  refine ⟨?_, Text.occursIn_iff.mpr hneedle, ?_⟩
  · rw [flatten_pieces hsize, Text.endLine]
    cases hlast : t.getLast? with
    | none => simp [Sym.isNewline]
    | some c =>
      have hnewline : c.isNewline = !(c ≠ .char '\n' && c ≠ .char '\r') := by simp [Sym.isNewline]
      rw [Option.getD_some, Option.any_some, hnewline]
      cases c ≠ .char '\n' && c ≠ .char '\r' <;> simp [ofString]
  · have hfound : isContained t (pieces size t).flatten = decide (needle t ≠ []) := by
      rw [Bool.eq_iff_iff, isContained_iff, decide_eq_true_iff]
      exact and_iff_left hneedle
    rintro ⟨seen⟩ (rfl | rfl)
    · simp only [compare, Except.map, hfound]
    · simp only [compare, hfound]

/-- The last piece is full, and the text does not end a line. -/
theorem copied_whole_boundary :
    let t := ofString " ab\nc "
    1 ≤ 3 ∧ chunks 3 t = [ofString " ab", ofString "\nc "] ∧
    (pieces 3 t).flatten = ofString " ab\nc \n" ∧
    compare {} (.ok t) (pieces 3 t).flatten = .ok (true, { seen := some t }) := by
  intro t
  obtain ⟨hwhole, -, hfound⟩ := @copied_whole 3 (by decide) t
  exact ⟨by decide, by decide +kernel, hwhole, hfound {} (.inl rfl)⟩

end Boilerplate

theorem Page.written_append {p q : Page} (h : p.fault = none) :
    (p ++ q).written = p.written ++ q.written := by
  change (p.append q).written = _
  simp [Page.append, h, Page.written]

theorem Page.boilerplate_ok (b : Text) :
    (Page.boilerplate (some (.ok b))).fault = none ∧
      (Page.boilerplate (some (.ok b))).written = b.endLine := by
  refine ⟨rfl, ?_⟩
  rw [← Boilerplate.flatten_pieces (show Boilerplate.chunkSize ≠ 0 by decide)]
  simp [Page.boilerplate, Boilerplate.copy, Except.map, Page.written, Edit.written, List.flatMap_map,
    List.flatMap_id']

/-- The block that a header comment is turned into, with boilerplate. -/
def headerBlockWith (b x : Text) : Text :=
  ofString "/**\n\t" ++ x.commentBody ++ ofString "\n" ++
    (if Boilerplate.isContained b x.commentBody then [] else b.endLine) ++ ofString "*/"

/-- The header of a file that starts without a comment, with boilerplate. -/
def headerWith (o : Options) (b : Text) : Text :=
  ofString "/**\n\t@file " ++ o.shownName ++
    ofString "\n\n\tPut a description of the file here.\n" ++ b.endLine ++
    ofString "\n\t@todo Edit file comment (automatically generated by insertdox)\n*/"

theorem Page.written_fileComment_ok (b : Text) (p : Pending) :
    (Page.fileComment (some (.ok b)) p).written = headerBlockWith b p.text := by
  have hmissing : (Page.missingBoilerplate (some (.ok b)) p.text.commentBody).fault = none ∧
      (Page.missingBoilerplate (some (.ok b)) p.text.commentBody).written =
        if Boilerplate.isContained b p.text.commentBody then [] else b.endLine := by
    obtain ⟨hfault, hwritten⟩ := Page.boilerplate_ok b
    cases hc : Boilerplate.isContained b p.text.commentBody <;>
      simp only [Page.missingBoilerplate, Boilerplate.compare, Except.map, hc]
    · exact ⟨hfault, hwritten⟩
    · simp [Page.written]
  rw [Page.fileComment, Page.written_append, Page.written_append, Page.written_append, hmissing.2]
  · simp [Page.written, Page.insert, Edit.written, headerBlockWith]
  · rfl
  · rfl
  · rw [Page.fault_append, hmissing.1]
    rfl

theorem Page.written_fileHeader_ok (o : Options) (b : Text) :
    (Page.fileHeader o (some (.ok b))).written = headerWith o b ++ ofString "\n\n" := by
  obtain ⟨hfault, hwritten⟩ := Page.boilerplate_ok b
  rw [Page.fileHeader, Page.written_append, Page.written_append, hwritten]
  · simp [Page.written, Page.insert, Edit.written, headerWith, ofString]
  · rfl
  · rw [Page.fault_append, hfault]
    rfl

/-! Where the block stands first in a file. -/

/-- Where there is room for it, the text is read as the header comment of a file that it starts. -/
def LeadsFile (k : Text) : Prop :=
  ∀ (capacity : Int) (rest : Text), k.length < capacity →
    ∃ p others, events capacity (k ++ rest) = .flush p :: others ∧ p.fileComment = true ∧ p.text = k

/-- A passage that nothing has filled is none the shorter for a capacity that it does not reach. -/
theorem Passage.Heads.of_room {full : Nat → Bool} {s : Scanner} {t rest : Text} {g : Passage}
    (h : g.Heads (fun _ => false) s t rest) (hroom : ∀ l ≤ g.text.length, full l = false) :
    g.Heads full s t rest := by
  have hfull : g.Full full ↔ g.Full (fun _ => false) := by simp [Full, hroom]
  constructor
  case text => exact h.text
  case start => exact h.start
  case next => exact h.next
  case whole => exact ⟨h.whole.text_ne, h.whole.flush, h.whole.flushAfter, fun l _ hl => hroom l hl.le⟩
  case ends => exact h.ends.imp_left hfull.mpr
  case closing_of_full => exact fun hf => h.closing_of_full (hfull.mp hf)
  case closing_of_room => exact fun hf => h.closing_of_room fun hn => hf (hfull.mpr hn)

/-- No brace within a comment is stray. -/
theorem Scanner.Moment.not_isStrayBrace {s : Scanner} {n : Option Sym} {t : Text} {m : Moment}
    (hm : m ∈ s.momentsTo n t) (h : m.inTopComment = true) :
    m.before.isStrayBrace m.sym = false := by
  obtain ⟨n', hn⟩ := exists_step_of_mem hm
  by_contra hb
  simp only [isStrayBrace, Bool.not_eq_false, Bool.and_eq_true, decide_eq_true_eq] at hb
  obtain ⟨⟨hmode, hc⟩, hz⟩ := hb
  rw [hn, hc] at h
  simp [inTopComment, stepMode, stepNormal, closeBrace, hmode, Mode.isComment] at h

theorem HeaderComment.leadsFile {k : Text} (h : ∀ rest, HeaderComment k rest) : LeadsFile k := by
  intro capacity rest hroom
  have hcapacity : 0 < capacity := by omega
  obtain ⟨closing, hheads, -⟩ := (h rest).heads
  set g : Passage := ⟨{}, k, rest.head?, closing⟩
  have hheads' : g.Heads (fun l => capacity ≤ l) {} (k ++ rest) rest := by
    apply hheads.of_room
    intro l hl
    have hle : l ≤ k.length := hl
    rw [decide_eq_false_iff_not]
    omega
  have hdivides := Divides.cons hheads' (divides_passages _ g.stop rest)
  have hsound := hdivides.sound Scanner.valid_initial g (List.mem_cons_self ..)
  obtain ⟨hcomment, hheader⟩ := (h rest).markers closing
  have hpending : g.pending.fileComment = true := hsound.fileComment_iff.mpr hcomment
  have hsilent : g.moments.flatMap Moment.events = [] := by
    rw [List.flatMap_eq_nil_iff]
    intro m hm
    have hstray := Moment.not_isStrayBrace hm (hsound.inTopComment.1 hpending m hm)
    rw [Moment.events_eq hm, hstray, if_neg (hheader m hm)]
    rfl
  have hnofull : ¬ capacity ≤ g.text.length := by
    show ¬ capacity ≤ k.length
    omega
  refine ⟨g.pending, (passages (fun l => capacity ≤ l) g.stop [] g.stop rest).flatMap
    (Passage.events capacity), ?_, hpending, Passage.text_pending g⟩
  rw [events_eq hcapacity, ← hdivides.eq_passages, List.flatMap_cons, Passage.events, hsilent,
    if_neg hnofull]
  rfl

theorem not_closer_newline {a b : Text} (ha : ¬ closer <:+: a) (hb : ¬ closer <:+: b) :
    ¬ closer <:+: a ++ Sym.char '\n' :: b := by
  apply not_closer_append ha
  · rw [List.infix_cons_iff, not_or]
    refine ⟨?_, hb⟩
    rw [closer, List.cons_prefix_cons]
    rintro ⟨h, -⟩
    exact absurd h (by decide)
  · exact .inr (by simp)

theorem not_closer_endLine {b : Text} (h : ¬ closer <:+: b) : ¬ closer <:+: b.endLine := by
  obtain ⟨e, he, rfl | rfl⟩ := b.exists_endLine
  · rwa [he, List.append_nil]
  · rw [he]
    exact not_closer_newline h (by decide +kernel)

theorem not_closer_star {a : Text} (h : ¬ closer <:+: a) : ¬ closer <:+: a ++ [Sym.char '*'] :=
  not_closer_append h (by decide +kernel) (.inr (by simp))

/-- The block with boilerplate ends where it should. -/
theorem leadsFile_headerBlockWith {b x : Text} (hb : ¬ closer <:+: b)
    (hx : ¬ closer <:+: x.commentBody) : LeadsFile (headerBlockWith b x) := by
  apply HeaderComment.leadsFile
  intro rest
  set plate := if Boilerplate.isContained b x.commentBody then [] else b.endLine with hplate
  have hshape : headerBlockWith b x = .char '/' :: .char '*' ::
      ((ofString "*\n\t" ++ x.commentBody ++ Sym.char '\n' :: plate) ++ [Sym.char '*', .char '/']) := by
    simp [headerBlockWith, ofString, ← hplate]
  rw [hshape]
  refine .block _ rest (not_closer_star (not_closer_newline ?_ ?_))
  · exact not_closer_append (by decide +kernel) hx (.inl (by decide +kernel))
  · rw [hplate]
    split
    · decide +kernel
    · exact not_closer_endLine hb

theorem leadsFile_headerWith {o : Options} {b : Text} (hb : ¬ closer <:+: b)
    (ho : ∀ f ∈ o.filename, ¬ closer <:+: f) : LeadsFile (headerWith o b) := by
  apply HeaderComment.leadsFile
  intro rest
  have hshape : headerWith o b = .char '/' :: .char '*' ::
      ((ofString "*\n\t@file " ++ o.shownName ++ Sym.char '\n' ::
        (ofString "\n\tPut a description of the file here." ++ Sym.char '\n' ::
          (b.endLine ++ Sym.char '\n' ::
            ofString "\t@todo Edit file comment (automatically generated by insertdox)\n"))) ++
        [Sym.char '*', .char '/']) := by
    simp [headerWith, ofString]
  rw [hshape]
  refine .block _ rest (not_closer_star (not_closer_newline ?_ (not_closer_newline ?_
    (not_closer_newline (not_closer_endLine hb) ?_))))
  · exact not_closer_append (by decide +kernel) (not_closer_shownName ho) (.inl (by decide +kernel))
  · decide +kernel
  · decide +kernel

/-! What is left of the block when it is read again. -/

section Body

variable {b x : Text}

theorem commentBody_headerBlockWith (hc : Boilerplate.isContained b x.commentBody = false) :
    (headerBlockWith b x).commentBody =
      Text.commentBody (x.commentBody ++ Sym.char '\n' :: b) := by
  obtain ⟨e, he, hframe⟩ := b.exists_endLine
  have hshape : headerBlockWith b x =
      ofString "/**\n\t" ++ (x.commentBody ++ Sym.char '\n' :: b) ++ (e ++ ofString "*/") := by
    simp [headerBlockWith, hc, he, ofString]
  rw [hshape]
  refine Text.trim_append (by decide) ?_
  rw [List.forall_mem_append]
  refine ⟨?_, by decide⟩
  rcases hframe with rfl | rfl <;> decide

/-- Boilerplate that looks like a frame is left off as a whole. -/
theorem commentBody_of_frame (hc : Boilerplate.isContained b x.commentBody = false)
    (hb : ∀ c ∈ b, c.isFrame = true) : (headerBlockWith b x).commentBody = x.commentBody := by
  have hframe : ∀ c ∈ Sym.char '\n' :: b, c.isFrame = true :=
    List.forall_mem_cons.mpr ⟨by decide, hb⟩
  have hdrop := Text.trim_append (p := Sym.isFrame) (a := []) (t := x.commentBody) (by simp) hframe
  rw [commentBody_headerBlockWith hc]
  exact hdrop.trans (Text.trim_trim _ x)

/-- Behind a comment, boilerplate loses its end only. -/
theorem commentBody_of_ne_nil (hc : Boilerplate.isContained b x.commentBody = false)
    (hb : ∃ c ∈ b, c.isFrame = false) (hx : x.commentBody ≠ []) :
    (headerBlockWith b x).commentBody =
      x.commentBody ++ Sym.char '\n' :: b.trimRight Sym.isFrame := by
  have hhead : ∀ c ∈ (x.commentBody ++ Sym.char '\n' :: b).head?, c.isFrame = false := by
    rw [List.head?_append_of_ne_nil _ hx]
    exact Text.head?_trim _ x
  rw [commentBody_headerBlockWith hc, Text.commentBody, Text.trim_eq_trimRight hhead]
  have hsplit : x.commentBody ++ Sym.char '\n' :: b = (x.commentBody ++ [Sym.char '\n']) ++ b := by simp
  rw [hsplit, Text.trimRight_append_of_exists hb]
  simp

/-- Where there was no comment, boilerplate loses both ends. -/
theorem commentBody_of_nil (hx : x.commentBody = []) :
    (headerBlockWith b x).commentBody = b.commentBody := by
  have hc : Boilerplate.isContained b x.commentBody = false := by
    rw [← Bool.not_eq_true, Boilerplate.isContained_iff, hx, List.infix_nil]
    rintro ⟨hne, he⟩
    exact hne he
  have hdrop := Text.trim_append (p := Sym.isFrame) (a := [Sym.char '\n']) (b := []) (t := b)
    (by decide) (by simp)
  rw [commentBody_headerBlockWith hc, hx]
  simpa [Text.commentBody] using hdrop

end Body

/-! Whether the boilerplate is found again, and whether the block stays as it is. -/

namespace Boilerplate

variable {b : Text}

/-- The last symbol, but for one line feed, is no frame. -/
def EndsPlain (b : Text) : Prop :=
  ∃ u c, c.isFrame = false ∧ (b = u ++ [c] ∨ b = u ++ [c, Sym.char '\n'])

theorem isBlank_of_isFrame {c : Sym} (h : c.isFrame = false) : c.isBlank = false := by
  simp only [Sym.isFrame, Bool.or_eq_false_iff] at h
  exact h.1.1

/-- Without the frame at its end, boilerplate is what is copied but for the newline. -/
theorem endLine_eq_iff (hb : ∃ c ∈ b, c.isFrame = false) :
    b.trimRight Sym.isFrame ++ [Sym.char '\n'] = b.endLine ↔ EndsPlain b := by
  constructor
  · intro h
    obtain ⟨u, c, hu, hc⟩ := Text.exists_trimRight hb
    obtain ⟨e, he, rfl | rfl⟩ := b.exists_endLine
    · refine ⟨u, c, hc, .inr ?_⟩
      rw [he, hu, List.append_nil] at h
      simp [← h]
    · refine ⟨u, c, hc, .inl ?_⟩
      rw [he] at h
      rw [← hu, List.append_cancel_right h]
  · rintro ⟨u, c, hc, hb⟩
    have hnewline : c.isNewline = false := Sym.isNewline_of_not_blank (isBlank_of_isFrame hc)
    have hlast : Text.trimRight Sym.isFrame (u ++ [c]) = u ++ [c] := Text.trimRight_eq_self (by simpa using hc)
    rcases hb with rfl | rfl
    · rw [hlast]
      simp [Text.endLine, hnewline]
    · have hsplit : u ++ [c, Sym.char '\n'] = (u ++ [c]) ++ [Sym.char '\n'] := by simp
      rw [hsplit, Text.trimRight_append_of_forall (by decide), hlast]
      simp [Text.endLine, Sym.isNewline]

end Boilerplate

section Again

variable {b x : Text}

theorem headerBlockWith_of_contained (h : Boilerplate.isContained b x.commentBody = true) :
    headerBlockWith b x = headerBlock x := by
  simp [headerBlockWith, headerBlock, h, ofString]

theorem headerBlockWith_congr {y : Text} (h : x.commentBody = y.commentBody) :
    headerBlockWith b x = headerBlockWith b y := by
  rw [headerBlockWith, headerBlockWith, h]

/-- Boilerplate that was found before is found again. -/
theorem commentBody_of_contained (h : Boilerplate.isContained b x.commentBody = true) :
    (headerBlockWith b x).commentBody = x.commentBody := by
  rw [headerBlockWith_of_contained h, commentBody_headerBlock]

/-- Behind a comment, boilerplate that ends plainly is found whole. -/
theorem isContained_of_endsPlain (hb : ∃ c ∈ b, c.isFrame = false)
    (h : b.trimRight Sym.isFrame ++ [Sym.char '\n'] = b.endLine) (y : Text) :
    Boilerplate.isContained b (y ++ Sym.char '\n' :: b.trimRight Sym.isFrame) = true := by
  have hplain : ∃ c ∈ b, c.isBlank = false := by
    obtain ⟨c, hc, hframe⟩ := hb
    exact ⟨c, hc, Boilerplate.isBlank_of_isFrame hframe⟩
  have hneedle : Boilerplate.needle b = (b.trimRight Sym.isFrame).strip := calc
    b.strip = b.endLine.strip := b.strip_endLine.symm
    _ = (b.trimRight Sym.isFrame ++ [Sym.char '\n']).strip := by rw [h]
    _ = (b.trimRight Sym.isFrame).strip := Text.strip_concat (by decide) _
  rw [Boilerplate.isContained_iff]
  refine ⟨Text.trim_ne_nil hplain, ?_⟩
  rw [hneedle]
  refine (Text.strip_infix _).trans ?_
  exact ⟨y ++ [Sym.char '\n'], [], by simp⟩

theorem headerBlockWith_of_not_contained (h : Boilerplate.isContained b x.commentBody = false) :
    headerBlockWith b x =
      ofString "/**\n\t" ++ (x.commentBody ++ Sym.char '\n' :: b.endLine ++ ofString "*/") := by
  simp [headerBlockWith, h, ofString]

/-- Without a comment the second block starts with boilerplate, and the first with a newline. -/
theorem headerBlockWith_again_ne (hb : ∃ c ∈ b, c.isFrame = false) (hx : x.commentBody = [])
    (hc : Boilerplate.isContained b x.commentBody = false) :
    headerBlockWith b (headerBlockWith b x) ≠ headerBlockWith b x := by
  intro he
  have hhead : ∀ c ∈ b.commentBody.head?, c.isFrame = false := Text.head?_trim _ b
  obtain ⟨c, u, hu⟩ := List.exists_cons_of_ne_nil (Text.trim_ne_nil hb)
  change b.commentBody = c :: u at hu
  rw [headerBlockWith, commentBody_of_nil hx, hu, headerBlockWith_of_not_contained hc, hx] at he
  simp only [List.append_assoc] at he
  have he' := List.append_cancel_left he
  simp only [List.cons_append, List.nil_append, List.cons.injEq] at he'
  have hframe := hhead c (by simp [hu])
  rw [he'.1] at hframe
  exact absurd hframe (by decide)

/-- Behind a comment the block stays if the boilerplate is read back as it was written. -/
theorem headerBlockWith_again_iff_endsPlain (hb : ∃ c ∈ b, c.isFrame = false)
    (hx : x.commentBody ≠ []) (hc : Boilerplate.isContained b x.commentBody = false) :
    headerBlockWith b (headerBlockWith b x) = headerBlockWith b x ↔ Boilerplate.EndsPlain b := by
  have hbody := commentBody_of_ne_nil hc hb hx
  rw [← Boilerplate.endLine_eq_iff hb]
  set z := b.trimRight Sym.isFrame with hz
  set again := if Boilerplate.isContained b (x.commentBody ++ Sym.char '\n' :: z) then []
    else b.endLine with hagain
  have hsecond : headerBlockWith b (headerBlockWith b x) = ofString "/**\n\t" ++
      (x.commentBody ++ Sym.char '\n' :: (z ++ [Sym.char '\n'] ++ again) ++ ofString "*/") := by
    rw [headerBlockWith, hbody, ← hagain]
    simp [ofString]
  have hiff : headerBlockWith b (headerBlockWith b x) = headerBlockWith b x ↔
      z ++ [Sym.char '\n'] ++ again = b.endLine := by
    rw [hsecond, headerBlockWith_of_not_contained hc, List.append_cancel_left_eq,
      List.append_cancel_right_eq, List.append_cancel_left_eq, List.cons.injEq, and_iff_right rfl]
  rw [hiff]
  constructor
  · intro he
    by_cases hfound : Boilerplate.isContained b (x.commentBody ++ Sym.char '\n' :: z) = true
    · rwa [hagain, if_pos hfound, List.append_nil] at he
    · -- A second copy makes the block longer.
      rw [hagain, if_neg hfound] at he
      have := congrArg List.length he
      simp only [List.length_append, List.length_singleton] at this
      omega
  · intro he
    rw [hagain, if_pos (isContained_of_endsPlain hb he _), List.append_nil, he]

/-- When the block that a header comment is turned into is left as it is by a second run. -/
theorem headerBlockWith_again_iff :
    headerBlockWith b (headerBlockWith b x) = headerBlockWith b x ↔
      Boilerplate.isContained b x.commentBody = true ∨ (∀ c ∈ b, c.isFrame = true) ∨
        x.commentBody ≠ [] ∧ Boilerplate.EndsPlain b := by
  by_cases hc : Boilerplate.isContained b x.commentBody = true
  · exact iff_of_true (headerBlockWith_congr (commentBody_of_contained hc)) (.inl hc)
  rw [Bool.not_eq_true] at hc
  by_cases hframe : ∀ c ∈ b, c.isFrame = true
  · exact iff_of_true (headerBlockWith_congr (commentBody_of_frame hc hframe)) (.inr (.inl hframe))
  have hplain : ∃ c ∈ b, c.isFrame = false := by simpa using hframe
  simp only [hc, Bool.false_eq_true, hframe, false_or]
  by_cases hx : x.commentBody = []
  · exact iff_of_false (headerBlockWith_again_ne hplain hx hc) fun h => h.1 hx
  · rw [headerBlockWith_again_iff_endsPlain hplain hx hc, and_iff_right hx]

/-- Boilerplate whose ends are no frame is found again. -/
theorem isContained_again (hb : ∃ c ∈ b, c.isBlank = false)
    (hlast : ∀ c ∈ (Boilerplate.needle b).getLast?, c.isFrame = false)
    (hfirst : x.commentBody = [] → ∀ c ∈ (Boilerplate.needle b).head?, c.isFrame = false) :
    Boilerplate.isContained b (headerBlockWith b x).commentBody = true := by
  by_cases hc : Boilerplate.isContained b x.commentBody = true
  · rwa [commentBody_of_contained hc]
  rw [Bool.not_eq_true] at hc
  have hne : Boilerplate.needle b ≠ [] := Text.trim_ne_nil hb
  obtain ⟨u, c, hu⟩ := List.eq_nil_or_concat' (Boilerplate.needle b) |>.resolve_left hne
  have hframe : c.isFrame = false := hlast c (by simp [hu])
  obtain ⟨a, e, hsplit, ha, he⟩ := Text.exists_trim Sym.isBlank b
  change b = a ++ Boilerplate.needle b ++ e at hsplit
  have hblank : ∀ d ∈ e, d.isFrame = true := fun d hd => by simp [Sym.isFrame, he d hd]
  have hblank' : ∀ d ∈ a, d.isFrame = true := fun d hd => by simp [Sym.isFrame, ha d hd]
  rw [Boilerplate.isContained_iff]
  refine ⟨hne, ?_⟩
  by_cases hx : x.commentBody = []
  · have hbody : b.commentBody = Boilerplate.needle b := calc
      b.commentBody = Text.trim Sym.isFrame (a ++ Boilerplate.needle b ++ e) :=
        congrArg (Text.trim Sym.isFrame) hsplit
      _ = Text.trim Sym.isFrame (Boilerplate.needle b) := Text.trim_append hblank' hblank
      _ = Boilerplate.needle b := Text.trim_eq_self (hfirst hx) hlast
    rw [commentBody_of_nil hx, hbody]
  · have hplain : ∃ c ∈ b, c.isFrame = false := ⟨c, by rw [hsplit, hu]; simp, hframe⟩
    have hends : ∀ d ∈ (a ++ Boilerplate.needle b).getLast?, d.isFrame = false := by
      rwa [List.getLast?_append_of_ne_nil _ hne]
    have htrim : b.trimRight Sym.isFrame = a ++ Boilerplate.needle b := calc
      b.trimRight Sym.isFrame = Text.trimRight Sym.isFrame (a ++ Boilerplate.needle b ++ e) :=
        congrArg (Text.trimRight Sym.isFrame) hsplit
      _ = Text.trimRight Sym.isFrame (a ++ Boilerplate.needle b) := Text.trimRight_append_of_forall hblank
      _ = a ++ Boilerplate.needle b := Text.trimRight_eq_self hends
    rw [commentBody_of_ne_nil hc hplain hx, htrim]
    exact ⟨x.commentBody ++ Sym.char '\n' :: a, [], by simp⟩

/-- In the header of a file that starts without a comment, text stands before and behind the
boilerplate, so nothing of it is lost. -/
theorem headerBlockWith_headerWith (o : Options) (hb : ∃ c ∈ b, c.isBlank = false) :
    headerBlockWith b (headerWith o b) = headerWith o b := by
  set y : Text := ofString "@file " ++ o.shownName ++
    ofString "\n\n\tPut a description of the file here.\n" ++ b.endLine ++
    ofString "\n\t@todo Edit file comment (automatically generated by insertdox)" with hy
  have hblock : headerWith o b = ofString "/**\n\t" ++ y ++ ofString "\n*/" := by
    simp [headerWith, hy, ofString]
  have hbody : (headerWith o b).commentBody = y := by
    rw [hblock, Text.commentBody, Text.trim_append (by decide) (by decide)]
    apply Text.trim_eq_self
    · intro c hc
      obtain rfl : c = .char '@' := by simpa [hy, ofString] using hc.symm
      decide
    · intro c hc
      rw [hy, List.getLast?_append] at hc
      obtain rfl : c = .char ')' := by simpa [ofString] using hc.symm
      decide
  have hfound : Boilerplate.isContained b (headerWith o b).commentBody = true := by
    rw [Boilerplate.isContained_iff, hbody]
    refine ⟨Text.trim_ne_nil hb, (Text.strip_infix b).trans ?_⟩
    obtain ⟨e, he, -⟩ := b.exists_endLine
    exact ⟨ofString "@file " ++ o.shownName ++
      ofString "\n\n\tPut a description of the file here.\n",
      e ++ ofString "\n\t@todo Edit file comment (automatically generated by insertdox)",
      by simp [hy, he]⟩
  rw [headerBlockWith_of_contained hfound, headerBlock, hbody, hblock]

end Again

/-- A header with boilerplate, read again as the header comment of a file. The one made for a file
without a comment is written as it is. The one that a header comment is turned into is, exactly if the
comment held the boilerplate before, or the boilerplate looks like a frame, or there was a comment and
the boilerplate ends plainly. No boilerplate is added to it a second time as long as what is looked for
does not end like a frame, nor begin like one where there was no comment. -/
theorem boilerplate_reread (o : Options) {b : Text} (hb : ∃ c ∈ b, c.isBlank = false)
    (hk : ¬ closer <:+: b) :
    ((∀ f ∈ o.filename, ¬ closer <:+: f) →
      ∃ k, (Page.fileHeader o (some (.ok b))).written = k ++ ofString "\n\n" ∧ LeadsFile k ∧
        ∀ q : Pending, q.fileComment = true → q.text = k → (q.page o (some (.ok b))).written = k) ∧
    ∀ p : Pending, p.fileComment = true → ¬ closer <:+: p.text.commentBody →
      let k := (p.page o (some (.ok b))).written
      LeadsFile k ∧ ∀ q : Pending, q.fileComment = true → q.text = k →
        ((q.page o (some (.ok b))).written = k ↔
          Boilerplate.isContained b p.text.commentBody = true ∨ (∀ c ∈ b, c.isFrame = true) ∨
            p.text.commentBody ≠ [] ∧ Boilerplate.EndsPlain b) ∧
        ((∀ c ∈ (Boilerplate.needle b).getLast?, c.isFrame = false) →
          (p.text.commentBody = [] → ∀ c ∈ (Boilerplate.needle b).head?, c.isFrame = false) →
          (q.page o (some (.ok b))).written = headerBlock k) := by
  have hpage : ∀ q : Pending, q.fileComment = true →
      (q.page o (some (.ok b))).written = headerBlockWith b q.text := by
    intro q hq
    rw [Pending.page, if_pos hq, Page.written_fileComment_ok]
  constructor
  · intro hname
    refine ⟨headerWith o b, Page.written_fileHeader_ok o b, leadsFile_headerWith hk hname, ?_⟩
    intro q hq ht
    rw [hpage q hq, ht, headerBlockWith_headerWith o hb]
  · intro p hp hbody k
    have hkp : k = headerBlockWith b p.text := hpage p hp
    refine ⟨hkp ▸ leadsFile_headerBlockWith hk hbody, fun q hq ht => ?_⟩
    rw [hpage q hq, ht, hkp]
    refine ⟨headerBlockWith_again_iff, fun hlast hfirst => ?_⟩
    exact headerBlockWith_of_contained (isContained_again hb hlast hfirst)

/-- A comment and boilerplate of one line each. -/
theorem boilerplate_reread_line :
    let b := ofString "Copyright (c) Example Corp"
    let p : Pending := { syms := (ofString "/* My file */").toArray, fileComment := true }
    let k := (p.page {} (some (.ok b))).written
    let q : Pending := { syms := k.toArray, fileComment := true }
    LeadsFile k ∧ (q.page {} (some (.ok b))).written = k ∧ k = headerBlock k := by
  intro b p k q
  obtain ⟨hleads, hagain⟩ := (boilerplate_reread {} (b := b) (by decide) (by decide)).2 p rfl (by decide)
  have hq : q.text = k := by simp [q, Pending.text]
  obtain ⟨hiff, hadded⟩ := hagain q rfl hq
  have hsame := hiff.mpr (.inr (.inr ⟨by decide, ofString "Copyright (c) Example Cor", .char 'p',
    by decide, .inl (by decide)⟩))
  exact ⟨hleads, hsame, hsame.symm.trans (hadded (by decide) (by decide))⟩

/-- A star at the end of the boilerplate is taken for the frame of the header, so the boilerplate is not
found and added once more. -/
theorem boilerplate_reread_adds :
    let b := some (.ok (ofString "x*"))
    let k := (annotate {} b (ofString "/*h*/")).data
    k = ofString "/**\n\th\nx*\n*/" ∧
      (annotate {} b k).data = ofString "/**\n\th\nx\nx*\n*/" := by
  decide +kernel

end DocBlock
