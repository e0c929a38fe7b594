import Mathlib
import DocBlock.Proofs.Heading

/-! Code survives: what a text is turned into holds the same code, provided that each block ends where
it should and is not put into a literal. -/

namespace DocBlock

open Scanner (Moment)

namespace Pending

/-- The block does not fall into a literal, and the symbol moved below it stays what it is. -/
def WellPlaced (p : Pending) : Prop :=
  p.description.isClosed = true ∨
    if p.function.start = 0 then (p.text.dropWhile Sym.isBlank).head? ≠ some (.char '#')
    else (p.sliceFrom p.blockStop).head? ≠ some (.char '\'') ∧
      (p.sliceFrom p.blockStop).head? ≠ some (.char '"') ∧
      ¬ [.char '/', .char '*'] <+: p.sliceFrom p.blockStop
  deriving Decidable

/-- What is written for the pending text is read as comment as far as it is new. -/
def KeepsCode (o : Options) (p : Pending) : Prop :=
  if p.fileComment then (Page.fileComment none p).written.Sealed
  else if p.isFunction then (p.block o).comment.Sealed ∧ p.WellPlaced else True
  deriving Decidable

end Pending

/-- What is written for the event is read as comment as far as it is new. -/
def Event.KeepsCode (o : Options) : Event → Prop
  | .flush p => p.KeepsCode o
  | _ => True

instance (o : Options) : DecidablePred (Event.KeepsCode o)
  | .flush p => inferInstanceAs (Decidable (p.KeepsCode o))
  | .header | .full _ | .strayBrace => .isTrue trivial

namespace Passage

variable {full : Nat → Bool} {g : Passage} {o : Options} {n : Option Sym}

/-- The description of a function holds no code, and behind it code is read. -/
theorem Sound.code_description (h : g.Sound full) (hs : g.start.Fresh)
    (hf : g.pending.isFunction = true) (hd : g.pending.description.isClosed = true) :
    ∃ u c v, g.text = u ++ [c] ++ v ∧ (∀ m, codeOf (g.start.momentsTo m (u ++ [c])) = []) ∧
      (g.pending.description.stop = (u ++ [c]).length ∧
          (∀ m, (g.start.runTo m (u ++ [c])).reading = .coding false) ∨
        g.pending.description.stop = u.length ∧ c.isNewline = true ∧
          ∀ m, (g.start.runTo m (u ++ [c])).reading = .coding true) := by
  obtain ⟨-, -, hfill⟩ := h.inTopComment
  obtain ⟨u, c, v, ht, hbr, hcl⟩ := h.described hs hd
  obtain ⟨k, hk, hstop, hall⟩ := hfill hd
  have hsv : (g.start.runTo (some c) u).Valid := hs.valid.runTo u
  obtain ⟨hi, hle⟩ : (g.start.runTo (some c) u).mode.isComment = true ∧ u.length ≤ k := by
    rcases hcl with ⟨hc, he⟩ | ⟨hc, he⟩ <;> exact ⟨by simp [hc.1, Mode.isComment], by omega⟩
  refine ⟨u, c, v, by simp [ht], fun m => ?_, ?_⟩
  · rw [Scanner.momentsTo_concat, ← take_moments ht]
    refine codeOf_eq_nil fun x hx => ?_
    rcases List.mem_append.mp hx with hx | hx
    · exact isCode_of_inTopComment (hall x (List.take_subset_take_left _ hle hx))
    · rw [List.mem_singleton.mp hx]
      simp [Moment.isCode, Moment.inComment, hi]
  · rcases hcl with ⟨hc, he⟩ | ⟨hc, he⟩
    · refine .inl ⟨by simp [he], fun m => ?_⟩
      have hresume : (g.start.runTo (some c) u).resume = .normal := by
        refine (hsv.resume_of_isComment hi).resolve_right fun hr => ?_
        exact h.not_inDirective hf ht (by simp) hbr (.inr ⟨.inr hi, hr⟩)
      have hblank : c.isBlank = false := by
        rw [hc.2.2.2]
        decide
      rw [Scanner.runTo_concat, Scanner.reading_of_normal hsv.toSteady.step, Scanner.step_lineStart,
        hblank, Bool.and_false]
      rw [Scanner.step_mode, Scanner.stepMode_of_closesBlock hc, ← hresume]
    · refine .inr ⟨he, hc.2.2, fun m => ?_⟩
      rw [Scanner.runTo_concat, Scanner.reading_of_normal hsv.toSteady.step, Scanner.step_lineStart,
        Scanner.stepMode_of_closesLine hc, Sym.isBlank_of_isNewline hc.2.2, Bool.and_true]
      rw [Scanner.step_mode, Scanner.stepMode_of_closesLine hc]

theorem Sound.code_described (h : g.Sound full) (hs : g.start.Fresh)
    (hf : g.pending.isFunction = true) (hp : o.prototypesOnly = false)
    (hd : g.pending.description.isClosed = true) (hb : (g.pending.block o).comment.Sealed) :
    ReadAlike g.start n (g.written o) g.text := by
  have hread := Scanner.reading_of_normal hs.valid.toSteady (h.start_mode hs hf)
  have hcomment (m : Option Sym) := Scanner.code_block (n := m) hread
    (FunctionBlock.not_closer_inside hb)
  simp only [← FunctionBlock.comment_eq] at hcomment
  obtain ⟨u, c, v, ht, hcode, ⟨hk, hr⟩ | ⟨hk, hc, hr⟩⟩ := h.code_description hs hf hd
  · rw [h.written_described hs hp hf hd hk, ht, List.drop_left]
    exact ReadAlike.append ⟨by rw [hcode, (hcomment _).1], by rw [hr, (hcomment _).2]⟩
  · rw [h.written_described hs hp hf hd hk, ht, List.append_assoc u, List.drop_left,
      ← List.append_assoc, ← List.append_assoc]
    obtain ⟨hcn, hrn⟩ := Scanner.code_newline (n := v.head?.or n) (hcomment (some c)).2 hc
    refine ReadAlike.append ⟨?_, ?_⟩
    · rw [hcode, Scanner.momentsTo_concat, codeOf_append, (hcomment _).1, codeOf_cons, hcn]
      rfl
    · rw [hr, Scanner.runTo_concat, hrn]

theorem Sound.code_moved (h : g.Sound full) (hs : g.start.Fresh)
    (hf : g.pending.isFunction = true) (hp : o.prototypesOnly = false)
    (hd : g.pending.description.isClosed = false) (hb : (g.pending.block o).comment.Sealed)
    (hw : g.pending.WellPlaced) (hz : g.pending.function.start ≠ 0) :
    ReadAlike g.start n (g.written o) g.text := by
  obtain ⟨u, d, c, v, hm⟩ := h.exists_moved hs hz
  obtain ⟨hq₁, hq₂, hopen⟩ : d ≠ .char '\'' ∧ d ≠ .char '"' ∧ ¬ (d = .char '/' ∧ c = .char '*') := by
    have := hw.resolve_left (by simp [hd])
    rw [if_neg hz, (hm.blockStop hd).2] at this
    simpa [eq_comm] using this
  have hno : ¬ (d = .char '/' ∧ Scanner.opensComment (some c) = true) := by
    rintro ⟨rfl, ho⟩
    have hc : c ≠ .char '/' := by
      rintro rfl
      exact absurd hm.word.2.2.1 (by decide)
    exact hopen ⟨rfl, by simpa [Scanner.opensComment, hc] using ho⟩
  have hplain := h.plain_moved hs hf hd hm hq₁ hq₂
  -- The line break keeps what is read before it, and the block is no code.
  obtain ⟨hcu, hpu⟩ := hplain.break
  obtain ⟨hcb, hrb⟩ := hpu.code_block (n := some d) (hs.valid.runTo u).toSteady
    (FunctionBlock.not_closer_inside hb)
  rw [← FunctionBlock.comment_eq] at hcb hrb
  -- Below the block the moved symbol and the one after it read as they did.
  have hpair (m : Option Sym) := hplain.code_pair (n := m) (hs.valid.runTo u).toSteady
    (.inl hm.word.1) hm.word.2.2.1 hm.word.2.2.2
  have hmoved (m : Option Sym) := Scanner.Plain.code_pair (s := .coding false) (n := m) (.inl rfl)
    (Scanner.coding_fresh false).valid.toSteady (Scanner.plain_moved rfl hq₁ hq₂ hno)
    hm.word.2.2.1 hm.word.2.2.2
  rw [h.written_moved hs hp hf hd hm, hm.text]
  set x : Text := .char '\n' :: (g.pending.block o).comment with hx
  have ha : u ++ x ++ d :: c :: v = u ++ x ++ [d, c] ++ v := by simp
  have ha' : u ++ d :: c :: v = u ++ [d, c] ++ v := by simp
  rw [ha, ha']
  refine ReadAlike.append ?_
  generalize v.head?.or n = m
  have hrs : ((g.start.runTo (some (.char '\n')) u).runTo (some d) x).reading =
      (Scanner.coding false).reading := hrb
  unfold ReadAlike
  have hhead (y : Option Sym) : x.head?.or y = some (.char '\n') := rfl
  simp only [Scanner.momentsTo_append, Scanner.runTo_append, codeOf_append, hhead, List.head?_cons,
    Option.some_or]
  rw [hcu, hcb, Scanner.codeOf_congr hrs, Scanner.reading_runTo hrs, (hmoved m).1,
    (hmoved m).2, (hpair m).1, (hpair m).2, List.append_nil]
  exact ⟨rfl, rfl⟩

theorem Sound.code_atStart (h : g.Sound full) (hs : g.start.Fresh)
    (hf : g.pending.isFunction = true) (hp : o.prototypesOnly = false)
    (hd : g.pending.description.isClosed = false) (hb : (g.pending.block o).comment.Sealed)
    (hw : g.pending.WellPlaced) (hz : g.pending.function.start = 0) :
    ReadAlike g.start n (g.written o) g.text := by
  have hmode := h.start_mode hs hf
  have hread := (Scanner.reading_of_normal hs.valid.toSteady hmode).trans
    (Scanner.reading_coding g.start.lineStart).symm
  have hhead : (g.text.dropWhile Sym.isBlank).head? ≠ some (.char '#') := by
    have := hw.resolve_left (by simp [hd])
    rwa [if_pos hz, text_pending] at this
  have hne : g.text.dropWhile Sym.isBlank ≠ [] := by
    obtain ⟨u, c, ht, hend⟩ := h.exists_bodyEnd hf
    have hc := (Scanner.mem_step_iff.mp hend).2.2
    intro he
    have := List.dropWhile_eq_nil_iff.mp he c (by simp [ht])
    rw [hc] at this
    exact absurd this (by decide)
  obtain ⟨hcb, hrb⟩ := Scanner.Plain.code_block (n := some (.char '\n')) (.inl hmode)
    hs.valid.toSteady (FunctionBlock.not_closer_inside hb)
  rw [← FunctionBlock.comment_eq] at hcb hrb
  obtain ⟨hcn, hrn⟩ := Scanner.code_newline (n := g.text.head?.or n) hrb (c := .char '\n') (by decide)
  have hrn' := hrn.trans (Scanner.reading_coding true).symm
  obtain ⟨hcl, hrl⟩ := Scanner.code_lineStart (n := n) hne hhead true g.start.lineStart
  unfold ReadAlike
  rw [h.written_atStart hs hp hf hd hz, Scanner.momentsTo_append, Scanner.runTo_append, codeOf_append]
  simp only [List.head?_cons, Option.some_or]
  generalize g.start.runTo (some (.char '\n')) (.char '\n' :: (g.pending.block o).comment) = r at *
  rw [hcb, Scanner.momentsTo_cons, Scanner.runTo_cons, codeOf_cons, hcn, Scanner.codeOf_congr hrn',
    Scanner.reading_runTo hrn', hcl, hrl, Scanner.codeOf_congr hread, Scanner.reading_runTo hread]
  exact ⟨rfl, rfl⟩

theorem Sound.code_written (h : g.Sound full) (hs : g.start.Fresh) (hp : o.prototypesOnly = false)
    (hk : g.pending.KeepsCode o) : ReadAlike g.start n (g.written o) g.text := by
  cases hf : g.pending.isFunction
  · rw [h.written_plain hs hp hf]
    exact ⟨rfl, rfl⟩
  · obtain ⟨hb, hw⟩ : (g.pending.block o).comment.Sealed ∧ g.pending.WellPlaced := by
      simpa [Pending.KeepsCode, h.fileComment_eq_false hs, hf] using hk
    cases hd : g.pending.description.isClosed
    · by_cases hz : g.pending.function.start = 0
      · exact h.code_atStart hs hf hp hd hb hw hz
      · exact h.code_moved hs hf hp hd hb hw hz
    · exact h.code_described hs hf hp hd hb

end Passage

namespace Divides

variable {full : Nat → Bool} {s s' : Scanner} {t : Text} {gs : List Passage} {o : Options}

theorem code_written (h : Divides full s t gs) (hl : ∀ l, full l = false) (hs : s.Fresh)
    (hp : o.prototypesOnly = false) (hk : ∀ g ∈ gs, g.pending.KeepsCode o)
    (hr : s'.reading = s.reading) :
    codeOf (s'.moments (gs.flatMap (Passage.written o))) = codeOf (s.moments t) := by
  induction h generalizing s' with
  | nil s => rfl
  | @last s t whole room =>
    have hg : Passage.Sound full ⟨s, t, none, []⟩ := ⟨whole, hs.valid, .inl rfl⟩
    have hw := hg.code_written (n := none) hs hp (hk _ (by simp))
    rw [← Scanner.momentsTo_none, Scanner.codeOf_congr hr, ← Scanner.momentsTo_none]
    simpa using hw.1
  | @after s t rest gs whole due others ih =>
    have hg : Passage.Sound full ⟨s, t, rest.head?, []⟩ := ⟨whole, hs.valid, .inl rfl⟩
    obtain ⟨u, c, rfl, hf⟩ := whole.exists_flushAfter (due.resolve_left (by simp [hl]))
    rw [List.forall_mem_cons] at hk
    set w := gs.flatMap (Passage.written o) with hw
    obtain ⟨hcode, hread⟩ := hg.code_written (n := w.head?) hs hp hk.1
    obtain ⟨hh, hfs⟩ := Scanner.runTo_headless hs.headerComment hs.fileStart u (n := some c)
    have hfresh : (s.runTo rest.head? (u ++ [c])).Fresh := by
      rw [Scanner.runTo_concat]
      exact Scanner.fresh_of_flushAfter (hs.valid.runTo u) hh hfs hf
    have hsame := Scanner.eq_of_flushAfter w.head? hf
    rw [List.flatMap_cons, Scanner.moments_append, Scanner.moments_append, codeOf_append,
      codeOf_append, ← hw, Scanner.codeOf_congr hr, hcode, hsame.1]
    congr 1
    refine ih hfresh hk.2 ?_
    rw [Scanner.reading_runTo hr, hread, hsame.2]
  | @before s t rest c gs whole room due others ih =>
    have hg : Passage.Sound full
        ⟨s, t, some c, ((s.runTo (some c) t).moment rest.head? c).closing⟩ :=
      (Divides.before whole room due others).sound hs.valid _ (by simp)
    rw [List.forall_mem_cons] at hk
    obtain ⟨hcode, hread⟩ := hg.code_written (n := some c) hs hp hk.1
    obtain ⟨hh, hfs⟩ := Scanner.runTo_headless hs.headerComment hs.fileStart t (n := some c)
    obtain ⟨hfresh, ho⟩ := Scanner.fresh_of_flush (hs.valid.runTo t) hh hfs due
    obtain ⟨r, hw, -⟩ := others.opens_written hl hfresh hp ho
    have hhead : (gs.flatMap (Passage.written o)).head? = some c := by rw [hw]; rfl
    rw [List.flatMap_cons, Scanner.moments_append, Scanner.moments_append, codeOf_append,
      codeOf_append, hhead, Scanner.codeOf_congr hr, hcode]
    congr 1
    refine ih hfresh hk.2 ?_
    rw [Scanner.reading_runTo hr, hread]

end Divides

theorem codeOf_newline {c : Sym} (hc : c.isNewline = true) (s : Scanner) {b : Bool}
    (h : s.reading = .coding b) (t : Text) :
    codeOf (s.moments (c :: t)) = codeOf ((Scanner.coding true).moments t) := by
  obtain ⟨hcode, hr⟩ := Scanner.code_newline (n := t.head?) h hc
  rw [Scanner.moments_cons, codeOf_cons, hcode, ← Scanner.momentsTo_none,
    Scanner.codeOf_congr (hr.trans (Scanner.reading_coding true).symm), Scanner.momentsTo_none]
  rfl

/-- The code of a text lies behind the comment that it starts with. -/
theorem code_header {ws x rest : Text} (hws : ∀ c ∈ ws, c.isBlank = true) (h : HeaderComment x rest) :
    code (ws ++ x ++ rest) = codeOf ((Scanner.coding false).moments rest) := by
  obtain ⟨hrun, -⟩ := Scanner.momentsTo_blank (n := (x ++ rest).head?) hws
  have hblank : codeOf (({} : Scanner).momentsTo (x ++ rest).head? ws) = [] := by
    refine codeOf_eq_nil fun m hm => isCode_of_blank (hws m.sym ?_)
    have := List.mem_map_of_mem (f := fun m : Moment => m.sym) hm
    rwa [Scanner.map_sym_momentsTo] at this
  obtain ⟨g, gs, hd, hg, hc, -⟩ := h.divides (o := {})
  obtain ⟨rest', hheads, -⟩ := hd.heads
  obtain rfl : rest = rest' := by
    have := hheads.text
    rw [hg] at this
    exact List.append_cancel_left this
  have hcomment : codeOf (({} : Scanner).momentsTo rest.head? x) = [] := by
    have hall := (hd.sound Scanner.valid_initial g (by simp)).inTopComment.1 hc
    rw [Passage.moments, hheads.start, hheads.next, hg] at hall
    exact codeOf_eq_nil fun m hm => isCode_of_inTopComment (hall m hm)
  rw [code, List.append_assoc, Scanner.moments_append, codeOf_append, hblank, hrun,
    Scanner.moments_append, codeOf_append, hcomment, List.nil_append, List.nil_append]
  obtain ⟨-, -, -, -, ⟨-, -, -, -, -, hstop⟩ | ⟨-, rfl | ⟨hstop, c, r, rfl, hc⟩⟩⟩ := h.scan
  · rw [hstop]
  · rfl
  · rw [hstop, codeOf_newline hc _ (Scanner.reading_coding false), Scanner.moments_cons,
      (Scanner.step_heading_newline hc).1, codeOf_cons,
      isCode_of_blank (m := Scanner.moment _ _ c) (Sym.isBlank_of_isNewline hc)]
    rfl

theorem code_annotate (o : Options) (t : Text) (hp : o.prototypesOnly = false)
    (hl : t.length < o.bufferCapacity) (hn : ∀ f ∈ o.filename, ¬ closer <:+: f)
    (hk : ∀ e ∈ events o.bufferCapacity t, e.KeepsCode o) :
    code (annotate o none t).data = code t := by
  have hsame (b : Bool) (u : Text) (hu : ∀ p ∈ pendings (.coding b) u, p.KeepsCode o) :
      codeOf ((Scanner.coding b).moments (rewritten o (.coding b) u)) =
        codeOf ((Scanner.coding b).moments u) := by
    have hd := divides_passages (fun _ => false) (.coding b) u
    rw [hd.rewritten_eq]
    refine hd.code_written (fun _ => rfl) (Scanner.coding_fresh b) hp (fun g hg => hu _ ?_) rfl
    exact List.mem_map_of_mem hg
  rcases exists_heading t with hb | ⟨ws, hws, ⟨c, rest, rfl, hc, ho⟩ | ⟨x, rest, rfl, hx⟩⟩
  · rw [data_annotate_blank hl hp hb]
  · set u := ws ++ c :: rest with hu
    have hnl : (Sym.char '\n').isNewline = true := by decide
    have hblock : HeaderComment (.char '/' :: .char '*' :: (headerInside o ++ [Sym.char '*', .char '/']))
        (.char '\n' :: .char '\n' :: rewritten o (.coding true) u) :=
      .block _ _ (not_closer_headerInside hn)
    have hcode := code_header (List.forall_mem_nil (Sym.isBlank · = true)) hblock
    have hpend : pendings (.coding true) u = pendings {} u :=
      (pendings_congr (alike_first hws hc ho)).symm
    rw [data_annotate_first hl hws hc ho, headerText_eq]
    calc code (.char '/' :: .char '*' :: (headerInside o ++ [Sym.char '*', .char '/']) ++
            [.char '\n', .char '\n'] ++ rewritten o (.coding true) u)
        = codeOf ((Scanner.coding false).moments
            (.char '\n' :: .char '\n' :: rewritten o (.coding true) u)) := by
          rw [← hcode]
          simp
      _ = codeOf ((Scanner.coding true).moments (rewritten o (.coding true) u)) := by
          rw [codeOf_newline hnl _ (Scanner.reading_coding false),
            codeOf_newline hnl _ (Scanner.reading_coding true)]
      _ = codeOf ((Scanner.coding true).moments u) := by
          refine hsame true u fun p hp => hk (.flush p) (mem_pendings hl ?_)
          rwa [← hpend]
      _ = code u := by
          rw [code, ← Scanner.momentsTo_none, ← Scanner.momentsTo_none]
          exact Scanner.codeOf_congr (s := .coding true) (show _ = ({} : Scanner).reading from rfl) u
  · obtain ⟨hdata, ⟨p, hpm, rfl, hpc⟩, hmem⟩ := data_annotate_header hl hp hws hx
    have hseal : (headerBlock p.text).Sealed := by
      have := hk (.flush p) (mem_pendings hl hpm)
      rwa [Event.KeepsCode, Pending.KeepsCode, if_pos hpc, Page.written_fileComment] at this
    rw [hdata, code_header hws (.of_sealed hseal _), code_header hws hx]
    exact hsame false rest fun q hq => hk (.flush q) (mem_pendings hl (hmem q hq))

/-- A function without a comment, one with a line comment, and what only looks like code. -/
theorem code_annotate_functions :
    let o : Options := {}
    let t : Text := Text.ofString 
      "int f(void) \x7b /* \x7d */ return '\"'; \x7d\n// g\nstatic int g() \x7b\x7d\n"
    (∀ e ∈ events o.bufferCapacity t, e.KeepsCode o) ∧ code (annotate o none t).data = code t := by
  intro o t
  have hk : ∀ e ∈ events o.bufferCapacity t, e.KeepsCode o := by decide +kernel
  exact ⟨hk, code_annotate o t rfl (by decide +kernel) (by simp [o]) hk⟩

/-- A returned text that ends a comment ends the block early. -/
theorem code_annotate_spills :
    let t : Text := Text.ofString "int f(void) \x7b return \"*/\"; \x7d"
    code (annotate {} none t).data ≠ code t := by
  decide +kernel

end DocBlock
