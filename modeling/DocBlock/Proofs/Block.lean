import Mathlib
import DocBlock.Proofs.Code
import DocBlock.Proofs.FunctionPassage

/-! How a passage behind the header is written: as it is, or as a block and the function below it. -/

namespace DocBlock

open Scanner (Moment)

namespace FunctionBlock

/-- What stands between the delimiters of the block. -/
def inside (b : FunctionBlock) : Text :=
  Text.ofString "*\n" ++ (if b.tags.isStatic then Text.ofString "\t@internal\n\n" else []) ++
    Text.ofString "\t" ++ b.description ++ Text.ofString "\n" ++ b.tags.render ++ Text.ofString "\n"

theorem comment_eq (b : FunctionBlock) :
    b.comment = .char '/' :: .char '*' :: (b.inside ++ [Sym.char '*', .char '/']) := by
  simp [comment, inside, Text.ofString]

theorem not_closer_inside {b : FunctionBlock} (h : b.comment.Sealed) :
    ¬ closer <:+: b.inside ++ [Sym.char '*'] := by
  rw [comment_eq] at h
  exact h.not_closer

end FunctionBlock

namespace Pending

variable {o : Options} {p : Pending}

def block (o : Options) (p : Pending) : FunctionBlock := .ofPending o p (p.declarator o)

theorem existing_block :
    (p.block o).existing.isSome = p.description.isClosed ∧
      (p.block o).atStart = decide (p.function.start = 0) := by
  refine ⟨?_, rfl⟩
  unfold block FunctionBlock.ofPending
  split <;> simp_all

theorem written_functionPage (hp : o.prototypesOnly = false) :
    (p.functionPage o).written =
      p.slice 0 p.blockStart ++ (p.block o).render ++ p.sliceFrom p.blockStop := by
  simp [functionPage, hp, Page.written, Edit.written, block]

theorem slice_zero (p : Pending) (i : Nat) : p.slice 0 i = p.text.take i := by
  simpa using p.slice_natCast 0 i

end Pending

namespace Passage

variable {full : Nat → Bool} {g : Passage} {o : Options}

/-- What a passage writes, without boilerplate. -/
def written (o : Options) (g : Passage) : Text := (g.pending.page o none).written

theorem Sound.fileComment_eq_false (h : g.Sound full) (hs : g.start.Fresh) :
    g.pending.fileComment = false := by
  by_contra hc
  obtain ⟨m, hm, hx⟩ := count_pos.mp (h.fileComment_iff.mp (by simpa using hc))
  have hall := Scanner.forall_before_of_step (P := fun s => s.fileStart = false)
    (Q := fun _ => True) (fun s c n h _ => by simp [h]) hs.fileStart (fun _ _ => trivial) m hm
  obtain ⟨n, hmn⟩ := Scanner.exists_step_of_mem hm
  rw [hmn] at hx
  have := (Scanner.mem_step_iff.mp hx).1
  rw [hall] at this
  contradiction

theorem Sound.written_plain (h : g.Sound full) (hs : g.start.Fresh)
    (hp : o.prototypesOnly = false) (hf : g.pending.isFunction = false) : g.written o = g.text := by
  simp [written, Pending.page, h.fileComment_eq_false hs, hf, Pending.plainPage, hp, Page.written,
    Edit.written]

theorem Sound.written_function (h : g.Sound full) (hs : g.start.Fresh)
    (hp : o.prototypesOnly = false) (hf : g.pending.isFunction = true) :
    g.written o = g.pending.slice 0 g.pending.blockStart ++ (g.pending.block o).render ++
      g.pending.sliceFrom g.pending.blockStop := by
  rw [← Pending.written_functionPage hp, written, Pending.page, h.fileComment_eq_false hs, hf]
  rfl

/-- A block takes the place of the description. -/
theorem Sound.written_described (h : g.Sound full) (hs : g.start.Fresh)
    (hp : o.prototypesOnly = false) (hf : g.pending.isFunction = true)
    (hd : g.pending.description.isClosed = true) {k : Nat} (hk : g.pending.description.stop = k) :
    g.written o = (g.pending.block o).comment ++ g.text.drop k := by
  obtain ⟨-, hstart, -⟩ := h.inTopComment
  have he : (g.pending.block o).existing.isSome = true := Pending.existing_block.1.trans hd
  have hz : g.pending.slice 0 0 = [] := g.pending.slice_zero 0
  rw [h.written_function hs hp hf, Pending.blockStart, Pending.blockStop, if_pos hd, if_pos hd,
    hstart, hz, hk, Pending.sliceFrom_natCast, text_pending, FunctionBlock.render, if_pos he,
    List.nil_append]

/-- The declarator starts with `c`, and `d` is the symbol before it. -/
structure Moved (g : Passage) (u : Text) (d c : Sym) (v : Text) : Prop where
  text : g.text = u ++ d :: c :: v
  start : g.pending.function.start = u.length + 1
  braces : ((g.start.runTo (some d) u).step d (some c)).1.braces = 0
  word : ((g.start.runTo (some d) u).step d (some c)).1.StartsWord c

theorem Sound.exists_moved (h : g.Sound full) (hs : g.start.Fresh)
    (hz : g.pending.function.start ≠ 0) : ∃ u d c v, g.Moved u d c v := by
  obtain ⟨u, c, v, ht, hst, hb, hw⟩ := (h.function_start hs).resolve_left fun hn => hz hn.2
  obtain ⟨u, d, rfl⟩ := List.eq_nil_or_concat' u |>.resolve_left (by
    rintro rfl
    exact hz hst)
  rw [Scanner.runTo_concat] at hb hw
  exact ⟨u, d, c, v, by simp [ht], by simp [hst], hb, hw⟩

theorem Moved.blockStop {u v : Text} {d c : Sym} (hm : g.Moved u d c v)
    (hd : g.pending.description.isClosed = false) :
    g.pending.blockStart = u.length ∧ g.pending.sliceFrom g.pending.blockStop = d :: c :: v := by
  have hat : max (g.pending.function.start - 1) 0 = (u.length : Int) := by
    rw [hm.start]
    simp
  rw [Pending.blockStart, Pending.blockStop, if_neg (by simp [hd]), if_neg (by simp [hd]), hat,
    Pending.sliceFrom_natCast, text_pending, hm.text, List.drop_left]
  exact ⟨rfl, rfl⟩

/-- Code is read where the block goes, unless a literal ends with the symbol before the declarator. -/
theorem Sound.plain_moved (h : g.Sound full) (hs : g.start.Fresh) (hf : g.pending.isFunction = true)
    (hd : g.pending.description.isClosed = false) {u v : Text} {d c : Sym} (hm : g.Moved u d c v)
    (h₁ : d ≠ .char '\'') (h₂ : d ≠ .char '"') : (g.start.runTo (some d) u).Plain := by
  have hmoments : g.moments = g.start.momentsTo (some d) u ++
      (g.start.runTo (some d) u).moment (some c) d ::
        ((g.start.runTo (some d) u).step d (some c)).1.momentsTo g.next (c :: v) := by
    rw [moments, hm.text, Scanner.momentsTo_append]
    rfl
  have hmem : (g.start.runTo (some d) u).moment (some c) d ∈ g.moments.dropLast := by
    rw [hmoments, List.dropLast_append_of_ne_nil (by simp), Scanner.momentsTo_cons,
      List.dropLast_cons_cons]
    simp
  obtain ⟨he, ha⟩ := h.undescribed hs hf hd _ (List.mem_of_mem_dropLast hmem)
  exact Scanner.plain_of_step hm.word.1 hm.braces (h.flushAfter _ hmem) he ha h₁ h₂

/-- Without a description the block comes before the symbol that the declarator follows. -/
theorem Sound.written_moved (h : g.Sound full) (hs : g.start.Fresh)
    (hp : o.prototypesOnly = false) (hf : g.pending.isFunction = true)
    (hd : g.pending.description.isClosed = false) {u v : Text} {d c : Sym} (hm : g.Moved u d c v) :
    g.written o = u ++ (Sym.char '\n' :: (g.pending.block o).comment) ++ d :: c :: v := by
  obtain ⟨hi, hj⟩ := hm.blockStop hd
  obtain ⟨he, ha⟩ := Pending.existing_block (o := o) (p := g.pending)
  have hz : g.pending.function.start ≠ 0 := by
    rw [hm.start]
    omega
  rw [h.written_function hs hp hf, hi, hj, Pending.slice_zero, text_pending, hm.text, List.take_left]
  simp [FunctionBlock.render, he, ha, hd, hz, Text.ofString]

/-- Without a description and with nothing before the declarator the block comes first. -/
theorem Sound.written_atStart (h : g.Sound full) (hs : g.start.Fresh)
    (hp : o.prototypesOnly = false) (hf : g.pending.isFunction = true)
    (hd : g.pending.description.isClosed = false) (hz : g.pending.function.start = 0) :
    g.written o = .char '\n' :: (g.pending.block o).comment ++ Sym.char '\n' :: g.text := by
  obtain ⟨he, ha⟩ := Pending.existing_block (o := o) (p := g.pending)
  have hzero : g.pending.slice 0 0 = [] := g.pending.slice_zero 0
  have hrest : g.pending.sliceFrom 0 = g.text := by simpa using g.pending.sliceFrom_natCast 0
  rw [h.written_function hs hp hf, Pending.blockStart, Pending.blockStop]
  simp [hd, hz, hzero, hrest, FunctionBlock.render, he, ha, Text.ofString]

/-- A passage that starts with a comment holds more than its first symbol. -/
theorem Heads.ne_nil_of_opensComment {s : Scanner} {t rest v : Text} {c : Sym}
    (h : g.Heads full s t rest) (hl : ∀ l, full l = false) (hs : s.Fresh) (ht : g.text = c :: v)
    (ho : s.OpensComment c (v.head?.or g.next)) : v ≠ [] := by
  rintro rfl
  obtain rfl := h.start
  have hstep : g.start.step c g.next = _ := hs.step_opensComment ho
  have hstop : g.stop = (g.start.step c g.next).1 := by rw [stop, ht]; rfl
  rcases h.ends with (hf | ⟨m, hm, hx⟩) | rfl | ⟨d, r, rfl, hx⟩
  · simp [hl] at hf
  · obtain rfl : m = g.start.moment g.next c := by simpa [moments, ht, Scanner.momentsTo_cons] using hm
    rw [Scanner.moment_markers, hstep] at hx
    simp at hx
  · have := ho.2.2
    simp [h.next, Scanner.opensComment] at this
  · rw [hstep] at hstop
    have hm : g.stop.mode.isComment = true := by
      rw [hstop]
      dsimp only
      split <;> rfl
    obtain ⟨-, ho' | ⟨-, -, hh⟩⟩ := Scanner.mem_step_iff.mp hx
    · rcases ho'.1 with hn | hn <;> simp [hn, Mode.isComment] at hm
    · rw [hstop] at hh
      simp [hs.headerComment] at hh

end Passage

/-- A text that starts with a comment is written as one that does. -/
theorem Divides.opens_written {full : Nat → Bool} {o : Options} {s : Scanner} {t : Text} {c : Sym}
    {gs : List Passage} (h : Divides full s (c :: t) gs) (hl : ∀ l, full l = false) (hs : s.Fresh)
    (hp : o.prototypesOnly = false) (ho : s.OpensComment c t.head?) :
    ∃ r, gs.flatMap (Passage.written o) = c :: r ∧ s.OpensComment c r.head? := by
  cases gs with
  | nil => simpa using h.eq_nil_iff
  | cons g gs =>
    have hg := h.sound hs.valid g List.mem_cons_self
    obtain ⟨rest, hh, -⟩ := h.heads
    obtain rfl := hh.start
    obtain ⟨d, v, hd⟩ := List.exists_cons_of_ne_nil hh.whole.text_ne
    obtain ⟨rfl, rfl⟩ : c = d ∧ t = v ++ rest := by simpa [hd] using hh.text
    rw [List.head?_append, ← hh.next] at ho
    rw [List.flatMap_cons]
    cases hf : g.pending.isFunction
    · obtain ⟨x, v, rfl⟩ := List.exists_cons_of_ne_nil (hh.ne_nil_of_opensComment hl hs hd ho)
      rw [hg.written_plain hs hp hf, hd]
      exact ⟨_, rfl, ho⟩
    · have hcl : g.pending.description.isClosed = true := by
        by_contra hcl
        exact hg.not_opensComment hs hf (by simpa using hcl) hd ho
      obtain ⟨-, -, hfill⟩ := hg.inTopComment
      obtain ⟨k, -, hk, -⟩ := hfill hcl
      rw [hg.written_described hs hp hf hcl hk, FunctionBlock.comment_eq, ho.2.1]
      exact ⟨_, rfl, ho.1, rfl, rfl⟩

end DocBlock
