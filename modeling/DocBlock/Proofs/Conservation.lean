import Mathlib
import DocBlock.Proofs.TopComment
import DocBlock.Proofs.Written

/-! Nothing of the source is lost. What a page leaves out is a comment outside bodies, which a block
takes the place of; everything else is written, once and in order. -/

namespace DocBlock

open Scanner (Moment)

/-- The edit takes these moments: it keeps or cuts their symbols, and it cuts comments only. -/
def Edit.Takes (e : Edit) (ms : List Moment) : Prop :=
  e.source = ms.map (·.sym) ∧ ∀ t, e = .cut t → ∀ m ∈ ms, m.inTopComment = true

/-- The edits take all moments, each of them once and in order. -/
def Conserves (es : List Edit) (ms : List Moment) : Prop :=
  ∃ parts : List (List Moment), List.Forall₂ Edit.Takes es parts ∧ parts.flatten = ms

theorem Edit.takes_insert (t : Text) : (Edit.insert t).Takes [] :=
  ⟨rfl, by simp⟩

theorem Edit.takes_keep {t : Text} {ms : List Moment} (h : t = ms.map (·.sym)) :
    (Edit.keep t).Takes ms :=
  ⟨h, by simp⟩

namespace Conserves

variable {es es' : List Edit} {ms ms' : List Moment}

theorem append (h : Conserves es ms) (h' : Conserves es' ms') :
    Conserves (es ++ es') (ms ++ ms') := by
  obtain ⟨parts, hp, rfl⟩ := h
  obtain ⟨parts', hp', rfl⟩ := h'
  exact ⟨parts ++ parts', List.rel_append hp hp', List.flatten_append⟩

theorem inserts (h : ∀ e ∈ es, ∃ t, e = .insert t) : Conserves es [] := by
  refine ⟨es.map fun _ => [], ?_, by simp⟩
  induction es with
  | nil => exact .nil
  | cons e es ih =>
    obtain ⟨⟨t, rfl⟩, hs⟩ := List.forall_mem_cons.mp h
    exact .cons (Edit.takes_insert t) (ih hs)

theorem flatMap {α : Type} {l : List α} {f : α → List Edit} {k : α → List Moment}
    (h : ∀ a ∈ l, Conserves (f a) (k a)) : Conserves (l.flatMap f) (l.flatMap k) := by
  induction l with
  | nil => exact ⟨[], .nil, rfl⟩
  | cons a l ih =>
    obtain ⟨ha, h⟩ := List.forall_mem_cons.mp h
    exact ha.append (ih h)

theorem source_eq (h : Conserves es ms) : es.flatMap Edit.source = ms.map (·.sym) := by
  obtain ⟨parts, hp, rfl⟩ := h
  induction hp with
  | nil => rfl
  | cons h hs ih => simp [h.1, ih]

/-- What no comment outside bodies holds is written in order. -/
theorem sublist (h : Conserves es ms) :
    ((ms.filter (!·.inTopComment)).map (·.sym)).Sublist (es.flatMap Edit.written) := by
  obtain ⟨parts, hp, rfl⟩ := h
  induction hp with
  | nil => simp
  | @cons e ms es parts h hs ih =>
    simp only [List.flatten_cons, List.filter_append, List.map_append, List.flatMap_cons]
    refine List.Sublist.append ?_ ih
    cases e with
    | keep t =>
      obtain rfl : t = ms.map (·.sym) := h.1
      exact List.filter_sublist.map _
    | cut t =>
      have hn : ms.filter (!·.inTopComment) = [] := by simpa using h.2 t rfl
      simp [hn]
    | insert t =>
      obtain rfl : ms = [] := by simpa [Edit.source] using h.1.symm
      simp

end Conserves

section Annotate

variable {o : Options} {plate : Option Boilerplate.Reading} {full : Nat → Bool} {g : Passage}

/-- The block of a function goes where its description ends, if it has one, and before the declarator
otherwise. -/
theorem Passage.Sound.exists_block (h : g.Sound full) :
    ∃ i j : Nat, i ≤ j ∧ g.pending.blockStart = i ∧ g.pending.blockStop = j ∧
      ∀ m ∈ (g.moments.take j).drop i, m.inTopComment = true := by
  obtain ⟨-, hs, hc⟩ := h.inTopComment
  unfold Pending.blockStart Pending.blockStop
  by_cases hd : g.pending.description.isClosed = true
  · obtain ⟨k, -, hk, hall⟩ := hc hd
    exact ⟨0, k, k.zero_le, by simp [hd, hs], by simp [hd, hk], by simpa using hall⟩
  · refine ⟨(g.pending.function.start - 1).toNat, (g.pending.function.start - 1).toNat, le_rfl,
      ?_, ?_, ?_⟩
    · rw [if_neg hd]
      omega
    · rw [if_neg hd]
      omega
    · simp [List.drop_eq_nil_of_le]

theorem Passage.Sound.conserves_page (h : g.Sound full) (hp : o.prototypesOnly = false) :
    Conserves (g.pending.page o plate).edits g.moments := by
  have ht : g.text = g.moments.map (·.sym) := by simp [Passage.moments]
  have hpt := g.text_pending
  unfold Pending.page
  split
  · next hf =>
    obtain ⟨es, he, ha⟩ := Page.edits_fileComment plate g.pending
    rw [he, ← List.singleton_append]
    have hcut : Conserves [.cut g.pending.text] g.moments := by
      refine ⟨[g.moments], .cons ⟨hpt.trans ht, ?_⟩ .nil, by simp⟩
      exact fun _ _ => h.inTopComment.1 hf
    simpa using hcut.append (.inserts ha)
  · split
    · obtain ⟨i, j, hij, hi, hj, hall⟩ := h.exists_block
      have hz : g.pending.slice 0 i = g.text.take i := by
        simpa [hpt] using g.pending.slice_natCast 0 i
      simp only [Pending.functionPage, hp, hi, hj, hz, Pending.slice_natCast,
        Pending.sliceFrom_natCast, hpt, Bool.false_eq_true, if_false]
      refine ⟨[g.moments.take i, [], (g.moments.take j).drop i, g.moments.drop j], ?_, ?_⟩
      · refine .cons (Edit.takes_keep ?_) (.cons (Edit.takes_insert _) (.cons ⟨?_, fun _ _ => hall⟩
          (.cons (Edit.takes_keep ?_) .nil))) <;> simp [Edit.source, ht]
      · have hs : g.moments.take i = (g.moments.take j).take i := by
          rw [List.take_take, min_eq_left hij]
        simp only [List.flatten_cons, List.flatten_nil, List.nil_append, List.append_nil]
        rw [hs, ← List.append_assoc, List.take_append_drop, List.take_append_drop]
    · simp only [Pending.plainPage, hp, Bool.false_eq_true, if_false]
      exact ⟨[g.moments], .cons (Edit.takes_keep (hpt.trans ht)) .nil, by simp⟩

theorem Passage.Sound.conserves (h : g.Sound full) (hp : o.prototypesOnly = false) :
    Conserves (g.edits o plate) g.moments := by
  have hm : Conserves ((g.moments.flatMap Moment.events).flatMap
      fun e => (e.page o plate).edits) [] := by
    refine .inserts fun e he => ?_
    obtain ⟨x, hx, he⟩ := List.mem_flatMap.mp he
    obtain ⟨m, -, hx⟩ := List.mem_flatMap.mp hx
    rcases m.mem_events hx with rfl | rfl
    · simp [Event.page] at he
    · exact Page.adds_fileHeader o plate e he
  simpa [Passage.edits] using hm.append (h.conserves_page hp)

/-- A run that comes to its end writes every symbol of the text once and in order, but for comments
outside bodies, which it may leave out, and adds text between them. -/
theorem annotate_conserves (o : Options) (plate : Option Boilerplate.Reading) (t : Text)
    (hp : o.prototypesOnly = false) (hf : (annotate o plate t).fault = none) :
    ∃ (edits : List Edit) (parts : List (List Moment)),
      edits.flatMap Edit.source = t ∧
      edits.flatMap Edit.written = (annotate o plate t).data ∧
      parts.flatten = Scanner.moments {} t ∧
      List.Forall₂ Edit.Takes edits parts ∧
      (((Scanner.moments {} t).filter (!·.inTopComment)).map (·.sym)).Sublist
        (annotate o plate t).data := by
  set full : Nat → Bool := fun l => o.bufferCapacity ≤ l
  have hd := divides_passages full {} t
  have hs := hd.sound Scanner.valid_initial
  have hc : Conserves ((pages o plate t).flatMap Page.edits) (Scanner.moments {} t) := by
    rw [edits_pages, ← hd.moments_eq]
    exact .flatMap fun g hg => (hs g hg).conserves hp
  rw [data_annotate hf]
  obtain ⟨parts, hparts, hflat⟩ := id hc
  exact ⟨_, parts, hc.source_eq.trans (Scanner.map_sym_moments t), rfl, hflat, hparts, hc.sublist⟩

theorem annotate_conserves_overflow :
    let o : Options := { bufferCapacity := 20, bufferCapacity_pos := by decide }
    let t := Text.ofString "int x;\n/* sum */ int f(void) { return 1 + 2; }"
    o.prototypesOnly = false ∧ (annotate o none t).fault = none ∧
      ∃ (edits : List Edit) (parts : List (List Moment)),
        edits.flatMap Edit.source = t ∧
        edits.flatMap Edit.written = (annotate o none t).data ∧
        parts.flatten = Scanner.moments {} t ∧
        List.Forall₂ Edit.Takes edits parts ∧
        (((Scanner.moments {} t).filter (!·.inTopComment)).map (·.sym)).Sublist
          (annotate o none t).data :=
  ⟨rfl, fault_annotate_none, annotate_conserves _ none _ rfl fault_annotate_none⟩

end Annotate

end DocBlock
