import Mathlib
import DocBlock.Annotation
import DocBlock.Proofs.Division

/-! What a run writes: the edits of the passages, one after the other. -/

namespace DocBlock

open Scanner (Moment)

/-- What a passage asks for: what its symbols report by themselves comes first. -/
def Passage.edits (o : Options) (plate : Option Boilerplate.Reading) (g : Passage) : List Edit :=
  (g.moments.flatMap Moment.events).flatMap (fun e => (e.page o plate).edits) ++
    (g.pending.page o plate).edits

namespace Output

variable {α : Type}

theorem append_assoc (a b c : Output α) : (a.append b).append c = a.append (b.append c) := by
  unfold append
  cases ha : a.fault <;> cases hb : b.fault <;> simp [ha, hb]

theorem concat_append (as bs : List (Output α)) :
    concat (as ++ bs) = (concat as).append (concat bs) := by
  induction as with
  | nil => simp [concat, append]
  | cons a as ih =>
    have hcons : ∀ l, concat (a :: l) = a.append (concat l) := fun _ => rfl
    rw [List.cons_append, hcons, hcons, ih, append_assoc]

theorem fault_concat {os : List (Output α)} :
    (concat os).fault = none ↔ ∀ o ∈ os, o.fault = none := by
  induction os with
  | nil => simp [concat]
  | cons a os ih =>
    have h : concat (a :: os) = a.append (concat os) := rfl
    rw [h, append, List.forall_mem_cons, ← ih]
    by_cases ha : a.fault = none
    · simp [ha]
    · simp [Option.isSome_iff_ne_none, ha]

theorem data_concat {os : List (Output α)} (h : ∀ o ∈ os, o.fault = none) :
    (concat os).data = os.flatMap (·.data) := by
  induction os with
  | nil => rfl
  | cons a os ih =>
    rw [List.forall_mem_cons] at h
    have hc : concat (a :: os) = a.append (concat os) := rfl
    simp [hc, append, h.1, ih h.2]

theorem ofPage_ok {p : Page} :
    ((ofPage .ok p : Output Sym).fault = none ↔ p.fault = none) ∧
      (p.fault = none → (ofPage .ok p : Output Sym).data = p.written) := by
  have hf : (ofPage .ok p : Output Sym).fault = none ↔ p.fault = none := by
    simp [ofPage, fault_concat, ofEdit, or_imp, forall_and]
  refine ⟨hf, fun h => ?_⟩
  rw [ofPage, data_concat (fault_concat.mp (hf.mpr h))]
  simp [ofEdit, Page.written, List.flatMap_map]

end Output

section Annotate

variable {o : Options} {plate : Option Boilerplate.Reading} {t : Text}

theorem fault_annotate :
    (annotate o plate t).fault = none ↔ ∀ p ∈ pages o plate t, p.fault = none := by
  simp [annotate, Output.fault_concat, Output.ofPage_ok]

/-- What a run without a fault writes is the edits of all pages, one after the other. -/
theorem data_annotate (h : (annotate o plate t).fault = none) :
    (annotate o plate t).data = ((pages o plate t).flatMap Page.edits).flatMap Edit.written := by
  have hp := fault_annotate.mp h
  rw [annotate, Output.data_concat (by simpa [Output.ofPage_ok] using hp), List.flatMap_map,
    List.flatMap_assoc]
  exact List.flatMap_congr fun p h => Output.ofPage_ok.2 (hp p h)

/-- The edits of a text are the edits of its passages. -/
theorem edits_pages :
    (pages o plate t).flatMap Page.edits =
      (passages (fun l => o.bufferCapacity ≤ l) {} [] {} t).flatMap (Passage.edits o plate) := by
  have hc : (0 : Int) < o.bufferCapacity := by exact_mod_cast o.bufferCapacity_pos
  rw [pages, List.flatMap_map, events_eq hc, List.flatMap_assoc]
  simp only [Nat.cast_le]
  refine List.flatMap_congr fun g _ => ?_
  unfold Passage.events Passage.edits
  split <;> simp [Event.page]

/-- Without boilerplate every run ends well. -/
theorem fault_annotate_none : (annotate o none t).fault = none := by
  have hi : ∀ a b : Page, a.fault = none → b.fault = none → (a ++ b).fault = none := by
    intro a b ha hb
    change (a.append b).fault = none
    simp [Page.append, ha, hb]
  rw [fault_annotate]
  intro p hp
  obtain ⟨e, -, rfl⟩ := List.mem_map.mp hp
  cases e with
  | header => exact hi _ _ (hi _ _ rfl rfl) rfl
  | flush q =>
    simp only [Event.page, Pending.page]
    split
    · exact hi _ _ (hi _ _ (hi _ _ rfl rfl) rfl) rfl
    · split <;> rfl
  | full | strayBrace => rfl

end Annotate

namespace Page

/-- The page writes new text only. -/
def Adds (p : Page) : Prop := ∀ e ∈ p.edits, ∃ t, e = .insert t

theorem adds_insert (t : Text) : (insert t).Adds := by
  simp [Adds, insert]

theorem adds_boilerplate (plate : Option Boilerplate.Reading) : (boilerplate plate).Adds := by
  unfold boilerplate Adds
  split
  · simp
  · split <;> simp

theorem adds_missingBoilerplate (plate : Option Boilerplate.Reading) (header : Text) :
    (missingBoilerplate plate header).Adds := by
  unfold missingBoilerplate
  split
  · simp [Adds]
  · split
    · simp [Adds]
    · exact adds_boilerplate _
    · simp [Adds]

theorem edits_append (p : Page) {q : Page} (h : q.Adds) :
    ∃ es, (p ++ q).edits = p.edits ++ es ∧ ∀ e ∈ es, ∃ t, e = .insert t := by
  change ∃ es, (p.append q).edits = p.edits ++ es ∧ _
  unfold append
  split
  · exact ⟨[], by simp, by simp⟩
  · exact ⟨q.edits, rfl, h⟩

theorem Adds.append {p q : Page} (hp : p.Adds) (hq : q.Adds) : (p ++ q).Adds := by
  obtain ⟨es, he, ha⟩ := edits_append p hq
  unfold Adds
  rw [he, List.forall_mem_append]
  exact ⟨hp, ha⟩

theorem adds_fileHeader (o : Options) (plate : Option Boilerplate.Reading) :
    (fileHeader o plate).Adds :=
  ((adds_insert _).append (adds_boilerplate plate)).append (adds_insert _)

theorem edits_fileComment (plate : Option Boilerplate.Reading) (p : Pending) :
    ∃ es, (fileComment plate p).edits = .cut p.text :: es ∧ ∀ e ∈ es, ∃ t, e = .insert t := by
  have h₁ := adds_insert (Text.ofString "/**\n\t" ++ p.text.commentBody ++ Text.ofString "\n")
  have h₂ := adds_missingBoilerplate plate p.text.commentBody
  have h₃ := adds_insert (Text.ofString "*/")
  obtain ⟨es₁, he₁, ha₁⟩ := edits_append
    { notes := [.headerComment], edits := [.cut p.text] : Page } h₁
  obtain ⟨es₂, he₂, ha₂⟩ := edits_append _ h₂
  obtain ⟨es₃, he₃, ha₃⟩ := edits_append _ h₃
  refine ⟨es₁ ++ es₂ ++ es₃, ?_, ?_⟩
  · unfold fileComment
    rw [he₃, he₂, he₁]
    simp
  · simp only [List.forall_mem_append]
    exact ⟨⟨ha₁, ha₂⟩, ha₃⟩

end Page

end DocBlock
