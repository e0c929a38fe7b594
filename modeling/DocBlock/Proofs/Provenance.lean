import Mathlib
import DocBlock.Proofs.ReadBack

/-! Where written symbols come from. All that is mined from a text, read off a declarator or kept of a
description consists of symbols of that text and of ASCII; the rest of what is written is the name of
the file and the boilerplate. -/

namespace DocBlock

open Text (ofString)

def Sym.isAscii : Sym → Bool := isIn (·.toNat < 128)

namespace Text

variable {t : Text}

theorem trimRight_subset (p : Sym → Bool) (t : Text) : trimRight p t ⊆ t := by
  intro c hc
  have hrev := (List.dropWhile_sublist p (l := t.reverse)).subset (List.mem_reverse.mp hc)
  exact List.mem_reverse.mp hrev

theorem trim_subset (p : Sym → Bool) (t : Text) : trim p t ⊆ t :=
  List.Subset.trans (trimRight_subset p _) (List.dropWhile_sublist p).subset

theorem subset_of_afterWord? {w rest : Text} (h : afterWord? w t = some rest) : rest ⊆ t := by
  unfold afterWord? at h
  split at h
  · obtain rfl := Option.some.inj h
    exact List.drop_subset _ _
  · contradiction

theorem mem_joinLines {ls : List Text} {c : Sym} (h : c ∈ joinLines ls) :
    c = .char '\n' ∨ ∃ l ∈ ls, c ∈ l := by
  induction ls with
  | nil => simp [joinLines, List.intercalate] at h
  | cons l ls ih =>
    cases ls with
    | nil => exact .inr ⟨l, by simp, by simpa [joinLines, List.intercalate] using h⟩
    | cons m ls =>
      rw [joinLines_cons_cons, List.mem_append, List.mem_cons] at h
      rcases h with h | h | h
      · exact .inr ⟨l, by simp, h⟩
      · exact .inl h
      · rcases ih h with h | ⟨k, hk, hc⟩
        · exact .inl h
        · exact .inr ⟨k, List.mem_cons_of_mem l hk, hc⟩

end Text

theorem Remark.subset_of_ofComment? {t : Text} {r : Remark} (h : ofComment? t = some r) :
    r.text ⊆ t := by
  obtain ⟨m, -, rfl⟩ := Option.map_eq_some_iff.mp h
  exact List.Subset.trans (List.drop_subset _ _) (List.take_subset _ _)

theorem unwrap_subset (t : Text) : unwrap t ⊆ t := by
  unfold unwrap
  split
  · intro c hc
    have hinside := List.dropLast_subset _ (Text.trim_subset _ _ hc)
    exact List.mem_of_mem_drop hinside
  · exact List.Subset.refl t

theorem subset_of_returnValue? {t v : Text} (h : returnValue? t = some v) : v ⊆ t := by
  obtain ⟨rest, hrest, hv⟩ := Option.bind_eq_some_iff.mp h
  simp only at hv
  split at hv
  · contradiction
  · obtain rfl := Option.some.inj hv
    intro c hc
    exact Text.subset_of_afterWord? hrest (Text.trim_subset _ _ (unwrap_subset _ hc))

theorem CappedText.mem_foldl_append {ws : List Text} {b : CappedText} {c : Sym}
    (h : c ∈ (ws.foldl append b).text) : c ∈ b.text ∨ ∃ w ∈ ws, c ∈ w := by
  induction ws generalizing b with
  | nil => exact .inl h
  | cons w ws ih =>
    rcases ih h with h | ⟨v, hv, hc⟩
    · rcases List.mem_append.mp h with h | h
      · exact .inl h
      · exact .inr ⟨w, by simp, List.mem_of_mem_take h⟩
    · exact .inr ⟨v, List.mem_cons_of_mem w hv, hc⟩

theorem Qualifier.takeAll_subset (t : Text) : (takeAll t).2 ⊆ t := by
  fun_induction takeAll t with
  | case1 => exact List.Subset.refl _
  | case2 t q rest h qs base heq ih =>
    rw [heq] at ih
    have hrest : rest ⊆ t := by
      unfold leading? at h
      split at h
      · next hs =>
        obtain ⟨-, rfl⟩ := by simpa using h
        exact Text.subset_of_afterWord? hs
      · obtain ⟨r, hc, he⟩ := Option.map_eq_some_iff.mp h
        obtain ⟨-, rfl⟩ := by simpa using he
        exact Text.subset_of_afterWord? hc
    intro c hc
    exact hrest ((List.dropWhile_sublist _).subset (ih hc))

namespace Declarator

variable {t : Text} {c : Sym}

theorem beforeBracket_subset (t : Text) : beforeBracket t ⊆ t := by
  intro c hc
  have hrev := (List.dropWhile_sublist _).subset (List.mem_of_mem_drop (List.mem_reverse.mp hc))
  exact List.mem_reverse.mp hrev

theorem splitArray_subset (t : Text) : (splitArray t).1 ⊆ t := by
  unfold splitArray
  split
  · intro c hc
    exact List.dropLast_subset _ (beforeBracket_subset _ (Text.trimRight_subset _ _ hc))
  · exact List.Subset.refl t

/-- The phrase of a type is made of words of its own and the base type. -/
theorem mem_phraseOf {capacity : Int} {pointers : Nat} {isArray isConst : Bool} {base : Text}
    (h : c ∈ phraseOf capacity pointers isArray isConst base) : c.isAscii = true ∨ c ∈ base := by
  have hpointer : ∀ c ∈ ofString "a pointer to ", c.isAscii = true := by decide +kernel
  have harray : ∀ c ∈ ofString "an array of ", c.isAscii = true := by decide +kernel
  have hconst : ∀ c ∈ ofString "const ", c.isAscii = true := by decide +kernel
  unfold phraseOf at h
  rcases CappedText.mem_foldl_append h with h | ⟨w, hw, hc⟩
  · simp [CappedText.ofCapacity] at h
  · simp only [List.mem_append, List.mem_replicate, List.mem_ite_nil_right, List.mem_singleton] at hw
    rcases hw with ((⟨-, rfl⟩ | ⟨-, rfl⟩) | ⟨-, rfl⟩) | rfl
    · exact .inl (hpointer c hc)
    · exact .inl (harray c hc)
    · exact .inl (hconst c hc)
    · exact .inr hc

theorem name_read_subset (capacity : Int) (t : Text) : (read capacity t).name ⊆ t := by
  intro c hc
  have hcore := (List.takeWhile_sublist _).subset (List.mem_reverse.mp hc)
  exact Text.trim_subset _ t (splitArray_subset _ (List.mem_reverse.mp hcore))

theorem mem_phrase_read {capacity : Int} (h : c ∈ (read capacity t).phrase) :
    c.isAscii = true ∨ c ∈ t := by
  refine (mem_phraseOf h).imp_right fun hbase => ?_
  have hfront := Qualifier.takeAll_subset _ (Text.trimRight_subset _ _ hbase)
  exact Text.trim_subset _ t (splitArray_subset _ (List.mem_of_mem_take hfront))

theorem subset_of_mem_parameterTexts {part : Text} (h : part ∈ parameterTexts t) : part ⊆ t :=
  List.Subset.trans (subset_of_mem_cutAt (List.dropLast_subset _ h)) (List.dropWhile_sublist _).subset

end Declarator

theorem mem_withoutGenerated {t : Text} {gen : List Text} {c : Sym} (h : c ∈ withoutGenerated t gen) :
    c.isAscii = true ∨ c ∈ t := by
  rcases Text.mem_joinLines (Text.trim_subset _ _ h) with rfl | ⟨l, hl, hc⟩
  · exact .inl (by decide)
  · exact .inr (subset_of_mem_cutAt (List.mem_of_mem_filter hl) hc)

namespace Boilerplate

theorem subset_of_mem_chunks {size : Nat} {t part : Text} (h : part ∈ chunks size t) : part ⊆ t := by
  fun_induction chunks size t with
  | case1 => simp at h
  | case2 t _ ih =>
    rcases List.mem_cons.mp h with rfl | h
    · exact List.take_subset _ _
    · exact List.Subset.trans (ih h) (List.drop_subset _ _)

theorem mem_of_mem_pieces {size : Nat} {t part : Text} {c : Sym} (h : part ∈ pieces size t)
    (hc : c ∈ part) : c.isAscii = true ∨ c ∈ t := by
  have hline : ∀ c ∈ ofString "\n", c.isAscii = true := by decide +kernel
  unfold pieces at h
  simp only at h
  split at h
  · exact .inr (subset_of_mem_chunks h hc)
  · rcases List.mem_append.mp h with h | h
    · exact .inr (subset_of_mem_chunks h hc)
    · rw [List.mem_singleton.mp h] at hc
      exact .inl (hline c hc)

end Boilerplate

section Within

variable {P : Sym → Prop}

/-- All symbols of the text are of the class. -/
def Text.Within (P : Sym → Prop) (t : Text) : Prop := ∀ c ∈ t, P c

/-- All that is pending, and all that was found in it, is of the class. -/
structure Pending.Within (P : Sym → Prop) (p : Pending) : Prop where
  text : p.text.Within P
  todos : ∀ r ∈ p.todos, r.Within P
  notes : ∀ r ∈ p.notes, r.Within P
  returns : ∀ v ∈ p.returns, v.Within P

namespace Text.Within

variable {t u : Text}

theorem of_subset (h : u.Within P) (hs : t ⊆ u) : t.Within P := fun c hc => h c (hs hc)

theorem append (ht : t.Within P) (hu : u.Within P) : Text.Within P (t ++ u) :=
  List.forall_mem_append.mpr ⟨ht, hu⟩

theorem of_ascii (hP : ∀ c : Sym, c.isAscii = true → P c) {s : String}
    (h : (ofString s).all Sym.isAscii = true) : (ofString s).Within P :=
  fun c hc => hP c (List.all_eq_true.mp h c hc)

end Text.Within

namespace Pending

variable {p : Pending}

theorem slice_subset (p : Pending) (start stop : Int) : p.slice start stop ⊆ p.text := by
  intro c hc
  simp only [slice, Array.toList_extract, List.extract_eq_take_drop] at hc
  exact List.mem_of_mem_drop (List.mem_of_mem_take hc)

theorem within_empty : Within P {} where
  text := by simp [Text.Within, Pending.text]
  todos := by simp
  notes := by simp
  returns := by simp

theorem Within.push (h : p.Within P) {c : Sym} (hc : P c) : (p.push c).Within P where
  text := by
    rw [text_push]
    exact h.text.append (by simpa [Text.Within] using hc)
  todos := h.todos
  notes := h.notes
  returns := h.returns

theorem Within.endComment (h : p.Within P) : p.endComment.Within P := by
  have hfiled {start : Nat} {kind : RemarkKind} {t : Text} {rs : List Text}
      (hr : Remark.ofComment? (p.slice start p.size) = some ⟨kind, t⟩) (hrs : ∀ r ∈ rs, r.Within P) :
      ∀ r ∈ rs ++ [t], r.Within P := by
    have ht := (h.text.of_subset (p.slice_subset _ _)).of_subset (Remark.subset_of_ofComment? hr)
    simpa [or_imp, forall_and] using ⟨hrs, ht⟩
  unfold Pending.endComment
  split
  · exact h
  · split
    · exact ⟨h.text, h.todos, h.notes, h.returns⟩
    · next t hr => exact ⟨h.text, hfiled hr h.todos, h.notes, h.returns⟩
    · next t hr => exact ⟨h.text, h.todos, hfiled hr h.notes, h.returns⟩

theorem Within.endStatement (h : p.Within P) : p.endStatement.Within P := by
  unfold Pending.endStatement
  split
  · exact h
  · split
    · exact ⟨h.text, h.todos, h.notes, h.returns⟩
    · next v hv =>
      have ht : v.Within P :=
        (h.text.of_subset (p.slice_subset _ _)).of_subset (subset_of_returnValue? hv)
      refine ⟨h.text, h.todos, h.notes, ?_⟩
      simpa [or_imp, forall_and] using ⟨h.returns, ht⟩

/-- Only the ends of comments and statements file anything, and what they file is pending text. -/
theorem Within.mark (h : p.Within P) (m : Marker) : (p.mark m).Within P := by
  cases m
  case commentEnd => exact h.endComment
  case statementEnd => exact h.endStatement
  all_goals exact ⟨h.text, h.todos, h.notes, h.returns⟩

theorem Within.foldl_mark (h : p.Within P) (ms : List Marker) : (ms.foldl Pending.mark p).Within P := by
  induction ms generalizing p with
  | nil => exact h
  | cons m ms ih => exact ih (h.mark m)

theorem Within.foldl_read (h : p.Within P) {ms : List Scanner.Moment} (hms : ∀ m ∈ ms, P m.sym) :
    (ms.foldl Pending.read p).Within P := by
  induction ms generalizing p with
  | nil => exact h
  | cons m ms ih =>
    rw [List.forall_mem_cons] at hms
    exact ih ((h.foldl_mark m.marks).push hms.1) hms.2

end Pending

theorem Passage.within_pending {g : Passage} (h : g.text.Within P) : g.pending.Within P := by
  have hms : ∀ m ∈ g.moments, P m.sym := by
    intro m hm
    apply h
    rw [← Scanner.map_sym_momentsTo (s := g.start) (n := g.next) g.text]
    exact List.mem_map_of_mem hm
  exact (Pending.within_empty.foldl_read hms).foldl_mark g.closing

/-- Every text that is flushed is part of the text that was read. -/
theorem within_of_flush_mem {capacity : Int} (hc : 0 < capacity) {t : Text} (h : t.Within P)
    {p : Pending} (hp : .flush p ∈ events capacity t) : p.Within P := by
  rw [events_eq hc] at hp
  obtain ⟨g, hg, hp⟩ := List.mem_flatMap.mp hp
  have hdivides := divides_passages (fun l => decide (capacity ≤ l)) {} t
  have htext : g.text.Within P := by
    apply h.of_subset
    have hmoments : ∀ m ∈ g.moments, m ∈ ({} : Scanner).moments t := by
      intro m hm
      rw [← hdivides.moments_eq]
      exact List.mem_flatMap.mpr ⟨g, hg, hm⟩
    intro c hcg
    rw [← Scanner.map_sym_momentsTo (s := g.start) (n := g.next) g.text] at hcg
    obtain ⟨m, hm, rfl⟩ := List.mem_map.mp hcg
    rw [← Scanner.map_sym_moments (s := {}) t]
    exact List.mem_map_of_mem (hmoments m hm)
  have hpending : p = g.pending := by
    simp only [Passage.events, List.mem_append, List.mem_singleton, Event.flush.injEq] at hp
    rcases hp with (hp | hp) | hp
    · obtain ⟨m, -, hm⟩ := List.mem_flatMap.mp hp
      rcases m.mem_events hm with hm | hm <;> cases hm
    · split at hp <;> simp at hp
    · exact hp
  rw [hpending]
  exact Passage.within_pending htext

end Within

section Pages

variable {P : Sym → Prop} {o : Options} {plate : Option Boilerplate.Reading}

/-- All that the page writes is of the class. -/
def Page.Within (P : Sym → Prop) (p : Page) : Prop := ∀ e ∈ p.edits, e.written.Within P

/-- The boilerplate, if it can be read, is of the class. -/
def Boilerplate.Within (P : Sym → Prop) (plate : Option Reading) : Prop :=
  ∀ t, plate = some (.ok t) → t.Within P

namespace Page

variable {p q : Page}

theorem Within.append (hp : p.Within P) (hq : q.Within P) : (p ++ q).Within P := by
  change (p.append q).Within P
  unfold Page.append
  split
  · exact hp
  · exact List.forall_mem_append.mpr ⟨hp, hq⟩

theorem within_insert {t : Text} (h : t.Within P) : (insert t).Within P := by
  simpa [Within, insert, Edit.written] using h

theorem within_boilerplate (hP : ∀ c : Sym, c.isAscii = true → P c) (h : Boilerplate.Within P plate) :
    (boilerplate plate).Within P := by
  unfold boilerplate
  split
  · simp [Within]
  · next r =>
    cases r with
    | error f => simp [Within, Boilerplate.copy, Except.map]
    | ok t =>
      have ht : t.Within P := h t rfl
      intro e he
      obtain ⟨part, hpart, rfl⟩ := List.mem_map.mp he
      intro c hc
      exact (Boilerplate.mem_of_mem_pieces hpart hc).elim (hP c) (ht c)

theorem within_missingBoilerplate (hP : ∀ c : Sym, c.isAscii = true → P c)
    (h : Boilerplate.Within P plate) (header : Text) : (missingBoilerplate plate header).Within P := by
  unfold missingBoilerplate
  split
  · simp [Within]
  · split
    · simp [Within]
    · exact within_boilerplate hP h
    · simp [Within]

theorem within_fileHeader (hP : ∀ c : Sym, c.isAscii = true → P c) (h : Boilerplate.Within P plate)
    (hname : o.shownName.Within P) : (fileHeader o plate).Within P := by
  have hfront : (ofString "/**\n\t@file ").Within P := .of_ascii hP (by decide +kernel)
  have hback : (ofString "\n\n\tPut a description of the file here.\n").Within P :=
    .of_ascii hP (by decide +kernel)
  have hend : (ofString
      "\n\t@todo Edit file comment (automatically generated by insertdox)\n*/\n\n").Within P :=
    .of_ascii hP (by decide +kernel)
  have hopen := within_insert ((hfront.append hname).append hback)
  exact (hopen.append (within_boilerplate hP h)).append (within_insert hend)

theorem within_fileComment (hP : ∀ c : Sym, c.isAscii = true → P c) (h : Boilerplate.Within P plate)
    {p : Pending} (hp : p.Within P) : (fileComment plate p).Within P := by
  have hfront : (ofString "/**\n\t").Within P := .of_ascii hP (by decide +kernel)
  have hline : (ofString "\n").Within P := .of_ascii hP (by decide +kernel)
  have hend : (ofString "*/").Within P := .of_ascii hP (by decide +kernel)
  have hbody : p.text.commentBody.Within P := hp.text.of_subset (Text.trim_subset _ _)
  have hcut : Page.Within P { notes := [.headerComment], edits := [.cut p.text] } := by
    simp [Within, Edit.written, Text.Within]
  have hopen := within_insert ((hfront.append hbody).append hline)
  have hplate := within_missingBoilerplate hP h p.text.commentBody
  exact ((hcut.append hopen).append hplate).append (within_insert hend)

end Page

/-- The texts that a tag carries. -/
def Tag.texts : Tag → List Text
  | param direction name phrase => [direction, name, phrase]
  | result t | value t | note t | todo t => [t]
  | variadic | reminder | internal => []

theorem Tag.within_line (hP : ∀ c : Sym, c.isAscii = true → P c) {x : Tag}
    (h : ∀ t ∈ x.texts, t.Within P) : x.line.Within P := by
  have hlit {s : String} (hs : (ofString s).all Sym.isAscii = true) : (ofString s).Within P :=
    .of_ascii hP hs
  cases x with
  | param direction name phrase =>
    simp only [texts, List.forall_mem_cons] at h
    obtain ⟨hd, hn, hp, -⟩ := h
    have hfront := ((hlit (s := "@param[") (by decide +kernel)).append hd).append
      (hlit (s := "] \t") (by decide +kernel))
    exact ((hfront.append hn).append (hlit (by decide +kernel))).append hp
  | result t | value t | note t | todo t =>
    exact (hlit (by decide +kernel)).append (h t List.mem_cons_self)
  | variadic | reminder | internal => exact hlit (by decide +kernel)

theorem Tag.within_indented (hP : ∀ c : Sym, c.isAscii = true → P c) {tags : List Tag}
    (h : ∀ x ∈ tags, x.line.Within P) : (Tag.indented tags).Within P := by
  intro c hc
  obtain ⟨x, hx, hc⟩ := List.mem_flatMap.mp hc
  rcases List.mem_cons.mp hc with rfl | hc
  · exact hP _ (by decide)
  rcases List.mem_cons.mp hc with rfl | hc
  · exact hP _ (by decide)
  · exact h x hx c hc

theorem Tags.within_group (hP : ∀ c : Sym, c.isAscii = true → P c) {tags : List Tag}
    (h : ∀ x ∈ tags, x.line.Within P) : (group tags).Within P := by
  unfold group
  split
  · simp [Text.Within]
  · exact (Tag.within_indented hP h).append (.of_ascii hP (by decide +kernel))

theorem Tag.within_ofParameters (hP : ∀ c : Sym, c.isAscii = true → P c) (capacity : Int) {t : Text}
    (h : t.Within P) : ∀ x ∈ ofParameters capacity t, x.line.Within P := by
  intro x hx
  obtain ⟨part, hpart, hx⟩ := List.mem_filterMap.mp hx
  have hp : part.Within P := h.of_subset (Declarator.subset_of_mem_parameterTexts hpart)
  unfold ofParameter? at hx
  simp only at hx
  split at hx
  · contradiction
  · split at hx
    · obtain rfl := Option.some.inj hx
      exact within_line hP (by simp [texts])
    · obtain rfl := Option.some.inj hx
      have hin : (ofString "in").Within P := .of_ascii hP (by decide +kernel)
      have hinout : (ofString "in,out").Within P := .of_ascii hP (by decide +kernel)
      have hdirection : (Declarator.read capacity part).direction.Within P := by
        unfold Declarator.direction
        split
        · exact hin
        · exact hinout
      have hphrase : (Declarator.read capacity part).phrase.Within P := fun c hc =>
        (Declarator.mem_phrase_read hc).elim (hP c) (hp c)
      apply within_line hP
      simp only [texts, List.forall_mem_cons]
      exact ⟨hdirection, hp.of_subset (Declarator.name_read_subset _ _), hphrase, by simp⟩

theorem Options.mem_arrange {α : Type} {l : List α} {a : α} : a ∈ o.arrange l ↔ a ∈ l := by
  unfold arrange
  split
  · exact List.mem_reverse
  · exact Iff.rfl

namespace Pending

variable {p : Pending}

theorem Within.extentText (h : p.Within P) (e : Extent) : (p.extentText e).Within P :=
  h.text.of_subset (p.slice_subset _ _)

theorem Within.tags (hP : ∀ c : Sym, c.isAscii = true → P c) (h : p.Within P) :
    (Tags.ofFunction o p (p.declarator o)).render.Within P := by
  have hphrase : (p.declarator o).phrase.Within P := fun c hc =>
    (Declarator.mem_phrase_read hc).elim (hP c) (h.extentText p.function c)
  have hmined {found : List Text} (hf : ∀ r ∈ found, r.Within P) {tag : Text → Tag}
      (htag : ∀ r, (tag r).texts = [r]) : ∀ x ∈ (o.arrange found).map tag, x.line.Within P := by
    intro x hx
    obtain ⟨r, hr, rfl⟩ := List.mem_map.mp hx
    apply Tag.within_line hP
    rw [htag, List.forall_mem_singleton]
    exact hf r (Options.mem_arrange.mp hr)
  have hresults : ∀ x ∈ (Tags.ofFunction o p (p.declarator o)).results, x.line.Within P := by
    unfold Tags.ofFunction
    simp only
    split
    · simp
    · rw [List.forall_mem_cons]
      exact ⟨Tag.within_line hP (by simpa [Tag.texts] using hphrase), hmined h.returns fun _ => rfl⟩
  have hremarks : ∀ x ∈ (Tags.ofFunction o p (p.declarator o)).remarks, x.line.Within P := by
    unfold Tags.ofFunction
    simp only [List.forall_mem_append]
    refine ⟨⟨?_, hmined h.todos fun _ => rfl⟩, ?_⟩
    · split
      · exact hmined h.notes fun _ => rfl
      · simp
    · simpa using Tag.within_line (x := .reminder) hP (by simp [Tag.texts])
  have hparams := Tags.within_group hP
    (Tag.within_ofParameters hP o.typeCapacity (h.extentText p.parameters))
  exact (hparams.append (Tags.within_group hP hresults)).append (Tag.within_indented hP hremarks)

/-- The block of a function is made of what is pending and of fixed words. -/
theorem Within.block (hP : ∀ c : Sym, c.isAscii = true → P c) (h : p.Within P) :
    (FunctionBlock.ofPending o p (p.declarator o)).render.Within P := by
  have hlit {s : String} (hs : (ofString s).all Sym.isAscii = true) : (ofString s).Within P :=
    .of_ascii hP hs
  have hif {b : Bool} {t : Text} (ht : t.Within P) : Text.Within P (if b then t else []) := by
    split
    · exact ht
    · simp [Text.Within]
  have hdescription : (FunctionBlock.ofPending o p (p.declarator o)).description.Within P := by
    unfold FunctionBlock.description
    cases he : (FunctionBlock.ofPending o p (p.declarator o)).existing.filter (!·.isEmpty) with
    | none => exact hlit (by decide +kernel)
    | some d =>
      have he' := Option.eq_some_of_filter_eq_some he
      unfold FunctionBlock.ofPending at he'
      simp only at he'
      split at he'
      · obtain rfl := Option.some.inj he'
        intro c hc
        exact (mem_withoutGenerated hc).elim (hP c)
          ((h.extentText p.description).of_subset (Text.trim_subset _ _) c)
      · contradiction
  have hcomment : (FunctionBlock.ofPending o p (p.declarator o)).comment.Within P :=
    ((((((hlit (by decide +kernel)).append (hif (hlit (by decide +kernel)))).append
      (hlit (by decide +kernel))).append hdescription).append (hlit (by decide +kernel))).append
      (h.tags hP)).append (hlit (by decide +kernel))
  unfold FunctionBlock.render
  split
  · exact hcomment
  · exact ((hlit (by decide +kernel)).append hcomment).append (hif (hlit (by decide +kernel)))

theorem Within.functionPage (hP : ∀ c : Sym, c.isAscii = true → P c) (h : p.Within P) :
    (p.functionPage o).Within P := by
  have hslice (start stop : Int) : (p.slice start stop).Within P := h.text.of_subset (p.slice_subset _ _)
  have hend : (ofString ";\n\n").Within P := .of_ascii hP (by decide +kernel)
  have hnone : Text.Within P [] := by simp [Text.Within]
  unfold Pending.functionPage Page.Within
  simp only [List.forall_mem_append, List.forall_mem_cons]
  refine ⟨⟨hslice _ _, h.block hP, hnone, by simp⟩, ?_⟩
  split
  · simp only [List.forall_mem_cons]
    exact ⟨hslice _ _, hend, hnone, by simp⟩
  · simp only [List.forall_mem_cons]
    exact ⟨hslice _ _, by simp⟩

theorem Within.page (hP : ∀ c : Sym, c.isAscii = true → P c) (hplate : Boilerplate.Within P plate)
    (h : p.Within P) : (p.page o plate).Within P := by
  unfold Pending.page
  split
  · exact Page.within_fileComment hP hplate h
  · split
    · exact h.functionPage hP
    · unfold plainPage Page.Within
      simp only [List.forall_mem_singleton]
      split
      · simp [Edit.written, Text.Within]
      · exact h.text

end Pending

/-- All that is written comes from the text, from the boilerplate, or from the name of the file if there
is a header to show it; everything else is ASCII. -/
theorem within_pages (hP : ∀ c : Sym, c.isAscii = true → P c) (hplate : Boilerplate.Within P plate)
    {t : Text} (ht : t.Within P)
    (hname : .header ∈ events o.bufferCapacity t → o.shownName.Within P) :
    ∀ p ∈ pages o plate t, p.Within P := by
  have hc : (0 : Int) < o.bufferCapacity := by exact_mod_cast o.bufferCapacity_pos
  intro p hp
  obtain ⟨e, he, rfl⟩ := List.mem_map.mp hp
  cases e with
  | header => exact Page.within_fileHeader hP hplate (hname he)
  | flush q => exact (within_of_flush_mem hc ht he).page hP hplate
  | full | strayBrace => simp [Event.page, Page.Within]

end Pages

end DocBlock
