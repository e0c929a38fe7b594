import Mathlib
import DocBlock.Proofs.Block

/-! The same symbols read behind two different beginnings. What is marked in them lies at the same
places, counted from where they start, so a function is found with the same tags. -/

namespace DocBlock

open Scanner (Moment)

/-- The two moments take in the same symbol with the same markers. -/
def Scanner.Moment.Same (m m' : Moment) : Prop := m.sym = m'.sym ∧ m.markers = m'.markers

theorem Scanner.Moment.Same.marks {m m' : Moment} (h : m.Same m') : m.marks = m'.marks := by
  rw [Moment.marks, Moment.marks, h.2]

theorem Scanner.same_of_settle {s s' : Scanner} (h : s.settle = s'.settle) (n : Option Sym) (t : Text) :
    List.Forall₂ Moment.Same (s.momentsTo n t) (s'.momentsTo n t) := by
  induction t generalizing s s' with
  | nil => exact .nil
  | cons c rest ih =>
    obtain ⟨hm, hs⟩ := settle_congr (c := c) (n := rest.head?.or n) h
    exact .cons ⟨rfl, hm⟩ (ih hs)

theorem Scanner.same_markers {ms ms' : List Moment} (h : List.Forall₂ Moment.Same ms ms') :
    ms.map (·.markers) = ms'.map (·.markers) := by
  induction h with
  | nil => rfl
  | cons hm _ ih => rw [List.map_cons, List.map_cons, hm.2, ih]

/-- The extents were closed equally often. Once opened, they are the same stretch of a text that
starts at `i` for the one and at `j` for the other. -/
structure Extent.Tied (i j : Nat) (opened : Prop) (e e' : Extent) : Prop where
  closings : e.closings = e'.closings
  place : opened → ∃ x y : Nat, e.start = (i + x : Nat) ∧ e'.start = (j + x : Nat) ∧
    e.stop = (i + y : Nat) ∧ e'.stop = (j + y : Nat)

namespace Extent.Tied

variable {i j : Nat} {f f' : Prop} {e e' : Extent}

theorem mono (h : e.Tied i j f e') (hf : f' → f) : e.Tied i j f' e' := ⟨h.closings, h.place ∘ hf⟩

theorem openAt (h : e.Tied i j f e') (k : Nat) :
    (e.openAt (i + k : Nat)).Tied i j f' (e'.openAt (j + k : Nat)) :=
  ⟨h.closings, fun _ => ⟨k, k, rfl, rfl, rfl, rfl⟩⟩

theorem closeAt (h : e.Tied i j f e') (k : Nat) :
    (e.closeAt (i + k : Nat)).Tied i j f (e'.closeAt (j + k : Nat)) := by
  refine ⟨congrArg Closings.next h.closings, fun hf => ?_⟩
  obtain ⟨x, y, h₁, h₂, -, -⟩ := h.place hf
  refine ⟨x, max k x, h₁, h₂, ?_, ?_⟩ <;> simp only [Extent.closeAt, h₁, h₂] <;> omega

end Extent.Tied

/-- The marker belongs to a comment outside bodies. -/
def Marker.IsOuter (x : Marker) : Prop :=
  x = .flush ∨ x = .descriptionStart ∨ x = .descriptionEnd ∨ x = .descriptionEndAfter

namespace Pending

/-- What was read of `w` behind the beginnings `a` and `b` is marked alike. The two flags say whether a
declarator and a parameter list were opened. -/
structure Tied (a b w : Text) (f g : Prop) (p q : Pending) : Prop where
  text : p.text = a ++ w ∧ q.text = b ++ w
  function : p.function.Tied a.length b.length f q.function
  parameters : p.parameters.Tied a.length b.length g q.parameters
  body : p.body.closings = q.body.closings
  commentStart : ∃ k : Option Nat,
    p.commentStart = k.map (a.length + ·) ∧ q.commentStart = k.map (b.length + ·)
  statementStart : ∃ k : Option Nat,
    p.statementStart = k.map (a.length + ·) ∧ q.statementStart = k.map (b.length + ·)
  todos : p.todos = q.todos
  notes : p.notes = q.notes
  returns : p.returns = q.returns

/-- Nothing is marked but a description. -/
structure Bare (p : Pending) : Prop where
  function : p.function = {}
  parameters : p.parameters = {}
  body : p.body = {}
  starts : p.commentStart = none ∧ p.statementStart = none
  mined : p.todos = [] ∧ p.notes = [] ∧ p.returns = []

theorem bare_empty : Bare {} := ⟨rfl, rfl, rfl, ⟨rfl, rfl⟩, ⟨rfl, rfl, rfl⟩⟩

theorem Bare.foldl_mark {l : List Marker} (hl : ∀ x ∈ l, x.IsOuter) {p : Pending} (h : p.Bare) :
    (l.foldl mark p).Bare := by
  induction l generalizing p with
  | nil => exact h
  | cons x l ih =>
    rw [List.forall_mem_cons] at hl
    refine ih hl.2 ?_
    rcases hl.1 with rfl | rfl | rfl | rfl <;> exact ⟨h.1, h.2, h.3, h.4, h.5⟩

theorem Bare.foldl_read {ms : List Moment} (hm : ∀ m ∈ ms, ∀ x ∈ m.markers, x.IsOuter) {p : Pending}
    (h : p.Bare) : (ms.foldl read p).Bare := by
  induction ms generalizing p with
  | nil => exact h
  | cons m ms ih =>
    rw [List.forall_mem_cons] at hm
    obtain ⟨h₁, h₂, h₃, h₄, h₅⟩ := h.foldl_mark fun x hx => hm.1 x (Moment.mem_marks hx)
    exact ih hm.2 ⟨h₁, h₂, h₃, h₄, h₅⟩

namespace Tied

variable {a b w : Text} {f f' g g' : Prop} {p q : Pending} {o : Options}

theorem of_bare (hp : p.Bare) (hq : q.Bare) : Tied p.text q.text [] False False p q where
  text := ⟨(List.append_nil _).symm, (List.append_nil _).symm⟩
  function := ⟨by rw [hp.function, hq.function], False.elim⟩
  parameters := ⟨by rw [hp.parameters, hq.parameters], False.elim⟩
  body := by rw [hp.body, hq.body]
  commentStart := ⟨none, hp.starts.1, hq.starts.1⟩
  statementStart := ⟨none, hp.starts.2, hq.starts.2⟩
  todos := by rw [hp.mined.1, hq.mined.1]
  notes := by rw [hp.mined.2.1, hq.mined.2.1]
  returns := by rw [hp.mined.2.2, hq.mined.2.2]

theorem mono (h : Tied a b w f g p q) (hf : f' → f) (hg : g' → g) : Tied a b w f' g' p q :=
  { h with function := h.function.mono hf, parameters := h.parameters.mono hg }

theorem size (h : Tied a b w f g p q) :
    p.size = a.length + w.length ∧ q.size = b.length + w.length := by
  rw [size_eq_length, size_eq_length, h.text.1, h.text.2]
  simp

theorem slice (h : Tied a b w f g p q) (x y : Nat) :
    p.slice (a.length + x : Nat) (a.length + y : Nat) = (w.take y).drop x ∧
      q.slice (b.length + x : Nat) (b.length + y : Nat) = (w.take y).drop x := by
  rw [slice_natCast, slice_natCast, h.text.1, h.text.2]
  simp [List.take_append, List.drop_append]

theorem extentText {e e' : Extent} {c : Prop} (h : Tied a b w f g p q)
    (he : e.Tied a.length b.length c e') (hc : c) : p.extentText e = q.extentText e' := by
  obtain ⟨x, y, h₁, h₂, h₃, h₄⟩ := he.place hc
  obtain ⟨hp, hq⟩ := h.slice x y
  rw [Pending.extentText, Pending.extentText, h₁, h₂, h₃, h₄, hp, hq]

theorem endComment (h : Tied a b w f g p q) : Tied a b w f g p.endComment q.endComment := by
  obtain ⟨k, hp, hq⟩ := h.commentStart
  cases k with
  | none => simpa [Pending.endComment, hp, hq] using h
  | some k =>
    obtain ⟨hsp, hsq⟩ := h.slice k w.length
    have hall : Tied a b w f g { p with commentStart := none } { q with commentStart := none } :=
      { h with commentStart := ⟨none, rfl, rfl⟩ }
    simp only [Pending.endComment, hp, hq, Option.map_some, h.size.1, h.size.2, hsp, hsq]
    split
    · exact hall
    · exact { hall with todos := by rw [h.todos] }
    · exact { hall with notes := by rw [h.notes] }

theorem endStatement (h : Tied a b w f g p q) : Tied a b w f g p.endStatement q.endStatement := by
  obtain ⟨k, hp, hq⟩ := h.statementStart
  cases k with
  | none => simpa [Pending.endStatement, hp, hq] using h
  | some k =>
    obtain ⟨hsp, hsq⟩ := h.slice k w.length
    have hall : Tied a b w f g { p with statementStart := none } { q with statementStart := none } :=
      { h with statementStart := ⟨none, rfl, rfl⟩ }
    simp only [Pending.endStatement, hp, hq, Option.map_some, h.size.1, h.size.2, hsp, hsq]
    split
    · exact hall
    · exact { hall with returns := by rw [h.returns] }

theorem mark (h : Tied a b w f g p q) (x : Marker) :
    Tied a b w (f ∨ .functionStart = x) (g ∨ .parametersStart = x) (p.mark x) (q.mark x) := by
  obtain ⟨hp, hq⟩ := h.size
  by_cases hx : .functionStart = x
  · subst hx
    simp only [Pending.mark, hp, hq]
    exact { h with function := h.function.openAt _, parameters := h.parameters.mono (by simp) }
  by_cases hy : .parametersStart = x
  · subst hy
    simp only [Pending.mark, hp, hq]
    exact { h with
      function := (h.function.closeAt _).mono (by simp), parameters := h.parameters.openAt _ }
  suffices hm : Tied a b w f g (p.mark x) (q.mark x) from
    hm.mono (fun hf => hf.resolve_right hx) fun hg => hg.resolve_right hy
  cases x
  case functionStart | parametersStart => contradiction
  case parametersEnd =>
    simp only [Pending.mark, hp, hq]
    exact { h with parameters := h.parameters.closeAt (w.length + 1) }
  case bodyStart => exact { h with }
  case bodyEnd => exact { h with body := congrArg Closings.next h.body }
  case commentStart => exact { h with commentStart := ⟨some w.length, by simp [Pending.mark, hp, hq]⟩ }
  case statementStart =>
    exact { h with statementStart := ⟨some w.length, by simp [Pending.mark, hp, hq]⟩ }
  case commentEnd => exact h.endComment
  case statementEnd => exact h.endStatement
  all_goals exact { h with }

theorem foldl_mark (l : List Marker) (h : Tied a b w f g p q) :
    Tied a b w (f ∨ .functionStart ∈ l) (g ∨ .parametersStart ∈ l) (l.foldl Pending.mark p)
      (l.foldl Pending.mark q) := by
  induction l generalizing p q f g with
  | nil => exact h.mono (by simp) (by simp)
  | cons x l ih => exact (ih (h.mark x)).mono (by simp [or_assoc]) (by simp [or_assoc])

theorem push (h : Tied a b w f g p q) (c : Sym) : Tied a b (w ++ [c]) f g (p.push c) (q.push c) :=
  { h with text := by simp [h.text.1, h.text.2] }

theorem read {m m' : Moment} (h : Tied a b w f g p q) (hm : m.Same m') :
    Tied a b (w ++ [m.sym]) (f ∨ .functionStart ∈ m.marks) (g ∨ .parametersStart ∈ m.marks)
      (p.read m) (q.read m') := by
  rw [Pending.read, Pending.read, ← hm.marks, ← hm.1]
  exact (h.foldl_mark m.marks).push m.sym

/-- Reading the same symbols with the same markers keeps what is marked alike. -/
theorem foldl_read {ms ms' : List Moment} (hm : List.Forall₂ Moment.Same ms ms')
    (h : Tied a b w f g p q) :
    Tied a b (w ++ ms.map (·.sym)) (f ∨ ∃ m ∈ ms, .functionStart ∈ m.marks)
      (g ∨ ∃ m ∈ ms, .parametersStart ∈ m.marks) (ms.foldl Pending.read p) (ms'.foldl Pending.read q) := by
  induction hm generalizing p q w f g with
  | nil => simpa using h
  | @cons m m' ms ms' hs _ ih =>
    have hall := ih (h.read hs)
    rw [List.append_assoc] at hall
    exact hall.mono (by simp [or_assoc]) (by simp [or_assoc])

theorem isFunction (h : Tied a b w f g p q) : p.isFunction = q.isFunction := by
  simp [Pending.isFunction, Extent.isClosedOnce, h.function.closings, h.parameters.closings, h.body]

/-- The function below is documented with the same tags. -/
theorem tags (h : Tied a b w f g p q) (hf : f) (hg : g) : (p.block o).tags = (q.block o).tags := by
  have hd : p.declarator o = q.declarator o := by
    rw [declarator, declarator, h.extentText h.function hf]
  change Tags.ofFunction o p (p.declarator o) = Tags.ofFunction o q (q.declarator o)
  rw [Tags.ofFunction, Tags.ofFunction, hd, h.extentText h.parameters hg, h.returns, h.notes, h.todos]

end Tied

end Pending

end DocBlock
