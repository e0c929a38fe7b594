import Mathlib
import DocBlock.Scanner

/-! Reading a text in parts. What the scanner does with a part depends on the symbol behind it, so
both the run and its moments are taken here up to a given next symbol. -/

namespace DocBlock.Scanner

variable (s : Scanner) (n : Option Sym)

/-- One symbol, read with the given lookahead. -/
def moment (c : Sym) : Moment where
  before := s
  sym := c
  markers := (s.step c n).2
  after := (s.step c n).1

/-- The state after a text that `n` follows. -/
def runTo (s : Scanner) : Text → Scanner
  | [] => s
  | c :: rest => runTo (s.step c (rest.head?.or n)).1 rest

/-- All moments of a text that `n` follows. -/
def momentsTo (s : Scanner) : Text → List Moment
  | [] => []
  | c :: rest => s.moment (rest.head?.or n) c :: momentsTo (s.step c (rest.head?.or n)).1 rest

variable {s n}

@[simp] theorem moment_before (c : Sym) : (s.moment n c).before = s := rfl

@[simp] theorem moment_sym (c : Sym) : (s.moment n c).sym = c := rfl

@[simp] theorem moment_markers (c : Sym) : (s.moment n c).markers = (s.step c n).2 := rfl

@[simp] theorem moment_after (c : Sym) : (s.moment n c).after = (s.step c n).1 := rfl

@[simp] theorem runTo_nil : runTo n s [] = s := rfl

@[simp] theorem momentsTo_nil : momentsTo n s [] = [] := rfl

theorem runTo_cons (c : Sym) (rest : Text) :
    runTo n s (c :: rest) = runTo n (s.step c (rest.head?.or n)).1 rest := rfl

theorem momentsTo_cons (c : Sym) (rest : Text) :
    momentsTo n s (c :: rest) =
      s.moment (rest.head?.or n) c :: momentsTo n (s.step c (rest.head?.or n)).1 rest := rfl

theorem runTo_none (t : Text) : runTo none s t = s.run t := by
  induction t generalizing s with
  | nil => rfl
  | cons c rest ih => simp [runTo, run, ih]

theorem momentsTo_none (t : Text) : momentsTo none s t = s.moments t := by
  induction t generalizing s with
  | nil => rfl
  | cons c rest ih => simp [momentsTo, moments, moment, ih]

theorem runTo_append (a b : Text) :
    runTo n s (a ++ b) = runTo n (runTo (b.head?.or n) s a) b := by
  induction a generalizing s with
  | nil => rfl
  | cons c rest ih => simp only [List.cons_append, runTo_cons, List.head?_append, Option.or_assoc, ih]

theorem momentsTo_append (a b : Text) :
    momentsTo n s (a ++ b) =
      momentsTo (b.head?.or n) s a ++ momentsTo n (runTo (b.head?.or n) s a) b := by
  induction a generalizing s with
  | nil => rfl
  | cons c rest ih =>
    simp only [List.cons_append, momentsTo_cons, runTo_cons, List.head?_append, Option.or_assoc, ih]

theorem moments_append (a b : Text) :
    s.moments (a ++ b) = momentsTo b.head? s a ++ (runTo b.head? s a).moments b := by
  simpa [momentsTo_none] using momentsTo_append (s := s) (n := none) a b

theorem runTo_concat (a : Text) (c : Sym) :
    runTo n s (a ++ [c]) = ((runTo (some c) s a).step c n).1 := by
  simp [runTo_append, runTo_cons]

theorem momentsTo_concat (a : Text) (c : Sym) :
    momentsTo n s (a ++ [c]) =
      momentsTo (some c) s a ++ [(runTo (some c) s a).moment n c] := by
  simp [momentsTo_append, momentsTo_cons]

@[simp] theorem map_sym_momentsTo (t : Text) : (momentsTo n s t).map (·.sym) = t := by
  induction t generalizing s with
  | nil => rfl
  | cons c rest ih => simp [momentsTo_cons, ih]

@[simp] theorem map_sym_moments (t : Text) : (s.moments t).map (·.sym) = t := by
  simp [← momentsTo_none]

@[simp] theorem length_momentsTo (t : Text) : (momentsTo n s t).length = t.length := by
  rw [← List.length_map (·.sym), map_sym_momentsTo]

theorem momentsTo_eq_nil {t : Text} : momentsTo n s t = [] ↔ t = [] := by
  cases t <;> simp [momentsTo_cons]

/-- Every moment of a text is one step of the scanner. -/
theorem exists_step_of_mem {t : Text} {m : Moment} (h : m ∈ momentsTo n s t) :
    ∃ n, m = m.before.moment n m.sym := by
  induction t generalizing s with
  | nil => simp at h
  | cons c rest ih =>
    rcases List.mem_cons.mp h with rfl | h
    · exact ⟨_, rfl⟩
    · exact ih h

/-- The moments fall apart where the text does. -/
theorem exists_of_momentsTo_eq_append {t : Text} {a b : List Moment}
    (h : momentsTo n s t = a ++ b) :
    ∃ u v, t = u ++ v ∧ a = momentsTo (v.head?.or n) s u ∧
      b = momentsTo n (runTo (v.head?.or n) s u) v := by
  have hl : a.length ≤ t.length := by
    have := congrArg List.length h
    simp only [length_momentsTo, List.length_append] at this
    omega
  refine ⟨t.take a.length, t.drop a.length, (List.take_append_drop ..).symm, ?_⟩
  rw [← List.take_append_drop a.length t, momentsTo_append] at h
  exact (List.append_inj h (by simp [hl])).imp Eq.symm Eq.symm

theorem exists_of_momentsTo_eq_cons {t : Text} {a b : List Moment} {m : Moment}
    (h : momentsTo n s t = a ++ m :: b) :
    ∃ u c v, t = u ++ c :: v ∧ a = momentsTo (some c) s u ∧
      m = (runTo (some c) s u).moment (v.head?.or n) c ∧ b = momentsTo n m.after v := by
  obtain ⟨u, v, rfl, ha, hb⟩ := exists_of_momentsTo_eq_append h
  cases v with
  | nil => simp at hb
  | cons c v =>
    obtain ⟨rfl, rfl⟩ := List.cons.inj hb
    exact ⟨u, c, v, rfl, ha, rfl, rfl⟩

/-- What a step with markers of the kind `Q` keeps holds before each symbol, as long as all markers
are of that kind. -/
theorem forall_before_of_step {P : Scanner → Prop} {Q : List Marker → Prop}
    (step : ∀ s c n, P s → Q (s.step c n).2 → P (s.step c n).1) {t : Text} (hs : P s)
    (hq : ∀ m ∈ (momentsTo n s t).dropLast, Q m.markers) : ∀ m ∈ momentsTo n s t, P m.before := by
  induction t generalizing s with
  | nil => simp
  | cons c rest ih =>
    rw [momentsTo_cons] at hq ⊢
    rw [List.forall_mem_cons]
    refine ⟨hs, ?_⟩
    cases rest with
    | nil => simp
    | cons d rest =>
      rw [momentsTo_cons, List.dropLast_cons_cons, List.forall_mem_cons] at hq
      exact ih (step _ _ _ hs hq.1) hq.2

end DocBlock.Scanner
