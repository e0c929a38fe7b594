import Mathlib
import DocBlock.Proofs.Spelling

/-! The value of a return statement. It is what follows the word, without blanks and without one pair of
parentheses around it. Only opening parentheses are counted to find that pair, which is enough: where the
statement is balanced, so is the value. -/

namespace DocBlock

open Text (ofString)

namespace Text

variable {t e v m a b : Text}

/-- Neither end is a blank. -/
def Bare (t : Text) : Prop := (∀ c ∈ t.head?, c.isBlank = false) ∧ ∀ c ∈ t.getLast?, c.isBlank = false

/-- The text `e` is what is left of `t` without the blanks at either end. -/
def StripsTo (t e : Text) : Prop :=
  ∃ a b, t = a ++ e ++ b ∧ (∀ c ∈ a, c.isBlank = true) ∧ (∀ c ∈ b, c.isBlank = true) ∧ e.Bare

theorem stripsTo_iff : t.StripsTo e ↔ t.strip = e := by
  constructor
  · rintro ⟨a, b, rfl, ha, hb, hfirst, hlast⟩
    rw [strip, trim_append ha hb, trim_eq_self hfirst hlast]
  · rintro rfl
    obtain ⟨a, b, ht, ha, hb⟩ := exists_trim Sym.isBlank t
    exact ⟨a, b, ht, ha, hb, head?_trim Sym.isBlank t, getLast?_trim Sym.isBlank t⟩

/-- One pair of parentheses around `m`, which holds no other opening one. -/
def IsPair (e m : Text) : Prop := e = .char '(' :: (m ++ [Sym.char ')']) ∧ .char '(' ∉ m

/-- The text `v` is what is left of the expression `e` without a pair of parentheses around it. -/
def UnwrapsTo (e v : Text) : Prop :=
  (∃ m, e.IsPair m ∧ m.StripsTo v) ∨ (¬ ∃ m, e.IsPair m) ∧ v = e

/-- Parentheses are balanced: no initial part closes more than it opens, and at the end none is open. -/
structure Balanced (t : Text) : Prop where
  initial : ∀ a b, t = a ++ b → a.count (.char ')') ≤ a.count (.char '(')
  settled : t.count (.char ')') = t.count (.char '(')

theorem balanced_iff :
    t.Balanced ↔ (∀ a ∈ t.inits, a.count (.char ')') ≤ a.count (.char '(')) ∧
      t.count (.char ')') = t.count (.char '(') := by
  refine ⟨fun h => ⟨fun a ha => ?_, h.settled⟩, fun h => ⟨fun a b ht => h.1 a ?_, h.2⟩⟩
  · obtain ⟨b, hb⟩ := (List.mem_inits a t).mp ha
    exact h.initial a b hb.symm
  · exact (List.mem_inits a t).mpr ⟨b, ht.symm⟩

instance : Decidable t.Balanced := decidable_of_iff _ balanced_iff.symm

/-- No parenthesis of either kind. -/
def Unparenthesised (t : Text) : Prop := ∀ c ∈ t, c ≠ .char '(' ∧ c ≠ .char ')'

theorem Unparenthesised.count_open (h : t.Unparenthesised) : t.count (.char '(') = 0 :=
  List.count_eq_zero.mpr fun hmem => (h _ hmem).1 rfl

theorem Unparenthesised.count_close (h : t.Unparenthesised) : t.count (.char ')') = 0 :=
  List.count_eq_zero.mpr fun hmem => (h _ hmem).2 rfl

theorem unparenthesised_of_isBlank (h : ∀ c ∈ t, c.isBlank = true) : t.Unparenthesised := by
  intro c hc
  have hblank := h c hc
  constructor <;>
  · rintro rfl
    revert hblank
    decide

theorem balanced_of_unparenthesised (h : t.Unparenthesised) : t.Balanced where
  initial a b ht := by
    have ha : a.Unparenthesised := fun c hc => h c (by simp [ht, hc])
    rw [ha.count_close]
    exact Nat.zero_le _
  settled := by rw [h.count_close, h.count_open]

/-- What stands around a balanced text and holds no parentheses can be left off. -/
theorem Balanced.of_append (h : (a ++ e ++ b).Balanced) (ha : a.Unparenthesised) (hb : b.Unparenthesised) :
    e.Balanced where
  initial x y he := by
    have hinitial := h.initial (a ++ x) (y ++ b) (by simp [he])
    simpa [ha.count_close, ha.count_open] using hinitial
  settled := by
    simpa [ha.count_close, ha.count_open, hb.count_close, hb.count_open] using h.settled

theorem Balanced.of_stripsTo (h : t.Balanced) (hs : t.StripsTo e) : e.Balanced := by
  obtain ⟨a, b, rfl, ha, hb, -⟩ := hs
  exact h.of_append (unparenthesised_of_isBlank ha) (unparenthesised_of_isBlank hb)

/-- A balanced pair with no other opening parenthesis holds no parenthesis at all, so its two match. -/
theorem Balanced.of_isPair (h : e.Balanced) (hp : e.IsPair m) : m.Balanced := by
  obtain ⟨rfl, hno⟩ := hp
  have hopen : m.count (.char '(') = 0 := List.count_eq_zero.mpr hno
  have hclose : m.count (.char ')') = 0 := by
    have hsettled := h.settled
    rw [List.count_cons_self, List.count_cons_of_ne (by decide), List.count_append, List.count_append, hopen,
      List.count_singleton_self] at hsettled
    simpa using hsettled
  refine balanced_of_unparenthesised fun c hc => ⟨?_, ?_⟩
  · rintro rfl
    exact hno hc
  · rintro rfl
    exact List.count_eq_zero.mp hclose hc

/-- A pair is known by its first and last symbol and the number of opening parentheses. -/
theorem exists_isPair_iff :
    (∃ m, e.IsPair m) ↔ e.head? = some (.char '(') ∧ e.count (.char '(') = 1 ∧ e.getLast? = some (.char ')') := by
  constructor
  · rintro ⟨m, rfl, hno⟩
    refine ⟨rfl, ?_, by rw [← List.cons_append, List.getLast?_concat]⟩
    rw [List.count_cons_self, List.count_append, List.count_eq_zero.mpr hno]
    rfl
  · rintro ⟨hhead, hcount, hlast⟩
    obtain ⟨u, rfl⟩ := List.head?_eq_some_iff.mp hhead
    rw [List.count_cons_self] at hcount
    rcases List.eq_nil_or_concat' u with rfl | ⟨m, c, rfl⟩
    · simp at hlast
    · rw [← List.cons_append, List.getLast?_concat] at hlast
      obtain rfl := Option.some.inj hlast
      refine ⟨m, rfl, List.count_eq_zero.mp ?_⟩
      rw [List.count_append] at hcount
      omega

theorem unwrap_of_isPair (h : e.IsPair m) : unwrap e = m.strip := by
  have hpair := exists_isPair_iff.mp ⟨m, h⟩
  rw [unwrap, if_pos (by simpa [and_assoc] using hpair), h.1]
  simp

theorem unwrap_of_not_isPair (h : ¬ ∃ m, e.IsPair m) : unwrap e = e := by
  rw [exists_isPair_iff] at h
  rw [unwrap, if_neg (by simpa [and_assoc] using h)]

theorem unwrapsTo_iff : e.UnwrapsTo v ↔ unwrap e = v := by
  constructor
  · rintro (⟨m, hp, hs⟩ | ⟨hno, rfl⟩)
    · rw [unwrap_of_isPair hp, stripsTo_iff.mp hs]
    · exact unwrap_of_not_isPair hno
  · rintro rfl
    by_cases hp : ∃ m, e.IsPair m
    · obtain ⟨m, hm⟩ := hp
      exact .inl ⟨m, hm, stripsTo_iff.mpr (unwrap_of_isPair hm).symm⟩
    · exact .inr ⟨hp, unwrap_of_not_isPair hp⟩

theorem Balanced.of_unwrapsTo (h : e.Balanced) (hu : e.UnwrapsTo v) : v.Balanced := by
  rcases hu with ⟨m, hp, hs⟩ | ⟨-, rfl⟩
  · exact (h.of_isPair hp).of_stripsTo hs
  · exact h

theorem StripsTo.contiguous (h : t.StripsTo e) : e <:+: t := by
  obtain ⟨a, b, rfl, -⟩ := h
  exact ⟨a, b, rfl⟩

theorem StripsTo.bare (h : t.StripsTo e) : e.Bare := by
  obtain ⟨a, b, -, -, -, hbare⟩ := h
  exact hbare

theorem UnwrapsTo.contiguous (h : e.UnwrapsTo v) : v <:+: e := by
  rcases h with ⟨m, ⟨rfl, -⟩, hs⟩ | ⟨-, rfl⟩
  · exact hs.contiguous.trans ⟨[Sym.char '('], [Sym.char ')'], rfl⟩
  · exact List.infix_rfl

theorem UnwrapsTo.bare (h : e.UnwrapsTo v) (he : e.Bare) : v.Bare := by
  rcases h with ⟨m, -, hs⟩ | ⟨-, rfl⟩
  · exact hs.bare
  · exact he

end Text

open Text

/-- A return statement with the expression `e`, which may be empty. -/
def IsReturn (t e : Text) : Prop :=
  ∃ rest, t = ofString "return" ++ rest ∧ (∀ c ∈ rest.head?, c.isWord = false) ∧ rest.StripsTo e

theorem returnValue?_eq_some_iff {t v : Text} :
    returnValue? t = some v ↔ ∃ e, IsReturn t e ∧ e.UnwrapsTo v ∧ v ≠ [] := by
  simp only [returnValue?, Option.bind_eq_bind, Option.bind_eq_some_iff, Text.afterWord?_eq_some_iff]
  constructor
  · rintro ⟨rest, ⟨ht, hword⟩, hvalue⟩
    obtain ⟨hne, rfl⟩ : unwrap rest.strip ≠ [] ∧ unwrap rest.strip = v := by simpa using hvalue
    exact ⟨rest.strip, ⟨rest, ht, hword, stripsTo_iff.mpr rfl⟩, unwrapsTo_iff.mpr rfl, hne⟩
  · rintro ⟨e, ⟨rest, ht, hword, hs⟩, hu, hne⟩
    refine ⟨rest, ⟨ht, hword⟩, ?_⟩
    rw [stripsTo_iff.mp hs, unwrapsTo_iff.mp hu]
    simpa using hne

theorem IsReturn.contiguous {t e : Text} (h : IsReturn t e) : e <:+: t := by
  obtain ⟨rest, rfl, -, hs⟩ := h
  exact hs.contiguous.trans (List.suffix_append _ _).isInfix

theorem IsReturn.balanced {t e : Text} (h : IsReturn t e) (ht : t.Balanced) : e.Balanced := by
  obtain ⟨rest, rfl, -, hs⟩ := h
  have hword : (ofString "return").Unparenthesised := by
    unfold Unparenthesised
    decide
  refine Balanced.of_stripsTo (Balanced.of_append (b := []) ?_ hword (by simp [Unparenthesised])) hs
  rwa [List.append_nil]

/-- A return statement has a value if there is one behind the word `return`: the expression, or the inside
of the one pair of parentheses that it is. The value is a part of the statement, bare of blanks at its ends,
and balanced where the statement is, as then the pair that is left off matches. -/
theorem returnValue?_unwraps (t : Text) :
    (∀ v, returnValue? t = some v ↔ ∃ e, IsReturn t e ∧ e.UnwrapsTo v ∧ v ≠ []) ∧
    ∀ v, returnValue? t = some v → v <:+: t ∧ v.Bare ∧
      (t.Balanced → v.Balanced ∧ ∃ e, IsReturn t e ∧
        (v = e ∨ ∃ m : Text, e = .char '(' :: (m ++ [Sym.char ')']) ∧ m.Balanced ∧ m.StripsTo v)) := by
  refine ⟨fun v => returnValue?_eq_some_iff, fun v hv => ?_⟩
  obtain ⟨e, hreturn, hu, -⟩ := returnValue?_eq_some_iff.mp hv
  have hbare : e.Bare := by
    obtain ⟨rest, -, -, hs⟩ := hreturn
    exact hs.bare
  refine ⟨hu.contiguous.trans hreturn.contiguous, hu.bare hbare, fun ht => ?_⟩
  have he := hreturn.balanced ht
  refine ⟨he.of_unwrapsTo hu, e, hreturn, ?_⟩
  rcases hu with ⟨m, hp, hs⟩ | ⟨-, rfl⟩
  · exact .inr ⟨m, hp.1, he.of_isPair hp, hs⟩
  · exact .inl rfl

/-- A pair of parentheses around a value, with blanks wherever they may stand. -/
theorem returnValue?_unwraps_pair :
    let t := ofString "return\t( a[i] )  "
    (t.Balanced ∧ returnValue? t = some (ofString "a[i]")) ∧
      ofString "a[i]" <:+: t ∧ (ofString "a[i]").Balanced := by
  intro t
  have ht : t.Balanced := by decide
  have hv : returnValue? t = some (ofString "a[i]") := by decide +kernel
  obtain ⟨hpart, -, hbalanced⟩ := (returnValue?_unwraps t).2 _ hv
  exact ⟨⟨ht, hv⟩, hpart, (hbalanced ht).1⟩

end DocBlock
