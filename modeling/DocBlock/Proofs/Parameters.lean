import Mathlib
import DocBlock.Proofs.Spelling

/-! Every parameter of a list gets its tag, in order. The list is cut at commas and closing parentheses, and
nothing but these and what leads the list is lost; what is read of a piece does not depend on the blanks
around it. -/

namespace DocBlock

open Text (ofString)

namespace Declarator

/-- What ends a parameter. -/
def isSeparator (s : Sym) : Bool := s = ',' || s = ')'

/-- What may stand before the first parameter. -/
def isListLead (s : Sym) : Bool := s.isBlank || s = '('

/-- A text cut at its separators: the pieces, each with the separator that ends it, and a rest. -/
structure Cut (t : Text) where
  pieces : List (Text × Sym)
  rest : Text
  text_eq : t = (pieces.flatMap fun x => x.1 ++ [x.2]) ++ rest
  ends : ∀ x ∈ pieces, isSeparator x.2 = true
  whole : ∀ x ∈ pieces, ∀ c ∈ x.1, isSeparator c = false
  rest_whole : ∀ c ∈ rest, isSeparator c = false

theorem nonempty_cut (t : Text) : Nonempty (Cut t) := by
  induction t with
  | nil => exact ⟨[], [], rfl, by simp, by simp, by simp⟩
  | cons s t ih =>
    obtain ⟨pieces, rest, ht, hends, hwhole, hrest⟩ := ih
    cases hs : isSeparator s with
    | true =>
      exact ⟨([], s) :: pieces, rest, by rw [ht]; rfl, List.forall_mem_cons.mpr ⟨hs, hends⟩,
        List.forall_mem_cons.mpr ⟨by simp, hwhole⟩, hrest⟩
    | false =>
      -- The symbol goes into the first piece, or into the rest if there is no piece.
      cases pieces with
      | nil => exact ⟨[], s :: rest, by rw [ht]; rfl, hends, hwhole, List.forall_mem_cons.mpr ⟨hs, hrest⟩⟩
      | cons x pieces =>
        rw [List.forall_mem_cons] at hends hwhole
        exact ⟨(s :: x.1, x.2) :: pieces, rest, by rw [ht]; rfl, List.forall_mem_cons.mpr hends,
          List.forall_mem_cons.mpr ⟨List.forall_mem_cons.mpr ⟨hs, hwhole.1⟩, hwhole.2⟩, hrest⟩

theorem cutAt_append_cons {a b : Text} {s : Sym} (ha : ∀ c ∈ a, isSeparator c = false)
    (hs : isSeparator s = true) : cutAt isSeparator (a ++ s :: b) = a :: cutAt isSeparator b := by
  rw [cutAt_eq_splitOnP, cutAt_eq_splitOnP, List.splitOnP_append_cons _ _ hs, List.splitOnP_eq_singleton ha]
  rfl

theorem cutAt_of_whole {a : Text} (ha : ∀ c ∈ a, isSeparator c = false) : cutAt isSeparator a = [a] := by
  rw [cutAt_eq_splitOnP, List.splitOnP_eq_singleton ha]

/-- However a text is cut at its separators, these are the parts. -/
theorem Cut.cutAt_eq {t : Text} (x : Cut t) : cutAt isSeparator t = x.pieces.map (·.1) ++ [x.rest] := by
  obtain ⟨pieces, rest, rfl, hends, hwhole, hrest⟩ := x
  simp only
  induction pieces with
  | nil => exact cutAt_of_whole hrest
  | cons x pieces ih =>
    rw [List.forall_mem_cons] at hends hwhole
    rw [List.flatMap_cons, List.append_assoc, List.append_assoc, List.singleton_append,
      cutAt_append_cons hwhole.1 hends.1, ih hends.2 hwhole.2]
    rfl

theorem parameterTexts_eq (t : Text) :
    parameterTexts t = (cutAt isSeparator (t.dropWhile isListLead)).dropLast := rfl

/-- A list of parameters as it is written. -/
def parameterList (ps : List Text) : Text := .char '(' :: (List.intercalate [Sym.char ','] ps ++ [Sym.char ')'])

theorem cutAt_intercalate {ps : List Text} (hne : ps ≠ []) (h : ∀ p ∈ ps, ∀ c ∈ p, isSeparator c = false) :
    cutAt isSeparator (List.intercalate [Sym.char ','] ps ++ [Sym.char ')']) = ps ++ [[]] := by
  induction ps with
  | nil => contradiction
  | cons p ps ih =>
    rw [List.forall_mem_cons] at h
    cases ps with
    | nil =>
      rw [List.intercalate_singleton]
      exact cutAt_append_cons h.1 rfl
    | cons q ps =>
      rw [List.intercalate_cons_cons, List.append_assoc, List.append_assoc, List.singleton_append,
        cutAt_append_cons h.1 rfl, ih (by simp) h.2]
      rfl

theorem intercalate_cons_append (sep g p : Text) (ps : List Text) :
    List.intercalate sep ((g ++ p) :: ps) = g ++ List.intercalate sep (p :: ps) := by
  cases ps with
  | nil => simp
  | cons q ps => simp [List.intercalate_cons_cons]

/-- A written list is cut into its parameters; only the blanks before the first one are lost. -/
theorem parameterTexts_parameterList {p : Text} {ps : List Text} (hp : ∃ c ∈ p, c.isBlank = false)
    (h : ∀ q ∈ p :: ps, ∀ c ∈ q, isSeparator c = false ∧ c ≠ .char '(') :
    parameterTexts (parameterList (p :: ps)) = p.dropWhile Sym.isBlank :: ps := by
  have hsplit := List.takeWhile_append_dropWhile (p := Sym.isBlank) (l := p)
  have hlead : ∀ c ∈ p.takeWhile Sym.isBlank, isListLead c = true := fun c hc => by
    simp [isListLead, List.mem_takeWhile_imp hc]
  cases hd : p.dropWhile Sym.isBlank with
  | nil =>
    obtain ⟨c, hc, hn⟩ := hp
    rw [List.dropWhile_eq_nil_iff.mp hd c hc] at hn
    contradiction
  | cons c r =>
    have hc : c.isBlank = false := by
      have := List.head?_dropWhile_not Sym.isBlank p
      simpa [hd] using this
    rw [hd] at hsplit
    generalize p.takeWhile Sym.isBlank = g at hsplit hlead
    subst hsplit
    have hstop : isListLead c = false := by
      simp [isListLead, hc, (h _ List.mem_cons_self c (by simp)).2]
    have hcut : ∀ q ∈ (c :: r) :: ps, ∀ d ∈ q, isSeparator d = false := by
      intro q hq d hd
      rcases List.mem_cons.mp hq with rfl | hq
      · exact (h _ List.mem_cons_self d (List.mem_append_right g hd)).1
      · exact (h q (List.mem_cons_of_mem _ hq) d hd).1
    have hfirst := intercalate_cons_append [Sym.char ','] [c] r ps
    rw [parameterTexts_eq, parameterList, intercalate_cons_append, List.dropWhile_cons_of_pos rfl,
      List.append_assoc, List.dropWhile_append_of_pos hlead, ← List.singleton_append (x := c), hfirst,
      List.append_assoc, List.singleton_append, List.dropWhile_cons_of_neg (by simp [hstop]),
      ← List.singleton_append (x := c), ← List.append_assoc, ← hfirst, List.singleton_append,
      cutAt_intercalate (by simp) hcut, List.dropLast_concat]

/-- What is read does not depend on the blanks around, but for the place of the name. -/
theorem read_congr_strip {p q : Text} (h : p.strip = q.strip) (capacity : Int) :
    read capacity p = { read capacity q with start := (read capacity p).start } := by
  simp only [read, h]

theorem strip_dropWhile (p : Text) : Text.strip (p.dropWhile Sym.isBlank) = p.strip := by
  rw [Text.strip, Text.strip, Text.trim, Text.trim, List.dropWhile_idempotent]

theorem name_read_eq (capacity : Int) (p : Text) : (read capacity p).name = (read 0 p).name := by
  rw [read_eq]

theorem name_congr_strip {p q : Text} (h : p.strip = q.strip) : (read 0 p).name = (read 0 q).name := by
  rw [read_congr_strip h]

theorem strip_dots : (ofString "...").strip = ofString "..." := by decide +kernel

theorem name_of_dots {p : Text} (h : p.strip = ofString "...") : (read 0 p).name = [] := by
  rw [name_congr_strip (h.trans strip_dots.symm)]
  decide +kernel

/-- The text of a parameter, as it stands between the separators: the dots of a variable list, or what is
read as a declarator with a name other than `void`. -/
structure IsParameter (p : Text) : Prop where
  plain : ∀ c ∈ p, isSeparator c = false ∧ c ≠ .char '('
  form : p.strip = ofString "..." ∨ (read 0 p).name ≠ [] ∧ (read 0 p).name ≠ ofString "void"

end Declarator

open Declarator

namespace Tag

theorem ofParameter?_congr {p q : Text} (h : p.strip = q.strip) (capacity : Int) :
    ofParameter? capacity p = ofParameter? capacity q := by
  unfold ofParameter?
  rw [read_congr_strip h capacity]
  rfl

theorem ofParameter?_of_dots {p : Text} {capacity : Int} (hk : 3 ≤ capacity) (h : p.strip = ofString "...") :
    ofParameter? capacity p = some variadic := by
  have hphrase : wholePhrase (ofString "...") = ofString "..." := by decide +kernel
  have hcut : (ofString "...").take capacity.toNat = ofString "..." :=
    List.take_of_length_le (show 3 ≤ capacity.toNat by omega)
  rw [ofParameter?_congr (h.trans strip_dots.symm)]
  simp only [ofParameter?, read_eq capacity, name_of_dots strip_dots, hphrase, hcut]
  decide

theorem ofParameter?_of_named {p : Text} {capacity : Int} (hne : (read 0 p).name ≠ [])
    (hvoid : (read 0 p).name ≠ ofString "void") :
    ofParameter? capacity p =
      some (param (read capacity p).direction (read capacity p).name (read capacity p).phrase) := by
  simp [ofParameter?, name_read_eq capacity, hne, hvoid]

end Tag

namespace Declarator

/-- A direction as it is written, for a parameter that is input only or not. -/
def directionWord (isInput : Prop) [Decidable isInput] : Text := ofString (if isInput then "in" else "in,out")

/-- The line that documents a named parameter. -/
def paramLine (direction name phrase : Text) : Text :=
  ofString "@param[" ++ direction ++ ofString "] \t" ++ name ++ ofString " \t" ++ phrase

/-- The line that documents a parameter, by its form. -/
def parameterLine (capacity : Int) (p : Text) : Text :=
  let d := read capacity p
  if p.strip = ofString "..." then ofString "@param[in] \t... \tvariable arguments"
  else paramLine (directionWord (d.isConst = true ∨ d.pointers = 0 ∧ d.isArray = false)) d.name d.phrase

theorem directionWord_congr {p q : Prop} [Decidable p] [Decidable q] (h : p ↔ q) :
    directionWord p = directionWord q :=
  congrArg ofString (if_congr h rfl rfl)

theorem direction_eq (d : Declarator) :
    d.direction = directionWord (d.isConst = true ∨ d.pointers = 0 ∧ d.isArray = false) := by
  simp [direction, directionWord, isInput]

theorem IsParameter.exists_not_blank {p : Text} (h : IsParameter p) : ∃ c ∈ p, c.isBlank = false := by
  by_contra hno
  have hall : ∀ c ∈ p, c.isBlank = true := by simpa using hno
  have hstrip : p.strip = [] := by
    have := Text.trim_append (t := []) hall (b := []) (by simp)
    rwa [List.append_nil, List.append_nil] at this
  rcases h.form with hdots | ⟨hne, -⟩
  · rw [hstrip] at hdots
    contradiction
  · rw [name_congr_strip (q := []) hstrip] at hne
    exact hne (by decide +kernel)

/-- One parameter gets the line of its form. -/
theorem IsParameter.line_eq {p : Text} (h : IsParameter p) {capacity : Int} (hk : 3 ≤ capacity) :
    (Tag.ofParameter? capacity p).map Tag.line = some (parameterLine capacity p) := by
  unfold parameterLine
  split
  · next hdots => rw [Tag.ofParameter?_of_dots hk hdots]; rfl
  · next hdots =>
    obtain ⟨hne, hvoid⟩ := h.form.resolve_left hdots
    rw [Tag.ofParameter?_of_named hne hvoid, direction_eq]
    rfl

/-- All parameters of a written list get their lines, in order. -/
theorem lines_parameterList {ps : List Text} {capacity : Int} (hk : 3 ≤ capacity) (hne : ps ≠ [])
    (h : ∀ p ∈ ps, IsParameter p) :
    (Tag.ofParameters capacity (parameterList ps)).map Tag.line = ps.map (parameterLine capacity) := by
  cases ps with
  | nil => contradiction
  | cons p ps =>
    have hfirst := Tag.ofParameter?_congr (strip_dropWhile p) capacity
    have hlines : ∀ q ∈ p :: ps,
        (Tag.ofParameter? capacity q).map Tag.line = some (parameterLine capacity q) :=
      fun q hq => (h q hq).line_eq hk
    rw [Tag.ofParameters, parameterTexts_parameterList (h p List.mem_cons_self).exists_not_blank
      fun q hq => (h q hq).plain, List.map_filterMap]
    calc (p.dropWhile Sym.isBlank :: ps).filterMap (fun q => (Tag.ofParameter? capacity q).map Tag.line)
        = (p :: ps).filterMap (fun q => (Tag.ofParameter? capacity q).map Tag.line) := by
          rw [List.filterMap_cons, List.filterMap_cons, hfirst]
      _ = (p :: ps).filterMap (fun q => some (parameterLine capacity q)) := List.filterMap_congr hlines
      _ = (p :: ps).map (parameterLine capacity) := by rw [List.filterMap_eq_map']

/-- A parameter that was written with its parts is documented by them. -/
theorem Spelling.parameterLine_text {w : Spelling} (hvoid : w.name ≠ ofString "void")
    (hplain : ∀ c ∈ w.text, isSeparator c = false ∧ c ≠ .char '(') (capacity : Int) :
    IsParameter w.text ∧ parameterLine capacity w.text =
      paramLine (directionWord (.const ∈ w.qualifiers.map (·.1) ∨ .char '*' ∉ w.stars ∧ w.bracket = none))
        w.name (w.phrase.take capacity.toNat) := by
  have hname : (read 0 w.text).name = w.name := by rw [w.read_text]
  have hdots : w.text.strip ≠ ofString "..." := fun hd => w.name_ne (hname.symm.trans (name_of_dots hd))
  refine ⟨⟨hplain, .inr ⟨?_, ?_⟩⟩, ?_⟩
  · rw [hname]
    exact w.name_ne
  · rw [hname]
    exact hvoid
  · simp only [parameterLine, if_neg hdots, w.read_text]
    refine congrArg (paramLine · w.name _) (directionWord_congr ?_)
    simp [List.count_eq_zero]

/-- The text is cut up without loss: what leads the list, the pieces with their separators, and a rest. -/
theorem exists_cut_parameterTexts (t : Text) :
    ∃ lead rest, t = lead ++ rest ∧ (∀ c ∈ lead, isListLead c = true) ∧
      (∀ c ∈ rest.head?, isListLead c = false) ∧
      ∃ x : Cut rest, parameterTexts t = x.pieces.map (·.1) := by
  obtain ⟨x⟩ := nonempty_cut (t.dropWhile isListLead)
  refine ⟨t.takeWhile isListLead, t.dropWhile isListLead, List.takeWhile_append_dropWhile.symm,
    fun c => List.mem_takeWhile_imp, Text.head?_dropWhile isListLead t, x, ?_⟩
  rw [parameterTexts_eq, x.cutAt_eq, List.dropLast_concat]

/-- Every parameter of a list is documented once, in order and by its own name. A written list gets one line
for each parameter; a parameter with all its parts is shown with their name, as input only if it is const or
neither pointer nor array. Of any text nothing is lost: it is what leads the list, then the pieces that are
taken for parameters, each with a separator behind it, then a rest that is none. -/
theorem parameters_documented :
    (∀ (capacity : Int) (ps : List Text), 3 ≤ capacity → ps ≠ [] → (∀ p ∈ ps, IsParameter p) →
      (Tag.ofParameters capacity (parameterList ps)).map Tag.line = ps.map (parameterLine capacity)) ∧
    (∀ (capacity : Int) (w : Spelling), w.name ≠ ofString "void" →
      (∀ c ∈ w.text, isSeparator c = false ∧ c ≠ .char '(') →
      IsParameter w.text ∧ parameterLine capacity w.text =
        paramLine (directionWord (.const ∈ w.qualifiers.map (·.1) ∨ .char '*' ∉ w.stars ∧ w.bracket = none))
          w.name (w.phrase.take capacity.toNat)) ∧
    ∀ t : Text, ∃ lead rest, t = lead ++ rest ∧ (∀ c ∈ lead, isListLead c = true) ∧
      (∀ c ∈ rest.head?, isListLead c = false) ∧
      ∃ x : Cut rest, parameterTexts t = x.pieces.map (·.1) :=
  ⟨fun _ _ hk hne h => lines_parameterList hk hne h,
    fun capacity _ hvoid hplain => Spelling.parameterLine_text hvoid hplain capacity, exists_cut_parameterTexts⟩

/-- Blanks before the first parameter, an array in the middle and a variable list at the end. -/
theorem parameters_documented_format :
    let ps := [ofString " const char *format", ofString "int values[4]", ofString " ... "]
    (∀ p ∈ ps, IsParameter p) ∧
      parameterList ps = ofString "( const char *format,int values[4], ... )" ∧
      (Tag.ofParameters 20 (parameterList ps)).map Tag.line =
        [ofString "@param[in] \tformat \ta pointer to const c", ofString "@param[in,out] \tvalues \tan array of int",
          ofString "@param[in] \t... \tvariable arguments"] := by
  intro ps
  have hps : ∀ p ∈ ps, IsParameter p := by
    simp only [ps, List.forall_mem_cons, List.not_mem_nil, false_implies, implies_true, and_true]
    exact ⟨⟨by decide, .inr (by decide +kernel)⟩, ⟨by decide, .inr (by decide +kernel)⟩,
      ⟨by decide, .inl (by decide +kernel)⟩⟩
  refine ⟨hps, by decide +kernel, ?_⟩
  rw [parameters_documented.1 20 ps (by decide) (by decide) hps]
  decide +kernel

end Declarator

end DocBlock
