import Mathlib
import DocBlock.Proofs.Phrase
import DocBlock.Proofs.ReadBack

/-! A declarator is read back from the way in which it is written. The reader works from both ends: it
leaves off blanks and a bracket pair, takes the name from the end and the qualifiers from the front, and
what is left are the base type and the stars behind it. -/

namespace DocBlock

open Text (ofString)

/-- No blank is part of a word. -/
theorem Sym.isWord_of_isBlank {c : Sym} (h : c.isBlank = true) : c.isWord = false := by
  cases c with
  | byte b => rfl
  | surrogate u => rfl
  | char c =>
    have hapart : ∀ r ∈ blankRanges, ∀ w ∈ wordRanges, r.2 < w.1 ∨ w.2 < r.1 := by decide +kernel
    obtain ⟨r, hr, hc⟩ : ∃ r ∈ blankRanges, r.1 ≤ c.toNat ∧ c.toNat ≤ r.2 := by
      simpa [Sym.isBlank, inRanges] using h
    show isWordChar c = false
    unfold isWordChar
    split
    · next hascii =>
      have hlow : ∀ n < 33, ((Char.ofNat n).isAlphanum || Char.ofNat n == '_') = false := by decide
      have hranges : ∀ r ∈ blankRanges, r.2 < 33 ∨ 128 ≤ r.1 := by decide
      have := hranges r hr
      rw [← Char.ofNat_toNat c]
      exact hlow _ (by omega)
    · rw [Bool.eq_false_iff]
      intro hw
      obtain ⟨w, hw, hcw⟩ : ∃ w ∈ wordRanges, w.1 ≤ c.toNat ∧ c.toNat ≤ w.2 := by
        simpa [inRanges] using hw
      have := hapart r hr w hw
      omega

theorem Sym.isBlank_of_isWord {c : Sym} (h : c.isWord = true) : c.isBlank = false := by
  by_contra hb
  rw [isWord_of_isBlank (by simpa using hb)] at h
  contradiction

theorem Text.afterWord?_eq_some_iff {w t rest : Text} :
    afterWord? w t = some rest ↔ t = w ++ rest ∧ ∀ c ∈ rest.head?, c.isWord = false := by
  unfold afterWord?
  constructor
  · intro h
    simp only [Option.ite_none_right_eq_some, Bool.and_eq_true, List.isPrefixOf_iff_prefix,
      Option.some.injEq] at h
    obtain ⟨⟨⟨r, rfl⟩, hn⟩, hr⟩ := h
    rw [List.drop_left] at hn hr
    subst hr
    refine ⟨rfl, fun c hc => ?_⟩
    rw [Option.mem_def] at hc
    simpa [hc] using hn
  · rintro ⟨rfl, hn⟩
    rw [List.drop_left, if_pos]
    cases rest with
    | nil => simp
    | cons c r => simpa using hn c rfl

namespace Qualifier

theorem takeAll_of_none {t : Text} (h : leading? t = none) : takeAll t = ([], t) := by
  unfold takeAll
  split
  · rfl
  · simp_all

theorem takeAll_of_some {t rest : Text} {q : Qualifier} (h : leading? t = some (q, rest)) :
    takeAll t = (q :: (takeAll (rest.dropWhile Sym.isBlank)).1,
      (takeAll (rest.dropWhile Sym.isBlank)).2) := by
  rw [takeAll]
  split
  · simp_all
  · next q' rest' h' =>
    obtain ⟨rfl, rfl⟩ : q' = q ∧ rest' = rest := by simpa [h] using h'.symm
    rfl

theorem isWord_word (q : Qualifier) : ∀ c ∈ q.word, c.isWord = true := by
  cases q <;> decide

/-- Where a qualifier stands, as a whole word, it is found. -/
theorem leading?_word_append (q : Qualifier) {rest : Text} (h : ∀ c ∈ rest.head?, c.isWord = false) :
    leading? (q.word ++ rest) = some (q, rest) := by
  have hself : Text.afterWord? q.word (q.word ++ rest) = some rest :=
    Text.afterWord?_eq_some_iff.mpr ⟨rfl, h⟩
  unfold leading?
  cases q with
  | static => rw [hself]
  | const =>
    have hother : Text.afterWord? static.word (const.word ++ rest) = none := by
      simp [Text.afterWord?, word, ofString]
    rw [hother, hself]
    rfl

theorem leading?_eq_none {t : Text} (h : ∀ q : Qualifier, Text.afterWord? q.word t = none) :
    leading? t = none := by
  simp [leading?, h]

/-- Qualifiers as they are written, each with the blanks behind it. -/
def written (qs : List (Qualifier × Text)) : Text := qs.flatMap fun q => q.1.word ++ q.2

theorem head?_written_append (qs : List (Qualifier × Text)) {rest : Text}
    (h : ∃ c ∈ rest.head?, c.isBlank = false) : ∃ c ∈ (written qs ++ rest).head?, c.isBlank = false := by
  cases qs with
  | nil => exact h
  | cons q qs =>
    obtain ⟨⟨⟩, gap⟩ := q
    · exact ⟨.char 's', rfl, by decide⟩
    · exact ⟨.char 'c', rfl, by decide⟩

/-- All qualifiers are taken from the front, up to a text that starts with none. -/
theorem takeAll_written_append {qs : List (Qualifier × Text)} {rest : Text}
    (hqs : ∀ q ∈ qs, q.2 ≠ [] ∧ ∀ c ∈ q.2, c.isBlank = true) (hrest : ∃ c ∈ rest.head?, c.isBlank = false)
    (hnone : leading? rest = none) : takeAll (written qs ++ rest) = (qs.map (·.1), rest) := by
  induction qs with
  | nil => exact takeAll_of_none hnone
  | cons q qs ih =>
    rw [List.forall_mem_cons] at hqs
    obtain ⟨⟨hne, hblank⟩, hqs⟩ := hqs
    have he : written (q :: qs) ++ rest = q.1.word ++ (q.2 ++ (written qs ++ rest)) := by
      simp [written]
    have hword : ∀ c ∈ (q.2 ++ (written qs ++ rest)).head?, c.isWord = false := by
      intro c hc
      rw [List.head?_append_of_ne_nil _ hne] at hc
      exact Sym.isWord_of_isBlank (hblank c (List.mem_of_mem_head? hc))
    have hdrop : (q.2 ++ (written qs ++ rest)).dropWhile Sym.isBlank = written qs ++ rest := by
      obtain ⟨c, hc, hn⟩ := head?_written_append qs hrest
      obtain ⟨r, hr⟩ := List.head?_eq_some_iff.mp hc
      rw [List.dropWhile_append_of_pos hblank, hr, List.dropWhile_cons_of_neg (by simp [hn])]
    rw [he, takeAll_of_some (leading?_word_append q.1 hword), hdrop, ih hqs]
    rfl

end Qualifier

namespace Declarator

/-- One way to write a declarator. -/
structure Spelling where
  lead : Text
  /-- The qualifiers, each with the blanks behind it. -/
  qualifiers : List (Qualifier × Text)
  base : Text
  /-- The stars, and the blanks before, between and behind them. -/
  stars : Text
  name : Text
  /-- The blanks before a bracket pair and what the pair holds, if there is one. -/
  bracket : Option (Text × Text)
  trail : Text
  lead_blank : ∀ c ∈ lead, c.isBlank = true
  gap_blank : ∀ q ∈ qualifiers, q.2 ≠ [] ∧ ∀ c ∈ q.2, c.isBlank = true
  base_start : ∃ c ∈ base.head?, c.isBlank = false
  /-- The base does not start with a qualifier as a whole word. -/
  base_unqualified : ∀ q : Qualifier, q.word <+: base →
    ∃ c ∈ (base.drop q.word.length).head?, c.isWord = true
  base_end : ∀ c ∈ base.getLast?, c.isBlank = false ∧ c ≠ .char '*'
  stars_mark : ∀ c ∈ stars, c.isBlank = true ∨ c = .char '*'
  /-- Where nothing stands between base and name, the base ends with a symbol that is not part of a word. -/
  separated : stars = [] → ∀ c ∈ base.getLast?, c.isWord = false
  name_ne : name ≠ []
  name_word : ∀ c ∈ name, c.isWord = true
  bracket_inside : ∀ b ∈ bracket, (∀ c ∈ b.1, c.isBlank = true) ∧ .char '[' ∉ b.2
  trail_blank : ∀ c ∈ trail, c.isBlank = true

namespace Spelling

variable (w : Spelling)

/-- What stands before the name, but for the blanks at the start. -/
def front : Text := Qualifier.written w.qualifiers ++ (w.base ++ w.stars)

/-- The bracket pair with the blanks before it. -/
def array : Text :=
  match w.bracket with
  | none => []
  | some (gap, size) => gap ++ .char '[' :: (size ++ [Sym.char ']'])

def text : Text := w.lead ++ (w.front ++ w.name ++ w.array) ++ w.trail

/-- The phrase for the type. -/
def phrase : Text :=
  wordsOf (w.stars.count (.char '*')) w.bracket.isSome (w.qualifiers.any (·.1 = .const)) w.base

variable {w}

theorem isPointerMark_of_mem {c : Sym} (h : c ∈ w.stars) : isPointerMark c = true := by
  rcases w.stars_mark c h with hc | rfl
  · simp [isPointerMark, hc]
  · rfl

theorem not_isWord_of_mem {c : Sym} (h : c ∈ w.stars) : c.isWord = false := by
  rcases w.stars_mark c h with hc | rfl
  · exact Sym.isWord_of_isBlank hc
  · decide

theorem base_ne : w.base ≠ [] := by
  obtain ⟨c, hc, -⟩ := w.base_start
  rintro he
  simp [he] at hc

theorem head?_typed : ∃ c ∈ (w.base ++ w.stars).head?, c.isBlank = false := by
  rw [List.head?_append_of_ne_nil _ base_ne]
  exact w.base_start

theorem head?_front : ∃ c ∈ w.front.head?, c.isBlank = false :=
  Qualifier.head?_written_append w.qualifiers head?_typed

/-- The front does not end with a part of a word. -/
theorem getLast?_front : ∀ c ∈ w.front.getLast?, c.isWord = false := by
  intro c hc
  have htyped : w.base ++ w.stars ≠ [] := List.append_ne_nil_of_left_ne_nil base_ne _
  rw [front, List.getLast?_append_of_ne_nil _ htyped] at hc
  by_cases hs : w.stars = []
  · rw [hs, List.append_nil] at hc
    exact w.separated hs c hc
  · rw [List.getLast?_append_of_ne_nil _ hs] at hc
    exact not_isWord_of_mem (List.mem_of_getLast? hc)

theorem getLast?_core : ∀ c ∈ (w.front ++ w.name).getLast?, c.isWord = true := by
  intro c hc
  rw [List.getLast?_append_of_ne_nil _ w.name_ne] at hc
  exact w.name_word c (List.mem_of_getLast? hc)

/-- The base is not taken for a qualifier, whatever stars and blanks stand behind it. -/
theorem leading?_typed : Qualifier.leading? (w.base ++ w.stars) = none := by
  refine Qualifier.leading?_eq_none fun q => ?_
  by_contra hsome
  obtain ⟨rest, hrest⟩ := Option.ne_none_iff_exists'.mp hsome
  obtain ⟨he, hboundary⟩ := Text.afterWord?_eq_some_iff.mp hrest
  have hgoes : ∀ v, w.base = q.word ++ v → ∃ c ∈ v.head?, c.isWord = true := by
    intro v hv
    have hlonger := w.base_unqualified q ⟨v, hv.symm⟩
    rwa [hv, List.drop_left] at hlonger
  rcases List.append_eq_append_iff.mp he with ⟨v, hv, hstars⟩ | ⟨v, hv, hr⟩
  · cases v with
    | nil =>
      obtain ⟨c, hc, -⟩ := hgoes [] (by rw [hv, List.append_nil, List.append_nil])
      simp at hc
    | cons c v =>
      -- The word would go on into the stars and blanks.
      have hword := q.isWord_word c (by simp [hv])
      have hmark := w.not_isWord_of_mem (c := c) (by simp [hstars])
      rw [hword] at hmark
      contradiction
  · obtain ⟨c, hc, hword⟩ := hgoes v hv
    have hend := hboundary c (by rw [hr, List.head?_append, Option.mem_def.mp hc]; rfl)
    rw [hword] at hend
    contradiction

theorem takeAll_front : Qualifier.takeAll w.front = (w.qualifiers.map (·.1), w.base ++ w.stars) :=
  Qualifier.takeAll_written_append w.gap_blank head?_typed leading?_typed

theorem getLast?_written : ∀ c ∈ (w.front ++ w.name ++ w.array).getLast?, c.isBlank = false := by
  intro c hc
  unfold array at hc
  split at hc
  · rw [List.append_nil] at hc
    exact Sym.isBlank_of_isWord (w.getLast?_core c hc)
  · rw [← List.append_assoc, List.getLast?_append_cons, ← List.cons_append, List.getLast?_concat] at hc
    obtain rfl : Sym.char ']' = c := Option.some.inj hc
    decide

theorem head?_written : ∀ c ∈ (w.front ++ w.name ++ w.array).head?, c.isBlank = false := by
  obtain ⟨c, hc, hn⟩ := w.head?_front
  intro d hd
  rw [List.append_assoc, List.head?_append, Option.mem_def.mp hc] at hd
  obtain rfl : c = d := Option.some.inj hd
  exact hn

theorem strip_text : w.text.strip = w.front ++ w.name ++ w.array := by
  rw [text, Text.strip, Text.trim_append w.lead_blank w.trail_blank]
  exact Text.trim_eq_self w.head?_written w.getLast?_written

theorem takeWhile_text : w.text.takeWhile Sym.isBlank = w.lead := by
  obtain ⟨c, hc, hn⟩ := w.head?_front
  obtain ⟨r, hr⟩ := List.head?_eq_some_iff.mp hc
  rw [text, List.append_assoc, List.takeWhile_append_of_pos w.lead_blank, hr]
  simp [hn]

theorem beforeBracket_append {a b : Text} (hb : .char '[' ∉ b) :
    beforeBracket (a ++ .char '[' :: b) = a := by
  have hskip : ∀ c ∈ b.reverse, decide (c ≠ .char '[') = true := by
    intro c hc
    rw [decide_eq_true_iff]
    rintro rfl
    exact hb (List.mem_reverse.mp hc)
  rw [beforeBracket, List.reverse_append, List.reverse_cons, List.append_assoc,
    List.dropWhile_append_of_pos hskip, List.singleton_append, List.dropWhile_cons_of_neg (by simp),
    List.drop_one, List.tail_cons, List.reverse_reverse]

/-- A bracket pair at the end is left off, with the blanks before it. -/
theorem splitArray_written :
    splitArray (w.front ++ w.name ++ w.array) = (w.front ++ w.name, w.bracket.isSome) := by
  unfold array
  split
  · next hb =>
    have hlast : (w.front ++ w.name).getLast? ≠ some (.char ']') :=
      fun hl => absurd (w.getLast?_core _ hl) (by decide)
    rw [List.append_nil, splitArray, if_neg hlast, hb]
    rfl
  · next gap size hb =>
    obtain ⟨hgap, hsize⟩ := w.bracket_inside _ (Option.mem_def.mpr hb)
    have he : w.front ++ w.name ++ (gap ++ Sym.char '[' :: (size ++ [Sym.char ']'])) =
        (w.front ++ w.name ++ gap ++ Sym.char '[' :: size) ++ [Sym.char ']'] := by
      simp
    rw [he, splitArray, if_pos List.getLast?_concat, List.dropLast_concat, beforeBracket_append hsize,
      Text.trimRight_append_of_forall hgap,
      Text.trimRight_eq_self fun c hc => Sym.isBlank_of_isWord (w.getLast?_core c hc), hb]
    rfl

theorem takeWhile_core : ((w.front ++ w.name).reverse.takeWhile Sym.isWord).reverse = w.name := by
  have hname : ∀ c ∈ w.name.reverse, c.isWord = true :=
    fun c hc => w.name_word c (List.mem_reverse.mp hc)
  have hfront : w.front.reverse.takeWhile Sym.isWord = [] := by
    cases h : w.front.reverse with
    | nil => rfl
    | cons c r =>
      have hc : c ∈ w.front.getLast? := by rw [List.getLast?_eq_head?_reverse, h]; rfl
      simp [w.getLast?_front c hc]
  rw [List.reverse_append, List.takeWhile_append_of_pos hname, hfront, List.append_nil,
    List.reverse_reverse]

theorem trimRight_typed : (w.base ++ w.stars).trimRight isPointerMark = w.base := by
  rw [Text.trimRight_append_of_forall fun c => isPointerMark_of_mem]
  refine Text.trimRight_eq_self fun c hc => ?_
  obtain ⟨hb, hs⟩ := w.base_end c hc
  simp [isPointerMark, hb, hs]

/-- A declarator is read as it was written. -/
theorem read_text (capacity : Int) :
    read capacity w.text =
      { name := w.name
        start := w.lead.length + w.front.length
        phrase := w.phrase.take capacity.toNat
        isStatic := w.qualifiers.any (·.1 = .static)
        isConst := w.qualifiers.any (·.1 = .const)
        pointers := w.stars.count (.char '*')
        isArray := w.bracket.isSome } := by
  have hfront : (w.front ++ w.name).take ((w.front ++ w.name).length - w.name.length) = w.front := by
    rw [List.length_append, Nat.add_sub_cancel, List.take_left]
  have hqualifier (q : Qualifier) :
      (w.qualifiers.map (·.1)).contains q = w.qualifiers.any (·.1 = q) := by
    rw [List.contains_eq_any_beq, List.any_map]
    congr 1
    funext x
    rw [Function.comp_apply, beq_eq_decide, decide_eq_decide, eq_comm]
  unfold read
  simp only [strip_text, splitArray_written, takeWhile_core, hfront, takeAll_front, takeWhile_text,
    trimRight_typed, List.drop_left, hqualifier, phraseOf_eq]
  rfl

end Spelling

/-- Whatever the blanks, qualifiers, stars and brackets, the parts that a declarator was written with are
read back from it, the name where it stands. The capacity matters for the phrase only, which is whole where
there is room for it. -/
theorem read_spelling (w : Spelling) (capacity : Int) :
    let d := read capacity w.text
    d.name = w.name ∧ d.start = (w.lead ++ w.front).length ∧ d.stop = (w.lead ++ w.front ++ w.name).length ∧
      (d.isStatic = true ↔ .static ∈ w.qualifiers.map (·.1)) ∧
      (d.isConst = true ↔ .const ∈ w.qualifiers.map (·.1)) ∧
      d.pointers = w.stars.count (.char '*') ∧ (d.isArray = true ↔ w.bracket ≠ none) ∧
      (d.isInput = true ↔ d.isConst = true ∨ d.pointers = 0 ∧ d.isArray = false) ∧
      (w.phrase.length ≤ capacity → d.phrase = w.phrase) := by
  intro d
  have hd : d = _ := w.read_text capacity
  clear_value d
  subst hd
  refine ⟨rfl, by simp, by simp [stop, Nat.add_assoc], ?_, ?_, rfl, ?_, ?_, fun hc => ?_⟩
  · simp
  · simp
  · exact Option.isSome_iff_ne_none
  · simp [isInput]
  · exact List.take_of_length_le (by omega)

/-- A declarator with all its parts, and blanks wherever they may stand. -/
theorem read_spelling_table :
    let w : Spelling :=
      { lead := ofString " "
        qualifiers := [(.static, ofString " "), (.const, ofString "\n\t")]
        base := ofString "struct constant", stars := ofString " *\n* ", name := ofString "table"
        bracket := some (ofString " ", ofString "16"), trail := ofString " "
        lead_blank := by decide, gap_blank := by decide, base_start := by decide
        base_unqualified := by intro q; cases q <;> decide
        base_end := by decide, stars_mark := by decide, separated := by decide, name_ne := by decide
        name_word := by decide, bracket_inside := by decide, trail_blank := by decide }
    w.text = ofString " static const\n\tstruct constant *\n* table [16] " ∧
      w.phrase = ofString "a pointer to a pointer to an array of const struct constant" ∧
      (read 200 w.text).name = ofString "table" ∧ (read 200 w.text).phrase = w.phrase := by
  intro w
  obtain ⟨hname, -, -, -, -, -, -, -, hphrase⟩ := read_spelling w 200
  exact ⟨by decide +kernel, by decide +kernel, hname, hphrase (by decide +kernel)⟩

end Declarator

end DocBlock
