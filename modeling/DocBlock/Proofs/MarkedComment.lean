import Mathlib
import DocBlock.Proofs.ReadBack

/-! The remark of a comment. The marker word is looked for in the lower-case form of the whole comment, at an
offset that was found in the comment itself. That is no mistake, although the two can differ in length: what
stands before the word keeps its length, and no character beyond ASCII can take the place of a letter of a
marker word or shift one. -/

namespace DocBlock

open Text (ofString)

namespace Sym

/-- The symbol with a capital ASCII letter made small. -/
def asciiLower : Sym → Sym
  | char c => char c.toLower
  | s => s

/-- What marker words are made of: ASCII characters other than capital letters and `k`, which the Kelvin
sign has in lower case. -/
def isMarkerSym : Sym → Bool := isIn fun c => c.toNat < 128 && c.toLower = c && c ≠ 'k'

end Sym

theorem toLower_of_le {c : Char} (h : 128 ≤ c.toNat) : c.toLower = c := by
  refine dif_neg fun hcapital => ?_
  have hle : c.toNat ≤ 90 := UInt32.le_iff_toNat_le.mp hcapital.2
  omega

theorem caseRuns_bounds : ∀ r ∈ caseRuns, (r.first = 0x212A ∧ r.last = 0x212A ∧ r.shift = -8383) ∨
    (128 ≤ r.first + r.shift ∧
      (r.last + r.shift < 0xD800 ∨ 0xE000 ≤ r.first + r.shift ∧ r.last + r.shift < 0x110000)) := by
  decide +kernel

/-- Beyond ASCII, only the Kelvin sign has a small letter in ASCII. -/
theorem smallLetter_of_le {c : Char} (h : 128 ≤ c.toNat) :
    smallLetter c = 'k' ∨ 128 ≤ (smallLetter c).toNat := by
  unfold smallLetter
  rw [if_neg (by omega)]
  cases hr : caseRuns.find? (·.holds c.toNat) with
  | none => exact .inr h
  | some r =>
    have hholds := List.find?_some hr
    simp only [CaseRun.holds, Bool.and_eq_true, decide_eq_true_eq] at hholds
    rcases caseRuns_bounds r (List.mem_of_find?_eq_some hr) with ⟨hf, hl, hs⟩ | ⟨hlow, hvalid⟩
    · have hc : c.toNat = 0x212A := by omega
      left
      simp [hs, hc]
    · right
      have hn : (c.toNat + r.shift).toNat.isValidChar := by
        unfold Nat.isValidChar
        omega
      rw [Option.elim_some, Char.toNat_ofNat, if_pos hn]
      omega

namespace Sym

theorem isMarkerSym_char {c : Char} :
    (char c).isMarkerSym = true ↔ c.toNat < 128 ∧ c.toLower = c ∧ c ≠ 'k' := by
  simp [isMarkerSym, and_assoc]

theorem not_isMarkerSym_of_le {c : Char} (h : 128 ≤ c.toNat) : (char c).isMarkerSym = false := by
  rw [Bool.eq_false_iff, ne_eq, isMarkerSym_char]
  omega

theorem asciiLower_of_isMarkerSym {x : Sym} (h : x.isMarkerSym = true) : x.asciiLower = x := by
  cases x with
  | char c => rw [asciiLower, (isMarkerSym_char.mp h).2.1]
  | byte b => rfl
  | surrogate u => rfl

/-- Neither a character beyond ASCII nor its small letter is a symbol of marker words. -/
theorem not_isMarkerSym_smallLetter {c : Char} (h : 128 ≤ c.toNat) :
    (char (smallLetter c)).isMarkerSym = false := by
  rcases smallLetter_of_le h with hk | hbeyond
  · rw [hk]
    decide
  · exact not_isMarkerSym_of_le hbeyond

/-- In lower case, a symbol is the dotted capital I and two symbols, or one symbol. That one is a symbol of
marker words just where the symbol itself is, but for the case of ASCII letters. -/
theorem lowerIn_cases (before after : Text) (s : Sym) :
    s = .char '\u0130' ∧ s.lowerIn before after = [Sym.char 'i', Sym.char '\u0307'] ∨
      ∃ y, s.lowerIn before after = [y] ∧ ∀ x : Sym, x.isMarkerSym = true → (x = y ↔ s.asciiLower = x) := by
  cases s with
  | byte b => exact .inr ⟨byte b, rfl, fun x _ => eq_comm⟩
  | surrogate u => exact .inr ⟨surrogate u, rfl, fun x _ => eq_comm⟩
  | char c =>
    have hbeyond (y : Sym) (hc : 128 ≤ c.toNat) (hy : y.isMarkerSym = false) (x : Sym)
        (hx : x.isMarkerSym = true) : x = y ↔ (char c).asciiLower = x := by
      have hself : (char c).asciiLower.isMarkerSym = false := by
        rw [asciiLower, toLower_of_le hc]
        exact not_isMarkerSym_of_le hc
      constructor <;> rintro rfl <;> simp_all
    have hform : (char c).lowerIn before after =
        if c = '\u0130' then [Sym.char 'i', Sym.char '\u0307']
        else if c = '\u03a3' && Text.endsCasedWord before after then [Sym.char '\u03c2']
        else [char (smallLetter c)] := rfl
    rw [hform]
    split_ifs with hdot hsigma
    · exact .inl ⟨by rw [hdot], rfl⟩
    · obtain rfl : c = '\u03a3' := by simpa using (Bool.and_eq_true_iff.mp hsigma).1
      exact .inr ⟨_, rfl, hbeyond _ (by decide) (by decide)⟩
    · refine .inr ⟨_, rfl, ?_⟩
      rcases lt_or_ge c.toNat 128 with hc | hc
      · intro x _
        rw [smallLetter, if_pos hc]
        exact eq_comm
      · exact hbeyond _ hc (not_isMarkerSym_smallLetter hc)

theorem length_lowerIn {before after : Text} {s : Sym} (h : s ≠ .char '\u0130') :
    (s.lowerIn before after).length = 1 := by
  rcases lowerIn_cases before after s with ⟨hs, -⟩ | ⟨y, hy, -⟩
  · contradiction
  · rw [hy]
    rfl

theorem isFiller_of_isFrame {s : Sym} (h : s.isFrame = true) : s.isFiller = true := by
  simp only [isFrame, Bool.or_eq_true, decide_eq_true_eq] at h
  rcases h with (hblank | rfl) | rfl
  · rw [isFiller, hblank, Bool.true_or]
  · decide
  · decide

end Sym

/-- A word that is found in lower case only where it stands. -/
structure IsMarkerWord (w : Text) : Prop where
  syms : ∀ x ∈ w, x.isMarkerSym = true
  last : w.getLast? ≠ some (.char 'i')

theorem IsMarkerWord.tail {x : Sym} {w : Text} (h : IsMarkerWord (x :: w)) : IsMarkerWord w where
  syms y hy := h.syms y (List.mem_cons_of_mem x hy)
  last hl := by
    have hne : w ≠ [] := by
      rintro rfl
      simp at hl
    exact h.last (by rwa [← List.singleton_append, List.getLast?_append_of_ne_nil _ hne])

theorem IsMarkerWord.map_asciiLower {w : Text} (h : IsMarkerWord w) : w.map Sym.asciiLower = w := by
  have hself : w.map Sym.asciiLower = w.map id :=
    List.map_congr_left fun x hx => Sym.asciiLower_of_isMarkerSym (h.syms x hx)
  rw [hself, List.map_id]

namespace Text

variable {w u : Text}

/-- The text begins with the word `w`, whatever the case of ASCII letters in either. -/
def BeginsWith (t w : Text) : Prop := ∃ u v, t = u ++ v ∧ u.map Sym.asciiLower = w.map Sym.asciiLower

theorem isPrefix_lowerFrom_iff (hw : IsMarkerWord w) (before u : Text) :
    w <+: lowerFrom before u ↔ (u.take w.length).map Sym.asciiLower = w := by
  induction w generalizing before u with
  | nil => simp
  | cons x w ih =>
    cases u with
    | nil => simp [lowerFrom]
    | cons s r =>
      have hx := hw.syms x List.mem_cons_self
      rcases Sym.lowerIn_cases before r s with ⟨rfl, hs⟩ | ⟨y, hs, hy⟩
      · -- A marker word would have to end with `i` or go on with the dot that the capital I leaves behind.
        have hdot : (Sym.char '\u0307').isMarkerSym = false := by decide
        have hcapital : (Sym.char '\u0130').asciiLower.isMarkerSym = false := by decide
        rw [lowerFrom, hs, List.length_cons, List.take_succ_cons, List.map_cons, List.cons.injEq]
        constructor
        · rintro ⟨v, hv⟩
          obtain ⟨rfl, hrest⟩ := List.cons.inj hv
          cases w with
          | nil => exact absurd rfl hw.last
          | cons x w =>
            obtain ⟨rfl, -⟩ := List.cons.inj hrest
            have hmarker := hw.syms (.char '\u0307') (by simp)
            rw [hdot] at hmarker
            contradiction
        · rintro ⟨rfl, -⟩
          rw [hcapital] at hx
          contradiction
      · simp only [lowerFrom, hs, List.singleton_append, List.cons_prefix_cons, List.length_cons,
          List.take_succ_cons, List.map_cons, List.cons.injEq, hy x hx, ih hw.tail]

/-- What stands before a comment's first word keeps its length. -/
theorem drop_lowerFrom_append {lead : Text} (h : ∀ s ∈ lead, s ≠ .char '\u0130') (before u : Text) :
    (lowerFrom before (lead ++ u)).drop lead.length = lowerFrom (lead.reverse ++ before) u := by
  induction lead generalizing before with
  | nil => rfl
  | cons s lead ih =>
    rw [List.forall_mem_cons] at h
    rw [List.cons_append, lowerFrom, List.length_cons, Nat.add_comm, ← List.drop_drop,
      List.drop_append_of_le_length (Sym.length_lowerIn h.1).ge,
      List.drop_of_length_le (Sym.length_lowerIn h.1).le, List.nil_append, ih h.2, List.reverse_cons,
      List.append_assoc, List.singleton_append]

theorem beginsWith_iff (u w : Text) :
    BeginsWith u w ↔ (u.take w.length).map Sym.asciiLower = w.map Sym.asciiLower := by
  constructor
  · rintro ⟨word, v, rfl, hword⟩
    have hlength : word.length = w.length := by simpa using congrArg List.length hword
    rwa [List.take_left' hlength]
  · intro h
    exact ⟨u.take w.length, u.drop w.length, (List.take_append_drop w.length u).symm, h⟩

/-- At the first word of a comment, a marker word is found in lower case just if the comment begins with it
there. -/
theorem isPrefix_lower_iff (hw : IsMarkerWord w) (t : Text) :
    w <+: t.lower.drop (t.takeWhile Sym.isFiller).length ↔ BeginsWith (t.dropWhile Sym.isFiller) w := by
  have hlead : ∀ s ∈ t.takeWhile Sym.isFiller, s ≠ .char '\u0130' := by
    rintro s hs rfl
    have hfiller : (Sym.char '\u0130').isFiller = false := by decide
    rw [List.mem_takeWhile_imp hs] at hfiller
    contradiction
  have hdrop := drop_lowerFrom_append hlead [] (t.dropWhile Sym.isFiller)
  rw [List.takeWhile_append_dropWhile] at hdrop
  rw [lower, hdrop, isPrefix_lowerFrom_iff hw, beginsWith_iff, hw.map_asciiLower]

end Text

/-- The words that mark a remark of each kind. -/
def RemarkKind.words : RemarkKind → List Text
  | todo => [ofString "todo", ofString "fixme", ofString "fix-me"]
  | note => [ofString "note", ofString "nb"]

theorem RemarkKind.isMarkerWord {k : RemarkKind} {w : Text} (hw : w ∈ k.words) : IsMarkerWord w := by
  have hall : ∀ k ∈ [todo, note], ∀ w ∈ words k,
      (∀ x ∈ w, x.isMarkerSym = true) ∧ w.getLast? ≠ some (.char 'i') := by decide
  obtain ⟨hsyms, hlast⟩ := hall k (by cases k <;> simp) w hw
  exact ⟨hsyms, hlast⟩

theorem RemarkKind.ne_nil {k : RemarkKind} {w : Text} (hw : w ∈ k.words) : w ≠ [] := by
  rintro rfl
  revert hw
  cases k <;> decide

/-- The first word of the comment starts with a word that marks the kind. -/
def Text.Marked (t : Text) (k : RemarkKind) : Prop :=
  ∃ w ∈ k.words, Text.BeginsWith (t.dropWhile Sym.isFiller) w

/-- The parts of a comment that is marked, seen from either end: what leads to the marker word, the word, the
gap behind it and the rest; and what is kept when the closing frame is left off. -/
structure MarkedComment (t : Text) (k : RemarkKind) where
  lead : Text
  word : Text
  gap : Text
  rest : Text
  kept : Text
  frame : Text
  parts : t = lead ++ word ++ gap ++ rest
  ends : t = kept ++ frame
  lead_filler : ∀ s ∈ lead, s.isFiller = true
  word_marks : word.map Sym.asciiLower ∈ k.words
  gap_filler : ∀ s ∈ gap, s.isFiller = true
  rest_head : ∀ s ∈ rest.head?, s.isFiller = false
  frame_isFrame : ∀ s ∈ frame, s.isFrame = true
  kept_last : ∀ s ∈ kept.getLast?, s.isFrame = false

namespace MarkedComment

variable {t : Text} {k : RemarkKind}

/-- From the rest on up to the closing frame; nothing if the frame starts before the rest does. -/
def remark (m : MarkedComment t k) : Text := m.kept.drop (m.lead ++ m.word ++ m.gap).length

theorem remark_infix (m : MarkedComment t k) : m.remark <:+: t := by
  have hkept : m.kept <+: t := ⟨m.frame, m.ends.symm⟩
  exact (List.drop_suffix _ m.kept).isInfix.trans hkept.isInfix

end MarkedComment

namespace Remark

/-- The comment from its first word on does not lose that word with the closing frame. -/
theorem getLast?_append_trimRight {u : Text} (h : ∃ s ∈ u.head?, s.isFiller = false) (lead : Text) :
    ∀ c ∈ (lead ++ Text.trimRight Sym.isFrame u).getLast?, c.isFrame = false := by
  obtain ⟨s, hu, hs⟩ := h
  have hframe : s.isFrame = false := by
    by_contra hne
    rw [Sym.isFiller_of_isFrame (Bool.eq_true_of_not_eq_false hne)] at hs
    contradiction
  obtain ⟨v, c, hv, hc⟩ := Text.exists_trimRight (p := Sym.isFrame) (t := u) ⟨s, List.mem_of_head? hu, hframe⟩
  rw [hv, ← List.append_assoc, List.getLast?_concat]
  rintro d ⟨⟩
  exact hc

/-- The text behind a word that a comment begins with is the remark of its parts. -/
theorem exists_markedComment {t w : Text} {k : RemarkKind} (hw : w ∈ k.words)
    (h : Text.BeginsWith (t.dropWhile Sym.isFiller) w) :
    ∃ m : MarkedComment t k,
      body t (t.takeWhile Sym.isFiller).length ((t.takeWhile Sym.isFiller).length + w.length) = m.remark := by
  have ht := List.takeWhile_append_dropWhile (p := Sym.isFiller) (l := t)
  have hlead : ∀ s ∈ t.takeWhile Sym.isFiller, s.isFiller = true := fun s hs => List.mem_takeWhile_imp hs
  have hhead := Text.head?_dropWhile Sym.isFiller t
  generalize t.takeWhile Sym.isFiller = lead at *
  generalize t.dropWhile Sym.isFiller = u at *
  obtain ⟨word, v, hu, hword⟩ := h
  rw [(RemarkKind.isMarkerWord hw).map_asciiLower] at hword
  have hlength : word.length = w.length := by simpa using congrArg List.length hword
  have hfirst : ∃ s ∈ u.head?, s.isFiller = false := by
    cases word with
    | nil => exact absurd (List.length_eq_zero_iff.mp hlength.symm) (RemarkKind.ne_nil hw)
    | cons s word =>
      rw [hu] at hhead ⊢
      exact ⟨s, rfl, hhead s rfl⟩
  obtain ⟨frame, hframe, hall⟩ := Text.exists_trimRight_append Sym.isFrame u
  have hparts : t = lead ++ word ++ v := by rw [List.append_assoc, ← hu, ht]
  have hends : t = lead ++ Text.trimRight Sym.isFrame u ++ frame := by rw [List.append_assoc, ← hframe, ht]
  refine ⟨{ lead, word, frame
            gap := v.takeWhile Sym.isFiller
            rest := v.dropWhile Sym.isFiller
            kept := lead ++ Text.trimRight Sym.isFrame u
            parts := by rw [List.append_assoc, List.takeWhile_append_dropWhile, hparts]
            ends := hends
            lead_filler := hlead
            word_marks := hword ▸ hw
            gap_filler := fun s hs => List.mem_takeWhile_imp hs
            rest_head := ?_
            frame_isFrame := hall
            kept_last := ?_ }, ?_⟩
  · exact Text.head?_dropWhile Sym.isFiller v
  · exact getLast?_append_trimRight hfirst lead
  · have hafter : t.drop (lead.length + w.length) = v := by
      rw [hparts, ← hlength, ← List.length_append, List.drop_left]
    have hbegin : t.drop lead.length = u := by rw [← ht, List.drop_left]
    have hkept : t.take (lead.length + (Text.trimRight Sym.isFrame u).length) =
        lead ++ Text.trimRight Sym.isFrame u := by
      rw [hends, ← List.length_append, List.take_left]
    simp only [body, MarkedComment.remark, hafter, hbegin, hkept, List.length_append, hlength]

/-- The remark of a comment, if a word of the given kind marks it. -/
def ofKind? (k : RemarkKind) (t : Text) : Option Remark :=
  let start := (t.takeWhile Sym.isFiller).length
  (k.words.find? fun w => w.isPrefixOf (t.lower.drop start)).map fun w => ⟨k, body t start (start + w.length)⟩

theorem ofKind?_cases (k : RemarkKind) (t : Text) :
    (t.Marked k ∧ ∃ m : MarkedComment t k, ofKind? k t = some ⟨k, m.remark⟩) ∨
      (¬ t.Marked k ∧ ofKind? k t = none) := by
  simp only [ofKind?]
  cases hfind : k.words.find? fun w => w.isPrefixOf (t.lower.drop (t.takeWhile Sym.isFiller).length) with
  | some w =>
    have hw := List.mem_of_find?_eq_some hfind
    have hlower := List.isPrefixOf_iff_prefix.mp (List.find?_some (p := fun w : Text => w.isPrefixOf _) hfind)
    have hbegins := (Text.isPrefix_lower_iff (RemarkKind.isMarkerWord hw) t).mp hlower
    obtain ⟨m, hm⟩ := exists_markedComment hw hbegins
    exact .inl ⟨⟨w, hw, hbegins⟩, m, by rw [Option.map_some, hm]⟩
  | none =>
    refine .inr ⟨?_, rfl⟩
    rintro ⟨w, hw, hbegins⟩
    have hlower := (Text.isPrefix_lower_iff (RemarkKind.isMarkerWord hw) t).mpr hbegins
    exact List.find?_eq_none.mp hfind w hw (List.isPrefixOf_iff_prefix.mpr hlower)

/-- The words of one kind are tried before those of the other. -/
theorem ofComment?_eq (t : Text) : ofComment? t = (ofKind? .todo t).or (ofKind? .note t) := by
  have hmarkers : markers = RemarkKind.todo.words.map (RemarkKind.todo, ·) ++
    RemarkKind.note.words.map (RemarkKind.note, ·) := rfl
  simp only [ofComment?, hmarkers, List.find?_append, List.find?_map, Option.map_or, Option.map_map]
  rfl

theorem ofComment?_cases (t : Text) :
    (t.Marked .todo ∧ ∃ m : MarkedComment t .todo, ofComment? t = some ⟨.todo, m.remark⟩) ∨
      (¬ t.Marked .todo ∧ t.Marked .note ∧ ∃ m : MarkedComment t .note, ofComment? t = some ⟨.note, m.remark⟩) ∨
      (¬ t.Marked .todo ∧ ¬ t.Marked .note ∧ ofComment? t = none) := by
  rw [ofComment?_eq]
  rcases ofKind?_cases .todo t with ⟨htodo, m, hm⟩ | ⟨htodo, hnone⟩
  · rw [hm]
    exact .inl ⟨htodo, m, rfl⟩
  rw [hnone, Option.none_or]
  rcases ofKind?_cases .note t with ⟨hnote, m, hm⟩ | ⟨hnote, hnone⟩
  · exact .inr (.inl ⟨htodo, hnote, m, hm⟩)
  · exact .inr (.inr ⟨htodo, hnote, hnone⟩)

/-- A comment is a todo just if its first word starts with a todo marker, a note just if it starts with no such
marker but one for notes, and nothing otherwise. The remark is the comment from the rest behind the marker up to
the closing frame, so it is a part of the comment, and it closes no comment that the comment itself leaves
open. -/
theorem ofComment?_marked (t : Text) :
    ((∃ x, ofComment? t = some ⟨.todo, x⟩) ↔ t.Marked .todo) ∧
      ((∃ x, ofComment? t = some ⟨.note, x⟩) ↔ ¬ t.Marked .todo ∧ t.Marked .note) ∧
      (ofComment? t = none ↔ ¬ t.Marked .todo ∧ ¬ t.Marked .note) ∧
      ∀ r, ofComment? t = some r →
        (∃ m : MarkedComment t r.kind, r.text = m.remark) ∧ r.text <:+: t ∧
          (¬ ofString "*/" <:+: t → ¬ ofString "*/" <:+: r.text) := by
  have hpart (r : Remark) (m : MarkedComment t r.kind) (hr : r.text = m.remark) :
      (∃ m : MarkedComment t r.kind, r.text = m.remark) ∧ r.text <:+: t ∧
        (¬ ofString "*/" <:+: t → ¬ ofString "*/" <:+: r.text) := by
    have hinfix : r.text <:+: t := hr ▸ m.remark_infix
    exact ⟨⟨m, hr⟩, hinfix, fun hopen hclose => hopen (hclose.trans hinfix)⟩
  rcases ofComment?_cases t with ⟨htodo, m, hm⟩ | ⟨htodo, hnote, m, hm⟩ | ⟨htodo, hnote, hnone⟩
  · refine ⟨by simp [hm, htodo], by simp [hm, htodo], by simp [hm, htodo], fun r hr => ?_⟩
    obtain rfl : _ = r := Option.some.inj (hm.symm.trans hr)
    exact hpart _ m rfl
  · refine ⟨by simp [hm, htodo], by simp [hm, htodo, hnote], by simp [hm, hnote], fun r hr => ?_⟩
    obtain rfl : _ = r := Option.some.inj (hm.symm.trans hr)
    exact hpart _ m rfl
  · refine ⟨by simp [hnone, htodo], by simp [hnone, hnote], by simp [hnone, htodo, hnote], fun r hr => ?_⟩
    rw [hnone] at hr
    contradiction

/-- The dotted capital I is kept behind a marker word and makes none inside of it. -/
theorem ofComment?_marked_dotted :
    let t := ofString "// FixMe: \u0130 k*"
    let x := ofString "\u0130 k"
    (ofComment? t = some ⟨.todo, x⟩ ∧ t.Marked .todo ∧ x <:+: t ∧ ¬ ofString "*/" <:+: x) ∧
      ofComment? (ofString "// F\u0130XME k") = none ∧ ¬ (ofString "// F\u0130XME k").Marked .todo := by
  intro t x
  have hsome : ofComment? t = some ⟨.todo, x⟩ := by decide +kernel
  have hnone : ofComment? (ofString "// F\u0130XME k") = none := by decide +kernel
  obtain ⟨htodo, -, -, hremark⟩ := ofComment?_marked t
  obtain ⟨-, hinfix, hopen⟩ := hremark _ hsome
  obtain ⟨-, -, hneither, -⟩ := ofComment?_marked (ofString "// F\u0130XME k")
  exact ⟨⟨hsome, htodo.mp ⟨_, hsome⟩, hinfix, hopen (by decide)⟩, hnone, (hneither.mp hnone).1⟩

end Remark

end DocBlock
