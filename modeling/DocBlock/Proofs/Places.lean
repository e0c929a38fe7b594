import Mathlib
import DocBlock.Text.Offset
import DocBlock.Proofs.Spelling

/-! A declarator read by offsets, each look at the text checked. The walk moves two bounds towards each
other, over whatever text there is, and stops at once where it would look outside. It never does: its
places are in order within the text, and what it finds is what is read. -/

namespace DocBlock

open Text (ofString)

namespace Text

/-- The last place of `c` from `start` on and before `stop`. -/
def lastAt? (c : Sym) (t : Text) (start : Nat) : Nat → Option Nat
  | 0 => none
  | stop + 1 =>
    if stop < start then none else if t[stop]? = some c then some stop else lastAt? c t start stop

/-- Whether the whole word `w` stands at `start` and ends no later than `limit`. -/
def wordAt? (w t : Text) (start limit : Nat) : Option Bool :=
  let stop := start + w.length
  if limit < stop || !w.isPrefixOf (t.drop start) then some false
  else if stop < limit then t[stop]?.map fun c => !c.isWord
  else some true

variable {p : Sym → Bool} {a m b t : Text}

theorem runLength?_append (m b : Text) : runLength? p m.length (m ++ b) = some (m.takeWhile p).length := by
  induction m with
  | nil => rfl
  | cons c m ih =>
    rw [List.cons_append, List.length_cons, runLength?, ih]
    cases h : p c <;> simp [h]

theorem skip?_append (a m b : Text) :
    skip? p (a ++ m ++ b) a.length (a ++ m).length = some (a ++ m.takeWhile p).length := by
  have hcount : (a ++ m).length - a.length = m.length := by simp
  rw [skip?, hcount, List.append_assoc, List.drop_left, runLength?_append]
  simp

theorem trim?_append (a m b : Text) :
    trim? p (a ++ m ++ b) (a ++ m).length a.length = some (a ++ m.trimRight p).length := by
  unfold trim?
  split
  · next h =>
    obtain rfl : m = [] := List.eq_nil_of_length_eq_zero (by simpa using h)
    rfl
  · rw [if_neg (by simp), List.take_left, List.drop_left, List.length_append]

theorem le_of_skip? {start stop e : Nat} (h : skip? p t start stop = some e) : start ≤ e := by
  obtain ⟨n, -, rfl⟩ := Option.map_eq_some_iff.mp h
  exact Nat.le_add_right start n

theorem le_of_trim? {stop start e : Nat} (h : trim? p t stop start = some e) : e ≤ stop := by
  unfold trim? at h
  split_ifs at h with hle
  · exact (Option.some.inj h).ge
  · obtain ⟨tail, he, -⟩ := exists_trimRight_append p ((t.take stop).drop start)
    have hlength := congrArg List.length he
    rw [List.length_append, List.length_drop, List.length_take] at hlength
    have := Option.some.inj h
    omega

theorem le_of_wordAt? {w t : Text} {start limit : Nat} (h : wordAt? w t start limit = some true) :
    start + w.length ≤ limit := by
  by_contra hlt
  rw [wordAt?, if_pos (by simp [not_le.mp hlt])] at h
  contradiction

/-- A whole word at the start of a stretch is found by offsets just as in the stretch itself. -/
theorem wordAt?_append (w a m b : Text) :
    wordAt? w (a ++ m ++ b) a.length (a ++ m).length = some (afterWord? w m).isSome := by
  simp only [wordAt?, afterWord?, List.append_assoc a m b, List.drop_left]
  by_cases hw : w <+: m
  · obtain ⟨rest, rfl⟩ := hw
    cases rest with
    | nil => simp
    | cons c r => cases h : c.isWord <;> simp [h]
  · have hshort : (a ++ m).length < a.length + w.length ∨ w.isPrefixOf (m ++ b) = false := by
      by_contra hno
      simp only [not_or, not_lt, Bool.not_eq_false, List.isPrefixOf_iff_prefix] at hno
      obtain ⟨hlimit, hprefix⟩ := hno
      exact hw (List.prefix_of_prefix_length_le hprefix (List.prefix_append m b) (by simpa using hlimit))
    have hno : w.isPrefixOf m = false := by simpa [Bool.eq_false_iff] using hw
    rw [if_pos (by simpa using hshort)]
    simp [hno]

theorem lastAt?_self (c : Sym) (t : Text) (n : Nat) : lastAt? c t n n = none := by
  cases n with
  | zero => rfl
  | succ n => simp [lastAt?]

/-- Backwards from the end of a stretch, the last bracket is found where the stretch is cut before it. -/
theorem lastAt?_append (a m b : Text) :
    max (((a ++ m ++ b).lastAt? (.char '[') a.length (a ++ m).length).getD 0) a.length =
      (a ++ Declarator.beforeBracket m).length := by
  induction m using List.reverseRecOn generalizing b with
  | nil => simp [lastAt?_self, Declarator.beforeBracket]
  | append_singleton m c ih =>
    have hlook : (a ++ (m ++ [c]) ++ b)[(a ++ m).length]? = some c := by simp
    have hlength : (a ++ (m ++ [c])).length = (a ++ m).length + 1 := by simp [Nat.add_assoc]
    rw [hlength, lastAt?, if_neg (by simp), hlook]
    by_cases hc : c = .char '['
    · rw [hc, if_pos rfl, Declarator.Spelling.beforeBracket_append (by simp)]
      simp
    · have hcut : Declarator.beforeBracket (m ++ [c]) = Declarator.beforeBracket m := by
        simp [Declarator.beforeBracket, hc]
      rw [if_neg (by simpa using hc), hcut, ← ih (c :: b)]
      simp

end Text

namespace Qualifier

/-- The qualifier at `start`, if one ends no later than `limit`. -/
def leadingAt? (t : Text) (start limit : Nat) : Option (Option Qualifier) :=
  (Text.wordAt? static.word t start limit).bind fun found =>
    if found then some (some static)
    else (Text.wordAt? const.word t start limit).map fun found => if found then some const else none

theorem le_of_leadingAt? {t : Text} {start limit : Nat} {q : Qualifier}
    (h : leadingAt? t start limit = some (some q)) : start + q.word.length ≤ limit := by
  have hfound : Text.wordAt? q.word t start limit = some true := by
    obtain ⟨b, hb, h⟩ := Option.bind_eq_some_iff.mp h
    cases b with
    | true =>
      obtain rfl : static = q := by simpa using h
      exact hb
    | false =>
      obtain ⟨b', hb', h⟩ := Option.map_eq_some_iff.mp h
      cases b' with
      | true =>
        obtain rfl : const = q := by simpa using h
        exact hb'
      | false => simp at h
  exact Text.le_of_wordAt? hfound

/-- All qualifiers from `start` on, and the place behind them and the blanks that follow each. -/
def takeAllAt? (t : Text) (start limit : Nat) : Option (List Qualifier × Nat) :=
  match _h : leadingAt? t start limit with
  | none => none
  | some none => some ([], start)
  | some (some q) =>
    match _hs : t.skip? Sym.isBlank (start + q.word.length) limit with
    | none => none
    | some next => (takeAllAt? t next limit).map fun r => (q :: r.1, r.2)
termination_by limit - start
decreasing_by
  have hlimit := le_of_leadingAt? _h
  have hnext := Text.le_of_skip? _hs
  have hword : 0 < q.word.length := by cases q <;> decide
  omega

theorem leadingAt?_append (a m b : Text) :
    leadingAt? (a ++ m ++ b) a.length (a ++ m).length = some ((leading? m).map (·.1)) := by
  unfold leadingAt? leading?
  rw [Text.wordAt?_append, Text.wordAt?_append]
  cases Text.afterWord? static.word m <;> cases Text.afterWord? const.word m <;> rfl

theorem takeAllAt?_of_none {t : Text} {start limit : Nat} (h : leadingAt? t start limit = some none) :
    takeAllAt? t start limit = some ([], start) := by
  unfold takeAllAt?
  split <;> simp_all

theorem takeAllAt?_of_some {t : Text} {start limit next : Nat} {q : Qualifier}
    (h : leadingAt? t start limit = some (some q))
    (hs : t.skip? Sym.isBlank (start + q.word.length) limit = some next) :
    takeAllAt? t start limit = (takeAllAt? t next limit).map fun r => (q :: r.1, r.2) := by
  rw [takeAllAt?]
  split
  · simp_all
  · simp_all
  · next q' h' =>
    obtain rfl : q = q' := by simpa [h] using h'
    split
    · simp_all
    · next e he =>
      obtain rfl : next = e := by simpa [hs] using he
      rfl

theorem eq_of_leading? {m rest : Text} {q : Qualifier} (h : leading? m = some (q, rest)) :
    m = q.word ++ rest := by
  unfold leading? at h
  split at h
  · next r hs =>
    obtain ⟨rfl, rfl⟩ := Prod.mk.inj (Option.some.inj h)
    exact (Text.afterWord?_eq_some_iff.mp hs).1
  · obtain ⟨r, hc, he⟩ := Option.map_eq_some_iff.mp h
    obtain ⟨rfl, rfl⟩ := Prod.mk.inj he
    exact (Text.afterWord?_eq_some_iff.mp hc).1

/-- The walk over the qualifiers of a stretch ends where the rest of the stretch begins. -/
theorem exists_takeAllAt? (m : Text) :
    ∃ x, m = x ++ (takeAll m).2 ∧ ∀ a b,
      takeAllAt? (a ++ m ++ b) a.length (a ++ m).length = some ((takeAll m).1, (a ++ x).length) := by
  induction h : m.length using Nat.strong_induction_on generalizing m with
  | _ n ih =>
  subst h
  cases hl : leading? m with
  | none =>
    refine ⟨[], by rw [takeAll_of_none hl]; rfl, fun a b => ?_⟩
    rw [takeAllAt?_of_none (by rw [leadingAt?_append, hl]; rfl), takeAll_of_none hl, List.append_nil]
  | some found =>
    obtain ⟨q, rest⟩ := found
    obtain rfl := eq_of_leading? hl
    have hgap := List.takeWhile_append_dropWhile (p := Sym.isBlank) (l := rest)
    set gap := rest.takeWhile Sym.isBlank
    set next := rest.dropWhile Sym.isBlank with hnext
    have hlt : next.length < (q.word ++ rest).length := by
      have hrest := length_lt_of_leading? hl
      have hdrop : next.length ≤ rest.length := (List.dropWhile_suffix _).length_le
      omega
    obtain ⟨x, hx, hwalk⟩ := ih next.length hlt next rfl
    rw [takeAll_of_some hl, ← hnext]
    refine ⟨q.word ++ gap ++ x, by rw [List.append_assoc, ← hx, List.append_assoc, hgap], fun a b => ?_⟩
    have hskip : (a ++ (q.word ++ rest) ++ b).skip? Sym.isBlank (a.length + q.word.length)
        (a ++ (q.word ++ rest)).length = some (a ++ q.word ++ gap).length := by
      rw [← List.append_assoc a, ← List.length_append]
      exact Text.skip?_append (a ++ q.word) rest b
    have hrest : a ++ (q.word ++ rest) = a ++ q.word ++ gap ++ next := by
      rw [List.append_assoc, hgap, List.append_assoc]
    rw [takeAllAt?_of_some (by rw [leadingAt?_append, hl]; rfl) hskip, hrest, hwalk]
    simp

end Qualifier

namespace Declarator

/-- Steps back from `stop` over stars, each with the blanks before it: how many there are, and the place
that is left. -/
def starsAt? (t : Text) (start stop : Nat) : Option (Nat × Nat) :=
  if start < stop then
    match t[stop - 1]? with
    | none => none
    | some c =>
      if c = .char '*' then
        match _h : t.trim? Sym.isBlank (stop - 1) start with
        | none => none
        | some back => (starsAt? t start back).map fun r => (r.1 + 1, r.2)
      else some (0, stop)
  else some (0, stop)
termination_by stop
decreasing_by
  have := Text.le_of_trim? _h
  omega

theorem starsAt?_of_star {t : Text} {start stop back : Nat} (hlt : start < stop)
    (hc : t[stop - 1]? = some (.char '*')) (hb : t.trim? Sym.isBlank (stop - 1) start = some back) :
    starsAt? t start stop = (starsAt? t start back).map fun r => (r.1 + 1, r.2) := by
  rw [starsAt?, if_pos hlt, hc]
  simp only [if_true]
  split
  · simp_all
  · next e he =>
    obtain rfl : back = e := by simpa [hb] using he
    rfl

theorem starsAt?_of_ne {t : Text} {start stop : Nat} {c : Sym} (hlt : start < stop)
    (hc : t[stop - 1]? = some c) (hne : c ≠ .char '*') : starsAt? t start stop = some (0, stop) := by
  rw [starsAt?, if_pos hlt, hc]
  simp [hne]

/-- How many stars end a text, whatever blanks stand between them. -/
def starCount (m : Text) : Nat := (m.drop (m.trimRight isPointerMark).length).count (.char '*')

theorem starCount_append (v : Text) {marks : Text} (h : ∀ c ∈ marks, isPointerMark c = true) :
    starCount (v ++ marks) = starCount v + marks.count (.char '*') := by
  obtain ⟨tail, hv, -⟩ := Text.exists_trimRight_append isPointerMark v
  rw [starCount, starCount, Text.trimRight_append_of_forall h]
  generalize v.trimRight isPointerMark = u at hv ⊢
  rw [hv, List.append_assoc, List.drop_left, List.drop_left, List.count_append]

theorem isPointerMark_of_isBlank {c : Sym} (h : c.isBlank = true) : isPointerMark c = true := by
  simp [isPointerMark, h]

/-- The walk back over the stars of a stretch that does not end with a blank. -/
theorem starsAt?_append (a m b : Text) (hm : ∀ c ∈ m.getLast?, c.isBlank = false) :
    starsAt? (a ++ m ++ b) a.length (a ++ m).length =
      some (starCount m, (a ++ m.trimRight isPointerMark).length) := by
  induction h : m.length using Nat.strong_induction_on generalizing m b with
  | _ n ih =>
  subst h
  rcases List.eq_nil_or_concat' m with rfl | ⟨u, c, rfl⟩
  · rw [starsAt?, if_neg (by simp)]
    rfl
  have hlt : a.length < (a ++ (u ++ [c])).length := by simp
  have hlook : (a ++ (u ++ [c]) ++ b)[(a ++ (u ++ [c])).length - 1]? = some c := by simp
  by_cases hc : c = .char '*'
  · subst hc
    obtain ⟨gap, hu, hgap⟩ := Text.exists_trimRight_append Sym.isBlank u
    have hlast := Text.getLast?_trimRight Sym.isBlank u
    have hback := Text.trim?_append (p := Sym.isBlank) a u (Sym.char '*' :: b)
    generalize Text.trimRight Sym.isBlank u = v at hu hlast hback
    subst hu
    have hmarks : ∀ c ∈ gap ++ [Sym.char '*'], isPointerMark c = true := by
      simp only [List.forall_mem_append, List.forall_mem_singleton]
      exact ⟨fun c hc => isPointerMark_of_isBlank (hgap c hc), rfl⟩
    have hnone : gap.count (.char '*') = 0 :=
      List.count_eq_zero.mpr fun hmem => absurd (hgap _ hmem) (by decide)
    have hstop : (a ++ (v ++ gap ++ [Sym.char '*'])).length - 1 = (a ++ (v ++ gap)).length := by
      simp
      omega
    have htext : a ++ (v ++ gap ++ [Sym.char '*']) ++ b = a ++ (v ++ gap) ++ Sym.char '*' :: b := by simp
    have htext' : a ++ (v ++ gap) ++ Sym.char '*' :: b = a ++ v ++ (gap ++ Sym.char '*' :: b) := by simp
    -- One star is left behind, and the walk goes on from the blanks before it.
    rw [starsAt?_of_star hlt hlook (by rw [htext, hstop, hback]), htext, htext',
      ih v.length (by simp) v _ hlast rfl, List.append_assoc v, starCount_append v hmarks,
      Text.trimRight_append_of_forall hmarks, List.count_append, hnone]
    rfl
  · have hmark : ∀ d ∈ (u ++ [c]).getLast?, isPointerMark d = false := by
      intro d hd
      obtain rfl : c = d := by simpa using hd
      simp [isPointerMark, hm c hd, hc]
    rw [starsAt?_of_ne hlt hlook hc, starCount, Text.trimRight_eq_self hmark, List.drop_length]
    rfl

/-- The same from the end of any stretch, once the blanks there are left off. -/
theorem exists_starsAt? (a m b : Text) :
    ∃ stop, (a ++ m ++ b).trim? Sym.isBlank (a ++ m).length a.length = some stop ∧
      starsAt? (a ++ m ++ b) a.length stop = some (starCount m, (a ++ m.trimRight isPointerMark).length) := by
  refine ⟨_, Text.trim?_append a m b, ?_⟩
  obtain ⟨gap, hm, hgap⟩ := Text.exists_trimRight_append Sym.isBlank m
  have hlast := Text.getLast?_trimRight Sym.isBlank m
  generalize Text.trimRight Sym.isBlank m = v at hm hlast ⊢
  subst hm
  have hmarks : ∀ c ∈ gap, isPointerMark c = true := fun c hc => isPointerMark_of_isBlank (hgap c hc)
  have hnone : gap.count (.char '*') = 0 :=
    List.count_eq_zero.mpr fun hmem => absurd (hgap _ hmem) (by decide)
  have htext : a ++ (v ++ gap) ++ b = a ++ v ++ (gap ++ b) := by simp
  rw [htext, starsAt?_append a v _ hlast, starCount_append v hmarks, hnone,
    Text.trimRight_append_of_forall hmarks]
  rfl

/-- Whether a bracket pair ends a stretch, and the place where the stretch ends without it. -/
def splitArrayAt? (t : Text) (start stop : Nat) : Option (Bool × Nat) :=
  if start < stop then
    match t[stop - 1]? with
    | none => none
    | some c =>
      if c = .char ']' then
        (t.trim? Sym.isBlank (max ((t.lastAt? (.char '[') start (stop - 1)).getD 0) start) start).map (true, ·)
      else some (false, stop)
  else some (false, stop)

theorem exists_beforeBracket (m : Text) : ∃ x, m = beforeBracket m ++ x := by
  obtain ⟨y, hy⟩ : (m.reverse.dropWhile (· ≠ Sym.char '[')).drop 1 <:+ m.reverse :=
    (List.drop_suffix 1 _).trans (List.dropWhile_suffix _)
  refine ⟨y.reverse, ?_⟩
  rw [beforeBracket, ← List.reverse_append, hy, List.reverse_reverse]

theorem exists_splitArray (m : Text) : ∃ x, m = (splitArray m).1 ++ x := by
  unfold splitArray
  split
  · obtain ⟨x, hx⟩ := exists_beforeBracket m.dropLast
    obtain ⟨y, hy, -⟩ := Text.exists_trimRight_append Sym.isBlank (beforeBracket m.dropLast)
    obtain ⟨z, hz⟩ := List.dropLast_prefix m
    refine ⟨y ++ x ++ z, ?_⟩
    rw [← List.append_assoc, ← List.append_assoc, ← hy, ← hx, hz]
  · exact ⟨[], (List.append_nil m).symm⟩

theorem splitArrayAt?_append (a m b : Text) :
    splitArrayAt? (a ++ m ++ b) a.length (a ++ m).length =
      some ((splitArray m).2, (a ++ (splitArray m).1).length) := by
  rcases List.eq_nil_or_concat' m with rfl | ⟨u, c, rfl⟩
  · simp [splitArrayAt?, splitArray]
  · have hlt : a.length < (a ++ (u ++ [c])).length := by simp
    have hlook : (a ++ (u ++ [c]) ++ b)[(a ++ (u ++ [c])).length - 1]? = some c := by simp
    simp only [splitArrayAt?, if_pos hlt, hlook, splitArray, List.getLast?_concat, Option.some.injEq,
      List.dropLast_concat]
    split_ifs with hc
    · obtain ⟨x, hx⟩ := exists_beforeBracket u
      have htext : a ++ (u ++ [c]) ++ b = a ++ u ++ c :: b := by simp
      have hstop : (a ++ (u ++ [c])).length - 1 = (a ++ u).length := by simp
      rw [htext, hstop, Text.lastAt?_append]
      have htext' : a ++ u ++ c :: b = a ++ beforeBracket u ++ (x ++ c :: b) := by
        rw [← List.append_assoc (a ++ beforeBracket u), List.append_assoc a (beforeBracket u), ← hx]
      rw [htext', Text.trim?_append]
      rfl
    · rfl

/-- The places that are found on the way through a declarator. -/
structure Places where
  /-- Where the text starts and ends but for blanks. -/
  first : Nat
  last : Nat
  isArray : Bool
  nameStart : Nat
  nameStop : Nat
  qualifiers : List Qualifier
  baseStart : Nat
  baseStop : Nat
  pointers : Nat

/-- Finds the places of a declarator; `none` says that it looked outside the text. -/
def places? (t : Text) : Option Places := do
  let first ← t.skip? Sym.isBlank 0 t.length
  let last ← t.trim? Sym.isBlank t.length first
  let (isArray, nameStop) ← splitArrayAt? t first last
  let nameStart ← t.trim? Sym.isWord nameStop first
  let (qualifiers, baseStart) ← Qualifier.takeAllAt? t first nameStart
  let starsStop ← t.trim? Sym.isBlank nameStart baseStart
  let (pointers, baseStop) ← starsAt? t baseStart starsStop
  return { first, last, isArray, nameStart, nameStop, qualifiers, baseStart, baseStop, pointers }

/-- What is read at the places that were found. -/
def Places.declarator (p : Places) (capacity : Int) (t : Text) : Declarator where
  name := (t.take p.nameStop).drop p.nameStart
  start := p.nameStart
  phrase := phraseOf capacity p.pointers p.isArray (p.qualifiers.contains .const)
    ((t.take p.baseStop).drop p.baseStart)
  isStatic := p.qualifiers.contains .static
  isConst := p.qualifiers.contains .const
  pointers := p.pointers
  isArray := p.isArray

/-- The places are in order, and inside the text. -/
structure Places.Within (p : Places) (t : Text) : Prop where
  first_le : p.first ≤ p.baseStart
  base_le : p.baseStart ≤ p.baseStop
  baseStop_le : p.baseStop ≤ p.nameStart
  name_le : p.nameStart ≤ p.nameStop
  nameStop_le : p.nameStop ≤ p.last
  last_le : p.last ≤ t.length

theorem read_eq_parts (t : Text) (capacity : Int) :
    let core := (splitArray t.strip).1
    let front := core.trimRight Sym.isWord
    let taken := Qualifier.takeAll front
    let base := taken.2.trimRight isPointerMark
    read capacity t =
      { name := (core.reverse.takeWhile Sym.isWord).reverse
        start := (t.takeWhile Sym.isBlank ++ front).length
        phrase := phraseOf capacity (starCount taken.2) (splitArray t.strip).2 (taken.1.contains .const) base
        isStatic := taken.1.contains .static
        isConst := taken.1.contains .const
        pointers := starCount taken.2
        isArray := (splitArray t.strip).2 } := by
  intro core front taken base
  have hcore : core = front ++ (core.reverse.takeWhile Sym.isWord).reverse :=
    (Text.trimRight_append_takeWhile Sym.isWord core).symm
  have hfront : core.take (core.length - (core.reverse.takeWhile Sym.isWord).reverse.length) = front := by
    have hlength := congrArg List.length hcore
    rw [List.length_append] at hlength
    rw [hlength, Nat.add_sub_cancel]
    exact (congrArg (List.take front.length) hcore).trans List.take_left
  unfold read
  simp only
  rw [hfront, List.length_append]
  rfl

/-- A text cut at the places of a declarator. -/
structure Parts where
  lead : Text
  /-- The qualifiers, with the blanks behind each. -/
  qualified : Text
  base : Text
  stars : Text
  name : Text
  /-- What a trailing bracket pair takes away. -/
  array : Text
  trail : Text
  qualifiers : List Qualifier
  isArray : Bool
  lead_blank : ∀ c ∈ lead, c.isBlank = true
  name_word : ∀ c ∈ name, c.isWord = true
  before_name : ∀ c ∈ (qualified ++ (base ++ stars)).getLast?, c.isWord = false

namespace Parts

variable (x : Parts)

/-- What stands before the name, but for the blanks at the start. -/
def front : Text := x.qualified ++ (x.base ++ x.stars)

def text : Text := x.lead ++ (x.front ++ x.name ++ x.array) ++ x.trail

def places : Places where
  first := x.lead.length
  last := (x.lead ++ (x.front ++ x.name ++ x.array)).length
  isArray := x.isArray
  nameStart := (x.lead ++ x.front).length
  nameStop := (x.lead ++ (x.front ++ x.name)).length
  qualifiers := x.qualifiers
  baseStart := (x.lead ++ x.qualified).length
  baseStop := (x.lead ++ x.qualified ++ x.base).length
  pointers := starCount (x.base ++ x.stars)

theorem within_places : x.places.Within x.text := by
  constructor <;> simp [places, text, front]

theorem slice_append (a m b : Text) : ((a ++ m ++ b).take (a ++ m).length).drop a.length = m := by
  rw [List.take_left, List.drop_left]

theorem declarator_places (capacity : Int) :
    x.places.declarator capacity x.text =
      { name := x.name
        start := (x.lead ++ x.front).length
        phrase := phraseOf capacity (starCount (x.base ++ x.stars)) x.isArray (x.qualifiers.contains .const) x.base
        isStatic := x.qualifiers.contains .static
        isConst := x.qualifiers.contains .const
        pointers := starCount (x.base ++ x.stars)
        isArray := x.isArray } := by
  have hname := slice_append (x.lead ++ x.front) x.name (x.array ++ x.trail)
  have hbase := slice_append (x.lead ++ x.qualified) x.base (x.stars ++ x.name ++ x.array ++ x.trail)
  have htext : x.lead ++ x.front ++ x.name ++ (x.array ++ x.trail) = x.text := by simp [text]
  have htext' : x.lead ++ x.qualified ++ x.base ++ (x.stars ++ x.name ++ x.array ++ x.trail) = x.text := by
    simp [text, front]
  rw [htext, List.append_assoc] at hname
  rw [htext'] at hbase
  simp only [Places.declarator, places, hname, hbase]

/-- The name goes as far back as word symbols do. -/
theorem not_isWord_before_name : ∀ c ∈ (x.text.take x.places.nameStart).getLast?, c.isWord = false := by
  intro c hc
  have htext : x.text = (x.lead ++ x.front) ++ (x.name ++ x.array ++ x.trail) := by simp [text]
  rw [htext, places, List.take_left] at hc
  by_cases hf : x.front = []
  · rw [hf, List.append_nil] at hc
    exact Sym.isWord_of_isBlank (x.lead_blank c (List.mem_of_getLast? hc))
  · rw [List.getLast?_append_of_ne_nil _ hf] at hc
    exact x.before_name c hc

end Parts

/-- The blanks around a text end where the walk finds them to end. -/
theorem exists_blanks (t : Text) :
    ∃ lead trail, t.takeWhile Sym.isBlank = lead ∧ t = lead ++ t.strip ++ trail ∧
      t.skip? Sym.isBlank 0 t.length = some lead.length ∧
      t.trim? Sym.isBlank t.length lead.length = some (lead ++ t.strip).length := by
  obtain ⟨trail, htrail, -⟩ := Text.exists_trimRight_append Sym.isBlank (t.dropWhile Sym.isBlank)
  refine ⟨_, trail, rfl, ?_, ?_, ?_⟩
  · rw [Text.strip, Text.trim, List.append_assoc, ← htrail, List.takeWhile_append_dropWhile]
  · simpa using Text.skip?_append (p := Sym.isBlank) [] t []
  · have := Text.trim?_append (p := Sym.isBlank) (t.takeWhile Sym.isBlank) (t.dropWhile Sym.isBlank) []
    rwa [List.append_nil, List.takeWhile_append_dropWhile] at this

/-- In what stands before the name, the walk over the qualifiers and the walk back over the stars leave the
base between them. -/
theorem exists_base (front : Text) :
    ∃ qualified base stars, front = qualified ++ (base ++ stars) ∧ (Qualifier.takeAll front).2 = base ++ stars ∧
      Text.trimRight isPointerMark (base ++ stars) = base ∧ ∀ a b, ∃ stop,
        Qualifier.takeAllAt? (a ++ front ++ b) a.length (a ++ front).length =
          some ((Qualifier.takeAll front).1, (a ++ qualified).length) ∧
        (a ++ front ++ b).trim? Sym.isBlank (a ++ front).length (a ++ qualified).length = some stop ∧
        starsAt? (a ++ front ++ b) (a ++ qualified).length stop =
          some (starCount (base ++ stars), (a ++ qualified ++ base).length) := by
  obtain ⟨qualified, hfront, hqualifiers⟩ := Qualifier.exists_takeAllAt? front
  obtain ⟨stars, htyped, -⟩ := Text.exists_trimRight_append isPointerMark (Qualifier.takeAll front).2
  refine ⟨qualified, _, stars, by rw [← htyped]; exact hfront, htyped, by rw [← htyped], fun a b => ?_⟩
  obtain ⟨stop, hstop, hstars⟩ := exists_starsAt? (a ++ qualified) (Qualifier.takeAll front).2 b
  rw [List.append_assoc a, ← hfront] at hstop hstars
  rw [← htyped]
  exact ⟨stop, hqualifiers a b, hstop, hstars⟩

/-- Any text has such parts: they are what is read, and the walk finds their places. -/
theorem exists_parts (t : Text) :
    ∃ x : Parts, x.text = t ∧ places? t = some x.places ∧
      ∀ capacity, read capacity t = x.places.declarator capacity x.text := by
  have hread := read_eq_parts t
  simp only at hread
  obtain ⟨lead, trail, hlead, ht, hfirst, hlast⟩ := exists_blanks t
  obtain ⟨array, hm⟩ := exists_splitArray t.strip
  have harray := splitArrayAt?_append lead t.strip trail
  -- The name is taken off the end, and only what is known of it and of what is left is kept.
  generalize (splitArray t.strip).1 = core at *
  have hcore := Text.trimRight_append_takeWhile Sym.isWord core
  have hname := Text.trim?_append (p := Sym.isWord) lead core (array ++ trail)
  have hword : ∀ c ∈ (core.reverse.takeWhile Sym.isWord).reverse, c.isWord = true :=
    fun c hc => List.mem_takeWhile_imp (List.mem_reverse.mp hc)
  have hbefore := Text.getLast?_trimRight Sym.isWord core
  generalize Text.trimRight Sym.isWord core = front at *
  generalize (core.reverse.takeWhile Sym.isWord).reverse = name at *
  obtain ⟨qualified, base, stars, hfront, htyped, hbase, hwalk⟩ := exists_base front
  obtain ⟨stop, hqualifiers, hstop, hstars⟩ := hwalk lead (name ++ array ++ trail)
  -- Each step of the walk was over a stretch of the text.
  have hsplit : lead ++ (front ++ name ++ array) ++ trail = t := by rw [hcore, ← hm, ← ht]
  have hat : lead ++ core ++ (array ++ trail) = t := by rw [← hsplit, hcore]; simp
  have hat' : lead ++ front ++ (name ++ array ++ trail) = t := by rw [← hsplit]; simp
  rw [← ht] at harray
  rw [hat] at hname
  rw [hat'] at hqualifiers hstop hstars
  subst hfront
  let x : Parts :=
    { lead, qualified, base, stars, name, array, trail
      qualifiers := (Qualifier.takeAll (qualified ++ (base ++ stars))).1
      isArray := (splitArray t.strip).2
      lead_blank := fun c hc => List.mem_takeWhile_imp (hlead ▸ hc)
      name_word := hword
      before_name := hbefore }
  refine ⟨x, hsplit, ?_, fun capacity => ?_⟩
  · simp only [places?, hfirst, hlast, harray, hname, hqualifiers, hstop, hstars, Option.bind_eq_bind,
      Option.bind_some, x, Parts.places, Parts.front, hcore, ← hm]
    rfl
  · rw [x.declarator_places, hread, hlead, htyped, hbase]
    rfl

/-- Whatever the text, the walk to the places of a declarator ends and looks at nothing outside it. The
places are in order, and what stands at them is what is read: the name lies where it says, is made of word
symbols and goes as far back as these do. The capacity decides how much of the phrase is kept and nothing
else, as capped text holds the first symbols of all that was appended to it. -/
theorem read_within (t : Text) :
    ∃ p, places? t = some p ∧ p.Within t ∧ ∀ capacity : Int,
      let d := read capacity t
      d = p.declarator capacity t ∧ d.start = p.nameStart ∧ d.stop = p.nameStop ∧
        d.start ≤ d.stop ∧ d.stop ≤ t.length ∧ d.name = (t.take d.stop).drop d.start ∧
        (∀ c ∈ d.name, c.isWord = true) ∧ (∀ c ∈ (t.take d.start).getLast?, c.isWord = false) ∧
        (∀ k, read k t = { d with phrase := (read k t).phrase }) ∧
        d.phrase = (wholePhrase t).take capacity.toNat ∧
        ((wholePhrase t).length ≤ capacity → d.phrase = wholePhrase t) ∧
        ∀ ts : List Text,
          (ts.foldl CappedText.append (.ofCapacity capacity)).text = ts.flatten.take capacity.toNat := by
  obtain ⟨x, rfl, hplaces, hread⟩ := exists_parts t
  have hwithin := x.within_places
  refine ⟨x.places, hplaces, hwithin, fun capacity => ?_⟩
  intro d
  have hd : d = x.places.declarator capacity x.text := hread capacity
  have hname : d.name = x.name := by rw [hd, x.declarator_places]
  have hstart : d.start = x.places.nameStart := by rw [hd]; rfl
  have hstop : d.stop = x.places.nameStop := by
    rw [stop, hname, hstart]
    simp [Parts.places, Nat.add_assoc]
  have hphrase : d.phrase = (wholePhrase x.text).take capacity.toNat := by
    rw [show d = read capacity x.text from rfl, read_eq]
  refine ⟨hd, hstart, hstop, Nat.le_add_right _ _, ?_, ?_, ?_, ?_, fun k => ?_, hphrase, fun hk => ?_,
    fun ts => ?_⟩
  · exact hstop.trans_le (hwithin.nameStop_le.trans hwithin.last_le)
  · rw [hstart, hstop, hd]
    rfl
  · rw [hname]
    exact x.name_word
  · rw [hstart]
    exact x.not_isWord_before_name
  · rw [show d = read capacity x.text from rfl, read_eq k, read_eq capacity]
  · rw [hphrase, List.take_of_length_le (by omega)]
  · rw [CappedText.text_foldl_append]
    rfl

end Declarator

end DocBlock
