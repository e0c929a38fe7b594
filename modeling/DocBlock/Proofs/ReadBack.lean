import Mathlib
import DocBlock.Proofs.Block

/-! What a block says is read back from it: once the lines are dropped that would be generated again,
the description is left. This takes tags of one line each, and a description that does not look like
the frame of the comment. -/

namespace DocBlock

theorem cutAt_eq_splitOnP {α : Type} (p : α → Bool) (l : List α) : cutAt p l = l.splitOnP p := by
  unfold cutAt
  induction l with
  | nil => rfl
  | cons a l ih =>
    rw [List.foldr_cons, ih, List.splitOnP_cons_eq_if_modifyHead]
    split
    · rfl
    · cases h : l.splitOnP p with
      | nil => exact absurd h (List.splitOnP_ne_nil p l)
      | cons part rest => rfl

theorem subset_of_mem_cutAt {α : Type} {p : α → Bool} {l part : List α} (h : part ∈ cutAt p l) :
    part ⊆ l := by
  rw [cutAt_eq_splitOnP] at h
  induction l generalizing part with
  | nil =>
    obtain rfl : part = [] := by simpa using h
    simp
  | cons a l ih =>
    cases hparts : l.splitOnP p with
    | nil => exact absurd hparts (List.splitOnP_ne_nil p l)
    | cons first rest =>
      rw [hparts] at ih
      rw [List.splitOnP_cons_eq_if_modifyHead, hparts] at h
      split at h
      · rcases List.mem_cons.mp h with rfl | h
        · simp
        · exact List.subset_cons_of_subset a (ih h)
      · rw [List.modifyHead_cons] at h
        rcases List.mem_cons.mp h with rfl | h
        · exact List.cons_subset_cons a (ih List.mem_cons_self)
        · exact List.subset_cons_of_subset a (ih (List.mem_cons_of_mem first h))

namespace Text

variable {p : Sym → Bool} {a b t : Text} {c : Sym}

/-! Leaving off what is at either end. -/

theorem trimRight_append_of_forall (hb : ∀ c ∈ b, p c = true) :
    trimRight p (a ++ b) = trimRight p a := by
  rw [trimRight, List.reverse_append, List.dropWhile_append_of_pos (by simpa using hb)]
  rfl

theorem trimRight_append_of_exists (hb : ∃ c ∈ b, p c = false) :
    trimRight p (a ++ b) = a ++ trimRight p b := by
  have hne : ¬ (b.reverse.dropWhile p).isEmpty = true := by
    rw [List.isEmpty_iff, List.dropWhile_eq_nil_iff]
    intro hall
    obtain ⟨c, hc, hp⟩ := hb
    rw [hall c (List.mem_reverse.mpr hc)] at hp
    contradiction
  rw [trimRight, List.reverse_append, List.dropWhile_append, if_neg hne, List.reverse_append,
    List.reverse_reverse]
  rfl

theorem trimRight_eq_self (h : ∀ c ∈ t.getLast?, p c = false) : trimRight p t = t := by
  rw [trimRight]
  cases ht : t.reverse with
  | nil => simp_all
  | cons c r =>
    have hc : p c = false := h c (by simp [List.getLast?_eq_head?_reverse, ht])
    rw [List.dropWhile_cons_of_neg (by simp [hc]), ← ht, List.reverse_reverse]

theorem exists_trimRight (h : ∃ c ∈ t, p c = false) : ∃ u c, trimRight p t = u ++ [c] ∧ p c = false := by
  obtain ⟨d, hd, hp⟩ := h
  cases ht : t.reverse.dropWhile p with
  | nil =>
    rw [List.dropWhile_eq_nil_iff] at ht
    rw [ht d (List.mem_reverse.mpr hd)] at hp
    contradiction
  | cons c r =>
    refine ⟨r.reverse, c, ?_, ?_⟩
    · rw [trimRight, ht, List.reverse_cons]
    · have hhead := List.head_dropWhile_not p (by simp [ht] : t.reverse.dropWhile p ≠ [])
      simpa [ht] using hhead

theorem trimRight_append_takeWhile (p : Sym → Bool) (t : Text) :
    t.trimRight p ++ (t.reverse.takeWhile p).reverse = t := by
  rw [trimRight, ← List.reverse_append, List.takeWhile_append_dropWhile, List.reverse_reverse]

theorem exists_trimRight_append (p : Sym → Bool) (t : Text) :
    ∃ tail, t = t.trimRight p ++ tail ∧ ∀ c ∈ tail, p c = true :=
  ⟨_, (trimRight_append_takeWhile p t).symm, fun _ hc => List.mem_takeWhile_imp (List.mem_reverse.mp hc)⟩

theorem head?_dropWhile (p : Sym → Bool) (t : Text) : ∀ c ∈ (t.dropWhile p).head?, p c = false := by
  intro c hc
  simpa [Option.mem_def.mp hc] using List.head?_dropWhile_not p t

theorem getLast?_trimRight (p : Sym → Bool) (t : Text) : ∀ c ∈ (t.trimRight p).getLast?, p c = false := by
  rw [trimRight, List.getLast?_reverse]
  exact head?_dropWhile p t.reverse

/-- Where nothing is left off in front, only the end is trimmed. -/
theorem trim_eq_trimRight (h : ∀ c ∈ t.head?, p c = false) : trim p t = trimRight p t := by
  rw [trim]
  cases t with
  | nil => rfl
  | cons c t => rw [List.dropWhile_cons_of_neg (by simpa using h c rfl)]

theorem trim_append (ha : ∀ c ∈ a, p c = true) (hb : ∀ c ∈ b, p c = true) :
    trim p (a ++ t ++ b) = trim p t := by
  rw [trim, List.append_assoc, List.dropWhile_append_of_pos ha, List.dropWhile_append]
  split
  · next h =>
    rw [List.dropWhile_eq_nil_iff.mpr hb, trim, List.isEmpty_iff.mp h]
  · exact trimRight_append_of_forall hb

theorem trim_eq_self (h₁ : ∀ c ∈ t.head?, p c = false) (h₂ : ∀ c ∈ t.getLast?, p c = false) :
    trim p t = t := by
  rw [trim_eq_trimRight h₁, trimRight_eq_self h₂]

theorem exists_trim (p : Sym → Bool) (t : Text) :
    ∃ a b, t = a ++ trim p t ++ b ∧ (∀ c ∈ a, p c = true) ∧ ∀ c ∈ b, p c = true := by
  set u := t.dropWhile p with hu
  refine ⟨t.takeWhile p, (u.reverse.takeWhile p).reverse, ?_, fun c hc => List.mem_takeWhile_imp hc,
    fun c hc => List.mem_takeWhile_imp (List.mem_reverse.mp hc)⟩
  have hr : trim p t ++ (u.reverse.takeWhile p).reverse = u := by
    rw [trim, trimRight, ← hu, ← List.reverse_append, List.takeWhile_append_dropWhile,
      List.reverse_reverse]
  rw [List.append_assoc, hr, List.takeWhile_append_dropWhile]

theorem trim_trim (p : Sym → Bool) (t : Text) : trim p (trim p t) = trim p t := by
  obtain ⟨a, b, ht, ha, hb⟩ := exists_trim p t
  have := trim_append (t := trim p t) ha hb
  rw [← this]
  exact congrArg (trim p) ht.symm

theorem head?_trim (p : Sym → Bool) (t : Text) : ∀ c ∈ (trim p t).head?, p c = false := by
  intro c hc
  by_contra hp
  obtain ⟨u, hu⟩ := List.head?_eq_some_iff.mp hc
  -- Trimmed once more, the text would lose its first symbol.
  have hshort : trim p (c :: u) = trim p u := by
    have := trim_append (p := p) (a := [c]) (b := []) (t := u) (by simpa using hp) (by simp)
    simpa using this
  obtain ⟨a, b, he, -, -⟩ := exists_trim p u
  have hlength := congrArg List.length he
  have hsame := congrArg List.length (trim_trim p t)
  rw [hu, hshort] at hsame
  simp only [List.length_append, List.length_cons] at hlength hsame
  omega

theorem getLast?_trim (p : Sym → Bool) (t : Text) : ∀ c ∈ (trim p t).getLast?, p c = false :=
  getLast?_trimRight p _

theorem strip_infix (t : Text) : t.strip <:+: t := by
  obtain ⟨a, b, ht, -, -⟩ := exists_trim Sym.isBlank t
  exact ⟨a, b, ht.symm⟩

theorem trim_ne_nil (h : ∃ c ∈ t, p c = false) : trim p t ≠ [] := by
  intro he
  obtain ⟨a, b, ht, ha, hb⟩ := exists_trim p t
  obtain ⟨c, hc, hn⟩ := h
  rw [ht, he, List.append_nil, List.mem_append] at hc
  rcases hc with hc | hc
  · rw [ha c hc] at hn
    contradiction
  · rw [hb c hc] at hn
    contradiction

theorem strip_cons (hc : c.isBlank = true) (t : Text) : strip (c :: t) = strip t := by
  simpa [strip] using trim_append (p := Sym.isBlank) (a := [c]) (b := []) (t := t) (by simpa using hc)
    (by simp)

theorem strip_concat (hc : c.isBlank = true) (t : Text) : strip (t ++ [c]) = strip t := by
  simpa [strip] using trim_append (p := Sym.isBlank) (a := []) (b := [c]) (t := t) (by simp)
    (by simpa using hc)

/-! Lines. -/

theorem lines_eq_splitOn (t : Text) : t.lines = t.splitOn (.char '\n') := by
  rw [lines, cutAt_eq_splitOnP]
  rfl

theorem joinLines_lines (t : Text) : joinLines t.lines = t := by
  rw [lines_eq_splitOn]
  exact List.intercalate_splitOn _

theorem lines_append (a b : Text) : lines (a ++ Sym.char '\n' :: b) = lines a ++ lines b := by
  simp only [lines, cutAt_eq_splitOnP]
  exact List.splitOnP_append_cons a b (by simp)

theorem lines_of_notMem (h : .char '\n' ∉ t) : lines t = [t] := by
  rw [lines, cutAt_eq_splitOnP]
  refine List.splitOnP_eq_singleton fun c hc => ?_
  simp only [decide_eq_false_iff_not]
  rintro rfl
  exact h hc

theorem lines_cons (hc : c ≠ .char '\n') (t : Text) :
    ∃ l ls, lines t = l :: ls ∧ lines (c :: t) = (c :: l) :: ls := by
  simp only [lines, cutAt_eq_splitOnP, List.splitOnP_cons_eq_if_modifyHead, hc, decide_false,
    Bool.false_eq_true, if_false]
  cases h : t.splitOnP (· = .char '\n') with
  | nil => exact absurd h (List.splitOnP_ne_nil _ t)
  | cons l ls => exact ⟨l, ls, rfl, rfl⟩

theorem lines_concat (t : Text) :
    ∃ ls l, lines t = ls ++ [l] ∧ ∀ c, c ≠ .char '\n' → lines (t ++ [c]) = ls ++ [l ++ [c]] := by
  induction t with
  | nil => exact ⟨[], [], rfl, fun c hc => lines_of_notMem (by simpa using hc.symm)⟩
  | cons d t ih =>
    obtain ⟨ls, l, ht, hls⟩ := ih
    by_cases hd : d = .char '\n'
    · have hcons (x : Text) : lines (d :: x) = [] :: lines x := by
        rw [hd]
        exact lines_append [] x
      refine ⟨[] :: ls, l, by rw [hcons, ht]; rfl, fun c hc => ?_⟩
      rw [List.cons_append, hcons, hls c hc]
      rfl
    · obtain ⟨m, ms, hm, hms⟩ := lines_cons hd t
      cases ls with
      | nil =>
        obtain ⟨rfl, rfl⟩ : m = l ∧ ms = [] := by simpa [hm] using ht
        refine ⟨[], d :: m, hms, fun c hc => ?_⟩
        obtain ⟨k, ks, hk, hks⟩ := lines_cons hd (t ++ [c])
        obtain ⟨rfl, rfl⟩ : k = m ++ [c] ∧ ks = [] := by simpa [hk] using hls c hc
        exact hks
      | cons x ls =>
        obtain ⟨rfl, rfl⟩ : m = x ∧ ms = ls ++ [l] := by simpa [hm] using ht
        refine ⟨(d :: m) :: ls, l, hms, fun c hc => ?_⟩
        obtain ⟨k, ks, hk, hks⟩ := lines_cons hd (t ++ [c])
        obtain ⟨rfl, rfl⟩ : k = m ∧ ks = ls ++ [l ++ [c]] := by simpa [hk] using hls c hc
        exact hks

theorem notMem_of_mem_lines {l : Text} (h : l ∈ t.lines) : .char '\n' ∉ l := by
  induction t generalizing l with
  | nil => simp_all [lines, cutAt]
  | cons d t ih =>
    by_cases hd : d = .char '\n'
    · have hcons : lines (d :: t) = [] :: lines t := by
        rw [hd]
        exact lines_append [] t
      rw [hcons] at h
      rcases List.mem_cons.mp h with rfl | h
      · simp
      · exact ih h
    · obtain ⟨m, ms, hm, hms⟩ := lines_cons hd t
      rw [hms] at h
      rcases List.mem_cons.mp h with rfl | h
      · simpa [Ne.symm hd] using ih (l := m) (by simp [hm])
      · exact ih (by simp [hm, h])

theorem lines_joinLines {ls : List Text} (h : ∀ l ∈ ls, .char '\n' ∉ l) (hne : ls ≠ []) :
    lines (joinLines ls) = ls := by
  rw [lines_eq_splitOn]
  exact List.splitOn_intercalate _ h hne

theorem joinLines_concat (ls : List Text) (l : Text) :
    joinLines (ls ++ [l]) = ls.flatMap (· ++ [Sym.char '\n']) ++ l := by
  induction ls with
  | nil => simp [joinLines]
  | cons m ls ih =>
    have hj : joinLines (m :: (ls ++ [l])) = m ++ Sym.char '\n' :: joinLines (ls ++ [l]) := by
      rw [joinLines, List.intercalate_cons_of_ne_nil (by simp)]
      simp [joinLines]
    rw [List.cons_append, hj, ih]
    simp

theorem joinLines_cons_cons (l m : Text) (ls : List Text) :
    joinLines (l :: m :: ls) = l ++ Sym.char '\n' :: joinLines (m :: ls) := by
  simp [joinLines, List.intercalate_cons_cons]

end Text

/-! Dropping the lines that will be generated again. -/

section Generated

variable {gen : List Text} {t l : Text} {c : Sym}

/-- The line will not be generated. -/
def IsKept (gen : List Text) (l : Text) : Bool := !(gen.map Text.strip).contains l.strip

theorem withoutGenerated_eq (t : Text) (gen : List Text) :
    withoutGenerated t gen = (Text.joinLines (t.lines.filter (IsKept gen))).strip := rfl

theorem isKept_congr {l l' : Text} (h : l.strip = l'.strip) : IsKept gen l = IsKept gen l' := by
  rw [IsKept, IsKept, h]

theorem isKept_eq_false (h : ∃ g ∈ gen, g.strip = l.strip) : IsKept gen l = false := by
  simpa [IsKept] using h

theorem withoutGenerated_congr {t' : Text}
    (h : t'.lines.filter (IsKept gen) = t.lines.filter (IsKept gen)) :
    withoutGenerated t' gen = withoutGenerated t gen := by
  rw [withoutGenerated_eq, withoutGenerated_eq, h]

theorem withoutGenerated_newline_cons (t : Text) :
    withoutGenerated (.char '\n' :: t) gen = withoutGenerated t gen := by
  have hn : (Sym.char '\n').isBlank = true := by decide
  have hl : Text.lines (.char '\n' :: t) = [] :: t.lines := Text.lines_append [] t
  rw [withoutGenerated_eq, withoutGenerated_eq, hl, List.filter_cons]
  split
  · cases t.lines.filter (IsKept gen) with
    | nil => rfl
    | cons m ms => rw [Text.joinLines_cons_cons, List.nil_append, Text.strip_cons hn]
  · rfl

/-- Blanks before the description do not matter. -/
theorem withoutGenerated_blank_cons (hc : c.isBlank = true) (t : Text) :
    withoutGenerated (c :: t) gen = withoutGenerated t gen := by
  by_cases hn : c = .char '\n'
  · rw [hn, withoutGenerated_newline_cons]
  · obtain ⟨m, ms, hm, hms⟩ := Text.lines_cons hn t
    rw [withoutGenerated_eq, withoutGenerated_eq, hm, hms, List.filter_cons, List.filter_cons,
      isKept_congr (Text.strip_cons hc m)]
    split
    · cases ms.filter (IsKept gen) with
      | nil => simpa [Text.joinLines] using Text.strip_cons hc m
      | cons x xs =>
        rw [Text.joinLines_cons_cons, Text.joinLines_cons_cons, List.cons_append, Text.strip_cons hc]
    · rfl

/-- Blanks behind the description do not matter. -/
theorem withoutGenerated_blank_concat (hc : c.isBlank = true) (t : Text) :
    withoutGenerated (t ++ [c]) gen = withoutGenerated t gen := by
  obtain ⟨ls, l, hl, hls⟩ := Text.lines_concat t
  rw [withoutGenerated_eq, withoutGenerated_eq]
  by_cases hn : c = .char '\n'
  · have ha : Text.lines (t ++ [c]) = t.lines ++ [[]] := by
      rw [hn]
      exact Text.lines_append t []
    rw [ha, List.filter_append, List.filter_cons, List.filter_nil]
    rcases List.eq_nil_or_concat' (t.lines.filter (IsKept gen)) with he | ⟨ms, m, he⟩
    · rw [he]
      split <;> rfl
    · rw [he]
      split
      · rw [Text.joinLines_concat, List.append_nil, List.flatMap_append, List.flatMap_singleton,
          ← List.append_assoc, Text.strip_concat (by decide), Text.joinLines_concat]
      · rw [List.append_nil]
  · simp only [hls c hn, hl, List.filter_append, List.filter_cons, List.filter_nil,
      isKept_congr (Text.strip_concat hc l)]
    split
    · rw [Text.joinLines_concat, Text.joinLines_concat, ← List.append_assoc, Text.strip_concat hc]
    · rfl

theorem withoutGenerated_blanks_append {a : Text} (ha : ∀ c ∈ a, c.isBlank = true) (t : Text) :
    withoutGenerated (a ++ t) gen = withoutGenerated t gen := by
  induction a with
  | nil => rfl
  | cons c a ih =>
    rw [List.forall_mem_cons] at ha
    rw [List.cons_append, withoutGenerated_blank_cons ha.1, ih ha.2]

theorem withoutGenerated_append_blanks {b : Text} (hb : ∀ c ∈ b, c.isBlank = true) (t : Text) :
    withoutGenerated (t ++ b) gen = withoutGenerated t gen := by
  induction b generalizing t with
  | nil => rw [List.append_nil]
  | cons c b ih =>
    rw [List.forall_mem_cons] at hb
    rw [← List.singleton_append, ← List.append_assoc, ih hb.2, withoutGenerated_blank_concat hb.1]

theorem withoutGenerated_strip (t : Text) :
    withoutGenerated t.strip gen = withoutGenerated t gen := by
  obtain ⟨a, b, ht, ha, hb⟩ := Text.exists_trim Sym.isBlank t
  conv_rhs => rw [ht, withoutGenerated_append_blanks hb, withoutGenerated_blanks_append ha]
  rfl

/-- What is left holds no more lines to be dropped. -/
theorem withoutGenerated_idem (t : Text) :
    withoutGenerated (withoutGenerated t gen) gen = withoutGenerated t gen := by
  set ls := t.lines.filter (IsKept gen) with hls
  have hw : withoutGenerated t gen = (Text.joinLines ls).strip := rfl
  rw [hw, withoutGenerated_strip]
  by_cases hne : ls = []
  · rw [hne, withoutGenerated_eq]
    have hl : Text.lines (Text.joinLines []) = [[]] := rfl
    rw [hl, List.filter_cons, List.filter_nil]
    split <;> rfl
  · have hl : (Text.joinLines ls).lines = ls :=
      Text.lines_joinLines (fun l hl => Text.notMem_of_mem_lines (List.mem_of_mem_filter hl)) hne
    rw [withoutGenerated_eq, hl, hls, List.filter_filter]
    simp

/-- A generated line in front is dropped. -/
theorem withoutGenerated_line_append (hl : l ∈ gen) (hn : .char '\n' ∉ l) (t : Text) :
    withoutGenerated (l ++ Sym.char '\n' :: t) gen = withoutGenerated t gen := by
  refine withoutGenerated_congr ?_
  rw [Text.lines_append, Text.lines_of_notMem hn, List.filter_append, List.filter_cons,
    List.filter_nil, isKept_eq_false ⟨l, hl, rfl⟩]
  rfl

/-- A generated line at the end is dropped. -/
theorem withoutGenerated_append_line (hl : l ∈ gen) (hn : .char '\n' ∉ l) (t : Text) :
    withoutGenerated (t ++ Sym.char '\n' :: .char '\t' :: l) gen = withoutGenerated t gen := by
  refine withoutGenerated_congr ?_
  rw [Text.lines_append, Text.lines_of_notMem (t := .char '\t' :: l) (by simpa using hn),
    List.filter_append, List.filter_cons, List.filter_nil,
    isKept_eq_false ⟨l, hl, (Text.strip_cons (by decide) l).symm⟩, if_neg (by simp), List.append_nil]

theorem withoutGenerated_append_indented {tags : List Tag} (ht : ∀ x ∈ tags, x.line ∈ gen)
    (hn : ∀ x ∈ tags, .char '\n' ∉ x.line) (t : Text) :
    withoutGenerated (t ++ Tag.indented tags) gen = withoutGenerated t gen := by
  induction tags generalizing t with
  | nil => rw [Tag.indented, List.flatMap_nil, List.append_nil]
  | cons x tags ih =>
    rw [List.forall_mem_cons] at ht hn
    have he : t ++ Tag.indented (x :: tags) =
        (t ++ Sym.char '\n' :: .char '\t' :: x.line) ++ Tag.indented tags := by
      simp [Tag.indented]
    rw [he, ih ht.2 hn.2, withoutGenerated_append_line ht.1 hn.1]

theorem withoutGenerated_append_group {tags : List Tag} (ht : ∀ x ∈ tags, x.line ∈ gen)
    (hn : ∀ x ∈ tags, .char '\n' ∉ x.line) (t : Text) :
    withoutGenerated (t ++ Tags.group tags) gen = withoutGenerated t gen := by
  unfold Tags.group
  split
  · rw [List.append_nil]
  · rw [← List.append_assoc, withoutGenerated_append_blanks (by decide),
      withoutGenerated_append_indented ht hn]

end Generated

theorem Tag.head?_line (x : Tag) : x.line.head? = some (.char '@') := by
  cases x <;> rfl

namespace FunctionBlock

/-- Each tag is one line, and the description does not start like the frame of a comment. -/
def Legible (b : FunctionBlock) : Prop :=
  (∀ x ∈ b.tags.all, .char '\n' ∉ x.line) ∧
    (b.tags.isStatic = true ∨ ∀ c ∈ b.description.head?, c.isFrame = false)
  deriving Decidable

theorem withoutGenerated_placeholder (tags : List Tag) :
    withoutGenerated placeholder (tags.map Tag.line) = placeholder := by
  have hkept : ∀ l ∈ placeholder.lines, IsKept (tags.map Tag.line) l = true := by
    have hhead : ∀ l ∈ placeholder.lines, l.strip.head? ≠ some (.char '@') := by decide +kernel
    intro l hl
    by_contra hk
    obtain ⟨x, -, hx⟩ : ∃ x ∈ tags, x.line.strip = l.strip := by
      simpa [IsKept] using hk
    obtain ⟨rest, hr⟩ := List.head?_eq_some_iff.mp x.head?_line
    refine hhead l hl ?_
    have hs : x.line.strip.head? = some (.char '@') := by
      rw [hr, Text.strip, Text.trim, List.dropWhile_cons_of_neg (by decide), Text.trimRight,
        List.reverse_cons, List.head?_reverse]
      obtain ⟨s, hs⟩ := List.dropWhile_suffix Sym.isBlank (l := rest.reverse ++ [Sym.char '@'])
      have hne : (rest.reverse ++ [Sym.char '@']).dropWhile Sym.isBlank ≠ [] := by
        rw [ne_eq, List.dropWhile_eq_nil_iff]
        exact fun h => absurd (h (.char '@') (by simp)) (by decide)
      rw [← List.getLast?_append_of_ne_nil s hne, hs]
      simp
    rw [← hx, hs]
  rw [withoutGenerated_eq, List.filter_eq_self.mpr hkept, Text.joinLines_lines]
  decide +kernel

variable {o : Options} {p : Pending}

theorem description_ne_nil (b : FunctionBlock) : b.description ≠ [] := by
  unfold description
  cases h : b.existing.filter (!·.isEmpty) with
  | none => decide +kernel
  | some d => simpa using Option.filter_eq_some_iff.mp h |>.2

/-- The tags are those of a function, with the reminder last, and no line of the description will be
generated. -/
structure Genuine (b : FunctionBlock) : Prop where
  reminder : ∃ others, b.tags.remarks = others ++ [Tag.reminder]
  description : withoutGenerated b.description (b.tags.all.map Tag.line) = b.description

theorem genuine_block : (p.block o).Genuine := by
  refine ⟨⟨_, rfl⟩, ?_⟩
  generalize hb : p.block o = b
  cases h : b.existing.filter (!·.isEmpty) with
  | none =>
    have hd : b.description = placeholder := by rw [description, h]; rfl
    rw [hd, withoutGenerated_placeholder]
  | some d =>
    have hd : b.description = d := by rw [description, h]; rfl
    have he : b.existing = some d := Option.eq_some_of_filter_eq_some h
    obtain ⟨x, hx⟩ : ∃ x, d = withoutGenerated x (b.tags.all.map Tag.line) := by
      rw [← hb, Pending.block, ofPending] at he
      simp only [Option.ite_none_right_eq_some, Option.some.injEq] at he
      rw [← hb]
      exact ⟨_, he.2.symm⟩
    rw [hd, hx, withoutGenerated_idem]

/-- The block without its frame. -/
def core (b : FunctionBlock) : Text :=
  (if b.tags.isStatic then Text.ofString "@internal\n\n\t" else []) ++ b.description ++
    Text.ofString "\n" ++ b.tags.render

theorem comment_eq_core (b : FunctionBlock) :
    b.comment = Text.ofString "/**\n\t" ++ b.core ++ Text.ofString "\n*/" := by
  have h₁ : Text.ofString "/**\n\t" = Text.ofString "/**\n" ++ Text.ofString "\t" := by decide
  have h₂ : Text.ofString "\t@internal\n\n" ++ Text.ofString "\t" =
      Text.ofString "\t" ++ Text.ofString "@internal\n\n\t" := by decide +kernel
  unfold comment core
  split
  · simp only [h₁, List.append_assoc]
    rw [← List.append_assoc (Text.ofString "\t@internal\n\n"), h₂]
    simp only [List.append_assoc]
  · simp [h₁]

variable {b : FunctionBlock}

theorem getLast?_core (h : b.Genuine) : b.core.getLast? = some (.char ')') := by
  obtain ⟨others, ho⟩ := h.reminder
  have hr : b.tags.render = Tags.group b.tags.params ++ Tags.group b.tags.results ++
      Tag.indented others ++ .char '\n' :: .char '\t' :: Tag.reminder.line := by
    simp [Tags.render, ho, Tag.indented]
  rw [core, hr, ← List.append_assoc, List.getLast?_append]
  rfl

theorem commentBody_comment (h : b.Genuine) (hl : b.Legible) : b.comment.commentBody = b.core := by
  rw [comment_eq_core, Text.commentBody, Text.trim_append (by decide) (by decide)]
  refine Text.trim_eq_self ?_ ?_
  · unfold core
    split
    · intro c hc
      obtain rfl : c = .char '@' := by simpa [Text.ofString] using hc.symm
      decide
    · next hs =>
      obtain ⟨d, rest, hd⟩ := List.exists_cons_of_ne_nil b.description_ne_nil
      intro c hc
      refine hl.2.resolve_left hs c ?_
      simpa [hd] using hc
  · rw [getLast?_core h]
    rintro c ⟨⟩
    decide

/-- The description is read back from the block. -/
theorem withoutGenerated_comment (h : b.Genuine) (hl : b.Legible) :
    withoutGenerated b.comment.commentBody (b.tags.all.map Tag.line) = b.description := by
  rw [commentBody_comment h hl]
  obtain ⟨hlines, -⟩ := hl
  have hdesc := h.description
  set gen := b.tags.all.map Tag.line with hgen
  have hmem : ∀ x ∈ b.tags.all, x.line ∈ gen := fun x hx => List.mem_map_of_mem hx
  have hpart (tags : List Tag) (ht : ∀ x ∈ tags, x ∈ b.tags.all) :
      (∀ x ∈ tags, x.line ∈ gen) ∧ ∀ x ∈ tags, .char '\n' ∉ x.line :=
    ⟨fun x hx => hmem x (ht x hx), fun x hx => hlines x (ht x hx)⟩
  obtain ⟨hp, hp'⟩ := hpart b.tags.params fun x hx => by simp [Tags.all, hx]
  obtain ⟨hr, hr'⟩ := hpart b.tags.results fun x hx => by simp [Tags.all, hx]
  obtain ⟨hm, hm'⟩ := hpart b.tags.remarks fun x hx => by simp [Tags.all, hx]
  -- The tags are dropped from the end, group by group.
  have hrender (t : Text) : withoutGenerated (t ++ b.tags.render) gen = withoutGenerated t gen := by
    rw [Tags.render, ← List.append_assoc, ← List.append_assoc, withoutGenerated_append_indented hm hm',
      withoutGenerated_append_group hr hr', withoutGenerated_append_group hp hp']
  rw [core, hrender, withoutGenerated_append_blanks (by decide)]
  split
  · next hs =>
    have hi : Tag.internal ∈ b.tags.all := by simp [Tags.all, hs]
    have he : Text.ofString "@internal\n\n\t" ++ b.description =
        Tag.internal.line ++ Sym.char '\n' :: (Text.ofString "\n\t" ++ b.description) := by
      simp [Tag.line, Text.ofString]
    rw [he, withoutGenerated_line_append (hmem _ hi) (hlines _ hi),
      withoutGenerated_blanks_append (by decide), hdesc]
  · exact hdesc

/-- A pending text with a block as its description and with the tags of the block is documented by the
same block. -/
theorem comment_block_eq {q : Pending} (h : b.Genuine) (hl : b.Legible) (ht : (q.block o).tags = b.tags)
    (hd : q.description.isClosed = true) (he : q.extentText q.description = b.comment) :
    (q.block o).comment = b.comment := by
  have hex : (q.block o).existing = some b.description := by
    have hq : (q.block o).existing = some (withoutGenerated (q.extentText q.description).commentBody
        ((q.block o).tags.all.map Tag.line)) := if_pos hd
    rw [hq, he, ht, withoutGenerated_comment h hl]
  have hdesc : (q.block o).description = b.description := by
    rw [description, hex, Option.filter_some, if_pos (by simpa using b.description_ne_nil)]
    rfl
  rw [comment, comment, ht, hdesc]

/-- A block that replaces a comment by the given description. -/
def describing (tags : Tags) (d : Text) : FunctionBlock := { tags, existing := some d, atStart := false }

theorem description_describing (tags : Tags) {d : Text} (h : d ≠ []) :
    (describing tags d).description = d := by
  rw [description, describing, Option.filter_some, if_pos (by simpa using h)]
  rfl

end FunctionBlock

theorem head?_withoutGenerated (t : Text) (gen : List Text) :
    ∀ c ∈ (withoutGenerated t gen).head?, c.isBlank = false :=
  Text.head?_trim Sym.isBlank _

/-- The description of a function is read back from its block if every tag is one line and the description
does not start like the frame of a comment: for the placeholder and for whatever is left of any comment. So
the function is documented by the same block again once the block is its comment. -/
theorem description_read_back (o : Options) (p : Pending) (d : Text)
    (hlines : ∀ x ∈ (p.block o).tags.all, .char '\n' ∉ x.line)
    (hd : d = FunctionBlock.placeholder ∨ d ≠ [] ∧ ∃ c : Text,
      d = withoutGenerated c.commentBody ((p.block o).tags.all.map Tag.line))
    (hstart : (p.block o).tags.isStatic = true ∨ ∀ c ∈ d.head?, c ≠ .char '/' ∧ c ≠ .char '*') :
    let comment := (FunctionBlock.describing (p.block o).tags d).comment
    withoutGenerated comment.commentBody ((p.block o).tags.all.map Tag.line) = d ∧
      ∀ q : Pending, (q.block o).tags = (p.block o).tags → q.description.isClosed = true →
        q.extentText q.description = comment → (q.block o).render = comment := by
  intro comment
  have hne : d ≠ [] := by
    rcases hd with rfl | ⟨hne, -⟩
    · decide +kernel
    · exact hne
  have hdesc := FunctionBlock.description_describing (p.block o).tags hne
  have hblank : ∀ c ∈ d.head?, c.isBlank = false := by
    rcases hd with rfl | ⟨-, t, rfl⟩
    · decide +kernel
    · exact head?_withoutGenerated _ _
  have hgenuine : (FunctionBlock.describing (p.block o).tags d).Genuine := by
    refine ⟨FunctionBlock.genuine_block.reminder, ?_⟩
    rw [hdesc]
    rcases hd with rfl | ⟨-, t, rfl⟩
    · exact FunctionBlock.withoutGenerated_placeholder _
    · exact withoutGenerated_idem _
  have hlegible : (FunctionBlock.describing (p.block o).tags d).Legible := by
    refine ⟨hlines, hstart.imp_right fun h c hc => ?_⟩
    rw [hdesc] at hc
    simp [Sym.isFrame, hblank c hc, h c hc]
  refine ⟨(FunctionBlock.withoutGenerated_comment hgenuine hlegible).trans hdesc, fun q ht hc he => ?_⟩
  have hsome : (q.block o).existing.isSome = true := Pending.existing_block.1.trans hc
  rw [FunctionBlock.render, if_pos hsome]
  exact FunctionBlock.comment_block_eq hgenuine hlegible ht hc he

/-- A static function whose comment holds a tag that will be generated, and a path behind it. -/
theorem description_read_back_static :
    let s : Scanner := { fileStart := false, lineStart := false }
    let code := Text.ofString "static f()\x7b\x7d"
    let p := Passage.pending ⟨s, Text.ofString "/*@return\n/a*/" ++ code, none, []⟩
    let comment := (FunctionBlock.describing (p.block {}).tags (Text.ofString "/a")).comment
    let q := Passage.pending ⟨s, comment ++ code, none, []⟩
    (p.isFunction = true ∧ (p.block {}).description = Text.ofString "/a") ∧
      withoutGenerated comment.commentBody ((p.block {}).tags.all.map Tag.line) = Text.ofString "/a" ∧
      (q.block {}).render = comment := by
  intro s code p comment q
  obtain ⟨hread, hagain⟩ := description_read_back {} p (Text.ofString "/a") (by decide +kernel)
    (.inr ⟨by decide, Text.ofString "/*@return\n/a*/", by decide +kernel⟩) (.inl (by decide +kernel))
  obtain ⟨htags, hclosed, htext⟩ : (q.block {}).tags = (p.block {}).tags ∧
      q.description.isClosed = true ∧ q.extentText q.description = comment := by decide +kernel
  exact ⟨by decide +kernel, hread, hagain q htags hclosed htext⟩

end DocBlock
