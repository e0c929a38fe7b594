import Mathlib
import DocBlock.Proofs.Passage

/-! How a text falls into passages: a passage goes on as long as no flush is due and it is not full,
and the passages give back the text. -/

namespace DocBlock

open Scanner (Moment)

namespace Passage

/-- The state behind the passage. -/
def stop (g : Passage) : Scanner := g.start.runTo g.next g.text

/-- No flush falls within the passage, neither by a marker nor because it is full. -/
structure Unbroken (full : Nat → Bool) (g : Passage) : Prop where
  text_ne : g.text ≠ []
  flush : ∀ m ∈ g.moments.tail, .flush ∉ m.markers
  flushAfter : ∀ m ∈ g.moments.dropLast, .flushAfter ∉ m.markers
  early : ∀ l, 0 < l → l < g.text.length → full l = false

/-- The passage is flushed because of its own text. -/
def Full (full : Nat → Bool) (g : Passage) : Prop :=
  full g.text.length = true ∨ ∃ m ∈ g.moments, .flushAfter ∈ m.markers

variable {full : Nat → Bool} {g : Passage}

/-- A flush behind a passage comes with its last symbol. -/
theorem Unbroken.exists_flushAfter (h : g.Unbroken full)
    (hm : ∃ m ∈ g.moments, .flushAfter ∈ m.markers) :
    ∃ u c, g.text = u ++ [c] ∧ .flushAfter ∈ ((g.start.runTo (some c) u).step c g.next).2 := by
  obtain ⟨m, hm, hx⟩ := hm
  obtain ⟨u, c, ht⟩ := List.eq_nil_or_concat' g.text |>.resolve_left h.text_ne
  refine ⟨u, c, ht, ?_⟩
  have hmoments : g.moments =
      g.start.momentsTo (some c) u ++ [(g.start.runTo (some c) u).moment g.next c] := by
    rw [moments, ht, Scanner.momentsTo_concat]
  rw [hmoments] at hm
  rcases List.mem_append.mp hm with hm | hm
  · exact absurd hx (h.flushAfter m (by rwa [hmoments, List.dropLast_concat]))
  · rwa [List.mem_singleton.mp hm] at hx

/-- The passage may go on: no flush fell into it, and none is due behind it. -/
structure Growing (full : Nat → Bool) (g : Passage) : Prop where
  flush : ∀ m ∈ g.moments.tail, .flush ∉ m.markers
  flushAfter : ∀ m ∈ g.moments, .flushAfter ∉ m.markers
  room : ∀ l, 0 < l → l ≤ g.text.length → full l = false

namespace Growing

theorem nil (s : Scanner) (n : Option Sym) : Growing full ⟨s, [], n, []⟩ :=
  ⟨by simp [moments], by simp [moments], fun l h₀ h => absurd h (Nat.not_le.mpr h₀)⟩

theorem unbroken (h : g.Growing full) (hne : g.text ≠ []) : g.Unbroken full where
  text_ne := hne
  flush := h.flush
  flushAfter m hm := h.flushAfter m (List.mem_of_mem_dropLast hm)
  early l h₀ hl := h.room l h₀ hl.le

theorem not_full (h : g.Growing full) (hne : g.text ≠ []) : ¬ g.Full full := by
  rintro (hl | ⟨m, hm, hx⟩)
  · rw [h.room _ (List.length_pos_iff.mpr hne) le_rfl] at hl
    contradiction
  · exact h.flushAfter m hm hx

variable {s : Scanner} {t : Text} {c : Sym} {n : Option Sym}

/-- One more symbol, other than the first, joins the passage if no flush comes before it. -/
theorem unbroken_concat (h : Growing full ⟨s, t, some c, []⟩)
    (hf : .flush ∈ ((s.runTo (some c) t).step c n).2 → t = []) : Unbroken full ⟨s, t ++ [c], n, []⟩ := by
  have hmoments : moments ⟨s, t ++ [c], n, []⟩ =
      moments ⟨s, t, some c, []⟩ ++ [(s.runTo (some c) t).moment n c] := Scanner.momentsTo_concat t c
  refine ⟨by simp, fun m hm hflush => ?_, ?_, fun l h₀ hl => h.room l h₀ ?_⟩
  · rw [hmoments, List.tail_append] at hm
    split at hm
    · simp at hm
    · next hne =>
      rcases List.mem_append.mp hm with hm | hm
      · exact h.flush m hm hflush
      · rw [List.mem_singleton.mp hm] at hflush
        simp [moments, hf hflush] at hne
  · rw [hmoments, List.dropLast_concat]
    exact h.flushAfter
  · simp only [List.length_append, List.length_singleton] at hl
    exact Nat.lt_succ_iff.mp hl

/-- The passage is full with the symbol if its length or the symbol's own marker makes it so. -/
theorem full_concat_iff (h : Growing full ⟨s, t, some c, []⟩) :
    Full full ⟨s, t ++ [c], n, []⟩ ↔
      full (t ++ [c]).length = true ∨ .flushAfter ∈ ((s.runTo (some c) t).step c n).2 := by
  refine or_congr_right ?_
  rw [moments, Scanner.momentsTo_concat]
  simp only [List.mem_append, List.mem_singleton]
  constructor
  · rintro ⟨m, hm | rfl, hx⟩
    · exact absurd hx (h.flushAfter m hm)
    · exact hx
  · exact fun hx => ⟨_, .inr rfl, hx⟩

end Growing

/-- An unbroken passage that is not full may go on. -/
theorem Unbroken.growing (h : g.Unbroken full) (hn : ¬ g.Full full) : g.Growing full where
  flush := h.flush
  flushAfter m hm hx := hn (.inr ⟨m, hm, hx⟩)
  room l h₀ hl := by
    rcases hl.lt_or_eq with hl | rfl
    · exact h.early l h₀ hl
    · exact Bool.eq_false_iff.mpr fun hl => hn (.inl hl)

end Passage

/-- The text, read from the given state on, falls into the given passages. -/
inductive Divides (full : Nat → Bool) : Scanner → Text → List Passage → Prop
  | nil (s : Scanner) : Divides full s [] []
  | last {s : Scanner} {t : Text} (whole : Passage.Unbroken full ⟨s, t, none, []⟩)
      (room : ¬ Passage.Full full ⟨s, t, none, []⟩) : Divides full s t [⟨s, t, none, []⟩]
  | after {s : Scanner} {t rest : Text} {gs : List Passage}
      (whole : Passage.Unbroken full ⟨s, t, rest.head?, []⟩)
      (due : Passage.Full full ⟨s, t, rest.head?, []⟩)
      (others : Divides full (s.runTo rest.head? t) rest gs) :
      Divides full s (t ++ rest) (⟨s, t, rest.head?, []⟩ :: gs)
  | before {s : Scanner} {t rest : Text} {c : Sym} {gs : List Passage}
      (whole : Passage.Unbroken full ⟨s, t, some c, []⟩)
      (room : ¬ Passage.Full full ⟨s, t, some c, []⟩)
      (due : .flush ∈ ((s.runTo (some c) t).step c rest.head?).2)
      (others : Divides full (s.runTo (some c) t) (c :: rest) gs) :
      Divides full s (t ++ c :: rest)
        (⟨s, t, some c, ((s.runTo (some c) t).moment rest.head? c).closing⟩ :: gs)

/-- The passages found while reading are the ones that the text falls into. -/
theorem divides_passages_of_recent {full : Nat → Bool} (start : Scanner) (recent t : Text)
    (h : Passage.Growing full ⟨start, recent, t.head?, []⟩) :
    Divides full start (recent ++ t)
      (passages full start recent (start.runTo t.head? recent) t) := by
  induction t generalizing start recent with
  | nil =>
    by_cases hr : recent = []
    · simpa [hr, passages] using Divides.nil start
    · simpa [hr, passages] using Divides.last (h.unbroken hr) (h.not_full hr)
  | cons c rest ih =>
    have joins (start : Scanner) (recent : Text) (h : Passage.Growing full ⟨start, recent, some c, []⟩)
        (hf : .flush ∈ ((start.runTo (some c) recent).step c rest.head?).2 → recent = []) :
        Divides full start (recent ++ c :: rest)
          (passages full start recent (start.runTo (some c) recent) (c :: rest)) := by
      have hwhole := h.unbroken_concat hf
      rw [passages_of_joins fun hflush => ?_, List.append_cons]
      · split
        · next hends =>
          refine .after hwhole (h.full_concat_iff.mpr hends) ?_
          rw [Scanner.runTo_concat]
          exact ih _ [] (.nil _ _)
        · next hends =>
          rw [← Scanner.runTo_concat]
          exact ih start (recent ++ [c]) (hwhole.growing (h.full_concat_iff.not.mpr hends))
      · obtain rfl := hf hflush
        exact ⟨rfl, rfl⟩
    -- A flush before the symbol ends the passage, unless nothing was read since the last one.
    by_cases hf : .flush ∈ ((start.runTo (some c) recent).step c rest.head?).2 ∧ recent ≠ []
    · rw [List.head?_cons, passages_of_flush hf.1, if_neg hf.2]
      exact .before (h.unbroken hf.2) (h.not_full hf.2) hf.1 (joins _ [] (.nil _ _) fun _ => rfl)
    · exact joins start recent h fun hflush => not_not.mp fun hne => hf ⟨hflush, hne⟩

theorem divides_passages (full : Nat → Bool) (s : Scanner) (t : Text) :
    Divides full s t (passages full s [] s t) :=
  divides_passages_of_recent s [] t (.nil s t.head?)

namespace Divides

variable {full : Nat → Bool} {s : Scanner} {t : Text} {gs : List Passage}

/-- The passages hold every moment of the text once and in order. -/
theorem moments_eq (h : Divides full s t gs) : gs.flatMap Passage.moments = s.moments t := by
  induction h with
  | nil s => rfl
  | last => simp [Passage.moments, Scanner.momentsTo_none]
  | after whole due others ih => simp [ih, Scanner.moments_append, Passage.moments]
  | before whole room due others ih => simp [ih, Scanner.moments_append, Passage.moments]

end Divides

/-- The markers that the symbol behind a passage brings for it. -/
def closingBy (s : Scanner) : Text → List Marker
  | [] => []
  | c :: rest => (s.moment rest.head? c).closing

/-- The text, read from the given state on, starts with the passage, and `rest` follows it. -/
structure Passage.Heads (full : Nat → Bool) (s : Scanner) (t rest : Text) (g : Passage) : Prop where
  text : t = g.text ++ rest
  start : g.start = s
  next : g.next = rest.head?
  whole : g.Unbroken full
  ends : g.Full full ∨ rest = [] ∨ ∃ c r, rest = c :: r ∧ .flush ∈ (g.stop.step c r.head?).2
  closing_of_full : g.Full full → g.closing = []
  closing_of_room : ¬ g.Full full → g.closing = closingBy g.stop rest

namespace Passage.Heads

variable {full : Nat → Bool} {s : Scanner} {t rest rest' : Text} {g g' : Passage}

/-- A passage that has come to an end is not part of a longer one. -/
theorem length_le (h : g.Heads full s t rest) (h' : g'.Heads full s t rest') :
    g'.text.length ≤ g.text.length := by
  by_contra hlt
  rw [not_le] at hlt
  obtain ⟨c, v, hv⟩ : ∃ c v, g'.text = g.text ++ c :: v := by
    have hp : g.text <+: g'.text :=
      List.prefix_of_prefix_length_le ⟨rest, h.text.symm⟩ ⟨rest', h'.text.symm⟩ hlt.le
    obtain ⟨w, hw⟩ := hp
    cases w with
    | nil => simp [← hw] at hlt
    | cons c v => exact ⟨c, v, hw.symm⟩
  have hrest : rest = c :: (v ++ rest') := by
    have := h.text.symm.trans h'.text
    rw [hv, List.append_assoc] at this
    exact List.append_cancel_left this
  have hnext : g.next = some c := by rw [h.next, hrest]; rfl
  have hmoments : g'.moments = g.moments ++
      g.stop.moment (v.head?.or g'.next) c :: (g.stop.step c (v.head?.or g'.next)).1.momentsTo g'.next v := by
    rw [moments, hv, Scanner.momentsTo_append, h'.start, moments, stop, h.start, hnext]
    rfl
  rcases h.ends with (hl | ⟨m, hm, hx⟩) | hn | ⟨d, r, hd, hx⟩
  · have := h'.whole.early g.text.length (List.length_pos_iff.mpr h.whole.text_ne) hlt
    rw [this] at hl
    contradiction
  · refine h'.whole.flushAfter m ?_ hx
    rw [hmoments, List.dropLast_append_of_ne_nil (by simp)]
    exact List.mem_append_left _ hm
  · simp [hn] at hrest
  · obtain ⟨rfl, rfl⟩ : c = d ∧ v ++ rest' = r := by simpa [hrest] using hd
    have hne : g.moments ≠ [] := by
      rw [moments, ne_eq, Scanner.momentsTo_eq_nil]
      exact h.whole.text_ne
    refine h'.whole.flush (g.stop.moment (v.head?.or g'.next) c) ?_ ?_
    · rw [hmoments, List.tail_append_of_ne_nil hne]
      simp
    · rw [List.head?_append, ← h'.next] at hx
      exact hx

theorem unique (h : g.Heads full s t rest) (h' : g'.Heads full s t rest') :
    g = g' ∧ rest = rest' := by
  have hl := le_antisymm (h'.length_le h) (h.length_le h')
  obtain ⟨ht, hr⟩ := List.append_inj (h.text.symm.trans h'.text) hl
  obtain ⟨s₁, t₁, n₁, c₁⟩ := g
  obtain ⟨s₂, t₂, n₂, c₂⟩ := g'
  obtain rfl : s₁ = s := h.start
  obtain rfl : s₂ = s₁ := h'.start
  obtain rfl : n₁ = rest.head? := h.next
  obtain rfl : n₂ = rest'.head? := h'.next
  subst hr
  obtain rfl : t₁ = t₂ := ht
  by_cases hf : Full full ⟨s₂, t₁, rest.head?, c₁⟩
  · have h₁ := h.closing_of_full hf
    have h₂ := h'.closing_of_full hf
    exact ⟨by rw [Passage.mk.injEq]; exact ⟨rfl, rfl, rfl, h₁.trans h₂.symm⟩, rfl⟩
  · have h₁ := h.closing_of_room hf
    have h₂ := h'.closing_of_room hf
    exact ⟨by rw [Passage.mk.injEq]; exact ⟨rfl, rfl, rfl, h₁.trans h₂.symm⟩, rfl⟩

end Passage.Heads

theorem Scanner.moments_eq_nil {s : Scanner} {t : Text} : s.moments t = [] ↔ t = [] := by
  cases t <;> simp [moments]

namespace Divides

variable {full : Nat → Bool} {s : Scanner} {t : Text} {g : Passage} {gs gs' : List Passage}

theorem heads (h : Divides full s t (g :: gs)) :
    ∃ rest, g.Heads full s t rest ∧ Divides full g.stop rest gs := by
  cases h with
  | last whole room =>
    exact ⟨[], ⟨by simp, rfl, rfl, whole, .inr (.inl rfl), fun _ => rfl, fun _ => rfl⟩, .nil _⟩
  | @after s t rest gs whole due others =>
    exact ⟨rest, ⟨rfl, rfl, rfl, whole, .inl due, fun _ => rfl, fun hn => absurd due hn⟩, others⟩
  | @before s t rest c gs whole room due others =>
    exact ⟨c :: rest, ⟨rfl, rfl, rfl, ⟨whole.1, whole.2, whole.3, whole.4⟩,
      .inr (.inr ⟨c, rest, rfl, due⟩), fun hf => absurd hf room, fun _ => rfl⟩, others⟩

theorem eq_nil_iff (h : Divides full s t gs) : gs = [] ↔ t = [] := by
  cases gs with
  | nil =>
    have hm : [] = s.moments t := h.moments_eq
    simp [Scanner.moments_eq_nil.mp hm.symm]
  | cons g gs =>
    obtain ⟨rest, hg, -⟩ := h.heads
    simp [hg.text, hg.whole.text_ne]

theorem cons {rest : Text} (h : g.Heads full s t rest) (h' : Divides full g.stop rest gs) :
    Divides full s t (g :: gs) := by
  obtain ⟨start, text, next, closing⟩ := g
  obtain rfl : start = s := h.start
  obtain rfl : next = rest.head? := h.next
  rw [h.text]
  by_cases hf : Passage.Full full ⟨start, text, rest.head?, closing⟩
  · obtain rfl : closing = [] := h.closing_of_full hf
    exact .after h.whole hf h'
  · obtain rfl : closing = closingBy (start.runTo rest.head? text) rest := h.closing_of_room hf
    rcases h.ends with hf' | rfl | ⟨c, r, rfl, hd⟩
    · contradiction
    · obtain rfl := h'.eq_nil_iff.mpr rfl
      rw [List.append_nil]
      exact .last h.whole hf
    · exact .before ⟨h.whole.1, h.whole.2, h.whole.3, h.whole.4⟩ hf hd h'

/-- A text falls into passages in one way only. -/
theorem unique (h : Divides full s t gs) (h' : Divides full s t gs') : gs = gs' := by
  induction gs generalizing s t gs' with
  | nil => exact (h'.eq_nil_iff.mpr (h.eq_nil_iff.mp rfl)).symm
  | cons g gs ih =>
    obtain ⟨rest, hg, ho⟩ := h.heads
    cases gs' with
    | nil =>
      have := h.eq_nil_iff.mpr (h'.eq_nil_iff.mp rfl)
      contradiction
    | cons g' gs' =>
      obtain ⟨rest', hg', ho'⟩ := h'.heads
      obtain ⟨rfl, rfl⟩ := hg.unique hg'
      rw [ih ho ho']

theorem eq_passages (h : Divides full s t gs) : gs = passages full s [] s t :=
  h.unique (divides_passages full s t)

end Divides

/-- What holds of every passage of a text. -/
structure Passage.Sound (full : Nat → Bool) (g : Passage) : Prop extends Unbroken full g where
  valid : g.start.Valid
  closing : g.closing = [] ∨
    g.closing = [.descriptionEnd] ∧ g.stop.headerComment = true ∧ ¬ g.Full full

theorem Divides.sound {full : Nat → Bool} {s : Scanner} {t : Text} {gs : List Passage}
    (h : Divides full s t gs) (hs : s.Valid) : ∀ g ∈ gs, g.Sound full := by
  induction h with
  | nil s => simp
  | last whole room => simpa using ⟨whole, hs, .inl rfl⟩
  | after whole due others ih =>
    exact List.forall_mem_cons.mpr ⟨⟨whole, hs, .inl rfl⟩, ih (hs.runTo _)⟩
  | before whole room due others ih =>
    refine List.forall_mem_cons.mpr ⟨⟨⟨whole.1, whole.2, whole.3, whole.4⟩, hs, ?_⟩, ih (hs.runTo _)⟩
    rcases Scanner.closing_of_flush due with ⟨-, hc, -⟩ | ⟨-, hh, hc, -⟩
    · exact .inl hc
    · exact .inr ⟨hc, hh, room⟩

/-- What holds at the start of a passage and is kept by every symbol that no flush comes before, other
than the first, holds of the whole passage. -/
theorem Passage.Sound.induction {full : Nat → Bool} {g : Passage} (h : g.Sound full)
    {P : List Moment → Scanner → Prop} (start : P [] g.start)
    (step : ∀ ms s c n, s.Valid → (ms ≠ [] → .flush ∉ (s.step c n).2) →
      (∀ m ∈ ms, .flushAfter ∉ m.markers) → P ms s → P (ms ++ [s.moment n c]) (s.step c n).1) :
    P g.moments g.stop := by
  have key : ∀ t n, (∀ m ∈ (g.start.momentsTo n t).tail, .flush ∉ m.markers) →
      (∀ m ∈ (g.start.momentsTo n t).dropLast, .flushAfter ∉ m.markers) →
      P (g.start.momentsTo n t) (g.start.runTo n t) := by
    intro t
    induction t using List.reverseRecOn with
    | nil => exact fun _ _ _ => start
    | append_singleton t c ih =>
      intro n hf ha
      rw [Scanner.momentsTo_concat] at hf ha ⊢
      rw [Scanner.runTo_concat]
      rw [List.dropLast_concat] at ha
      rw [List.tail_append] at hf
      refine step _ _ _ _ (h.valid.runTo t) (fun hne => ?_) ha (ih _ (fun m hm => ?_) fun m hm => ?_)
      · rw [if_neg (by simpa using hne)] at hf
        exact hf _ (List.mem_append_right _ (List.mem_singleton_self _))
      · split at hf
        · simp_all
        · exact hf m (List.mem_append_left _ hm)
      · exact ha m (List.mem_of_mem_dropLast hm)
  exact key _ _ h.flush h.flushAfter

end DocBlock
