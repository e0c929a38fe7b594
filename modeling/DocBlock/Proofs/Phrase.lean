import Mathlib
import DocBlock.Proofs.Block

/-! What the capacity for type phrases decides. A phrase is cut to its first symbols, and some tags depend
on what the cut phrase reads: whether there is a result at all, and what becomes of a parameter without a
name. So the capacity matters for more than the phrases where the cut makes such a text or takes it away. -/

namespace DocBlock

open Text (ofString)

namespace CappedText

theorem text_append (b : CappedText) (t : Text) : (b.append t).text = (b.text ++ t).take b.capacity := by
  rw [List.take_append, List.take_of_length_le b.length_le]
  rfl

/-- The first symbols of all that is appended are kept. -/
theorem text_foldl_append (ts : List Text) (b : CappedText) :
    (ts.foldl append b).text = (b.text ++ ts.flatten).take b.capacity := by
  induction ts generalizing b with
  | nil => rw [List.foldl_nil, List.flatten_nil, List.append_nil, List.take_of_length_le b.length_le]
  | cons t ts ih =>
    have hcapacity : (b.append t).capacity = b.capacity := rfl
    rw [List.foldl_cons, ih, text_append, hcapacity, List.flatten_cons, ← List.append_assoc]
    generalize b.text ++ t = x
    rw [List.take_append, List.take_append, List.take_take, min_self, List.length_take]
    congr 2
    omega

end CappedText

namespace Declarator

/-- The phrase for a type, in full. -/
def wordsOf (pointers : Nat) (isArray isConst : Bool) (base : Text) : Text :=
  (List.replicate pointers (ofString "a pointer to ")).flatten ++
    (if isArray then ofString "an array of " else []) ++ (if isConst then ofString "const " else []) ++ base

theorem phraseOf_eq (capacity : Int) (pointers : Nat) (isArray isConst : Bool) (base : Text) :
    phraseOf capacity pointers isArray isConst base =
      (wordsOf pointers isArray isConst base).take capacity.toNat := by
  rw [phraseOf, CappedText.text_foldl_append]
  simp only [CappedText.ofCapacity, wordsOf, List.nil_append, List.flatten_append]
  cases isArray <;> cases isConst <;> simp

/-- The type without its qualifiers and stars. -/
def base (t : Text) : Text :=
  let core := (splitArray t.strip).1
  let name := (core.reverse.takeWhile Sym.isWord).reverse
  (Qualifier.takeAll (core.take (core.length - name.length))).2.trimRight isPointerMark

/-- The type phrase before it is cut. -/
def wholePhrase (t : Text) : Text :=
  let d := read 0 t
  wordsOf d.pointers d.isArray d.isConst (base t)

/-- The capacity cuts the phrase and does nothing else. -/
theorem read_eq (capacity : Int) (t : Text) :
    read capacity t = { read 0 t with phrase := (wholePhrase t).take capacity.toNat } := by
  rw [wholePhrase, ← phraseOf_eq]
  rfl

theorem wordsOf_eq_void {pointers : Nat} {isArray isConst : Bool} {t : Text} :
    wordsOf pointers isArray isConst t = ofString "void" ↔
      pointers = 0 ∧ isArray = false ∧ isConst = false ∧ t = ofString "void" := by
  constructor
  · intro h
    have hhead := congrArg List.head? h
    rcases pointers with _ | k
    · cases isArray
      · cases isConst
        · exact ⟨rfl, rfl, rfl, h⟩
        · simp [wordsOf, ofString] at hhead
      · simp [wordsOf, ofString] at hhead
    · simp [wordsOf, ofString, List.replicate_succ] at hhead
  · rintro ⟨rfl, rfl, rfl, rfl⟩
    rfl

end Declarator

/-- Cut to `k` symbols, the phrase reads `w`: it is `w` and there is room for it, or it goes on behind `w`
where it is cut. -/
def Text.CutsTo (phrase : Text) (k : Nat) (w : Text) : Prop :=
  phrase = w ∧ w.length ≤ k ∨ w <+: phrase ∧ k = w.length

theorem Text.take_eq_iff {phrase w : Text} {k : Nat} : phrase.take k = w ↔ phrase.CutsTo k w := by
  constructor
  · rintro rfl
    rcases le_or_gt phrase.length k with hk | hk
    · exact .inl ⟨(List.take_of_length_le hk).symm, by simp⟩
    · refine .inr ⟨List.take_prefix k phrase, ?_⟩
      rw [List.length_take]
      omega
  · rintro (⟨rfl, hk⟩ | ⟨⟨rest, rfl⟩, rfl⟩)
    · exact List.take_of_length_le hk
    · exact List.take_left

theorem Text.cutsTo_of_lt {phrase w : Text} {k : Nat} (h : w.length < k) :
    phrase.CutsTo k w ↔ phrase = w := by
  unfold CutsTo
  exact ⟨fun hc => (hc.resolve_right fun hp => by omega).1, fun he => .inl ⟨he, h.le⟩⟩

/-- Where the second choice keeps all that the first one does, equal results come from equal choices. -/
theorem forall_eq_of_filterMap_eq {α β : Type} {f g : α → Option β} {l : List α}
    (hfg : ∀ a ∈ l, (f a).isSome = true → (g a).isSome = true) (h : l.filterMap f = l.filterMap g) :
    ∀ a ∈ l, f a = g a := by
  induction l with
  | nil => simp
  | cons a l ih =>
    rw [List.forall_mem_cons] at hfg ⊢
    cases hf : f a with
    | none =>
      rw [List.filterMap_cons_none hf] at h
      cases hg : g a with
      | none => exact ⟨rfl, ih hfg.2 (by rwa [List.filterMap_cons_none hg] at h)⟩
      | some y =>
        -- The second choice would keep one more.
        have hlength := congrArg List.length h
        have hle := List.countP_mono_left hfg.2
        rw [List.filterMap_cons_some hg, List.length_cons, List.length_filterMap_eq_countP,
          List.length_filterMap_eq_countP] at hlength
        omega
    | some x =>
      obtain ⟨y, hg⟩ := Option.isSome_iff_exists.mp (hfg.1 (by rw [hf]; rfl))
      rw [List.filterMap_cons_some hf, List.filterMap_cons_some hg] at h
      obtain ⟨hxy, htail⟩ := List.cons.inj h
      exact ⟨by rw [hg, hxy], ih hfg.2 htail⟩

namespace Tag

/-- The tag without its type phrase. -/
def shape : Tag → Tag
  | param direction name _ => param direction name []
  | result _ => result []
  | tag => tag

variable {t : Text}

theorem shape_ofParameter?_of_named (h : (Declarator.read 0 t).name ≠ []) (k : Nat) :
    (ofParameter? k t).map shape =
      let d := Declarator.read 0 t
      if d.name = ofString "void" then none else some (param d.direction d.name []) := by
  simp only [ofParameter?, Declarator.read_eq k t, Declarator.direction, Declarator.isInput]
  split <;> simp_all [shape]

theorem shape_ofParameter?_of_nameless (h : (Declarator.read 0 t).name = []) (k : Nat) :
    (ofParameter? k t).map shape =
      let phrase := (Declarator.wholePhrase t).take k
      if phrase = [] then none
      else if phrase = ofString "..." then some variadic
      else some (param (Declarator.read 0 t).direction [] []) := by
  have hvoid : ([] : Text) ≠ ofString "void" := by decide
  simp only [ofParameter?, Declarator.read_eq k t, h, hvoid, decide_false, Bool.false_or,
    List.isEmpty_nil, Bool.true_and, List.isEmpty_iff, Int.toNat_natCast, decide_eq_true_eq]
  split
  · rfl
  · split <;> rfl

/-- What becomes of a parameter is the same at two capacities if it has a name, or if the phrase is empty
at both or neither, and the dots of a variable list at both or neither. -/
theorem shape_ofParameter?_eq_iff {k₁ k₂ : Nat} :
    (ofParameter? k₁ t).map shape = (ofParameter? k₂ t).map shape ↔
      ((Declarator.read 0 t).name = [] → ∀ w ∈ [[], ofString "..."],
        (Declarator.wholePhrase t).CutsTo k₁ w ↔ (Declarator.wholePhrase t).CutsTo k₂ w) := by
  have hdots : ofString "..." ≠ [] := by decide
  by_cases h : (Declarator.read 0 t).name = []
  · simp only [shape_ofParameter?_of_nameless h, h, true_implies, List.forall_mem_cons,
      List.not_mem_nil, false_implies, implies_true, and_true, ← Text.take_eq_iff]
    generalize (Declarator.wholePhrase t).take k₁ = phrase₁
    generalize (Declarator.wholePhrase t).take k₂ = phrase₂
    split_ifs <;> simp_all
  · simp [shape_ofParameter?_of_named h, h]

theorem isSome_shape_ofParameter? {k₁ k₂ : Nat} (hk : k₁ ≤ k₂)
    (h : ((ofParameter? k₁ t).map shape).isSome = true) : ((ofParameter? k₂ t).map shape).isSome = true := by
  by_cases hn : (Declarator.read 0 t).name = []
  · simp only [shape_ofParameter?_of_nameless hn] at h ⊢
    have hne : (Declarator.wholePhrase t).take k₁ ≠ [] := by
      intro he
      simp [he] at h
    have hne' : (Declarator.wholePhrase t).take k₂ ≠ [] := by
      rw [ne_eq, List.take_eq_nil_iff] at hne ⊢
      exact fun he => hne (he.imp_left fun hz => by omega)
    rw [if_neg hne']
    split <;> rfl
  · rwa [shape_ofParameter?_of_named hn, ← shape_ofParameter?_of_named hn k₁]

theorem shape_ofParameters_eq_iff {k₁ k₂ : Nat} :
    (ofParameters k₁ t).map shape = (ofParameters k₂ t).map shape ↔
      ∀ a ∈ Declarator.parameterTexts t,
        (ofParameter? k₁ a).map shape = (ofParameter? k₂ a).map shape := by
  simp only [ofParameters, List.map_filterMap]
  refine ⟨fun h => ?_, fun h => List.filterMap_congr h⟩
  rcases le_total k₁ k₂ with hk | hk
  · exact forall_eq_of_filterMap_eq (fun a _ => isSome_shape_ofParameter? hk) h
  · intro a ha
    exact (forall_eq_of_filterMap_eq (fun a _ => isSome_shape_ofParameter? hk) h.symm a ha).symm

end Tag

/-- The tags without their type phrases. -/
def Tags.shape (g : Tags) : Tags :=
  { g with params := g.params.map Tag.shape, results := g.results.map Tag.shape }

namespace Pending

variable {o : Options} {p : Pending}

/-- The tags of a function at a given capacity for type phrases. -/
def tagsAt (o : Options) (p : Pending) (k : Nat) : Tags := (p.block { o with typeCapacity := k }).tags

/-- The type phrase of a function before it is cut. -/
def typePhrase (p : Pending) : Text := Declarator.wholePhrase (p.extentText p.function)

theorem results_tagsAt (k : Nat) :
    (p.tagsAt o k).results =
      if p.typePhrase.take k = ofString "void" then []
      else .result (p.typePhrase.take k) :: (o.arrange p.returns).map .value := by
  have hphrase : (p.declarator { o with typeCapacity := k }).phrase = p.typePhrase.take k := by
    rw [declarator, Declarator.read_eq]
    rfl
  show (if (p.declarator { o with typeCapacity := k }).phrase = ofString "void" then [] else _) = _
  rw [hphrase]
  rfl

theorem shape_tagsAt_eq_iff {k₁ k₂ : Nat} :
    (p.tagsAt o k₁).shape = (p.tagsAt o k₂).shape ↔
      (p.typePhrase.CutsTo k₁ (ofString "void") ↔ p.typePhrase.CutsTo k₂ (ofString "void")) ∧
      ∀ a ∈ Declarator.parameterTexts (p.extentText p.parameters), (Declarator.read 0 a).name = [] →
        ∀ w ∈ [[], ofString "..."],
          (Declarator.wholePhrase a).CutsTo k₁ w ↔ (Declarator.wholePhrase a).CutsTo k₂ w := by
  have hparams : (p.tagsAt o k₁).params.map Tag.shape = (p.tagsAt o k₂).params.map Tag.shape ↔ _ :=
    Tag.shape_ofParameters_eq_iff
  have hresults : (p.tagsAt o k₁).results.map Tag.shape = (p.tagsAt o k₂).results.map Tag.shape ↔
      (p.typePhrase.CutsTo k₁ (ofString "void") ↔ p.typePhrase.CutsTo k₂ (ofString "void")) := by
    rw [results_tagsAt, results_tagsAt, ← Text.take_eq_iff, ← Text.take_eq_iff]
    split_ifs <;> simp_all [Tag.shape]
  simp only [Tag.shape_ofParameter?_eq_iff] at hparams
  rw [← hresults, ← hparams, and_comm, Tags.shape, Tags.shape, Tags.mk.injEq]
  exact ⟨fun h => ⟨h.1, h.2.1⟩, fun h => ⟨h.1, h.2, rfl, rfl⟩⟩

/-- The declared type is `void` and nothing else. -/
def DeclaresVoid (p : Pending) : Prop :=
  let t := p.extentText p.function
  let d := Declarator.read 0 t
  d.pointers = 0 ∧ d.isArray = false ∧ d.isConst = false ∧ Declarator.base t = ofString "void"
  deriving Decidable

theorem declaresVoid_iff : p.DeclaresVoid ↔ p.typePhrase = ofString "void" :=
  Declarator.wordsOf_eq_void.symm

theorem results_tagsAt_eq_nil_iff {k : Nat} :
    (p.tagsAt o k).results = [] ↔ p.typePhrase.CutsTo k (ofString "void") := by
  rw [results_tagsAt, ← Text.take_eq_iff]
  split <;> simp_all

end Pending

/-- For every function and any two capacities for type phrases, the tags are the same but for the phrases
exactly if the type phrase reads `void` at both or neither, and the phrase of each parameter without a name
is empty at both or neither, and the dots of a variable list at both or neither. All capacities above four
are alike. A function of type `void` has no result where there is room for that word, and any other one has
none just where its type is cut to that word. -/
theorem shape_tags_capacity_iff (o : Options) (p : Pending) (k₁ k₂ : Nat) :
    ((p.tagsAt o k₁).shape = (p.tagsAt o k₂).shape ↔
      (p.typePhrase.CutsTo k₁ (ofString "void") ↔ p.typePhrase.CutsTo k₂ (ofString "void")) ∧
      ∀ a ∈ Declarator.parameterTexts (p.extentText p.parameters), (Declarator.read 0 a).name = [] →
        ∀ w ∈ [[], ofString "..."],
          (Declarator.wholePhrase a).CutsTo k₁ w ↔ (Declarator.wholePhrase a).CutsTo k₂ w) ∧
    (4 < k₁ → 4 < k₂ → (p.tagsAt o k₁).shape = (p.tagsAt o k₂).shape) ∧
    (p.DeclaresVoid → ((p.tagsAt o k₁).results = [] ↔ 4 ≤ k₁)) ∧
    (¬ p.DeclaresVoid →
      ((p.tagsAt o k₁).results = [] ↔ k₁ = 4 ∧ ofString "void" <+: p.typePhrase)) := by
  have hlength : (ofString "void").length = 4 := by decide
  refine ⟨Pending.shape_tagsAt_eq_iff, fun h₁ h₂ => ?_, fun hv => ?_, fun hv => ?_⟩
  · have halike {w phrase : Text} (hw : w.length ≤ 4) : phrase.CutsTo k₁ w ↔ phrase.CutsTo k₂ w := by
      rw [Text.cutsTo_of_lt (by omega), Text.cutsTo_of_lt (by omega)]
    refine Pending.shape_tagsAt_eq_iff.mpr ⟨halike hlength.le, fun a _ _ => ?_⟩
    simp only [List.forall_mem_cons, List.not_mem_nil, false_implies, implies_true, and_true]
    exact ⟨halike (by simp), halike (by decide)⟩
  · rw [Pending.declaresVoid_iff] at hv
    rw [Pending.results_tagsAt_eq_nil_iff, hv, Text.CutsTo, hlength]
    simp
    omega
  · rw [Pending.declaresVoid_iff] at hv
    rw [Pending.results_tagsAt_eq_nil_iff, Text.CutsTo, hlength]
    simp [hv, and_comm]

/-- A function whose last parameter is a variable list, cut to five symbols and not at all. -/
theorem shape_tags_capacity_variadic :
    let t := ofString "void_t *log(char *format, ...) \x7b return 0; \x7d"
    let p := Passage.pending ⟨{}, t, none, []⟩
    (.flush p ∈ events 64 t ∧ p.isFunction = true ∧ ¬ p.DeclaresVoid) ∧
      (p.tagsAt {} 5).shape = (p.tagsAt {} 200).shape ∧ (p.tagsAt {} 5).results ≠ [] := by
  intro t p
  have hv : ¬ p.DeclaresVoid := by decide +kernel
  obtain ⟨-, hshape, -, hresults⟩ := shape_tags_capacity_iff {} p 5 200
  exact ⟨⟨by decide +kernel, by decide +kernel, hv⟩, hshape (by decide) (by decide),
    fun h => absurd ((hresults hv).mp h).1 (by decide)⟩

/-- With room for three symbols only, a function of type `void` gets a result, and with room for four, one
of another type gets none. -/
theorem void_result_shown :
    let t := ofString "void f(void) \x7b\x7dvoids g(void) \x7b\x7d"
    let p := Passage.pending ⟨{}, t.take 15, some (.char 'v'), []⟩
    let q := Passage.pending ⟨({} : Scanner).runTo (some (.char 'v')) (t.take 15), t.drop 15, none, []⟩
    (.flush p ∈ events 64 t ∧ p.isFunction = true ∧ p.DeclaresVoid ∧
      (p.tagsAt {} 3).results = [.result (ofString "voi")] ∧ (p.tagsAt {} 200).results = []) ∧
    .flush q ∈ events 64 t ∧ q.isFunction = true ∧ ¬ q.DeclaresVoid ∧
      (q.tagsAt {} 4).results = [] ∧ (q.tagsAt {} 200).results = [.result (ofString "voids")] := by
  decide +kernel

end DocBlock
