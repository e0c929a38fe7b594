import DocBlock.Text.Basic

/-! Reading a C declarator such as `const char ** name[]`: the trailing name, and a type phrase in
words ("a pointer to a pointer to an array of const char"). Anything const, or neither pointer nor
array, counts as input only; pointers hidden behind a typedef are not seen. -/

namespace DocBlock

open Text (ofString)

/-- Text that keeps only its first `capacity` symbols. -/
structure CappedText where
  capacity : Nat
  text : Text := []
  length_le : text.length ≤ capacity := by simp

namespace CappedText

/-- Empty text of the given capacity, a negative one counting as zero. -/
def ofCapacity (capacity : Int) : CappedText where
  capacity := capacity.toNat

def remaining (b : CappedText) : Nat := b.capacity - b.text.length

def append (b : CappedText) (t : Text) : CappedText where
  capacity := b.capacity
  text := b.text ++ t.take b.remaining
  length_le := by
    have := b.length_le
    simp [remaining]
    omega

end CappedText

inductive Qualifier where
  | static | const
  deriving DecidableEq, Repr

namespace Qualifier

def word : Qualifier → Text
  | static => ofString "static"
  | const => ofString "const"

/-- The qualifier that the text starts with, and what follows it. -/
def leading? (t : Text) : Option (Qualifier × Text) :=
  match Text.afterWord? static.word t with
  | some rest => some (static, rest)
  | none => (Text.afterWord? const.word t).map (const, ·)

theorem length_lt_of_leading? {t rest : Text} {q : Qualifier} (h : leading? t = some (q, rest)) :
    rest.length < t.length := by
  have key : ∀ w : Text, w ≠ [] → Text.afterWord? w t = some rest → rest.length < t.length := by
    intro w hw hr
    simp only [Text.afterWord?, Option.ite_none_right_eq_some, Bool.and_eq_true,
      Option.some.injEq] at hr
    obtain ⟨⟨hp, -⟩, rfl⟩ := hr
    have hl := (List.isPrefixOf_iff_prefix.mp hp).length_le
    have := List.length_pos_iff.mpr hw
    simp only [List.length_drop]
    omega
  unfold leading? at h
  split at h
  · next rest' hs =>
    obtain ⟨-, rfl⟩ := by simpa using h
    exact key static.word (by decide) hs
  · next hs =>
    obtain ⟨rest', hc, he⟩ := Option.map_eq_some_iff.mp h
    obtain ⟨-, rfl⟩ := by simpa using he
    exact key const.word (by decide) hc

/-- All leading qualifiers in order, and the text after them and the blanks that follow each. -/
def takeAll (t : Text) : List Qualifier × Text :=
  match _h : leading? t with
  | none => ([], t)
  | some (q, rest) =>
    let (qs, base) := takeAll (rest.dropWhile Sym.isBlank)
    (q :: qs, base)
termination_by t.length
decreasing_by
  have := length_lt_of_leading? _h
  have := (List.dropWhile_sublist Sym.isBlank (l := rest)).length_le
  omega

end Qualifier

structure Declarator where
  name : Text
  /-- Where the name starts in the text that was read. -/
  start : Nat
  phrase : Text
  isStatic : Bool := false
  isConst : Bool := false
  pointers : Nat := 0
  isArray : Bool := false
  deriving DecidableEq, Repr

namespace Declarator

def stop (d : Declarator) : Nat := d.start + d.name.length

def isInput (d : Declarator) : Bool := d.isConst || (d.pointers == 0 && !d.isArray)

def direction (d : Declarator) : Text :=
  Text.ofString (if d.isInput then "in" else "in,out")

/-- What stands before the last opening bracket; nothing if there is none. -/
def beforeBracket (t : Text) : Text := ((t.reverse.dropWhile (· ≠ .char '[')).drop 1).reverse

/-- The declarator without a trailing bracket pair, and whether there was one. -/
def splitArray (t : Text) : Text × Bool :=
  if t.getLast? = some (.char ']') then ((beforeBracket t.dropLast).trimRight Sym.isBlank, true)
  else (t, false)

def isPointerMark (s : Sym) : Bool := s.isBlank || s = '*'

/-- The phrase for a type, cut to the capacity. -/
def phraseOf (capacity : Int) (pointers : Nat) (isArray isConst : Bool) (base : Text) : Text :=
  let words :=
    List.replicate pointers (ofString "a pointer to ") ++
    (if isArray then [ofString "an array of "] else []) ++
    (if isConst then [ofString "const "] else []) ++ [base]
  (words.foldl CappedText.append (.ofCapacity capacity)).text

/-- Reads a declarator, with the type phrase cut to `capacity` symbols. -/
def read (capacity : Int) (t : Text) : Declarator :=
  let lead := t.takeWhile Sym.isBlank
  let (core, isArray) := splitArray t.strip
  let name := (core.reverse.takeWhile Sym.isWord).reverse
  let front := core.take (core.length - name.length)
  let (qualifiers, typed) := Qualifier.takeAll front
  let base := typed.trimRight isPointerMark
  let pointers := (typed.drop base.length).count (.char '*')
  let isConst := qualifiers.contains .const
  { name
    start := lead.length + front.length
    phrase := phraseOf capacity pointers isArray isConst base
    isStatic := qualifiers.contains .static
    isConst, pointers, isArray }

/-- Cuts a parenthesised list into its parameters. Only the leading parentheses are seen as such, so
each comma or closing parenthesis ends a parameter and what follows the last one is dropped. -/
def parameterTexts (t : Text) : List Text :=
  (cutAt (fun s : Sym => s = ',' || s = ')') (t.dropWhile fun s => s.isBlank || s = '(')).dropLast

end Declarator

end DocBlock
