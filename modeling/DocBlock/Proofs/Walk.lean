import Mathlib
import DocBlock.Files.Tree

/-! Ways through a tree. A way leads from a place through names and links to another place. It stays
what it is in every tree that keeps the directories and the links that it meets. -/

namespace DocBlock

theorem Entry.le_above (e : Entry) (n : Nat) : n ≤ e.above n := by
  cases e <;> simp [above]

theorem Entry.lt_above (id n : Nat) : id < (Entry.file id).above n := by
  simp [above]

namespace Tree

/-- From the first place the names lead to the last, by way of these links. -/
inductive Leads (t : Tree) : Place → List Name → List Place → Place → Prop
  | here (p : Place) : Leads t p [] [] p
  | step {p q r : Place} {n : Name} {rest : List Name} {links : List Place}
    (hstep : t.step p n = .ok q) (hplain : ∀ target, t.find? q ≠ some (.link target))
    (h : Leads t q rest links r) : Leads t p (n :: rest) links r
  | link {p q r : Place} {n : Name} {rest : List Name} {links : List Place} {target : Target}
    (hstep : t.step p n = .ok q) (hlink : t.find? q = some (.link target))
    (h : Leads t (target.base q) (target.names ++ rest) links r) :
    Leads t p (n :: rest) (q :: links) r

variable {t t' : Tree} {p q r m : Place} {n : Name} {names a b : List Name} {links links' : List Place}

theorem step_eq_ok :
    t.step p n = .ok q ↔ t.isDirectory p = true ∧ n.length ≤ 255 ∧
      (n = Name.dotDot → t.isDirectory (p.child n) = true) ∧ p.child n = q := by
  unfold step
  by_cases hp : t.isDirectory p = true
  · by_cases hn : 255 < n.length
    · simp [hp, hn, Nat.not_le.mpr hn]
    · by_cases hd : n = Name.dotDot
      · cases hc : t.isDirectory (p.child n) <;> simp [hp, hn, ← hd]
        omega
      · simp [hp, hn, hd]
        omega
  · simp [hp]

/-- A name leads to a place below its directory, or to a directory. -/
theorem child_of_step (h : t.step p n = .ok q) : q = p ++ [n] ∨ t.isDirectory q = true := by
  obtain ⟨hp, -, hup, rfl⟩ := step_eq_ok.mp h
  by_cases hdots : n = Name.dotDot
  · exact .inr (hup hdots)
  · unfold Place.child
    split
    · exact .inr hp
    · exact .inl rfl

theorem step_congr (h : t.step p n = .ok q)
    (hdirs : ∀ r, t.isDirectory r = true → t'.isDirectory r = true) : t'.step p n = .ok q := by
  obtain ⟨hp, hn, hup, rfl⟩ := step_eq_ok.mp h
  exact step_eq_ok.mpr ⟨hdirs _ hp, hn, fun hdots => hdirs _ (hup hdots), rfl⟩

theorem leads_nil : t.Leads p [] links r ↔ links = [] ∧ p = r := by
  constructor
  · intro h
    cases h
    exact ⟨rfl, rfl⟩
  · rintro ⟨rfl, rfl⟩
    exact .here p

theorem Leads.exists_step (h : t.Leads p (n :: names) links r) : ∃ q, t.step p n = .ok q := by
  cases h with
  | step hstep | link hstep => exact ⟨_, hstep⟩

/-- Behind the place of the first name, the way goes on by the link there if there is one. -/
theorem leads_cons (hstep : t.step p n = .ok q) : t.Leads p (n :: names) links r ↔
    (∀ target, t.find? q ≠ some (.link target)) ∧ t.Leads q names links r ∨
    ∃ target later, t.find? q = some (.link target) ∧ links = q :: later ∧
      t.Leads (target.base q) (target.names ++ names) later r := by
  constructor
  · intro h
    cases h with
    | step hstep' hplain h =>
      obtain rfl := Except.ok.inj (hstep.symm.trans hstep')
      exact .inl ⟨hplain, h⟩
    | link hstep' hlink h =>
      obtain rfl := Except.ok.inj (hstep.symm.trans hstep')
      exact .inr ⟨_, _, hlink, rfl, h⟩
  · rintro (⟨hplain, h⟩ | ⟨target, later, hlink, rfl, h⟩)
    · exact .step hstep hplain h
    · exact .link hstep hlink h

theorem walkWith_eq_ok {follow : Place → List Name → Except SystemError Place} {k : Nat}
    (hfollow : ∀ p names r, follow p names = .ok r ↔ ∃ links, links.length < k ∧ t.Leads p names links r)
    (p : Place) (names : List Name) (r : Place) :
    t.walkWith follow p names = .ok r ↔ ∃ links, links.length ≤ k ∧ t.Leads p names links r := by
  induction names generalizing p with
  | nil => simp [walkWith, leads_nil]
  | cons n rest ih =>
    rw [walkWith]
    cases hstep : t.step p n with
    | error e =>
      simp only [reduceCtorEq, false_iff, not_exists, not_and]
      intro links _ h
      obtain ⟨q, hq⟩ := h.exists_step
      rw [hstep] at hq
      cases hq
    | ok q =>
      simp only [leads_cons hstep]
      split
      · next target hlink =>
        rw [hfollow]
        constructor
        · rintro ⟨links, hk, h⟩
          exact ⟨q :: links, hk, .inr ⟨target, links, hlink, rfl, h⟩⟩
        · rintro ⟨links, hk, ⟨hplain, -⟩ | ⟨target', later, hlink', rfl, h⟩⟩
          · exact absurd hlink (hplain target)
          · obtain rfl := Entry.link.inj (Option.some.inj (hlink.symm.trans hlink'))
            exact ⟨later, hk, h⟩
      · next hplain =>
        rw [ih]
        constructor
        · rintro ⟨links, hk, h⟩
          exact ⟨links, hk, .inl ⟨hplain, h⟩⟩
        · rintro ⟨links, hk, ⟨-, h⟩ | ⟨target, later, hlink, -⟩⟩
          · exact ⟨links, hk, h⟩
          · exact absurd hlink (hplain target)

/-- The walk finds exactly the ways that meet few enough links. -/
theorem walk_eq_ok (k : Nat) (p : Place) (names : List Name) (r : Place) :
    t.walk k p names = .ok r ↔ ∃ links, links.length ≤ k ∧ t.Leads p names links r := by
  induction k generalizing p names r with
  | zero => exact walkWith_eq_ok (by simp) p names r
  | succ k ih =>
    refine walkWith_eq_ok (fun p names r => ?_) p names r
    rw [ih]
    simp only [Nat.lt_succ_iff]

theorem follow_eq_ok :
    t.follow p names = .ok r ↔ ∃ links, links.length ≤ maxLinks ∧ t.Leads p names links r :=
  walk_eq_ok maxLinks p names r

namespace Leads

/-- There is one way only. -/
theorem unique (h : t.Leads p names links q) (h' : t.Leads p names links' r) :
    links = links' ∧ q = r := by
  induction h generalizing links' r with
  | here p =>
    obtain ⟨rfl, rfl⟩ := leads_nil.mp h'
    exact ⟨rfl, rfl⟩
  | step hstep hplain _ ih =>
    rcases (leads_cons hstep).mp h' with ⟨-, h'⟩ | ⟨target, later, hlink, -⟩
    · exact ih h'
    · exact absurd hlink (hplain target)
  | link hstep hlink _ ih =>
    rcases (leads_cons hstep).mp h' with ⟨hplain, -⟩ | ⟨target, later, hlink', rfl, h'⟩
    · exact absurd hlink (hplain _)
    · obtain rfl := Entry.link.inj (Option.some.inj (hlink.symm.trans hlink'))
      obtain ⟨rfl, rfl⟩ := ih h'
      exact ⟨rfl, rfl⟩

theorem append (h : t.Leads p a links m) (h' : t.Leads m b links' r) :
    t.Leads p (a ++ b) (links ++ links') r := by
  induction h with
  | here p => exact h'
  | step hstep hplain _ ih => exact .step hstep hplain (ih h')
  | link hstep hlink _ ih =>
    rw [List.cons_append, List.cons_append]
    refine .link hstep hlink ?_
    rw [← List.append_assoc]
    exact ih h'

/-- A way along two lists of names goes along one and then along the other. -/
theorem split (h : t.Leads p (a ++ b) links r) :
    ∃ first m second, links = first ++ second ∧ t.Leads p a first m ∧ t.Leads m b second r := by
  generalize hnames : a ++ b = names at h
  induction h generalizing a with
  | here p =>
    obtain ⟨rfl, rfl⟩ := List.append_eq_nil_iff.mp hnames
    exact ⟨[], p, [], rfl, .here p, .here p⟩
  | @step p q r n rest links hstep hplain h ih =>
    cases a with
    | nil =>
      rw [List.nil_append] at hnames
      rw [hnames]
      exact ⟨[], p, links, rfl, .here p, .step hstep hplain h⟩
    | cons x a =>
      obtain ⟨rfl, hrest⟩ := List.cons.inj hnames
      obtain ⟨first, m, second, rfl, hfirst, hsecond⟩ := ih hrest
      exact ⟨first, m, second, rfl, .step hstep hplain hfirst, hsecond⟩
  | @link p q r n rest links target hstep hlink h ih =>
    cases a with
    | nil =>
      rw [List.nil_append] at hnames
      rw [hnames]
      exact ⟨[], p, q :: links, rfl, .here p, .link hstep hlink h⟩
    | cons x a =>
      rw [List.cons_append] at hnames
      obtain ⟨rfl, hrest⟩ := List.cons.inj hnames
      have hnames : (target.names ++ a) ++ b = target.names ++ rest := by
        rw [List.append_assoc, hrest]
      obtain ⟨first, m, second, rfl, hfirst, hsecond⟩ := ih hnames
      exact ⟨q :: first, m, second, rfl, .link hstep hlink hfirst, hsecond⟩

/-- At a link that is met, the way goes on along the names of the link. -/
theorem of_mem (h : t.Leads p names links r) (hq : q ∈ links) :
    ∃ target rest later, t.find? q = some (.link target) ∧
      t.Leads (target.base q) (target.names ++ rest) later r ∧ later.length < links.length := by
  induction h with
  | here => cases hq
  | step _ _ _ ih => exact ih hq
  | @link p q' r n rest links target hstep hlink h ih =>
    rcases List.mem_cons.mp hq with rfl | hq
    · exact ⟨target, rest, links, hlink, h, by simp⟩
    · obtain ⟨target, rest, later, hlink, hlater, hlt⟩ := ih hq
      exact ⟨target, rest, later, hlink, hlater, by simp only [List.length_cons]; omega⟩

theorem find?_of_mem (h : t.Leads p names links r) (hq : q ∈ links) :
    ∃ target, t.find? q = some (.link target) := by
  obtain ⟨target, -, -, hlink, -⟩ := h.of_mem hq
  exact ⟨target, hlink⟩

/-- A link does not lead back to itself: that way would have no end. -/
theorem notMem_of_link {target : Target} (hlink : t.find? q = some (.link target))
    (h : t.Leads (target.base q) target.names links r) : q ∉ links := by
  intro hq
  obtain ⟨target', rest, later, hlink', hlater, hlt⟩ := h.of_mem hq
  rw [hlink] at hlink'
  cases hlink'
  obtain ⟨first, m, second, rfl, hfirst, -⟩ := hlater.split
  obtain ⟨rfl, -⟩ := h.unique hfirst
  simp only [List.length_append] at hlt
  omega

/-- From what is no directory there is no way on. -/
theorem eq_nil_of_not_directory (h : t.Leads p names links r) (hp : t.isDirectory p = false) :
    names = [] := by
  cases h with
  | here => rfl
  | step hstep | link hstep =>
    rw [(step_eq_ok.mp hstep).1] at hp
    cases hp

/-- The same way leads through another tree if that keeps the directories and the links on it, and no
link stands at its end. -/
theorem congr (h : t.Leads p names links r)
    (hdirs : ∀ q, t.isDirectory q = true → t'.isDirectory q = true)
    (hlinks : ∀ q ∈ links, t'.find? q = t.find? q)
    (hend : ∀ target, t'.find? r ≠ some (.link target)) : t'.Leads p names links r := by
  induction h with
  | here p => exact .here p
  | @step p q r n rest links h hplain hrest ih =>
    refine .step (step_congr h hdirs) ?_ (ih hlinks hend)
    -- A place that is left again is a directory; the last one is no link by assumption.
    intro target htarget
    by_cases hq : t.isDirectory q = true
    · have := hdirs q hq
      simp [isDirectory, htarget] at this
    · obtain rfl := hrest.eq_nil_of_not_directory (by simpa using hq)
      cases hrest
      exact hend target htarget
  | @link p q r n rest links target h hlink _ ih =>
    rw [List.forall_mem_cons] at hlinks
    exact .link (step_congr h hdirs) (by rw [hlinks.1, hlink]) (ih hlinks.2 hend)

/-- At the place of a last name the way ends, or goes on by the link there. -/
theorem last (h : t.Leads p [n] links r) (hstep : t.step p n = .ok q) :
    (links = [] ∧ r = q ∧ ∀ target, t.find? q ≠ some (.link target)) ∨
    ∃ target later, links = q :: later ∧ t.find? q = some (.link target) ∧
      t.Leads (target.base q) target.names later r := by
  rcases (leads_cons hstep).mp h with ⟨hplain, hend⟩ | ⟨target, later, hlink, hlinks, hrest⟩
  · obtain ⟨rfl, rfl⟩ := leads_nil.mp hend
    exact .inl ⟨rfl, rfl, hplain⟩
  · rw [List.append_nil] at hrest
    exact .inr ⟨target, later, hlinks, hlink, hrest⟩

end Leads

/-! What the changes do to entries and contents. -/

section Changes

variable {bytes : Bytes} {id : Nat} {e : Entry}

theorem ne_nil_of_not_directory (h : t.isDirectory p = false) : p ≠ [] := by
  rintro rfl
  cases h

theorem isDirectory_of_find? (h : t.find? p = some e) (he : e ≠ .directory) :
    t.isDirectory p = false := by
  simp [isDirectory, h, he]

theorem isDirectory_of_none (h : t.find? p = none) : t.isDirectory p = false := by
  simp [isDirectory, h]

/-- A file that is in the tree has not the number of the next new one. -/
theorem ne_fresh (h : t.find? p = some (.file id)) : id ≠ t.fresh := by
  have key (l : List (Place × Entry)) (h : (p, .file id) ∈ l) :
      id < l.foldr (fun e n => e.2.above n) 0 := by
    induction l with
    | nil => cases h
    | cons a l ih =>
      rw [List.foldr_cons]
      rcases List.mem_cons.mp h with rfl | h
      · exact Entry.lt_above id _
      · exact (ih h).trans_le (a.2.le_above _)
  have hne : p ≠ [] := ne_nil_of_not_directory (isDirectory_of_find? h (by simp))
  simp only [find?, hne, if_false, Option.map_eq_some_iff] at h
  obtain ⟨⟨p', e⟩, hfound, rfl⟩ := h
  have hp : p' = p := by simpa using List.find?_some hfound
  exact (key t.entries (hp ▸ List.mem_of_find?_eq_some hfound)).ne

@[simp] theorem find?_write (t : Tree) (p : Place) (bytes : Bytes) (q : Place) :
    (t.write p bytes).find? q = t.find? q := by
  unfold write
  split <;> rfl

theorem content_write_self (h : t.find? p = some (.file id)) : (t.write p bytes).content id = bytes := by
  simp [write, h]

theorem content_write_of_ne (h : t.find? p ≠ some (.file id)) :
    (t.write p bytes).content id = t.content id := by
  unfold write
  split
  · next j hj =>
    apply content_store_of_ne
    rintro rfl
    exact h hj
  · rfl

theorem find?_create (t : Tree) (p q : Place) :
    (t.create p).find? q =
      if q = p ∧ t.find? p = none then some (.file t.fresh) else t.find? q := by
  unfold create
  cases hp : t.find? p with
  | none =>
    have hne := ne_nil_of_not_directory (isDirectory_of_none hp)
    by_cases hq : q = p
    · simp [hq, find?_put_self hne]
    · simp [hq, find?_put_of_ne hq]
  | some e => simp

theorem isDirectory_create (t : Tree) (p q : Place) : (t.create p).isDirectory q = t.isDirectory q := by
  rw [isDirectory, isDirectory, find?_create]
  split
  · next hq => simp [hq.1, hq.2]
  · rfl

theorem isDirectory_erase (hp : t.isDirectory p = false) (q : Place) :
    (t.erase p).isDirectory q = t.isDirectory q := by
  by_cases hq : q = p
  · rw [hq, hp, isDirectory_of_none (find?_erase_self (ne_nil_of_not_directory hp))]
  · rw [isDirectory, find?_erase_of_ne hq, isDirectory]

/-- Opening a file leaves the other files alone. -/
theorem content_create_of_ne (hq : t.find? q = some (.file id)) (hp : t.find? p ≠ some (.file id)) :
    (t.create p).content id = t.content id := by
  unfold create
  split
  · exact content_store_of_ne (ne_fresh hq)
  · exact content_write_of_ne hp

@[simp] theorem content_rename (t : Tree) (p q : Place) (id : Nat) :
    (t.rename p q).content id = t.content id := by
  unfold rename
  split
  · rfl
  · split <;> rfl

/-- What is where after an entry has been moved. -/
theorem find?_rename (he : t.find? p = some e) (hdir : e ≠ .directory) (hq : t.isDirectory q = false)
    (r : Place) :
    (t.rename p q).find? r =
      if t.isSameFile p q then t.find? r
      else if r = q then some e else if r = p then none else t.find? r := by
  have hpne := ne_nil_of_not_directory (isDirectory_of_find? he hdir)
  have hqne := ne_nil_of_not_directory hq
  simp only [rename, he]
  split
  · rfl
  · by_cases hrq : r = q
    · rw [if_pos hrq, hrq]
      exact find?_put_self hqne
    · rw [if_neg hrq, find?_put_of_ne hrq]
      by_cases hrp : r = p
      · rw [if_pos hrp, hrp]
        exact find?_erase_self hpne
      · rw [if_neg hrp]
        exact find?_erase_of_ne hrp

theorem isDirectory_rename (he : t.find? p = some e) (hdir : e ≠ .directory)
    (hq : t.isDirectory q = false) (r : Place) : (t.rename p q).isDirectory r = t.isDirectory r := by
  have hp := isDirectory_of_find? he hdir
  rw [isDirectory, find?_rename he hdir hq]
  split
  · rfl
  · by_cases hrq : r = q
    · rw [if_pos hrq, hrq, hq]
      simp [hdir]
    · rw [if_neg hrq]
      by_cases hrp : r = p
      · rw [if_pos hrp, hrp, hp]
        rfl
      · rw [if_neg hrp, isDirectory]

theorem isSameFile_iff : t.isSameFile p q = true ↔
    ∃ id, t.find? p = some (.file id) ∧ t.find? q = some (.file id) := by
  unfold isSameFile
  split
  · next a b hp hq => simp [hp, hq, eq_comm]
  · next hother =>
    simp only [Bool.false_eq_true, false_iff, not_exists, not_and]
    exact fun id hp hq => hother id id hp hq

theorem applyAll_append (t : Tree) (cs ds : List Change) :
    t.applyAll (cs ++ ds) = (t.applyAll cs).applyAll ds :=
  List.foldl_append

end Changes

/-- From one tree to the other no directory is lost, the entries at the kept places stay what they are,
and so does the content of a file that has one of these places. -/
structure Spares (t t' : Tree) (kept : List Place) (id : Nat) : Prop where
  directories : ∀ q, t.isDirectory q = true → t'.isDirectory q = true
  entries : ∀ q ∈ kept, ∀ e, t.find? q = some e → t'.find? q = some e
  content : ∀ q ∈ kept, t.find? q = some (.file id) → t'.content id = t.content id

theorem Spares.refl (t : Tree) (kept : List Place) (id : Nat) : t.Spares t kept id :=
  ⟨fun _ h => h, fun _ _ _ h => h, fun _ _ _ => rfl⟩

theorem Spares.trans {t'' : Tree} {kept : List Place} {id : Nat} (h : t.Spares t' kept id)
    (h' : t'.Spares t'' kept id) : t.Spares t'' kept id where
  directories q hq := h'.directories q (h.directories q hq)
  entries q hq e he := h'.entries q hq e (h.entries q hq e he)
  content q hq he := (h'.content q hq (h.entries q hq _ he)).trans (h.content q hq he)

end Tree

/-- The change moves no entry at a kept place, writes nothing to the file and touches no directory. -/
def Change.Avoids (t : Tree) (kept : List Place) (id : Nat) : Change → Prop
  | .create p | .fill p _ => t.find? p ≠ some (.file id)
  | .remove p => p ∉ kept ∧ t.isDirectory p = false
  | .rename p q => p ∉ kept ∧ q ∉ kept ∧ t.isDirectory p = false ∧ t.isDirectory q = false

namespace Tree

variable {t : Tree} {kept : List Place} {id : Nat}

/-- Each of the changes avoids the kept places, in the tree that the earlier ones have left. -/
def AvoidedBy (t : Tree) (kept : List Place) (id : Nat) : List Change → Prop
  | [] => True
  | c :: cs => c.Avoids t kept id ∧ (t.apply c).AvoidedBy kept id cs

theorem spares_apply {c : Change} (h : c.Avoids t kept id) : t.Spares (t.apply c) kept id := by
  cases c with
  | create p =>
    refine ⟨fun q hq => ?_, fun q hq e he => ?_, fun q hq he => content_create_of_ne he h⟩
    · rw [apply, isDirectory_create, hq]
    · rw [apply, find?_create, if_neg, he]
      rintro ⟨rfl, hn⟩
      rw [he] at hn
      cases hn
  | fill p bytes =>
    refine ⟨fun q hq => ?_, fun q hq e he => ?_, fun q hq he => content_write_of_ne h⟩
    · simpa [isDirectory, apply] using hq
    · simpa [apply] using he
  | remove p =>
    obtain ⟨hp, hdir⟩ := h
    refine ⟨fun q hq => ?_, fun q hq e he => ?_, fun q hq he => rfl⟩
    · rw [apply, isDirectory_erase hdir, hq]
    · rw [apply, find?_erase_of_ne, he]
      rintro rfl
      exact hp hq
  | rename p q =>
    obtain ⟨hp, hq, hpdir, hqdir⟩ := h
    cases he : t.find? p with
    | none =>
      have hsame : t.apply (.rename p q) = t := by simp [apply, rename, he]
      rw [hsame]
      exact .refl t kept id
    | some e =>
      have hne : e ≠ .directory := by
        rintro rfl
        simp [isDirectory, he] at hpdir
      refine ⟨fun r hr => ?_, fun r hr e' he' => ?_, fun r hr he' => content_rename t p q id⟩
      · rw [apply, isDirectory_rename he hne hqdir, hr]
      · rw [apply, find?_rename he hne hqdir]
        split
        · exact he'
        · rw [if_neg, if_neg, he']
          · rintro rfl
            exact hp hr
          · rintro rfl
            exact hq hr

theorem spares_applyAll {cs : List Change} (h : t.AvoidedBy kept id cs) :
    t.Spares (t.applyAll cs) kept id := by
  induction cs generalizing t with
  | nil => exact .refl t kept id
  | cons c cs ih => exact (spares_apply h.1).trans (ih h.2)

theorem AvoidedBy.mono {cs ds : List Change} (h : t.AvoidedBy kept id ds) (hcs : cs <+: ds) :
    t.AvoidedBy kept id cs := by
  induction cs generalizing t ds with
  | nil => exact True.intro
  | cons c cs ih =>
    obtain ⟨later, rfl⟩ := hcs
    exact ⟨h.1, ih h.2 (List.prefix_append _ _)⟩

end Tree

end DocBlock
