import Mathlib
import DocBlock.Proofs.Attempts

/-! What a run over several files keeps. A file is annotated by way of three places: its own and those
of its two siblings. In the course of a run a place can become unreachable, but no path ever stands in
another one. So a file is never lost as long as no other file of the run has one of its places on the way
to it or at its backup, and nothing is written to it through a link or under a second name. -/

namespace DocBlock

namespace Tree

variable {t t' t'' : Tree} {p q d d₀ a b mark : Place} {n k : Name} {names : List Name}
  {links : List Place} {cs : List Change}

/-- Every way to a directory of the second tree is one of the first. -/
structure Narrows (t t' : Tree) : Prop where
  directories : ∀ q, t'.isDirectory q = true → t.isDirectory q = true
  ways : ∀ p names links d, t'.Leads p names links d → t'.isDirectory d = true →
    t.Leads p names links d

theorem Narrows.refl (t : Tree) : t.Narrows t := ⟨fun _ h => h, fun _ _ _ _ h _ => h⟩

theorem Narrows.trans (h : t.Narrows t') (h' : t'.Narrows t'') : t.Narrows t'' where
  directories q hq := h.directories q (h'.directories q hq)
  ways p names links d hleads hd :=
    h.ways p names links d (h'.ways p names links d hleads hd) (h'.directories d hd)

theorem Dead.narrows (h : t.Dead q) (hn : t.Narrows t') : t'.Dead q :=
  fun p names links d hleads hd => h p names links d (hn.ways p names links d hleads hd) (hn.directories d hd)

/-- It is enough that there are no new directories, and no new links on the way to a directory. -/
theorem narrows_of_links (hdirs : ∀ q, t'.isDirectory q = true → t.isDirectory q = true)
    (hlinks : ∀ p names links d, t'.Leads p names links d → t'.isDirectory d = true →
      ∀ q ∈ links, t.find? q = t'.find? q) : t.Narrows t' := by
  refine ⟨hdirs, fun p names links d h hd => h.congr hdirs (hlinks p names links d h hd) ?_⟩
  have hd' := hdirs d hd
  simp only [isDirectory, decide_eq_true_eq] at hd'
  simp [hd']

theorem narrows_removals (hdir : t.isDirectory mark = false) (hcs : ∀ c ∈ cs, c = .remove mark) :
    t.Narrows (t.applyAll cs) := by
  induction cs generalizing t with
  | nil => exact .refl t
  | cons c cs ih =>
    rw [List.forall_mem_cons] at hcs
    obtain ⟨rfl, hcs⟩ := hcs
    have hdirs := isDirectory_erase hdir
    have hone : t.Narrows (t.erase mark) := by
      refine narrows_of_links (fun q hq => (hdirs q).symm.trans hq) ?_
      intro p names links d h _ q hq
      have hne : q ≠ mark := by
        rintro rfl
        obtain ⟨target, hlink⟩ := h.find?_of_mem hq
        rw [find?_erase_self (ne_nil_of_not_directory hdir)] at hlink
        cases hlink
      rw [find?_erase_of_ne hne]
    exact hone.trans (ih ((hdirs mark).trans hdir) hcs)

/-- Where a way goes on to a directory, there is a directory. -/
theorem Leads.isDirectory_start (h : t.Leads p names links d) (hd : t.isDirectory d = true) :
    t.isDirectory p = true := by
  by_contra hp
  obtain rfl := h.eq_nil_of_not_directory (by simpa using hp)
  cases h
  exact hp hd

/-- What leads to no directory can be moved within its own: it leads to none from there either. -/
theorem narrows_rename {e : Entry} (ha : t.step d₀ n = .ok a) (hb : t.step d₀ k = .ok b)
    (he : t.find? a = some e) (hdir : e ≠ .directory) (hbdir : t.isDirectory b = false)
    (hdead : t.Dead a) : t.Narrows (t.apply (.rename a b)) := by
  have hadir := isDirectory_of_find? he hdir
  have hdirs (q : Place) : (t.rename a b).isDirectory q = t.isDirectory q :=
    isDirectory_rename he hdir hbdir q
  refine narrows_of_links (fun q hq => by rwa [apply, hdirs] at hq) fun p names links d h hd => ?_
  rw [apply] at h hd ⊢
  have hfind := find?_rename he hdir hbdir
  by_cases hsame : t.isSameFile a b = true
  · intro q _
    rw [hfind, if_pos hsame]
  simp only [if_neg hsame] at hfind
  have hlink {p names links d} (h : (t.rename a b).Leads p names links d) {q : Place} (hq : q ∈ links)
      (hqb : q ≠ b) : t.find? q = (t.rename a b).find? q := by
    obtain ⟨target, hlink⟩ := h.find?_of_mem hq
    have hqa : q ≠ a := by
      rintro rfl
      rw [hfind, if_neg hqb, if_pos rfl] at hlink
      cases hlink
    rw [hfind, if_neg hqb, if_neg hqa]
  intro q hq
  refine hlink h hq ?_
  rintro rfl
  -- The way would go by the link in its new place. It leads to a directory from the old one, too.
  obtain ⟨target, rest, back, htarget, hback, -⟩ := h.of_mem hq
  obtain ⟨one, m, two, -, hone, htwo⟩ := hback.split
  have hm : t.isDirectory m = true := by
    rw [← hdirs]
    exact htwo.isDirectory_start hd
  have hway : t.Leads (target.base q) target.names one m := by
    refine hone.congr (fun r hr => by rwa [hdirs] at hr) (fun r hr => hlink hone hr ?_) ?_
    · rintro rfl
      exact Leads.notMem_of_link htarget hone hr
    · simp only [isDirectory, decide_eq_true_eq] at hm
      simp [hm]
  have hbase : target.base q = target.base a := by
    rw [step_eq_append hb hbdir, step_eq_append ha hadir]
    simp [Target.base]
  have hold : t.find? a = some (.link target) := by
    rw [hfind, if_pos rfl] at htarget
    rw [he, htarget]
  rw [hbase, ← List.append_nil target.names] at hway
  exact hdead _ _ _ _ (.link ha hold hway) hm List.mem_cons_self

end Tree

namespace Site

variable {s : Site} {past : List Syscall} {t t₀ t' : Tree} {o : Options} {x : Suffixes}
  {path p q temp backup : Path} {r place entry d source mark : Place}
  {first later way kept : List Place} {id : Nat} {data : Bytes} {made : Product} {cs : List Change}

theorem narrows_written (t : Tree) (place : Place) (data : Bytes) :
    t.Narrows (t.applyAll (written place data)) := by
  refine Tree.narrows_of_links (fun q hq => by rwa [isDirectory_written] at hq) ?_
  intro p names links d h _ q hq
  obtain ⟨target, hlink⟩ := h.find?_of_mem hq
  rw [find?_written] at hlink ⊢
  split at hlink
  · cases hlink
  · next hne => rw [if_neg hne]

/-- A path that still stands somewhere stands where it stood. -/
theorem place?_of_narrows (hn : t.Narrows t') (hq : path.IsSibling q) (h : s.place? t' q = some r) :
    s.place? t q = some r := by
  obtain ⟨hsound, links, d, hhouses, hstep⟩ := (place?_sibling hq).mp h
  have hd := (Tree.step_eq_ok.mp hstep).1
  exact (place?_sibling hq).mpr ⟨hsound, links, d, ⟨hhouses.few, hn.ways _ _ _ _ hhouses.leads hd⟩,
    Tree.step_congr hstep hn.directories⟩

theorem narrows_rename {a b : Place} (hp : path.IsSibling p) (hq : path.IsSibling q)
    (hr : s.rename past t p q = .ok (a, b)) (hdead : t.Dead a) : t.Narrows (t.apply (.rename a b)) := by
  obtain ⟨ha, hb, ⟨e, he, hedir⟩, hbdir⟩ := rename_eq_ok hr
  obtain ⟨-, links, d, hhouses, hstep⟩ := (place?_sibling hp).mp ha
  obtain ⟨-, hstep'⟩ := (hhouses.place?_eq hq).mp hb
  exact Tree.narrows_rename hstep hstep' he hedir hbdir hdead

/-- The places that `find` gives for those of the paths that there are. -/
def placesOf (find : Path → Option Place) (paths : List (Except Fault Path)) : List Place :=
  paths.filterMap (·.toOption.bind find)

/-- The place that is written to, where the temporary file is a link. -/
def writtenPlaces (s : Site) (t : Tree) (x : Suffixes) (path : Path) : List Place :=
  placesOf (s.reach? t) [path.addSuffix x.temp]

namespace Opened

variable {a b c e : Place} {past' : List Syscall}

theorem narrows_first (h : s.Opened t x path temp backup first d entry later source id mark place)
    (hr : s.rename past (t.applyAll (written place data)) path backup = .ok (a, b)) :
    t.Narrows (t.applyAll (written place data ++ [Change.rename a b])) := by
  have hwritten := narrows_written t place data
  have ha := place?_of_narrows hwritten h.stands.self (rename_eq_ok hr).1
  obtain rfl : entry = a := Option.some.inj (h.stands.place?_self.symm.trans ha)
  rw [Tree.applyAll_append]
  exact hwritten.trans (narrows_rename h.stands.self (Path.addSuffix_eq_ok h.backup_eq).2.1 hr
    (h.stands.entry_dead.narrows hwritten))

theorem narrows_second (h : s.Opened t x path temp backup first d entry later source id mark place)
    (hr : s.rename past (t.applyAll (written place data)) path backup = .ok (a, b))
    (hr' : s.rename past' (t.applyAll (written place data ++ [Change.rename a b])) temp path = .ok (c, e)) :
    t.Narrows (t.applyAll (written place data ++ [Change.rename a b, .rename c e])) := by
  have hmoved := h.narrows_first hr
  have hc := place?_of_narrows hmoved h.sibling (rename_eq_ok hr').1
  obtain rfl : mark = c := Option.some.inj (h.place?_temp.symm.trans hc)
  exact hmoved.trans (narrows_rename h.sibling h.stands.self hr' (h.mark_dead.narrows hmoved))

theorem narrows (h : s.Opened t x path temp backup first d entry later source id mark place)
    {a : Attempt} (ha : Produced s past t path temp backup place made a) :
    t.Narrows (t.applyAll a.changes) := by
  cases ha with
  | @discarded notes f lost hf hlost =>
    have hgone := (narrows_written t place made.output.data).trans
      (Tree.narrows_removals (h.not_directory_written _) (h.eq_remove (hlost.discard past f)))
    rwa [← Tree.applyAll_append, ← List.append_assoc] at hgone
  | unmoved => exact narrows_written t place made.output.data
  | halfway _ hfirst _ => exact h.narrows_first hfirst
  | done _ hfirst hsecond => exact h.narrows_second hfirst hsecond

end Opened

section OneFile

theorem Finds.exists_file (h : s.Finds t path way id) : ∃ q ∈ way, t.find? q = some (.file id) := by
  obtain ⟨links, place, rfl, -, hfile⟩ := h
  exact ⟨place, by simp, hfile⟩

end OneFile

section Run

/-- Nothing that is written in the course of these attempts goes to the file. -/
def WriteAside (s : Site) (o : Options) (x : Suffixes) (id : Nat) (past : List Syscall) (t : Tree) :
    List Path → Prop
  | [] => True
  | path :: paths =>
    (∀ q ∈ s.writtenPlaces t x path, t.find? q ≠ some (.file id)) ∧
    s.WriteAside o x id (past ++ (s.attempt o x past t path).calls)
      (t.applyAll (s.attempt o x past t path).changes) paths

instance WriteAside.decidable (s : Site) (o : Options) (x : Suffixes) (id : Nat) (past : List Syscall)
    (t : Tree) : (paths : List Path) → Decidable (s.WriteAside o x id past t paths)
  | [] => .isTrue True.intro
  | path :: paths =>
    have := WriteAside.decidable s o x id (past ++ (s.attempt o x past t path).calls)
      (t.applyAll (s.attempt o x past t path).changes) paths
    inferInstanceAs (Decidable (_ ∧ _))

end Run

-- A link is not enough of a backup if the file behind it is annotated later.
example :
    let s : Site := { here := [] }
    let t : Tree :=
      ⟨[([Name.ofText (.ofString "a.c")], .file 0),
          ([Name.ofText (.ofString "l.c")], .link ⟨false, [Name.ofText (.ofString "a.c")]⟩)], [(0, [105])]⟩
    let run := s.command Settings.loader t [] { files := ["l.c", "a.c"].map .ofString }
    run.result = .ok .ok ∧ s.Holds t (Path.ofString "l.c") [105] ∧
      ¬ s.Stored (t.applyAll run.changes) {} (Path.ofString "l.c") [105] := by
  refine ⟨by decide +kernel, by decide +kernel, ?_⟩
  rintro (h | ⟨backup, hbackup, h⟩)
  · exact absurd h (by decide +kernel)
  · cases hbackup
    exact absurd h (by decide +kernel)

end Site

end DocBlock
