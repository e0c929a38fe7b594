import Mathlib
import DocBlock.Command
import DocBlock.Proofs.Retention

/-! What a replacement that succeeds leaves behind in a tree of files and directories: the original at
its backup, the annotated bytes in its place, no temporary file, and everything else as it was. This
is so unless the temporary file and the backup are one, or other names of their files are in the way. -/

namespace DocBlock

def Entry.isPlain : Entry → Bool
  | file _ | directory => true
  | link _ | fullDevice => false

namespace Tree

variable {t u : Tree} {p q r e b m : Place} {id i j : Nat} {names : List Name} {links : List Place}

/-- The tree holds files and directories only. -/
def Plain (t : Tree) : Prop := ∀ e ∈ t.entries, e.2.isPlain = true
  deriving Decidable

theorem Plain.cases (h : t.Plain) (q : Place) :
    t.find? q = none ∨ t.find? q = some .directory ∨ ∃ id, t.find? q = some (.file id) := by
  unfold find?
  split
  · exact .inr (.inl rfl)
  · cases hq : t.entries.find? (·.1 = q) with
    | none => exact .inl rfl
    | some a =>
      have ha := h a (List.mem_of_find?_eq_some hq)
      obtain ⟨place, entry⟩ := a
      cases entry with
      | file id => exact .inr (.inr ⟨id, rfl⟩)
      | directory => exact .inr (.inl rfl)
      | link | fullDevice => cases ha

/-- No place has a link. -/
def NoLinks (t : Tree) : Prop := ∀ q target, t.find? q ≠ some (.link target)

theorem Plain.noLinks (h : t.Plain) : t.NoLinks := by
  intro q target
  rcases h.cases q with hq | hq | ⟨id, hq⟩ <;> simp [hq]

theorem NoLinks.links_eq (h : t.NoLinks) (hway : t.Leads p names links q) : links = [] := by
  by_contra hne
  obtain ⟨r, rest, rfl⟩ := List.exists_cons_of_ne_nil hne
  obtain ⟨target, hlink⟩ := hway.find?_of_mem List.mem_cons_self
  exact h r target hlink

theorem NoLinks.create (h : t.NoLinks) (p : Place) : (t.create p).NoLinks := by
  intro q target
  rw [find?_create]
  split
  · simp
  · exact h q target

theorem NoLinks.rename (h : t.NoLinks) {entry : Entry} (hp : t.find? p = some entry)
    (hdir : entry ≠ .directory) (hq : t.isDirectory q = false) : (t.rename p q).NoLinks := by
  intro r target
  rw [find?_rename hp hdir hq]
  split
  · exact h r target
  · split
    · rw [← hp]
      exact h p target
    · split
      · simp
      · exact h r target

theorem isSameFile_of_find? (hp : t.find? p = some (.file i)) :
    t.isSameFile p q = true ↔ t.find? q = some (.file i) := by
  rw [isSameFile_iff]
  constructor
  · rintro ⟨k, hk, hq⟩
    rw [hp] at hk
    cases hk
    exact hq
  · exact fun hq => ⟨i, hp, hq⟩

/-- What is where after a file has been moved from `e` to `b` and another from `m` to `e`. If all three
are names of one file, nothing happens. -/
theorem find?_moved (he : u.find? e = some (.file i)) (hm : u.find? m = some (.file j))
    (hb : u.isDirectory b = false) (hem : e ≠ m) (heb : e ≠ b) (hmb : m ≠ b) (r : Place) :
    ((u.rename e b).rename m e).find? r =
      if i = j ∧ u.find? b = some (.file i) then u.find? r
      else if r = e then some (.file j) else if r = m then none
      else if r = b then some (.file i) else u.find? r := by
  have hedir := isDirectory_of_find? he (by simp)
  have hfirst := find?_rename he (by simp) hb
  have hsame := isSameFile_of_find? he (q := b)
  have hm' : (u.rename e b).find? m = some (.file j) := by
    rw [hfirst, if_neg hmb, if_neg hem.symm, hm]
    simp
  have hedir' : (u.rename e b).isDirectory e = false := by
    rw [isDirectory_rename he (by simp) hb, hedir]
  rw [find?_rename hm' (by simp) hedir']
  by_cases hbi : u.find? b = some (.file i)
  · -- The first move leaves both names where they are.
    have hsame' := hsame.mpr hbi
    simp only [hfirst, hsame', if_true, hbi, and_true]
    have hsecond : (u.rename e b).isSameFile m e = true ↔ i = j := by
      rw [isSameFile_iff]
      simp only [hm', hfirst, hsame', if_true, he, Option.some.injEq, Entry.file.injEq]
      exact ⟨fun ⟨k, hj, hi⟩ => hi.trans hj.symm, fun h => ⟨j, rfl, h⟩⟩
    by_cases hij : i = j
    · rw [if_pos (hsecond.mpr hij), if_pos hij]
    · rw [if_neg (by rw [hsecond]; exact hij), if_neg hij]
      split
      · rfl
      · split
        · rfl
        · split
          · next hrb => rw [hrb, hbi]
          · rfl
  · have hnot : u.isSameFile e b = false := by
      rw [Bool.eq_false_iff]
      exact fun h => hbi (hsame.mp h)
    have hgone : (u.rename e b).find? e = none := by
      rw [hfirst, hnot, if_neg heb, if_pos rfl]
      simp
    have hnot' : (u.rename e b).isSameFile m e = false := by simp [isSameFile, hgone]
    simp only [hnot', hbi, and_false, if_false, hfirst, hnot, Bool.false_eq_true]
    split
    · rfl
    · next hre =>
      split
      · rfl
      · split
        · rfl
        · rfl

end Tree

/-- The same surroundings, where nothing breaks down. -/
def Site.steady (s : Site) : Site := { s with breaksDown := fun _ _ => none }

/-- Annotating nothing gives nothing. -/
theorem annotateBytes_nil (c : Codec) (o : Options) (plate : Option Boilerplate.Reading) :
    annotateBytes c o plate [] = {} := by
  rw [annotateBytes, c.decode_nil]
  rfl

namespace Site

variable {s : Site} {past : List Syscall} {t t' opened after : Tree} {o : Options} {x : Suffixes}
  {path temp backup q : Path} {place entry d source mark b : Place} {first later : List Place}
  {id : Nat} {c : Codec} {plate : Option Boilerplate.Reading} {data bytes : Bytes} {notes : List Note}

theorem annotateInput_steady (hcodec : Encoding.spelled o.encoding >>= s.codec = .ok c)
    (hplate : s.boilerplate? past t o = .ok plate) (bytes : Bytes) :
    (s.steady.annotateInput past t o bytes).output = (annotateBytes c o plate bytes).data ∧
    ((annotateBytes c o plate bytes).fault = none →
      (s.steady.annotateInput past t o bytes).result = .ok .ok) := by
  have hcodec' : Encoding.spelled o.encoding >>= s.steady.codec = .ok c := hcodec
  have hplate' : s.steady.boilerplate? past t o = .ok plate := hplate
  unfold annotateInput
  rw [hcodec', hplate']
  refine ⟨rfl, fun hfault => ?_⟩
  simp [steady, hfault, Run.after]

/-- What a replacement is to leave behind once it has succeeded: the original at its backup, what
annotating the original as standard input gives in its place, no temporary file, and everything else
as it was. The boilerplate is read in the tree `opened`. -/
structure Replaced (s : Site) (past : List Syscall) (t opened after : Tree) (o : Options) (x : Suffixes)
    (path backup : Path) : Prop where
  sibling : path.addSuffix x.backup = .ok backup
  contents : ∃ original, s.Holds t path original ∧ s.Holds after backup original ∧
    (s.steady.annotateInput past opened o original).result = .ok .ok ∧
    s.Holds after path (s.steady.annotateInput past opened o original).output
  absent : ∀ temp, path.addSuffix x.temp = .ok temp → s.sight? after temp = none
  others : ∀ q, s.place? t path ≠ some q → s.place? t backup ≠ some q →
    (∀ temp, path.addSuffix x.temp = .ok temp → s.place? t temp ≠ some q) →
    after.sight? q = t.sight? q

/-- Nothing is in the way of a replacement, of a file at `entry` through `mark` to `b`: these are two
places, not both of them other names of the file; one that shares its file with the temporary name is
empty; and any further name of the temporary file holds what is written anyway. -/
structure Unobstructed (t : Tree) (entry mark b : Place) (data : Bytes) : Prop where
  distinct : mark ≠ b
  free : ¬ (t.isSameFile entry mark = true ∧ t.isSameFile entry b = true)
  empty : t.isSameFile entry mark = true → t.bytes? entry = some []
  others : ∀ q, q ≠ entry → q ≠ mark → q ≠ b → t.isSameFile q mark = true → t.bytes? q = some data

theorem noLinks_written (ht : t.NoLinks) (place : Place) (data : Bytes) :
    (t.applyAll (written place data)).NoLinks := by
  intro q target
  change ((t.create place).write place data).find? q ≠ _
  rw [Tree.find?_write]
  exact ht.create place q target

/-- Without links on the way, a directory is where it was as long as all are. -/
theorem Houses.of_directories (h : s.Houses t path [] d) (hd : t.isDirectory d = true)
    (hdirs : ∀ q, t'.isDirectory q = t.isDirectory q) : s.Houses t' path [] d := by
  refine ⟨by simp, h.leads.congr (fun q hq => (hdirs q).trans hq) (by simp) ?_⟩
  have hd' := (hdirs d).trans hd
  simp only [Tree.isDirectory, decide_eq_true_eq] at hd'
  simp [hd']

/-- The file has been moved from `entry` to `b`, and the temporary file, which holds `data`, from `mark`
to `entry`. -/
structure Swapped (t after : Tree) (entry mark b : Place) (id j : Nat) (data : Bytes) : Prop where
  free : ¬ (id = j ∧ t.find? b = some (.file id))
  find : ∀ r, after.find? r = if r = entry then some (.file j) else if r = mark then none
    else if r = b then some (.file id) else t.find? r
  content : after.content j = data
  contents : ∀ i q, t.find? q = some (.file i) → i ≠ j → after.content i = t.content i

/-- Whether that is as it should be depends on the other names of the files alone. -/
theorem Swapped.iff_unobstructed {j : Nat} {result : Except Fault ExitCode} {output : Bytes}
    (h : Swapped t after entry mark b id j data) (hentry : t.find? entry = some (.file id))
    (hem : entry ≠ mark) (heb : entry ≠ b) (hmb : mark ≠ b)
    (hsame : ∀ q, q ≠ mark → (t.find? q = some (.file j) ↔ t.isSameFile q mark = true))
    (hempty : id = j → data = [])
    (hout : (id = j → t.content id = []) → result = .ok .ok ∧ output = data) :
    ((after.bytes? b = some (t.content id) ∧ result = .ok .ok ∧ after.bytes? entry = some output) ∧
      after.find? mark = none ∧ ∀ q, q ≠ entry → q ≠ mark → q ≠ b → after.sight? q = t.sight? q) ↔
    Unobstructed t entry mark b output := by
  have hsame_entry : t.isSameFile entry mark = true ↔ id = j := by
    rw [← hsame entry hem, hentry]
    simp
  have hsame_b := Tree.isSameFile_of_find? hentry (q := b)
  have hb : after.bytes? b = some (after.content id) := by
    have hfind : after.find? b = some (.file id) := by
      rw [h.find, if_neg heb.symm, if_neg hmb.symm, if_pos rfl]
    simp [Tree.bytes?, hfind]
  have hnew : after.bytes? entry = some data := by
    have hfind : after.find? entry = some (.file j) := by rw [h.find, if_pos rfl]
    simp [Tree.bytes?, hfind, h.content]
  have hmark : after.find? mark = none := by rw [h.find, if_neg hem.symm, if_pos rfl]
  have hother {q : Place} (hqe : q ≠ entry) (hqm : q ≠ mark) (hqb : q ≠ b) :
      after.find? q = t.find? q := by
    rw [h.find, if_neg hqe, if_neg hqm, if_neg hqb]
  constructor
  · rintro ⟨⟨hkept, -, hdata⟩, -, hothers⟩
    have hdata : data = output := Option.some.inj (hnew.symm.trans hdata)
    have hkept : after.content id = t.content id := Option.some.inj (hb.symm.trans hkept)
    refine ⟨hmb, fun hboth => h.free ⟨hsame_entry.mp hboth.1, hsame_b.mp hboth.2⟩, fun hshared => ?_,
      fun q hqe hqm hqb hshared => ?_⟩
    · have hij := hsame_entry.mp hshared
      have hcontent : t.content id = [] := by rw [← hkept, hij, h.content, hempty hij]
      simp [Tree.bytes?, hentry, hcontent]
    · have hq := (hsame q hqm).mpr hshared
      have hcontent := Tree.content_eq_of_sight? (hothers q hqe hqm hqb) hq
      rw [h.content, hdata] at hcontent
      simp [Tree.bytes?, hq, hcontent]
  · intro hu
    have hread (hij : id = j) : t.content id = [] := by
      have hbytes := hu.empty (hsame_entry.mpr hij)
      simpa [Tree.bytes?, hentry] using hbytes
    obtain ⟨hresult, rfl⟩ := hout hread
    refine ⟨⟨?_, hresult, hnew⟩, hmark, fun q hqe hqm hqb => ?_⟩
    · rw [hb]
      by_cases hij : id = j
      · rw [hread hij, hij, h.content, hempty hij]
      · rw [h.contents id entry hentry hij]
    · refine Tree.sight?_congr (hother hqe hqm hqb) fun i hi => ?_
      by_cases hij : i = j
      · rw [hij] at hi ⊢
        have hbytes := hu.others q hqe hqm hqb ((hsame q hqm).mp hi)
        rw [h.content]
        simpa [Tree.bytes?, hi, eq_comm] using hbytes
      · exact h.contents i q hi hij

namespace Opened

/-- Without links, the files are at the places of their paths. -/
theorem of_noLinks (h : s.Opened t x path temp backup first d entry later source id mark place)
    (ht : t.NoLinks) : first = [] ∧ later = [] ∧ entry = source ∧ place = mark := by
  have hfirst := ht.links_eq h.stands.houses.leads
  have hlater := ht.links_eq h.stands.last
  have hmem := h.stands.entry_mem
  rw [hlater] at hmem
  exact ⟨hfirst, hlater, by simpa using hmem, h.place_eq (ht mark)⟩

/-- The file that the temporary name has once it is open. It may have other names. -/
theorem exists_file (h : s.Opened t x path temp backup [] d entry [] entry id mark mark) (ht : t.Plain) :
    ∃ j, (t.create mark).find? mark = some (.file j) ∧ (t.create mark).content j = [] ∧
      ∀ q, q ≠ mark → (t.find? q = some (.file j) ↔ t.isSameFile q mark = true) := by
  rcases ht.cases mark with hmark | hmark | ⟨j, hmark⟩
  · refine ⟨t.fresh, by simp [Tree.find?_create, hmark], ?_, fun q _ => ?_⟩
    · simp [Tree.create, hmark]
    · constructor
      · exact fun hq => absurd rfl (Tree.ne_fresh hq)
      · intro hsame
        obtain ⟨i, -, hi⟩ := Tree.isSameFile_iff.mp hsame
        rw [hmark] at hi
        cases hi
  · have hdir := h.mark_not_directory
    simp [Tree.isDirectory, hmark] at hdir
  · refine ⟨j, by simp [Tree.find?_create, hmark], ?_, fun q _ => ?_⟩
    · simp [Tree.create, Tree.write, hmark]
    · rw [Tree.isSameFile_iff]
      constructor
      · exact fun hq => ⟨j, hq, hmark⟩
      · rintro ⟨i, hi, hmark'⟩
        rw [hmark] at hmark'
        cases hmark'
        exact hi

/-- Opening the temporary file changes no other file. -/
theorem content_opened {i j : Nat} {q : Place} (hj : (t.create mark).find? mark = some (.file j))
    (hq : t.find? q = some (.file i)) (hij : i ≠ j) : (t.create mark).content i = t.content i := by
  refine Tree.content_create_of_ne hq fun hi => ?_
  rw [Tree.find?_create, hi] at hj
  simp at hj
  exact hij hj

/-- Nor does writing it. -/
theorem content_written {i j : Nat} {q : Place} (hj : (t.create mark).find? mark = some (.file j))
    (hq : t.find? q = some (.file i)) (hij : i ≠ j) :
    (t.applyAll (written mark data)).content i = t.content i := by
  refine (Tree.content_write_of_ne ?_).trans (content_opened hj hq hij)
  change (t.create mark).find? mark ≠ some (.file i)
  rw [hj]
  simpa using hij.symm

theorem find?_written_self {j : Nat} (hj : (t.create mark).find? mark = some (.file j)) (data : Bytes) :
    (t.applyAll (written mark data)).find? mark = some (.file j) :=
  (Tree.find?_write _ mark data mark).trans hj

/-- The renames move files, and no bytes. -/
theorem content_ended (t : Tree) (mark : Place) (data : Bytes) (a b c e : Place) (i : Nat) :
    (t.applyAll (written mark data ++ [Change.rename a b, .rename c e])).content i =
      (t.applyAll (written mark data)).content i :=
  (Tree.content_rename _ c e i).trans (Tree.content_rename _ a b i)

/-- Both renames have been made. -/
theorem ended (h : s.Opened t x path temp backup [] d entry [] entry id mark mark) (ht : t.NoLinks)
    {past' : List Syscall} {a b c e : Place}
    (hfirst : s.rename past (t.applyAll (written mark data)) path backup = .ok (a, b))
    (hsecond : s.rename past' (t.applyAll (written mark data ++ [Change.rename a b])) temp path =
      .ok (c, e)) :
    a = entry ∧ c = mark ∧ e = entry ∧ s.place? t backup = some b ∧ t.isDirectory b = false ∧
      (t.applyAll (written mark data ++ [Change.rename a b, .rename c e])).NoLinks ∧
      ∀ q, (t.applyAll (written mark data ++ [Change.rename a b, .rename c e])).isDirectory q =
        t.isDirectory q := by
  have hd := h.stands.isDirectory
  have hsibling := (Path.addSuffix_eq_ok h.backup_eq).2.1
  obtain ⟨ha, hb, ⟨ea, hea, headir⟩, hbdir⟩ := rename_eq_ok hfirst
  have hhouses := h.stands.houses.of_directories hd (isDirectory_written t mark data)
  obtain ⟨-, ha⟩ := (hhouses.place?_eq h.stands.self).mp ha
  obtain ⟨hsound, hb⟩ := (hhouses.place?_eq hsibling).mp hb
  obtain rfl := Tree.step_unique ha h.stands.step
  have hdirs (q : Place) : (t.applyAll (written mark data ++ [Change.rename a b])).isDirectory q =
      t.isDirectory q :=
    (Tree.isDirectory_rename hea headir hbdir q).trans (isDirectory_written t mark data q)
  obtain ⟨hc, he, ⟨ec, hec, hecdir⟩, hedir⟩ := rename_eq_ok hsecond
  have hhouses' := h.stands.houses.of_directories hd hdirs
  obtain ⟨-, hc⟩ := (hhouses'.place?_eq h.sibling).mp hc
  obtain ⟨-, he⟩ := (hhouses'.place?_eq h.stands.self).mp he
  obtain rfl := Tree.step_unique hc h.step_temp
  obtain rfl := Tree.step_unique he h.stands.step
  have hlinks := (noLinks_written ht c data).rename hea headir hbdir
  refine ⟨rfl, rfl, rfl, ?_, ?_, hlinks.rename hec hecdir hedir, fun q => ?_⟩
  · exact (h.stands.houses.place?_eq hsibling).mpr ⟨hsound, step_written.mp hb⟩
  · rwa [isDirectory_written] at hbdir
  · exact (Tree.isDirectory_rename hec hecdir hedir q).trans (hdirs q)

/-- Success in terms of places. -/
theorem replaced_iff (h : s.Opened t x path temp backup [] d entry [] entry id mark mark)
    (ht : t.NoLinks) (hb : s.place? t backup = some b) (hlinks : after.NoLinks)
    (hdirs : ∀ q, after.isDirectory q = t.isDirectory q) :
    s.Replaced past t opened after o x path backup ↔
      (after.bytes? b = some (t.content id) ∧
        (s.steady.annotateInput past opened o (t.content id)).result = .ok .ok ∧
        after.bytes? entry = some (s.steady.annotateInput past opened o (t.content id)).output) ∧
      after.find? mark = none ∧ ∀ q, q ≠ entry → q ≠ mark → q ≠ b → after.sight? q = t.sight? q := by
  have hsibling := (Path.addSuffix_eq_ok h.backup_eq).2.1
  obtain ⟨hsound, hstep⟩ := (h.stands.houses.place?_eq hsibling).mp hb
  have hhouses := h.stands.houses.of_directories h.stands.isDirectory hdirs
  have hsteps {n : Name} {r : Place} (hr : t.step d n = .ok r) : after.step d n = .ok r :=
    Tree.step_congr hr fun q hq => (hdirs q).trans hq
  have hsource (bytes : Bytes) : s.Holds t path bytes ↔ t.content id = bytes := by
    rw [h.stands.houses.holds_iff h.stands.self h.stands.sound h.stands.step (ht entry)]
    simp [Tree.bytes?, h.stands.file]
  have hpath (bytes : Bytes) : s.Holds after path bytes ↔ after.bytes? entry = some bytes :=
    hhouses.holds_iff h.stands.self h.stands.sound (hsteps h.stands.step) (hlinks entry)
  have hbackup (bytes : Bytes) : s.Holds after backup bytes ↔ after.bytes? b = some bytes :=
    hhouses.holds_iff hsibling hsound (hsteps hstep) (hlinks b)
  have htemp : s.sight? after temp = none ↔ after.find? mark = none := by
    have hmark := (hhouses.place?_eq h.sibling).mpr ⟨h.sound_temp, hsteps h.step_temp⟩
    rw [sight?, hmark, Option.bind_some, Tree.sight?, Option.map_eq_none_iff]
  constructor
  · rintro ⟨-, ⟨original, hold, hkept, hresult, hnew⟩, habsent, hothers⟩
    obtain rfl := (hsource original).mp hold
    refine ⟨⟨(hbackup _).mp hkept, hresult, (hpath _).mp hnew⟩, htemp.mp (habsent temp h.temp_eq), ?_⟩
    intro q hqe hqm hqb
    refine hothers q ?_ ?_ fun temp' htemp' => ?_
    · rw [h.stands.place?_self]
      simpa using hqe.symm
    · rw [hb]
      simpa using hqb.symm
    · obtain rfl : temp = temp' := Except.ok.inj (h.temp_eq.symm.trans htemp')
      rw [h.place?_temp]
      simpa using hqm.symm
  · rintro ⟨⟨hkept, hresult, hnew⟩, habsent, hothers⟩
    refine ⟨h.backup_eq, ⟨t.content id, (hsource _).mpr rfl, (hbackup _).mpr hkept, hresult,
      (hpath _).mpr hnew⟩, fun temp' htemp' => ?_, fun q hqe hqb hqm => ?_⟩
    · obtain rfl : temp = temp' := Except.ok.inj (h.temp_eq.symm.trans htemp')
      exact htemp.mpr habsent
    · refine hothers q ?_ ?_ ?_
      · rintro rfl
        exact hqe h.stands.place?_self
      · rintro rfl
        exact hqm temp h.temp_eq h.place?_temp
      · rintro rfl
        exact hqb hb

/-- Where everything is after both renames. All of it stays where it was if both siblings are other
names of the file. -/
theorem find?_ended (h : s.Opened t x path temp backup [] d entry [] entry id mark mark)
    (hb : s.place? t backup = some b) (hbdir : t.isDirectory b = false) {j : Nat}
    (hj : (t.create mark).find? mark = some (.file j)) (hmb : mark ≠ b) (data : Bytes) (r : Place) :
    (t.applyAll (written mark data ++ [Change.rename entry b, .rename mark entry])).find? r =
      if id = j ∧ t.find? b = some (.file id) then (t.applyAll (written mark data)).find? r
      else if r = entry then some (.file j) else if r = mark then none
      else if r = b then some (.file id) else t.find? r := by
  have hem := h.entry_ne_mark
  have heb := h.entry_ne_backup hb
  have hentry := (find?_written_of_ne hem data).trans h.stands.file
  have hbdir' : (t.applyAll (written mark data)).isDirectory b = false := by
    rw [isDirectory_written, hbdir]
  have hmoved := Tree.find?_moved hentry (find?_written_self hj data) hbdir' hem heb hmb r
  rw [find?_written_of_ne hmb.symm] at hmoved
  change (((t.applyAll (written mark data)).rename entry b).rename mark entry).find? r = _
  rw [hmoved]
  by_cases hr : r = mark
  · rw [hr]
    simp [hem.symm]
  · rw [find?_written_of_ne hr]

/-- Both renames leave what they should exactly if nothing is in the way. -/
theorem replaced_iff_unobstructed
    (h : s.Opened t x path temp backup [] d entry [] entry id mark mark) (ht : t.Plain)
    (hb : s.place? t backup = some b) (hbdir : t.isDirectory b = false)
    (hcodec : Encoding.spelled o.encoding >>= s.codec = .ok c)
    (hplate : s.boilerplate? past (t.create mark) o = .ok plate)
    (hfault : (annotateBytes c o plate ((t.create mark).content id)).fault = none)
    (hdata : (annotateBytes c o plate ((t.create mark).content id)).data = data)
    (hafter : after = t.applyAll (written mark data ++ [Change.rename entry b, .rename mark entry]))
    (hlinks : after.NoLinks) (hdirs : ∀ q, after.isDirectory q = t.isDirectory q) :
    s.Replaced past t (t.create mark) after o x path backup ↔
      Unobstructed t entry mark b
        (s.steady.annotateInput past (t.create mark) o (t.content id)).output := by
  obtain ⟨hout, hok⟩ := annotateInput_steady hcodec hplate (t.content id)
  obtain ⟨j, hj, hempty, hsame⟩ := h.exists_file ht
  have hem := h.entry_ne_mark
  have heb := h.entry_ne_backup hb
  rw [h.replaced_iff ht.noLinks hb hlinks hdirs]
  by_cases hmb : mark = b
  · -- The temporary file is gone, so there is no backup.
    refine iff_of_false ?_ fun hu => hu.distinct hmb
    rintro ⟨⟨hkept, -⟩, habsent, -⟩
    obtain ⟨i, hi, -⟩ := Tree.bytes?_eq_some.mp hkept
    rw [← hmb, habsent] at hi
    cases hi
  have hfind := h.find?_ended hb hbdir hj hmb data
  rw [← hafter] at hfind
  by_cases hstuck : id = j ∧ t.find? b = some (.file id)
  · refine iff_of_false ?_ fun hu => hu.free ⟨(hsame entry hem).mp ?_, ?_⟩
    rotate_left
    · rw [h.stands.file, hstuck.1]
    · exact (Tree.isSameFile_of_find? h.stands.file).mpr hstuck.2
    rintro ⟨-, habsent, -⟩
    rw [hfind, if_pos hstuck, find?_written_self hj data] at habsent
    cases habsent
  have hswapped : Swapped t after entry mark b id j data := by
    refine ⟨hstuck, fun r => ?_, ?_, fun i q hq hij => ?_⟩
    · rw [hfind, if_neg hstuck]
    · rw [hafter, content_ended]
      exact Tree.content_write_self hj
    · rw [hafter, content_ended, content_written hj hq hij]
  refine hswapped.iff_unobstructed h.stands.file hem heb hmb hsame (fun hij => ?_) fun hread => ?_
  · rw [← hdata, hij, hempty, annotateBytes_nil]
  · -- What is read is the original, unless the temporary name has emptied it.
    have hsource : (t.create mark).content id = t.content id := by
      by_cases hij : id = j
      · rw [hij, hempty, ← hij, hread hij]
      · exact content_opened hj h.stands.file hij
    rw [hsource] at hfault hdata
    exact ⟨hok hfault, hout.trans hdata⟩

/-- If the temporary file and the backup are one, the file is back in its place and there is no backup. -/
theorem undone (h : s.Opened t x path temp backup [] d entry [] entry id mark mark) (ht : t.Plain)
    (hsame : ¬ t.isSameFile entry mark = true)
    (hafter : after = t.applyAll (written mark data ++ [Change.rename entry mark, .rename mark entry])) :
    after.sight? entry = t.sight? entry ∧ after.sight? mark = none := by
  obtain ⟨j, hj, -, hshared⟩ := h.exists_file ht
  have hem := h.entry_ne_mark
  have hij : id ≠ j := by
    rintro rfl
    exact hsame ((hshared entry hem).mp h.stands.file)
  have hentry : (t.applyAll (written mark data)).find? entry = t.find? entry :=
    find?_written_of_ne hem data
  have hmark := find?_written_self hj data
  have hnot : (t.applyAll (written mark data)).isSameFile entry mark = false := by
    rw [Bool.eq_false_iff, Ne, Tree.isSameFile_of_find? (hentry.trans h.stands.file), hmark]
    simpa using hij.symm
  have hback := Tree.find?_rename_back (hentry.trans h.stands.file) (by simp)
    (Tree.isDirectory_of_find? hmark (by simp)) hem hnot
  have hfind (r : Place) : after.find? r =
      if r = mark then none else (t.applyAll (written mark data)).find? r := by
    rw [hafter]
    exact hback r
  constructor
  · refine Tree.sight?_congr (by rw [hfind, if_neg hem, hentry]) fun i hi => ?_
    rw [h.stands.file] at hi
    cases hi
    rw [hafter, content_ended, content_written hj h.stands.file hij]
  · rw [Tree.sight?, hfind, if_pos rfl]
    rfl

/-- Where every file has one name, only the suffixes can be in the way. -/
theorem unobstructed_iff (h : s.Opened t x path temp backup [] d entry [] entry id mark mark)
    (hu : t.Unaliased) (hb : s.place? t backup = some b) (hbdir : t.isDirectory b = false)
    (data : Bytes) :
    Unobstructed t entry mark b data ↔ Name.ofText x.temp ≠ Name.ofText x.backup := by
  have hplaces : mark = b ↔ Name.ofText x.temp = Name.ofText x.backup := by
    obtain ⟨-, hstep⟩ := (h.stands.houses.place?_eq (Path.addSuffix_eq_ok h.backup_eq).2.1).mp hb
    rw [Tree.step_eq_append h.step_temp h.mark_not_directory, Tree.step_eq_append hstep hbdir,
      Path.lastName_addSuffix h.temp_eq, Path.lastName_addSuffix h.backup_eq]
    simp
  have hone {p q : Place} (hne : p ≠ q) : ¬ t.isSameFile p q = true := by
    intro hsame
    obtain ⟨i, hp, hq⟩ := Tree.isSameFile_iff.mp hsame
    exact hne (hu.eq_of_file hp hq)
  have hem := h.entry_ne_mark
  rw [Ne, ← hplaces]
  refine ⟨fun hclear => hclear.distinct, fun hne => ⟨hne, ?_, ?_, ?_⟩⟩
  · exact fun hboth => hone hem hboth.1
  · exact fun hshared => absurd hshared (hone hem)
  · exact fun q _ hqm _ hshared => absurd hshared (hone hqm)

/-- Opening the temporary file shows at no other name of another file. -/
theorem sight?_opened (h : s.Opened t x path temp backup [] d entry [] entry id mark mark) (ht : t.Plain)
    {q : Place} (hq : q ≠ mark) (hsame : ¬ t.isSameFile q mark = true) :
    (t.create mark).sight? q = t.sight? q := by
  obtain ⟨j, hj, -, hshared⟩ := h.exists_file ht
  refine Tree.sight?_congr ?_ fun i hi => content_opened hj hi ?_
  · rw [Tree.find?_create, if_neg fun hand => hq hand.1]
  · rintro rfl
    exact hsame ((hshared q hq).mp hi)

end Opened

/-- Where the boilerplate that the options ask for is. -/
def boilerplatePlace? (s : Site) (t : Tree) (o : Options) : Option Place := do
  let written ← o.boilerplatePath?
  let p ← (s.expandHome (Path.ofText written)).toOption
  s.reach? t p

theorem reach?_congr (ht : t.NoLinks) (ht' : t'.NoLinks)
    (hdirs : ∀ q, t'.isDirectory q = t.isDirectory q) (p : Path) : s.reach? t' p = s.reach? t p := by
  have hone {u u' : Tree} (hu : u.NoLinks) (hu' : u'.NoLinks)
      (hdirs : ∀ q, u.isDirectory q = true → u'.isDirectory q = true) {r : Place}
      (h : s.reach? u p = some r) : s.reach? u' p = some r := by
    obtain ⟨links, hsound, hfew, hleads⟩ := reach?_eq_some.mp h
    obtain rfl := hu.links_eq hleads
    exact reach?_eq_some.mpr ⟨[], hsound, hfew, hleads.congr hdirs (by simp) (hu' r)⟩
  ext r
  exact ⟨hone ht' ht fun q hq => (hdirs q).symm.trans hq, hone ht ht' fun q hq => (hdirs q).trans hq⟩

theorem locate_follow_congr {p : Path} (hreach : s.reach? t' p = s.reach? t p) {q : Place}
    (h : s.locate t.follow p = .ok q) : s.locate t'.follow p = .ok q := by
  rw [locate_follow_eq_ok, ← reach?_eq_some] at h ⊢
  exact hreach.trans h

/-- Opening a file to read depends on what is at the place that its path leads to. -/
theorem openRead_congr {p : Path} {f : Fault} (hreach : s.reach? t' p = s.reach? t p)
    (hfind : ∀ q, s.reach? t p = some q → t'.find? q = t.find? q) :
    (s.openRead past t' p).mapError (Trouble.fault f) =
      (s.openRead past t p).mapError (Trouble.fault f) := by
  unfold openRead ask
  cases hn : p.names with
  | error g => rfl
  | ok names =>
    cases hr : s.refuses past (.openRead p) with
    | some e => rfl
    | none =>
      simp only
      cases hl : s.locate t.follow p with
      | ok q =>
        rw [locate_follow_congr hreach hl]
        have hq := hfind q (reach?_eq_some.mpr (locate_follow_eq_ok.mp hl))
        simp only [bind, Except.bind, hq]
      | error e =>
        cases hl' : s.locate t'.follow p with
        | ok q =>
          rw [locate_follow_congr hreach.symm hl'] at hl
          cases hl
        | error e' =>
          -- The path can be handed over, so both errors are those of the system.
          have hsystem {u : Tree} {e : Trouble} (h : s.locate u.follow p = .error e) :
              e.fault f = f := by
            cases e with
            | path g =>
              rw [locate_path_error h] at hn
              cases hn
            | system e => rfl
          change Except.error (e'.fault f) = Except.error (e.fault f)
          rw [hsystem hl, hsystem hl']

/-- Reading the boilerplate depends on its file only. -/
theorem boilerplate?_congr (hreach : ∀ p, s.reach? t' p = s.reach? t p)
    (hsight : ∀ q, s.boilerplatePlace? t o = some q → t'.sight? q = t.sight? q) :
    s.boilerplate? past t' o = s.boilerplate? past t o := by
  unfold boilerplate?
  cases hw : o.boilerplatePath? with
  | none => rfl
  | some written =>
    simp only
    cases hp : s.expandHome (Path.ofText written) with
    | error f => rfl
    | ok p =>
      have hplace (q : Place) (hq : s.reach? t p = some q) : t'.sight? q = t.sight? q :=
        hsight q (by simp [boilerplatePlace?, hw, hp, hq, Except.toOption])
      have hopen : (s.openRead past t' p).mapError (Trouble.fault (.boilerplate p)) =
          (s.openRead past t p).mapError (Trouble.fault (.boilerplate p)) :=
        openRead_congr (hreach p) fun q hq => Tree.find?_eq_of_sight? (hplace q hq)
      have hread : s.readBoilerplate past t' o.encoding p = s.readBoilerplate past t o.encoding p := by
        unfold readBoilerplate
        rw [hopen]
        cases hid : (s.openRead past t p).mapError (Trouble.fault (.boilerplate p)) with
        | error g => rfl
        | ok id =>
          obtain ⟨links, q, hroute, hfile⟩ := openRead_eq_ok (Except.mapError_eq_ok.mp hid)
          have hcontent := Tree.content_eq_of_sight? (hplace q (reach?_eq_some.mpr ⟨links, hroute⟩)) hfile
          simp only [bind, Except.bind, hcontent]
      change Except.ok (some _) = Except.ok (some _)
      rw [hread]

/-- A successful replacement leaves what it should exactly if nothing is in the way; where every file
has one name, exactly if the suffixes have different names. If the temporary file and the backup are
one, the file is as it was and has no backup. The boilerplate is read when the temporary file has been
opened, so it is what it was unless it is this file. -/
theorem annotateInPlace_replaced_iff (ht : t.Plain)
    (h : (s.annotateInPlace past t o x path).result = .ok backup) :
    ∃ temp entry mark b original, path.addSuffix x.temp = .ok temp ∧ s.place? t path = some entry ∧
      s.place? t temp = some mark ∧ s.place? t backup = some b ∧ t.bytes? entry = some original ∧
      let calls := past ++ [.openRead path, .openWrite temp]
      let opened := t.apply (.create mark)
      let after := t.applyAll (s.annotateInPlace past t o x path).changes
      (s.Replaced calls t opened after o x path backup ↔
        Unobstructed t entry mark b (s.steady.annotateInput calls opened o original).output) ∧
      (t.Unaliased → (s.Replaced calls t opened after o x path backup ↔
        Name.ofText x.temp ≠ Name.ofText x.backup)) ∧
      (mark = b → ¬ t.isSameFile entry mark = true →
        after.sight? entry = t.sight? entry ∧ after.sight? b = none) ∧
      ((∀ q, s.boilerplatePlace? t o = some q → q ≠ mark ∧ ¬ t.isSameFile q mark = true) →
        s.boilerplate? calls opened o = s.boilerplate? calls t o) := by
  have htried := s.annotateInPlace_tried past t o x path
  generalize s.annotateInPlace past t o x path = a at h htried
  cases htried with
  | unnamed | unopened => cases h
  | opened htemp hbackup hopen hproduced =>
    obtain ⟨first, d, entry, later, source, mark, hopened, -⟩ :=
      exists_opened_of_openBoth hopen htemp hbackup
    obtain ⟨rfl, rfl, rfl, rfl⟩ := hopened.of_noLinks ht.noLinks
    cases hproduced with
    | discarded =>
      rcases discard_result hopened.sound_temp with hd | ⟨e, -, -, hd⟩ <;> exact nomatch h.symm.trans hd
    | unmoved | halfway => cases h
    | done hf hfirst hsecond =>
      cases h
      obtain ⟨plate, hplate, hout⟩ := process_eq (writeFault?_eq_none hf).1
      have hfault := (writeFault?_eq_none hf).1
      obtain ⟨rfl, rfl, rfl, hb, hbdir, hlinks, hdirs⟩ := hopened.ended ht.noLinks hfirst hsecond
      have hdata := congrArg Output.data hout.symm
      rw [hout] at hfault
      have hiff := hopened.replaced_iff_unobstructed ht hb hbdir (codec_of_openBoth hopen) hplate hfault
        hdata rfl hlinks hdirs
      have hstands := hopened.stands
      refine ⟨_, _, _, _, _, htemp, hstands.place?_self, hopened.place?_temp, hb,
        by simp [Tree.bytes?, hstands.file], hiff, fun hu => ?_, fun hmb hsame => ?_, fun hplates => ?_⟩
      · exact hiff.trans (hopened.unobstructed_iff hu hb hbdir _)
      · rw [← hmb]
        exact hopened.undone ht hsame rfl
      · refine boilerplate?_congr (reach?_congr ht.noLinks (ht.noLinks.create _)
          (Tree.isDirectory_create t _)) fun q hq => ?_
        exact hopened.sight?_opened ht (hplates q hq).1 (hplates q hq).2

/-- Earlier siblings are overwritten, and a boilerplate is added. -/
theorem annotateInPlace_replaced_siblings :
    let s : Site := { here := [] }
    let t : Tree :=
      ⟨[([Name.ofText (.ofString "a.c")], .file 0), ([Name.ofText (.ofString "a.c.tmp")], .file 1),
          ([Name.ofText (.ofString "a.c.bak")], .file 2), ([Name.ofText (.ofString "b")], .file 3)],
        [(0, [105]), (1, [111]), (2, [111]), (3, [66])]⟩
    let path := Path.ofString "a.c"
    let temp := Path.ofString "a.c.tmp"
    let backup := Path.ofString "a.c.bak"
    let o : Options := { boilerplate := some (.ofString "b") }
    t.Plain ∧ t.Unaliased ∧ (s.annotateInPlace [] t o {} path).result = .ok backup ∧
    s.Replaced [.openRead path, .openWrite temp] t
      (t.apply (.create [Name.ofText (.ofString "a.c.tmp")]))
      (t.applyAll (s.annotateInPlace [] t o {} path).changes) o {} path backup := by
  intro s t path temp backup o
  have ht : t.Plain := by decide
  have hu : t.Unaliased := by decide +kernel
  have h : (s.annotateInPlace [] t o {} path).result = .ok backup := by decide +kernel
  obtain ⟨temp', entry, mark, b, original, htemp, -, hmark, -, -, -, hiff, -⟩ :=
    annotateInPlace_replaced_iff ht h
  obtain rfl : temp = temp' := by
    have hnamed : path.addSuffix ({} : Suffixes).temp = .ok temp := by decide +kernel
    exact Except.ok.inj (hnamed.symm.trans htemp)
  obtain rfl : [Name.ofText (.ofString "a.c.tmp")] = mark := by
    have hplace : s.place? t temp = some [Name.ofText (.ofString "a.c.tmp")] := by decide +kernel
    exact Option.some.inj (hplace.symm.trans hmark)
  exact ⟨ht, hu, h, (hiff hu).mpr (by decide)⟩

/-- With one suffix for both, success is reported, but the file is as it was and has no backup. -/
theorem replacement_undone :
    let s : Site := { here := [] }
    let t : Tree := ⟨[([Name.ofText (.ofString "a.c")], .file 0)], [(0, [105])]⟩
    let path := Path.ofString "a.c"
    let backup := Path.ofString "a.c.bak"
    let a := s.annotateInPlace [] t {} ⟨.ofString ".bak", .ofString ".bak", by decide, by decide⟩ path
    a.result = .ok backup ∧ s.Holds (t.applyAll a.changes) path [105] ∧
      s.sight? (t.applyAll a.changes) backup = none ∧ (s.annotateInput [] t {} [105]).output ≠ [105] := by
  decide +kernel

-- A temporary name that is another name of the file empties it before it is read.
example :
    let s : Site := { here := [] }
    let t : Tree :=
      ⟨[([Name.ofText (.ofString "a.c")], .file 0), ([Name.ofText (.ofString "a.c.tmp")], .file 0)],
        [(0, [105])]⟩
    let a := s.annotateInPlace [] t {} {} (Path.ofString "a.c")
    a.result = .ok (Path.ofString "a.c.bak") ∧
      s.Holds (t.applyAll a.changes) (Path.ofString "a.c") [] ∧
      s.Holds (t.applyAll a.changes) (Path.ofString "a.c.bak") [] := by
  decide +kernel

end Site

end DocBlock
