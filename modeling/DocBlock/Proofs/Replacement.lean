import Mathlib
import DocBlock.Proofs.Siblings

/-! A file that is replaced is never lost. After every change its path or its backup leads to it, as
long as the siblings are not on the way to the file itself. -/

namespace DocBlock

namespace Tree

variable {t t' : Tree} {p d r entry target' source : Place} {n k : Name} {names : List Name}
  {first later : List Place} {id : Nat}

theorem step_unique (h : t.step d n = .ok p) (h' : t'.step d n = .ok r) : p = r :=
  (step_eq_ok.mp h).2.2.2.symm.trans (step_eq_ok.mp h').2.2.2

/-- What a name leads to is no directory; then nor is what it names. -/
theorem Leads.entry_not_directory (h : t.Leads d [n] later r) (hr : t.isDirectory r = false)
    (hstep : t.step d n = .ok entry) : t.isDirectory entry = false := by
  rcases h.last hstep with ⟨-, rfl, -⟩ | ⟨target, rest, -, hlink, -⟩
  · exact hr
  · exact isDirectory_of_find? hlink (by simp)

/-- Moving an entry and moving it back is seen nowhere but where it has been meanwhile. -/
theorem find?_rename_back {e : Entry} {q : Place} (he : t.find? p = some e) (hdir : e ≠ .directory)
    (hq : t.isDirectory q = false) (hne : p ≠ q) (hsame : t.isSameFile p q = false) (r : Place) :
    ((t.rename p q).rename q p).find? r = if r = q then none else t.find? r := by
  have hfind (r : Place) : (t.rename p q).find? r =
      if r = q then some e else if r = p then none else t.find? r := by
    rw [find?_rename he hdir hq, hsame]
    rfl
  have hmoved : (t.rename p q).find? q = some e := by rw [hfind, if_pos rfl]
  have hleft : (t.rename p q).find? p = none := by rw [hfind, if_neg hne, if_pos rfl]
  have hsame' : (t.rename p q).isSameFile q p = false := by simp [isSameFile, hleft]
  rw [find?_rename hmoved hdir (isDirectory_of_none hleft), hsame', if_neg (by simp)]
  by_cases hrp : r = p
  · rw [if_pos hrp, hrp, if_neg hne, he]
  · rw [if_neg hrp]
    split
    · rfl
    · next hrq => rw [hfind, if_neg hrq, if_neg hrp]

/-- No way to a directory goes by the link at this place. -/
def Dead (t : Tree) (entry : Place) : Prop :=
  ∀ p names links d, t.Leads p names links d → t.isDirectory d = true → entry ∉ links

/-- A name that leads to no directory is on the way to none. -/
theorem Leads.dead (h : t.Leads d [n] later r) (hr : t.isDirectory r = false)
    (hstep : t.step d n = .ok entry) : t.Dead entry := by
  intro p names links d' hlinks hd' hmem
  obtain ⟨target, rest, back, hlink, hback, -⟩ := hlinks.of_mem hmem
  rcases h.last hstep with ⟨-, -, hplain⟩ | ⟨target', rest', -, hlink', hq⟩
  · exact hplain target hlink
  · obtain rfl := Entry.link.inj (Option.some.inj (hlink.symm.trans hlink'))
    obtain ⟨one, m, two, -, hone, htwo⟩ := hback.split
    obtain ⟨-, rfl⟩ := hone.unique hq
    -- The way to the directory would go on from what is no directory.
    obtain rfl := htwo.eq_nil_of_not_directory hr
    cases htwo
    rw [hd'] at hr
    cases hr

theorem step_eq_append (h : t.step d n = .ok p) (hp : t.isDirectory p = false) : p = d ++ [n] := by
  rcases child_of_step h with hchild | hdir
  · exact hchild
  · rw [hp] at hdir
    cases hdir

theorem AvoidedBy.append {kept : List Place} {cs ds : List Change} (h : t.AvoidedBy kept id cs)
    (h' : (t.applyAll cs).AvoidedBy kept id ds) : t.AvoidedBy kept id (cs ++ ds) := by
  induction cs generalizing t with
  | nil => exact h'
  | cons c cs ih => exact ⟨h.1, ih h.2 h'⟩

theorem not_directory_removals {mark : Place} {cs : List Change} (hdir : t.isDirectory mark = false)
    (hcs : ∀ c ∈ cs, c = .remove mark) : (t.applyAll cs).isDirectory mark = false := by
  induction cs generalizing t with
  | nil => exact hdir
  | cons c cs ih =>
    rw [List.forall_mem_cons] at hcs
    obtain ⟨rfl, hcs⟩ := hcs
    exact ih ((isDirectory_erase hdir mark).trans hdir) hcs

/-- Removing what is at one place, where there is no directory, avoids all others. -/
theorem avoidedBy_removals {kept : List Place} {mark : Place} {cs : List Change} (hmark : mark ∉ kept)
    (hdir : t.isDirectory mark = false) (hcs : ∀ c ∈ cs, c = .remove mark) (id : Nat) :
    t.AvoidedBy kept id cs := by
  induction cs generalizing t with
  | nil => exact True.intro
  | cons c cs ih =>
    rw [List.forall_mem_cons] at hcs
    obtain ⟨rfl, hcs⟩ := hcs
    exact ⟨⟨hmark, hdir⟩, ih ((isDirectory_erase hdir mark).trans hdir) hcs⟩

/-- An entry that is moved within its directory leads where it led, under its new name. -/
theorem Leads.moved {b : Place} (h : t.Leads d [n] later source)
    (hfile : t.find? source = some (.file id)) (hentry : t.step d n = .ok entry)
    (hb : t.step d k = .ok b) (hbdir : t.isDirectory b = false) (hfree : b ∉ later ++ [source]) :
    ∃ later' source', (t.rename entry b).Leads d [k] later' source' ∧
      (t.rename entry b).find? source' = some (.file id) ∧ later'.length = later.length ∧
      ∀ q ∈ later' ++ [source'], q = b ∨ q ∈ later ++ [source] ∧ q ≠ entry := by
  have hsource := isDirectory_of_find? hfile (by simp)
  have hentrydir := h.entry_not_directory hsource hentry
  have havoids : Change.Avoids t [] id (.rename entry b) := ⟨by simp, by simp, hentrydir, hbdir⟩
  have hdirs := (spares_apply havoids).directories
  rcases h.last hentry with ⟨rfl, rfl, hplain⟩ | ⟨target, rest, rfl, hlink, hrest⟩
  · -- The file itself is moved.
    have hfind := find?_rename hfile (by simp) hbdir
    have hmoved : (t.rename source b).find? b = some (.file id) := by
      rw [hfind]
      split
      · next hsame =>
        obtain ⟨i, hi, hbi⟩ := isSameFile_iff.mp hsame
        rw [hfile] at hi
        cases hi
        exact hbi
      · rw [if_pos rfl]
    refine ⟨[], b, .step (step_congr hb hdirs) ?_ (.here b), hmoved, rfl, by simp⟩
    rw [hmoved]
    simp
  · -- A link is moved. It is followed from the same directory as before.
    rw [List.cons_append, List.mem_cons, not_or] at hfree
    have hnotsame : t.isSameFile entry b = false := by simp [isSameFile, hlink]
    have hfind (r : Place) : (t.rename entry b).find? r =
        if r = b then some (.link target) else if r = entry then none else t.find? r := by
      rw [find?_rename hlink (by simp) hbdir, hnotsame]
      rfl
    have hbase : target.base b = target.base entry := by
      rw [step_eq_append hb hbdir, step_eq_append hentry hentrydir]
      simp [Target.base]
    have hothers : ∀ q ∈ rest ++ [source], q ≠ entry := by
      rintro q hq rfl
      rcases List.mem_append.mp hq with hq | hq
      · exact Leads.notMem_of_link hlink hrest hq
      · rw [← List.mem_singleton.mp hq, hlink] at hfile
        cases hfile
    have hsame : ∀ q ∈ rest ++ [source], (t.rename entry b).find? q = t.find? q := by
      intro q hq
      rw [hfind, if_neg, if_neg (hothers q hq)]
      rintro rfl
      exact hfree.2 hq
    have hend := hsame source (by simp)
    rw [hfile] at hend
    have hway : (t.rename entry b).Leads (target.base b) (target.names ++ []) rest source := by
      rw [List.append_nil, hbase]
      exact hrest.congr hdirs (fun q hq => hsame q (by simp [hq])) (by simp [hend])
    refine ⟨b :: rest, source, .link (step_congr hb hdirs) (by simp [hfind]) hway, hend, by simp, ?_⟩
    intro q hq
    rw [List.cons_append, List.mem_cons] at hq
    exact hq.imp_right fun hq => ⟨List.mem_cons_of_mem _ hq, hothers q hq⟩

end Tree

namespace Site

variable {s : Site} {past : List Syscall} {t t' : Tree} {o : Options} {x : Suffixes}
  {path temp backup p q : Path} {place entry d source : Place} {first later links way kept : List Place}
  {id : Nat} {c : Codec} {made : Product} {data : Bytes}

/-- Each change takes away what stands at the path. -/
inductive Removes (s : Site) (p : Path) : Tree → List Change → Prop
  | nil (t : Tree) : Removes s p t []
  | cons {t : Tree} {q : Place} {cs : List Change} (hq : s.place? t p = some q)
    (h : Removes s p (t.apply (.remove q)) cs) : Removes s p t (.remove q :: cs)

theorem Removes.append {cs ds : List Change} (h : s.Removes p t cs)
    (h' : s.Removes p (t.applyAll cs) ds) : s.Removes p t (cs ++ ds) := by
  induction h with
  | nil => exact h'
  | cons hq _ ih => exact .cons hq (ih h')

theorem removes_losses (t : Tree) (p : Path) (made : Product) : s.Removes p t (s.losses t p made) := by
  unfold losses
  split
  · cases hq : s.place? t p with
    | none => exact .nil t
    | some q => exact .cons hq (.nil _)
  · exact .nil t

theorem removes_discard (past : List Syscall) (t : Tree) (p : Path) (f : Fault) :
    s.Removes p t (s.discard past t p f).changes := by
  unfold discard
  split
  · next q hq => exact .cons (remove_eq_ok hq).1 (.nil _)
  · exact .nil t
  · split <;> exact .nil t

/-- What discarding takes away is the last of it. -/
theorem Removes.discard {cs lost : List Change} (h : s.Removes p (t.applyAll cs) lost)
    (past : List Syscall) (f : Fault) : s.Removes p (t.applyAll cs)
      (lost ++ (s.discard past (t.applyAll (cs ++ lost)) p f).changes) := by
  rw [Tree.applyAll_append]
  exact h.append (removes_discard past _ p f)

/-- The changes by which output is written to a temporary file. -/
def written (place : Place) (data : Bytes) : List Change := [.create place, .fill place data]

theorem find?_written (t : Tree) (place : Place) (data : Bytes) (r : Place) :
    (t.applyAll (written place data)).find? r =
      if r = place ∧ t.find? place = none then some (.file t.fresh) else t.find? r := by
  change ((t.create place).write place data).find? r = _
  rw [Tree.find?_write, Tree.find?_create]

theorem find?_written_of_ne {r : Place} (h : r ≠ place) (data : Bytes) :
    (t.applyAll (written place data)).find? r = t.find? r := by
  rw [find?_written, if_neg fun hand => h hand.1]

theorem isDirectory_written (t : Tree) (place : Place) (data : Bytes) (r : Place) :
    (t.applyAll (written place data)).isDirectory r = t.isDirectory r := by
  change ((t.create place).write place data).isDirectory r = _
  rw [Tree.isDirectory, Tree.find?_write, ← Tree.isDirectory_create t place r, Tree.isDirectory]

/-- Writing to one file avoids another. -/
theorem avoidedBy_written {q : Place} (hq : t.find? q = some (.file id))
    (hfree : t.find? place ≠ some (.file id)) (data : Bytes) (kept : List Place) :
    t.AvoidedBy kept id (written place data) := by
  refine ⟨hfree, ?_, True.intro⟩
  change (t.create place).find? place ≠ some (.file id)
  rw [Tree.find?_create]
  split
  · intro he
    exact Tree.ne_fresh hq (by simpa [eq_comm] using he)
  · exact hfree

/-- The ways in which writing and moving a temporary file can end, with the changes made until then. -/
inductive Produced (s : Site) (past : List Syscall) (t : Tree) (path temp backup : Path) (place : Place)
    (made : Product) : Attempt → Prop
  | discarded {notes : List Note} {f : Fault} {lost : List Change}
    (hf : t.writeFault? place temp made.output = some f)
    (hlost : s.Removes temp (t.applyAll (written place made.output.data)) lost) :
    Produced s past t path temp backup place made
      ((s.discard past (t.applyAll (written place made.output.data ++ lost)) temp f).after
        (written place made.output.data ++ lost) [] notes)
  | unmoved {notes : List Note} {trouble : Trouble} (hf : t.writeFault? place temp made.output = none)
    (hfirst : s.rename past (t.applyAll (written place made.output.data)) path backup = .error trouble) :
    Produced s past t path temp backup place made
      ⟨written place made.output.data, [.rename path backup], notes,
        .error (trouble.fault (.backup path backup))⟩
  | halfway {notes : List Note} {a b : Place} {trouble : Trouble}
    (hf : t.writeFault? place temp made.output = none)
    (hfirst : s.rename past (t.applyAll (written place made.output.data)) path backup = .ok (a, b))
    (hsecond : s.rename (past ++ [.rename path backup])
      (t.applyAll (written place made.output.data ++ [.rename a b])) temp path = .error trouble) :
    Produced s past t path temp backup place made
      ⟨written place made.output.data ++ [.rename a b], [.rename path backup, .rename temp path], notes,
        .error (trouble.fault (.rename temp path))⟩
  | done {notes : List Note} {a b c d : Place} (hf : t.writeFault? place temp made.output = none)
    (hfirst : s.rename past (t.applyAll (written place made.output.data)) path backup = .ok (a, b))
    (hsecond : s.rename (past ++ [.rename path backup])
      (t.applyAll (written place made.output.data ++ [.rename a b])) temp path = .ok (c, d)) :
    Produced s past t path temp backup place made
      ⟨written place made.output.data ++ [.rename a b, .rename c d],
        [.rename path backup, .rename temp path], notes, .ok backup⟩

theorem produce_produced (past : List Syscall) (t : Tree) (path temp backup : Path) (place : Place)
    (made : Product) :
    Produced s past t path temp backup place made (s.produce past t path temp backup place made) := by
  unfold produce
  simp only
  split
  · next f hf => exact .discarded hf (s.removes_losses _ temp made)
  · next hf =>
    cases hfirst : s.rename past (t.applyAll [.create place, .fill place made.output.data]) path
        backup with
    | error trouble =>
      simp only [replace, hfirst]
      exact .unmoved hf hfirst
    | ok ab =>
      obtain ⟨a, b⟩ := ab
      cases hsecond : s.rename (past ++ [Syscall.rename path backup])
          ((t.applyAll [.create place, .fill place made.output.data]).apply (.rename a b)) temp path with
      | error trouble =>
        simp only [replace, hfirst, hsecond]
        exact .halfway hf hfirst hsecond
      | ok cd =>
        obtain ⟨c, d⟩ := cd
        simp only [replace, hfirst, hsecond]
        exact .done hf hfirst hsecond

/-- The ways in which annotating a file can go. -/
inductive Tried (s : Site) (past : List Syscall) (t : Tree) (o : Options) (x : Suffixes) (path : Path) :
    Attempt → Prop
  | unnamed {f : Fault} (h : path.addSuffix x.temp = .error f ∨ path.addSuffix x.backup = .error f) :
    Tried s past t o x path { result := .error f }
  | unopened {temp backup : Path} {f : Fault} (htemp : path.addSuffix x.temp = .ok temp)
    (hbackup : path.addSuffix x.backup = .ok backup)
    (h : s.openBoth past t o.encoding path temp = .error f) :
    Tried s past t o x path { calls := [.openRead path, .openWrite temp], result := .error f }
  | opened {temp backup : Path} {c : Codec} {id : Nat} {place : Place} {a : Attempt}
    (htemp : path.addSuffix x.temp = .ok temp) (hbackup : path.addSuffix x.backup = .ok backup)
    (hopen : s.openBoth past t o.encoding path temp = .ok (c, id, place))
    (h : Produced s (past ++ [.openRead path, .openWrite temp]) t path temp backup place
      (s.process (past ++ [.openRead path, .openWrite temp]) (t.apply (.create place)) o path temp c
        ((t.apply (.create place)).content id)) a) :
    Tried s past t o x path (a.after [] [.openRead path, .openWrite temp] [])

theorem annotateInPlace_tried (past : List Syscall) (t : Tree) (o : Options) (x : Suffixes) (path : Path) :
    Tried s past t o x path (s.annotateInPlace past t o x path) := by
  unfold annotateInPlace
  split
  · next f hf => exact .unnamed (.inl hf)
  · next f _ hf => exact .unnamed (.inr hf)
  · next temp backup htemp hbackup =>
    simp only
    split
    · next f hf => exact .unopened htemp hbackup hf
    · next c id place hopen =>
      exact .opened htemp hbackup hopen (produce_produced _ t path temp backup place _)

/-- Both files are found, and the temporary one is no directory. -/
theorem openBoth_eq_ok {encoding : Text} (h : s.openBoth past t encoding path temp = .ok (c, id, place)) :
    (∃ links source, s.Route t path links source ∧ t.find? source = some (.file id)) ∧
    (∃ links, s.Route t temp links place) ∧ t.isDirectory place = false := by
  obtain ⟨name, -, h⟩ := Except.bind_eq_ok.mp h
  obtain ⟨id', hread, h⟩ := Except.bind_eq_ok.mp h
  obtain ⟨c', -, h⟩ := Except.bind_eq_ok.mp h
  obtain ⟨place', hwrite, h⟩ := Except.bind_eq_ok.mp h
  cases h
  exact ⟨openRead_eq_ok (Except.mapError_eq_ok.mp hread),
    openWrite_eq_ok (Except.mapError_eq_ok.mp hwrite)⟩

theorem codec_of_openBoth {encoding : Text}
    (h : s.openBoth past t encoding path temp = .ok (c, id, place)) :
    Encoding.spelled encoding >>= s.codec = .ok c := by
  obtain ⟨name, hspelled, h⟩ := Except.bind_eq_ok.mp h
  obtain ⟨id', -, h⟩ := Except.bind_eq_ok.mp h
  obtain ⟨c', hcodec, h⟩ := Except.bind_eq_ok.mp h
  obtain ⟨place', -, h⟩ := Except.bind_eq_ok.mp h
  cases h
  exact Except.bind_eq_ok.mpr ⟨name, hspelled, hcodec⟩

/-- Along these places the path leads to the file. -/
def Finds (s : Site) (t : Tree) (p : Path) (way : List Place) (id : Nat) : Prop :=
  ∃ links place, way = links ++ [place] ∧ s.Route t p links place ∧ t.find? place = some (.file id)

theorem Finds.unique {way' : List Place} {id' : Nat} (h : s.Finds t p way id) (h' : s.Finds t p way' id') :
    way = way' ∧ id = id' := by
  obtain ⟨links, place, rfl, hroute, hfile⟩ := h
  obtain ⟨links', place', rfl, hroute', hfile'⟩ := h'
  obtain ⟨rfl, rfl⟩ := hroute.unique hroute'
  rw [hfile] at hfile'
  cases hfile'
  exact ⟨rfl, rfl⟩

/-- A way stays what it is where its places are spared. -/
theorem Finds.spared (h : s.Finds t p way id) (hs : t.Spares t' kept id) (hway : way ⊆ kept) :
    s.Finds t' p way id ∧ t'.content id = t.content id := by
  obtain ⟨links, place, rfl, ⟨hsound, hfew, hleads⟩, hfile⟩ := h
  have hend := hs.entries place (hway (by simp)) _ hfile
  refine ⟨⟨links, place, rfl, ⟨hsound, hfew, ?_⟩, hend⟩, hs.content place (hway (by simp)) hfile⟩
  refine hleads.congr hs.directories (fun q hq => ?_) (by simp [hend])
  obtain ⟨target, hlink⟩ := hleads.find?_of_mem hq
  rw [hlink, hs.entries q (hway (by simp [hq])) _ hlink]

theorem Houses.spared (h : s.Houses t p first d) (hd : t.isDirectory d = true)
    (hs : t.Spares t' kept id) (hfirst : first ⊆ kept) : s.Houses t' p first d := by
  refine ⟨h.few, h.leads.congr hs.directories (fun q hq => ?_) ?_⟩
  · obtain ⟨target, hlink⟩ := h.leads.find?_of_mem hq
    rw [hlink, hs.entries q (hfirst hq) _ hlink]
  · have hd' := hs.directories d hd
    simp only [Tree.isDirectory, decide_eq_true_eq] at hd'
    simp [hd']

/-- The siblings of the path are not on its way, and what is written to the temporary one does not go
to the file. -/
structure Apart (s : Site) (t : Tree) (x : Suffixes) (path : Path) (way : List Place) (id : Nat) :
    Prop where
  temp : ∀ temp, path.addSuffix x.temp = .ok temp → ∀ q, s.place? t temp = some q → q ∉ way
  target : ∀ temp, path.addSuffix x.temp = .ok temp → ∀ q, s.reach? t temp = some q →
    t.find? q ≠ some (.file id)
  backup : ∀ backup, path.addSuffix x.backup = .ok backup → ∀ q, s.place? t backup = some q → q ∉ way

/-- The path or its backup leads to the file, along places of its way and that of the backup, and the
file is what it was. -/
def Keeps (s : Site) (t : Tree) (x : Suffixes) (path : Path) (way : List Place) (id : Nat) (t' : Tree) :
    Prop :=
  t'.content id = t.content id ∧ (s.Finds t' path way id ∨
    ∃ backup way', path.addSuffix x.backup = .ok backup ∧ s.Finds t' backup way' id ∧
      ∀ q ∈ way', q ∈ way ∨ s.place? t backup = some q)

theorem Finds.keeps (h : s.Finds t path way id) (hs : t.Spares t' way id) :
    s.Keeps t x path way id t' := by
  obtain ⟨hfinds, hcontent⟩ := h.spared hs (List.Subset.refl way)
  exact ⟨hcontent, .inl hfinds⟩

/-- The path stands at `entry` in its directory, and leads to the file from there. -/
structure Stands (s : Site) (t : Tree) (path : Path) (first : List Place) (d entry : Place)
    (later : List Place) (source : Place) (id : Nat) : Prop where
  sound : path.Sound
  self : path.IsSibling path
  few : (first ++ later).length ≤ Tree.maxLinks
  houses : s.Houses t path first d
  step : t.step d path.lastName = .ok entry
  last : t.Leads d [path.lastName] later source
  file : t.find? source = some (.file id)

namespace Stands

theorem isDirectory (h : s.Stands t path first d entry later source id) : t.isDirectory d = true :=
  (Tree.step_eq_ok.mp h.step).1

theorem source_not_directory (h : s.Stands t path first d entry later source id) :
    t.isDirectory source = false :=
  Tree.isDirectory_of_find? h.file (by simp)

theorem entry_not_directory (h : s.Stands t path first d entry later source id) :
    t.isDirectory entry = false :=
  h.last.entry_not_directory h.source_not_directory h.step

theorem entry_dead (h : s.Stands t path first d entry later source id) : t.Dead entry :=
  h.last.dead h.source_not_directory h.step

theorem entry_notMem (h : s.Stands t path first d entry later source id) : entry ∉ first :=
  h.entry_dead _ _ _ _ h.houses.leads h.isDirectory

/-- The place of the path is on its way. -/
theorem entry_mem (h : s.Stands t path first d entry later source id) : entry ∈ later ++ [source] := by
  rcases h.last.last h.step with ⟨rfl, rfl, -⟩ | ⟨target, rest, rfl, -⟩ <;> simp

theorem exists_entry (h : s.Stands t path first d entry later source id) :
    ∃ e, t.find? entry = some e ∧ e ≠ .directory := by
  rcases h.last.last h.step with ⟨-, rfl, -⟩ | ⟨target, rest, -, hlink, -⟩
  · exact ⟨_, h.file, by simp⟩
  · exact ⟨_, hlink, by simp⟩

/-- Only a plain path stands where its file is. -/
theorem id_eq {i : Nat} (h : s.Stands t path first d entry later source id)
    (hi : t.find? entry = some (.file i)) : i = id := by
  rcases h.last.last h.step with ⟨-, rfl, -⟩ | ⟨target, rest, -, hlink, -⟩
  · rw [h.file] at hi
    cases hi
    rfl
  · rw [hlink] at hi
    cases hi

theorem finds (h : s.Stands t path first d entry later source id) :
    s.Finds t path (first ++ later ++ [source]) id :=
  ⟨first ++ later, source, rfl, h.houses.route h.self h.sound h.last h.few, h.file⟩

theorem spared (h : s.Stands t path first d entry later source id) (hs : t.Spares t' kept id)
    (hway : first ++ later ++ [source] ⊆ kept) : s.Stands t' path first d entry later source id where
  sound := h.sound
  self := h.self
  few := h.few
  houses := h.houses.spared h.isDirectory hs fun q hq => hway (by simp [hq])
  step := Tree.step_congr h.step hs.directories
  last := by
    have hend := hs.entries source (hway (by simp)) _ h.file
    refine h.last.congr hs.directories (fun q hq => ?_) (by simp [hend])
    obtain ⟨target, hlink⟩ := h.last.find?_of_mem hq
    rw [hlink, hs.entries q (hway (by simp [hq])) _ hlink]
  file := hs.entries source (hway (by simp)) _ h.file

theorem place?_self (h : s.Stands t path first d entry later source id) : s.place? t path = some entry :=
  (h.houses.place?_eq h.self).mpr ⟨h.sound, h.step⟩

/-- A suffix leads elsewhere than the name alone. -/
theorem ne_entry {suffix : Text} {b : Place} (h : s.Stands t path first d entry later source id)
    (hq : path.addSuffix suffix = .ok q) (hsuffix : suffix ≠ []) (hb : s.place? t q = some b) :
    b ≠ entry := by
  rintro rfl
  obtain ⟨hsound, hstep⟩ := (h.houses.place?_eq (Path.addSuffix_eq_ok hq).2.1).mp hb
  have hname := Tree.step_eq_append hstep h.entry_not_directory
  rw [Tree.step_eq_append h.step h.entry_not_directory] at hname
  have hlast : path.lastName = q.lastName := by simpa using hname
  exact Path.lastName_ne_of_addSuffix hq hsuffix hsound hlast.symm

/-- After the entry has been moved to a free sibling, that one leads to the file. -/
theorem moved {b : Place} (h : s.Stands t path first d entry later source id)
    (hq : path.IsSibling q) (hb : s.place? t q = some b) (hbdir : t.isDirectory b = false)
    (hfree : b ∉ first ++ later ++ [source]) :
    ∃ way, s.Finds (t.rename entry b) q way id ∧ entry ∉ way ∧
      (∀ r ∈ way, r = b ∨ r ∈ first ++ later ++ [source]) ∧
      s.Houses (t.rename entry b) path first d := by
  obtain ⟨hsound, hstep⟩ := (h.houses.place?_eq hq).mp hb
  rw [List.append_assoc, List.mem_append, not_or] at hfree
  obtain ⟨later', source', hlast, hfile, hlength, hmem⟩ :=
    h.last.moved h.file h.step hstep hbdir hfree.2
  have havoids : Change.Avoids t first id (.rename entry b) :=
    ⟨h.entry_notMem, hfree.1, h.entry_not_directory, hbdir⟩
  have hhouses := h.houses.spared h.isDirectory (Tree.spares_apply havoids) (List.Subset.refl first)
  have hne : entry ≠ b := by
    rintro rfl
    exact hfree.2 h.entry_mem
  have hfew := h.few
  rw [List.length_append, ← hlength, ← List.length_append] at hfew
  refine ⟨first ++ later' ++ [source'], ⟨first ++ later', source', rfl,
    hhouses.route hq hsound hlast hfew, hfile⟩, ?_, ?_, hhouses⟩
  · rw [List.append_assoc, List.mem_append, not_or]
    refine ⟨h.entry_notMem, fun hm => ?_⟩
    rcases hmem entry hm with he | ⟨-, he⟩
    · exact hne he
    · exact he rfl
  · intro r hr
    rw [List.append_assoc, List.mem_append] at hr ⊢
    rcases hr with hr | hr
    · exact .inr (.inl hr)
    · exact (hmem r hr).imp_right fun hr => .inr hr.1

end Stands

/-- Both the path and its temporary sibling are open; the latter stands at `mark` and leads to
`place`. -/
structure Opened (s : Site) (t : Tree) (x : Suffixes) (path temp backup : Path) (first : List Place)
    (d entry : Place) (later : List Place) (source : Place) (id : Nat) (mark place : Place) : Prop where
  temp_eq : path.addSuffix x.temp = .ok temp
  backup_eq : path.addSuffix x.backup = .ok backup
  stands : s.Stands t path first d entry later source id
  sound_temp : temp.Sound
  step_temp : t.step d temp.lastName = .ok mark
  last_temp : ∃ links, links.length ≤ Tree.maxLinks ∧ t.Leads d [temp.lastName] links place
  not_directory : t.isDirectory place = false

theorem Finds.exists_stands (h : s.Finds t path way id) (hself : path.IsSibling path) :
    ∃ first d entry later source, way = first ++ later ++ [source] ∧
      s.Stands t path first d entry later source id := by
  obtain ⟨links, source, rfl, hroute, hfile⟩ := h
  obtain ⟨first, d, later, rfl, hhouses, hlast⟩ := hroute.of_sibling hself
  obtain ⟨entry, hentry⟩ := hlast.exists_step
  exact ⟨first, d, entry, later, source, rfl, hroute.sound, hself, hroute.few, hhouses, hentry, hlast,
    hfile⟩

theorem Stands.exists_opened (h : s.Stands t path first d entry later source id)
    (htemp : path.addSuffix x.temp = .ok temp) (hbackup : path.addSuffix x.backup = .ok backup)
    (hroute : s.Route t temp links place) (hdir : t.isDirectory place = false) :
    ∃ mark, s.Opened t x path temp backup first d entry later source id mark place := by
  obtain ⟨first', d', later', rfl, hhouses, hlast⟩ := hroute.of_sibling (Path.addSuffix_eq_ok htemp).2.1
  obtain ⟨rfl, rfl⟩ := h.houses.unique hhouses
  obtain ⟨mark, hmark⟩ := hlast.exists_step
  have hfew := hroute.few
  rw [List.length_append] at hfew
  exact ⟨mark, htemp, hbackup, h, hroute.sound, hmark, ⟨later', by omega, hlast⟩, hdir⟩

/-- With both files open, the path stands in its directory and so does the temporary one, which leads
to the place that is written to. -/
theorem exists_opened_of_openBoth {encoding : Text}
    (hopen : s.openBoth past t encoding path temp = .ok (c, id, place))
    (htemp : path.addSuffix x.temp = .ok temp) (hbackup : path.addSuffix x.backup = .ok backup) :
    ∃ first d entry later source mark,
      s.Opened t x path temp backup first d entry later source id mark place ∧
      s.reach? t temp = some place := by
  obtain ⟨⟨links, source, hroute, hfile⟩, ⟨links', hroute'⟩, hdir⟩ := openBoth_eq_ok hopen
  have hfinds : s.Finds t path (links ++ [source]) id := ⟨links, source, rfl, hroute, hfile⟩
  obtain ⟨first, d, entry, later, source', -, hstands⟩ :=
    hfinds.exists_stands (Path.addSuffix_eq_ok htemp).1
  obtain ⟨mark, hopened⟩ := hstands.exists_opened htemp hbackup hroute' hdir
  exact ⟨first, d, entry, later, source', mark, hopened, reach?_eq_some.mpr ⟨links', hroute'⟩⟩

/-- What stands at a path is all that is taken away. -/
theorem Removes.eq_remove {mark : Place} {cs : List Change} (h : s.Removes q t cs)
    (hq : path.IsSibling q) (hhouses : s.Houses t path first d) (hstep : t.step d q.lastName = .ok mark)
    (hmark : t.isDirectory mark = false) (hfirst : mark ∉ first) : ∀ c ∈ cs, c = .remove mark := by
  induction h with
  | nil => simp
  | @cons t r cs hr h ih =>
    obtain ⟨-, hstep'⟩ := (hhouses.place?_eq hq).mp hr
    rw [hstep] at hstep'
    cases hstep'
    have havoids : Change.Avoids t first 0 (.remove mark) := ⟨hfirst, hmark⟩
    have hspares := Tree.spares_apply havoids
    have hd := (Tree.step_eq_ok.mp hstep).1
    rw [List.forall_mem_cons]
    exact ⟨rfl, ih (hhouses.spared hd hspares (List.Subset.refl first))
      (Tree.step_congr hstep hspares.directories) ((Tree.isDirectory_erase hmark mark).trans hmark)⟩

namespace Opened

variable {mark : Place}

theorem sibling (h : s.Opened t x path temp backup first d entry later source id mark place) :
    path.IsSibling temp :=
  (Path.addSuffix_eq_ok h.temp_eq).2.1

theorem mark_not_directory
    (h : s.Opened t x path temp backup first d entry later source id mark place) :
    t.isDirectory mark = false := by
  obtain ⟨links, -, hlast⟩ := h.last_temp
  exact hlast.entry_not_directory h.not_directory h.step_temp

theorem mark_dead (h : s.Opened t x path temp backup first d entry later source id mark place) :
    t.Dead mark := by
  obtain ⟨links, -, hlast⟩ := h.last_temp
  exact hlast.dead h.not_directory h.step_temp

theorem mark_notMem (h : s.Opened t x path temp backup first d entry later source id mark place) :
    mark ∉ first :=
  h.mark_dead _ _ _ _ h.stands.houses.leads h.stands.isDirectory

theorem not_directory_written
    (h : s.Opened t x path temp backup first d entry later source id mark place) (data : Bytes) :
    (t.applyAll (written place data)).isDirectory mark = false := by
  rw [isDirectory_written, h.mark_not_directory]

theorem place?_temp (h : s.Opened t x path temp backup first d entry later source id mark place) :
    s.place? t temp = some mark :=
  (h.stands.houses.place?_eq h.sibling).mpr ⟨h.sound_temp, h.step_temp⟩

theorem entry_ne_mark (h : s.Opened t x path temp backup first d entry later source id mark place) :
    entry ≠ mark :=
  (h.stands.ne_entry h.temp_eq x.temp_ne h.place?_temp).symm

theorem entry_ne_backup (h : s.Opened t x path temp backup first d entry later source id mark place)
    {b : Place} (hb : s.place? t backup = some b) : entry ≠ b :=
  (h.stands.ne_entry h.backup_eq x.backup_ne hb).symm

/-- Where the temporary file is no link, it is written in its own place. -/
theorem place_eq (h : s.Opened t x path temp backup first d entry later source id mark place)
    (hplain : ∀ target, t.find? mark ≠ some (.link target)) : place = mark := by
  obtain ⟨links, -, hlast⟩ := h.last_temp
  rcases hlast.last h.step_temp with ⟨-, rfl, -⟩ | ⟨target, rest, -, hlink, -⟩
  · rfl
  · exact absurd hlink (hplain target)

theorem step_written {n : Name} {p : Place} :
    (t.applyAll (written place data)).step d n = .ok p ↔ t.step d n = .ok p := by
  simp only [Tree.step_eq_ok, isDirectory_written]

/-- The directory of the siblings is still there when the temporary file has been written. -/
theorem houses_written (h : s.Opened t x path temp backup first d entry later source id mark place)
    (data : Bytes) : s.Houses (t.applyAll (written place data)) path first d := by
  refine ⟨h.stands.houses.few, h.stands.houses.leads.congr (fun q hq => ?_) (fun q hq => ?_) ?_⟩
  · rw [isDirectory_written, hq]
  · obtain ⟨target, hlink⟩ := h.stands.houses.leads.find?_of_mem hq
    rw [find?_written, if_neg]
    rintro ⟨rfl, hnone⟩
    rw [hlink] at hnone
    cases hnone
  · have hd := h.stands.isDirectory
    rw [← isDirectory_written t place data, Tree.isDirectory, decide_eq_true_eq] at hd
    simp [hd]

/-- The temporary file is taken away from its place only. -/
theorem eq_remove (h : s.Opened t x path temp backup first d entry later source id mark place)
    {cs : List Change} (hcs : s.Removes temp (t.applyAll (written place data)) cs) :
    ∀ c ∈ cs, c = .remove mark := by
  exact hcs.eq_remove h.sibling (h.houses_written data) (step_written.mpr h.step_temp)
    (h.not_directory_written data) h.mark_notMem

/-- When the temporary file is to be removed, its name still stands where it stood. -/
theorem place?_lost (h : s.Opened t x path temp backup first d entry later source id mark place)
    {lost : List Change} (hlost : s.Removes temp (t.applyAll (written place data)) lost) :
    s.place? (t.applyAll (written place data ++ lost)) temp = some mark ∧
      (t.applyAll (written place data ++ lost)).isDirectory mark = false := by
  have hdir := h.not_directory_written data
  have hd : (t.applyAll (written place data)).isDirectory d = true := by
    rw [isDirectory_written, h.stands.isDirectory]
  have hspares := Tree.spares_applyAll
    (Tree.avoidedBy_removals h.mark_notMem hdir (h.eq_remove hlost) id)
  have hhouses := (h.houses_written data).spared hd hspares (List.Subset.refl first)
  rw [Tree.applyAll_append]
  refine ⟨(hhouses.place?_eq h.sibling).mpr ⟨h.sound_temp,
    Tree.step_congr (step_written.mpr h.step_temp) hspares.directories⟩, ?_⟩
  exact Tree.not_directory_removals hdir (h.eq_remove hlost)

theorem stands_written (h : s.Opened t x path temp backup first d entry later source id mark place)
    (hfree : t.find? place ≠ some (.file id)) (data : Bytes) :
    s.Stands (t.applyAll (written place data)) path first d entry later source id :=
  h.stands.spared (Tree.spares_applyAll (avoidedBy_written h.stands.file hfree data _)) (List.Subset.refl _)

/-- The temporary file is not the file that is read. -/
theorem mark_ne_file (h : s.Opened t x path temp backup first d entry later source id mark place)
    (hfree : t.find? place ≠ some (.file id)) (data : Bytes) :
    (t.applyAll (written place data)).find? mark ≠ some (.file id) := by
  rw [find?_written]
  split
  · intro he
    exact Tree.ne_fresh h.stands.file (by simpa [eq_comm] using he)
  · intro he
    rw [h.place_eq (by simp [he])] at hfree
    exact hfree he

/-- Taking the temporary file away. -/
theorem avoidedBy_removes (h : s.Opened t x path temp backup first d entry later source id mark place)
    (hmark : mark ∉ first ++ later ++ [source]) {cs : List Change}
    (hcs : s.Removes temp (t.applyAll (written place data)) cs) :
    (t.applyAll (written place data)).AvoidedBy (first ++ later ++ [source]) id cs := by
  exact Tree.avoidedBy_removals hmark (h.not_directory_written data) (h.eq_remove hcs) id

/-- After the first rename the backup leads to the file. -/
theorem first_rename (h : s.Opened t x path temp backup first d entry later source id mark place)
    (hfree : t.find? place ≠ some (.file id))
    (hbackup : ∀ q, s.place? t backup = some q → q ∉ first ++ later ++ [source]) {a b : Place}
    (hr : s.rename past (t.applyAll (written place data)) path backup = .ok (a, b)) :
    entry = a ∧ s.place? t backup = some b ∧
      (t.applyAll (written place data ++ [Change.rename a b])).content id = t.content id ∧ ∃ way,
      s.Finds (t.applyAll (written place data ++ [Change.rename a b])) backup way id ∧ entry ∉ way ∧
      (∀ r ∈ way, r ∈ first ++ later ++ [source] ∨ s.place? t backup = some r) ∧
      s.Houses (t.applyAll (written place data ++ [Change.rename a b])) path first d := by
  have hstands := h.stands_written hfree data
  have hsibling := (Path.addSuffix_eq_ok h.backup_eq).2.1
  obtain ⟨ha, hb, -, hbdir⟩ := rename_eq_ok hr
  obtain rfl : entry = a := Option.some.inj (hstands.place?_self.symm.trans ha)
  have hb' : s.place? t backup = some b := by
    obtain ⟨hsound, hstep⟩ := (hstands.houses.place?_eq hsibling).mp hb
    exact (h.stands.houses.place?_eq hsibling).mpr ⟨hsound, step_written.mp hstep⟩
  have hspares := Tree.spares_applyAll (avoidedBy_written h.stands.file hfree data [source])
  have hcontent := hspares.content source (by simp) h.stands.file
  obtain ⟨way, hfinds, hentry, hmem, hhouses⟩ := hstands.moved hsibling hb hbdir (hbackup b hb')
  rw [Tree.applyAll_append]
  refine ⟨rfl, hb', (Tree.content_rename _ entry b id).trans hcontent, way, hfinds, hentry, ?_, hhouses⟩
  intro r hr
  rcases hmem r hr with rfl | hr
  · exact .inr hb'
  · exact .inl hr

/-- If the temporary file has the place of the backup, the second rename undoes the first. -/
theorem spares_undone (h : s.Opened t x path temp backup first d entry later source id mark place)
    (hfree : t.find? place ≠ some (.file id)) (hmark : mark ∉ first ++ later ++ [source]) :
    (t.applyAll (written place data)).Spares
      (((t.applyAll (written place data)).rename entry mark).rename mark entry)
      (first ++ later ++ [source]) id := by
  have hstands := h.stands_written hfree data
  have hmarkdir := h.not_directory_written data
  -- Were both names of one file, the temporary file would have been written over it.
  have hsame : (t.applyAll (written place data)).isSameFile entry mark = false := by
    by_contra hsame
    obtain ⟨i, hi, hi'⟩ := Tree.isSameFile_iff.mp (by simpa using hsame)
    obtain rfl := hstands.id_eq hi
    exact h.mark_ne_file hfree data hi'
  obtain ⟨e, he, hedir⟩ := hstands.exists_entry
  have hback := Tree.find?_rename_back he hedir hmarkdir h.entry_ne_mark hsame
  refine ⟨fun q hq => ?_, fun q hq e' he' => ?_, fun q hq he' => by simp⟩
  · rw [Tree.isDirectory, hback, if_neg]
    · exact hq
    · rintro rfl
      rw [hmarkdir] at hq
      cases hq
  · rw [hback, if_neg, he']
    rintro rfl
    exact hmark hq

/-- After the second rename the backup still leads to the file; or the path does so again, if the
temporary file had the place of the backup. -/
theorem second_rename (h : s.Opened t x path temp backup first d entry later source id mark place)
    (hfree : t.find? place ≠ some (.file id)) (hmark : mark ∉ first ++ later ++ [source])
    (hbackup : ∀ q, s.place? t backup = some q → q ∉ first ++ later ++ [source]) {a b c e : Place}
    {past' : List Syscall}
    (hr : s.rename past (t.applyAll (written place data)) path backup = .ok (a, b))
    (hr' : s.rename past' (t.applyAll (written place data ++ [Change.rename a b])) temp path = .ok (c, e)) :
    s.Keeps t x path (first ++ later ++ [source]) id
      (t.applyAll (written place data ++ [Change.rename a b, .rename c e])) := by
  obtain ⟨rfl, hb, hcontent, way, hfinds, hentry, hmem, hhouses⟩ := h.first_rename hfree hbackup hr
  obtain ⟨hc, he, ⟨found, hfound, hnotdir⟩, hedir⟩ := rename_eq_ok hr'
  obtain ⟨-, hc⟩ := (hhouses.place?_eq h.sibling).mp hc
  obtain ⟨-, he⟩ := (hhouses.place?_eq h.stands.self).mp he
  obtain rfl := Tree.step_unique h.step_temp hc
  obtain rfl := Tree.step_unique h.stands.step he
  have hsplit : t.applyAll (written place data ++ [Change.rename entry b, .rename mark entry]) =
      (t.applyAll (written place data ++ [Change.rename entry b])).apply (.rename mark entry) := rfl
  rw [hsplit]
  by_cases hmb : b = mark
  · rw [hmb]
    have hspares := Tree.spares_applyAll
      (avoidedBy_written h.stands.file hfree data (first ++ later ++ [source]))
    exact h.stands.finds.keeps (hspares.trans (h.spares_undone hfree hmark))
  · have hmarkway : mark ∉ way := by
      intro hm
      rcases hmem mark hm with hm | hm
      · exact hmark hm
      · exact hmb (Option.some.inj (hb.symm.trans hm))
    have havoids : Change.Avoids (t.applyAll (written place data ++ [Change.rename entry b])) way id
        (.rename mark entry) :=
      ⟨hmarkway, hentry, Tree.isDirectory_of_find? hfound hnotdir, hedir⟩
    obtain ⟨hfinds', hcontent'⟩ :=
      hfinds.spared (Tree.spares_apply havoids) (List.Subset.refl way)
    exact ⟨hcontent'.trans hcontent, .inr ⟨backup, way, h.backup_eq, hfinds', hmem⟩⟩

theorem keeps_written (h : s.Opened t x path temp backup first d entry later source id mark place)
    (hfree : t.find? place ≠ some (.file id)) {cs : List Change} (hcs : cs <+: written place data) :
    s.Keeps t x path (first ++ later ++ [source]) id (t.applyAll cs) := by
  have havoided := (avoidedBy_written h.stands.file hfree data (first ++ later ++ [source])).mono hcs
  exact h.stands.finds.keeps (Tree.spares_applyAll havoided)

theorem keeps_moved (h : s.Opened t x path temp backup first d entry later source id mark place)
    (hfree : t.find? place ≠ some (.file id))
    (hbackup : ∀ q, s.place? t backup = some q → q ∉ first ++ later ++ [source]) {a b : Place}
    (hr : s.rename past (t.applyAll (written place data)) path backup = .ok (a, b)) {cs : List Change}
    (hcs : cs <+: written place data ++ [Change.rename a b]) :
    s.Keeps t x path (first ++ later ++ [source]) id (t.applyAll cs) := by
  rcases List.prefix_concat_iff.mp hcs with rfl | hcs
  · obtain ⟨-, -, hcontent, way, hfinds, -, hmem, -⟩ := h.first_rename hfree hbackup hr
    exact ⟨hcontent, .inr ⟨backup, way, h.backup_eq, hfinds, hmem⟩⟩
  · exact h.keeps_written hfree hcs

/-- However the attempt ends, the file is found after every change. -/
theorem keeps (h : s.Opened t x path temp backup first d entry later source id mark place)
    (hfree : t.find? place ≠ some (.file id)) (hmark : mark ∉ first ++ later ++ [source])
    (hbackup : ∀ q, s.place? t backup = some q → q ∉ first ++ later ++ [source]) {a : Attempt}
    (ha : Produced s past t path temp backup place made a) {cs : List Change} (hcs : cs <+: a.changes) :
    s.Keeps t x path (first ++ later ++ [source]) id (t.applyAll cs) := by
  cases ha with
  | @discarded notes f lost hf hlost =>
    have havoided := (avoidedBy_written h.stands.file hfree made.output.data _).append
      (h.avoidedBy_removes hmark (hlost.discard past f))
    rw [← List.append_assoc] at havoided
    exact h.stands.finds.keeps (Tree.spares_applyAll (havoided.mono hcs))
  | unmoved _ _ => exact h.keeps_written hfree hcs
  | halfway _ hfirst _ => exact h.keeps_moved hfree hbackup hfirst hcs
  | @done notes a b c d _ hfirst hsecond =>
    have hsplit : written place made.output.data ++ [Change.rename a b, .rename c d] =
        (written place made.output.data ++ [Change.rename a b]) ++ [Change.rename c d] := rfl
    rw [hsplit] at hcs
    rcases List.prefix_concat_iff.mp hcs with rfl | hcs
    · exact h.second_rename hfree hmark hbackup hfirst hsecond
    · exact h.keeps_moved hfree hbackup hfirst hcs

end Opened

end Site

end DocBlock
