import Mathlib
import DocBlock.Proofs.Replacement

/-! What an attempt leaves behind where every file has one name. After every change the original is in
its place or at its backup, and an attempt that fails before it renames anything leaves all but the
temporary file as it was. -/

namespace DocBlock

namespace Tree

variable {t t' : Tree} {p q : Place} {id : Nat} {names : List Name} {links : List Place}

/-- The places where something stands. -/
def places (t : Tree) : List Place := t.entries.map (·.1)

theorem mem_places {e : Entry} (h : t.find? p = some e) (he : e ≠ .directory) : p ∈ t.places := by
  have hne := ne_nil_of_not_directory (isDirectory_of_find? h he)
  simp only [find?, hne, if_false, Option.map_eq_some_iff] at h
  obtain ⟨a, hfound, -⟩ := h
  have ha : a.1 = p := by simpa using List.find?_some hfound
  exact List.mem_map.mpr ⟨a, List.mem_of_find?_eq_some hfound, ha⟩

/-- The place that the link at a place leads to. -/
def linkEnd? (t : Tree) (p : Place) : Option Place :=
  match t.find? p with
  | some (.link target) => (t.follow (target.base p) target.names).toOption
  | _ => none

/-- Every file has one name: no two places share a file, and a link leads nowhere but to a device. -/
def Unaliased (t : Tree) : Prop :=
  (∀ p ∈ t.places, ∀ q ∈ t.places, t.isSameFile p q = true → p = q) ∧
  ∀ p ∈ t.places, ∀ q ∈ t.linkEnd? p, t.find? q = some .fullDevice

instance : Decidable t.Unaliased := inferInstanceAs (Decidable (_ ∧ _))

theorem Unaliased.eq_of_file (h : t.Unaliased) (hp : t.find? p = some (.file id))
    (hq : t.find? q = some (.file id)) : p = q :=
  h.1 p (mem_places hp (by simp)) q (mem_places hq (by simp)) (isSameFile_iff.mpr ⟨id, hp, hq⟩)

/-- A way that does not end at a device meets no link. -/
theorem Unaliased.links_eq (h : t.Unaliased) (hway : t.Leads p names links q)
    (hfew : links.length ≤ maxLinks) (hend : t.find? q ≠ some .fullDevice) : links = [] := by
  by_contra hne
  obtain ⟨r, rest, rfl⟩ := List.exists_cons_of_ne_nil hne
  obtain ⟨target, rest', later, hlink, hlater, hlt⟩ := hway.of_mem List.mem_cons_self
  obtain ⟨one, m, two, rfl, hone, htwo⟩ := hlater.split
  rw [List.length_append] at hlt
  have hfollow : t.follow (target.base r) target.names = .ok m :=
    follow_eq_ok.mpr ⟨one, by omega, hone⟩
  have hlinkEnd : m ∈ t.linkEnd? r := by
    simp only [linkEnd?, hlink, hfollow]
    rfl
  have hdevice := h.2 r (mem_places hlink (by simp)) m hlinkEnd
  obtain rfl := htwo.eq_nil_of_not_directory (isDirectory_of_find? hdevice (by simp))
  cases htwo
  exact hend hdevice

/-- What stands at a place, with the bytes of a file. -/
def sight? (t : Tree) (p : Place) : Option (Entry × Option Bytes) := (t.find? p).map (·, t.bytes? p)

theorem bytes?_eq_some {bytes : Bytes} :
    t.bytes? p = some bytes ↔ ∃ id, t.find? p = some (.file id) ∧ t.content id = bytes := by
  unfold bytes?
  split
  · next i hi => simp [hi]
  · next hno =>
    simp only [reduceCtorEq, false_iff, not_exists, not_and]
    exact fun i hi => absurd hi (hno i)

/-- A place looks the same where its entry and its file are the same. -/
theorem sight?_congr (hfind : t'.find? p = t.find? p)
    (hcontent : ∀ id, t.find? p = some (.file id) → t'.content id = t.content id) :
    t'.sight? p = t.sight? p := by
  unfold sight? bytes?
  rw [hfind]
  cases hp : t.find? p with
  | none => rfl
  | some e =>
    cases e with
    | file id => simp [hcontent id hp]
    | directory | link | fullDevice => rfl

theorem find?_eq_of_sight? (h : t'.sight? p = t.sight? p) : t'.find? p = t.find? p := by
  have := congrArg (Option.map Prod.fst) h
  simpa [sight?, Function.comp_def] using this

theorem content_eq_of_sight? (h : t'.sight? p = t.sight? p) (hp : t.find? p = some (.file id)) :
    t'.content id = t.content id := by
  have hp' := (find?_eq_of_sight? h).trans hp
  simpa [sight?, bytes?, hp, hp'] using h

/-- From one tree to the other nothing has changed but at one place. -/
structure OnlyAt (mark : Place) (t t' : Tree) : Prop where
  sight : ∀ q, q ≠ mark → t'.sight? q = t.sight? q
  directories : ∀ q, t'.isDirectory q = t.isDirectory q

theorem OnlyAt.refl (mark : Place) (t : Tree) : OnlyAt mark t t := ⟨fun _ _ => rfl, fun _ => rfl⟩

theorem OnlyAt.trans {mark : Place} {t'' : Tree} (h : OnlyAt mark t t') (h' : OnlyAt mark t' t'') :
    OnlyAt mark t t'' :=
  ⟨fun q hq => (h'.sight q hq).trans (h.sight q hq),
    fun q => (h'.directories q).trans (h.directories q)⟩

theorem OnlyAt.spares {mark : Place} {kept : List Place} (h : OnlyAt mark t t') (hmark : mark ∉ kept)
    (id : Nat) : t.Spares t' kept id := by
  have hne {q : Place} (hq : q ∈ kept) : q ≠ mark := by
    rintro rfl
    exact hmark hq
  refine ⟨fun q hq => (h.directories q).trans hq, fun q hq e he => ?_, fun q hq he => ?_⟩
  · exact (find?_eq_of_sight? (h.sight q (hne hq))).trans he
  · exact content_eq_of_sight? (h.sight q (hne hq)) he

theorem onlyAt_removals {mark : Place} {cs : List Change} (hdir : t.isDirectory mark = false)
    (hcs : ∀ c ∈ cs, c = .remove mark) : OnlyAt mark t (t.applyAll cs) := by
  induction cs generalizing t with
  | nil => exact .refl mark t
  | cons c cs ih =>
    rw [List.forall_mem_cons] at hcs
    obtain ⟨rfl, hcs⟩ := hcs
    have hdirs := isDirectory_erase hdir
    have hone : OnlyAt mark t (t.erase mark) :=
      ⟨fun q hq => sight?_congr (find?_erase_of_ne hq) fun _ _ => rfl, hdirs⟩
    exact hone.trans (ih ((hdirs mark).trans hdir) hcs)

end Tree

namespace Site

variable {s : Site} {past : List Syscall} {t t' : Tree} {o : Options} {x : Suffixes}
  {path temp backup p q : Path} {place entry d source mark : Place} {first later way : List Place}
  {id : Nat} {c : Codec} {made : Product} {data original bytes : Bytes}

/-- The path leads to a file with these bytes. -/
def Holds (s : Site) (t : Tree) (path : Path) (bytes : Bytes) : Prop :=
  (s.reach? t path).bind t.bytes? = some bytes

instance : Decidable (s.Holds t path bytes) :=
  inferInstanceAs (Decidable ((s.reach? t path).bind t.bytes? = some bytes))

theorem holds_iff : s.Holds t path bytes ↔ ∃ way id, s.Finds t path way id ∧ t.content id = bytes := by
  simp only [Holds, Option.bind_eq_some_iff, reach?_eq_some, Tree.bytes?_eq_some]
  constructor
  · rintro ⟨place, ⟨links, hroute⟩, id, hfile, hbytes⟩
    exact ⟨links ++ [place], id, ⟨links, place, rfl, hroute, hfile⟩, hbytes⟩
  · rintro ⟨way, id, ⟨links, place, rfl, hroute, hfile⟩, hbytes⟩
    exact ⟨place, ⟨links, hroute⟩, id, hfile, hbytes⟩

/-- What a sibling holds is what is at its place, where no link is. -/
theorem Houses.holds_iff (h : s.Houses t path first d) (hq : path.IsSibling q) (hsound : q.Sound)
    (hstep : t.step d q.lastName = .ok place) (hplain : ∀ target, t.find? place ≠ some (.link target)) :
    s.Holds t q bytes ↔ t.bytes? place = some bytes := by
  have hroute : s.Route t q (first ++ []) place :=
    h.route hq hsound (.step hstep hplain (.here place)) (by simpa using h.few)
  rw [Holds, reach?_eq_some.mpr ⟨_, hroute⟩]
  rfl

/-- What stands where the path itself stands. -/
def sight? (s : Site) (t : Tree) (p : Path) : Option (Entry × Option Bytes) :=
  (s.place? t p).bind t.sight?

/-- Where every file has one name, a path leads to its file without links. -/
theorem Stands.plain (h : s.Stands t path first d entry later source id) (hu : t.Unaliased) :
    first = [] ∧ later = [] ∧ entry = source := by
  have hfew := h.few
  rw [List.length_append] at hfew
  have hd := h.isDirectory
  simp only [Tree.isDirectory, decide_eq_true_eq] at hd
  have hfirst := hu.links_eq h.houses.leads h.houses.few (by simp [hd])
  have hlater := hu.links_eq h.last (by omega) (by simp [h.file])
  have hmem := h.entry_mem
  rw [hlater] at hmem
  exact ⟨hfirst, hlater, by simpa using hmem⟩

/-- The siblings of a path are nowhere on its way. -/
theorem Finds.apart (h : s.Finds t path way id) (hu : t.Unaliased) (x : Suffixes) :
    s.Apart t x path way id := by
  have hway {suffix : Text} {q : Path} (hq : path.addSuffix suffix = .ok q) :
      ∃ first d entry later, s.Stands t path first d entry later entry id ∧ way = [entry] := by
    obtain ⟨first, d, entry, later, source, rfl, hstands⟩ := h.exists_stands (Path.addSuffix_eq_ok hq).1
    obtain ⟨rfl, rfl, rfl⟩ := hstands.plain hu
    exact ⟨[], d, entry, [], hstands, rfl⟩
  refine ⟨fun temp htemp q hq => ?_, fun temp htemp q hq hfile => ?_, fun backup hbackup q hq => ?_⟩
  · obtain ⟨first, d, entry, later, hstands, rfl⟩ := hway htemp
    simpa using hstands.ne_entry htemp x.temp_ne hq
  · obtain ⟨first, d, entry, later, hstands, rfl⟩ := hway htemp
    have hsibling := (Path.addSuffix_eq_ok htemp).2.1
    obtain ⟨links, hroute⟩ := reach?_eq_some.mp hq
    obtain rfl := hu.links_eq hroute.leads hroute.few (by simp [hfile])
    obtain ⟨first', d', later', hlinks, hhouses, hlast⟩ := hroute.of_sibling hsibling
    obtain ⟨rfl, rfl⟩ := List.append_eq_nil_iff.mp hlinks.symm
    obtain ⟨mark, hstep⟩ := hlast.exists_step
    rcases hlast.last hstep with ⟨-, rfl, -⟩ | ⟨_, _, hcons, -⟩
    · have hplace := (hhouses.place?_eq hsibling).mpr ⟨hroute.sound, hstep⟩
      exact hstands.ne_entry htemp x.temp_ne hplace (hu.eq_of_file hfile hstands.file)
    · cases hcons
  · obtain ⟨first, d, entry, later, hstands, rfl⟩ := hway hbackup
    simpa using hstands.ne_entry hbackup x.backup_ne hq

namespace Opened

/-- Where every file has one name, the temporary file is written in its own place or to a device. -/
theorem place_cases (h : s.Opened t x path temp backup first d entry later source id mark place)
    (hu : t.Unaliased) : place = mark ∧ (∀ target, t.find? mark ≠ some (.link target)) ∨
      t.find? place = some .fullDevice := by
  by_cases hdevice : t.find? place = some .fullDevice
  · exact .inr hdevice
  · obtain ⟨links, hfew, hlast⟩ := h.last_temp
    obtain rfl := hu.links_eq hlast hfew hdevice
    rcases hlast.last h.step_temp with ⟨-, rfl, hplain⟩ | ⟨_, _, hcons, -⟩
    · exact .inl ⟨rfl, hplain⟩
    · cases hcons

theorem onlyAt_written (h : s.Opened t x path temp backup first d entry later source id mark place)
    (hu : t.Unaliased) (data : Bytes) : Tree.OnlyAt mark t (t.applyAll (written place data)) := by
  have hplace := h.place_cases hu
  refine ⟨fun q hq => Tree.sight?_congr ?_ fun i hi => ?_, isDirectory_written t place data⟩
  · rw [find?_written, if_neg]
    rintro ⟨rfl, hnone⟩
    rcases hplace with ⟨rfl, -⟩ | hdevice
    · exact hq rfl
    · rw [hnone] at hdevice
      cases hdevice
  · have hother : t.find? place ≠ some (.file i) := by
      intro hfile
      rcases hplace with ⟨rfl, -⟩ | hdevice
      · exact hq (hu.eq_of_file hi hfile)
      · rw [hfile] at hdevice
        cases hdevice
    have hspares := Tree.spares_applyAll (avoidedBy_written hi hother data [q])
    exact hspares.content q (by simp) hi

/-- The directory of the siblings is where it was. -/
theorem houses_onlyAt (h : s.Opened t x path temp backup first d entry later source id mark place)
    (ht : Tree.OnlyAt mark t t') : s.Houses t' path first d :=
  h.stands.houses.spared h.stands.isDirectory (ht.spares h.mark_notMem id) (List.Subset.refl first)

/-- So are the siblings themselves. -/
theorem place?_onlyAt (h : s.Opened t x path temp backup first d entry later source id mark place)
    (ht : Tree.OnlyAt mark t t') (hq : path.IsSibling q) : s.place? t' q = s.place? t q := by
  ext r
  rw [(h.houses_onlyAt ht).place?_eq hq, h.stands.houses.place?_eq hq]
  simp only [Tree.step_eq_ok, ht.directories]

/-- As long as only the temporary file has changed, the original is where it was, and so is all else. -/
theorem early (h : s.Opened t x path temp backup first d entry later source id mark place)
    (hu : t.Unaliased) (ht : Tree.OnlyAt mark t t') :
    s.Holds t' path (t.content id) ∧
    (∀ q, (∀ temp, path.addSuffix x.temp = .ok temp → s.place? t temp ≠ some q) →
      t'.sight? q = t.sight? q) ∧
    (Name.ofText x.temp ≠ Name.ofText x.backup → ∀ backup, path.addSuffix x.backup = .ok backup →
      s.sight? t' backup = s.sight? t backup) := by
  have hmark := (h.stands.finds.apart hu x).temp temp h.temp_eq mark h.place?_temp
  refine ⟨?_, fun q hq => ht.sight q ?_, fun hx backup' hbackup => ?_⟩
  · obtain ⟨hfinds, hcontent⟩ := h.stands.finds.spared (ht.spares hmark id) (List.Subset.refl _)
    exact holds_iff.mpr ⟨_, id, hfinds, hcontent⟩
  · rintro rfl
    exact hq temp h.temp_eq h.place?_temp
  · have hsibling := (Path.addSuffix_eq_ok hbackup).2.1
    unfold sight?
    rw [h.place?_onlyAt ht hsibling]
    cases hb : s.place? t backup' with
    | none => rfl
    | some b =>
      refine ht.sight b ?_
      rintro rfl
      obtain ⟨-, hstep⟩ := (h.stands.houses.place?_eq hsibling).mp hb
      have hname := Tree.step_eq_append hstep h.mark_not_directory
      rw [Tree.step_eq_append h.step_temp h.mark_not_directory, Path.lastName_addSuffix h.temp_eq,
        Path.lastName_addSuffix hbackup] at hname
      exact hx (by simpa using hname)

theorem onlyAt_removed (h : s.Opened t x path temp backup first d entry later source id mark place)
    (hu : t.Unaliased) {cs : List Change} (hcs : s.Removes temp (t.applyAll (written place data)) cs) :
    Tree.OnlyAt mark t (t.applyAll (written place data ++ cs)) := by
  have hwritten := h.onlyAt_written hu data
  rw [Tree.applyAll_append]
  exact hwritten.trans (Tree.onlyAt_removals (h.not_directory_written data) (h.eq_remove hcs))

end Opened

/-- The bytes are in the place of the path or at its backup. -/
def Stored (s : Site) (t : Tree) (x : Suffixes) (path : Path) (bytes : Bytes) : Prop :=
  s.Holds t path bytes ∨ ∃ backup, path.addSuffix x.backup = .ok backup ∧ s.Holds t backup bytes

theorem Keeps.stored (h : s.Keeps t x path way id t') : s.Stored t' x path (t.content id) := by
  obtain ⟨hcontent, hfinds | ⟨backup, way', hbackup, hfinds, -⟩⟩ := h
  · exact .inl (holds_iff.mpr ⟨_, id, hfinds, hcontent⟩)
  · exact .inr ⟨backup, hbackup, holds_iff.mpr ⟨_, id, hfinds, hcontent⟩⟩

/-- What an attempt to annotate a file, which held `original`, leaves behind. -/
structure Retains (s : Site) (past : List Syscall) (t : Tree) (o : Options) (x : Suffixes) (path : Path)
    (original : Bytes) (a : Attempt) : Prop where
  /-- After every change the original is in its place or at its backup. -/
  stored : ∀ cs, cs <+: a.changes → s.Stored (t.applyAll cs) x path original
  /-- A failure up to the first rename leaves all but the temporary file as it was. -/
  early : ∀ f, a.result = .error f → f.exitCode? ≠ some .rename →
    s.Holds (t.applyAll a.changes) path original ∧
    (∀ q, (∀ temp, path.addSuffix x.temp = .ok temp → s.place? t temp ≠ some q) →
      (t.applyAll a.changes).sight? q = t.sight? q) ∧
    (Name.ofText x.temp ≠ Name.ofText x.backup → ∀ backup, path.addSuffix x.backup = .ok backup →
      s.sight? (t.applyAll a.changes) backup = s.sight? t backup)
  /-- A failure while the opened file is processed removes the temporary file, unless the system refuses
  that. -/
  discarded : ∀ temp backup c id place f, path.addSuffix x.temp = .ok temp →
    path.addSuffix x.backup = .ok backup →
    s.openBoth past t o.encoding path temp = .ok (c, id, place) →
    t.writeFault? place temp (s.process (past ++ [.openRead path, .openWrite temp])
      (t.apply (.create place)) o path temp c original).output = some f →
    s.refuses (past ++ [.openRead path, .openWrite temp]) (.remove temp) = none →
    a.result = .error f ∧ s.sight? (t.applyAll a.changes) temp = none
  /-- When the first rename fails, the temporary file is complete; a full device takes no more than
  an empty output. -/
  unmoved : ∀ f, a.result = .error f → f.exitCode? = some .backup →
    ∃ temp c id place plate, path.addSuffix x.temp = .ok temp ∧
      s.openBoth past t o.encoding path temp = .ok (c, id, place) ∧
      s.boilerplate? (past ++ [.openRead path, .openWrite temp]) (t.apply (.create place)) o = .ok plate ∧
      (annotateBytes c o plate original).fault = none ∧
      (s.Holds (t.applyAll a.changes) temp (annotateBytes c o plate original).data ∨
        t.find? place = some .fullDevice ∧ (annotateBytes c o plate original).data = [])
  /-- When the second rename fails, the original is at its backup. -/
  halfway : ∀ f, a.result = .error f → f.exitCode? = some .rename →
    ∃ backup, path.addSuffix x.backup = .ok backup ∧ s.Holds (t.applyAll a.changes) backup original

/-- Nothing has happened. -/
theorem retains_unopened {f : Fault} {calls : List Syscall} (h : s.Holds t path original)
    (hf : ¬ f.OfRename)
    (hnot : ∀ temp backup opened, path.addSuffix x.temp = .ok temp →
      path.addSuffix x.backup = .ok backup → s.openBoth past t o.encoding path temp ≠ .ok opened) :
    Retains s past t o x path original { calls, result := .error f } where
  stored cs hcs := by
    rw [List.prefix_nil.mp hcs]
    exact .inl h
  early _ _ _ := ⟨h, fun _ _ => rfl, fun _ _ _ => rfl⟩
  discarded temp backup c id place _ ht hb ho := absurd ho (hnot temp backup (c, id, place) ht hb)
  unmoved g hg hcode := by
    cases hg
    exact absurd (.inl hcode) hf
  halfway g hg hcode := by
    cases hg
    exact absurd (.inr hcode) hf

/-- Unless the system refuses, nothing is left of what is discarded. -/
theorem discard_of_place? {f : Fault} (hrefuses : s.refuses past (.remove p) = none)
    (hp : s.place? t p = some mark) (hdir : t.isDirectory mark = false) :
    (s.discard past t p f).result = .error f ∧
      (t.applyAll (s.discard past t p f).changes).find? mark = none := by
  unfold discard
  rcases remove_of_place? hrefuses hp hdir with hremove | ⟨hnone, hremove⟩
  · rw [hremove]
    exact ⟨rfl, Tree.find?_erase_self (Tree.ne_nil_of_not_directory hdir)⟩
  · rw [hremove]
    exact ⟨rfl, hnone⟩

/-- What discarding ends in: the fault, or the refusal of the system. -/
theorem discard_result {f : Fault} (hp : p.Sound) :
    (s.discard past t p f).result = .error f ∨ ∃ e, s.remove past t p = .error (.system e) ∧
      e.code ≠ SystemError.noEntry.code ∧ (s.discard past t p f).result = .error (.system e (some p)) := by
  unfold discard
  split
  · exact .inl rfl
  · next g hremove => exact absurd (remove_path_error hremove) (hp.names_ne g)
  · next e hremove =>
    split
    · exact .inl rfl
    · next hcode => exact .inr ⟨e, hremove, hcode, rfl⟩

namespace Opened

theorem mark_apart (h : s.Opened t x path temp backup first d entry later source id mark place)
    (hu : t.Unaliased) : mark ∉ first ++ later ++ [source] :=
  (h.stands.finds.apart hu x).temp temp h.temp_eq mark h.place?_temp

theorem backup_apart (h : s.Opened t x path temp backup first d entry later source id mark place)
    (hu : t.Unaliased) : ∀ q, s.place? t backup = some q → q ∉ first ++ later ++ [source] :=
  (h.stands.finds.apart hu x).backup backup h.backup_eq

/-- What is written does not go to the file that is read. -/
theorem free (h : s.Opened t x path temp backup first d entry later source id mark place)
    (hu : t.Unaliased) : t.find? place ≠ some (.file id) := by
  intro hfile
  rcases h.place_cases hu with ⟨rfl, -⟩ | hdevice
  · obtain rfl := hu.eq_of_file hfile h.stands.file
    exact h.mark_apart hu (by simp)
  · rw [hfile] at hdevice
    cases hdevice

/-- The temporary file holds what was written to it, if it is no full device. -/
theorem holds_written (h : s.Opened t x path temp backup first d entry later source id mark place)
    (hu : t.Unaliased) (data : Bytes) (hdevice : t.find? place ≠ some .fullDevice) :
    s.Holds (t.applyAll (written place data)) temp data := by
  obtain ⟨rfl, hplain⟩ := (h.place_cases hu).resolve_right hdevice
  have hfile : ∃ i, (t.create place).find? place = some (.file i) := by
    rw [Tree.find?_create]
    cases hfind : t.find? place with
    | none => exact ⟨t.fresh, by simp⟩
    | some e =>
      have hdir := h.not_directory
      cases e with
      | file i => exact ⟨i, by simp⟩
      | directory => simp [Tree.isDirectory, hfind] at hdir
      | link target => exact absurd hfind (hplain target)
      | fullDevice => exact absurd hfind hdevice
  obtain ⟨i, hi⟩ := hfile
  have hwritten : (t.applyAll (written place data)).find? place = some (.file i) := by
    change ((t.create place).write place data).find? place = _
    rw [Tree.find?_write, hi]
  have hlast : (t.applyAll (written place data)).Leads d [temp.lastName] [] place :=
    .step (step_written.mpr h.step_temp) (by simp [hwritten]) (.here place)
  have hhouses := h.houses_onlyAt (h.onlyAt_written hu data)
  have hroute := hhouses.route h.sibling h.sound_temp hlast (by simpa using hhouses.few)
  exact holds_iff.mpr ⟨_, i, ⟨_, place, rfl, hroute, hwritten⟩, Tree.content_write_self hi⟩

section Ends

variable {calls : List Syscall} {notes : List Note}

theorem retains_discarded
    (h : s.Opened t x path temp backup first d entry later source id mark place) (hu : t.Unaliased)
    (hopen : s.openBoth past t o.encoding path temp = .ok (c, id, place)) {f : Fault}
    (hf : t.writeFault? place temp (s.process (past ++ [Syscall.openRead path, .openWrite temp])
      (t.apply (.create place)) o path temp c (t.content id)).output = some f) {lost : List Change}
    (hlost : s.Removes temp (t.applyAll (written place data)) lost) {a : Attempt}
    (ha : a = s.discard (past ++ [Syscall.openRead path, .openWrite temp])
      (t.applyAll (written place data ++ lost)) temp f)
    (hstored : ∀ cs, cs <+: written place data ++ lost ++ a.changes →
      s.Stored (t.applyAll cs) x path (t.content id)) :
    Retains s past t o x path (t.content id)
      ⟨written place data ++ lost ++ a.changes, calls, notes, a.result⟩ := by
  have hrename := writeFault?_not_ofRename hf
  have hresult : ∀ g, a.result = .error g → ¬ g.OfRename := by
    intro g hg
    rcases discard_result h.sound_temp with hd | ⟨e, -, -, hd⟩
    · rw [ha, hd] at hg
      cases hg
      exact hrename
    · rw [ha, hd] at hg
      cases hg
      exact Fault.not_ofRename rfl
  have hremoves := hlost.discard (past ++ [Syscall.openRead path, .openWrite temp]) f
  rw [← ha] at hremoves
  have honly := h.onlyAt_removed hu hremoves
  rw [← List.append_assoc] at honly
  refine ⟨hstored, fun _ _ _ => h.early hu honly, ?_, ?_, ?_⟩
  · intro temp' backup' c' id' place' f' htemp' _ hopen' hf' hrefuses
    obtain rfl : temp = temp' := Except.ok.inj (h.temp_eq.symm.trans htemp')
    rw [hopen] at hopen'
    cases hopen'
    rw [hf] at hf'
    cases hf'
    have hbefore := h.onlyAt_removed hu hlost
    have hplace := (h.place?_onlyAt hbefore h.sibling).trans h.place?_temp
    have hdir := (hbefore.directories mark).trans h.mark_not_directory
    obtain ⟨hdone, hgone⟩ := discard_of_place? (f := f) hrefuses hplace hdir
    rw [← ha, ← Tree.applyAll_append] at hgone
    refine ⟨by rw [ha, hdone], ?_⟩
    rw [sight?, h.place?_onlyAt honly h.sibling, h.place?_temp, Option.bind_some, Tree.sight?, hgone,
      Option.map_none]
  · exact fun g hg hcode => absurd (.inl hcode) (hresult g hg)
  · exact fun g hg hcode => absurd (.inr hcode) (hresult g hg)

/-- Without a fault there is no failure of processing. -/
theorem not_discarded (h : s.Opened t x path temp backup first d entry later source id mark place)
    (hopen : s.openBoth past t o.encoding path temp = .ok (c, id, place))
    (hmade : made = s.process (past ++ [Syscall.openRead path, .openWrite temp])
      (t.apply (.create place)) o path temp c (t.content id))
    (hf : t.writeFault? place temp made.output = none) {temp' : Path} {c' : Codec} {id' : Nat}
    {place' : Place} {f' : Fault} (htemp : path.addSuffix x.temp = .ok temp')
    (hopen' : s.openBoth past t o.encoding path temp' = .ok (c', id', place'))
    (hf' : t.writeFault? place' temp' (s.process (past ++ [Syscall.openRead path, .openWrite temp'])
      (t.apply (.create place')) o path temp' c' (t.content id)).output = some f') : False := by
  obtain rfl : temp = temp' := Except.ok.inj (h.temp_eq.symm.trans htemp)
  rw [hopen] at hopen'
  cases hopen'
  rw [← hmade, hf] at hf'
  cases hf'

theorem retains_unmoved (h : s.Opened t x path temp backup first d entry later source id mark place)
    (hu : t.Unaliased) (hopen : s.openBoth past t o.encoding path temp = .ok (c, id, place))
    (hmade : made = s.process (past ++ [Syscall.openRead path, .openWrite temp])
      (t.apply (.create place)) o path temp c (t.content id))
    (hf : t.writeFault? place temp made.output = none) {past' : List Syscall} {trouble : Trouble}
    (hfirst : s.rename past' (t.applyAll (written place made.output.data)) path backup = .error trouble)
    (hstored : ∀ cs, cs <+: written place made.output.data →
      s.Stored (t.applyAll cs) x path (t.content id)) :
    Retains s past t o x path (t.content id)
      ⟨written place made.output.data, calls, notes, .error (trouble.fault (.backup path backup))⟩ := by
  refine ⟨hstored, fun _ _ _ => h.early hu (h.onlyAt_written hu _), ?_, ?_, ?_⟩
  · exact fun _ _ _ _ _ f' htemp _ hopen' hf' _ => (h.not_discarded hopen hmade hf htemp hopen' hf').elim
  · intro g hg hcode
    obtain ⟨hfault, hdevice⟩ := writeFault?_eq_none hf
    rw [hmade] at hfault
    obtain ⟨plate, hplate, heq⟩ := process_eq hfault
    rw [heq] at hfault
    rw [← hmade] at heq
    refine ⟨temp, c, id, place, plate, h.temp_eq, hopen, hplate, hfault, ?_⟩
    by_cases hfull : t.find? place = some .fullDevice
    · right
      rw [← heq]
      exact ⟨hfull, hdevice hfull⟩
    · left
      rw [← heq]
      exact h.holds_written hu _ hfull
  · intro g hg hcode
    cases trouble with
    | path g' =>
      obtain rfl := Except.error.inj hg
      have hnone : (Trouble.fault (.backup path backup) (.path g')).exitCode? = none := by
        rcases rename_path_error hfirst with hnames | hnames <;> exact Path.exitCode?_names hnames
      rw [hnone] at hcode
      cases hcode
    | system e =>
      obtain rfl := Except.error.inj hg
      cases hcode

theorem retains_halfway (h : s.Opened t x path temp backup first d entry later source id mark place)
    (hu : t.Unaliased) (hopen : s.openBoth past t o.encoding path temp = .ok (c, id, place))
    (hmade : made = s.process (past ++ [Syscall.openRead path, .openWrite temp])
      (t.apply (.create place)) o path temp c (t.content id))
    (hf : t.writeFault? place temp made.output = none) {past' past'' : List Syscall} {a b : Place}
    (hfirst : s.rename past' (t.applyAll (written place made.output.data)) path backup = .ok (a, b))
    {trouble : Trouble}
    (hsecond : s.rename past'' (t.applyAll (written place made.output.data ++ [Change.rename a b]))
      temp path = .error trouble)
    (hstored : ∀ cs, cs <+: written place made.output.data ++ [Change.rename a b] →
      s.Stored (t.applyAll cs) x path (t.content id)) :
    Retains s past t o x path (t.content id)
      ⟨written place made.output.data ++ [Change.rename a b], calls, notes,
        .error (trouble.fault (.rename temp path))⟩ := by
  obtain ⟨-, -, hcontent, way, hfinds, -⟩ := h.first_rename (h.free hu) (h.backup_apart hu) hfirst
  obtain ⟨e, rfl⟩ : ∃ e, trouble = .system e := by
    cases trouble with
    | path g =>
      rcases rename_path_error hsecond with hnames | hnames
      · exact absurd hnames (h.sound_temp.names_ne g)
      · exact absurd hnames (h.stands.sound.names_ne g)
    | system e => exact ⟨e, rfl⟩
  refine ⟨hstored, ?_, ?_, ?_, ?_⟩
  · intro g hg hcode
    obtain rfl := Except.error.inj hg
    exact absurd rfl hcode
  · exact fun _ _ _ _ _ f' htemp _ hopen' hf' _ => (h.not_discarded hopen hmade hf htemp hopen' hf').elim
  · intro g hg hcode
    obtain rfl := Except.error.inj hg
    cases hcode
  · intro g _ _
    exact ⟨backup, h.backup_eq, holds_iff.mpr ⟨way, id, hfinds, hcontent⟩⟩

end Ends

/-- However the attempt ends once the files are open, the original is retained. -/
theorem retains (h : s.Opened t x path temp backup first d entry later source id mark place)
    (hu : t.Unaliased) (hopen : s.openBoth past t o.encoding path temp = .ok (c, id, place))
    (hmade : made = s.process (past ++ [Syscall.openRead path, .openWrite temp])
      (t.apply (.create place)) o path temp c (t.content id))
    {a : Attempt}
    (ha : Produced s (past ++ [Syscall.openRead path, .openWrite temp]) t path temp backup place made a) :
    Retains s past t o x path (t.content id) (a.after [] [.openRead path, .openWrite temp] []) := by
  have hstored (cs : List Change) (hcs : cs <+: a.changes) :=
    (h.keeps (h.free hu) (h.mark_apart hu) (h.backup_apart hu) ha hcs).stored
  cases ha with
  | discarded hf hlost =>
    rw [hmade] at hf
    exact h.retains_discarded hu hopen hf hlost rfl hstored
  | unmoved hf hfirst => exact h.retains_unmoved hu hopen hmade hf hfirst hstored
  | halfway hf hfirst hsecond => exact h.retains_halfway hu hopen hmade hf hfirst hsecond hstored
  | done hf _ _ =>
    refine ⟨hstored, ?_, ?_, ?_, ?_⟩
    · exact fun g hg => nomatch hg
    · exact fun _ _ _ _ _ f' htemp _ hopen' hf' _ => (h.not_discarded hopen hmade hf htemp hopen' hf').elim
    · exact fun g hg => nomatch hg
    · exact fun g hg => nomatch hg

end Opened

/-- A file that is annotated is never lost, whatever fails: the opening of the file or of the temporary
one, its processing, the removal of the temporary file, or a rename. -/
theorem annotateInPlace_retains (hu : t.Unaliased) (h : s.Holds t path original) (past : List Syscall)
    (o : Options) (x : Suffixes) :
    Retains s past t o x path original (s.annotateInPlace past t o x path) := by
  have htried := s.annotateInPlace_tried past t o x path
  generalize s.annotateInPlace past t o x path = a at htried
  cases htried with
  | @unnamed f hf =>
    have hcode : ¬ f.OfRename := by
      rcases hf with hf | hf <;> exact Fault.not_ofRename (Path.exitCode?_addSuffix hf)
    refine retains_unopened h hcode ?_
    intro temp backup opened htemp hbackup
    rcases hf with hf | hf
    · rw [hf] at htemp
      cases htemp
    · rw [hf] at hbackup
      cases hbackup
  | @unopened temp backup f htemp hbackup hf =>
    refine retains_unopened h (openBoth_not_ofRename hf) ?_
    intro temp' backup' opened htemp' _ hopen
    obtain rfl : temp = temp' := Except.ok.inj (htemp.symm.trans htemp')
    rw [hf] at hopen
    cases hopen
  | opened htemp hbackup hopen hproduced =>
    obtain ⟨way, id, hfinds, rfl⟩ := holds_iff.mp h
    obtain ⟨first, d, entry, later, source, mark, hopened, -⟩ :=
      exists_opened_of_openBoth hopen htemp hbackup
    obtain ⟨rfl, rfl⟩ := hfinds.unique hopened.stands.finds
    have hcontent := Tree.content_create_of_ne hopened.stands.file (hopened.free hu)
    refine hopened.retains hu hopen rfl ?_
    rw [← hcontent]
    exact hproduced

/-- The second rename is refused: the original is at its backup. -/
theorem annotateInPlace_retains_halfway :
    let path := Path.ofString "a.c"
    let temp := Path.ofString "a.c.new"
    let s : Site :=
      { here := []
        refuses := fun _ call => if call = .rename temp path then some .denied else none }
    let t : Tree := ⟨[([Name.ofText (.ofString "a.c")], .file 0)], [(0, [105])]⟩
    let x : Suffixes := ⟨.ofString ".new", .ofString ".bak", by decide, by decide⟩
    t.Unaliased ∧ s.Holds t path [105] ∧
    (s.annotateInPlace [] t {} x path).result = .error (.rename temp path) ∧
    Retains s [] t {} x path [105] (s.annotateInPlace [] t {} x path) := by
  intro path temp s t x
  have hu : t.Unaliased := by decide +kernel
  have h : s.Holds t path [105] := by decide +kernel
  exact ⟨hu, h, by decide +kernel, annotateInPlace_retains hu h [] {} x⟩

/-- With one name for the temporary file and the backup, an earlier backup is gone when memory runs
out. -/
theorem earlier_backup_discarded :
    let path := Path.ofString "a.c"
    let backup := Path.ofString "a.c.bak"
    let s : Site := { here := [], breaksDown := fun _ _ => some {} }
    let t : Tree :=
      ⟨[([Name.ofText (.ofString "a.c")], .file 0), ([Name.ofText (.ofString "a.c.bak")], .file 1)],
        [(0, [105]), (1, [111])]⟩
    let a := s.annotateInPlace [] t {} ⟨.ofString ".bak", .ofString ".bak", by decide, by decide⟩ path
    t.Unaliased ∧ a.result = .error (.memory path) ∧
      s.sight? t backup = some (.file 1, some [111]) ∧ s.sight? (t.applyAll a.changes) backup = none := by
  decide +kernel

end Site

end DocBlock
