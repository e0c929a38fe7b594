import Mathlib
import DocBlock.Proofs.Faults
import DocBlock.Proofs.Walk

/-! Where paths lead. A path and its siblings stand in one directory, under names of which one
continues the other; what the system answers to a call says where its path leads. -/

namespace DocBlock

namespace Name

theorem ofText_append (a b : Text) : ofText (a ++ b) = ofText a ++ ofText b := by
  simp [ofText]

/-- Only half of a surrogate pair leaves no trace in a name. -/
theorem ofText_ne_nil {t : Text} (h : t ≠ []) (hs : ∀ c ∈ t, c.isSurrogate = false) : ofText t ≠ [] := by
  obtain ⟨c, rest, rfl⟩ := List.exists_cons_of_ne_nil h
  have hc := hs c List.mem_cons_self
  cases c with
  | char c =>
    have hne : String.utf8EncodeChar c ≠ [] := by
      intro hnil
      have hlength := String.length_utf8EncodeChar c
      have hpos := c.utf8Size_pos
      rw [hnil, List.length_nil] at hlength
      omega
    simp [ofText, Encoding.encodeSym?, hne]
  | byte b => simp [ofText, Encoding.encodeSym?]
  | surrogate u => cases hc

end Name

namespace Path

variable {path q : Path} {suffix part : Text} {names : List Name}

/-- The system can take the path, and no file is ruled out by its form alone. -/
structure Sound (p : Path) : Prop where
  fault_eq : nameFault? p.toText = none
  error_eq : p.error? = none

theorem Sound.names_ne (h : path.Sound) (f : Fault) : path.names ≠ .error f := by
  simp [names, h.fault_eq]

theorem names_eq_ok : path.names = .ok names ↔
    nameFault? path.toText = none ∧ path.parts.map Name.ofText = names := by
  unfold Path.names
  split <;> simp_all

theorem subset_toText (h : part ∈ path.parts) : part ⊆ path.toText := by
  have htail (l : List Text) (h : part ∈ l) : part ⊆ List.intercalate [Sym.char '/'] l := by
    induction l with
    | nil => cases h
    | cons a l ih =>
      cases l with
      | nil =>
        obtain rfl := List.mem_singleton.mp h
        simp [List.intercalate]
      | cons b l =>
        have hcons : List.intercalate [Sym.char '/'] (a :: b :: l) =
            a ++ (Sym.char '/' :: List.intercalate [Sym.char '/'] (b :: l)) := by
          simp [List.intercalate]
        rw [hcons]
        rcases List.mem_cons.mp h with rfl | h
        · exact List.subset_append_left _ _
        · exact fun c hc => List.mem_append_right _ (List.mem_cons_of_mem _ (ih h hc))
  have hne : path.parts.isEmpty = false := by
    cases hp : path.parts with
    | nil =>
      rw [hp] at h
      cases h
    | cons => rfl
  intro c hc
  have hmem := htail path.parts h hc
  unfold toText
  cases path.anchor <;> simp [hne, hmem]

theorem Sound.not_isSurrogate (h : path.Sound) (hpart : part ∈ path.parts) :
    ∀ c ∈ part, c.isSurrogate = false := by
  have hfault := h.fault_eq
  unfold nameFault? at hfault
  split at hfault
  · cases hfault
  · next hany =>
    simp only [List.any_eq_true, not_exists, not_and, Bool.not_eq_true] at hany
    exact fun c hc => hany c (subset_toText hpart hc)

/-- The names on the way to the directory of a path. -/
def above (p : Path) : List Name := p.parts.dropLast.map Name.ofText

/-- Another path in the same directory, or the path itself. -/
structure IsSibling (path q : Path) : Prop where
  anchor_eq : q.anchor = path.anchor
  parts_eq : q.parts = path.parts.dropLast ++ [q.name]

theorem addSuffix_eq_ok (h : path.addSuffix suffix = .ok q) :
    path.IsSibling path ∧ path.IsSibling q ∧ q.name = path.name ++ suffix := by
  unfold addSuffix at h
  split at h
  · cases h
  · next hname =>
    split at h <;> cases h
    refine ⟨⟨rfl, ?_⟩, ⟨rfl, ?_⟩, ?_⟩
    · rcases List.eq_nil_or_concat' path.parts with hnil | ⟨init, last, he⟩
      · simp [name, hnil] at hname
      · simp [name, he]
    · simp [withName, name]
    · simp [withName, name]

/-- The last name as the system has it. -/
def lastName (p : Path) : Name := Name.ofText p.name

theorem IsSibling.map_parts (h : path.IsSibling q) :
    q.parts.map Name.ofText = path.above ++ [q.lastName] := by
  rw [h.parts_eq]
  simp [above, lastName]

/-- A suffix lengthens the name. -/
theorem lastName_addSuffix (h : path.addSuffix suffix = .ok q) :
    q.lastName = path.lastName ++ Name.ofText suffix := by
  rw [lastName, (addSuffix_eq_ok h).2.2, Name.ofText_append]
  rfl

theorem lastName_ne_of_addSuffix (h : path.addSuffix suffix = .ok q) (hsuffix : suffix ≠ [])
    (hq : q.Sound) : q.lastName ≠ path.lastName := by
  obtain ⟨-, hsibling, hname⟩ := addSuffix_eq_ok h
  have hmem : q.name ∈ q.parts := by
    rw [hsibling.parts_eq]
    simp
  have hpure := hq.not_isSurrogate hmem
  rw [hname] at hpure
  have hne := Name.ofText_ne_nil hsuffix fun c hc => hpure c (List.mem_append_right _ hc)
  rw [lastName_addSuffix h]
  intro he
  exact hne (by simpa using he)

end Path

namespace Site

variable {s : Site} {past : List Syscall} {t t' : Tree} {path p q : Path} {place d : Place}
  {links first later : List Place} {call : Syscall} {find : Place → List Name → Except SystemError Place}

theorem locate_eq_ok : s.locate find p = .ok place ↔
    p.Sound ∧ find (s.start p) (p.parts.map Name.ofText) = .ok place := by
  unfold locate
  split
  · next f hn =>
    simp only [reduceCtorEq, false_iff, not_and]
    intro hsound
    rw [Path.names_eq_ok.mpr ⟨hsound.fault_eq, rfl⟩] at hn
    cases hn
  · next e _ he =>
    simp only [reduceCtorEq, false_iff, not_and]
    intro hsound
    rw [hsound.error_eq] at he
    cases he
  · next names hn he =>
    obtain ⟨hfault, rfl⟩ := Path.names_eq_ok.mp hn
    rw [and_iff_right ⟨hfault, he⟩]
    cases find (s.start p) (p.parts.map Name.ofText) <;> simp [Except.mapError]

theorem place?_eq_some : s.place? t p = some place ↔ s.locate t.entryPlace p = .ok place := by
  unfold place?
  cases s.locate t.entryPlace p <;> simp [Except.toOption]

/-- The path leads to the place by way of these links. -/
structure Route (s : Site) (t : Tree) (p : Path) (links : List Place) (place : Place) : Prop where
  sound : p.Sound
  few : links.length ≤ Tree.maxLinks
  leads : t.Leads (s.start p) (p.parts.map Name.ofText) links place

theorem Route.unique {links' : List Place} {place' : Place} (h : s.Route t p links place)
    (h' : s.Route t p links' place') : links = links' ∧ place = place' :=
  h.leads.unique h'.leads

theorem locate_follow_eq_ok : s.locate t.follow p = .ok place ↔ ∃ links, s.Route t p links place := by
  rw [locate_eq_ok, Tree.follow_eq_ok]
  constructor
  · rintro ⟨hsound, links, hfew, hleads⟩
    exact ⟨links, hsound, hfew, hleads⟩
  · rintro ⟨links, hsound, hfew, hleads⟩
    exact ⟨hsound, links, hfew, hleads⟩

theorem reach?_eq_some : s.reach? t p = some place ↔ ∃ links, s.Route t p links place := by
  rw [← locate_follow_eq_ok, reach?]
  cases s.locate t.follow p <;> simp [Except.toOption]

/-- The directory that a path and its siblings stand in, and the links on the way to it. -/
structure Houses (s : Site) (t : Tree) (p : Path) (links : List Place) (d : Place) : Prop where
  few : links.length ≤ Tree.maxLinks
  leads : t.Leads (s.start p) p.above links d

theorem Houses.unique {links' : List Place} {d' : Place} (h : s.Houses t p links d)
    (h' : s.Houses t p links' d') : links = links' ∧ d = d' :=
  h.leads.unique h'.leads

theorem start_sibling (h : path.IsSibling q) : s.start q = s.start path := by
  simp [start, Path.isAbsolute, h.anchor_eq]

/-- A sibling stands where its name stands in the directory. -/
theorem place?_sibling (h : path.IsSibling q) : s.place? t q = some place ↔
    q.Sound ∧ ∃ links d, s.Houses t path links d ∧ t.step d q.lastName = .ok place := by
  rw [place?_eq_some, locate_eq_ok, h.map_parts, start_sibling h]
  refine and_congr_right fun _ => ?_
  simp only [Tree.entryPlace, List.getLast?_concat, List.dropLast_concat]
  cases hd : t.follow (s.start path) path.above with
  | error e =>
    simp only [reduceCtorEq, false_iff, not_exists, not_and]
    rintro links d ⟨hfew, hleads⟩ -
    rw [Tree.follow_eq_ok.mpr ⟨links, hfew, hleads⟩] at hd
    cases hd
  | ok d =>
    obtain ⟨links, hfew, hleads⟩ := Tree.follow_eq_ok.mp hd
    constructor
    · exact fun hstep => ⟨links, d, ⟨hfew, hleads⟩, hstep⟩
    · rintro ⟨links', d', hhouses, hstep⟩
      obtain ⟨-, rfl⟩ := hleads.unique hhouses.leads
      exact hstep

theorem Houses.place?_eq (h : s.Houses t path first d) (hq : path.IsSibling q) :
    s.place? t q = some place ↔ q.Sound ∧ t.step d q.lastName = .ok place := by
  rw [place?_sibling hq]
  refine and_congr_right fun _ => ⟨?_, fun hstep => ⟨first, d, h, hstep⟩⟩
  rintro ⟨links, d', hhouses, hstep⟩
  obtain ⟨-, rfl⟩ := h.unique hhouses
  exact hstep

/-- A way to a sibling goes to its directory first. -/
theorem Route.of_sibling (hq : path.IsSibling q) (h : s.Route t q links place) :
    ∃ first d later, links = first ++ later ∧ s.Houses t path first d ∧
      t.Leads d [q.lastName] later place := by
  have hleads := h.leads
  rw [hq.map_parts, start_sibling hq] at hleads
  obtain ⟨first, d, later, rfl, hfirst, hlater⟩ := hleads.split
  have hfew := h.few
  rw [List.length_append] at hfew
  exact ⟨first, d, later, rfl, ⟨by omega, hfirst⟩, hlater⟩

theorem Houses.route (h : s.Houses t path first d) (hq : path.IsSibling q) (hsound : q.Sound)
    (hlater : t.Leads d [q.lastName] later place) (hfew : (first ++ later).length ≤ Tree.maxLinks) :
    s.Route t q (first ++ later) place := by
  refine ⟨hsound, hfew, ?_⟩
  rw [hq.map_parts, start_sibling hq]
  exact h.leads.append hlater

/-! What an answer of the system says. -/

section Calls

variable {id : Nat} {f : Fault} {place' : Place}

theorem ask_eq_ok (h : s.ask past call find p = .ok place) :
    s.locate find p = .ok place ∧ s.refuses past call = none := by
  unfold ask at h
  split at h
  · cases h
  · cases h
  · next hrefuses => exact ⟨h, hrefuses⟩

theorem locate_path_error (h : s.locate find p = .error (.path f)) : p.names = .error f := by
  unfold locate at h
  split at h
  · next hn =>
    obtain rfl := Trouble.path.inj (Except.error.inj h)
    exact hn
  · cases h
  · next names _ _ => cases hfound : find (s.start p) names <;> rw [hfound] at h <;> cases h

theorem ask_path_error (h : s.ask past call find p = .error (.path f)) : p.names = .error f := by
  unfold ask at h
  split at h
  · next hn =>
    obtain rfl := Trouble.path.inj (Except.error.inj h)
    exact hn
  · cases h
  · exact locate_path_error h

/-- A call that asks for one place fails over a path only if it is this one. -/
theorem bind_path_error {α : Type} {g : Place → Except Trouble α}
    (h : s.ask past call find p >>= g = .error (.path f)) (hg : ∀ q, g q ≠ .error (.path f)) :
    p.names = .error f := by
  rcases Except.bind_eq_error.mp h with h | ⟨q, -, h⟩
  · exact ask_path_error h
  · exact absurd h (hg q)

theorem ask_of_not_refused (h : s.refuses past call = none) (hp : s.locate find p = .ok place) :
    s.ask past call find p = .ok place := by
  have hsound := (locate_eq_ok.mp hp).1
  unfold ask
  rw [Path.names_eq_ok.mpr ⟨hsound.fault_eq, rfl⟩, h]
  exact hp

theorem openRead_eq_ok (h : s.openRead past t p = .ok id) :
    ∃ links place, s.Route t p links place ∧ t.find? place = some (.file id) := by
  obtain ⟨place, hask, h⟩ := Except.bind_eq_ok.mp h
  obtain ⟨links, hroute⟩ := locate_follow_eq_ok.mp (ask_eq_ok hask).1
  refine ⟨links, place, hroute, ?_⟩
  split at h <;> cases h
  assumption

theorem openWrite_eq_ok (h : s.openWrite past t p = .ok place) :
    (∃ links, s.Route t p links place) ∧ t.isDirectory place = false := by
  obtain ⟨q, hask, h⟩ := Except.bind_eq_ok.mp h
  have hdir : t.isDirectory q = false := by
    by_contra hd
    rw [if_pos (by simpa using hd)] at h
    cases h
  rw [if_neg (by simp [hdir])] at h
  cases h
  exact ⟨locate_follow_eq_ok.mp (ask_eq_ok hask).1, hdir⟩

theorem remove_eq_ok (h : s.remove past t p = .ok place) :
    s.place? t p = some place ∧ t.isDirectory place = false := by
  obtain ⟨q, hask, h⟩ := Except.bind_eq_ok.mp h
  have hplace := place?_eq_some.mpr (ask_eq_ok hask).1
  split at h
  · cases h
  · next e hnot hfind =>
    cases h
    exact ⟨hplace, Tree.isDirectory_of_find? hfind hnot⟩
  · cases h

theorem remove_path_error (h : s.remove past t p = .error (.path f)) : p.names = .error f :=
  bind_path_error h fun q hq => by split at hq <;> cases hq

/-- Unless the system refuses, what is no directory is removed, or there is nothing to remove. -/
theorem remove_of_place? (hrefuses : s.refuses past (.remove p) = none)
    (hp : s.place? t p = some place) (hdir : t.isDirectory place = false) :
    s.remove past t p = .ok place ∨
      t.find? place = none ∧ s.remove past t p = .error (.system .noEntry) := by
  unfold remove
  rw [ask_of_not_refused hrefuses (place?_eq_some.mp hp)]
  cases hfind : t.find? place with
  | none =>
    right
    simp [bind, Except.bind, hfind, throw, throwThe, MonadExceptOf.throw]
  | some e =>
    left
    have hne : e ≠ .directory := by
      rintro rfl
      simp [Tree.isDirectory, hfind] at hdir
    cases e <;> simp_all [bind, Except.bind, pure, Except.pure]

/-- What is no directory is not removed only if the system refuses. -/
theorem refuses_of_remove {e : SystemError} (hp : s.place? t p = some place)
    (hdir : t.isDirectory place = false) (h : s.remove past t p = .error (.system e))
    (hcode : e.code ≠ SystemError.noEntry.code) : s.refuses past (.remove p) = some e := by
  cases hr : s.refuses past (.remove p) with
  | none =>
    rcases remove_of_place? hr hp hdir with hok | ⟨-, hnone⟩
    · rw [hok] at h
      cases h
    · rw [hnone] at h
      cases h
      exact absurd rfl hcode
  | some e' =>
    rcases Except.bind_eq_error.mp h with hask | ⟨q, hask, -⟩
    · unfold ask at hask
      rw [hr] at hask
      split at hask
      · cases hask
      · next heq => simp_all
      · next heq => cases heq
    · rw [(ask_eq_ok hask).2] at hr
      cases hr

theorem rename_eq_ok (h : s.rename past t p q = .ok (place, place')) :
    s.place? t p = some place ∧ s.place? t q = some place' ∧
      (∃ e, t.find? place = some e ∧ e ≠ .directory) ∧ t.isDirectory place' = false := by
  unfold rename at h
  simp only [Except.bind_eq_ok] at h
  obtain ⟨-, -, -, -, a, ha, b, hb, h⟩ := h
  have hplace := place?_eq_some.mpr (ask_eq_ok ha).1
  have hplace' := place?_eq_some.mpr (ask_eq_ok hb).1
  split at h
  · cases h
  · next hsome =>
    split at h
    · cases h
    · next hdir =>
      cases h
      rw [Bool.not_eq_true, Option.isNone_eq_false_iff, Option.isSome_iff_exists] at hsome
      obtain ⟨e, he⟩ := hsome
      rw [Bool.or_eq_true, not_or, Bool.not_eq_true, Bool.not_eq_true] at hdir
      refine ⟨hplace, hplace', ⟨e, he, ?_⟩, hdir.2⟩
      rintro rfl
      simp [Tree.isDirectory, he] at hdir

theorem rename_path_error (h : s.rename past t p q = .error (.path f)) :
    p.names = .error f ∨ q.names = .error f := by
  unfold rename at h
  simp only [Except.bind_eq_error] at h
  rcases h with h | ⟨-, -, h | ⟨-, -, h | ⟨a, -, h | ⟨b, -, h⟩⟩⟩⟩
  · left
    cases hn : p.names <;> rw [hn] at h <;> cases h
    rfl
  · right
    cases hn : q.names <;> rw [hn] at h <;> cases h
    rfl
  · exact .inl (ask_path_error h)
  · exact .inr (ask_path_error h)
  · split at h
    · cases h
    · split at h <;> cases h

theorem openRead_path_error (h : s.openRead past t p = .error (.path f)) : p.names = .error f :=
  bind_path_error h fun q hq => by split at hq <;> cases hq

theorem openWrite_path_error (h : s.openWrite past t p = .error (.path f)) : p.names = .error f :=
  bind_path_error h fun q hq => by split at hq <;> cases hq

theorem codec_eq_error {name : String} (h : s.codec name = .error f) :
    s.codecs name = none ∧ f = .unknownEncoding name := by
  unfold codec at h
  split at h <;> cases h
  exact ⟨by assumption, rfl⟩

/-- Why the two files cannot be opened. -/
theorem openBoth_fault {encoding : Text} {temp : Path}
    (h : s.openBoth past t encoding path temp = .error f) :
    Encoding.spelled encoding = .error f ∨
    (∃ name, Encoding.spelled encoding = .ok name ∧ s.codecs name = none ∧ f = .unknownEncoding name) ∨
    path.names = .error f ∨ temp.names = .error f ∨ f = .read path ∨ f = .openTemp temp := by
  rcases Except.bind_eq_error.mp h with h | ⟨name, hname, h⟩
  · exact .inl h
  rcases Except.bind_eq_error.mp h with h | ⟨id, -, h⟩
  · obtain ⟨trouble, hopen, rfl⟩ := Except.mapError_eq_error.mp h
    cases trouble with
    | path g => exact .inr (.inr (.inl (openRead_path_error hopen)))
    | system e => exact .inr (.inr (.inr (.inr (.inl rfl))))
  rcases Except.bind_eq_error.mp h with h | ⟨c, -, h⟩
  · exact .inr (.inl ⟨name, hname, codec_eq_error h⟩)
  rcases Except.bind_eq_error.mp h with h | ⟨place, -, h⟩
  · obtain ⟨trouble, hopen, rfl⟩ := Except.mapError_eq_error.mp h
    cases trouble with
    | path g => exact .inr (.inr (.inr (.inl (openWrite_path_error hopen))))
    | system e => exact .inr (.inr (.inr (.inr (.inr rfl))))
  · cases h

/-- What reading the boilerplate ends in, if not in a text. -/
theorem readBoilerplate_fault {encoding : Text}
    (h : s.readBoilerplate past t encoding p = .error f) :
    f.exitCode? = none ∨ f = .boilerplate p := by
  rcases Except.bind_eq_error.mp h with h | ⟨name, -, h⟩
  · exact .inl (Encoding.exitCode?_spelled h)
  rcases Except.bind_eq_error.mp h with h | ⟨id, -, h⟩
  · obtain ⟨trouble, hopen, rfl⟩ := Except.mapError_eq_error.mp h
    cases trouble with
    | path g => exact .inl (Path.exitCode?_names (openRead_path_error hopen))
    | system e => exact .inr rfl
  rcases Except.bind_eq_error.mp h with h | ⟨c, -, h⟩
  · rw [(codec_eq_error h).2]
    exact .inl rfl
  · simp only at h
    split at h <;> cases h
    exact .inl rfl

/-- What goes wrong with the boilerplate has no exit code, or that of a missing one. -/
theorem boilerplate?_fault {o : Options}
    (h : s.boilerplate? past t o = .error f ∨ s.boilerplate? past t o = .ok (some (.error f))) :
    f.exitCode? = none ∨ f.exitCode? = some .boilerplate := by
  unfold boilerplate? at h
  split at h
  · rcases h with h | h <;> cases h
  · next written _ =>
    rcases h with h | h
    · rcases Except.bind_eq_error.mp h with h | ⟨q, -, h⟩
      · exact .inl (exitCode?_expandHome h)
      · cases h
    · obtain ⟨q, -, h⟩ := Except.bind_eq_ok.mp h
      rcases readBoilerplate_fault (Option.some.inj (Except.ok.inj h)) with hnone | rfl
      · exact .inl hnone
      · exact .inr rfl

/-- Writing the output fails at a device that is full, or with the output itself. -/
theorem writeFault?_eq_some {out : Output UInt8} {temp : Path}
    (h : t.writeFault? place temp out = some f) : f = .write temp .noSpace ∨ out.fault = some f := by
  unfold Tree.writeFault? at h
  split at h
  · exact .inl (Option.some.inj h).symm
  · exact .inr h

theorem writeFault?_eq_none {out : Output UInt8} {temp : Path}
    (h : t.writeFault? place temp out = none) :
    out.fault = none ∧ (t.find? place = some .fullDevice → out.data = []) := by
  unfold Tree.writeFault? at h
  split at h
  · cases h
  · next hfull =>
    refine ⟨h, fun hdevice => ?_⟩
    simpa [hdevice] using hfull

theorem writeFault?_not_ofRename {o : Options} {temp : Path} {t' : Tree} {c : Codec} {bytes : Bytes}
    (h : t.writeFault? place temp (s.process past t' o path temp c bytes).output = some f) :
    ¬ f.OfRename := by
  rcases writeFault?_eq_some h with rfl | h
  · simp [Fault.OfRename, Fault.exitCode?]
  rcases process_fault h with ⟨b, -, rfl⟩ | h | ⟨plate, hplate, h⟩
  · unfold Breakdown.fileFault
    split <;> simp [Fault.OfRename, Fault.exitCode?]
  · rcases boilerplate?_fault (.inl h) with h | h <;> simp [Fault.OfRename, h]
  rcases annotateBytes_fault h with rfl | ⟨rfl, -⟩ | rfl
  · simp [Fault.OfRename, Fault.exitCode?]
  · simp [Fault.OfRename, Fault.exitCode?]
  · rcases boilerplate?_fault (.inr hplate) with h | h <;> simp [Fault.OfRename, h]

theorem openBoth_not_ofRename {encoding : Text} {temp : Path}
    (h : s.openBoth past t encoding path temp = .error f) : ¬ f.OfRename := by
  rcases openBoth_fault h with h | ⟨name, -, -, rfl⟩ | h | h | rfl | rfl
  · exact Fault.not_ofRename (Encoding.exitCode?_spelled h)
  · simp [Fault.OfRename, Fault.exitCode?]
  · exact Fault.not_ofRename (Path.exitCode?_names h)
  · exact Fault.not_ofRename (Path.exitCode?_names h)
  · simp [Fault.OfRename, Fault.exitCode?]
  · simp [Fault.OfRename, Fault.exitCode?]

end Calls

end Site

end DocBlock
