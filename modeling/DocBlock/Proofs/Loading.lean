import Mathlib
import DocBlock.Command
import DocBlock.Proofs.Siblings

/-! What comes of a configuration file, in whatever state it is, and however its text is read and its
entries are checked. Most of what can be wrong with it is reported as an invalid configuration. What is
not is said exactly: a key at the top that is no text, and a boilerplate path that cannot be taken from
where it starts. -/

namespace DocBlock

namespace TextPlace

variable {linkAt : TextPlace → Option Target} {p : TextPlace} {parts : List Text} {f : Fault}

theorem resolveWith_fault {follow : TextPlace → TextPlace → Target → Except Unresolved TextPlace}
    (hfollow : ∀ q p target, follow q p target = .error (.fault f) →
      ∃ part, Path.nameFault? part = some f)
    (h : resolveWith linkAt follow p parts = .error (.fault f)) :
    ∃ part, Path.nameFault? part = some f := by
  induction parts generalizing p with
  | nil => cases h
  | cons part rest ih =>
    rw [resolveWith] at h
    split at h
    · exact ih h
    · split at h
      · next hpart =>
        cases h
        exact ⟨part, hpart⟩
      · exact ih h
      · split at h
        · exact ih h
        · cases h
        · next hfault =>
          cases h
          exact hfollow _ _ _ hfault

/-- A path whose links lead in no circle is not resolved for a part that is no name of a file. -/
theorem resolve_fault {links : Nat} {active : List TextPlace}
    (h : resolve linkAt links active p parts = .error (.fault f)) :
    ∃ part, Path.nameFault? part = some f := by
  induction links generalizing active p parts with
  | zero =>
    rw [resolve] at h
    exact resolveWith_fault (fun q p target hf => by simp at hf) h
  | succ links ih =>
    rw [resolve] at h
    refine resolveWith_fault (fun q p target hf => ?_) h
    simp only at hf
    split at hf
    · cases hf
    · exact ih hf

end TextPlace

namespace Site

variable {s : Site} {past : List Syscall} {t : Tree} {p : TextPlace} {parts : List Text} {config : Path}
  {w : Text} {f : Fault}

/-- Why the real path behind these parts cannot be told. -/
inductive Unreal (s : Site) (past : List Syscall) (t : Tree) (p : TextPlace) (parts : List Text) :
    Fault → Prop
  /-- A part on the way is no name of a file. -/
  | name {f : Fault}
    (h : TextPlace.resolve (s.linkAt past t) t.entries.length [] p parts = .error (.fault f)) :
    Unreal s past t p parts f
  /-- What the way ends at cannot be handed to the system. -/
  | path {q : TextPlace} {f : Fault}
    (h : TextPlace.resolve (s.linkAt past t) t.entries.length [] p parts ∈ [.ok q, .error (.loop q)])
    (hlook : s.look past t (TextPlace.toPath q) = .error (.path f)) : Unreal s past t p parts f
  /-- The links lead in a circle. -/
  | loop {q : TextPlace} {e : SystemError}
    (h : TextPlace.resolve (s.linkAt past t) t.entries.length [] p parts ∈ [.ok q, .error (.loop q)])
    (hlook : s.look past t (TextPlace.toPath q) = .error (.system e))
    (he : e.code = SystemError.tooManyLinks.code) :
    Unreal s past t p parts (.linkLoop (TextPlace.toPath q))

theorem checkedPlace_eq_error {q : TextPlace} : s.checkedPlace past t q = .error f ↔
    s.look past t (TextPlace.toPath q) = .error (.path f) ∨
      ∃ e, s.look past t (TextPlace.toPath q) = .error (.system e) ∧
        e.code = SystemError.tooManyLinks.code ∧ f = .linkLoop (TextPlace.toPath q) := by
  unfold checkedPlace
  cases hlook : s.look past t (TextPlace.toPath q) with
  | ok entry => simp
  | error trouble =>
    cases trouble with
    | path g => simp
    | system e =>
      by_cases he : e.code = SystemError.tooManyLinks.code
      · simp [he, eq_comm]
      · simp [he]

/-- The parts are followed to one place, whether or not in a circle. -/
theorem unreal_iff_of_resolve {q : TextPlace}
    (h : TextPlace.resolve (s.linkAt past t) t.entries.length [] p parts ∈ [.ok q, .error (.loop q)]) :
    s.Unreal past t p parts f ↔ s.checkedPlace past t q = .error f := by
  rw [checkedPlace_eq_error]
  constructor
  · have hunique {r : TextPlace} (hr : TextPlace.resolve (s.linkAt past t) t.entries.length [] p parts ∈
        [.ok r, .error (.loop r)]) : r = q := by
      rcases List.mem_pair.mp h with h | h <;> rcases List.mem_pair.mp hr with hr | hr <;>
        rw [h] at hr <;> cases hr <;> rfl
    rintro (hfault | ⟨hr, hlook⟩ | ⟨hr, hlook, he⟩)
    · rw [hfault] at h
      simp at h
    · rw [hunique hr] at hlook
      exact .inl hlook
    · rw [hunique hr] at hlook ⊢
      exact .inr ⟨_, hlook, he, rfl⟩
  · rintro (hlook | ⟨e, hlook, he, rfl⟩)
    · exact .path h hlook
    · exact .loop h hlook he

theorem realPlace_eq_error : s.realPlace past t p parts = .error f ↔ s.Unreal past t p parts f := by
  unfold realPlace
  split
  · next g hg =>
    constructor
    · intro hf
      cases hf
      exact .name hg
    · rintro (hfault | ⟨hr, -⟩ | ⟨hr, -, -⟩)
      · rw [hg] at hfault
        cases hfault
        rfl
      · simp [hg] at hr
      · simp [hg] at hr
  · next q hq => exact (unreal_iff_of_resolve (by simp [hq])).symm
  · next q hq => exact (unreal_iff_of_resolve (by simp [hq])).symm

theorem look_path_error {q : Path} (h : s.look past t q = .error (.path f)) : q.names = .error f :=
  bind_path_error h fun place hplace => by split at hplace <;> cases hplace

theorem Unreal.exitCode? (h : s.Unreal past t p parts f) : f.exitCode? = none := by
  cases h with
  | name h =>
    obtain ⟨part, hf⟩ := TextPlace.resolve_fault h
    exact Path.exitCode?_nameFault? hf
  | path _ hlook => exact Path.exitCode?_names (look_path_error hlook)
  | loop => rfl

/-- Why a boilerplate path in a configuration file cannot be taken from where it starts. -/
inductive Unplaceable (s : Site) (t : Tree) (config : Path) (w : Text) : Fault → Prop
  /-- It starts in a home directory that is not known. -/
  | home {f : Fault} (h : s.expandHome (Path.ofText w) = .error f) : Unplaceable s t config w f
  /-- It starts in the directory of the configuration file, whose real path cannot be told. -/
  | directory {expanded : Path} {f : Fault} (h : s.expandHome (Path.ofText w) = .ok expanded)
    (hrelative : expanded.isAbsolute = false)
    (hreal : s.Unreal (Settings.loadingCalls config) t ((s.start config).map Name.toText) config.parts f) :
    Unplaceable s t config w f
  /-- It starts there, but its own real path cannot be told. -/
  | path {expanded : Path} {file : TextPlace} {f : Fault} (h : s.expandHome (Path.ofText w) = .ok expanded)
    (hrelative : expanded.isAbsolute = false)
    (hfile : s.realPlace (Settings.loadingCalls config) t ((s.start config).map Name.toText) config.parts =
      .ok file)
    (hreal : s.Unreal (Settings.loadingCalls config) t file.dropLast (Path.ofText w).parts f) :
    Unplaceable s t config w f

theorem Unplaceable.exitCode? (h : s.Unplaceable t config w f) : f.exitCode? = none := by
  cases h with
  | home h => exact exitCode?_expandHome h
  | directory _ _ hreal | path _ _ _ hreal => exact hreal.exitCode?

end Site

namespace Settings

variable {α : Type} {l : Loader α} {s : Site} {t : Tree} {path : Path} {o : Options} {f : Fault}

/-- A boilerplate path keeps the settings from being loaded exactly if it is unplaceable. -/
theorem anchorBoilerplate_eq_error : anchorBoilerplate s t path o = .error f ↔
    ∃ w, o.boilerplatePath? = some w ∧ s.Unplaceable t path w f := by
  unfold anchorBoilerplate
  cases hw : o.boilerplatePath? with
  | none => simp [pure, Except.pure]
  | some w =>
    simp only [Option.some.injEq, exists_eq_left']
    constructor
    · intro h
      rcases Except.bind_eq_error.mp h with hhome | ⟨expanded, hhome, h⟩
      · exact .home hhome
      · split at h
        · cases h
        · next hrelative =>
          have hrelative : expanded.isAbsolute = false := by simpa using hrelative
          rcases Except.bind_eq_error.mp h with hreal | ⟨file, hfile, h⟩
          · exact .directory hhome hrelative (Site.realPlace_eq_error.mp hreal)
          · rcases Except.bind_eq_error.mp h with hreal | ⟨place, -, h⟩
            · exact .path hhome hrelative hfile (Site.realPlace_eq_error.mp hreal)
            · cases h
    · rintro (hhome | ⟨hhome, hrelative, hreal⟩ | ⟨hhome, hrelative, hfile, hreal⟩)
      · simp only [hhome, bind, Except.bind]
      · simp only [hhome, hrelative, Site.realPlace_eq_error.mpr hreal, bind, Except.bind,
          Bool.false_eq_true, if_false]
      · simp only [hhome, hrelative, hfile, Site.realPlace_eq_error.mpr hreal, bind, Except.bind,
          Bool.false_eq_true, if_false]

/-- The file can be read, what it holds is a mapping or nothing, and these are the entries. -/
def HoldsEntries (l : Loader α) (s : Site) (t : Tree) (config : Text)
    (entries : List (Option Text × α)) : Prop :=
  ∃ content top, readContent s t (Path.ofText config) = .ok content ∧ l.read content = .ok top ∧
    topEntries (Path.ofText config) top = .ok entries

/-- Settings were loaded, or the configuration was reported as invalid. -/
def Settled (config : Text) (x : Except Fault Settings) : Prop :=
  (∃ settings, x = .ok settings) ∨ ∃ cause, x = .error (.config config cause)

section Load

variable {config : Text} {content : List Char} {entries : List (Option Text × α)}

theorem settled_error_iff : Settled config (.error f) ↔ ∃ cause, f = .config config cause := by
  simp [Settled]

theorem not_settled (h : f.exitCode? = none) : ¬ Settled config (.error f) := by
  rw [settled_error_iff]
  rintro ⟨cause, rfl⟩
  cases h

theorem exists_textEntries (entries : List (Option Text × α)) :
    (∀ e ∈ entries, e.1.isSome = true) ∧ (∃ named, textEntries entries = .ok named) ∨
    (¬ ∀ e ∈ entries, e.1.isSome = true) ∧ textEntries entries = .error .keyNotText := by
  have hmapM : (entries.mapM fun (e : Option Text × α) => e.1.map (·, e.2)).isSome = true ↔
      ∀ e ∈ entries, e.1.isSome = true := by
    induction entries with
    | nil => simp
    | cons e entries ih =>
      rw [List.forall_mem_cons, ← ih, List.mapM_cons]
      cases e.1 with
      | none => simp
      | some key => cases entries.mapM fun (e : Option Text × α) => e.1.map (·, e.2) <;> simp
  unfold textEntries
  split
  · next named hnamed => exact .inl ⟨hmapM.mp (by rw [hnamed]; rfl), named, rfl⟩
  · next hnone =>
    refine .inr ⟨fun hall => ?_, rfl⟩
    have hsome := hmapM.mpr hall
    rw [hnone] at hsome
    cases hsome

/-- What loading the settings can come to: the configuration is refused, its text breaks down in another
way, a key is no text, or the entries are checked and the boilerplate path is taken from its start. -/
inductive Loads (l : Loader α) (s : Site) (t : Tree) (config : Text) : Except Fault Settings → Prop
  | refused (cause : ConfigFault) : Loads l s t config (.error (.config config cause))
  | broken {content : List Char} {f : Yaml.Fault}
    (hread : readContent s t (Path.ofText config) = .ok content)
    (hvalue : l.read content = .error f) (hf : f.isRefusal = false) :
    Loads l s t config (.error (.value f))
  | key {entries : List (Option Text × α)} (h : HoldsEntries l s t config entries)
    (hkey : ¬ ∀ e ∈ entries, e.1.isSome = true) : Loads l s t config (.error .keyNotText)
  | checked {entries : List (Option Text × α)} {named : List (Text × α)} {settings : Settings}
    (h : HoldsEntries l s t config entries) (hkeys : textEntries entries = .ok named)
    (hcheck : l.check named = .ok settings) :
    Loads l s t config ((anchorBoilerplate s t (Path.ofText config) settings.options).map
      fun options => { settings with options })

theorem load_of_value_error {f : Yaml.Fault} (hread : readContent s t (Path.ofText config) = .ok content)
    (hvalue : l.read content = .error f) : load l s t config = .error (streamFault config f) := by
  simp only [load, hread, Except.mapError, bind, Except.bind, hvalue]

theorem load_of_entries (h : HoldsEntries l s t config entries) :
    load l s t config = textEntries entries >>= fun named =>
      ((l.check named).mapError fun issues => .config config (.invalid issues)) >>= fun settings =>
        (anchorBoilerplate s t (Path.ofText config) settings.options).map
          fun options => { settings with options } := by
  obtain ⟨content, top, hread, hvalue, htop⟩ := h
  simp only [load, hread, Except.mapError, bind, Except.bind, hvalue, htop]
  rfl

theorem loads_load (l : Loader α) (s : Site) (t : Tree) (config : Text) :
    Loads l s t config (load l s t config) := by
  cases hread : readContent s t (Path.ofText config) with
  | error cause =>
    have hload : load l s t config = .error (.config config cause) := by
      simp only [load, hread, Except.mapError, bind, Except.bind]
    exact hload ▸ .refused cause
  | ok content =>
    cases hvalue : l.read content with
    | error f =>
      rw [load_of_value_error hread hvalue, streamFault]
      cases hf : f.isRefusal with
      | true => exact .refused _
      | false => exact .broken hread hvalue hf
    | ok top =>
      cases htop : topEntries (Path.ofText config) top with
      | error cause =>
        have hload : load l s t config = .error (.config config cause) := by
          simp only [load, hread, Except.mapError, bind, Except.bind, hvalue, htop]
        exact hload ▸ .refused cause
      | ok entries =>
        have hentries : HoldsEntries l s t config entries := ⟨content, top, hread, hvalue, htop⟩
        rw [load_of_entries hentries]
        rcases exists_textEntries entries with ⟨-, named, hnamed⟩ | ⟨hkey, hnamed⟩
        · cases hcheck : l.check named with
          | error issues =>
            simp only [hnamed, hcheck, bind, Except.bind, Except.mapError]
            exact .refused _
          | ok settings =>
            simp only [hnamed, hcheck, bind, Except.bind, Except.mapError]
            exact .checked hentries hnamed hcheck
        · rw [hnamed]
          exact .key hentries hkey

/-- What is not settled ends in a fault without an exit code. -/
theorem settled_or_escapes (l : Loader α) (s : Site) (t : Tree) (config : Text) :
    Settled config (load l s t config) ∨ ∃ f, load l s t config = .error f ∧ f.exitCode? = none := by
  have hloads := loads_load l s t config
  generalize load l s t config = x at hloads
  cases hloads with
  | refused cause => exact .inl (.inr ⟨cause, rfl⟩)
  | broken | key => exact .inr ⟨_, rfl, rfl⟩
  | @checked entries named settings =>
    cases hanchor : anchorBoilerplate s t (Path.ofText config) settings.options with
    | ok o => exact .inl (.inl ⟨_, rfl⟩)
    | error f =>
      obtain ⟨w, -, hplace⟩ := anchorBoilerplate_eq_error.mp hanchor
      exact .inr ⟨f, rfl, hplace.exitCode?⟩

/-- The exact condition on a configuration file under which nothing else comes of it. -/
theorem settled_load_iff (l : Loader α) (s : Site) (t : Tree) (config : Text) :
    Settled config (load l s t config) ↔
      (∀ content f, readContent s t (Path.ofText config) = .ok content → l.read content = .error f →
        f.isRefusal = true) ∧
      ∀ entries, HoldsEntries l s t config entries → (∀ e ∈ entries, e.1.isSome = true) ∧
        ∀ named settings w, textEntries entries = .ok named → l.check named = .ok settings →
          settings.options.boilerplatePath? = some w → ∀ f, ¬ s.Unplaceable t (Path.ofText config) w f := by
  constructor
  · intro h
    refine ⟨fun content f hread hvalue => ?_, fun entries hentries => ?_⟩
    · rw [load_of_value_error hread hvalue] at h
      by_contra hf
      rw [streamFault, if_neg hf] at h
      exact not_settled rfl h
    · rw [load_of_entries hentries] at h
      rcases exists_textEntries entries with ⟨hkeys, -⟩ | ⟨-, hnamed⟩
      · refine ⟨hkeys, fun named settings w hnamed hcheck hw f hplace => ?_⟩
        have hanchor := anchorBoilerplate_eq_error.mpr ⟨w, hw, hplace⟩
        rw [hnamed] at h
        simp only [bind, Except.bind, hcheck, Except.mapError, hanchor] at h
        exact not_settled hplace.exitCode? h
      · rw [hnamed] at h
        exact absurd h (not_settled rfl)
  · rintro ⟨hvalues, hentries⟩
    -- Of the ways loading can end, the conditions rule out those that are neither.
    have hloads := loads_load l s t config
    generalize load l s t config = x at hloads
    cases hloads with
    | refused cause => exact .inr ⟨cause, rfl⟩
    | broken hread hvalue hf =>
      rw [hvalues _ _ hread hvalue] at hf
      cases hf
    | key h hkey => exact absurd (hentries _ h).1 hkey
    | @checked entries named settings h hnamed hcheck =>
      cases hanchor : anchorBoilerplate s t (Path.ofText config) settings.options with
      | ok o => exact .inl ⟨_, rfl⟩
      | error f =>
        obtain ⟨w, hw, hplace⟩ := anchorBoilerplate_eq_error.mp hanchor
        exact absurd hplace ((hentries _ h).2 named settings w hnamed hcheck hw f)

end Load

end Settings

namespace Site

variable {α : Type}

/-- What the command does once the settings are loaded. -/
def withSettings (s : Site) (t : Tree) (input : Bytes) (r : Request) (loaded : Settings) : Run :=
  let o := requested r loaded.options
  match s.checkBoilerplate (configCalls r) t o with
  | .error run => run
  | .ok _ => s.annotateRequested (s.openingCalls r o) t input { loaded with options := o } r.files

theorem command_of_config {l : Loader α} {s : Site} {t : Tree} {r : Request} {config : Text}
    (hconfig : r.config = some config) (hne : config ≠ []) (input : Bytes) :
    s.command l t input r =
      match Settings.load l s t config with
      | .ok loaded => s.withSettings t input r loaded
      | .error f => .fail f := by
  have hsettings : s.settings l t r = Settings.load l s t config := by
    rw [settings, configPath?, hconfig, Option.filter_some_pos (by simpa using hne)]
  unfold command
  rw [hsettings]
  cases Settings.load l s t config <;> rfl

/-- A configuration file is loaded or reported as invalid exactly if its text gives a value or is refused,
all keys at its top are texts, and its boilerplate path can be taken from where it starts. The command
goes on with what was loaded, and ends with the exit code of an invalid configuration or, in all
other cases, with the fault itself. -/
theorem config_settled_iff (l : Loader α) (s : Site) (t : Tree) (config : Text) :
    (Settings.Settled config (Settings.load l s t config) ↔
      (∀ content f, Settings.readContent s t (Path.ofText config) = .ok content →
        l.read content = .error f → f.isRefusal = true) ∧
      ∀ entries, Settings.HoldsEntries l s t config entries → (∀ e ∈ entries, e.1.isSome = true) ∧
        ∀ named settings w, Settings.textEntries entries = .ok named → l.check named = .ok settings →
          settings.options.boilerplatePath? = some w → ∀ f, ¬ s.Unplaceable t (Path.ofText config) w f) ∧
    ∀ input r, r.config = some config → config ≠ [] →
      (∀ loaded, Settings.load l s t config = .ok loaded →
        s.command l t input r = s.withSettings t input r loaded) ∧
      (∀ cause, Settings.load l s t config = .error (.config config cause) → s.command l t input r =
        { diagnostics := [.failure (.config config cause)], result := .ok .config }) ∧
      (¬ Settings.Settled config (Settings.load l s t config) →
        ∃ f, Settings.load l s t config = .error f ∧ s.command l t input r = { result := .error f }) := by
  refine ⟨Settings.settled_load_iff l s t config, fun input r hconfig hne => ?_⟩
  rw [command_of_config hconfig hne]
  refine ⟨fun loaded h => ?_, fun cause h => ?_, fun h => ?_⟩
  · rw [h]
  · rw [h]
    rfl
  · obtain ⟨f, hf, hcode⟩ := (Settings.settled_or_escapes l s t config).resolve_left h
    refine ⟨f, hf, ?_⟩
    rw [hf]
    simp only [Run.fail, hcode]

/-- A list at the top of the file is reported as an invalid configuration. -/
theorem config_settled_list :
    let l := Settings.loader
    let s : Site := { here := [] }
    let t : Tree := ⟨[([Name.ofText (.ofString "c.yaml")], .file 0)], [(0, [45, 32, 120])]⟩
    let config := Text.ofString "c.yaml"
    let r : Request := { files := [.ofString "a.c"], config := some config }
    let cause := ConfigFault.notMapping (Path.ofText config)
    Settings.load l s t config = .error (.config config cause) ∧
    s.command l t [] r = { diagnostics := [.failure (.config config cause)], result := .ok .config } ∧
    ∀ entries, Settings.HoldsEntries l s t config entries → ∀ e ∈ entries, e.1.isSome = true := by
  intro l s t config r cause
  have hload : Settings.load l s t config = .error (.config config cause) := by decide +kernel
  obtain ⟨hiff, hcommand⟩ := config_settled_iff l s t config
  obtain ⟨-, hrefused, -⟩ := hcommand [] r rfl (by decide)
  exact ⟨hload, hrefused cause hload,
    fun entries h => ((hiff.mp (.inr ⟨cause, hload⟩)).2 entries h).1⟩

-- Nor is a boilerplate in a home directory that is not known reported as invalid, or one that is a link
-- to itself.
example :
    let l (w : Text) : Loader Unit :=
      { read := fun _ => .ok .empty, check := fun _ => .ok { options := { boilerplate := some w } } }
    let s : Site := { here := [] }
    let b := Name.ofText (.ofString "b")
    let t : Tree :=
      ⟨[([Name.ofText (.ofString "c.yaml")], .file 0), ([b], .link ⟨false, [b]⟩)], [(0, [])]⟩
    Settings.load (l (.ofString "~nobody/b")) s t (.ofString "c.yaml") = .error .noHome ∧
      Settings.load (l (.ofString "b")) s t (.ofString "c.yaml") =
        .error (.linkLoop (Path.ofString "/b")) := by
  decide +kernel

/-- A number as a key at the top ends the run with a fault that is not that of an invalid
configuration. -/
theorem number_key_escapes :
    let l := Settings.loader
    let s : Site := { here := [] }
    let t : Tree := ⟨[([Name.ofText (.ofString "c.yaml")], .file 0)], [(0, [49, 58, 32, 120])]⟩
    let config := Text.ofString "c.yaml"
    Settings.load l s t config = .error .keyNotText ∧
      (s.command l t [] { files := [.ofString "a.c"], config := some config }).result =
        .error .keyNotText := by
  decide +kernel

end Site

end DocBlock
