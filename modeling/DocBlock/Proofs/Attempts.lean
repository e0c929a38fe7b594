import Mathlib
import DocBlock.Command
import DocBlock.Proofs.Retention
import DocBlock.Proofs.Transparency

/-! A run over several files, compared with trying each of them whatever happened before. The two agree
exactly as long as no file ends in a fault that has no exit code. -/

namespace DocBlock

/-- The exit code of the first failure. -/
def ExitCode.first (codes : List ExitCode) : ExitCode := (codes.find? (· ≠ .ok)).getD .ok

theorem ExitCode.first_nil : first [] = .ok := rfl

theorem ExitCode.first_cons (code : ExitCode) (codes : List ExitCode) :
    first (code :: codes) = if code = .ok then first codes else code := by
  unfold first
  rw [List.find?_cons]
  split <;> simp_all

theorem ExitCode.first_pair (a b : ExitCode) : first [a, b] = if a = .ok then b else a := by
  rw [first_cons, first_cons, first_nil]
  split <;> simp_all

namespace Attempt

/-- The attempt ended well, or in a fault that the command handles. -/
def Reported (a : Attempt) : Prop := ∀ f, a.result = .error f → f.exitCode?.isSome

def shown (a : Attempt) : List Diagnostic :=
  a.notes.map Diagnostic.note ++
    match a.result with
    | .ok _ => []
    | .error f => [.failure f]

def exitCode (a : Attempt) : ExitCode :=
  match a.result with
  | .ok _ => .ok
  | .error f => f.exitCode?.getD .ok

end Attempt

/-- The run that makes all of these attempts. `code` is the exit code of the first failure before. -/
def Run.ofAttempts (code : ExitCode) (as : List Attempt) : Run where
  changes := as.flatMap (·.changes)
  diagnostics := as.flatMap (·.shown)
  result := .ok (.first (code :: as.map (·.exitCode)))

theorem Run.ofAttempts_cons (code : ExitCode) (a : Attempt) (as : List Attempt) :
    { ofAttempts (.first [code, a.exitCode]) as with
        changes := a.changes ++ (ofAttempts (.first [code, a.exitCode]) as).changes
        diagnostics := a.shown ++ (ofAttempts (.first [code, a.exitCode]) as).diagnostics } =
      ofAttempts code (a :: as) := by
  have hfirst : ExitCode.first (.first [code, a.exitCode] :: as.map (·.exitCode)) =
      .first (code :: a.exitCode :: as.map (·.exitCode)) := by
    rw [ExitCode.first_pair, ExitCode.first_cons, ExitCode.first_cons code, ExitCode.first_cons]
    by_cases hcode : code = .ok <;> simp [hcode]
  simp [ofAttempts, hfirst]

/-- The options for one file of several: the header shows its name. -/
def Options.showing (o : Options) (path : Path) : Options := { o with filename := some path.name }

namespace Site

/-- What is tried for one file of several. -/
def attempt (s : Site) (o : Options) (x : Suffixes) (past : List Syscall) (t : Tree) (path : Path) :
    Attempt :=
  s.annotateInPlace past t (o.showing path) x path

theorem attempt_tried (s : Site) (o : Options) (x : Suffixes) (past : List Syscall) (t : Tree) (path : Path) :
    Tried s past t (o.showing path) x path (s.attempt o x past t path) :=
  annotateInPlace_tried past t (o.showing path) x path

/-- An attempt for every file, each in the tree and after the calls that the ones before have left. -/
def attempts (s : Site) (o : Options) (x : Suffixes) (past : List Syscall) (t : Tree) :
    List Path → List Attempt
  | [] => []
  | path :: paths =>
    let a := s.attempt o x past t path
    a :: s.attempts o x (past ++ a.calls) (t.applyAll a.changes) paths

/-- The options ask for no boilerplate, or for one that is a file and can be read, whenever that is
tried. -/
def Ready (s : Site) (t : Tree) (o : Options) : Prop :=
  ∀ written, o.boilerplatePath? = some written → ∃ p, s.expandHome (Path.ofText written) = .ok p ∧
    ∀ past, ∃ id, s.look past t p = .ok (.file id) ∧ s.openRead past t p = .ok id ∧
      ∀ c, Encoding.spelled o.encoding >>= s.codec = .ok c → (c.decode (t.content id)).isComplete = true

/-- Reading or writing fails: the encoding is unknown, or it makes no sense of some bytes, or it cannot
write some text. With one of the three encodings that never fail to decode, that text is the shown
name. -/
inductive Unwritable (s : Site) (o : Options) : Fault → Prop
  | encoding {f : Fault} (h : Encoding.spelled o.encoding >>= s.codec = .error f) : Unwritable s o f
  | bytes {c : Codec} {bytes : Bytes} (hc : Encoding.spelled o.encoding >>= s.codec = .ok c)
    (h : (c.decode bytes).isComplete = false) : Unwritable s o .undecodable
  | text {c : Codec} (hc : Encoding.spelled o.encoding >>= s.codec = .ok c)
    (h : ∀ e : Encoding, c = e → ¬ o.shownName.Within e.Expresses) : Unwritable s o .unencodable

/-- Why annotating one file can end in a fault without an exit code: it has no sibling with the suffix,
its path or that of a sibling cannot be handed to the system, reading or writing fails over the
encoding, or the system refuses to remove the temporary file after a failure. -/
inductive Escapes (s : Site) (o : Options) (x : Suffixes) (path : Path) : Fault → Prop
  | unnamed {f : Fault} (h : path.addSuffix x.temp = .error f ∨ path.addSuffix x.backup = .error f) :
    Escapes s o x path f
  | path {f : Fault} {q : Path} (h : q.names = .error f)
    (hq : q = path ∨ path.addSuffix x.temp = .ok q ∨ path.addSuffix x.backup = .ok q) :
    Escapes s o x path f
  | unwritable {f : Fault} (h : Unwritable s (o.showing path) f) : Escapes s o x path f
  | refused {past : List Syscall} {temp : Path} {e : SystemError} (htemp : path.addSuffix x.temp = .ok temp)
    (h : s.refuses past (.remove temp) = some e) (hcode : e.code ≠ SystemError.noEntry.code) :
    Escapes s o x path (.system e (some temp))

/-- The command handles the fault and goes on with the next file. -/
def Handled (f : Fault) : Prop := ∃ code, f.exitCode? = some code ∧ code ≠ .boilerplate

section Faults

variable {s : Site} {past : List Syscall} {t : Tree} {o : Options} {x : Suffixes} {path temp : Path}
  {f : Fault} {c : Codec} {plate : Option Boilerplate.Reading} {bytes : Bytes}

theorem exitCode?_codec (h : Encoding.spelled o.encoding >>= s.codec = .error f) :
    f.exitCode? = none := by
  rcases Except.bind_eq_error.mp h with h | ⟨name, -, h⟩
  · exact Encoding.exitCode?_spelled h
  · rw [(codec_eq_error h).2]
    rfl

theorem Unwritable.exitCode? (h : Unwritable s o f) : f.exitCode? = none := by
  cases h with
  | encoding h => exact exitCode?_codec h
  | bytes | text => rfl

theorem Escapes.exitCode? (h : Escapes s o x path f) : f.exitCode? = none := by
  cases h with
  | unnamed h => rcases h with h | h <;> exact Path.exitCode?_addSuffix h
  | path h => exact Path.exitCode?_names h
  | unwritable h => exact h.exitCode?
  | refused => rfl

/-- A boilerplate that can be read is what its file holds, if the encoding is known. -/
theorem Ready.boilerplate? (h : s.Ready t o) (hc : Encoding.spelled o.encoding >>= s.codec = .ok c)
    (past : List Syscall) : ∃ plate, s.boilerplate? past t o = .ok plate ∧
      ∀ reading ∈ plate, ∃ bytes, reading = .ok (c.decode bytes).text := by
  unfold Site.boilerplate?
  cases hw : o.boilerplatePath? with
  | none => exact ⟨none, rfl, by simp⟩
  | some written =>
    obtain ⟨p, hp, hread⟩ := h written hw
    obtain ⟨id, -, hopen, hcomplete⟩ := hread past
    obtain ⟨name, hspelled, hcodec⟩ := Except.bind_eq_ok.mp hc
    have htext : s.readBoilerplate past t o.encoding p = .ok (c.decode (t.content id)).text := by
      simp [readBoilerplate, hspelled, hopen, hcodec, hcomplete c hc, bind, Except.bind, Except.mapError,
        pure, Except.pure]
    refine ⟨some (.ok (c.decode (t.content id)).text), ?_, ?_⟩
    · simp only [hp, bind, Except.bind, htext, pure, Except.pure]
    · rintro reading ⟨⟩
      exact ⟨t.content id, rfl⟩

/-- With a boilerplate that can be read, annotating fails only over the encoding. -/
theorem Ready.annotateBytes_fault (h : s.Ready t o)
    (hc : Encoding.spelled o.encoding >>= s.codec = .ok c)
    (hplate : s.boilerplate? past t o = .ok plate)
    (hf : (annotateBytes c o plate bytes).fault = some f) : Unwritable s o f := by
  obtain ⟨plate', hplate', hreadings⟩ := h.boilerplate? hc past
  obtain rfl := Except.ok.inj (hplate.symm.trans hplate')
  have hread : ∀ g, plate ≠ some (.error g) := by
    rintro g rfl
    obtain ⟨bytes, hbytes⟩ := hreadings (.error g) rfl
    cases hbytes
  rcases DocBlock.annotateBytes_fault hf with rfl | ⟨rfl, hincomplete⟩ | herror
  · refine .text hc ?_
    rintro e rfl hname
    have hwithin : Boilerplate.Within e.Expresses plate := by
      intro text htext
      obtain ⟨bytes, hbytes⟩ := hreadings (.ok text) htext
      cases hbytes
      exact Encoding.within_decode e bytes
    rw [fault_annotateBytes_eq_none hread hwithin fun _ => hname] at hf
    cases hf
  · exact .bytes hc hincomplete
  · exact absurd herror (hread f)

theorem Ready.process_fault (h : s.Ready t o) (hc : Encoding.spelled o.encoding >>= s.codec = .ok c)
    (hf : (s.process past t o path temp c bytes).output.fault = some f) :
    Handled f ∨ Unwritable s o f := by
  rcases Site.process_fault hf with ⟨b, -, rfl⟩ | hplate | ⟨plate, hplate, hfault⟩
  · left
    unfold Breakdown.fileFault
    split
    · exact ⟨.memory, rfl, by simp⟩
    · exact ⟨.write, rfl, by simp⟩
  · obtain ⟨plate, hok, -⟩ := h.boilerplate? hc past
    rw [hok] at hplate
    cases hplate
  · exact .inr (h.annotateBytes_fault hc hplate hfault)

/-- However an attempt fails, the command handles it or one of the causes is there. -/
theorem attempt_fault
    (hready : ∀ cs, cs <+: (s.attempt o x past t path).changes → s.Ready (t.applyAll cs) o)
    (h : (s.attempt o x past t path).result = .error f) : Handled f ∨ Escapes s o x path f := by
  have htried := s.attempt_tried o x past t path
  generalize s.attempt o x past t path = a at h hready htried
  cases htried with
  | unnamed hf =>
    cases h
    exact .inr (.unnamed hf)
  | unopened htemp _ hf =>
    cases h
    rcases openBoth_fault hf with hspelled | ⟨name, hname, hnone, rfl⟩ | hnames | hnames | rfl | rfl
    · exact .inr (.unwritable (.encoding (Except.bind_eq_error.mpr (.inl hspelled))))
    · refine .inr (.unwritable (.encoding (Except.bind_eq_error.mpr (.inr ⟨name, hname, ?_⟩))))
      rw [codec, hnone]
    · exact .inr (.path hnames (.inl rfl))
    · exact .inr (.path hnames (.inr (.inl htemp)))
    · exact .inl ⟨.read, rfl, by simp⟩
    · exact .inl ⟨.write, rfl, by simp⟩
  | @opened temp backup c id place a htemp hbackup hopen hproduced =>
    have hc := codec_of_openBoth hopen
    cases hproduced with
    | discarded hf hlost =>
      obtain ⟨first, d, entry, later, source, mark, hopened, -⟩ :=
        exists_opened_of_openBoth hopen htemp hbackup
      have hresult := h
      rcases discard_result hopened.sound_temp with hd | ⟨e, hremove, hcode, hd⟩
      · obtain rfl := Except.error.inj (hd.symm.trans hresult)
        rcases writeFault?_eq_some hf with rfl | hfault
        · exact .inl ⟨.write, rfl, by simp⟩
        · have hopening : s.Ready (t.apply (.create place)) (o.showing path) :=
            hready [.create place] (List.prefix_append [Change.create place] _)
          exact (hopening.process_fault hc hfault).imp_right .unwritable
      · obtain rfl := Except.error.inj (hd.symm.trans hresult)
        obtain ⟨hplace, hmark⟩ := hopened.place?_lost hlost
        exact .inr (.refused htemp (refuses_of_remove hplace hmark hremove hcode) hcode)
    | @unmoved notes trouble _ hfirst =>
      cases h
      cases trouble with
      | path g =>
        rcases rename_path_error hfirst with hnames | hnames
        · exact .inr (.path hnames (.inl rfl))
        · exact .inr (.path hnames (.inr (.inr hbackup)))
      | system e => exact .inl ⟨.backup, rfl, by simp⟩
    | @halfway notes a b trouble _ _ hsecond =>
      cases h
      cases trouble with
      | path g =>
        rcases rename_path_error hsecond with hnames | hnames
        · exact .inr (.path hnames (.inr (.inl htemp)))
        · exact .inr (.path hnames (.inl rfl))
      | system e => exact .inl ⟨.rename, rfl, by simp⟩
    | done => cases h

end Faults

section Runs

variable {s : Site} {past : List Syscall} {t : Tree} {o : Options} {x : Suffixes}

theorem annotateInPlace_eq_attempt (path : Path) :
    s.annotateInPlace past t { o with filename := some path.name } x path = s.attempt o x past t path :=
  rfl

/-- The first file is tried. Then the others follow, unless the command does not handle its fault. -/
theorem annotateFiles_cons (s : Site) (o : Options) (x : Suffixes) (code : ExitCode) (past : List Syscall)
    (t : Tree) (path : Path) (paths : List Path) :
    let a := s.attempt o x past t path
    let run := s.annotateFiles o x code past t (path :: paths)
    let rest := s.annotateFiles o x (.first [code, a.exitCode]) (past ++ a.calls) (t.applyAll a.changes)
      paths
    ((∀ f, a.result = .error f → Handled f) ∧ run =
      { rest with changes := a.changes ++ rest.changes, diagnostics := a.shown ++ rest.diagnostics }) ∨
    ∃ f, a.result = .error f ∧ ¬ Handled f ∧ run.changes = a.changes ∧
      (f.exitCode? = none → run.result = .error f) := by
  intro a run rest
  have ha : s.attempt o x past t path = a := rfl
  simp only [run, annotateFiles, annotateInPlace_eq_attempt, ha]
  cases hr : a.result with
  | ok b =>
    have hsame : ExitCode.first [code, a.exitCode] = code := by
      rw [ExitCode.first_pair, Attempt.exitCode, hr]
      split <;> simp_all
    left
    simp [rest, hsame, Attempt.shown, hr]
  | error f =>
    cases hf : f.exitCode? with
    | none =>
      right
      exact ⟨f, rfl, by simp [Handled, hf], by simp [hf], by simp [hf]⟩
    | some c =>
      by_cases hc : c = .boilerplate
      · right
        subst hc
        exact ⟨f, rfl, by simp [Handled, hf], by simp [hf], by simp [hf]⟩
      · left
        have hfailed : a.exitCode = c := by simp [Attempt.exitCode, hr, hf]
        constructor
        · intro g hg
          cases hg
          exact ⟨c, hf, hc⟩
        · simp only [rest, hfailed, ExitCode.first_pair, Attempt.shown, hr, hf]
          cases c with
          | boilerplate => exact absurd rfl hc
          | _ => simp

theorem attempt_prefix_annotateFiles (code : ExitCode) (path : Path) (paths : List Path) :
    (s.attempt o x past t path).changes <+:
      (s.annotateFiles o x code past t (path :: paths)).changes := by
  rcases s.annotateFiles_cons o x code past t path paths with ⟨-, hrun⟩ | ⟨f, -, -, hchanges, -⟩
  · rw [hrun]
    exact List.prefix_append _ _
  · rw [hchanges]

theorem reported_of_handled {a : Attempt} (h : ∀ f, a.result = .error f → Handled f) : a.Reported := by
  intro f hf
  obtain ⟨code, hcode, -⟩ := h f hf
  rw [hcode]
  rfl

/-- Either all files are tried, or the run ends with a fault that has no exit code. -/
theorem annotateFiles_attempts (paths : List Path) (code : ExitCode) (past : List Syscall) (t : Tree)
    (hready : ∀ cs, cs <+: (s.annotateFiles o x code past t paths).changes →
      s.Ready (t.applyAll cs) o) :
    ((∀ a ∈ s.attempts o x past t paths, a.Reported) ∧
      s.annotateFiles o x code past t paths = .ofAttempts code (s.attempts o x past t paths)) ∨
    ((∃ a ∈ s.attempts o x past t paths, ¬ a.Reported) ∧
      ∃ f, (s.annotateFiles o x code past t paths).result = .error f ∧
        ∃ path ∈ paths, Escapes s o x path f) := by
  induction paths generalizing code past t with
  | nil =>
    left
    refine ⟨by simp [attempts], ?_⟩
    simp [annotateFiles, attempts, Run.ofAttempts, ExitCode.first_cons, ExitCode.first_nil]
  | cons path paths ih =>
    have hfirst : ∀ cs, cs <+: (s.attempt o x past t path).changes → s.Ready (t.applyAll cs) o :=
      fun cs hcs => hready cs (hcs.trans (attempt_prefix_annotateFiles code path paths))
    rcases s.annotateFiles_cons o x code past t path paths with
      ⟨hhandled, hcons⟩ | ⟨f, hf, hnot, -, hstops⟩
    · set a := s.attempt o x past t path
      set first := ExitCode.first [code, a.exitCode]
      have hrest : ∀ cs, cs <+: (s.annotateFiles o x first (past ++ a.calls) (t.applyAll a.changes)
          paths).changes →
          s.Ready ((t.applyAll a.changes).applyAll cs) o := by
        intro cs hcs
        rw [← Tree.applyAll_append]
        apply hready
        rw [hcons]
        exact (List.prefix_append_right_inj _).mpr hcs
      rcases ih _ _ _ hrest with ⟨hrep, hrun⟩ | ⟨⟨b, hb, hnot⟩, f, hf, q, hq, hesc⟩
      · left
        constructor
        · exact List.forall_mem_cons.mpr ⟨reported_of_handled hhandled, hrep⟩
        · rw [hcons, hrun]
          exact Run.ofAttempts_cons _ _ _
      · right
        refine ⟨⟨b, List.mem_cons_of_mem _ hb, hnot⟩, f, ?_, q, List.mem_cons_of_mem _ hq, hesc⟩
        rw [hcons]
        exact hf
    · right
      have hesc := (attempt_fault hfirst hf).resolve_left hnot
      refine ⟨⟨_, List.mem_cons_self, fun hrep => ?_⟩, f, hstops hesc.exitCode?, path,
        List.mem_cons_self, hesc⟩
      have hcode := hrep f hf
      rw [hesc.exitCode?] at hcode
      contradiction

theorem fail_result {f g : Fault} (hf : f.exitCode? = none) (h : (Run.fail f).result = .error g) :
    f = g := by
  rw [Run.fail, hf] at h
  exact Except.error.inj h

/-- With a boilerplate that can be read, standard input fails over the encoding or by a breakdown. -/
theorem annotateInput_fault {input : Bytes} {f : Fault} (h : s.Ready t o)
    (hf : (s.annotateInput past t o input).result = .error f) :
    Unwritable s o f ∨ ∃ b, s.breaksDown past none = some b ∧ f = b.inputFault := by
  unfold annotateInput at hf
  cases hc : Encoding.spelled o.encoding >>= s.codec with
  | error g =>
    simp only [hc] at hf
    rw [← fail_result (exitCode?_codec hc) hf]
    exact .inl (.encoding hc)
  | ok c =>
    obtain ⟨plate, hplate, -⟩ := h.boilerplate? hc past
    simp only [hc, hplate] at hf
    cases hb : s.breaksDown past none with
    | some b =>
      right
      simp only [hb, Option.elim_some, Run.after] at hf
      refine ⟨b, rfl, (fail_result ?_ hf).symm⟩
      unfold Breakdown.inputFault
      split <;> rfl
    | none =>
      left
      simp only [hb] at hf
      cases hout : (annotateBytes c o plate input).fault with
      | none => simp [hout, Run.after] at hf
      | some g =>
        have hg := h.annotateBytes_fault hc hplate hout
        simp only [hout, Option.elim_some, Run.after] at hf
        rwa [← fail_result hg.exitCode? hf]

theorem checkBoilerplate_of_ready (h : s.Ready t o) (past : List Syscall) :
    s.checkBoilerplate past t o = .ok () := by
  unfold checkBoilerplate
  cases hw : o.boilerplatePath? with
  | none => rfl
  | some written =>
    obtain ⟨p, hp, hread⟩ := h written hw
    obtain ⟨id, hlook, -⟩ := hread past
    simp [hp, hlook]

end Runs

/-- A run over several files makes an attempt for each of them, whatever happens to the others, unless
one of them ends in a fault without an exit code. Such a fault has one of the listed causes. -/
theorem command_attempts {α : Type} {l : Loader α} {s : Site} {t : Tree} {input : Bytes} {r : Request}
    {loaded : Settings} (hload : s.settings l t r = .ok loaded)
    (hready : ∀ cs, cs <+: (s.command l t input r).changes →
      s.Ready (t.applyAll cs) (requested r loaded.options)) :
    let o := requested r loaded.options
    let paths := (r.files.filter (!isOption ·)).map Path.ofText
    let unknown := (r.files.filter isOption).map Diagnostic.unknownOption
    let as := s.attempts o loaded.suffixes (s.openingCalls r o) t paths
    (paths ≠ [] →
      ((∃ code, (s.command l t input r).result = .ok code) ↔ ∀ a ∈ as, a.Reported) ∧
      ((∀ a ∈ as, a.Reported) → s.command l t input r = .after unknown (.ofAttempts .ok as))) ∧
    ∀ f, (s.command l t input r).result = .error f →
      paths = [] ∧ (Unwritable s o f ∨
        ∃ b, s.breaksDown (s.openingCalls r o) none = some b ∧ f = b.inputFault) ∨
      ∃ path ∈ paths, Escapes s o loaded.suffixes path f := by
  intro o paths unknown as
  have hstart : s.Ready t o := hready [] List.nil_prefix
  have hcommand : s.command l t input r = .after unknown
      (if paths.isEmpty then s.annotateInput (s.openingCalls r o) t o input
      else s.annotateFiles o loaded.suffixes .ok (s.openingCalls r o) t paths) := by
    simp only [command, hload, o, checkBoilerplate_of_ready hstart]
    rfl
  by_cases hempty : paths = []
  · refine ⟨fun hne => absurd hempty hne, fun f hf => .inl ⟨hempty, ?_⟩⟩
    rw [hcommand, hempty] at hf
    exact annotateInput_fault hstart hf
  · have hrun : s.command l t input r =
        .after unknown (s.annotateFiles o loaded.suffixes .ok (s.openingCalls r o) t paths) := by
      rw [hcommand, if_neg (by simpa using hempty)]
    rw [hrun] at hready ⊢
    rcases annotateFiles_attempts paths .ok (s.openingCalls r o) t hready with
      ⟨hrep, heq⟩ | ⟨hnot, f, hf, hesc⟩
    · rw [heq]
      exact ⟨fun _ => ⟨⟨fun _ => hrep, fun _ => ⟨_, rfl⟩⟩, fun _ => rfl⟩, fun f hf => by cases hf⟩
    · obtain ⟨a, ha, hnot⟩ := hnot
      refine ⟨fun _ => ⟨⟨?_, fun hall => absurd (hall a ha) hnot⟩, fun hall => absurd (hall a ha) hnot⟩, ?_⟩
      · rintro ⟨code, hcode⟩
        rw [Run.after, hf] at hcode
        cases hcode
      · intro g hg
        rw [Run.after, hf] at hg
        cases hg
        exact .inr hesc

/-- A file that is missing and an unknown option do not keep the last file from being annotated. -/
theorem command_attempts_missing :
    let l := Settings.loader
    let s : Site := { here := [] }
    let t : Tree :=
      ⟨[([Name.ofText (.ofString "a.c")], .file 0), ([Name.ofText (.ofString "b")], .file 1)],
        [(0, [105]), (1, [66])]⟩
    let r : Request :=
      { files := ["missing.c", "-x", "a.c"].map .ofString, boilerplate := some (.ofString "b") }
    let o := requested r {}
    let as := s.attempts o {} (s.openingCalls r o) t [Path.ofString "missing.c", Path.ofString "a.c"]
    (∀ cs, cs <+: (s.command l t [] r).changes → s.Ready (t.applyAll cs) o) ∧
    (s.command l t [] r).result = .ok .read ∧ (s.command l t [] r).changes ≠ [] ∧
    s.command l t [] r = .after [.unknownOption (.ofString "-x")] (.ofAttempts .ok as) := by
  intro l s t r o as
  have hready : ∀ cs, cs <+: (s.command l t [] r).changes → s.Ready (t.applyAll cs) o := by
    intro cs hcs written hwritten
    have hread : ∀ cs ∈ (s.command l t [] r).changes.inits,
        s.look [] (t.applyAll cs) (Path.ofString "b") = .ok (.file 1) ∧
        s.openRead [] (t.applyAll cs) (Path.ofString "b") = .ok 1 := by decide +kernel
    obtain rfl : Text.ofString "b" = written := Option.some.inj hwritten
    obtain ⟨hlook, hopen⟩ := hread cs ((List.mem_inits _ _).mpr hcs)
    refine ⟨Path.ofString "b", by decide +kernel, fun past => ⟨1, hlook, hopen, ?_⟩⟩
    intro c hc
    cases hc
    rfl
  have hresult : (s.command l t [] r).result = .ok .read := by decide +kernel
  have hpaths : (r.files.filter (!isOption ·)).map Path.ofText ≠ [] := by decide +kernel
  obtain ⟨hiff, heq⟩ := (command_attempts rfl hready).1 hpaths
  exact ⟨hready, hresult, by decide +kernel, heq (hiff.mp ⟨_, hresult⟩)⟩

/-- A path without a name ends the run, and the file behind it is not tried. -/
theorem unnamed_path_ends_run :
    let l := Settings.loader
    let s : Site := { here := [] }
    let t : Tree := ⟨[([Name.ofText (.ofString "a.c")], .file 0)], [(0, [105])]⟩
    let run := s.command l t [] { files := [".", "a.c"].map .ofString }
    run.result = .error (.emptyName (Path.ofString ".")) ∧ run.changes = [] ∧
      (s.command l t [] { files := [.ofString "a.c"] }).changes ≠ [] := by
  decide +kernel

end Site

end DocBlock
