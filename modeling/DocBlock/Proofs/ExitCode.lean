import Mathlib
import DocBlock.Proofs.Attempts

/-! The exit code of a run over several files. The files are tried in order, and the first failure
decides, unless the boilerplate cannot be read: then the run ends at that file, whatever failed
before. A boilerplate that is not there at the start keeps all files from being tried. -/

namespace DocBlock

/-- The exit code of a run whose files end with these: a missing boilerplate counts more than an earlier
failure. -/
def ExitCode.overall (codes : List ExitCode) : ExitCode :=
  if .boilerplate ∈ codes then .boilerplate else .first codes

/-- What has been found before can be summed up by its first failure. -/
theorem ExitCode.overall_first {a b : ExitCode} (hb : b ≠ .boilerplate) (codes : List ExitCode) :
    overall (first [a, b] :: codes) = overall (a :: b :: codes) := by
  unfold overall
  rw [first_pair]
  simp only [first_cons, List.mem_cons, hb.symm, false_or]
  by_cases ha : a = .ok
  · simp [ha, hb.symm]
  · simp [ha]

theorem ExitCode.first_append_cons {code : ExitCode} {before : List ExitCode}
    (hbefore : ∀ c ∈ before, c = .ok) (hcode : code ≠ .ok) (later : List ExitCode) :
    first (before ++ code :: later) = code := by
  induction before with
  | nil => rw [List.nil_append, first_cons, if_neg hcode]
  | cons c before ih =>
    obtain ⟨hc, hrest⟩ := List.forall_mem_cons.mp hbefore
    rw [List.cons_append, first_cons, if_pos hc, ih hrest]

namespace Attempt

/-- The file was annotated. -/
def Succeeds (a : Attempt) : Prop := ∃ backup, a.result = .ok backup

/-- There was no boilerplate to be read. -/
def LacksBoilerplate (a : Attempt) : Prop := ∃ path, a.result = .error (.boilerplate path)

/-- What of these attempts a run makes: nothing is tried after one that lacks the boilerplate. -/
def made : List Attempt → List Attempt
  | [] => []
  | a :: as => if a.exitCode = .boilerplate then [a] else a :: made as

instance (a : Attempt) : Decidable a.Reported :=
  match h : a.result with
  | .ok _ => .isTrue fun f hf => by rw [h] at hf; cases hf
  | .error f => decidable_of_iff (f.exitCode?.isSome = true)
      ⟨fun hf g hg => by rw [h] at hg; cases hg; exact hf, fun hall => hall f h⟩

variable {a : Attempt} {as before later : List Attempt}

theorem exitCode_eq_boilerplate_iff : a.exitCode = .boilerplate ↔ a.LacksBoilerplate := by
  unfold exitCode LacksBoilerplate
  cases h : a.result with
  | ok backup => simp
  | error f => cases f <;> simp [Fault.exitCode?]

instance (a : Attempt) : Decidable a.LacksBoilerplate := decidable_of_iff _ exitCode_eq_boilerplate_iff

theorem exitCode_of_succeeds (h : a.Succeeds) : a.exitCode = .ok := by
  obtain ⟨backup, h⟩ := h
  rw [exitCode, h]

theorem exitCode?_ne_ok (f : Fault) : f.exitCode? ≠ some .ok := by
  cases f <;> simp [Fault.exitCode?]

theorem made_eq_self (h : ∀ b ∈ made as, ¬ b.LacksBoilerplate) : made as = as := by
  induction as with
  | nil => rfl
  | cons b as ih =>
    rw [made] at h ⊢
    by_cases hb : b.LacksBoilerplate
    · rw [if_pos (exitCode_eq_boilerplate_iff.mpr hb)] at h
      exact absurd hb (h b List.mem_cons_self)
    · rw [if_neg (exitCode_eq_boilerplate_iff.not.mpr hb)] at h ⊢
      rw [ih (List.forall_mem_cons.mp h).2]

theorem made_eq_append (hbefore : ∀ b ∈ before, ¬ b.LacksBoilerplate) (ha : a.LacksBoilerplate) :
    made (before ++ a :: later) = before ++ [a] := by
  induction before with
  | nil => rw [List.nil_append, made, if_pos (exitCode_eq_boilerplate_iff.mpr ha), List.nil_append]
  | cons b before ih =>
    obtain ⟨hb, hrest⟩ := List.forall_mem_cons.mp hbefore
    rw [List.cons_append, made, if_neg (exitCode_eq_boilerplate_iff.not.mpr hb), ih hrest,
      List.cons_append]

end Attempt

/-- The tree that these attempts leave, one after the other. -/
def Tree.leftBy (t : Tree) (as : List Attempt) : Tree := as.foldl (fun t a => t.applyAll a.changes) t

theorem Tree.applyAll_flatMap (t : Tree) (as : List Attempt) :
    t.applyAll (as.flatMap (·.changes)) = t.leftBy as := by
  induction as generalizing t with
  | nil => rfl
  | cons a as ih =>
    rw [List.flatMap_cons, applyAll_append, ih]
    rfl

/-- The run that makes these attempts and no others. -/
def Run.ofMade (code : ExitCode) (as : List Attempt) : Run :=
  { ofAttempts code as with result := .ok (.overall (code :: as.map (·.exitCode))) }

namespace Site

/-- The leading tilde of the boilerplate path, if there is one, stands for a home directory that is
known. -/
def KnowsHome (s : Site) (o : Options) : Prop :=
  ∀ written, o.boilerplatePath? = some written → ∃ p, s.expandHome (Path.ofText written) = .ok p

/-- The options ask for no boilerplate, or for one that is found to be a file after these calls. -/
def HasBoilerplate (s : Site) (past : List Syscall) (t : Tree) (o : Options) : Prop :=
  ∀ written, o.boilerplatePath? = some written → ∃ p id, s.expandHome (Path.ofText written) = .ok p ∧
    s.look past t p = .ok (.file id)

/-- The options ask for a boilerplate that cannot be looked for: the system answers with an error that
says more than that nothing is there, as it does for a name that is too long or in a directory that
may not be searched. -/
def Barred (s : Site) (past : List Syscall) (t : Tree) (o : Options) (e : SystemError) (p : Path) : Prop :=
  ∃ written, o.boilerplatePath? = some written ∧ s.expandHome (Path.ofText written) = .ok p ∧
    s.look past t p = .error (.system e) ∧ e.isAbsence = false

variable {s : Site} {past : List Syscall} {t : Tree} {o : Options} {x : Suffixes}

/-- The run ends at a file that lacks the boilerplate. -/
theorem annotateFiles_of_lacksBoilerplate (code : ExitCode) {path : Path} (paths : List Path)
    (h : (s.attempt o x past t path).LacksBoilerplate) :
    let a := s.attempt o x past t path
    s.annotateFiles o x code past t (path :: paths) =
      { changes := a.changes, diagnostics := a.shown, result := .ok .boilerplate } := by
  intro a
  obtain ⟨p, hp⟩ := h
  simp only [annotateFiles, annotateInPlace_eq_attempt, a, Attempt.shown, hp, Fault.exitCode?]

theorem handled_of_reported {a : Attempt} (h : a.Reported) (hlacks : ¬ a.LacksBoilerplate) {f : Fault}
    (hf : a.result = .error f) : Handled f := by
  obtain ⟨code, hcode⟩ := Option.isSome_iff_exists.mp (h f hf)
  refine ⟨code, hcode, ?_⟩
  rintro rfl
  apply hlacks
  apply Attempt.exitCode_eq_boilerplate_iff.mp
  simp [Attempt.exitCode, hf, hcode]

/-- If every attempt that is made ends well or with an exit code, the run is these attempts. -/
theorem annotateFiles_made (paths : List Path) (code : ExitCode) (past : List Syscall) (t : Tree)
    (h : ∀ a ∈ Attempt.made (s.attempts o x past t paths), a.Reported) :
    s.annotateFiles o x code past t paths =
      .ofMade code (Attempt.made (s.attempts o x past t paths)) := by
  -- On the files. What failed before is summed up in `code`, so it is generalized.
  induction paths generalizing code past t with
  | nil =>
    simp only [annotateFiles, attempts, Attempt.made, Run.ofMade, Run.ofAttempts, ExitCode.overall]
    cases code <;> rfl
  | cons path paths ih =>
    rw [attempts, Attempt.made] at h ⊢
    set a := s.attempt o x past t path with ha
    by_cases hlacks : a.LacksBoilerplate
    · rw [if_pos (Attempt.exitCode_eq_boilerplate_iff.mpr hlacks),
        annotateFiles_of_lacksBoilerplate code paths hlacks]
      have hcode := Attempt.exitCode_eq_boilerplate_iff.mpr hlacks
      simp [Run.ofMade, Run.ofAttempts, ExitCode.overall, hcode, ← ha]
    · have hcode := Attempt.exitCode_eq_boilerplate_iff.not.mpr hlacks
      rw [if_neg hcode] at h ⊢
      obtain ⟨hfirst, hrest⟩ := List.forall_mem_cons.mp h
      rcases s.annotateFiles_cons o x code past t path paths with
        ⟨-, hrun⟩ | ⟨f, hf, hnot, -⟩
      · rw [hrun, ih _ _ _ hrest]
        simp [Run.ofMade, Run.ofAttempts, ← ha, ExitCode.overall_first hcode]
      · exact absurd (handled_of_reported hfirst hlacks hf) hnot

/-- How the look at the boilerplate ends, if its home directory is known. -/
theorem checkBoilerplate_cases (hhome : s.KnowsHome o) (past : List Syscall) (t : Tree) :
    s.HasBoilerplate past t o ∧ s.checkBoilerplate past t o = .ok () ∨
    ¬ s.HasBoilerplate past t o ∧ ∃ run, s.checkBoilerplate past t o = .error run ∧ run.changes = [] ∧
      (∀ e p, s.Barred past t o e p → run.result = .error (.system e (some p))) ∧
      ((∀ e p, ¬ s.Barred past t o e p) → run.result = .ok .boilerplate) := by
  cases hw : o.boilerplatePath? with
  | none => exact .inl ⟨fun written h => by simp [hw] at h, by simp [checkBoilerplate, hw]⟩
  | some written =>
    obtain ⟨p, hp⟩ := hhome written hw
    have hhas : s.HasBoilerplate past t o ↔ ∃ id, s.look past t p = .ok (.file id) := by
      simp [HasBoilerplate, hw, hp]
    have hbarred (e : SystemError) (q : Path) : s.Barred past t o e q ↔
        q = p ∧ s.look past t p = .error (.system e) ∧ e.isAbsence = false := by
      simp only [Barred, hw, Option.some.injEq, exists_eq_left', hp, Except.ok.injEq]
      constructor
      · rintro ⟨rfl, h⟩
        exact ⟨rfl, h⟩
      · rintro ⟨rfl, h⟩
        exact ⟨rfl, h⟩
    simp only [hhas, hbarred]
    cases hlook : s.look past t p with
    | ok entry => cases entry <;> simp [checkBoilerplate, hw, hp, hlook]
    | error trouble =>
      cases trouble with
      | path f => simp [checkBoilerplate, hw, hp, hlook]
      | system e =>
        cases he : e.isAbsence with
        | true =>
          right
          refine ⟨by simp, _, by simp [checkBoilerplate, hw, hp, hlook, he]; rfl, rfl, ?_, fun _ => rfl⟩
          rintro e' q ⟨-, heq, habsence⟩
          cases heq
          rw [he] at habsence
          cases habsence
        | false =>
          right
          refine ⟨by simp, _, by simp [checkBoilerplate, hw, hp, hlook, he]; rfl, rfl, ?_, ?_⟩
          · rintro e' q ⟨rfl, heq, -⟩
            cases heq
            rfl
          · intro hnone
            exact absurd ⟨rfl, rfl, he⟩ (hnone e p)

end Site

/-- The run made all of these attempts, and the first failure among them gave its exit code. -/
structure Run.Completes (run : Run) (t : Tree) (as : List Attempt) : Prop where
  tree_eq : t.applyAll run.changes = t.leftBy as
  result_ok : (∀ a ∈ as, a.Succeeds) → run.result = .ok .ok
  result_failed : ∀ before a later f, as = before ++ a :: later → (∀ b ∈ before, b.Succeeds) →
    a.result = .error f → ∃ code, f.exitCode? = some code ∧ run.result = .ok code

theorem Run.completes_ofMade (unknown : List Diagnostic) {t : Tree} {as : List Attempt}
    (hreported : ∀ a ∈ as, a.Reported) (hplate : ∀ a ∈ as, ¬ a.LacksBoilerplate) :
    Run.Completes (.after unknown (.ofMade .ok as)) t as := by
  have hresult : (Run.after unknown (.ofMade .ok as)).result = .ok (.first (as.map (·.exitCode))) := by
    have hnone : ExitCode.boilerplate ∉ .ok :: as.map (·.exitCode) := by
      simp only [List.mem_cons, List.mem_map, reduceCtorEq, false_or, not_exists, not_and]
      intro a ha
      exact Attempt.exitCode_eq_boilerplate_iff.not.mpr (hplate a ha)
    simp only [after, ofMade, ExitCode.overall, if_neg hnone, ExitCode.first_cons, if_pos]
  have hcodes {bs : List Attempt} (h : ∀ b ∈ bs, b.Succeeds) : ∀ c ∈ bs.map (·.exitCode), c = .ok := by
    intro c hc
    obtain ⟨b, hb, rfl⟩ := List.mem_map.mp hc
    exact Attempt.exitCode_of_succeeds (h b hb)
  refine ⟨t.applyAll_flatMap as, fun hall => ?_, ?_⟩
  · rw [hresult, ExitCode.first, List.find?_eq_none.mpr]
    · rfl
    · intro c hc
      simp [hcodes hall c hc]
  · rintro before a later f rfl hbefore hf
    obtain ⟨code, hcode⟩ := Option.isSome_iff_exists.mp (hreported a (by simp) f hf)
    have ha : a.exitCode = code := by simp [Attempt.exitCode, hf, hcode]
    have hne : code ≠ .ok := by
      rintro rfl
      exact Attempt.exitCode?_ne_ok f hcode
    refine ⟨code, hcode, ?_⟩
    rw [hresult, List.map_append, List.map_cons, ha, ExitCode.first_append_cons (hcodes hbefore) hne]

namespace Site

/-- The exit code of a run, and what the run leaves. With the boilerplate in its place, the files are
tried in order. If none lacks the boilerplate, all of them are tried, and the exit code is that of the
first failure. Otherwise the run ends at the first that lacks it. Without the boilerplate nothing is
changed, but only one that can be looked for gives the exit code: the error of the system that bars the
look ends the run. -/
theorem command_exitCode {α : Type} {l : Loader α} {s : Site} {t : Tree} {input : Bytes} {r : Request}
    {loaded : Settings} (hload : s.settings l t r = .ok loaded)
    (hhome : s.KnowsHome (requested r loaded.options))
    (hfiles : ∃ file ∈ r.files, isOption file = false) :
    let o := requested r loaded.options
    let as := s.attempts o loaded.suffixes (s.openingCalls r o) t
      ((r.files.filter (!isOption ·)).map Path.ofText)
    let run := s.command l t input r
    (s.HasBoilerplate (configCalls r) t o → (∀ a ∈ Attempt.made as, a.Reported) →
      ((∀ a ∈ Attempt.made as, ¬ a.LacksBoilerplate) → Attempt.made as = as ∧ run.Completes t as) ∧
      ∀ before a later, as = before ++ a :: later → (∀ b ∈ before, ¬ b.LacksBoilerplate) →
        a.LacksBoilerplate → Attempt.made as = before ++ [a] ∧ run.result = .ok .boilerplate ∧
          t.applyAll run.changes = t.leftBy (before ++ [a])) ∧
    (¬ s.HasBoilerplate (configCalls r) t o → run.changes = [] ∧
      (run.result = .ok .boilerplate ↔ ∀ e p, ¬ s.Barred (configCalls r) t o e p) ∧
      ∀ e p, s.Barred (configCalls r) t o e p → run.result = .error (.system e (some p))) := by
  intro o as run
  constructor
  · intro hplate hreported
    have hrun : run = .after ((r.files.filter isOption).map Diagnostic.unknownOption)
        (.ofMade .ok (Attempt.made as)) := by
      rcases s.checkBoilerplate_cases hhome (configCalls r) t with ⟨-, hcheck⟩ | ⟨hnot, -⟩
      · have hne : ((r.files.filter (!isOption ·)).map Path.ofText).isEmpty = false := by
          obtain ⟨file, hfile, hoption⟩ := hfiles
          simp only [List.isEmpty_eq_false_iff, ne_eq, List.map_eq_nil_iff, List.filter_eq_nil_iff]
          intro hall
          exact hall file hfile (by simp [hoption])
        simp only [run, command, hload, hcheck, annotateRequested, hne, Bool.false_eq_true, if_false]
        rw [annotateFiles_made _ _ _ _ hreported]
      · exact absurd hplate hnot
    constructor
    · intro hlacks
      have hall := Attempt.made_eq_self hlacks
      rw [hall] at hrun hreported hlacks
      rw [hrun]
      exact ⟨hall, Run.completes_ofMade _ hreported hlacks⟩
    · intro before a later has hbefore ha
      have hmade : Attempt.made as = before ++ [a] := by
        rw [has]
        exact Attempt.made_eq_append hbefore ha
      rw [hmade] at hrun
      rw [hrun]
      refine ⟨hmade, ?_, t.applyAll_flatMap _⟩
      simp [Run.after, Run.ofMade, ExitCode.overall, Attempt.exitCode_eq_boilerplate_iff.mpr ha]
  · intro hplate
    rcases s.checkBoilerplate_cases hhome (configCalls r) t with
      ⟨hhas, -⟩ | ⟨-, failed, hcheck, hchanges, hbarred, hfree⟩
    · exact absurd hhas hplate
    · have hrun : run = failed := by simp only [run, command, hload, hcheck]
      rw [hrun]
      refine ⟨hchanges, ⟨fun hresult e p hbar => ?_, hfree⟩, hbarred⟩
      rw [hbarred e p hbar] at hresult
      cases hresult

/-- The first file serves as boilerplate, and its last rename is refused. So the second file lacks the
boilerplate, which counts more than the failed rename, and the third is not tried. -/
theorem command_exitCode_moved :
    let l := Settings.loader
    let s : Site :=
      { here := []
        refuses := fun _ call =>
          if call = .rename (Path.ofString "a.c.tmp") (Path.ofString "a.c") then some .denied else none }
    let t : Tree :=
      ⟨[([Name.ofText (.ofString "a.c")], .file 0), ([Name.ofText (.ofString "b.c")], .file 1),
          ([Name.ofText (.ofString "c.c")], .file 2)],
        [(0, [105]), (1, [106]), (2, [107])]⟩
    let r : Request :=
      { files := ["a.c", "-x", "b.c", "c.c"].map .ofString, boilerplate := some (.ofString "a.c") }
    let o := requested r {}
    let as := s.attempts o {} (s.openingCalls r o) t ((r.files.filter (!isOption ·)).map Path.ofText)
    let run := s.command l t [] r
    s.settings l t r = .ok {} ∧ s.KnowsHome o ∧ s.HasBoilerplate (configCalls r) t o ∧
    (∀ a ∈ Attempt.made as, a.Reported) ∧ (Attempt.made as).map (·.exitCode) = [.rename, .boilerplate] ∧
    run.result = .ok .boilerplate ∧ t.applyAll run.changes = t.leftBy (as.take 2) ∧
    (t.leftBy (as.take 2)).bytes? [Name.ofText (.ofString "c.c")] = some [107] := by
  intro l s t r o as run
  have hwritten : ∀ written, o.boilerplatePath? = some written → written = Text.ofString "a.c" := by
    intro written h
    exact (Option.some.inj h).symm
  have hp : s.expandHome (Path.ofString "a.c") = .ok (Path.ofString "a.c") := by decide +kernel
  have hhome : s.KnowsHome o := by
    intro written h
    rw [hwritten written h]
    exact ⟨_, hp⟩
  have hplate : s.HasBoilerplate (configCalls r) t o := by
    intro written h
    rw [hwritten written h]
    exact ⟨_, 0, hp, by decide +kernel⟩
  have hreported : ∀ a ∈ Attempt.made as, a.Reported := by decide +kernel
  have hsplit : ∃ before a later, as = before ++ a :: later ∧ (∀ b ∈ before, ¬ b.LacksBoilerplate) ∧
      a.LacksBoilerplate ∧ as.take 2 = before ++ [a] :=
    ⟨_ :: [], _, _ :: [], rfl, by decide +kernel, by decide +kernel, rfl⟩
  obtain ⟨before, a, later, has, hbefore, ha, htake⟩ := hsplit
  have hfiles : ∃ file ∈ r.files, isOption file = false := ⟨.ofString "a.c", by decide, by decide⟩
  obtain ⟨-, hresult, htree⟩ := ((@command_exitCode _ l s t [] r {} rfl hhome hfiles).1 hplate
    hreported).2 before a later has hbefore ha
  rw [← htake] at htree
  exact ⟨rfl, hhome, hplate, hreported, by decide +kernel, hresult, htree, by decide +kernel⟩

/-- No file has a name of 256 bytes, yet the run gives no exit code for such a boilerplate. -/
theorem overlong_boilerplate_ends_run :
    let l := Settings.loader
    let s : Site := { here := [] }
    let t : Tree := ⟨[([Name.ofText (.ofString "a.c")], .file 0)], [(0, [105])]⟩
    let name : Text := List.replicate 256 (.char 'x')
    let run := s.command l t [] { files := [.ofString "a.c"], boilerplate := some name }
    s.reach? t (Path.ofText name) = none ∧
      run.result = .error (.system .nameTooLong (some (Path.ofText name))) ∧ run.changes = [] := by
  decide +kernel

end Site

end DocBlock
