import Mathlib
import DocBlock.Files.InPlace

/-! Where faults come from. A name or an encoding that makes no sense gives a fault without an exit
code; a page fails only where the boilerplate cannot be read. -/

namespace DocBlock

theorem Except.bind_eq_ok {ε α β : Type} {x : Except ε α} {f : α → Except ε β} {b : β} :
    x >>= f = .ok b ↔ ∃ a, x = .ok a ∧ f a = .ok b := by
  cases x <;> simp [bind, Except.bind]

theorem Except.bind_eq_error {ε α β : Type} {x : Except ε α} {f : α → Except ε β} {e : ε} :
    x >>= f = .error e ↔ x = .error e ∨ ∃ a, x = .ok a ∧ f a = .error e := by
  cases x <;> simp [bind, Except.bind]

theorem Except.mapError_eq_ok {ε ε' α : Type} {r : Except ε α} {g : ε → ε'} {a : α} :
    r.mapError g = .ok a ↔ r = .ok a := by
  cases r <;> simp [Except.mapError]

theorem Except.mapError_eq_error {ε ε' α : Type} {r : Except ε α} {g : ε → ε'} {f : ε'} :
    r.mapError g = .error f ↔ ∃ e, r = .error e ∧ g e = f := by
  cases r <;> simp [Except.mapError]

/-- The fault comes from one of the two renames. -/
def Fault.OfRename (f : Fault) : Prop := f.exitCode? = some .backup ∨ f.exitCode? = some .rename

theorem Fault.not_ofRename {f : Fault} (h : f.exitCode? = none) : ¬ f.OfRename := by
  simp [OfRename, h]

theorem Path.exitCode?_nameFault? {part : Text} {f : Fault} (h : nameFault? part = some f) :
    f.exitCode? = none := by
  unfold nameFault? at h
  split at h
  · cases h
    rfl
  · split at h <;> cases h
    rfl

theorem Path.exitCode?_names {path : Path} {f : Fault} (h : path.names = .error f) :
    f.exitCode? = none := by
  unfold names at h
  split at h
  · next hf =>
    cases h
    exact exitCode?_nameFault? hf
  · cases h

theorem Path.exitCode?_addSuffix {path : Path} {suffix : Text} {f : Fault}
    (h : path.addSuffix suffix = .error f) : f.exitCode? = none := by
  unfold addSuffix at h
  split at h
  · cases h
    rfl
  · split at h <;> cases h
    rfl

theorem Encoding.exitCode?_spelled {name : Text} {f : Fault} (h : spelled name = .error f) :
    f.exitCode? = none := by
  unfold spelled at h
  split at h
  · cases h
    rfl
  · split at h <;> cases h
    rfl

namespace Page

variable {p q : Page} {plate : Option Boilerplate.Reading} {f : Fault}

theorem fault_append (p q : Page) : (p ++ q).fault = p.fault.or q.fault := by
  change (p.append q).fault = _
  unfold append
  cases hp : p.fault <;> simp [hp]

/-- Writing the boilerplate fails only as reading it does. -/
theorem fault_boilerplate (h : (boilerplate plate).fault = some f) : plate = some (.error f) := by
  unfold boilerplate at h
  split at h
  · cases h
  · next r =>
    cases r with
    | ok t => cases h
    | error g =>
      cases h
      rfl

theorem fault_missingBoilerplate {header : Text}
    (h : (missingBoilerplate plate header).fault = some f) : plate = some (.error f) := by
  unfold missingBoilerplate at h
  split at h
  · cases h
  · next r =>
    cases r with
    | ok t =>
      split at h
      · cases h
      · exact fault_boilerplate h
      · next hc => cases hc
    | error g =>
      cases h
      rfl

end Page

/-- A page has a fault only where the boilerplate cannot be read. -/
theorem Event.fault_page {o : Options} {plate : Option Boilerplate.Reading} {f : Fault} {e : Event}
    (h : (e.page o plate).fault = some f) : plate = some (.error f) := by
  cases e with
  | header =>
    simp only [page, Page.fileHeader, Page.fault_append, Option.or_eq_some_iff] at h
    rcases h with (h | ⟨-, h⟩) | ⟨-, h⟩
    · cases h
    · exact Page.fault_boilerplate h
    · cases h
  | flush p =>
    simp only [page, Pending.page] at h
    split at h
    · simp only [Page.fileComment, Page.fault_append, Option.or_eq_some_iff] at h
      rcases h with ((h | ⟨-, h⟩) | ⟨-, h⟩) | ⟨-, h⟩
      · cases h
      · cases h
      · exact Page.fault_missingBoilerplate h
      · cases h
    · split at h <;> cases h
  | full | strayBrace => cases h

namespace Output

variable {α : Type}

theorem exists_of_fault_concat {os : List (Output α)} {f : Fault} (h : (concat os).fault = some f) :
    ∃ o ∈ os, o.fault = some f := by
  induction os with
  | nil => cases h
  | cons a os ih =>
    have hc : concat (a :: os) = a.append (concat os) := rfl
    rw [hc, append] at h
    split at h
    · exact ⟨a, by simp, h⟩
    · obtain ⟨o, ho, hf⟩ := ih h
      exact ⟨o, by simp [ho], hf⟩

end Output

namespace Codec

variable {c : Codec} {out : Output UInt8} {f : Fault}

theorem fault_of_mem_writeEdits {earlier : List Text} {es : List Edit}
    (h : out ∈ c.writeEdits earlier es) (hf : out.fault = some f) : f = .unencodable := by
  induction es generalizing earlier with
  | nil => cases h
  | cons e es ih =>
    rcases List.mem_cons.mp h with rfl | h
    · unfold Output.ofEdit write at hf
      split at hf
      · cases hf
      · next hw =>
        split at hw
        · cases hw
        · split at hw <;> cases hw
          exact (Option.some.inj hf).symm
    · exact ih h

/-- Writing a page fails where the codec cannot write, or at the fault of the page. -/
theorem exists_of_mem_writePages {earlier : List Text} {ps : List Page}
    (h : out ∈ c.writePages earlier ps) (hf : out.fault = some f) :
    f = .unencodable ∨ ∃ p ∈ ps, p.fault = some f := by
  induction ps generalizing earlier with
  | nil => cases h
  | cons p ps ih =>
    rcases List.mem_cons.mp h with rfl | h
    · obtain ⟨part, hpart, hf⟩ := Output.exists_of_fault_concat hf
      simp only [List.cons_append, List.mem_cons, List.mem_append, List.not_mem_nil, or_false] at hpart
      rcases hpart with rfl | hpart | rfl
      · cases hf
      · exact .inl (fault_of_mem_writeEdits hpart hf)
      · exact .inr ⟨p, List.mem_cons_self, hf⟩
    · exact (ih h).imp_right fun ⟨q, hq, hqf⟩ => ⟨q, List.mem_cons_of_mem _ hq, hqf⟩

end Codec

/-- Where annotating bytes fails: at a text that the codec cannot write, at bytes that it cannot read,
or at the boilerplate. -/
theorem annotateBytes_fault {c : Codec} {o : Options} {plate : Option Boilerplate.Reading}
    {bytes : Bytes} {f : Fault} (h : (annotateBytes c o plate bytes).fault = some f) :
    f = .unencodable ∨ f = .undecodable ∧ (c.decode bytes).isComplete = false ∨
      plate = some (.error f) := by
  obtain ⟨out, hout, hf⟩ := Output.exists_of_fault_concat h
  rcases Codec.exists_of_mem_writePages hout hf with rfl | ⟨p, hp, hf⟩
  · exact .inl rfl
  · right
    unfold Decoded.pages at hp
    split at hp
    · obtain ⟨event, -, rfl⟩ := List.mem_map.mp hp
      exact .inr (Event.fault_page hf)
    · next hcomplete =>
      rcases List.mem_append.mp hp with hp | hp
      · obtain ⟨event, -, rfl⟩ := List.mem_map.mp hp
        exact .inr (Event.fault_page hf)
      · rw [List.mem_singleton.mp hp] at hf
        cases hf
        exact .inl ⟨rfl, by simpa using hcomplete⟩

namespace Site

variable {s : Site} {past : List Syscall} {t : Tree} {o : Options} {path temp : Path} {c : Codec}
  {bytes : Bytes} {f : Fault}

theorem exitCode?_home {user : Text} (h : s.home user = .error f) : f.exitCode? = none := by
  unfold home at h
  split at h
  · next g hg =>
    obtain rfl := Except.error.inj h
    split at hg
    · cases hg
    · exact Path.exitCode?_nameFault? hg
  · split at h
    · obtain rfl := Except.error.inj h
      rfl
    · split at h
      · cases h
      · split at h
        · obtain rfl := Except.error.inj h
          rfl
        · cases h

theorem exitCode?_expandHome {p : Path} (h : s.expandHome p = .error f) : f.exitCode? = none := by
  unfold expandHome at h
  split at h
  · next user rest _ _ =>
    cases hhome : s.home user with
    | error g =>
      rw [hhome] at h
      obtain rfl := Except.error.inj h
      exact exitCode?_home hhome
    | ok directory =>
      rw [hhome] at h
      cases h
  · cases h

/-- What goes wrong while a file is processed. -/
theorem process_fault (h : (s.process past t o path temp c bytes).output.fault = some f) :
    (∃ b, s.breaksDown past (some path) = some b ∧ f = b.fileFault path temp) ∨
    s.boilerplate? past t o = .error f ∨
    ∃ plate, s.boilerplate? past t o = .ok plate ∧
      (annotateBytes c o plate bytes).fault = some f := by
  unfold process at h
  split at h
  · next b hb => exact .inl ⟨b, hb, (Option.some.inj h).symm⟩
  · split at h
    · next g hg =>
      obtain rfl := Option.some.inj h
      exact .inr (.inl hg)
    · next plate hplate => exact .inr (.inr ⟨plate, hplate, h⟩)

/-- Processing that ends without a fault has annotated the bytes. -/
theorem process_eq (h : (s.process past t o path temp c bytes).output.fault = none) :
    ∃ plate, s.boilerplate? past t o = .ok plate ∧
      (s.process past t o path temp c bytes).output = annotateBytes c o plate bytes := by
  unfold process at h ⊢
  split at h
  · cases h
  · split at h
    · cases h
    · next plate hplate => exact ⟨plate, hplate, rfl⟩

end Site

end DocBlock
