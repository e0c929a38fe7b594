import Mathlib
import DocBlock.Proofs.Boundary
import DocBlock.Proofs.Heading
import DocBlock.Proofs.Provenance

/-! Bytes pass through unchanged. Encoding undoes decoding, whatever the bytes are, so annotating bytes
is annotating the text that they stand for. The one thing that may not be expressible in the encoding
is the name of the file, and it is written only in the header of a file that starts without a
comment. -/

namespace DocBlock

open Text (ofString)

namespace Encoding

variable {e : Encoding} {t u : Text}

/-- The symbol has a form in the encoding. -/
def Expresses (e : Encoding) (c : Sym) : Prop := (e.encodeSym? c).isSome = true

@[simp] theorem encode?_nil : e.encode? [] = some [] := rfl

theorem encode?_cons (c : Sym) (t : Text) :
    e.encode? (c :: t) = (e.encodeSym? c).bind fun b => (e.encode? t).map (b ++ ·) := by
  unfold encode?
  cases hc : e.encodeSym? c <;> cases ht : t.mapM e.encodeSym? <;> simp [hc, ht]

theorem encode?_append (t u : Text) :
    e.encode? (t ++ u) = (e.encode? t).bind fun b => (e.encode? u).map (b ++ ·) := by
  induction t with
  | nil => simp
  | cons c t ih =>
    rw [List.cons_append, encode?_cons, encode?_cons, ih]
    cases e.encodeSym? c <;> cases e.encode? t <;> cases e.encode? u <;> simp

theorem isSome_encode? : (e.encode? t).isSome = true ↔ t.Within e.Expresses := by
  induction t with
  | nil => simp [Text.Within]
  | cons c t ih =>
    rw [Text.Within, List.forall_mem_cons, ← Text.Within, ← ih, encode?_cons, Expresses]
    cases e.encodeSym? c <;> simp

theorem expresses_of_isAscii {c : Sym} (h : c.isAscii = true) : e.Expresses c := by
  cases c with
  | byte | surrogate => simp [Sym.isAscii] at h
  | char c =>
    have hlt : c.toNat < 128 := by simpa [Sym.isAscii] using h
    cases e with
    | utf8 => rfl
    | latin1 =>
      have : c.toNat < 256 := by omega
      simp [Expresses, encodeSym?, this]
    | ascii => simp [Expresses, encodeSym?, hlt]

theorem toNat_ofNat_byte (b : UInt8) : (Char.ofNat b.toNat).toNat = b.toNat := by
  have hlt := b.toNat_lt
  rw [Char.toNat_ofNat, if_pos]
  exact .inl (by omega)

/-- What was decoded before `bytes` is encoded first, and the bytes come out behind it. A character is
taken only where its own form stands at the front, so that form is what is written back. -/
theorem encode?_decodeUtf8From (done : Array Sym) (bytes : Bytes) :
    utf8.encode? (decodeUtf8From done bytes) = (utf8.encode? done.toList).map (· ++ bytes) := by
  fun_induction decodeUtf8From done bytes with
  | case1 done => simp
  | case2 done b rest c hc ih =>
    have hfront : String.utf8EncodeChar c <+: b :: rest := by
      unfold utf8Front? at hc
      simp only at hc
      split at hc
      · next hp =>
        rw [← Option.some.inj hc]
        exact List.isPrefixOf_iff_prefix.mp hp
      · contradiction
    have hrest : String.utf8EncodeChar c ++ rest.drop (c.utf8Size - 1) = b :: rest := by
      obtain ⟨k, hk⟩ := Nat.exists_eq_succ_of_ne_zero (Nat.ne_of_gt c.utf8Size_pos)
      have := List.prefix_iff_eq_append.mp hfront
      rw [String.length_utf8EncodeChar, hk, List.drop_succ_cons] at this
      rwa [hk]
    have hsym : utf8.encode? [Sym.char c] = some (String.utf8EncodeChar c) := by
      simp [encode?_cons, encodeSym?]
    rw [ih, Array.toList_push, encode?_append, hsym]
    cases utf8.encode? done.toList <;> simp [hrest]
  | case3 done b rest _ ih =>
    have hsym : utf8.encode? [Sym.byte b] = some [b] := by simp [encode?_cons, encodeSym?]
    rw [ih, Array.toList_push, encode?_append, hsym]
    cases utf8.encode? done.toList <;> simp

/-- An encoding that decodes byte by byte undoes it byte by byte. -/
theorem encode?_map {f : UInt8 → Sym} (h : ∀ b, e.encodeSym? (f b) = some [b]) (bytes : Bytes) :
    e.encode? (bytes.map f) = some bytes := by
  induction bytes with
  | nil => rfl
  | cons b bytes ih => simp [encode?_cons, h, ih]

theorem encode?_decode (e : Encoding) (bytes : Bytes) : e.encode? (e.decode bytes) = some bytes := by
  cases e with
  | utf8 =>
    have := encode?_decodeUtf8From #[] bytes
    simpa [decode] using this
  | latin1 =>
    apply encode?_map
    intro b
    have hlt : b.toNat < 256 := b.toNat_lt
    simp [encodeSym?, toNat_ofNat_byte, hlt]
  | ascii =>
    apply encode?_map
    intro b
    split
    · next hb =>
      have hlt : b.toNat < 128 := UInt8.lt_iff_toNat_lt.mp hb
      simp [encodeSym?, toNat_ofNat_byte, hlt]
    · rfl

theorem within_decode (e : Encoding) (bytes : Bytes) : (e.decode bytes).Within e.Expresses := by
  rw [← isSome_encode?, encode?_decode]
  rfl

theorem write_append (t u : Text) :
    e.write (t ++ u) = e.write t >>= fun b => (e.write u).map (b ++ ·) := by
  unfold write
  rw [encode?_append]
  cases e.encode? t <;> cases e.encode? u <;> rfl

/-- Earlier pieces have no bearing on what is written. -/
theorem codec_write (e : Encoding) (earlier : List Text) (t : Text) :
    (e : Codec).write earlier t = e.write t := by
  unfold Codec.write write
  split
  · next ht => simp [ht]
  · rfl

theorem codec_writeEdits (e : Encoding) (earlier : List Text) (es : List Edit) :
    (e : Codec).writeEdits earlier es = es.map (.ofEdit e.write) := by
  induction es generalizing earlier with
  | nil => rfl
  | cons d es ih =>
    have hwrite : (e : Codec).write earlier = e.write := funext (codec_write e earlier)
    rw [Codec.writeEdits, ih, hwrite, List.map_cons]

theorem codec_writePages (e : Encoding) (earlier : List Text) (ps : List Page) :
    (e : Codec).writePages earlier ps = ps.map (.ofPage e.write) := by
  induction ps generalizing earlier with
  | nil => rfl
  | cons p ps ih =>
    rw [Codec.writePages, ih, codec_writeEdits, List.map_cons]
    rfl

end Encoding

namespace Output

variable {α : Type}

theorem toExcept_append (a b : Output α) :
    (a.append b).toExcept = a.toExcept >>= fun x => b.toExcept.map (x ++ ·) := by
  unfold append toExcept
  cases ha : a.fault <;> cases b.fault <;> simp [ha, bind, Except.bind, Except.map]

/-- Outputs that each write a text write all of it together. -/
theorem toExcept_concat {ι : Type} {e : Encoding} {f : ι → Output UInt8} {g : ι → Text} {l : List ι}
    (h : ∀ i ∈ l, (f i).toExcept = e.write (g i)) :
    (concat (l.map f)).toExcept = e.write (l.flatMap g) := by
  induction l with
  | nil => rfl
  | cons i l ih =>
    rw [List.forall_mem_cons] at h
    have hcons : concat ((i :: l).map f) = (f i).append (concat (l.map f)) := rfl
    rw [hcons, toExcept_append, h.1, ih h.2, List.flatMap_cons, Encoding.write_append]

theorem toExcept_ofPage {e : Encoding} {p : Page} (h : p.fault = none) :
    (ofPage e.write p).toExcept = e.write p.written := by
  have hedits : (concat (p.edits.map (ofEdit e.write))).toExcept = e.write p.written := by
    apply toExcept_concat
    intro d _
    unfold ofEdit
    cases e.write d.written <;> rfl
  have hcons : ofPage e.write p =
      ({ notes := p.notes } : Output UInt8).append
        (concat (p.edits.map (ofEdit e.write) ++ [{ fault := p.fault }])) := rfl
  rw [hcons, toExcept_append, concat_append, toExcept_append, hedits, h]
  cases e.write p.written <;> simp [toExcept, concat, append, bind, Except.bind, Except.map]

end Output

section Bytes

variable (e : Encoding) {o : Options} {plate : Option Boilerplate.Reading} (bytes : Bytes)

theorem fault_page_eq_none (h : ∀ f, plate ≠ some (.error f)) {t : Text} :
    ∀ p ∈ pages o plate t, p.fault = none := by
  intro p hp
  obtain ⟨event, -, rfl⟩ := List.mem_map.mp hp
  cases hf : (event.page o plate).fault with
  | none => rfl
  | some f => exact absurd (Event.fault_page hf) (h f)

/-- Annotating bytes is annotating the text that they stand for. -/
theorem toExcept_annotateBytes (h : ∀ f, plate ≠ some (.error f)) :
    (annotateBytes e o plate bytes).toExcept =
      e.write (annotate o plate (e.decode bytes)).data := by
  have hfault := fault_page_eq_none (o := o) (t := e.decode bytes) h
  have hpages : annotateBytes e o plate bytes =
      .concat ((pages o plate (e.decode bytes)).map (.ofPage e.write)) := by
    rw [annotateBytes, Encoding.codec_writePages]
    rfl
  rw [hpages, data_annotate (fault_annotate.mpr hfault), List.flatMap_assoc]
  exact Output.toExcept_concat fun p hp => Output.toExcept_ofPage (hfault p hp)

variable {e bytes}

theorem Output.fault_eq_of_toExcept {x : Output UInt8} {t : Text} (h : x.toExcept = e.write t) :
    x.fault = if (e.encode? t).isSome then none else some .unencodable := by
  unfold toExcept Encoding.write at h
  cases hx : x.fault <;> cases ht : e.encode? t <;> simp [hx, ht] at h ⊢
  exact h

theorem within_data {P : Sym → Prop} {t : Text} (h : (annotate o plate t).fault = none)
    (hpages : ∀ p ∈ pages o plate t, p.Within P) : Text.Within P (annotate o plate t).data := by
  rw [data_annotate h]
  intro c hc
  obtain ⟨d, hd, hc⟩ := List.mem_flatMap.mp hc
  obtain ⟨p, hp, hd⟩ := List.mem_flatMap.mp hd
  exact hpages p hp d hd c hc

/-- Nothing is beyond the encoding where the header of the file, if it gets one, can show its name. -/
theorem fault_annotateBytes_eq_none (h : ∀ f, plate ≠ some (.error f))
    (hplate : Boilerplate.Within e.Expresses plate)
    (hname : .header ∈ events o.bufferCapacity (e.decode bytes) → o.shownName.Within e.Expresses) :
    (annotateBytes e o plate bytes).fault = none := by
  have hpages := within_pages (fun _ => Encoding.expresses_of_isAscii) hplate
    (Encoding.within_decode e bytes) hname
  have hdata := within_data (fault_annotate.mpr (fault_page_eq_none h)) hpages
  rw [Output.fault_eq_of_toExcept (toExcept_annotateBytes e bytes h),
    if_pos (Encoding.isSome_encode?.mpr hdata)]

end Bytes

/-- The first symbol that is not blank exists and opens no comment. -/
def Text.StartsInCode (t : Text) : Prop :=
  ∃ c rest, t.dropWhile Sym.isBlank = c :: rest ∧ ¬ ({} : Scanner).OpensComment c rest.head?

theorem fileHeader_mem_moments {t : Text} :
    (∃ m ∈ ({} : Scanner).moments t, .fileHeader ∈ m.markers) ↔ t.StartsInCode := by
  induction t with
  | nil => simp [Scanner.moments, Text.StartsInCode]
  | cons c rest ih =>
    rw [Scanner.moments_cons, Text.StartsInCode, List.dropWhile_cons]
    by_cases hc : c.isBlank = true
    · simpa [hc, Scanner.step_blank_initial hc, Text.StartsInCode] using ih
    · have hlater : ∀ m ∈ (({} : Scanner).step c rest.head?).1.moments rest, .fileHeader ∉ m.markers := by
        rw [← Scanner.momentsTo_none]
        exact Passage.not_fileHeader (g := ⟨_, rest, none, []⟩) (by simpa using hc)
      have hfirst : .fileHeader ∈ (({} : Scanner).step c rest.head?).2 ↔
          ¬ ({} : Scanner).OpensComment c rest.head? := by
        rw [Scanner.mem_step_iff, ← Scanner.isComment_stepMode_initial]
        simp [Scanner.Due, hc]
      simp only [if_neg hc, List.mem_cons, exists_eq_or_imp, Scanner.moment_markers, hfirst]
      constructor
      · rintro (h | ⟨m, hm, hx⟩)
        · exact ⟨c, rest, rfl, h⟩
        · exact absurd hx (hlater m hm)
      · rintro ⟨c', rest', h, ho⟩
        obtain ⟨rfl, rfl⟩ := List.cons.inj h
        exact .inl ho

/-- A header is made exactly for a text that starts in code, whatever the capacity. -/
theorem header_mem_events {capacity : Int} (hc : 0 < capacity) {t : Text} :
    .header ∈ events capacity t ↔ t.StartsInCode := by
  have hdivides := divides_passages (fun l => decide (capacity ≤ l)) {} t
  have hpassage (g : Passage) :
      .header ∈ g.events capacity ↔ ∃ m ∈ g.moments, .fileHeader ∈ m.markers := by
    have hmoment : ∀ m ∈ g.moments, Event.header ∈ m.events ↔ .fileHeader ∈ m.markers := by
      intro m hm
      have hstray : Event.header ∉ if m.before.isStrayBrace m.sym then [Event.strayBrace] else [] := by
        split <;> simp
      rw [Scanner.Moment.events_eq hm, List.mem_append, or_iff_right hstray]
      split
      · next h => simp [h]
      · next h => simp [h]
    have hfull : Event.header ∉
        if capacity ≤ g.text.length then [Event.full g.text.length] else [] := by
      split <;> simp
    simp only [Passage.events, List.mem_append, List.mem_singleton, List.mem_flatMap, hfull, or_false,
      reduceCtorEq]
    exact exists_congr fun m => and_congr_right fun hm => hmoment m hm
  rw [← fileHeader_mem_moments, events_eq hc, ← hdivides.moments_eq]
  simp only [List.mem_flatMap, hpassage]
  constructor
  · rintro ⟨g, hg, m, hm, hx⟩
    exact ⟨m, ⟨g, hg, hm⟩, hx⟩
  · rintro ⟨m, ⟨g, hg, hm⟩, hx⟩
    exact ⟨g, hg, m, hm, hx⟩

theorem shownName_subset {o : Options} {t : Text} (h : .header ∈ events o.bufferCapacity t) :
    o.shownName ⊆ (annotate o none t).data := by
  intro c hc
  rw [data_annotate fault_annotate_none]
  have hpage : Page.fileHeader o none ∈ pages o none t := List.mem_map.mpr ⟨.header, h, rfl⟩
  have hedit : Edit.insert (ofString "/**\n\t@file " ++ o.shownName ++
      ofString "\n\n\tPut a description of the file here.\n") ∈ (Page.fileHeader o none).edits :=
    List.mem_cons_self
  refine List.mem_flatMap.mpr ⟨_, List.mem_flatMap.mpr ⟨_, hpage, hedit⟩, ?_⟩
  simp [Edit.written, hc]

/-- The name shown is the name given, or made of ASCII. -/
theorem Options.within_shownName {P : Sym → Prop} (hP : ∀ c : Sym, c.isAscii = true → P c) {o : Options} :
    o.shownName.Within P ↔ ∀ f ∈ o.filename, f.Within P := by
  have hunknown : (ofString "<unknown>").Within P := .of_ascii hP (by decide +kernel)
  unfold shownName
  cases hf : o.filename with
  | none => simpa using hunknown
  | some f =>
    by_cases hne : f = []
    · simpa [Option.filter, hne, Text.Within] using hunknown
    · simp [Option.filter, hne]

/-- Annotating bytes gives the bytes of the annotated text, all of whose symbols are symbols of the
decoded input, of the file name, or ASCII; it fails exactly where a header has to show a name that the
encoding cannot express. -/
theorem annotateBytes_transparent (e : Encoding) (o : Options) (bytes : Bytes) :
    e.encode? (e.decode bytes) = some bytes ∧
    (annotateBytes e o none bytes).toExcept = e.write (annotate o none (e.decode bytes)).data ∧
    (annotate o none (e.decode bytes)).fault = none ∧
    (∀ c ∈ (annotate o none (e.decode bytes)).data,
      c ∈ e.decode bytes ∨ (∃ f ∈ o.filename, c ∈ f) ∨ c.isAscii = true) ∧
    ((annotateBytes e o none bytes).fault = some .unencodable ↔
      (e.decode bytes).StartsInCode ∧ ∃ f ∈ o.filename, ∃ c ∈ f, e.encodeSym? c = none) := by
  have hcapacity : (0 : Int) < o.bufferCapacity := by exact_mod_cast o.bufferCapacity_pos
  have hread (f : Fault) : (none : Option Boilerplate.Reading) ≠ some (.error f) := by simp
  have hexcept := toExcept_annotateBytes (o := o) e bytes hread
  have hplate (P : Sym → Prop) : Boilerplate.Within P none := by simp [Boilerplate.Within]
  refine ⟨e.encode?_decode bytes, hexcept, fault_annotate_none, ?_, ?_⟩
  · set P : Sym → Prop := fun c =>
      c ∈ e.decode bytes ∨ (∃ f ∈ o.filename, c ∈ f) ∨ c.isAscii = true
    have hascii : ∀ c : Sym, c.isAscii = true → P c := fun c hc => .inr (.inr hc)
    have hname : o.shownName.Within P :=
      (Options.within_shownName hascii).mpr fun f hf c hc => .inr (.inl ⟨f, hf, hc⟩)
    have hpages := within_pages (t := e.decode bytes) hascii (hplate P) (fun c hc => .inl hc)
      fun _ => hname
    exact within_data fault_annotate_none hpages
  · have hname : o.shownName.Within e.Expresses ↔ ¬ ∃ f ∈ o.filename, ∃ c ∈ f, e.encodeSym? c = none := by
      rw [Options.within_shownName fun _ => Encoding.expresses_of_isAscii]
      simp [Text.Within, Encoding.Expresses, Option.isSome_iff_ne_none]
    rw [← header_mem_events hcapacity]
    constructor
    · intro hf
      by_contra hn
      have hnone : (annotateBytes e o none bytes).fault = none :=
        fault_annotateBytes_eq_none hread (hplate _) fun hh => hname.mpr fun hu => hn ⟨hh, hu⟩
      rw [hnone] at hf
      contradiction
    · rintro ⟨hheader, hunexpressed⟩
      have hdata : ¬ Text.Within e.Expresses (annotate o none (e.decode bytes)).data := fun hw =>
        hname.mp (Text.Within.of_subset hw (shownName_subset hheader)) hunexpressed
      rw [Output.fault_eq_of_toExcept hexcept, if_neg (Encoding.isSome_encode?.not.mpr hdata)]

end DocBlock
