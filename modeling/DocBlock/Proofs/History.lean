import Mathlib
import DocBlock.Proofs.Layout

/-! What is pending after any calls to the collector, whatever markers they bring. The calls alone settle a
history of single deeds, and all that is recorded of the pending text can be read off it. -/

namespace DocBlock

/-- One call to the collector. -/
inductive Call where
  | feed (c : Sym) (markers : List Marker)
  | flush
  | finish
  deriving DecidableEq, Repr

namespace Collector

def call (capacity : Int) (k : Collector) : Call → Collector
  | .feed c markers => k.feed capacity c markers
  | .flush | .finish => k.flush

end Collector

/-- One thing that happens to the pending text. -/
inductive Deed where
  | mark (x : Marker)
  | store (c : Sym)
  | reset
  deriving DecidableEq, Repr

def Marker.deed : Marker → Deed
  | .flush => .reset
  | x => .mark x

theorem Marker.deed_of_ne {x : Marker} (hx : x ≠ .flush) : x.deed = .mark x := by
  cases x
  case flush => contradiction
  all_goals rfl

namespace Deed

def stored? : Deed → Option Sym
  | store c => some c
  | mark _ | reset => none

end Deed

/-- The symbols stored since the last reset. -/
def storedText (h : List Deed) : Text := (h.rtakeWhile (· ≠ .reset)).filterMap Deed.stored?

theorem storedText_concat (h : List Deed) (d : Deed) :
    storedText (h ++ [d]) = if d = .reset then [] else storedText h ++ d.stored?.toList := by
  unfold storedText
  rw [List.rtakeWhile_concat]
  by_cases hd : d = .reset
  · simp [hd]
  · cases hs : d.stored? <;> simp [hd, hs]

namespace Part

/-- The deed closes the part. -/
def closes (r : Part) : Deed → Bool
  | .mark x => r.isClosedBy x
  | .store _ | .reset => false

/-- The deed makes the part as if it had never been seen. -/
def forgets (r : Part) : Deed → Bool
  | .mark x => r.isForgottenBy x
  | .store _ => false
  | .reset => true

/-- How often the part was closed since it was last forgotten. -/
def closingCount (r : Part) (h : List Deed) : Nat :=
  (h.rtakeWhile fun d => !r.forgets d).countP r.closes

theorem closingCount_concat (r : Part) (h : List Deed) (d : Deed) :
    r.closingCount (h ++ [d]) =
      if r.forgets d then 0 else r.closingCount h + if r.closes d then 1 else 0 := by
  unfold closingCount
  rw [List.rtakeWhile_concat]
  by_cases hf : r.forgets d = true
  · simp [hf]
  · simp [hf, List.countP_append, List.countP_singleton]

end Part

/-- The deeds so far and those of one more call: the markers, then the symbol, and a reset if a flush is due
or the symbols stored reach the capacity. -/
def Call.extend (capacity : Int) (h : List Deed) : Call → List Deed
  | .feed c markers =>
    let h := h ++ markers.map Marker.deed ++ [.store c]
    if capacity ≤ (storedText h).length ∨ .flushAfter ∈ markers then h ++ [.reset] else h
  | .flush | .finish => h ++ [.reset]

/-- All deeds of a list of calls. -/
def history (capacity : Int) (calls : List Call) : List Deed := calls.foldl (Call.extend capacity) []

namespace Pending

variable {p : Pending}

def part (p : Pending) (r : Part) : Extent := p.extents.part r

def perform (p : Pending) : Deed → Pending
  | .mark x => p.mark x
  | .store c => p.push c
  | .reset => {}

/-- What is pending after these deeds. -/
def afterDeeds (h : List Deed) : Pending := h.foldl perform {}

theorem afterDeeds_concat (h : List Deed) (d : Deed) :
    afterDeeds (h ++ [d]) = (afterDeeds h).perform d := by
  simp [afterDeeds]

theorem text_afterDeeds (h : List Deed) : (afterDeeds h).text = storedText h := by
  induction h using List.reverseRecOn with
  | nil => rfl
  | append_singleton h d ih =>
    rw [afterDeeds_concat, storedText_concat, ← ih]
    cases d with
    | mark x => simp [perform, text, Deed.stored?]
    | store c => simp [perform, Deed.stored?]
    | reset => rfl

@[simp] theorem part_push (p : Pending) (c : Sym) (r : Part) : (p.push c).part r = p.part r := rfl

@[simp] theorem part_empty (r : Part) : ({} : Pending).part r = {} := Extents.part_empty r

theorem part_mark (p : Pending) (x : Marker) (r : Part) :
    (p.mark x).part r =
      if r.forgets (.mark x) then {}
      else if r.closes (.mark x) then (p.part r).closeAt (p.size + x.reach)
      else if x = r.opening then (p.part r).openAt p.size
      else p.part r := by
  rw [part, extents_mark, Extents.part_mark]
  rfl

@[simp] theorem size_mark (p : Pending) (x : Marker) : (p.mark x).size = p.size := by
  simp [size]

theorem commentStart_mark (p : Pending) (x : Marker) :
    (p.mark x).commentStart =
      if x = .commentStart then some p.size else if x = .commentEnd then none else p.commentStart := by
  cases x
  case commentEnd =>
    obtain ⟨_, _, h⟩ := p.endComment_eq
    simp [mark, h]
  case statementEnd =>
    obtain ⟨_, h⟩ := p.endStatement_eq
    simp [mark, h]
  all_goals simp [mark]

theorem statementStart_mark (p : Pending) (x : Marker) :
    (p.mark x).statementStart =
      if x = .statementStart then some p.size
      else if x = .statementEnd then none else p.statementStart := by
  cases x
  case commentEnd =>
    obtain ⟨_, _, h⟩ := p.endComment_eq
    simp [mark, h]
  case statementEnd =>
    obtain ⟨_, h⟩ := p.endStatement_eq
    simp [mark, h]
  all_goals simp [mark]

/-! How often a part was closed. -/

theorem closings_afterDeeds (h : List Deed) (r : Part) :
    ((afterDeeds h).part r).closings = .ofCount (r.closingCount h) := by
  induction h using List.reverseRecOn with
  | nil => simp [afterDeeds, Part.closingCount, Closings.ofCount]
  | append_singleton h d ih =>
    rw [afterDeeds_concat, Part.closingCount_concat]
    cases d with
    | mark x =>
      rw [perform, part_mark]
      split_ifs
      · rfl
      · rw [← Closings.next_ofCount, ← ih]
        rfl
      · exact ih
      · exact ih
    | store c =>
      simp [perform, Part.forgets, Part.closes, ih]
    | reset =>
      simp [perform, Part.forgets, Closings.ofCount]

/-! Where a part lies. -/

/-- Every part lies within the first `k` symbols, and no comment or statement starts behind the text. -/
structure Bounded (p : Pending) (k : Nat) : Prop where
  part : ∀ r, (p.part r).Within k
  commentStart : ∀ i, p.commentStart = some i → i ≤ p.size
  statementStart : ∀ i, p.statementStart = some i → i ≤ p.size

theorem bounded_empty (k : Nat) : Bounded {} k where
  part r := by
    rw [part_empty]
    exact ⟨le_rfl, le_rfl, Int.natCast_nonneg k⟩
  commentStart := by simp
  statementStart := by simp

theorem Bounded.mono {k l : Nat} (h : p.Bounded k) (hk : k ≤ l) : p.Bounded l where
  part r := by
    obtain ⟨h₁, h₂, h₃⟩ := h.part r
    exact ⟨h₁, h₂, by omega⟩
  commentStart := h.commentStart
  statementStart := h.statementStart

theorem Bounded.mark (h : p.Bounded (p.size + 1)) (x : Marker) : (p.mark x).Bounded (p.size + 1) where
  part r := by
    rw [Pending.part, extents_mark]
    exact Extents.within_mark x (h.part r)
  commentStart i hi := by
    rw [commentStart_mark] at hi
    rw [size_mark]
    split_ifs at hi
    · exact (Option.some.inj hi).ge
    · exact h.commentStart i hi
  statementStart i hi := by
    rw [statementStart_mark] at hi
    rw [size_mark]
    split_ifs at hi
    · exact (Option.some.inj hi).ge
    · exact h.statementStart i hi

/-- Once the symbol of a marker is stored, no part reaches beyond the text. -/
theorem Bounded.push (h : p.Bounded (p.size + 1)) (c : Sym) : (p.push c).Bounded (p.push c).size where
  part r := by
    rw [part_push, size_push]
    exact h.part r
  commentStart i hi := by
    have := h.commentStart i hi
    rw [size_push]
    omega
  statementStart i hi := by
    have := h.statementStart i hi
    rw [size_push]
    omega

theorem Bounded.foldl_deed (h : p.Bounded (p.size + 1)) (markers : List Marker) :
    let q := (markers.map Marker.deed).foldl perform p
    q.Bounded (q.size + 1) := by
  induction markers generalizing p with
  | nil => exact h
  | cons x markers ih =>
    apply ih
    by_cases hx : x = .flush
    · rw [hx]
      exact bounded_empty _
    · rw [Marker.deed_of_ne hx, perform, size_mark]
      exact h.mark x

end Pending

namespace Collector

open Pending (afterDeeds)

variable {k : Collector} {capacity : Int}

theorem pending_foldl_apply (markers : List Marker) (k : Collector) :
    (markers.foldl apply k).pending = (markers.map Marker.deed).foldl .perform k.pending := by
  induction markers generalizing k with
  | nil => rfl
  | cons x markers ih =>
    have hx : (k.apply x).pending = k.pending.perform x.deed := by cases x <;> rfl
    rw [List.foldl_cons, ih, hx]
    rfl

theorem pending_feed (k : Collector) (capacity : Int) (c : Sym) (markers : List Marker) :
    let q := ((markers.map Marker.deed).foldl Pending.perform k.pending).push c
    (k.feed capacity c markers).pending =
      if capacity ≤ q.size ∨ .flushAfter ∈ markers then {} else q := by
  intro q
  have hstore := (events_store (markers.foldl apply k) capacity c (markers.contains .flushAfter)).1
  rw [pending_foldl_apply] at hstore
  rw [feed, hstore]
  simp [Pending.isFull, q]

/-- A call does to the pending text what the history says. -/
theorem pending_call {h : List Deed} (hk : k.pending = afterDeeds h) (c : Call) :
    (k.call capacity c).pending = afterDeeds (c.extend capacity h) := by
  cases c with
  | feed c markers =>
    have hq : ((markers.map Marker.deed).foldl Pending.perform k.pending).push c =
        afterDeeds (h ++ markers.map Marker.deed ++ [.store c]) := by
      simp [afterDeeds, hk, Pending.perform]
    rw [call, pending_feed, hq, Pending.size_eq_length, Pending.text_afterDeeds, Call.extend]
    split
    · rw [Pending.afterDeeds_concat]
      rfl
    · rfl
  | flush | finish =>
    rw [Call.extend, Pending.afterDeeds_concat]
    rfl

theorem pending_calls (capacity : Int) (calls : List Call) :
    (calls.foldl (call capacity) {}).pending = afterDeeds (history capacity calls) := by
  induction calls using List.reverseRecOn with
  | nil => rfl
  | append_singleton calls c ih =>
    rw [List.foldl_append, history, List.foldl_append]
    exact pending_call ih c

/-- What a call leaves pending is below the capacity and bounds all that is recorded. -/
theorem bounded_call (hc : 0 < capacity) (hk : k.pending.Bounded k.pending.size) (c : Call) :
    (k.call capacity c).pending.size < capacity ∧
      (k.call capacity c).pending.Bounded (k.call capacity c).pending.size := by
  have hempty : (({} : Pending).size : Int) < capacity ∧ ({} : Pending).Bounded ({} : Pending).size :=
    ⟨hc, Pending.bounded_empty _⟩
  cases c with
  | feed c markers =>
    rw [call, pending_feed]
    split
    · exact hempty
    · next hroom =>
      rw [not_or, not_le] at hroom
      exact ⟨hroom.1, ((hk.mono (Nat.le_succ _)).foldl_deed markers).push c⟩
  | flush | finish => exact hempty

theorem bounded_calls (hc : 0 < capacity) (calls : List Call) :
    (calls.foldl (call capacity) {}).pending.size < capacity ∧
      (calls.foldl (call capacity) {}).pending.Bounded (calls.foldl (call capacity) {}).pending.size := by
  induction calls using List.reverseRecOn with
  | nil => exact ⟨hc, Pending.bounded_empty _⟩
  | append_singleton calls c ih =>
    rw [List.foldl_append]
    exact bounded_call hc ih.2 c

end Collector

theorem Closings.ofCount_eq_none {k : Nat} : ofCount k = .none ↔ k = 0 := by
  rcases k with _ | _ | k <;> simp [ofCount]

theorem Closings.ofCount_eq_repeated {k : Nat} : ofCount k = .repeated ↔ 2 ≤ k := by
  rcases k with _ | _ | k <;> simp [ofCount]

/-- Whether an extent was closed, as a number. -/
def Extent.count (e : Extent) : Nat := if e.isClosed then 1 else 0

namespace Pending

variable {p : Pending}

/-- A part that lies within the text is cut out of it exactly. -/
theorem extentText_of_within {e : Extent} (h : e.Within p.size) :
    ∃ before after, p.text = before ++ p.extentText e ++ after ∧ (before.length : Int) = e.start ∧
      (after.length : Int) = p.size - e.stop := by
  obtain ⟨h₁, h₂, h₃⟩ := h
  obtain ⟨i, hi⟩ := Int.eq_ofNat_of_zero_le h₁
  obtain ⟨j, hj⟩ := Int.eq_ofNat_of_zero_le (h₁.trans h₂)
  rw [size_eq_length] at h₃ ⊢
  have hij : i ≤ j := by omega
  have hslice : p.extentText e = (p.text.take j).drop i := by
    rw [extentText, hi, hj]
    exact slice_natCast p i j
  refine ⟨p.text.take i, p.text.drop j, ?_, ?_, ?_⟩
  · calc p.text
        = p.text.take j ++ p.text.drop j := (List.take_append_drop ..).symm
      _ = ((p.text.take j).take i ++ (p.text.take j).drop i) ++ p.text.drop j :=
        congrArg (· ++ p.text.drop j) (List.take_append_drop ..).symm
      _ = p.text.take i ++ p.extentText e ++ p.text.drop j := by
        rw [List.take_take, min_eq_left hij, hslice]
  · rw [List.length_take]
    omega
  · rw [List.length_drop]
    omega

/-- The record of a part agrees with the deeds, and cuts its text out exactly. -/
structure Records (p : Pending) (h : List Deed) (r : Part) : Prop where
  within : (p.part r).Within p.size
  count : (p.part r).count = min (r.closingCount h) 1
  repeated : (p.part r).isRepeated = true ↔ 2 ≤ r.closingCount h
  once : (p.part r).isClosedOnce = true ↔ r.closingCount h = 1
  exact_text : ∃ before after, p.text = before ++ p.extentText (p.part r) ++ after ∧
    (before.length : Int) = (p.part r).start ∧ (after.length : Int) = p.size - (p.part r).stop

theorem records_of_within {h : List Deed} {r : Part} (hw : (p.part r).Within p.size)
    (hc : (p.part r).closings = .ofCount (r.closingCount h)) : p.Records h r where
  within := hw
  count := by
    have hnone := Closings.ofCount_eq_none (k := r.closingCount h)
    by_cases hzero : r.closingCount h = 0
    · simp [Extent.count, Extent.isClosed, hc, hzero, Closings.ofCount]
    · have hclosed : (p.part r).isClosed = true := decide_eq_true (hc ▸ mt hnone.mp hzero)
      rw [Extent.count, if_pos hclosed]
      omega
  repeated := by simp [Extent.isRepeated, hc, Closings.ofCount_eq_repeated]
  once := by simp [Extent.isClosedOnce, hc, Closings.ofCount_eq_once]
  exact_text := extentText_of_within hw

end Pending

/-- After any calls with any markers, what is pending is what was stored since the last reset and does not
reach the capacity, no comment or statement starts behind it, and the record of every part agrees with what
the calls did. -/
theorem calls_recorded {capacity : Int} (hc : 0 < capacity) (calls : List Call) :
    let p := (calls.foldl (Collector.call capacity) {}).pending
    let h := history capacity calls
    p.text = storedText h ∧ p.size < capacity ∧
      (∀ r : Part, p.Records h r ∧ (p.part r).count ≤ 1 ∧
        ((p.part r).isRepeated = true → (p.part r).count = 1)) ∧
      (∀ i, p.commentStart = some i → i ≤ p.size) ∧ ∀ i, p.statementStart = some i → i ≤ p.size := by
  intro p h
  have hp : p = Pending.afterDeeds h := Collector.pending_calls capacity calls
  obtain ⟨hsize, hbounded⟩ := Collector.bounded_calls hc calls
  refine ⟨?_, hsize, fun r => ?_, hbounded.commentStart, hbounded.statementStart⟩
  · rw [hp]
    exact Pending.text_afterDeeds h
  · have hclosings : (p.part r).closings = .ofCount (r.closingCount h) := by
      rw [hp]
      exact Pending.closings_afterDeeds h r
    have hr : p.Records h r := Pending.records_of_within (hbounded.part r) hclosings
    have hcount := hr.count
    refine ⟨hr, by omega, fun hrep => ?_⟩
    have := hr.repeated.mp hrep
    omega

/-- A reset between the markers of one symbol, then a description that is closed twice. -/
theorem calls_recorded_reset :
    let calls : List Call :=
      [.feed 'x' [.bodyEnd, .flush, .descriptionEndAfter], .feed 'y' [.descriptionEnd, .parametersStart]]
    let p := (calls.foldl (Collector.call 3) {}).pending
    let h := history 3 calls
    (0 < (3 : Int) ∧ Part.description.closingCount h = 2 ∧ Part.function.closingCount h = 1 ∧
        Part.body.closingCount h = 0) ∧
      p.size < (3 : Int) ∧ (p.part .description).isRepeated = true ∧
      (p.part .function).isClosedOnce = true ∧ (p.part .body).count = 0 := by
  intro calls p h
  have hcounts : Part.description.closingCount h = 2 ∧ Part.function.closingCount h = 1 ∧
      Part.body.closingCount h = 0 := by decide +kernel
  obtain ⟨-, hsize, hparts, -⟩ := calls_recorded (show 0 < (3 : Int) by decide) calls
  refine ⟨⟨by decide, hcounts⟩, hsize, ?_, ?_, ?_⟩
  · exact (hparts .description).1.repeated.mpr hcounts.1.ge
  · exact (hparts .function).1.once.mpr hcounts.2.1
  · rw [(hparts .body).1.count, hcounts.2.2]
    rfl

end DocBlock
