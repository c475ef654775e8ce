/-
**Statistics of several workers.**

* `Counters` — what a record counts, without the ratios. `Counters.join` puts two of them together,
  and `Counters.checked` breaks off where a sum no longer fits in 64 bits.
* `Stats.record_counters`, `Stats.merge_counters` — one call: a state is joined to the counters, or
  those of another record are.
* `Ledger` — how a record can come about: by the states of a worker, by one more state, or by
  merging two records. `Ledger.run_counters` says that only the states matter.
* `Stats.SameOutcome` — two computations break off by overflow, or both give records with the same
  counters and answers.
* `Stats.merge_homomorphic` — merging is recording everything in one place, in whatever way the
  states are split over workers and in whatever order their records are merged.
-/

import StateSpace.Proofs.Lists
import StateSpace.Proofs.Reduction.Kept

namespace StateSpace

/-- **The counters of a record.** -/
structure Counters where
  states : Nat
  reduced : Nat
  enabled : Nat
  minReduced : Nat
  maxReduced : Nat
  minEnabled : Nat
  maxEnabled : Nat

namespace Counters

/-- Nothing counted. The least numbers are the greatest words, so that any other one is less. -/
def blank : Counters :=
  ⟨0, 0, 0, maxWord, 0, maxWord, 0⟩

/-- A single state, given by its kept and its enabled transitions. -/
def ofSample (sample : Nat × Nat) : Counters :=
  ⟨1, sample.1, sample.2, sample.1, sample.1, sample.2, sample.2⟩

/-- The states of both. -/
def join (c d : Counters) : Counters where
  states := c.states + d.states
  reduced := c.reduced + d.reduced
  enabled := c.enabled + d.enabled
  minReduced := Nat.min c.minReduced d.minReduced
  maxReduced := Nat.max c.maxReduced d.maxReduced
  minEnabled := Nat.min c.minEnabled d.minEnabled
  maxEnabled := Nat.max c.maxEnabled d.maxEnabled

/-- The states of a list. -/
def ofSamples (samples : List (Nat × Nat)) : Counters :=
  samples.foldr (fun sample c => (ofSample sample).join c) blank

/-- The sums fit in 64 bits. The other counters are no greater than one of the recorded numbers. -/
def Fits (c : Counters) : Prop :=
  c.states < UInt64.size ∧ c.reduced < UInt64.size ∧ c.enabled < UInt64.size

instance (c : Counters) : Decidable c.Fits :=
  inferInstanceAs (Decidable (_ ∧ _))

/-- The counters, if their sums fit. -/
def checked (c : Counters) : Except Abort Counters :=
  if c.Fits then .ok c else .error .overflow

/-! ### Joining -/

theorem join_comm (c d : Counters) : c.join d = d.join c := by
  simp only [join, mk.injEq]
  exact ⟨Nat.add_comm .., Nat.add_comm .., Nat.add_comm .., Nat.min_comm .., Nat.max_comm ..,
    Nat.min_comm .., Nat.max_comm ..⟩

theorem join_assoc (c d e : Counters) : (c.join d).join e = c.join (d.join e) := by
  simp only [join, mk.injEq]
  exact ⟨Nat.add_assoc .., Nat.add_assoc .., Nat.add_assoc .., Nat.min_assoc .., Nat.max_assoc ..,
    Nat.min_assoc .., Nat.max_assoc ..⟩

/-- No minimum is past the greatest word, where it starts. -/
def Bounded (c : Counters) : Prop :=
  c.minReduced ≤ maxWord ∧ c.minEnabled ≤ maxWord

/-- **Nothing counted is joined without effect**: what the extremes start from is neutral. -/
theorem blank_join {c : Counters} (bounded : c.Bounded) : blank.join c = c := by
  cases c
  simp only [join, blank, mk.injEq]
  exact ⟨Nat.zero_add _, Nat.zero_add _, Nat.zero_add _, Nat.min_eq_right bounded.1,
    Nat.zero_max _, Nat.min_eq_right bounded.2, Nat.zero_max _⟩

theorem ofSamples_bounded (samples : List (Nat × Nat)) : (ofSamples samples).Bounded := by
  induction samples with
  | nil => exact ⟨Nat.le_refl _, Nat.le_refl _⟩
  | cons first rest ih =>
    exact ⟨Nat.le_trans (Nat.min_le_right _ _) ih.1, Nat.le_trans (Nat.min_le_right _ _) ih.2⟩

theorem ofSamples_append (samples more : List (Nat × Nat)) :
    ofSamples (samples ++ more) = (ofSamples samples).join (ofSamples more) := by
  induction samples with
  | nil => exact (blank_join (ofSamples_bounded more)).symm
  | cons first rest ih =>
    show (ofSample first).join (ofSamples (rest ++ more)) = _
    rw [ih, ← join_assoc]
    rfl

theorem ofSamples_concat (samples : List (Nat × Nat)) (sample : Nat × Nat) :
    ofSamples (samples ++ [sample]) = (ofSamples samples).join (ofSample sample) := by
  have bounded := ofSamples_bounded samples
  have last : ofSamples [sample] = blank.join (ofSample sample) := join_comm _ _
  rw [ofSamples_append, last, ← join_assoc, join_comm _ blank, blank_join bounded]

/-- The order of the states does not matter. -/
theorem ofSamples_perm {samples others : List (Nat × Nat)} (perm : samples.Perm others) :
    ofSamples samples = ofSamples others := by
  apply perm.foldr_eq'
  intro first _ second _ c
  rw [← join_assoc, join_comm (ofSample second), join_assoc]

/-! ### Sums that no longer fit -/

theorem checked_of_fits {c : Counters} (fits : c.Fits) : c.checked = .ok c :=
  if_pos fits

theorem checked_of_not_fits {c : Counters} (beyond : ¬ c.Fits) : c.checked = .error .overflow :=
  if_neg beyond

theorem Fits.of_join {c d : Counters} (fits : (c.join d).Fits) : c.Fits :=
  ⟨Nat.lt_of_le_of_lt (Nat.le_add_right _ _) fits.1,
    Nat.lt_of_le_of_lt (Nat.le_add_right _ _) fits.2.1,
    Nat.lt_of_le_of_lt (Nat.le_add_right _ _) fits.2.2⟩

/-- Once a sum is too large it stays so, whatever is joined. -/
theorem checked_bind_join (c d : Counters) :
    (c.checked >>= fun c => (c.join d).checked) = (c.join d).checked := by
  by_cases fits : c.Fits
  · rw [checked_of_fits fits]
    rfl
  · have beyond : ¬ (c.join d).Fits := fun both => fits both.of_join
    rw [checked_of_not_fits fits, checked_of_not_fits beyond]
    rfl

theorem checked_bind_join' (c d : Counters) :
    (d.checked >>= fun d => (c.join d).checked) = (c.join d).checked := by
  simp only [join_comm c]
  exact checked_bind_join d c

end Counters

namespace Stats

open Counters

/-- The counters of a record. -/
def counters (s : Stats) : Counters :=
  ⟨s.states, s.reduced, s.enabled, s.minReduced, s.maxReduced, s.minEnabled, s.maxEnabled⟩

/-! ### One call -/

/-- **A recorded state is joined to the counters.** -/
theorem record_counters (s : Stats) (sample : Nat × Nat) :
    (s.record sample.1 sample.2).map counters = (s.counters.join (ofSample sample)).checked := by
  have spec := s.record_spec sample.1 sample.2
  cases recorded : s.record sample.1 sample.2 with
  | ok later =>
    rw [recorded] at spec
    obtain ⟨fits, states, reduced, enabled, minReduced, maxReduced, minEnabled, maxEnabled⟩ := spec
    rw [checked_of_fits (c := s.counters.join (ofSample sample)) fits]
    show Except.ok later.counters = _
    simp only [counters, states, reduced, enabled, minReduced, maxReduced, minEnabled, maxEnabled,
      join, ofSample]
  | error abort =>
    rw [recorded] at spec
    obtain ⟨rfl, full⟩ := spec
    have beyond : ¬ (s.counters.join (ofSample sample)).Fits := by
      rintro ⟨states, reduced, enabled⟩
      simp only [join, counters, ofSample] at states reduced enabled
      omega
    rw [checked_of_not_fits beyond]
    rfl

/-- **The counters of merged records are joined.** -/
theorem merge_counters (s t : Stats) :
    (s.merge t).map counters = (s.counters.join t.counters).checked := by
  unfold merge addWords
  by_cases states : s.states + t.states < UInt64.size
  · by_cases reduced : s.reduced + t.reduced < UInt64.size
    · by_cases enabled : s.enabled + t.enabled < UInt64.size
      · have fits : (s.counters.join t.counters).Fits := ⟨states, reduced, enabled⟩
        rw [if_pos states, if_pos reduced, if_pos enabled, checked_of_fits fits]
        rfl
      · have beyond : ¬ (s.counters.join t.counters).Fits := fun fits => enabled fits.2.2
        rw [if_pos states, if_pos reduced, if_neg enabled, checked_of_not_fits beyond]
        rfl
    · have beyond : ¬ (s.counters.join t.counters).Fits := fun fits => reduced fits.2.1
      rw [if_pos states, if_neg reduced, checked_of_not_fits beyond]
      rfl
  · have beyond : ¬ (s.counters.join t.counters).Fits := fun fits => states fits.1
    rw [if_neg states, checked_of_not_fits beyond]
    rfl

/-- What is done to a record is done to its counters. -/
theorem map_counters_bind {x : Except Abort Stats} {call : Stats → Except Abort Stats}
    (step : Counters → Except Abort Counters)
    (commutes : ∀ s, (call s).map counters = step s.counters) :
    (x >>= call).map counters = x.map counters >>= step := by
  cases x with
  | error abort => rfl
  | ok s => exact commutes s

variable {x y : Except Abort Stats} {c d : Counters}

/-- One more state. -/
theorem record_step (counted : x.map counters = c.checked) (sample : Nat × Nat) :
    (x >>= fun s => s.record sample.1 sample.2).map counters
      = (c.join (ofSample sample)).checked := by
  rw [map_counters_bind (fun c => (c.join (ofSample sample)).checked)
    fun s => s.record_counters sample, counted, checked_bind_join]

/-- The states of another record. -/
theorem merge_step (counted : x.map counters = c.checked) (counted' : y.map counters = d.checked) :
    (x >>= fun s => y >>= fun t => s.merge t).map counters = (c.join d).checked := by
  -- whichever of the two records overflows, the joined sums are too large as well
  have second : ∀ s : Stats, (y >>= fun t => s.merge t).map counters
      = (s.counters.join d).checked := by
    intro s
    rw [map_counters_bind (fun d => (s.counters.join d).checked) s.merge_counters, counted',
      checked_bind_join']
  rw [map_counters_bind (fun c => (c.join d).checked) second, counted, checked_bind_join]

/-! ### Any sequence of calls -/

/-- **Records some states**, one after the other. -/
def recordAll (samples : List (Nat × Nat)) : Except Abort Stats :=
  samples.foldlM (fun s sample => s.record sample.1 sample.2) initial

theorem recordAll_concat (samples : List (Nat × Nat)) (sample : Nat × Nat) :
    recordAll (samples ++ [sample])
      = recordAll samples >>= fun s => s.record sample.1 sample.2 := by
  unfold recordAll
  rw [List.foldlM_append]
  apply bind_congr
  intro s
  rw [List.foldlM_cons]
  exact bind_pure _

theorem recordAll_counters (samples : List (Nat × Nat)) :
    (recordAll samples).map counters = (ofSamples samples).checked := by
  induction samples using List.reverseRecOn with
  | nil => rfl
  | append_singleton samples sample ih =>
    rw [recordAll_concat, record_step ih, ofSamples_concat]

end Stats

/-- **How a record can come about.** A worker records some states, and records are merged in any
order; more states can be recorded in between. -/
inductive Ledger where
  | worker (samples : List (Nat × Nat))
  | record (ledger : Ledger) (sample : Nat × Nat)
  | merge (ledger other : Ledger)

namespace Ledger

open Counters Stats

/-- The record itself. -/
def run : Ledger → Except Abort Stats
  | worker samples => recordAll samples
  | record ledger sample => ledger.run >>= fun s => s.record sample.1 sample.2
  | merge ledger other => ledger.run >>= fun s => other.run >>= fun t => s.merge t

/-- The states that were recorded in one place or another. -/
def samples : Ledger → List (Nat × Nat)
  | worker samples => samples
  | record ledger sample => ledger.samples ++ [sample]
  | merge ledger other => ledger.samples ++ other.samples

/-- **Only the states matter**, and not where they were recorded. -/
theorem run_counters (ledger : Ledger) :
    ledger.run.map counters = (ofSamples ledger.samples).checked := by
  induction ledger with
  | worker samples => exact recordAll_counters samples
  | record ledger sample ih =>
    rw [run, samples, record_step ih, ofSamples_concat]
  | merge ledger other ih ih' =>
    rw [run, samples, merge_step ih ih', ofSamples_append]

end Ledger

namespace Stats

open Counters

/-! ### Computations with the same outcome -/

/-- **The same counters and the same answers.** -/
structure Agree (s t : Stats) : Prop where
  states : s.states = t.states
  reduced : s.reduced = t.reduced
  enabled : s.enabled = t.enabled
  minReduced : s.minReduced = t.minReduced
  maxReduced : s.maxReduced = t.maxReduced
  minEnabled : s.minEnabled = t.minEnabled
  maxEnabled : s.maxEnabled = t.maxEnabled
  fewestReduced : s.minReduced? = t.minReduced?
  fewestEnabled : s.minEnabled? = t.minEnabled?

/-- **Both give records that agree, or both break off** because a sum does not fit in 64 bits. -/
inductive SameOutcome : Except Abort Stats → Except Abort Stats → Prop
  | agree {s t : Stats} (agree : Agree s t) : SameOutcome (.ok s) (.ok t)
  | overflow : SameOutcome (.error .overflow) (.error .overflow)

theorem agree_of_counters {s t : Stats} (same : s.counters = t.counters) : Agree s t := by
  simp only [counters, Counters.mk.injEq] at same
  obtain ⟨states, reduced, enabled, minReduced, maxReduced, minEnabled, maxEnabled⟩ := same
  refine ⟨states, reduced, enabled, minReduced, maxReduced, minEnabled, maxEnabled, ?_, ?_⟩
  · unfold minReduced? whenRecorded
    rw [states, minReduced]
  · unfold minEnabled? whenRecorded
    rw [states, minEnabled]

/-- Two computations of the same checked counters have the same outcome. -/
theorem sameOutcome_of_checked {x y : Except Abort Stats} {c : Counters}
    (counted : x.map counters = c.checked) (counted' : y.map counters = c.checked) :
    SameOutcome x y := by
  by_cases fits : c.Fits
  · rw [checked_of_fits fits] at counted counted'
    cases x with
    | error abort => cases counted
    | ok s =>
      cases y with
      | error abort => cases counted'
      | ok t =>
        have same : s.counters = t.counters :=
          (Except.ok.inj counted).trans (Except.ok.inj counted').symm
        exact .agree (agree_of_counters same)
  · rw [checked_of_not_fits fits] at counted counted'
    cases x with
    | ok s => cases counted
    | error abort =>
      cases y with
      | ok t => cases counted'
      | error abort' =>
        obtain rfl := Except.error.inj counted
        obtain rfl := Except.error.inj counted'
        exact .overflow

/-- Every counter has 64 bits. -/
structure Representable (s : Stats) : Prop where
  states : s.states ≤ maxWord
  reduced : s.reduced ≤ maxWord
  enabled : s.enabled ≤ maxWord
  minReduced : s.minReduced ≤ maxWord
  maxReduced : s.maxReduced ≤ maxWord
  minEnabled : s.minEnabled ≤ maxWord
  maxEnabled : s.maxEnabled ≤ maxWord

/-! ### Merging -/

theorem sameOutcome_merge_comm (s t : Stats) : SameOutcome (s.merge t) (t.merge s) := by
  apply sameOutcome_of_checked (s.merge_counters t)
  rw [t.merge_counters s, join_comm]

theorem sameOutcome_merge_assoc (s t u : Stats) :
    SameOutcome (s.merge t >>= fun both => both.merge u)
      (t.merge u >>= fun both => s.merge both) := by
  have left : (s.merge t >>= fun both => both.merge u).map counters
      = ((s.counters.join t.counters).join u.counters).checked := by
    rw [map_counters_bind (fun c => (c.join u.counters).checked) fun both => both.merge_counters u,
      merge_counters, checked_bind_join]
  have right : (t.merge u >>= fun both => s.merge both).map counters
      = (s.counters.join (t.counters.join u.counters)).checked := by
    rw [map_counters_bind (fun c => (s.counters.join c).checked) s.merge_counters, merge_counters,
      checked_bind_join']
  apply sameOutcome_of_checked left
  rw [right, join_assoc]

/-- A new record is merged without effect. -/
theorem sameOutcome_merge_initial {s : Stats} (representable : s.Representable) :
    SameOutcome (initial.merge s) (.ok s) ∧ SameOutcome (s.merge initial) (.ok s) := by
  have fits : s.counters.Fits := ⟨Nat.lt_succ_of_le representable.states,
    Nat.lt_succ_of_le representable.reduced, Nat.lt_succ_of_le representable.enabled⟩
  have neutral : initial.counters.join s.counters = s.counters :=
    blank_join ⟨representable.minReduced, representable.minEnabled⟩
  have unchanged : (Except.ok s : Except Abort Stats).map counters = s.counters.checked :=
    (checked_of_fits fits).symm
  constructor
  · apply sameOutcome_of_checked _ unchanged
    rw [merge_counters, neutral]
  · apply sameOutcome_of_checked _ unchanged
    rw [merge_counters, join_comm, neutral]

/-- The same states have the same outcome, wherever they were recorded. -/
theorem sameOutcome_run (ledger : Ledger) {samples : List (Nat × Nat)}
    (perm : ledger.samples.Perm samples) : SameOutcome ledger.run (recordAll samples) := by
  apply sameOutcome_of_checked ledger.run_counters
  rw [recordAll_counters, ofSamples_perm perm]

/-- **Merging is recording in one place.** Merging the records of two lists of states has the
outcome of recording both in one: the same counters and answers, or an overflow. So on these
counters merging is commutative and associative, a new record is neutral, and it does not matter
how the states are split over workers and in which order their records are merged. -/
theorem merge_homomorphic :
    (∀ samples more, SameOutcome
      (recordAll samples >>= fun s => recordAll more >>= fun t => s.merge t)
      (recordAll (samples ++ more))) ∧
    (∀ s t : Stats, SameOutcome (s.merge t) (t.merge s)) ∧
    (∀ s t u : Stats, SameOutcome (s.merge t >>= fun both => both.merge u)
      (t.merge u >>= fun both => s.merge both)) ∧
    (∀ s : Stats, s.Representable →
      SameOutcome (initial.merge s) (.ok s) ∧ SameOutcome (s.merge initial) (.ok s)) ∧
    ∀ (ledger : Ledger) (samples : List (Nat × Nat)), ledger.samples.Perm samples →
      SameOutcome ledger.run (recordAll samples) :=
  ⟨fun samples more => sameOutcome_run (.merge (.worker samples) (.worker more)) (.refl _),
    sameOutcome_merge_comm, sameOutcome_merge_assoc, fun _ => sameOutcome_merge_initial,
    fun ledger _ => sameOutcome_run ledger⟩

/-- A worker records a state, takes over the record of one that found nothing to do, records another
state, and takes over the record of a third worker. -/
def threeStates : Ledger :=
  .merge (.record (.merge (.worker [(1, 1)]) (.worker [])) (2, 4)) (.worker [(3, 3)])

/-- The three states are counted as if one worker had recorded all of them, and a new record changes
nothing. A number that fills a counter leaves no room for another one, wherever that is recorded. -/
theorem merge_homomorphic_threeStates :
    (∃ s, recordAll [(2, 4), (3, 3), (1, 1)] = .ok s ∧ s.Representable ∧
      s.counters = ⟨3, 6, 8, 1, 3, 1, 4⟩ ∧ s.minReduced? = some 1 ∧
      threeStates.samples.Perm [(2, 4), (3, 3), (1, 1)] ∧ SameOutcome threeStates.run (.ok s) ∧
      SameOutcome (initial.merge s) (.ok s)) ∧
    SameOutcome (recordAll [(maxWord, 1)] >>= fun s => recordAll [(1, 1)] >>= fun t => s.merge t)
      (.error .overflow) := by
  obtain ⟨both, _, _, neutral, anywhere⟩ := merge_homomorphic
  have perm : threeStates.samples.Perm [(2, 4), (3, 3), (1, 1)] := by decide
  have representable : ∀ s, recordAll [(2, 4), (3, 3), (1, 1)] = .ok s → s.Representable := by
    rintro s ⟨⟩
    constructor <;> decide
  exact ⟨⟨_, rfl, representable _ rfl, rfl, rfl, perm, anywhere threeStates _ perm,
    (neutral _ (representable _ rfl)).1⟩, both [(maxWord, 1)] [(1, 1)]⟩

end Stats

end StateSpace
