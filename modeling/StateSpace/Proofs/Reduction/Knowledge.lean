/-
**Knowing less of the guards never lets a reduction drop more.**

What is known of the guards matters to stubborn sets only: it picks the guards that decide what a
disabled member asks for. A guard known to be false takes the place of all others, so one more of
them may bring a transition back that was dropped before. But with no guard known to be false, all
guards decide that are not known to hold.

* `Oracle.Mutes` — one oracle never says that a guard is false, and says that one holds only if
  another oracle does. The one that knows nothing is such an oracle.
* `TransitionSystem.Decides.of_mutes`, `TransitionSystem.Demands.of_mutes` — what decides for the
  other oracle decides for this one, and what is asked for is asked for. So what is kept is kept
  (`TransitionSystem.Kept.of_mutes`).
* `Reducer.keeps_of_unknown` — with nothing known, a reducer keeps all that it keeps with an oracle.
-/

import StateSpace.Proofs.Reduction.EnabledSets

namespace StateSpace

/-- **An oracle that never says that a guard is false**, and says that one holds only if another
oracle says so. -/
structure Oracle.Mutes (muted holds : Oracle) : Prop where
  ne_false : ∀ g, muted g ≠ some false
  of_true : ∀ g, muted g = some true → holds g = some true

/-- Knowing nothing is the least that can be known. -/
theorem Oracle.mutes_unknown (holds : Oracle) : Oracle.Mutes (fun _ => none) holds where
  ne_false := fun _ same => by cases same
  of_true := fun _ same => by cases same

namespace TransitionSystem

variable {s : TransitionSystem} {options : Options} {processLocal : Bool} {enabled : List Nat}
  {muted holds : Oracle} {t u g : Nat}

/-- A guard that decides does so among more guards if none is known to be false. -/
theorem Decides.of_mutes (mutes : Oracle.Mutes muted holds) (decides : s.Decides holds t g) :
    s.Decides muted t g := by
  obtain ⟨has, either⟩ := decides
  have possible : holds g ≠ some true := by
    intro true_
    rcases either with ⟨fails, _⟩ | ⟨possible, _⟩
    · rw [fails] at true_
      cases true_
    · exact possible true_
  exact ⟨has, .inr ⟨fun told => possible (mutes.of_true g told), fun h _ => mutes.ne_false h⟩⟩

theorem Demands.of_mutes (mutes : Oracle.Mutes muted holds)
    (asked : s.Demands processLocal enabled holds t u) :
    s.Demands processLocal enabled muted t u := by
  cases asked with
  | interferes fires neighbour => exact .interferes fires neighbour
  | conflicts fires fires' conflicts => exact .conflicts fires fires' conflicts
  | unguarded disabled free neighbour => exact .unguarded disabled free neighbour
  | enables disabled decides enables => exact .enables disabled (decides.of_mutes mutes) enables

/-- **What is kept is kept if less is known**, provided that no guard is known to be false. -/
theorem Kept.of_mutes (mutes : Oracle.Mutes muted holds) (kept : s.Kept options enabled holds t) :
    s.Kept options enabled muted t := by
  unfold Kept at kept ⊢
  split at kept
  · exact kept
  · obtain ⟨seed, fires, lowest, leads⟩ := kept
    refine ⟨seed, fires, lowest, ?_⟩
    exact Relation.ReflTransGen.mono (fun _ _ asked => asked.of_mutes mutes) _ _ leads

end TransitionSystem

namespace Reducer

/-- **Evaluating guards only sharpens a reduction.** Take a reducer for a system, with either
method, a list of enabled transitions, and any oracle, whatever it answers. With nothing known of
the guards the reducer keeps all that it keeps with the oracle. -/
theorem keeps_of_unknown {s : TransitionSystem} {options : Options} {r : Reducer}
    (made : ofSystem s options = .ok r) {enabled : List Nat}
    (known : ∀ t ∈ enabled, t < s.transitions.size) (holds : Oracle) :
    ∃ keeps keeps', r.Keeps enabled holds keeps ∧ r.Keeps enabled (fun _ => none) keeps' ∧
      ∀ t, keeps t → keeps' t := by
  have represents := represents_of_ofSystem made
  refine ⟨s.Kept options enabled holds, s.Kept options enabled fun _ => none,
    represents.keeps_kept holds known, represents.keeps_kept _ known, ?_⟩
  intro t kept
  exact kept.of_mutes (Oracle.mutes_unknown holds)

/-! ### Two locks -/

/-- A process can start or enter; it enters once two locks are open, which others open. -/
def twoLocks : TransitionSystem where
  variableCount := 3
  processCount := 3
  transitions := #[⟨"start", [0], [], [0], []⟩, ⟨"enter", [0], [], [0], [0, 1]⟩,
    ⟨"open first", [1], [], [1], []⟩, ⟨"open second", [2], [], [2], []⟩]
  guards := #[⟨[1], none⟩, ⟨[2], none⟩]
  exclusiveGuards := []

theorem twoLocks_writes {t v : Nat} :
    twoLocks.Writes t v ↔ (t, v) ∈ [(0, 0), (1, 0), (2, 1), (3, 2)] := by
  unfold TransitionSystem.Writes
  match t with
  | 0 | 1 | 2 | 3 => simp [twoLocks]
  | t + 4 => simp [twoLocks]

theorem twoLocks_hasGuard {t g : Nat} : twoLocks.HasGuard t g ↔ t = 1 ∧ g < 2 := by
  unfold TransitionSystem.HasGuard
  match t with
  | 0 | 2 | 3 => simp [twoLocks]
  | 1 =>
    simp [twoLocks]
    omega
  | t + 4 => simp [twoLocks]

theorem twoLocks_guardReads {g v : Nat} : twoLocks.GuardReads g v ↔ g < 2 ∧ v = g + 1 := by
  unfold TransitionSystem.GuardReads
  match g with
  | 0 | 1 => simp [twoLocks]
  | g + 2 => simp [twoLocks]

theorem twoLocks_reads {t v : Nat} : twoLocks.Reads t v ↔ t = 1 ∧ (v = 1 ∨ v = 2) := by
  have own : ¬ ∃ transition, twoLocks.transitions[t]? = some transition ∧ v ∈ transition.reads := by
    rintro ⟨transition, found, member⟩
    match t with
    | 0 | 1 | 2 | 3 => simp [twoLocks] at found; simp [← found] at member
    | t + 4 => simp [twoLocks] at found
  simp only [TransitionSystem.Reads, own, false_or, twoLocks_hasGuard, twoLocks_guardReads]
  constructor
  · rintro ⟨g, ⟨same, _⟩, below, rfl⟩
    omega
  · rintro ⟨same, read⟩
    exact ⟨v - 1, by omega, by omega⟩

theorem twoLocks_not_neverCoenabled {t u : Nat} : ¬ twoLocks.NeverCoenabled t u := by
  rintro ⟨_, g, h, _, _, excludes⟩
  simp [TransitionSystem.Excludes, twoLocks] at excludes

/-- Starting and entering interfere. -/
theorem twoLocks_interferes : twoLocks.Interferes false 0 1 := by
  refine ⟨by decide, twoLocks_not_neverCoenabled, .inl ⟨0, .inr (.inl ⟨?_, ?_⟩)⟩⟩
  · exact twoLocks_writes.mpr (by decide)
  · exact twoLocks_writes.mpr (by decide)

/-- Nothing interferes unless it is entering. -/
theorem twoLocks_of_interferes {t u : Nat} (interferes : twoLocks.Interferes false t u) :
    t = 1 ∨ u = 1 := by
  obtain ⟨different, _, ⟨v, both | both | both⟩ | ⟨asked, _⟩⟩ := interferes
  · exact .inr (twoLocks_reads.mp both.2).1
  · have writes := twoLocks_writes.mp both.1
    have writes' := twoLocks_writes.mp both.2
    simp only [List.mem_cons, Prod.mk.injEq, List.not_mem_nil, or_false] at writes writes'
    omega
  · exact .inl (twoLocks_reads.mp both.2).1
  · cases asked

theorem twoLocks_enables {t g : Nat} : twoLocks.Enables t g ↔ g < 2 ∧ t = g + 2 := by
  match g with
  | 0 =>
    have reads : twoLocks.Enables t 0 ↔ twoLocks.Writes t 1 := by
      simp [TransitionSystem.Enables, twoLocks]
    simp [reads, twoLocks_writes]
  | 1 =>
    have reads : twoLocks.Enables t 1 ↔ twoLocks.Writes t 2 := by
      simp [TransitionSystem.Enables, twoLocks]
    simp [reads, twoLocks_writes]
  | g + 2 => simp [TransitionSystem.Enables, twoLocks]

/-- Beside starting and entering, what is asked for is opening the locks that decide. -/
theorem twoLocks_leads_iff {holds : Oracle} {t : Nat} :
    Relation.ReflTransGen (twoLocks.Demands false [0, 2, 3] holds) 0 t ↔
      t = 0 ∨ t = 1 ∨ ∃ g, twoLocks.Decides holds 1 g ∧ t = g + 2 := by
  have enter : twoLocks.Demands false [0, 2, 3] holds 0 1 :=
    .interferes (by decide) twoLocks_interferes
  constructor
  · intro leads
    induction leads with
    | refl => exact .inl rfl
    | tail _ asked _ =>
      cases asked with
      | interferes fires neighbour =>
        refine .inr (.inl ((twoLocks_of_interferes neighbour).resolve_left fun same => ?_))
        rw [same] at fires
        exact absurd fires (by decide)
      | conflicts fires fires' conflicts =>
        -- only starting and entering write a common variable, and entering is disabled
        obtain ⟨different, v, writes, writes'⟩ := conflicts
        simp only [twoLocks_writes, List.mem_cons, Prod.mk.injEq, List.not_mem_nil,
          or_false] at writes writes' fires fires'
        omega
      | unguarded _ free neighbour =>
        refine .inr (.inl ((twoLocks_of_interferes neighbour).resolve_left fun same => ?_))
        exact free 0 (twoLocks_hasGuard.mpr ⟨same, by decide⟩)
      | enables _ decides enables =>
        obtain ⟨rfl, _⟩ := twoLocks_hasGuard.mp decides.1
        exact .inr (.inr ⟨_, decides, (twoLocks_enables.mp enables).2⟩)
  · rintro (rfl | rfl | ⟨g, decides, rfl⟩)
    · exact .refl
    · exact .single enter
    · have below := (twoLocks_hasGuard.mp decides.1).2
      exact .tail (.single enter)
        (.enables (by decide) decides (twoLocks_enables.mpr ⟨below, rfl⟩))

/-- Opening a lock is kept if its guard decides. -/
theorem twoLocks_kept_iff {holds : Oracle} {t : Nat} (member : t ∈ [0, 2, 3]) :
    twoLocks.Kept ⟨.stubbornSet, false⟩ [0, 2, 3] holds t ↔
      t = 0 ∨ ∃ g, g < 2 ∧ (holds g = some false ∧ (∀ h, h < g → holds h ≠ some false) ∨
        holds g ≠ some true ∧ ∀ h, h < 2 → holds h ≠ some false) ∧ t = g + 2 := by
  have enabled : t ≠ 1 := by
    rintro rfl
    exact absurd member (by decide)
  have decides : ∀ g, twoLocks.Decides holds 1 g ↔
      g < 2 ∧ (holds g = some false ∧ (∀ h, h < g → holds h ≠ some false) ∨
        holds g ≠ some true ∧ ∀ h, h < 2 → holds h ≠ some false) := by
    intro g
    simp only [TransitionSystem.Decides, twoLocks_hasGuard, true_and]
    refine and_congr_right fun below => or_congr_left (and_congr_right fun _ => ?_)
    exact ⟨fun first h less => first h (by omega) less, fun first h _ less => first h less⟩
  have leads : twoLocks.Kept ⟨.stubbornSet, false⟩ [0, 2, 3] holds t ↔
      Relation.ReflTransGen (twoLocks.Demands false [0, 2, 3] holds) 0 t := by
    constructor
    · rintro ⟨seed, _, lowest, leads⟩
      rwa [Nat.le_zero.mp (lowest 0 (by decide))] at leads
    · exact fun leads => ⟨0, by decide, by decide, leads⟩
  rw [leads, twoLocks_leads_iff, or_iff_right enabled]
  simp only [decides, and_assoc]

/-- Both locks can be opened, or the process can start. If the second lock is known to be shut,
opening the first one is dropped; with nothing known all is kept. If both are known to be shut,
opening the first one is kept, and opening the second one is dropped. -/
theorem keeps_of_unknown_twoLocks :
    ∃ r, ofSystem twoLocks ⟨.stubbornSet, false⟩ = .ok r ∧
      (∃ later, r.reduce [0, 2, 3] (fun g => if g = 1 then some false else none)
        = .ok ([true, false, true], later)) ∧
      (∃ later, r.reduce [0, 2, 3] (fun _ => none) = .ok ([true, true, true], later)) ∧
      ∃ later, r.reduce [0, 2, 3] (fun _ => some false) = .ok ([true, true, false], later) := by
  have made : ofSystem twoLocks ⟨.stubbornSet, false⟩
      = .ok (ofAnalysis (Analysis.ofValid twoLocks) ⟨.stubbornSet, false⟩) := rfl
  have known : ∀ t ∈ [0, 2, 3], t < twoLocks.transitions.size := by decide
  have room : Stats.initial.Room [0, 2, 3].length := Stats.room_initial (by decide)
  have keepsThose := fun holds => (represents_of_ofSystem made).keeps_kept holds known
  obtain ⟨keeps, keeps', sharp, dull, implies⟩ :=
    keeps_of_unknown made known fun g => if g = 1 then some false else none
  have told : ∀ t ∈ [0, 2, 3], (keeps t ↔ (t != 2) = true) := by
    intro t member
    rw [sharp.unique (keepsThose _) room t member, twoLocks_kept_iff member]
    revert t
    decide
  have told' : ∀ t ∈ [0, 2, 3], (keeps' t ↔ (fun _ : Nat => true) t = true) := by
    intro t member
    refine iff_of_true ?_ rfl
    by_cases first : t = 2
    · subst first
      rw [dull.unique (keepsThose _) room 2 member, twoLocks_kept_iff member]
      decide
    · exact implies t ((told t member).mpr (bne_iff_ne.mpr first))
  have both : ∀ t ∈ [0, 2, 3], (twoLocks.Kept ⟨.stubbornSet, false⟩ [0, 2, 3]
      (fun _ => some false) t ↔ (t != 3) = true) := by
    intro t member
    rw [twoLocks_kept_iff member]
    revert t
    decide
  obtain ⟨_, reduced⟩ := sharp.exists_reduce told room
  obtain ⟨_, reduced'⟩ := dull.exists_reduce told' room
  obtain ⟨_, reducedBoth⟩ := (keepsThose _).exists_reduce both room
  exact ⟨_, made, ⟨_, reduced⟩, ⟨_, reduced'⟩, _, reducedBoth⟩

end Reducer

end StateSpace
