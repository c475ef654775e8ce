/-
**Programs drawn at random can be loaded.**

* `Draw.Always` — what holds of every value that a computation can draw, whatever the source of
  numbers. `Draw.Reaches` — a value that is drawn with the right numbers.
* `Params.listing` — the places of the commands, as three nested loops; `Draw.places_eq` says that
  these are the numbered ones.
* `Drawn` — a program that keeps to its parameters. Only such programs are drawn
  (`Draw.always_chosen`), and each of them can be (`Draw.reaches_chosen`).
* `Drawn.accepted` — such a program is accepted, unless there is no room for its description;
  `Drawn.describable` says that there is for moderate parameters.
* `Draw.program_exact` — all of it together. `Draw.overfull` are parameters of a program that is too
  large.
-/

import StateSpace.Program.Draw
import StateSpace.Proofs.Program.Acceptance

namespace StateSpace

/-! ### Places -/

/-- **Process by process, location by location**, and each place as often as there are branches. -/
def Params.listing (params : Params) : List (Nat × Nat) :=
  (List.range params.processCount).flatMap fun process =>
    (List.range params.locationCount.toNat).flatMap fun location =>
      List.replicate params.branches (process, location)

/-- Counting up to a product is counting in two nested loops. -/
theorem flatMap_range_mul {α : Type} (outer inner : Nat) (body : Nat → Nat → List α) :
    (List.range (outer * inner)).flatMap (fun number => body (number / inner) (number % inner))
      = (List.range outer).flatMap fun first => (List.range inner).flatMap (body first) := by
  induction outer with
  | zero =>
    rw [Nat.zero_mul]
    rfl
  | succ outer ih =>
    -- the last round of the outer loop counts on from where the others end
    rw [Nat.add_mul, Nat.one_mul, List.range_add, List.flatMap_append, ih, List.range_succ,
      List.flatMap_append, List.flatMap_singleton, List.flatMap_map]
    congr 1
    apply List.flatMap_congr
    intro second member
    have less : second < inner := List.mem_range.mp member
    rw [Nat.mul_comm, Nat.mul_add_div (Nat.zero_lt_of_lt less), Nat.div_eq_of_lt less,
      Nat.mul_add_mod, Nat.mod_eq_of_lt less, Nat.add_zero]

theorem mem_listing {params : Params} {process location : Nat}
    (listed : (process, location) ∈ params.listing) :
    process < params.processCount ∧ location < params.locationCount.toNat := by
  obtain ⟨_, inside, listed⟩ := List.mem_flatMap.mp listed
  obtain ⟨_, inside', listed⟩ := List.mem_flatMap.mp listed
  obtain ⟨rfl, rfl⟩ := Prod.mk.inj (List.eq_of_mem_replicate listed)
  exact ⟨List.mem_range.mp inside, List.mem_range.mp inside'⟩

namespace Draw

/-- **The numbered places are those of the nested loops.** -/
theorem places_eq (params : Params) : places params = params.listing := by
  have copies : ∀ location : Nat,
      ((List.range params.branches).flatMap fun _ =>
          [(location / params.locationCount.toNat, location % params.locationCount.toNat)])
        = List.replicate params.branches
          (location / params.locationCount.toNat, location % params.locationCount.toNat) := by
    intro location
    rw [← List.map_eq_flatMap, List.map_const', List.length_range]
  unfold places Params.listing
  rw [← Nat.mul_assoc, List.map_eq_flatMap]
  -- the innermost loop is split off first, and then the two outer ones from one another
  calc (List.range (params.processCount * params.locationCount.toNat * params.branches)).flatMap
          (fun number => [place params number])
      = (List.range (params.processCount * params.locationCount.toNat)).flatMap fun location =>
          List.replicate params.branches
            (location / params.locationCount.toNat, location % params.locationCount.toNat) := by
        rw [← funext copies]
        exact flatMap_range_mul _ params.branches fun location _ =>
          [(location / params.locationCount.toNat, location % params.locationCount.toNat)]
    _ = _ := flatMap_range_mul params.processCount _ fun process location =>
          List.replicate params.branches (process, location)

theorem length_listing (params : Params) :
    params.listing.length
      = params.processCount * params.locationCount.toNat * params.branches := by
  rw [← places_eq, places, List.length_map, List.length_range, Nat.mul_assoc]

/-! ### Drawing -/

variable {γ α β : Type}

/-- **Something holds of every value that is drawn.** -/
def Always (draw : StateM γ α) (holds : α → Prop) : Prop :=
  ∀ source, holds (draw source).1

theorem always_pure {value : α} {holds : α → Prop} (here : holds value) :
    Always (pure value : StateM γ α) holds :=
  fun _ => here

theorem Always.bind {draw : StateM γ α} {next : α → StateM γ β} {holds : α → Prop}
    {holds' : β → Prop} (first : Always draw holds)
    (second : ∀ value, holds value → Always (next value) holds') : Always (draw >>= next) holds' :=
  fun source => second _ (first source) (draw source).2

/-- The values drawn for the entries of a list. -/
theorem Always.mapM (key : β → α) (holds : β → Prop) {draw : α → StateM γ β} {entries : List α}
    (each : ∀ entry ∈ entries, Always (draw entry) fun value => key value = entry ∧ holds value) :
    Always (entries.mapM draw) fun values =>
      values.map key = entries ∧ ∀ value ∈ values, holds value := by
  induction entries with
  | nil => exact always_pure ⟨rfl, fun _ member => by cases member⟩
  | cons entry rest ih =>
    rw [List.mapM_cons]
    refine (each entry List.mem_cons_self).bind fun value here => ?_
    refine (ih fun entry member => each entry (List.mem_cons_of_mem _ member)).bind
      fun values there => always_pure ⟨?_, ?_⟩
    · rw [List.map_cons, here.1, there.1]
    · intro other member
      rcases List.mem_cons.mp member with rfl | member
      · exact here.2
      · exact there.2 other member

theorem always_true (draw : StateM γ α) : Always draw fun _ => True :=
  fun _ => trivial

theorem always_below [RandomGen γ] {bound : Nat} (positive : 0 < bound) :
    Always (below bound : StateM γ Nat) (· < bound) :=
  fun _ => Nat.mod_lt _ positive

/-! ### Drawing with given numbers -/

/-- **Numbers that are drawn one after the other**, zeros in the end. -/
structure Script where
  numbers : List Nat

instance : RandomGen Script where
  range script := (0, script.numbers.foldl Nat.max 0)
  next script := (script.numbers.headD 0, ⟨script.numbers.tail⟩)
  split script := (script, script)

/-- **A value is drawn with certain numbers**, and what comes after these is left. -/
def Reaches (draw : StateM Script α) (value : α) : Prop :=
  ∃ numbers, ∀ rest, draw ⟨numbers ++ rest⟩ = (value, ⟨rest⟩)

theorem reaches_pure (value : α) : Reaches (pure value) value :=
  ⟨[], fun _ => rfl⟩

theorem Reaches.bind {draw : StateM Script α} {next : α → StateM Script β} {value : α} {result : β}
    (first : Reaches draw value) (second : Reaches (next value) result) :
    Reaches (draw >>= next) result := by
  obtain ⟨numbers, drawn⟩ := first
  obtain ⟨numbers', drawn'⟩ := second
  refine ⟨numbers ++ numbers', fun rest => ?_⟩
  show (next (draw ⟨numbers ++ numbers' ++ rest⟩).1) (draw ⟨numbers ++ numbers' ++ rest⟩).2 = _
  rw [List.append_assoc, drawn, drawn']

theorem Reaches.mapM {draw : α → StateM Script β} {key : β → α} {values : List β}
    (each : ∀ value ∈ values, Reaches (draw (key value)) value) :
    Reaches ((values.map key).mapM draw) values := by
  induction values with
  | nil => exact reaches_pure []
  | cons value rest ih =>
    rw [List.map_cons, List.mapM_cons]
    refine (each value List.mem_cons_self).bind (Reaches.bind (ih ?_) (reaches_pure _))
    exact fun value member => each value (List.mem_cons_of_mem _ member)

theorem reaches_below {bound number : Nat} (less : number < bound) :
    Reaches (below bound) number := by
  refine ⟨[number], fun rest => ?_⟩
  show (number % bound, Script.mk rest) = _
  rw [Nat.mod_eq_of_lt less]

end Draw

/-! ### What is drawn -/

/-- A binding within the parameters. -/
def Params.Admits (params : Params) (binding : Binding) : Prop :=
  binding.index < params.variableCount ∧ binding.value < params.domain

/-- **A command within the parameters.** It forbids nothing unless that is wanted. -/
structure Params.Allows (params : Params) (command : Command) : Prop where
  target : command.target < params.locationCount
  bindings : ∀ binding ∈ command.bindings, params.Admits binding
  harmless : params.assertions = false → command.forbidden = none

/-- The process and the location of a command. -/
def Command.place (command : Command) : Nat × Nat :=
  (command.process, command.source.toNat)

/-- **A program that keeps to its parameters**: it has the wanted size, its commands stand in the
order of the loops, and each of them is within the parameters. -/
structure Drawn (params : Params) (p : Program) : Prop where
  processCount : p.processCount = params.processCount
  locationCount : p.locationCount = params.locationCount
  variableCount : p.variableCount = params.variableCount
  domain : p.domain = params.domain
  places : p.commands.toList.map Command.place = params.listing
  allowed : ∀ command ∈ p.commands.toList, params.Allows command

/-- **There is something to choose from.** -/
structure Params.Possible (params : Params) : Prop where
  locations : 0 < params.locationCount.toNat
  indices : 0 < params.variableCount
  values : 0 < params.domain.toNat

theorem ofNat_lt_of_lt {number : Nat} {bound : UInt8} (less : number < bound.toNat) :
    UInt8.ofNat number < bound := by
  rw [UInt8.lt_iff_toNat_lt, UInt8.toNat_ofNat_of_lt' (Nat.lt_trans less bound.toNat_lt)]
  exact less

namespace Draw

variable {γ : Type} [RandomGen γ] {params : Params}

theorem emptyRange_eq_true_iff :
    emptyRange params = true ↔
      params.locationCount = 0 ∨ params.variableCount = 0 ∨ params.domain = 0 := by
  simp only [emptyRange, Bool.or_eq_true, beq_iff_eq, or_assoc]

theorem emptyRange_eq_false_iff : emptyRange params = false ↔ params.Possible := by
  rw [← Bool.not_eq_true, emptyRange_eq_true_iff, not_or, not_or]
  have positive : ∀ number : UInt8, ¬ number = 0 ↔ 0 < number.toNat := by
    intro number
    rw [← UInt8.toNat_inj]
    exact Nat.pos_iff_ne_zero.symm
  rw [positive, positive]
  exact ⟨fun choice => ⟨choice.1, Nat.pos_of_ne_zero choice.2.1, choice.2.2⟩,
    fun possible => ⟨possible.locations, Nat.ne_of_gt possible.indices, possible.values⟩⟩

/-! ### Only such programs -/

theorem always_binding (possible : params.Possible) :
    Always (binding params : StateM γ Binding) params.Admits := by
  unfold binding
  refine (always_below possible.indices).bind fun index inside => ?_
  refine (always_below possible.values).bind fun value inside' => ?_
  exact always_pure ⟨inside, ofNat_lt_of_lt inside'⟩

theorem mem_withLuck {lucky : Bool} {binding : Binding} (admitted : params.Admits binding) :
    ∀ other ∈ (withLuck lucky binding).toList, params.Admits other := by
  intro other member
  cases lucky with
  | true =>
    rw [List.mem_singleton.mp member]
    exact admitted
  | false => cases member

theorem always_forbids :
    Always (forbids params : StateM γ Bool)
      fun forbidding => params.assertions = false → forbidding = false := by
  intro source unwanted
  unfold forbids
  rw [unwanted]
  rfl

theorem always_command (possible : params.Possible) {process location : Nat}
    (inside : location < params.locationCount.toNat) :
    Always (command params process location : StateM γ Command)
      fun command => command.place = (process, location) ∧ params.Allows command := by
  unfold command
  refine (always_binding possible).bind fun guard guards => ?_
  refine (always_binding possible).bind fun update updates => ?_
  refine (always_binding possible).bind fun forbidden forbids => ?_
  refine (always_below possible.locations).bind fun target inside' => ?_
  refine (always_true _).bind fun guarded _ => (always_true _).bind fun updating _ => ?_
  refine always_forbids.bind fun forbidding unwanted => always_pure ⟨?_, ?_, ?_, ?_⟩
  · rw [Command.place, UInt8.toNat_ofNat_of_lt' (Nat.lt_trans inside params.locationCount.toNat_lt)]
  · exact ofNat_lt_of_lt inside'
  · intro binding member
    rcases List.mem_append.mp member with member | member
    · rcases List.mem_append.mp member with member | member
      · exact mem_withLuck guards binding member
      · exact mem_withLuck updates binding member
    · exact mem_withLuck forbids binding member
  · intro harmless
    show withLuck forbidding forbidden = none
    rw [unwanted harmless]
    rfl

/-- **Only programs that keep to the parameters are drawn.** -/
theorem always_chosen (possible : params.Possible) :
    Always (chosen params : StateM γ Program) (Drawn params) := by
  unfold chosen
  refine (Always.mapM Command.place params.Allows fun place listed => ?_).bind
    fun commands drawn => always_pure ⟨rfl, rfl, rfl, rfl, ?_, drawn.2⟩
  · rw [places_eq] at listed
    exact always_command possible (mem_listing listed).2
  · rw [← places_eq]
    exact drawn.1

/-! ### All such programs -/

theorem reaches_binding {binding : Binding} (admitted : params.Admits binding) :
    Reaches (Draw.binding params) binding := by
  unfold Draw.binding
  refine (reaches_below admitted.1).bind ?_
  refine (reaches_below (UInt8.lt_iff_toNat_lt.mp admitted.2)).bind ?_
  rw [UInt8.ofNat_toNat]
  exact reaches_pure binding

theorem reaches_chance {odds : Nat} (two : 2 ≤ odds) (lucky : Bool) :
    Reaches (chance odds) lucky := by
  unfold chance
  cases lucky with
  | true =>
    have first : 0 < odds := Nat.lt_of_lt_of_le (by decide) two
    exact (reaches_below first).bind (reaches_pure true)
  | false => exact (reaches_below two).bind (reaches_pure false)

/-- Some binding is drawn in any case. -/
theorem exists_withLuck (possible : params.Possible) {chosen : Option Binding}
    (admitted : ∀ binding ∈ chosen.toList, params.Admits binding) :
    ∃ binding, params.Admits binding ∧ withLuck chosen.isSome binding = chosen := by
  cases chosen with
  | none => exact ⟨⟨0, 0⟩, ⟨possible.indices, UInt8.lt_iff_toNat_lt.mpr possible.values⟩, rfl⟩
  | some binding => exact ⟨binding, admitted binding (List.mem_singleton.mpr rfl), rfl⟩

theorem reaches_command (possible : params.Possible) {command : Command}
    (allowed : params.Allows command) :
    Reaches (Draw.command params command.process command.source.toNat) command := by
  obtain ⟨guard, guards, guarded⟩ := exists_withLuck possible fun binding member =>
    allowed.bindings binding (List.mem_append_left _ (List.mem_append_left _ member))
  obtain ⟨update, updates, updated⟩ := exists_withLuck possible fun binding member =>
    allowed.bindings binding (List.mem_append_left _ (List.mem_append_right _ member))
  obtain ⟨forbidden, forbids, forbade⟩ := exists_withLuck possible fun binding member =>
    allowed.bindings binding (List.mem_append_right _ member)
  have coin : Reaches (Draw.forbids params) command.forbidden.isSome := by
    unfold Draw.forbids
    split
    · exact reaches_chance (by decide) _
    · next unwanted =>
      rw [allowed.harmless (Bool.eq_false_iff.mpr unwanted)]
      exact reaches_pure false
  unfold Draw.command
  refine (reaches_binding guards).bind ((reaches_binding updates).bind ?_)
  refine (reaches_binding forbids).bind ?_
  refine (reaches_below (UInt8.lt_iff_toNat_lt.mp allowed.target)).bind ?_
  refine (reaches_chance (by decide) command.guard.isSome).bind ?_
  refine (reaches_chance (by decide) command.update.isSome).bind (coin.bind ?_)
  rw [guarded, updated, forbade, UInt8.ofNat_toNat, UInt8.ofNat_toNat]
  exact reaches_pure command

/-- **Every program that keeps to the parameters can be drawn.** -/
theorem reaches_chosen (possible : params.Possible) {p : Program} (drawn : Drawn params p) :
    Reaches (chosen params) p := by
  unfold chosen
  rw [places_eq, ← drawn.places]
  refine (Reaches.mapM fun command listed => ?_).bind ?_
  · exact reaches_command possible (drawn.allowed command listed)
  · rw [← drawn.processCount, ← drawn.locationCount, ← drawn.variableCount, ← drawn.domain]
    exact reaches_pure p

/-- A program is chosen if there is something to choose from. -/
theorem program_eq_some_iff {source : γ} {p : Program} :
    (program params source).1 = some p ↔ params.Possible ∧ (chosen params source).1 = p := by
  unfold program
  cases empty : emptyRange params with
  | true =>
    have impossible : ¬ params.Possible := by
      rw [← emptyRange_eq_false_iff, empty]
      decide
    exact iff_of_false (fun drawn => by cases drawn) fun both => impossible both.1
  | false =>
    rw [← emptyRange_eq_false_iff, empty]
    exact ⟨fun drawn => ⟨rfl, Option.some.inj drawn⟩, fun both => congrArg some both.2⟩

theorem program_eq_none_iff {source : γ} :
    (program params source).1 = none ↔
      params.locationCount = 0 ∨ params.variableCount = 0 ∨ params.domain = 0 := by
  rw [← emptyRange_eq_true_iff]
  unfold program
  cases emptyRange params with
  | true => exact iff_of_true rfl rfl
  | false => exact iff_of_false (fun none => by cases none) Bool.false_ne_true

end Draw

namespace Drawn

variable {params : Params} {p : Program}

theorem size_commands (drawn : Drawn params p) :
    p.commands.size = params.processCount * params.locationCount.toNat * params.branches := by
  rw [← Draw.length_listing, ← drawn.places, List.length_map, Array.length_toList]

/-- Its commands fit. -/
theorem fits (drawn : Drawn params p) {t : Nat} {command : Command}
    (found : p.commands[t]? = some command) : command.Fits p := by
  have listed : command ∈ p.commands.toList := by
    rw [← Array.getElem?_toList] at found
    exact List.mem_of_getElem? found
  have allowed := drawn.allowed command listed
  obtain ⟨process, location⟩ := mem_listing (drawn.places ▸ List.mem_map_of_mem listed)
  rw [← drawn.processCount] at process
  rw [← drawn.locationCount] at location
  refine ⟨process, UInt8.lt_iff_toNat_lt.mpr location, ?_, ?_⟩
  · rw [drawn.locationCount]
    exact allowed.target
  · rw [drawn.variableCount, drawn.domain]
    exact allowed.bindings

/-- **It is accepted**, unless there is no room for its description. -/
theorem accepted (drawn : Drawn params p) :
    if p.Describable then ∃ m, Model.ofProgram p = .ok m
    else Model.ofProgram p = .error (.abort .overflow) := by
  split
  · next describable =>
    exact Model.exists_ofProgram_iff.mpr ⟨describable, fun _ _ found => drawn.fits found⟩
  · next crowded =>
    exact Model.ofProgram_eq_abort_iff.mpr ⟨rfl, crowded, fun _ _ found => drawn.fits found⟩

theorem imageSize_eq (drawn : Drawn params p) :
    p.imageSize = params.processCount + params.variableCount := by
  rw [Program.imageSize, drawn.processCount, drawn.variableCount]

/-- **There is room for the description** if the parameters are moderate. -/
theorem describable (drawn : Drawn params p)
    (numbered : params.processCount + params.variableCount < UInt64.size)
    (few : params.processCount * params.locationCount.toNat * (params.branches + 1) ≤ 536870912) :
    p.Describable := by
  refine Program.describable_of_few (drawn.imageSize_eq ▸ numbered) ?_
  rwa [Program.locationGuardCount, drawn.processCount, drawn.locationCount, drawn.size_commands,
    Nat.add_comm, ← Nat.mul_succ]

end Drawn

namespace Draw

/-- **Drawn programs can be loaded.** Whatever the source of numbers, there is no program only if
there is no location, no variable or no value to choose from. Otherwise the program keeps to the
parameters: it has the wanted number of commands, process by process and location by location, and
none of them forbids anything unless that is wanted. It is accepted, unless there is no room for its
description; then the call breaks off. There is room if the bytes of its states are numbered with 64
bits and its commands and locations are `2 ^ 29` or fewer. With the right numbers each program that
keeps to the parameters is drawn. -/
theorem program_exact {γ : Type} [RandomGen γ] (params : Params) (source : γ) :
    ((program params source).1 = none ↔
      params.locationCount = 0 ∨ params.variableCount = 0 ∨ params.domain = 0) ∧
    (∀ p, (program params source).1 = some p →
      p.commands.size = params.processCount * params.locationCount.toNat * params.branches ∧
      p.commands.toList.map Command.place = params.listing ∧
      (params.assertions = false → ∀ command ∈ p.commands, command.forbidden = none) ∧
      Drawn params p ∧
      (if p.Describable then ∃ m, Model.ofProgram p = .ok m
        else Model.ofProgram p = .error (.abort .overflow)) ∧
      (params.processCount + params.variableCount < UInt64.size →
        params.processCount * params.locationCount.toNat * (params.branches + 1) ≤ 536870912 →
          p.Describable)) ∧
    ∀ p, (∃ script : Script, (program params script).1 = some p) ↔
      params.Possible ∧ Drawn params p := by
  refine ⟨program_eq_none_iff, fun p call => ?_, fun p => ⟨?_, ?_⟩⟩
  · obtain ⟨possible, rfl⟩ := program_eq_some_iff.mp call
    have drawn := always_chosen possible source
    refine ⟨drawn.size_commands, drawn.places, fun unwanted command listed => ?_, drawn,
      drawn.accepted, drawn.describable⟩
    exact (drawn.allowed command listed.val).harmless unwanted
  · rintro ⟨script, call⟩
    obtain ⟨possible, rfl⟩ := program_eq_some_iff.mp call
    exact ⟨possible, always_chosen possible script⟩
  · rintro ⟨possible, drawn⟩
    obtain ⟨numbers, call⟩ := reaches_chosen possible drawn
    refine ⟨⟨numbers ++ []⟩, program_eq_some_iff.mpr ⟨possible, ?_⟩⟩
    rw [call]

/-- Two processes with two locations and one command at each of them. -/
def small : Params where
  id := 0
  processCount := 2
  locationCount := 2
  variableCount := 1
  domain := 2
  branches := 1
  assertions := true

/-- A program drawn with these parameters: the first command goes on to the other location if the
variable is one, and forbids that it is zero. The others go to the first location if the variable is
zero, set it to zero and forbid that it is zero. -/
theorem program_exact_small :
    small.processCount + small.variableCount < UInt64.size ∧
      ∃ p, (program small (Script.mk [0, 1, 0, 0, 0, 0, 1, 0, 1, 0])).1 = some p ∧
        p.commands[0]? = some ⟨0, 0, 1, some ⟨0, 1⟩, none, some ⟨0, 0⟩⟩ ∧ p.commands.size = 4 ∧
        p.commands.toList.map Command.place = [(0, 0), (0, 1), (1, 0), (1, 1)] ∧
        ∃ m, Model.ofProgram p = .ok m := by
  have numbered : small.processCount + small.variableCount < UInt64.size := by decide
  have exact := (program_exact small (Script.mk [0, 1, 0, 0, 0, 0, 1, 0, 1, 0])).2.1 _ rfl
  obtain ⟨size, places, _, _, accepted, room⟩ := exact
  rw [if_pos (room numbered (by decide))] at accepted
  exact ⟨numbered, _, rfl, rfl, size, places, accepted⟩

/-- One process with one command, and as many variables as 64 bits can number. -/
def overfull : Params where
  id := 0
  processCount := 1
  locationCount := 1
  variableCount := 18446744073709551615
  domain := 1
  branches := 1
  assertions := false

/-- **There is something to choose from, but no drawn program is accepted**: together with the
location of the process there are too many bytes. -/
theorem overfull_not_accepted :
    (overfull.locationCount ≠ 0 ∧ overfull.variableCount ≠ 0 ∧ overfull.domain ≠ 0) ∧
      ∃ p, (program overfull (Script.mk [])).1 = some p ∧ ∀ m, Model.ofProgram p ≠ .ok m := by
  have possible : overfull.Possible := by constructor <;> decide
  have drawn := always_chosen possible (Script.mk [])
  have crowded : ¬ (chosen overfull (Script.mk [])).1.Describable := by
    intro describable
    have numbered := describable.numbered
    rw [drawn.imageSize_eq] at numbered
    revert numbered
    decide
  have refused := drawn.accepted
  rw [if_neg crowded] at refused
  refine ⟨by decide, _, program_eq_some_iff.mpr ⟨possible, rfl⟩, fun m made => ?_⟩
  rw [refused] at made
  cases made

end Draw

end StateSpace
