import Mathlib.Data.List.Perm.Subperm
import Mathlib.Logic.Relation
import Mathlib.Tactic.Common
import ArrayGraph.Closure

/-!
# The search computes reachability

`closure` goes round by round and stops after a number of rounds. This file proves that the bound
does not matter: if the successor function stays within a list of points, as many rounds as there
are points find everything that can be reached, and nothing else.

The invariant of the search is that the points seen so far have all their successors among them,
except for those in the frontier. Every round that does not end the search sees a new point.
-/

namespace ArrayGraph

open Relation

variable {κ : Type} [DecidableEq κ]

theorem nodup_eraseDups (items : List κ) : items.eraseDups.Nodup := by
  induction size : items.length using Nat.strongRecOn generalizing items with
  | ind length ih =>
    cases items with
    | nil => simp
    | cons head rest =>
      rw [List.eraseDups_cons, List.nodup_cons]
      constructor
      · simp
      · apply ih (rest.filter fun item => !item == head).length _ _ rfl
        have shorter := List.length_filter_le (fun item => !item == head) rest
        simp only [List.length_cons] at size
        omega

theorem eraseDups_map {κ' : Type} [DecidableEq κ'] {f : κ → κ'} (injective : Function.Injective f)
    (items : List κ) : (items.map f).eraseDups = items.eraseDups.map f := by
  induction length : items.length using Nat.strongRecOn generalizing items with
  | _ size ih =>
    subst length
    cases items with
    | nil => rfl
    | cons head rest =>
      have shorter : (rest.filter fun item => !item == head).length < (head :: rest).length :=
        Nat.lt_succ_of_le (List.length_filter_le _ _)
      rw [List.map_cons, List.eraseDups_cons, List.eraseDups_cons, List.map_cons,
        ← ih _ shorter _ rfl, List.filter_map]
      simp only [Function.comp_def, injective.beq_eq]

omit [DecidableEq κ] in
/-- A path stays within a set that its steps do not leave, and is a path of any relation that has
all steps from there. -/
theorem transGen_of_within {first second : κ → κ → Prop} {within : κ → Prop} {origin target : κ}
    (step : ∀ origin target, within origin → first origin target →
      second origin target ∧ within target)
    (start : within origin) (path : TransGen first origin target) :
    TransGen second origin target ∧ within target := by
  induction path with
  | single leads =>
    rcases step _ _ start leads with ⟨leads, inside⟩
    exact ⟨TransGen.single leads, inside⟩
  | tail _ leads ih =>
    rcases step _ _ ih.2 leads with ⟨leads, inside⟩
    exact ⟨ih.1.tail leads, inside⟩

/-- One step of a search. -/
def Leads (next : κ → List κ) (origin target : κ) : Prop := target ∈ next origin

variable {next : κ → List κ} {rounds : Nat} {point : κ}

/-- The next frontier of a search: the successors that have not been seen. -/
theorem mem_successors_iff {frontier seen : List κ} {target : κ} :
    target ∈ ((frontier.flatMap next).filter fun candidate => candidate ∉ seen).eraseDups ↔
      (∃ origin ∈ frontier, target ∈ next origin) ∧ target ∉ seen := by
  rw [List.mem_eraseDups, List.mem_filter, List.mem_flatMap, decide_eq_true_eq]

/-- What the search adds is reached from its frontier or was seen before. -/
theorem reached_of_mem_expand {frontier seen : List κ}
    (found : point ∈ expand next rounds frontier seen) :
    point ∈ seen ∨ ∃ origin ∈ frontier, TransGen (Leads next) origin point := by
  induction rounds generalizing frontier seen with
  | zero => exact Or.inl (by simpa [expand] using found)
  | succ rounds ih =>
    simp only [expand] at found
    split at found
    · exact Or.inl found
    · rcases ih found with known | ⟨origin, originMem, path⟩
      · rcases List.mem_append.mp known with known | new
        · exact Or.inl known
        · rcases (mem_successors_iff.mp new).1 with ⟨origin, originMem, lead⟩
          exact Or.inr ⟨origin, originMem, TransGen.single lead⟩
      · rcases (mem_successors_iff.mp originMem).1 with ⟨start, startMem, lead⟩
        exact Or.inr ⟨start, startMem, TransGen.head lead path⟩

/-- The search ends with a set of points that has all their successors. -/
theorem expand_closed {points : List κ} (within : ∀ origin, ∀ target ∈ next origin, target ∈ points)
    {frontier seen : List κ} (seenWithin : ∀ origin ∈ seen, origin ∈ points)
    (distinct : seen.Nodup) (frontierSeen : ∀ origin ∈ frontier, origin ∈ seen)
    (done : ∀ origin ∈ seen, origin ∉ frontier → ∀ target ∈ next origin, target ∈ seen)
    (enough : points.length ≤ rounds + seen.length) :
    ∀ origin ∈ expand next rounds frontier seen, ∀ target ∈ next origin,
      target ∈ expand next rounds frontier seen := by
  induction rounds generalizing frontier seen with
  | zero =>
    intro origin _ target targetMem
    -- Out of rounds: by their number, all points have been seen.
    have all : seen.Perm points :=
      (distinct.subperm seenWithin).perm_of_length_le (by omega)
    simp only [expand]
    exact all.mem_iff.mpr (within origin target targetMem)
  | succ rounds ih =>
    simp only [expand]
    generalize freshEq : ((frontier.flatMap next).filter
      fun candidate => candidate ∉ seen).eraseDups = fresh
    have memFresh : ∀ target, target ∈ fresh ↔
        (∃ origin ∈ frontier, target ∈ next origin) ∧ target ∉ seen :=
      fun target => freshEq ▸ mem_successors_iff
    split
    · rename_i nothing
      rw [List.isEmpty_iff] at nothing
      intro origin originMem target targetMem
      by_cases inFrontier : origin ∈ frontier
      · by_contra unseen
        have : target ∈ fresh := (memFresh target).mpr ⟨⟨origin, inFrontier, targetMem⟩, unseen⟩
        simp [nothing] at this
      · exact done origin originMem inFrontier target targetMem
    · rename_i something
      have freshDistinct : fresh.Nodup := freshEq ▸ nodup_eraseDups _
      have freshPositive : 0 < fresh.length := by
        rcases fresh with _ | ⟨head, rest⟩
        · simp at something
        · simp
      apply ih
      · intro origin originMem
        rcases List.mem_append.mp originMem with known | new
        · exact seenWithin origin known
        · rcases ((memFresh origin).mp new).1 with ⟨start, _, lead⟩
          exact within start origin lead
      · rw [List.nodup_append]
        refine ⟨distinct, freshDistinct, ?_⟩
        intro origin known target new same
        subst same
        exact ((memFresh origin).mp new).2 known
      · intro origin new
        exact List.mem_append_right _ new
      · intro origin originMem notFresh target targetMem
        rcases List.mem_append.mp originMem with known | new
        · by_cases inFrontier : origin ∈ frontier
          · by_cases seenBefore : target ∈ seen
            · exact List.mem_append_left _ seenBefore
            · exact List.mem_append_right _
                ((memFresh target).mpr ⟨⟨origin, inFrontier, targetMem⟩, seenBefore⟩)
          · exact List.mem_append_left _ (done origin known inFrontier target targetMem)
        · exact absurd new notFresh
      · rw [List.length_append]
        omega

/-- A closure has all successors of its points. -/
theorem closure_closed {points start : List κ}
    (within : ∀ origin, ∀ target ∈ next origin, target ∈ points)
    (startWithin : ∀ origin ∈ start, origin ∈ points) (enough : points.length ≤ rounds) :
    ∀ origin ∈ closure next rounds start, ∀ target ∈ next origin,
      target ∈ closure next rounds start :=
  expand_closed within (by simpa using startWithin) (nodup_eraseDups start)
    (fun _ member => member) (fun _ member notMember => absurd member notMember) (by omega)

/-- A closure holds exactly what is reached from its starting points. -/
theorem mem_closure_iff {points start : List κ}
    (within : ∀ origin, ∀ target ∈ next origin, target ∈ points)
    (startWithin : ∀ origin ∈ start, origin ∈ points) (enough : points.length ≤ rounds) :
    point ∈ closure next rounds start ↔
      ∃ origin ∈ start, ReflTransGen (Leads next) origin point := by
  constructor
  · intro found
    rcases reached_of_mem_expand found with known | ⟨origin, originMem, path⟩
    · exact ⟨point, by simpa using known, ReflTransGen.refl⟩
    · exact ⟨origin, by simpa using originMem, path.to_reflTransGen⟩
  · rintro ⟨origin, originMem, path⟩
    induction path with
    | refl => exact mem_closure_of_mem_start originMem
    | tail _ lead ih => exact closure_closed within startWithin enough _ ih _ lead

/-- A search finds the same points under other names. -/
theorem closure_map {κ' : Type} [DecidableEq κ'] {f : κ → κ'} (injective : Function.Injective f)
    {next' : κ' → List κ'} (same : ∀ origin, next' (f origin) = (next origin).map f)
    (start : List κ) : closure next' rounds (start.map f) = (closure next rounds start).map f := by
  have found : ∀ frontier seen : List κ, expand next' rounds (frontier.map f) (seen.map f) =
      (expand next rounds frontier seen).map f := by
    intro frontier seen
    induction rounds generalizing frontier seen with
    | zero => rfl
    | succ rounds ih =>
      have fresh : (((frontier.map f).flatMap next').filter fun point => point ∉ seen.map f).eraseDups =
          (((frontier.flatMap next).filter fun point => point ∉ seen).eraseDups).map f := by
        simp only [← eraseDups_map injective, List.flatMap_map, same, ← List.map_flatMap,
          List.filter_map, Function.comp_def, List.mem_map_of_injective injective]
      simp only [expand, fresh, List.isEmpty_map]
      split
      · rfl
      · rw [← List.map_append, ih]
  rw [closure, closure, eraseDups_map injective, found]

end ArrayGraph
