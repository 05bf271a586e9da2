import Mathlib
import ArrayGraph.Proofs.Reachability

/-!
# Searches with a stack

A search may also keep a stack of items that are still to be looked at. An item leads to points, and
the items behind a point are put on the stack when the point is met for the first time. An item may
be on the stack many times, and points may lead back to points that were met before, so it is not
plain that the stack is ever empty. It is, because the items behind each point are put there once
only: the length of the stack and what may still be put on it go down together by one in each round.

Once the stack is empty, the points that were met are those that can be reached. The invariant is that
every item that has been put on the stack is still there, or all points it leads to have been met.
-/

namespace ArrayGraph

open Relation

/-- Where a search goes. -/
structure Walk (σ κ : Type) where
  /-- The points that an item leads to. -/
  points : σ → List κ
  /-- The items behind a point. -/
  behind : κ → List σ

/-- How far a search has come. -/
structure Sweep (σ κ : Type) where
  /-- The items that are still to be looked at, the next one first. -/
  stack : List σ
  /-- The points that have been met. -/
  met : List κ

namespace Walk

variable {σ κ : Type} [DecidableEq κ]

/-- Meets a point. The first time, the items behind it are put on the stack. -/
def meet (walk : Walk σ κ) (sweep : Sweep σ κ) (point : κ) : Sweep σ κ :=
  if point ∈ sweep.met then sweep
  else ⟨(walk.behind point).reverse ++ sweep.stack, point :: sweep.met⟩

/-- Takes an item from the stack and meets the points it leads to. -/
def round (walk : Walk σ κ) (sweep : Sweep σ κ) : Sweep σ κ :=
  match sweep.stack with
  | [] => sweep
  | item :: rest => (walk.points item).foldl walk.meet ⟨rest, sweep.met⟩

/-- The search after a number of rounds that begin with some items on the stack. -/
def run (walk : Walk σ κ) (rounds : Nat) (start : List σ) : Sweep σ κ :=
  walk.round^[rounds] ⟨start.reverse, []⟩

/-- How many items can be put on the stack in all, if there are no items behind points that are not in
a list. -/
def workload (walk : Walk σ κ) (all : List κ) (start : List σ) : Nat :=
  start.length + (all.map fun point => (walk.behind point).length).sum

/-- The points behind a point. -/
def next (walk : Walk σ κ) (point : κ) : List κ := (walk.behind point).flatMap walk.points

variable {walk : Walk σ κ} {all : List κ} {start : List σ} {sweep : Sweep σ κ} {point : κ}
  {item item' : σ} {pending : List κ} {rounds : Nat}

theorem round_of_empty (empty : sweep.stack = []) : walk.round sweep = sweep := by
  unfold round
  rw [empty]

section Termination

/-- How many items may still be put on the stack when some points have been met. -/
def remaining (walk : Walk σ κ) (all met : List κ) : Nat :=
  ((all.filter (· ∉ met)).map fun point => (walk.behind point).length).sum

/-- To meet a new point uses up the items behind it. -/
theorem remaining_cons {met : List κ} (new : point ∉ met) : walk.remaining all (point :: met) +
    (if point ∈ all then (walk.behind point).length else 0) ≤ walk.remaining all met := by
  induction all with
  | nil => simp [remaining]
  | cons head rest ih =>
    simp only [remaining, List.mem_cons, not_or, Bool.decide_and] at ih ⊢
    by_cases same : head = point
    · subst same
      simp only [List.filter_cons, new, not_false_eq_true, decide_true, decide_false, not_true_eq_false,
        Bool.false_and, Bool.false_eq_true, if_false, if_true, List.map_cons, List.sum_cons, true_or]
      split at ih <;> omega
    · by_cases known : head ∈ met
      · simpa [List.filter_cons, known, Ne.symm same] using ih
      · simp only [List.filter_cons, known, same, Ne.symm same, not_false_eq_true, decide_true,
          Bool.and_self, if_true, List.map_cons, List.sum_cons, false_or] at ih ⊢
        omega

variable (bounded : ∀ point, walk.behind point ≠ [] → point ∈ all)
include bounded

theorem work_meet : (walk.meet sweep point).stack.length +
    walk.remaining all (walk.meet sweep point).met ≤
      sweep.stack.length + walk.remaining all sweep.met := by
  unfold meet
  split
  · exact Nat.le_refl _
  · rename_i new
    have used : walk.remaining all (point :: sweep.met) +
        (if point ∈ all then (walk.behind point).length else 0) ≤ walk.remaining all sweep.met :=
      remaining_cons new
    simp only [List.length_append, List.length_reverse]
    by_cases nothing : walk.behind point = []
    · simp only [nothing, List.length_nil]
      omega
    · rw [if_pos (bounded point nothing)] at used
      omega

/-- A round takes an item from the stack for good. -/
theorem work_round (busy : sweep.stack ≠ []) : (walk.round sweep).stack.length +
    walk.remaining all (walk.round sweep).met <
      sweep.stack.length + walk.remaining all sweep.met := by
  have meetAll : ∀ (points : List κ) (sweep : Sweep σ κ),
      (points.foldl walk.meet sweep).stack.length +
        walk.remaining all (points.foldl walk.meet sweep).met ≤
          sweep.stack.length + walk.remaining all sweep.met := by
    intro points
    induction points with
    | nil => exact fun sweep => Nat.le_refl _
    | cons head rest ih =>
      exact fun sweep => Nat.le_trans (ih (walk.meet sweep head)) (work_meet bounded)
  unfold round
  split
  · rename_i empty
    exact absurd empty busy
  · rename_i item rest found
    have taken := meetAll (walk.points item) ⟨rest, sweep.met⟩
    rw [found, List.length_cons]
    simp only at taken
    omega

theorem stack_iterate (enough : sweep.stack.length + walk.remaining all sweep.met ≤ rounds) :
    (walk.round^[rounds] sweep).stack = [] := by
  induction rounds generalizing sweep with
  | zero =>
    rw [Function.iterate_zero_apply, ← List.length_eq_zero_iff]
    omega
  | succ rounds ih =>
    by_cases empty : sweep.stack = []
    · rw [Function.iterate_fixed (round_of_empty empty)]
      exact empty
    · have decreased := work_round bounded empty
      exact ih (by omega)

/-- The stack is empty after as many rounds as items can be put on it. -/
theorem stack_run (enough : walk.workload all start ≤ rounds) :
    (walk.run rounds start).stack = [] := by
  refine stack_iterate bounded ?_
  simpa [remaining, workload] using enough

end Termination

section Exactness

/-- A point that an item of the stack leads to, or one that is reached from such a point. -/
def Reaches (walk : Walk σ κ) (start : List σ) (point : κ) : Prop :=
  ∃ origin ∈ start.flatMap walk.points, ReflTransGen (Leads walk.next) origin point

/-- An item that has been put on the stack: it is still there, or the points it leads to have been met,
apart from some that are about to be. -/
def Seen (walk : Walk σ κ) (sweep : Sweep σ κ) (pending : List κ) (item : σ) : Prop :=
  item ∈ sweep.stack ∨ ∀ point ∈ walk.points item, point ∈ sweep.met ∨ point ∈ pending

/-- What holds of a search at any time: all it knows of can be reached, and no item has been lost. -/
structure Explores (walk : Walk σ κ) (start : List σ) (sweep : Sweep σ κ) (pending : List κ) :
    Prop where
  met_reached : ∀ point ∈ sweep.met, walk.Reaches start point
  pending_reached : ∀ point ∈ pending, walk.Reaches start point
  stack_reached : ∀ item ∈ sweep.stack, ∀ point ∈ walk.points item, walk.Reaches start point
  start_seen : ∀ item ∈ start, walk.Seen sweep pending item
  behind_seen : ∀ point ∈ sweep.met, ∀ item ∈ walk.behind point, walk.Seen sweep pending item

omit [DecidableEq κ] in
/-- To take an item from the stack is to make the points it leads to pending. -/
theorem Seen.take {rest : List σ} (seen : walk.Seen sweep [] item)
    (found : sweep.stack = item' :: rest) :
    walk.Seen ⟨rest, sweep.met⟩ (walk.points item') item := by
  rcases seen with waiting | done
  · rw [found] at waiting
    rcases List.mem_cons.mp waiting with rfl | waiting
    · exact Or.inr fun point member => Or.inr member
    · exact Or.inl waiting
  · exact Or.inr fun point member => (done point member).imp_right fun absent => by cases absent

omit [DecidableEq κ] in
theorem Explores.take {rest : List σ} (explores : walk.Explores start sweep [])
    (found : sweep.stack = item :: rest) :
    walk.Explores start ⟨rest, sweep.met⟩ (walk.points item) where
  met_reached := explores.met_reached
  pending_reached := explores.stack_reached item (by simp [found])
  stack_reached other member := explores.stack_reached other (by simp [found, member])
  start_seen other member := (explores.start_seen other member).take found
  behind_seen point met other member := (explores.behind_seen point met other member).take found

/-- A pending point is met. -/
theorem Seen.meet (seen : walk.Seen sweep (point :: pending) item) :
    walk.Seen (walk.meet sweep point) pending item := by
  unfold Walk.meet
  rcases seen with waiting | done
  · left
    split
    · exact waiting
    · exact List.mem_append_right _ waiting
  · right
    intro other member
    rcases done other member with met | pends
    · left
      split
      · exact met
      · exact List.mem_cons_of_mem _ met
    · rcases List.mem_cons.mp pends with rfl | pends
      · left
        split
        · assumption
        · exact List.mem_cons_self
      · exact Or.inr pends

omit [DecidableEq κ] in
theorem Reaches.step {target : κ} (reaches : walk.Reaches start point)
    (behind : item ∈ walk.behind point) (leads : target ∈ walk.points item) :
    walk.Reaches start target := by
  rcases reaches with ⟨origin, member, path⟩
  exact ⟨origin, member, path.tail (List.mem_flatMap.mpr ⟨item, behind, leads⟩)⟩

theorem Explores.meet (explores : walk.Explores start sweep (point :: pending)) :
    walk.Explores start (walk.meet sweep point) pending where
  met_reached other met := by
    unfold Walk.meet at met
    split at met
    · exact explores.met_reached other met
    · rcases List.mem_cons.mp met with rfl | met
      · exact explores.pending_reached other List.mem_cons_self
      · exact explores.met_reached other met
  pending_reached other member := explores.pending_reached other (List.mem_cons_of_mem _ member)
  stack_reached item member := by
    unfold Walk.meet at member
    split at member
    · exact explores.stack_reached item member
    · rcases List.mem_append.mp member with behind | member
      · have reached := explores.pending_reached point List.mem_cons_self
        exact fun target leads => reached.step (List.mem_reverse.mp behind) leads
      · exact explores.stack_reached item member
  start_seen item member := (explores.start_seen item member).meet
  behind_seen other met item behind := by
    by_cases known : other ∈ sweep.met
    · exact (explores.behind_seen other known item behind).meet
    · -- The point was met just now, and what is behind it is on the stack.
      unfold Walk.meet at met ⊢
      split at met
      · exact absurd met known
      · rename_i new
        rcases List.mem_cons.mp met with rfl | met
        · rw [if_neg new]
          exact Or.inl (List.mem_append_left _ (List.mem_reverse.mpr behind))
        · exact absurd met known

theorem Explores.round (explores : walk.Explores start sweep []) :
    walk.Explores start (walk.round sweep) [] := by
  have meetAll : ∀ (pending : List κ) (sweep : Sweep σ κ), walk.Explores start sweep pending →
      walk.Explores start (pending.foldl walk.meet sweep) [] := by
    intro pending
    induction pending with
    | nil => exact fun sweep explores => explores
    | cons head rest ih => exact fun sweep explores => ih (walk.meet sweep head) explores.meet
  unfold Walk.round
  split
  · exact explores
  · rename_i item rest found
    exact meetAll _ _ (explores.take found)

theorem explores_run (walk : Walk σ κ) (rounds : Nat) (start : List σ) :
    walk.Explores start (walk.run rounds start) [] := by
  induction rounds with
  | zero =>
    refine ⟨by simp [run], by simp, ?_, ?_, by simp [run]⟩
    · intro item member point leads
      exact ⟨point, List.mem_flatMap.mpr ⟨item, List.mem_reverse.mp member, leads⟩, .refl⟩
    · exact fun item member => Or.inl (List.mem_reverse.mpr member)
  | succ rounds ih =>
    rw [run, Function.iterate_succ_apply']
    exact ih.round

/-- Once the stack is empty, the points that were met are those that can be reached. -/
theorem mem_met_run_iff (empty : (walk.run rounds start).stack = []) :
    point ∈ (walk.run rounds start).met ↔ walk.Reaches start point := by
  have explores := explores_run walk rounds start
  have done : ∀ item, walk.Seen (walk.run rounds start) [] item →
      ∀ target ∈ walk.points item, target ∈ (walk.run rounds start).met := by
    rintro item (waiting | done) target leads
    · rw [empty] at waiting
      cases waiting
    · simpa using done target leads
  constructor
  · exact explores.met_reached point
  · rintro ⟨origin, originMem, path⟩
    induction path with
    | refl =>
      rcases List.mem_flatMap.mp originMem with ⟨item, member, leads⟩
      exact done item (explores.start_seen item member) origin leads
    | tail _ leads ih =>
      rcases List.mem_flatMap.mp leads with ⟨item, behind, leads⟩
      exact done item (explores.behind_seen _ ih item behind) _ leads

/-- The search comes to an end within its workload, and what it has met by then is a given set. -/
def Finds (walk : Walk σ κ) (all : List κ) (start : List σ) (found : κ → Prop) : Prop :=
  ∀ rounds, walk.workload all start ≤ rounds → (walk.run rounds start).stack = [] ∧
    ∀ point, point ∈ (walk.run rounds start).met ↔ found point

/-- Every search with points to meet from a list finds what can be reached. -/
theorem finds_reached (bounded : ∀ point, walk.behind point ≠ [] → point ∈ all) :
    walk.Finds all start (walk.Reaches start) := by
  intro rounds enough
  have empty := stack_run bounded enough
  exact ⟨empty, fun point => mem_met_run_iff empty⟩

end Exactness

end Walk

end ArrayGraph
