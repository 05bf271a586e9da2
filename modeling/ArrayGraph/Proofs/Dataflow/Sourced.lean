import Mathlib
import ArrayGraph.Proofs.Optimize.Yields

/-!
# Where the variables that are read come from

What a graph reads should be a root or be computed by a live node, for else an executable would read a
slot that no step writes. One replacement keeps this, because the new variable keeps its producer
live as soon as it is read. Several replacements in a row need not: each of them removes what nothing
needs at that moment, and so the producer of a variable that only a later one would let be read.
-/

namespace ArrayGraph.Dataflow

variable {α : Type} {graph middle later : Dataflow α} {var old new : VarId}

/-- A variable is a root or an output of a live node. -/
def Sourced (graph : Dataflow α) (var : VarId) : Prop :=
  (graph.var var).isRoot ∨ ∃ id, graph.producerId? var = some id

/-- Every variable that is read comes from somewhere. -/
def ReadsSourced (graph : Dataflow α) : Prop := ∀ var, graph.IsRead var → graph.Sourced var

section Testing

theorem sourced_iff : graph.Sourced var ↔
    (graph.var var).isRoot ∨ (graph.producerId? var).isSome := by
  simp only [Sourced, Option.isSome_iff_exists]

instance : Decidable (graph.Sourced var) := decidable_of_iff' _ sourced_iff

theorem readsSourced_iff : graph.ReadsSourced ↔ ∀ var ∈ graph.readVars, graph.Sourced var := by
  simp only [ReadsSourced, mem_readVars]

instance : Decidable graph.ReadsSourced := decidable_of_iff' _ readsSourced_iff

end Testing

section Replace

/-- Of what is read after a replacement nothing lost its source. -/
theorem IsRead.sourced_of_replace (answer : graph.replace old new = Except.ok later)
    (read : later.IsRead var) (sourced : graph.Sourced var) : later.Sourced var := by
  rcases replace_eq_ok answer with ⟨_, rfl⟩ | ⟨_, _, rfl⟩
  · exact sourced
  · rcases sourced with root | ⟨id, produced⟩
    · exact Or.inl root
    · refine Or.inr ⟨id, ?_⟩
      rw [read.producerId?_prune, producerId?_redirect, produced]

/-- What is read after a replacement was read before, or is the new variable in the place of the old
one. -/
theorem IsRead.of_replace (answer : graph.replace old new = Except.ok later)
    (read : later.IsRead var) : graph.IsRead var ∨ var = new ∧ graph.IsRead old := by
  rcases replace_eq_ok answer with ⟨_, rfl⟩ | ⟨_, _, rfl⟩
  · exact Or.inl read
  · rcases read.of_prune.of_redirect with ⟨same, readOld⟩ | ⟨_, before⟩
    · exact Or.inr ⟨same, readOld⟩
    · exact Or.inl before

/-- One replacement leaves no variable without a source. -/
theorem ReadsSourced.replace (sourced : graph.ReadsSourced)
    (given : graph.IsRead old → graph.Sourced new)
    (answer : graph.replace old new = Except.ok later) : later.ReadsSourced := by
  intro var read
  apply read.sourced_of_replace answer
  rcases read.of_replace answer with before | ⟨rfl, readOld⟩
  · exact sourced var before
  · exact given readOld

end Replace

section ReplaceAll

variable {pairs front : List (VarId × VarId)}

theorem replaceAll_concat : graph.replaceAll (front ++ [(old, new)]) = Except.ok later ↔
    ∃ middle, graph.replaceAll front = Except.ok middle ∧
      middle.replace old new = Except.ok later := by
  simp only [replaceAll, List.foldlM_append, List.foldlM_cons, List.foldlM_nil,
    Checked.bind_eq_ok_iff]
  constructor
  · rintro ⟨middle, before, final, replaced, same⟩
    cases same
    exact ⟨middle, before, replaced⟩
  · rintro ⟨middle, before, replaced⟩
    exact ⟨middle, before, later, replaced, rfl⟩

theorem vars_replaceAll (answer : graph.replaceAll pairs = Except.ok later) :
    later.vars = graph.vars :=
  Checked.foldlM_invariant (fun current : Dataflow α => current.vars = graph.vars)
    (fun _ _ _ _ same replaced => (vars_replace replaced).trans same) rfl answer

/-- A variable that came from somewhere still does, unless the node that computes it was removed. -/
theorem Sourced.of_replaceAll (sourced : graph.Sourced var)
    (answer : graph.replaceAll pairs = Except.ok later)
    (live : ∀ id, graph.producerId? var = some id → later.isLive id) : later.Sourced var := by
  have same : later.var var = graph.var var := by rw [Dataflow.var, vars_replaceAll answer, Dataflow.var]
  rcases sourced with root | ⟨id, produced⟩
  · exact Or.inl (same ▸ root)
  · rcases producerId?_eq_some.mp produced with ⟨_, index, found⟩
    rcases isLive_iff.mp (live id produced) with ⟨node, live⟩
    refine Or.inr ⟨id, producerId?_eq_some.mpr ⟨node, index, producer?_eq_some.mpr ⟨?_, live⟩⟩⟩
    rw [same]
    exact (producer?_eq_some.mp found).1

/-- No replacement of a list removes the node that computes the new variable of a later one, as far as
the old variable of that one is still read then. -/
def KeepsProducers (graph : Dataflow α) (pairs : List (VarId × VarId)) : Prop :=
  ∀ front old new back middle id, pairs = front ++ (old, new) :: back →
    graph.replaceAll front = Except.ok middle → middle.IsRead old →
      graph.producerId? new = some id → middle.isLive id

/-- Replacements that keep the producers of their new variables live leave no variable without a
source. -/
theorem readsSourced_of_replaceAll (sourced : graph.ReadsSourced)
    (given : ∀ pair ∈ pairs, graph.Sourced pair.2) (keeps : graph.KeepsProducers pairs)
    (answer : graph.replaceAll pairs = Except.ok later) : later.ReadsSourced := by
  -- The induction goes over the replacements that were made so far.
  have soFar : ∀ front back current, pairs = front ++ back →
      graph.replaceAll front = Except.ok current → current.ReadsSourced := by
    intro front
    induction front using List.reverseRecOn with
    | nil =>
      intro back current _ before
      cases before
      exact sourced
    | append_singleton front pair ih =>
      rcases pair with ⟨old, new⟩
      intro back current split before
      rw [List.append_assoc, List.singleton_append] at split
      rcases replaceAll_concat.mp before with ⟨middle, before, replaced⟩
      refine (ih _ middle split before).replace ?_ replaced
      intro readOld
      apply (given (old, new) (by simp [split])).of_replaceAll before
      intro id produced
      exact keeps front old new back middle id split before readOld produced
  exact soFar pairs [] later (List.append_nil pairs).symm answer

end ReplaceAll

/-- A vector, with nodes that take its negation, its exponential and its square, and the logarithm of
one of them. -/
def squareBeside (logOf : VarId) : Dataflow Float where
  vars := #[⟨ArrayType.ofRank .float64 1, .input, some "x"⟩,
    ⟨ArrayType.ofRank .float64 1, .output ⟨0⟩ 0, none⟩,
    ⟨ArrayType.ofRank .float64 1, .output ⟨1⟩ 0, none⟩,
    ⟨ArrayType.ofRank .float64 1, .output ⟨2⟩ 0, none⟩,
    ⟨ArrayType.ofRank .float64 1, .output ⟨3⟩ 0, none⟩]
  nodes := #[some ⟨.elementwise .neg none, [⟨0⟩], [⟨1⟩]⟩,
    some ⟨.elementwise .exp none, [⟨0⟩], [⟨2⟩]⟩,
    some ⟨.elementwise .sqr none, [⟨0⟩], [⟨3⟩]⟩,
    some ⟨.elementwise .log none, [logOf], [⟨4⟩]⟩]
  inputs := [⟨0⟩]
  outputs := [⟨1⟩, ⟨2⟩]
  guarded := []

/-- The logarithm in the place of the exponential, and after it the square in that of the negation. -/
def squareTurns : List (VarId × VarId) := [(⟨2⟩, ⟨4⟩), (⟨1⟩, ⟨3⟩)]

/-- The outputs after both, and the nodes that are left of the square and the logarithm. -/
def squareTaken (logOf : VarId) (square : Option (Node Float)) : Dataflow Float :=
  { squareBeside logOf with
    nodes := #[none, none, square, some ⟨.elementwise .log none, [logOf], [⟨4⟩]⟩]
    outputs := [⟨3⟩, ⟨4⟩] }

/-- The logarithm of the square keeps the square until it is read itself. -/
theorem readsSourced_of_replaceAll_squareBeside :
    (squareBeside ⟨3⟩).ReadsSourced ∧
      (∀ pair ∈ squareTurns, (squareBeside ⟨3⟩).Sourced pair.2) ∧
      (squareBeside ⟨3⟩).KeepsProducers squareTurns ∧
      (squareBeside ⟨3⟩).replaceAll squareTurns =
        Except.ok (squareTaken ⟨3⟩ (some ⟨.elementwise .sqr none, [⟨0⟩], [⟨3⟩]⟩)) ∧
      (squareTaken ⟨3⟩ (some ⟨.elementwise .sqr none, [⟨0⟩], [⟨3⟩]⟩)).ReadsSourced := by
  have sourced : (squareBeside ⟨3⟩).ReadsSourced := by decide
  have given : ∀ pair ∈ squareTurns, (squareBeside ⟨3⟩).Sourced pair.2 := by decide
  have answer : (squareBeside ⟨3⟩).replaceAll squareTurns =
      Except.ok (squareTaken ⟨3⟩ (some ⟨.elementwise .sqr none, [⟨0⟩], [⟨3⟩]⟩)) := by cbv
  have keeps : (squareBeside ⟨3⟩).KeepsProducers squareTurns := by
    rintro (_ | ⟨first, _ | ⟨second, front⟩⟩) old new back middle id split before _ produced
    · cases before
      exact isLive_iff.mpr (live_of_producerId? produced)
    · simp only [squareTurns, List.cons_append, List.nil_append, List.cons.injEq, Prod.mk.injEq]
        at split
      rcases split with ⟨rfl, ⟨rfl, rfl⟩, _⟩
      cases before
      cases produced
      cbv
    · simp [squareTurns] at split
  exact ⟨sourced, given, keeps, answer, readsSourced_of_replaceAll sourced given keeps answer⟩

/-- The square is gone when the logarithm is that of the vector itself. -/
theorem not_readsSourced_of_replaceAll_squareBeside :
    (squareBeside ⟨0⟩).WellFormed ∧ (squareBeside ⟨0⟩).ReadsSourced ∧
      (∀ pair ∈ squareTurns, (squareBeside ⟨0⟩).Sourced pair.2) ∧
      (squareBeside ⟨0⟩).replaceAll squareTurns = Except.ok (squareTaken ⟨0⟩ none) ∧
      ¬(squareTaken ⟨0⟩ none).ReadsSourced := by
  exact ⟨by decide, by decide, by decide, by cbv, by decide⟩

end ArrayGraph.Dataflow
