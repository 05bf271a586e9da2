import ArrayGraph.Alias
import ArrayGraph.Proofs.Dataflow.Basic

/-!
# Owners of storage

A variable lives in the storage of the input that it is a view of or is written over, and that input
may in turn live in the storage of another. `aliasRoot` follows this chain for as many steps as
there are variables. In a graph without cycles the chain never repeats a variable, so the search
has always come to its end: the owner of a variable's storage is the owner of its source's storage,
and owners have no source.
-/

namespace ArrayGraph.Dataflow

open Relation

variable {α : Type} {graph : Dataflow α} {var source : VarId}

/-- A variable lives in the storage of another one. -/
def LivesIn (graph : Dataflow α) (var source : VarId) : Prop := graph.storageSource? var = some source

theorem storageSource?_eq_some :
    graph.storageSource? var = some source ↔
      ∃ id node index input, graph.producer? var = some (id, node, index) ∧
        (node.op.viewMap ++ node.op.destroyMap).lookup index = some input ∧
        node.inputs[input]? = some source := by
  unfold storageSource?
  cases produced : graph.producer? var with
  | none => simp
  | some entry =>
    rcases entry with ⟨id, node, index⟩
    cases found : (node.op.viewMap ++ node.op.destroyMap).lookup index with
    | none => simp [found]
    | some input => simp [found]

theorem storageSource?_eq_none_of_producer?
    (produced : graph.producer? var = none) : graph.storageSource? var = none := by
  simp [storageSource?, produced]

theorem LivesIn.known (lives : graph.LivesIn var source) : var.index < graph.vars.size := by
  rcases storageSource?_eq_some.mp lives with ⟨id, node, index, _, produced, _⟩
  by_contra outside
  have kind := (producer?_eq_some.mp produced).1
  rw [Dataflow.var, Array.getElem?_eq_none (by omega)] at kind
  cases kind

theorem LivesIn.producer (lives : graph.LivesIn var source) :
    ∃ id node, graph.producerId? var = some id ∧ graph.node? id = some node ∧
      source ∈ node.inputs := by
  rcases storageSource?_eq_some.mp lives with ⟨id, node, index, input, produced, _, found⟩
  exact ⟨id, node, producerId?_eq_some.mpr ⟨node, index, produced⟩,
    (producer?_eq_some.mp produced).2, List.mem_of_getElem? found⟩

theorem LivesIn.readsFrom {id other : NodeId} (lives : graph.LivesIn var source)
    (produced : graph.producerId? var = some id) (sourceProduced : graph.producerId? source = some other) :
    graph.ReadsFrom id other := by
  rcases lives.producer with ⟨id', node, produced', live, input⟩
  rw [produced] at produced'
  cases produced'
  exact readsFrom_iff.mpr ⟨node, live, source, input, sourceProduced⟩

theorem LivesIn.computedFrom {id : NodeId} (lives : graph.LivesIn var source)
    (computed : graph.ComputedFrom source id) : graph.ComputedFrom var id := by
  rcases lives.producer with ⟨reader, _, produced, _⟩
  rcases computed with ⟨producer, sourceProduced, path⟩
  exact ⟨reader, produced, ReflTransGen.head (lives.readsFrom produced sourceProduced) path⟩

theorem Acyclic.not_livesIn_self (acyclic : graph.Acyclic) : ¬TransGen graph.LivesIn var var := by
  have forward : ∀ first last, TransGen graph.LivesIn first last → ∀ id other,
      graph.producerId? first = some id → graph.producerId? last = some other →
        TransGen graph.ReadsFrom id other := by
    intro first last path
    induction path with
    | single lives =>
      intro id other produced sourceProduced
      exact TransGen.single (lives.readsFrom produced sourceProduced)
    | tail _ lives ih =>
      intro id other produced sourceProduced
      rcases lives.producer with ⟨middle, _, middleProduced, _⟩
      exact TransGen.tail (ih id middle produced middleProduced)
        (lives.readsFrom middleProduced sourceProduced)
  intro cycle
  rcases TransGen.head'_iff.mp cycle with ⟨_, lives, _⟩
  rcases lives.producer with ⟨id, _, produced, _⟩
  exact acyclic id (forward var var cycle id id produced produced)

theorem aliasRootWithin_of_none {steps : Nat} (ended : graph.storageSource? var = none) :
    graph.aliasRootWithin steps var = var := by
  cases steps <;> simp [aliasRootWithin, ended]

/-- A search that has not ended has met as many variables as it has made steps. -/
theorem distinct_of_aliasRootWithin (acyclic : graph.Acyclic) {steps : Nat}
    (unfinished : graph.storageSource? (graph.aliasRootWithin steps var) ≠ none) :
    ∃ met : List VarId, met.length = steps + 1 ∧ met.Nodup ∧
      ∀ other ∈ met, ReflTransGen graph.LivesIn var other ∧ other.index < graph.vars.size := by
  induction steps generalizing var with
  | zero =>
    rcases Option.ne_none_iff_exists'.mp unfinished with ⟨source, lives⟩
    refine ⟨[var], rfl, by simp, ?_⟩
    intro other member
    rw [List.mem_singleton] at member
    subst member
    exact ⟨ReflTransGen.refl, LivesIn.known lives⟩
  | succ steps ih =>
    cases found : graph.storageSource? var with
    | none =>
      rw [aliasRootWithin_of_none found] at unfinished
      exact absurd found unfinished
    | some source =>
      have lives : graph.LivesIn var source := found
      simp only [aliasRootWithin, found] at unfinished
      rcases ih unfinished with ⟨met, length, distinct, reached⟩
      refine ⟨var :: met, by simp [length], List.nodup_cons.mpr ⟨?_, distinct⟩, ?_⟩
      · intro member
        exact acyclic.not_livesIn_self (TransGen.head' lives (reached var member).1)
      · intro other member
        rcases List.mem_cons.mp member with rfl | member
        · exact ⟨ReflTransGen.refl, lives.known⟩
        · exact ⟨ReflTransGen.head lives (reached other member).1, (reached other member).2⟩

/-- The owner of storage has no source. -/
theorem Acyclic.storageSource?_aliasRoot (acyclic : graph.Acyclic) (var : VarId) :
    graph.storageSource? (graph.aliasRoot var) = none := by
  by_contra unfinished
  rcases distinct_of_aliasRootWithin acyclic unfinished with ⟨met, length, distinct, reached⟩
  have within : ∀ other ∈ met, other ∈ graph.varIds :=
    fun other member => mem_varIds.mpr (reached other member).2
  have short := (distinct.subperm within).length_le
  simp only [varIds, List.length_map, List.length_range] at short
  omega

theorem aliasRootWithin_succ_of_ended {steps : Nat}
    (ended : graph.storageSource? (graph.aliasRootWithin steps var) = none) :
    graph.aliasRootWithin (steps + 1) var = graph.aliasRootWithin steps var := by
  induction steps generalizing var with
  | zero =>
    simp only [aliasRootWithin] at ended ⊢
    simp [ended]
  | succ steps ih =>
    rw [aliasRootWithin]
    cases found : graph.storageSource? var with
    | none => exact (aliasRootWithin_of_none found).symm
    | some source =>
      simp only [aliasRootWithin, found] at ended ⊢
      exact ih ended

theorem aliasRoot_of_none (ended : graph.storageSource? var = none) : graph.aliasRoot var = var :=
  aliasRootWithin_of_none ended

/-- A variable's storage has the same owner as its source's. -/
theorem Acyclic.aliasRoot_eq (acyclic : graph.Acyclic) (lives : graph.LivesIn var source) :
    graph.aliasRoot var = graph.aliasRoot source := by
  have known := lives.known
  have ended := acyclic.storageSource?_aliasRoot var
  unfold aliasRoot at ended ⊢
  rcases size : graph.vars.size with _ | steps
  · omega
  · simp only [size, aliasRootWithin, show graph.storageSource? var = some source from lives] at ended
    simp only [aliasRootWithin, show graph.storageSource? var = some source from lives]
    exact (aliasRootWithin_succ_of_ended ended).symm

@[simp]
theorem Acyclic.aliasRoot_aliasRoot (acyclic : graph.Acyclic) (var : VarId) :
    graph.aliasRoot (graph.aliasRoot var) = graph.aliasRoot var :=
  aliasRoot_of_none (acyclic.storageSource?_aliasRoot var)

/-- What holds of owners and is passed on by sources holds of every variable. -/
theorem Acyclic.storage_induction (acyclic : graph.Acyclic) {motive : VarId → Prop}
    (owner : ∀ var, graph.storageSource? var = none → motive var)
    (lodger : ∀ var source, graph.LivesIn var source → motive source → motive var)
    (var : VarId) : motive var := by
  have within : ∀ steps var, graph.storageSource? (graph.aliasRootWithin steps var) = none →
      motive var := by
    intro steps
    induction steps with
    | zero =>
      intro var ended
      exact owner var ended
    | succ steps ih =>
      intro var ended
      cases found : graph.storageSource? var with
      | none => exact owner var found
      | some source =>
        simp only [aliasRootWithin, found] at ended
        exact lodger var source found (ih source ended)
  exact within graph.vars.size var (acyclic.storageSource?_aliasRoot var)

end ArrayGraph.Dataflow
