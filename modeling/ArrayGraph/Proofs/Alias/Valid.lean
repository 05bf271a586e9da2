import ArrayGraph.Proofs.Alias.Contracts

/-!
# Which graphs are valid

A graph is valid if every node may overwrite what it overwrites, and no node has to come after
itself: a node comes after those it reads from, and after those that read storage before it
overwrites it. Both are about the live nodes and the variables that are read, so further variables
and nodes that nothing reads make no difference. A graph without destructive nodes is valid if it
has no cycle.
-/

namespace ArrayGraph

open Relation

namespace Checked

variable {ε β γ : Type}

/-- A computation that may fail with an error, but not because a precondition is broken. -/
def Faultless (computation : Checked ε β) : Prop :=
  ∀ broken, computation ≠ Except.error (Failure.fault broken)

theorem faultless_ok (value : β) : Faultless (Except.ok value : Checked ε β) :=
  fun _ same => by cases same

theorem faultless_raise (cause : ε) : Faultless (raise cause : Checked ε β) :=
  fun _ same => by cases same

theorem Faultless.bind {first : Checked ε β} {next : β → Checked ε γ} (faultless : Faultless first)
    (rest : ∀ value, first = Except.ok value → Faultless (next value)) :
    Faultless (first >>= next) := by
  intro broken
  cases answer : first with
  | ok value => exact rest value answer broken
  | error failure =>
    intro same
    cases same
    exact faultless broken answer

theorem faultless_foldlM {items : List γ} {round : β → γ → Checked ε β}
    (each : ∀ state item, Faultless (round state item)) (state : β) :
    Faultless (items.foldlM round state) := by
  induction items generalizing state with
  | nil => exact faultless_ok state
  | cons item rest ih =>
    rw [List.foldlM_cons]
    exact (each state item).bind fun next _ => ih next

end Checked

namespace Dataflow

variable {α : Type} {graph later extended : Dataflow α} {var root : VarId} {id : NodeId}

/-- A node comes after another one because it reads from it, or because it overwrites storage that
the other one reads. -/
def Follows (graph : Dataflow α) (later earlier : NodeId) : Prop :=
  graph.ReadsFrom later earlier ∨
    ∃ root, graph.Overwrites later root ∧ graph.MustPrecede earlier later root

theorem leads_dependencies {orderings : Orderings} (before : ∀ earlier later,
    earlier ∈ orderings.before later ↔
      ∃ root, graph.Overwrites later root ∧ graph.MustPrecede earlier later root) :
    Leads (graph.dependencies orderings) = graph.Follows := by
  funext later earlier
  apply propext
  rw [Leads, mem_dependencies, before, Follows]
  apply or_congr_right
  constructor
  · exact fun both => both.1
  · rintro ⟨root, overwrites, different, member, observes, required⟩
    refine ⟨⟨root, overwrites, different, member, observes, required⟩, ?_⟩
    rcases observes with ⟨node, live, _⟩
    exact mem_liveIds.mpr ⟨node, live⟩

theorem Safe.precedes_of_follows {order : List NodeId} {later earlier : NodeId}
    (safe : graph.Safe order) (follows : graph.Follows later earlier) :
    Precedes order earlier later := by
  rcases follows with reads | ⟨root, overwrites, required⟩
  · exact safe.producers_first later earlier reads
  · exact safe.precedes_of_mustPrecede overwrites required

theorem not_overwrites_of_not_hasDestroyers (free : graph.hasDestroyers = false) :
    ¬graph.Overwrites id root := by
  rintro ⟨node, live, target, written, _⟩
  have destructive := isDestructive_of_overwritten written
  rw [hasDestroyers_eq_false_iff.mp free id node live] at destructive
  cases destructive

theorem mem_inputs_of_overwritten {node : Node α} {target : VarId}
    (written : target ∈ overwritten node) : target ∈ node.inputs := by
  rcases List.mem_filterMap.mp written with ⟨_, _, found⟩
  exact List.mem_of_getElem? found

theorem Observes.isRead {reader : NodeId} (observes : graph.Observes reader var) :
    graph.IsRead var := by
  rcases observes with ⟨node, live, _, input⟩
  exact Or.inr ⟨reader, node, live, input⟩

section Resembles

/-- Two graphs with the same live nodes and outputs in which the variables that are read come from
the same nodes and live in the same storage. -/
structure Resembles (graph later : Dataflow α) : Prop where
  node : ∀ id, later.node? id = graph.node? id
  outputs : later.outputs = graph.outputs
  producer : ∀ var, graph.IsRead var → later.producerId? var = graph.producerId? var
  aliasRoot : ∀ var, graph.IsRead var → later.aliasRoot var = graph.aliasRoot var
  protection : ∀ var, graph.IsRead var →
    later.isProtected (graph.aliasRoot var) = graph.isProtected (graph.aliasRoot var)

variable (resembles : graph.Resembles later)
include resembles

theorem Resembles.readsFrom : later.ReadsFrom = graph.ReadsFrom := by
  funext reader source
  apply propext
  rw [readsFrom_iff, readsFrom_iff, resembles.node]
  refine exists_congr fun node => and_congr_right fun live => exists_congr fun input =>
    and_congr_right fun member => ?_
  rw [resembles.producer input (Or.inr ⟨reader, node, live, member⟩)]

theorem Resembles.computedFrom (read : graph.IsRead var) :
    later.ComputedFrom var id ↔ graph.ComputedFrom var id := by
  rw [ComputedFrom, ComputedFrom, resembles.producer var read, resembles.readsFrom]

theorem Resembles.observes : later.Observes = graph.Observes := by
  funext reader member
  simp only [Observes, resembles.node]

theorem Resembles.overwrites : later.Overwrites = graph.Overwrites := by
  funext id root
  apply propext
  simp only [Overwrites, resembles.node]
  refine exists_congr fun node => and_congr_right fun live => exists_congr fun target =>
    and_congr_right fun written => ?_
  rw [resembles.aliasRoot target (Or.inr ⟨id, node, live, mem_inputs_of_overwritten written⟩)]

theorem Resembles.clear {destroyer : NodeId} (overwrites : graph.Overwrites destroyer root)
    (clear : graph.Clear destroyer root) : later.Clear destroyer root where
  unprotected := by
    rcases overwrites with ⟨node, live, target, written, rfl⟩
    rw [resembles.protection target (Or.inr ⟨destroyer, node, live, mem_inputs_of_overwritten written⟩)]
    exact clear.unprotected
  output member output same := by
    rw [resembles.outputs] at output
    have read : graph.IsRead member := Or.inl output
    rw [resembles.aliasRoot member read] at same
    exact (resembles.computedFrom read).mpr (clear.output member output same)
  reader reader member observes different same unread := by
    rw [resembles.observes] at observes
    have read := observes.isRead
    rw [resembles.aliasRoot member read] at same
    rw [resembles.computedFrom read] at unread
    rw [resembles.readsFrom, resembles.overwrites]
    exact clear.reader reader member observes different same unread

theorem Resembles.follows : later.Follows = graph.Follows := by
  funext last first
  apply propext
  rw [Follows, Follows, resembles.readsFrom, resembles.overwrites]
  refine or_congr_right (exists_congr fun root => and_congr_right fun _ => ?_)
  rw [MustPrecede, MustPrecede, resembles.observes]
  refine and_congr_right fun _ => exists_congr fun member => and_congr_right fun observes => ?_
  rw [resembles.aliasRoot member observes.isRead, resembles.computedFrom observes.isRead]

end Resembles

variable [Arithmetic α]

/-- The analysis accepts the graph. -/
def Valid (graph : Dataflow α) : Prop := ∃ orderings, graph.validate = Except.ok orderings

section Faultless

open Checked

theorem faultless_checkReader (graph : Dataflow α) (destroyer : Destroyer α) (root member : VarId)
    (client : Client) : Faultless (graph.checkReader destroyer root member client) := by
  cases client with
  | output index => exact faultless_raise _
  | node reader position =>
    simp only [checkReader]
    repeat' split
    all_goals first
      | exact faultless_ok _
      | exact faultless_raise _

theorem faultless_checkOverwrite (graph : Dataflow α) (destroyer : Destroyer α)
    (orderings : Orderings) (var : VarId) :
    Faultless (graph.checkOverwrite destroyer orderings var) := by
  simp only [checkOverwrite]
  split
  · exact faultless_raise _
  · apply faultless_foldlM
    rintro known ⟨member, client⟩
    refine (faultless_checkReader graph destroyer _ member client).bind fun reader _ => ?_
    cases reader with
    | none => exact faultless_ok _
    | some reader => exact faultless_ok _

theorem faultless_checkDestroyers (graph : Dataflow α) (orderings : Orderings) :
    Faultless (graph.liveNodes.foldlM (fun known (id, node) => graph.checkDestroyer known id node)
      orderings) := by
  refine faultless_foldlM ?_ _
  rintro known ⟨id, node⟩
  simp only [checkDestroyer]
  split
  · exact faultless_foldlM (fun _ _ => faultless_checkOverwrite graph _ _ _) known
  · exact faultless_ok known

/-- Whatever the analysis finds wrong, it finds it in the graph. -/
theorem faultless_validate (graph : Dataflow α) : Faultless graph.validate := by
  refine (faultless_checkDestroyers graph _).bind fun orderings _ => ?_
  cases graph.order orderings with
  | ok order => exact faultless_ok orderings
  | error failure => exact faultless_raise _

end Faultless

/-- A graph is valid if every node may overwrite what it overwrites and no node has to come after
itself. -/
theorem WellFormed.valid_iff (wellFormed : graph.WellFormed) : graph.Valid ↔
    (∀ destroyer root, graph.Overwrites destroyer root → graph.Clear destroyer root) ∧
      ∀ id, ¬TransGen graph.Follows id id := by
  constructor
  · rintro ⟨orderings, valid⟩
    rcases wellFormed.validate_eq_ok valid with ⟨clear, before, order, ordered⟩
    refine ⟨clear, ?_⟩
    rw [← leads_dependencies before]
    exact (respects_of_order ordered).acyclic
  · rintro ⟨clear, acyclic⟩
    rcases wellFormed.exists_orderings clear with ⟨orderings, before, validates⟩
    rw [← leads_dependencies before] at acyclic
    exact ⟨orderings, validates acyclic⟩

/-- A graph is valid if there is an order in which it can be run safely. -/
theorem WellFormed.valid_iff_safe (wellFormed : graph.WellFormed) :
    graph.Valid ↔ ∃ order, graph.Safe order := by
  constructor
  · rintro ⟨orderings, valid⟩
    rcases wellFormed.validate_eq_ok valid with ⟨clear, before, order, ordered⟩
    exact ⟨order, (safe_iff_respects clear before).mpr (respects_of_order ordered)⟩
  · rintro ⟨order, safe⟩
    refine wellFormed.valid_iff.mpr ⟨fun _ _ overwrites => safe.clear overwrites, fun id cycle => ?_⟩
    exact Precedes.irrefl safe.distinct
      (precedes_of_path safe.distinct (fun _ _ follows => safe.precedes_of_follows follows) cycle)

theorem WellFormed.acyclic_of_valid (wellFormed : graph.WellFormed) (valid : graph.Valid) :
    graph.Acyclic := by
  intro id cycle
  apply (wellFormed.valid_iff.mp valid).2 id
  exact TransGen.mono (fun _ _ reads => Or.inl reads) id id cycle

/-- Where nothing is overwritten, only cycles could be wrong. -/
theorem WellFormed.valid_of_not_hasDestroyers (wellFormed : graph.WellFormed)
    (acyclic : graph.Acyclic) (free : graph.hasDestroyers = false) : graph.Valid := by
  refine wellFormed.valid_iff.mpr ⟨?_, ?_⟩
  · exact fun _ _ overwrites => absurd overwrites (not_overwrites_of_not_hasDestroyers free)
  · intro id cycle
    apply acyclic id
    refine TransGen.mono ?_ id id cycle
    rintro later earlier (reads | ⟨root, overwrites, _⟩)
    · exact reads
    · exact absurd overwrites (not_overwrites_of_not_hasDestroyers free)

theorem Resembles.valid (resembles : graph.Resembles later) (wellFormed : graph.WellFormed)
    (wellFormed' : later.WellFormed) (valid : graph.Valid) : later.Valid := by
  rcases wellFormed.valid_iff.mp valid with ⟨clear, acyclic⟩
  refine wellFormed'.valid_iff.mpr ⟨?_, ?_⟩
  · intro destroyer root overwrites
    rw [resembles.overwrites] at overwrites
    exact resembles.clear overwrites (clear destroyer root overwrites)
  · rw [resembles.follows]
    exact acyclic

section Extend

/-- What is computed from what does not change with additions. -/
theorem Extends.computedFrom_iff (formed : graph.Formed) (extend : graph.Extends extended)
    (known : var.index < graph.vars.size) :
    extended.ComputedFrom var id ↔ graph.ComputedFrom var id := by
  refine ⟨?_, extend.computedFrom formed known⟩
  rintro ⟨producer, produced, path⟩
  rw [extend.producerId?_eq formed known] at produced
  -- All nodes on the way are old ones.
  have old : (∃ node, graph.node? id = some node) ∧
      ReflTransGen graph.ReadsFrom producer id := by
    induction path with
    | refl => exact ⟨live_of_producerId? produced, ReflTransGen.refl⟩
    | tail _ reads ih =>
      rcases ih with ⟨⟨node, live⟩, before⟩
      rcases readsFrom_iff.mp reads with ⟨content, contentLive, input, member, inputProduced⟩
      rw [extend.live live] at contentLive
      cases contentLive
      have inputKnown := formed.read_known input (Or.inr ⟨_, node, live, member⟩)
      rw [extend.producerId?_eq formed inputKnown] at inputProduced
      exact ⟨live_of_producerId? inputProduced,
        before.tail (readsFrom_iff.mpr ⟨node, live, input, member, inputProduced⟩)⟩
  exact ⟨producer, produced, old.2⟩

/-- Removing what was added for nothing leaves the nodes that were there. -/
theorem Pruned.node?_prune_extend (pruned : graph.Pruned) (formed : graph.Formed)
    (extend : graph.Extends extended) (id : NodeId) :
    extended.prune.node? id = graph.node? id := by
  have needed : id ∈ extended.ancestorsOf extended.outputs ↔
      id ∈ graph.ancestorsOf graph.outputs := by
    rw [mem_ancestorsOf, mem_ancestorsOf, extend.outputs]
    refine exists_congr fun output => and_congr_right fun member => ?_
    exact extend.computedFrom_iff formed (formed.read_known output (Or.inl member))
  apply Option.ext
  intro node
  rw [node?_prune, needed]
  constructor
  · rintro ⟨live, member⟩
    rcases mem_ancestorsOf.mp member with ⟨output, _, computed⟩
    rcases computed.live with ⟨content, contentLive⟩
    rw [extend.live contentLive] at live
    rwa [live] at contentLive
  · exact fun live => ⟨extend.live live, pruned id node live⟩

theorem Pruned.resembles_extend (pruned : graph.Pruned) (formed : graph.Formed)
    (acyclic : graph.Acyclic) (extend : graph.Extends extended) (acyclic' : extended.Acyclic) :
    graph.Resembles extended.prune := by
  have same := pruned.node?_prune_extend formed extend
  have retains : graph.Retains extended.prune := {
    vars := extend.vars
    nodes := by simpa [Dataflow.prune] using extend.nodes_size
    old := fun id node _ live => same id ▸ live
    kept := fun id node live _ => ⟨(same id).trans live, pruned_prune id node ((same id).trans live)⟩ }
  have needed : ∀ var, graph.IsRead var → graph.Needed var := by
    rintro var (output | ⟨id, node, live, input⟩)
    · exact needed_output formed output
    · exact needed_input formed live (pruned id node live) input
  refine ⟨same, extend.outputs, ?_, ?_, ?_⟩
  · intro var read
    simp only [producerId?, retains.producer?_eq formed (needed var read)]
  · intro var read
    exact retains.aliasRoot_eq formed acyclic acyclic'.prune (needed var read)
  · intro var read
    have known := formed.aliasRoot_known acyclic (formed.read_known var read)
    have sameVar := extend.var_eq known
    have guarded : extended.prune.guarded = graph.guarded := extend.guarded
    have inputs : extended.prune.inputs = graph.inputs := extend.inputs
    have kept : extended.prune.var (graph.aliasRoot var) = graph.var (graph.aliasRoot var) := sameVar
    simp only [isProtected, isFixed, guarded, inputs, kept]

end Extend

end Dataflow

end ArrayGraph
