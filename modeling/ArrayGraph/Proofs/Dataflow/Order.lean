import ArrayGraph.Dataflow.Order
import ArrayGraph.Proofs.Checked
import ArrayGraph.Proofs.Dataflow.Basic

/-!
# Orders of the nodes

The depth-first search of `order` answers with a list in which every node comes after those it
needs, and it has an answer whenever no node needs itself. The first half is an invariant of the
list of finished nodes; the second rests on the path: its nodes are distinct and all need the node
under visit, so that meeting one of them again would close a cycle, and the path never gets longer
than the list of nodes.
-/

namespace ArrayGraph

open Relation

theorem lookup_cons_ite {κ β : Type} [DecidableEq κ] {key other : κ} {entry : β}
    {rest : List (κ × β)} :
    ((other, entry) :: rest).lookup key = if key = other then some entry else rest.lookup key := by
  rw [List.lookup_cons]
  by_cases same : key = other
  · simp [same]
  · have different : (key == other) = false := by simpa using same
    simp [different, same]

theorem Orderings.mem_entries_of_mem_before {orderings : Orderings} {earlier later : NodeId}
    (required : earlier ∈ orderings.before later) :
    ∃ listed, (later, listed) ∈ orderings.entries ∧ earlier ∈ listed := by
  unfold before at required
  cases found : orderings.entries.lookup later with
  | none => simp [found] at required
  | some listed =>
    rw [found, Option.getD_some] at required
    rcases List.lookup_eq_some_iff.mp found with ⟨front, back, split, _⟩
    exact ⟨listed, by simp [split], required⟩

/-- One node comes before another in a list. -/
def Precedes (order : List NodeId) (earlier later : NodeId) : Prop :=
  ∃ front back, order = front ++ later :: back ∧ earlier ∈ front

/-- Every node in a list comes after the nodes it needs. -/
def Sequenced (dependencies : NodeId → List NodeId) (order : List NodeId) : Prop :=
  ∀ front node back, order = front ++ node :: back → ∀ earlier ∈ dependencies node, earlier ∈ front

section Precedes

variable {order : List NodeId} {first second : NodeId}

/-- Of two different nodes in a list, one comes first. -/
theorem precedes_or_precedes (firstMem : first ∈ order) (secondMem : second ∈ order)
    (different : first ≠ second) : Precedes order first second ∨ Precedes order second first := by
  rcases List.append_of_mem firstMem with ⟨front, back, split⟩
  rw [split] at secondMem
  rcases List.mem_append.mp secondMem with inFront | inBack
  · exact Or.inr ⟨front, back, split, inFront⟩
  · rcases List.mem_cons.mp inBack with same | inBack
    · exact absurd same.symm different
    · rcases List.append_of_mem inBack with ⟨middle, last, rfl⟩
      exact Or.inl ⟨front ++ first :: middle, last, by simp [split], by simp⟩

theorem Precedes.mem_front {front back : List NodeId} (distinct : order.Nodup)
    (split : order = front ++ second :: back) (before : Precedes order first second) :
    first ∈ front := by
  rcases before with ⟨front', back', split', member⟩
  rw [split'] at split
  rw [split', List.nodup_append, List.nodup_cons] at distinct
  have outsideFront : second ∉ front' := fun inside =>
    distinct.2.2 second inside second (by simp) rfl
  rcases (List.append_cons_inj_of_notMem outsideFront distinct.2.1.1).mp split with ⟨same, _⟩
  exact same ▸ member

theorem Precedes.asymm (distinct : order.Nodup) (before : Precedes order first second) :
    ¬Precedes order second first := by
  intro after
  rcases after with ⟨front, back, split, member⟩
  rcases List.append_of_mem member with ⟨start, middle, rfl⟩
  have splitEarlier : order = start ++ second :: (middle ++ first :: back) := by simp [split]
  have inStart : first ∈ start := before.mem_front distinct splitEarlier
  rw [split, List.nodup_append] at distinct
  exact distinct.2.2 first (by simp [inStart]) first (by simp) rfl

theorem Precedes.irrefl (distinct : order.Nodup) : ¬Precedes order first first :=
  fun before => before.asymm distinct before

theorem Precedes.trans {third : NodeId} (distinct : order.Nodup)
    (before : Precedes order first second) (after : Precedes order second third) :
    Precedes order first third := by
  rcases after with ⟨front, back, split, member⟩
  rcases List.append_of_mem member with ⟨start, middle, rfl⟩
  have splitEarlier : order = start ++ second :: (middle ++ third :: back) := by simp [split]
  exact ⟨_, back, split, by simp [before.mem_front distinct splitEarlier]⟩

/-- What has its earlier end first for each step has it first for a path. -/
theorem precedes_of_path {relation : NodeId → NodeId → Prop} (distinct : order.Nodup)
    (single : ∀ later earlier, relation later earlier → Precedes order earlier later)
    (path : TransGen relation second first) : Precedes order first second := by
  induction path with
  | single step => exact single _ _ step
  | tail _ step ih => exact (single _ _ step).trans distinct ih

end Precedes

section Visit

variable {dependencies : NodeId → List NodeId} {fuel : Nat} {path done finished : List NodeId}
  {node : NodeId}

/-- What the search adds to the finished nodes when it visits some more. -/
structure Finishes (dependencies : NodeId → List NodeId) (path done visited finished : List NodeId) :
    Prop where
  sequenced : Sequenced dependencies finished
  distinct : finished.Nodup
  kept : ∀ node ∈ done, node ∈ finished
  included : ∀ node ∈ visited, node ∈ finished
  needed : ∀ node ∈ finished, node ∈ done ∨
    node ∉ path ∧ ∃ origin ∈ visited, ReflTransGen (Leads dependencies) origin node

theorem sequenced_append_singleton (sequenced : Sequenced dependencies done)
    (complete : ∀ earlier ∈ dependencies node, earlier ∈ done) :
    Sequenced dependencies (done ++ [node]) := by
  intro front other back split earlier earlierMem
  rcases List.eq_nil_or_concat back with rfl | ⟨rest, last, rfl⟩
  · rcases List.append_inj' split rfl with ⟨rfl, same⟩
    simp only [List.cons.injEq, and_true] at same
    exact complete earlier (same ▸ earlierMem)
  · have split' : done ++ [node] = (front ++ other :: rest) ++ [last] := by simpa using split
    rcases List.append_inj' split' rfl with ⟨same, _⟩
    exact sequenced front other rest same earlier earlierMem

theorem Finishes.nil (sequenced : Sequenced dependencies done) (distinct : done.Nodup) :
    Finishes dependencies path done [] done :=
  ⟨sequenced, distinct, fun _ member => member, by simp, fun _ member => Or.inl member⟩

theorem Finishes.cons {middle rest : List NodeId}
    (first : Finishes dependencies path done [node] middle)
    (others : Finishes dependencies path middle rest finished) :
    Finishes dependencies path done (node :: rest) finished where
  sequenced := others.sequenced
  distinct := others.distinct
  kept other member := others.kept other (first.kept other member)
  included other member := by
    rcases List.mem_cons.mp member with rfl | inRest
    · exact others.kept other (first.included other (by simp))
    · exact others.included other inRest
  needed other member := by
    rcases others.needed other member with known | ⟨offPath, origin, originMem, reached⟩
    · rcases first.needed other known with known | ⟨offPath, origin, originMem, reached⟩
      · exact Or.inl known
      · rw [List.mem_singleton.mp originMem] at reached
        exact Or.inr ⟨offPath, node, by simp, reached⟩
    · exact Or.inr ⟨offPath, origin, by simp [originMem], reached⟩

theorem finishes_of_foldlM {step : List NodeId → NodeId → Option (List NodeId)}
    (visits : ∀ done node finished, step done node = some finished →
      Sequenced dependencies done → done.Nodup → Finishes dependencies path done [node] finished)
    {nodes : List NodeId} (answer : nodes.foldlM step done = some finished)
    (sequenced : Sequenced dependencies done) (distinct : done.Nodup) :
    Finishes dependencies path done nodes finished := by
  induction nodes generalizing done with
  | nil =>
    simp only [List.foldlM_nil, Option.pure_def, Option.some.injEq] at answer
    exact answer ▸ Finishes.nil sequenced distinct
  | cons node rest ih =>
    simp only [List.foldlM_cons, Option.bind_eq_bind, Option.bind_eq_some_iff] at answer
    rcases answer with ⟨middle, first, others⟩
    have visited := visits done node middle first sequenced distinct
    exact visited.cons (ih others visited.sequenced visited.distinct)

theorem finishes_of_visit (answer : Dataflow.visit dependencies fuel path done node = some finished)
    (sequenced : Sequenced dependencies done) (distinct : done.Nodup) :
    Finishes dependencies path done [node] finished := by
  induction fuel generalizing path done node finished with
  | zero => simp [Dataflow.visit] at answer
  | succ fuel ih =>
    simp only [Dataflow.visit] at answer
    split at answer
    · rename_i known
      simp only [Option.some.injEq] at answer
      subst answer
      exact ⟨sequenced, distinct, fun _ member => member, by simpa using known,
        fun _ member => Or.inl member⟩
    · rename_i unknown
      split at answer
      · cases answer
      · rename_i offPath
        simp only [Option.bind_eq_bind, Option.bind_eq_some_iff, Option.some.injEq] at answer
        rcases answer with ⟨before, visited, rfl⟩
        have finishes := finishes_of_foldlM
          (fun _ _ _ answer sequenced distinct => ih answer sequenced distinct)
          visited sequenced distinct
        have notBefore : node ∉ before := by
          intro member
          rcases finishes.needed node member with known | ⟨other, _⟩
          · exact unknown known
          · exact other (by simp)
        refine ⟨sequenced_append_singleton finishes.sequenced finishes.included, ?_, ?_, by simp, ?_⟩
        · rw [List.nodup_append]
          refine ⟨finishes.distinct, by simp, ?_⟩
          intro first firstMem second secondMem same
          rw [List.mem_singleton] at secondMem
          exact notBefore (secondMem ▸ same ▸ firstMem)
        · intro other member
          exact List.mem_append_left _ (finishes.kept other member)
        · intro other member
          rcases List.mem_append.mp member with member | member
          · rcases finishes.needed other member with known | ⟨apart, origin, originMem, reached⟩
            · exact Or.inl known
            · refine Or.inr ⟨fun onPath => apart (by simp [onPath]), node, by simp, ?_⟩
              exact ReflTransGen.head originMem reached
          · rw [List.mem_singleton] at member
            subst member
            exact Or.inr ⟨offPath, other, by simp, ReflTransGen.refl⟩

theorem isSome_foldlM {β γ : Type} {step : γ → β → Option γ} {items : List β}
    (total : ∀ state, ∀ item ∈ items, (step state item).isSome) (start : γ) :
    (items.foldlM step start).isSome := by
  induction items generalizing start with
  | nil => simp
  | cons item rest ih =>
    rcases Option.isSome_iff_exists.mp (total start item (by simp)) with ⟨next, found⟩
    rw [List.foldlM_cons, found]
    exact ih (fun state other member => total state other (by simp [member])) next

/-- Without cycles the search has an answer. -/
theorem isSome_visit {points : List NodeId}
    (within : ∀ origin, ∀ target ∈ dependencies origin, target ∈ points)
    (acyclic : ∀ node, ¬TransGen (Leads dependencies) node node)
    (nodeWithin : node ∈ points) (pathWithin : ∀ other ∈ path, other ∈ points)
    (distinct : path.Nodup) (leads : ∀ other ∈ path, TransGen (Leads dependencies) other node)
    (enough : points.length + 1 ≤ fuel + path.length) :
    (Dataflow.visit dependencies fuel path done node).isSome := by
  induction fuel generalizing path done node with
  | zero =>
    have short := (distinct.subperm pathWithin).length_le
    omega
  | succ fuel ih =>
    simp only [Dataflow.visit]
    split
    · simp
    · split
      · rename_i onPath
        exact absurd (leads node onPath) (acyclic node)
      · rename_i offPath
        have total : ((dependencies node).foldlM
            (Dataflow.visit dependencies fuel (node :: path)) done).isSome := by
          apply isSome_foldlM
          intro state target targetMem
          apply ih (within node target targetMem)
          · intro other otherMem
            rcases List.mem_cons.mp otherMem with rfl | inPath
            · exact nodeWithin
            · exact pathWithin other inPath
          · exact List.nodup_cons.mpr ⟨offPath, distinct⟩
          · intro other otherMem
            rcases List.mem_cons.mp otherMem with rfl | inPath
            · exact TransGen.single targetMem
            · exact TransGen.tail (leads other inPath) targetMem
          · simp only [List.length_cons]
            omega
        rcases Option.isSome_iff_exists.mp total with ⟨before, found⟩
        simp [found]

end Visit

namespace Dataflow

variable {α : Type} {graph : Dataflow α} {orderings : Orderings} {order : List NodeId}

theorem mem_dependencies {id earlier : NodeId} :
    earlier ∈ graph.dependencies orderings id ↔
      graph.ReadsFrom id earlier ∨ earlier ∈ orderings.before id ∧ earlier ∈ graph.liveIds := by
  simp only [dependencies, List.mem_reverse, mem_sortNodes, List.mem_append, List.mem_filter,
    isLive_iff, mem_liveIds]
  constructor
  · rintro ⟨_, needed⟩
    exact needed
  · intro needed
    refine ⟨?_, needed⟩
    rcases needed with reads | ⟨_, node, live⟩
    · rcases ReadsFrom.live_source reads with ⟨node, live⟩
      exact lt_size_of_node? live
    · exact lt_size_of_node? live

/-- A list is a linear order of the live nodes in which every node comes after those it reads from
and after those that some constraints put before it. -/
structure Respects (graph : Dataflow α) (orderings : Orderings) (order : List NodeId) : Prop where
  complete : order.Perm graph.liveIds
  producers_first : ∀ reader source, graph.ReadsFrom reader source → Precedes order source reader
  earlier_first : ∀ later ∈ graph.liveIds, ∀ earlier ∈ orderings.before later,
    earlier ∈ graph.liveIds → Precedes order earlier later

theorem dependencies_live {id earlier : NodeId}
    (needed : earlier ∈ graph.dependencies orderings id) : earlier ∈ graph.liveIds := by
  rcases mem_dependencies.mp needed with reads | ⟨_, live⟩
  · exact mem_liveIds.mpr (ReadsFrom.live_source reads)
  · exact live

/-- The order that the search gives respects dependence and the constraints. -/
theorem respects_of_order (answer : graph.order orderings = Except.ok order) :
    graph.Respects orderings order := by
  simp only [Dataflow.order, Checked.bind_eq_ok_iff, Checked.orError_eq_ok_iff] at answer
  rcases answer with ⟨_, _, sorted⟩
  have finishes : Finishes (graph.dependencies orderings) [] [] graph.liveIds order :=
    finishes_of_foldlM (fun _ _ _ answer => finishes_of_visit answer) sorted
      (by intro front node back split; simp at split) List.nodup_nil
  have precedes : ∀ later ∈ graph.liveIds, ∀ earlier ∈ graph.dependencies orderings later,
      Precedes order earlier later := by
    intro later live earlier needed
    rcases List.append_of_mem (finishes.included later live) with ⟨front, back, split⟩
    exact ⟨front, back, split, finishes.sequenced front later back split earlier needed⟩
  refine ⟨?_, ?_, ?_⟩
  · rw [List.perm_ext_iff_of_nodup finishes.distinct nodup_liveIds]
    intro node
    constructor
    · intro member
      rcases finishes.needed node member with impossible | ⟨_, origin, originMem, reached⟩
      · simp at impossible
      · rcases ReflTransGen.cases_tail reached with rfl | ⟨middle, _, last⟩
        · exact originMem
        · exact dependencies_live last
    · exact finishes.included node
  · intro reader source reads
    exact precedes reader (mem_liveIds.mpr (ReadsFrom.live_reader reads)) source
      (mem_dependencies.mpr (Or.inl reads))
  · intro later live earlier required earlierLive
    exact precedes later live earlier (mem_dependencies.mpr (Or.inr ⟨required, earlierLive⟩))

/-- A list of the live nodes in which every node comes after those it reads from. -/
structure Topological (graph : Dataflow α) (order : List NodeId) : Prop where
  complete : order.Perm graph.liveIds
  producers_first : ∀ reader source, graph.ReadsFrom reader source → Precedes order source reader

theorem Respects.topological (respects : graph.Respects orderings order) : graph.Topological order :=
  ⟨respects.complete, respects.producers_first⟩

theorem Topological.distinct (topological : graph.Topological order) : order.Nodup :=
  topological.complete.nodup_iff.mpr nodup_liveIds

theorem Topological.mem_of_live (topological : graph.Topological order) {id : NodeId} {node : Node α}
    (live : graph.node? id = some node) : id ∈ order :=
  topological.complete.mem_iff.mpr (mem_liveIds.mpr ⟨node, live⟩)

theorem Respects.distinct (respects : graph.Respects orderings order) : order.Nodup :=
  respects.complete.nodup_iff.mpr nodup_liveIds

theorem Respects.mem_iff (respects : graph.Respects orderings order) {id : NodeId} :
    id ∈ order ↔ ∃ node, graph.node? id = some node :=
  respects.complete.mem_iff.trans mem_liveIds

/-- Whatever some order respects has no cycle. -/
theorem Respects.acyclic (respects : graph.Respects orderings order) (id : NodeId) :
    ¬TransGen (Leads (graph.dependencies orderings)) id id := by
  have single : ∀ later earlier, Leads (graph.dependencies orderings) later earlier →
      later ∈ graph.liveIds → Precedes order earlier later := by
    intro later earlier needed live
    rcases mem_dependencies.mp needed with reads | ⟨required, earlierLive⟩
    · exact respects.producers_first later earlier reads
    · exact respects.earlier_first later live earlier required earlierLive
  have forward : ∀ later earlier, TransGen (Leads (graph.dependencies orderings)) later earlier →
      later ∈ graph.liveIds → Precedes order earlier later := by
    intro later earlier path
    induction path using TransGen.head_induction_on with
    | single needed => exact single _ _ needed
    | head needed _ ih =>
      intro live
      exact (ih (dependencies_live needed)).trans respects.distinct (single _ _ needed live)
  intro cycle
  have live : id ∈ graph.liveIds := by
    rcases TransGen.tail'_iff.mp cycle with ⟨_, _, last⟩
    exact dependencies_live last
  exact Precedes.irrefl respects.distinct (forward id id cycle live)

/-- A graph whose nodes can be ordered has no cycle. -/
theorem acyclic_of_order (answer : graph.order orderings = Except.ok order) : graph.Acyclic := by
  intro id cycle
  apply (respects_of_order answer).acyclic id
  exact TransGen.mono (fun _ _ reads => mem_dependencies.mpr (Or.inl reads)) id id cycle

theorem checkOrderings_eq_ok (known : ∀ later ∈ graph.liveIds, ∀ earlier ∈ orderings.before later,
    earlier.index < graph.nodes.size) : graph.checkOrderings orderings = Except.ok () := by
  rw [checkOrderings, Checked.forM_eq_ok_iff]
  rintro ⟨later, node⟩ member
  rw [Checked.forM_eq_ok_iff]
  intro earlier required
  have live := mem_liveIds.mpr ⟨node, mem_liveNodes.mp member⟩
  simp [requireNode, known later live earlier required]

/-- Constraints that speak of nodes of the graph are met, or they are refused as cyclic. -/
theorem order_cases (known : ∀ later ∈ graph.liveIds, ∀ earlier ∈ orderings.before later,
    earlier.index < graph.nodes.size) :
    (∃ order, graph.order orderings = Except.ok order) ∨
      graph.order orderings = Checked.raise .cyclicSchedule := by
  simp only [Dataflow.order, checkOrderings_eq_ok known, Checked.ok_bind]
  generalize (List.foldlM _ _ _ : Option (List NodeId)) = sorted
  cases sorted with
  | none => exact Or.inr rfl
  | some order => exact Or.inl ⟨order, rfl⟩

/-- Constraints that speak of nodes of the graph and close no cycle can be met. -/
theorem exists_order (known : ∀ later ∈ graph.liveIds, ∀ earlier ∈ orderings.before later,
      earlier.index < graph.nodes.size)
    (acyclic : ∀ id, ¬TransGen (Leads (graph.dependencies orderings)) id id) :
    ∃ order, graph.order orderings = Except.ok order := by
  have total : (graph.liveIds.foldlM
      (visit (graph.dependencies orderings) (graph.nodes.size + 1) []) []).isSome := by
    apply isSome_foldlM
    intro state node nodeMem
    have within : ∀ origin, ∀ target ∈ graph.dependencies orderings origin,
        target ∈ graph.nodeIds := by
      intro origin target needed
      rcases mem_liveIds.mp (dependencies_live needed) with ⟨content, live⟩
      exact mem_nodeIds.mpr (lt_size_of_node? live)
    rcases mem_liveIds.mp nodeMem with ⟨content, live⟩
    apply isSome_visit within acyclic (mem_nodeIds.mpr (lt_size_of_node? live))
    · simp
    · exact List.nodup_nil
    · simp
    · simp
  rcases Option.isSome_iff_exists.mp total with ⟨order, found⟩
  refine ⟨order, ?_⟩
  simp only [Dataflow.order, Checked.bind_eq_ok_iff, Checked.orError_eq_ok_iff]
  exact ⟨(), checkOrderings_eq_ok known, found⟩

section Exactness

/-- A live node has to come after another one: it reads from it, or the constraints ask for it. -/
def MustFollow (graph : Dataflow α) (orderings : Orderings) (later earlier : NodeId) : Prop :=
  graph.ReadsFrom later earlier ∨
    graph.isLive later ∧ graph.isLive earlier ∧ earlier ∈ orderings.before later

theorem MustFollow.leads {later earlier : NodeId} (follows : graph.MustFollow orderings later earlier) :
    Leads (graph.dependencies orderings) later earlier := by
  rcases follows with reads | ⟨_, live, required⟩
  · exact mem_dependencies.mpr (Or.inl reads)
  · exact mem_dependencies.mpr (Or.inr ⟨required, mem_liveIds.mpr (isLive_iff.mp live)⟩)

/-- The search meets a cycle only among live nodes: all that it goes to are live. -/
theorem exists_cycle_iff : (∃ id, TransGen (graph.MustFollow orderings) id id) ↔
    ∃ id, TransGen (Leads (graph.dependencies orderings)) id id := by
  constructor
  · rintro ⟨id, cycle⟩
    exact ⟨id, TransGen.mono (fun _ _ follows => follows.leads) id id cycle⟩
  · rintro ⟨id, cycle⟩
    have live : graph.isLive id := by
      rcases TransGen.tail'_iff.mp cycle with ⟨_, _, last⟩
      exact isLive_iff.mpr (mem_liveIds.mp (dependencies_live last))
    have follows : ∀ later earlier, graph.isLive later →
        Leads (graph.dependencies orderings) later earlier →
          graph.MustFollow orderings later earlier ∧ graph.isLive earlier := by
      intro later earlier laterLive needed
      have earlierLive := isLive_iff.mpr (mem_liveIds.mp (dependencies_live needed))
      rcases mem_dependencies.mp needed with reads | ⟨required, _⟩
      · exact ⟨Or.inl reads, earlierLive⟩
      · exact ⟨Or.inr ⟨laterLive, earlierLive, required⟩, earlierLive⟩
    have path : ∀ last, TransGen (Leads (graph.dependencies orderings)) id last →
        TransGen (graph.MustFollow orderings) id last ∧ graph.isLive last := by
      intro last path
      induction path with
      | single needed => exact (follows _ _ live needed).imp_left TransGen.single
      | tail _ needed ih => exact (follows _ _ ih.2 needed).imp_left ih.1.tail
    exact ⟨id, (path id cycle).1⟩

/-- The nodes of a graph are refused as cyclic exactly if a live node has to come after itself.
Otherwise the answer lists every live node once, after all nodes that it has to come after. -/
theorem order_exact (graph : Dataflow α) (orderings : Orderings)
    (known : ∀ later, ∀ earlier ∈ orderings.before later, earlier.index < graph.nodes.size) :
    (graph.order orderings = Checked.raise .cyclicSchedule ↔
        ∃ id, TransGen (graph.MustFollow orderings) id id) ∧
      ((¬∃ id, TransGen (graph.MustFollow orderings) id id) →
        ∃ order, graph.order orderings = Except.ok order ∧ order.Nodup ∧
          (∀ id, id ∈ order ↔ graph.isLive id) ∧
          ∀ later earlier, graph.MustFollow orderings later earlier →
            Precedes order earlier later) := by
  have total : (¬∃ id, TransGen (graph.MustFollow orderings) id id) →
      ∃ order, graph.order orderings = Except.ok order := by
    rw [exists_cycle_iff, not_exists]
    exact exists_order fun later _ => known later
  refine ⟨⟨fun refused => ?_, fun cycle => ?_⟩, fun acyclic => ?_⟩
  · by_contra acyclic
    rcases total acyclic with ⟨order, answer⟩
    rw [refused] at answer
    exact Checked.raise_ne_ok _ _ answer
  · rcases order_cases fun later _ => known later with ⟨order, answer⟩ | refused
    · rcases exists_cycle_iff.mp cycle with ⟨id, cycle⟩
      exact absurd cycle ((respects_of_order answer).acyclic id)
    · exact refused
  · rcases total acyclic with ⟨order, answer⟩
    have respects := respects_of_order answer
    refine ⟨order, answer, respects.distinct, fun id => ?_, fun later earlier follows => ?_⟩
    · rw [respects.mem_iff, isLive_iff]
    · rcases follows with reads | ⟨laterLive, earlierLive, required⟩
      · exact respects.producers_first later earlier reads
      · exact respects.earlier_first later (mem_liveIds.mpr (isLive_iff.mp laterLive)) earlier
          required (mem_liveIds.mpr (isLive_iff.mp earlierLive))

/-- A graph with two nodes that read one vector, and the place of a removed third one. -/
def negatedBesideExponential : Dataflow Float where
  vars := #[⟨ArrayType.ofRank .float64 1, .input, some "x"⟩,
    ⟨ArrayType.ofRank .float64 1, .output ⟨0⟩ 0, none⟩,
    ⟨ArrayType.ofRank .float64 1, .output ⟨1⟩ 0, none⟩,
    ⟨ArrayType.ofRank .float64 1, .output ⟨2⟩ 0, none⟩]
  nodes := #[some ⟨.elementwise .neg none, [⟨0⟩], [⟨1⟩]⟩,
    some ⟨.elementwise .exp none, [⟨0⟩], [⟨2⟩]⟩, none]
  inputs := [⟨0⟩]
  outputs := [⟨1⟩, ⟨2⟩]
  guarded := []

/-- The negation after the exponential and after the removed node, and that one after itself. -/
def exponentialFirst : Orderings := ⟨[(⟨0⟩, [⟨1⟩, ⟨2⟩]), (⟨2⟩, [⟨0⟩, ⟨2⟩])]⟩

/-- The same, and the exponential after itself. -/
def exponentialAfterItself : Orderings := ⟨[(⟨0⟩, [⟨1⟩]), (⟨1⟩, [⟨1⟩])]⟩

theorem order_exact_negatedBesideExponential :
    (∀ orderings ∈ [exponentialFirst, exponentialAfterItself], ∀ later,
        ∀ earlier ∈ orderings.before later,
          earlier.index < negatedBesideExponential.nodes.size) ∧
      (∃ order, negatedBesideExponential.order exponentialFirst = Except.ok order ∧ order.Nodup ∧
        Precedes order ⟨1⟩ ⟨0⟩) ∧
      negatedBesideExponential.order exponentialAfterItself = Checked.raise .cyclicSchedule := by
  have known : ∀ orderings ∈ [exponentialFirst, exponentialAfterItself], ∀ later,
      ∀ earlier ∈ orderings.before later,
        earlier.index < negatedBesideExponential.nodes.size := by
    have listed : ∀ orderings ∈ [exponentialFirst, exponentialAfterItself],
        ∀ entry ∈ orderings.entries, ∀ earlier ∈ entry.2,
          earlier.index < negatedBesideExponential.nodes.size := by decide
    intro orderings member later earlier required
    rcases Orderings.mem_entries_of_mem_before required with ⟨before, entry, earlierMem⟩
    exact listed orderings member _ entry earlier earlierMem
  have exact := order_exact negatedBesideExponential exponentialFirst (known _ (by simp))
  have exact' := order_exact negatedBesideExponential exponentialAfterItself (known _ (by simp))
  have answer : negatedBesideExponential.order exponentialFirst = Except.ok [⟨1⟩, ⟨0⟩] := rfl
  refine ⟨known, ?_, ?_⟩
  · have acyclic : ¬∃ id, TransGen (negatedBesideExponential.MustFollow exponentialFirst) id id := by
      rw [← exact.1, answer]
      exact (Checked.raise_ne_ok _ _).symm
    rcases exact.2 acyclic with ⟨order, ordered, distinct, _, precedes⟩
    exact ⟨order, ordered, distinct, precedes ⟨0⟩ ⟨1⟩ (Or.inr (by decide))⟩
  · exact exact'.1.mpr ⟨⟨1⟩, TransGen.single (Or.inr (by decide))⟩

end Exactness

end Dataflow

end ArrayGraph
