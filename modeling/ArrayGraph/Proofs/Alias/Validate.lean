import ArrayGraph.Alias
import ArrayGraph.Proofs.Dataflow.Order

/-!
# The alias analysis is exact

An order of the live nodes is safe if no node reads storage after another one has overwritten it,
unless what it reads was computed from the overwritten contents. The analysis accepts exactly the
graphs that have a safe order, and its orderings describe all of them.

The proof reads the analysis off as a condition on the graph, `Clear`, and a relation between
nodes, `MustPrecede`, and then argues about those two only. The one step that is not a matter of
unfolding concerns two nodes that overwrite one storage: in a safe order one of them comes first,
so what the other overwrites must have been computed from it, which makes it an ancestor.
-/

namespace ArrayGraph

open Relation

namespace Orderings

variable {orderings : Orderings} {node earlier later other : NodeId}

theorem lookup_setEntry {predecessors : List NodeId} {entries : List (NodeId × List NodeId)} :
    (setEntry node predecessors entries).lookup later =
      if later = node then some predecessors else entries.lookup later := by
  induction entries with
  | nil => simp [setEntry, lookup_cons_ite]
  | cons entry rest ih =>
    rcases entry with ⟨head, listed⟩
    simp only [setEntry]
    split
    · rename_i same
      subst same
      simp only [lookup_cons_ite]
      split <;> simp_all
    · rename_i different
      split
      · simp only [lookup_cons_ite]
      · simp only [lookup_cons_ite, ih]
        by_cases same : later = node
        · simp [same, different]
        · simp [same]

/-- A constraint that is added comes on top of those that are there. -/
theorem mem_before_insert :
    other ∈ (orderings.insert node earlier).before later ↔
      later = node ∧ other = earlier ∨ other ∈ orderings.before later := by
  unfold insert
  simp only [before, lookup_setEntry]
  split
  · rename_i same
    subst same
    simp [mem_insertSorted]
  · rename_i different
    simp [different]

/-- A check succeeds under a condition, whatever is known before, and adds fixed constraints. -/
structure Collects {ε : Type} (check : Orderings → Checked ε Orderings) (good : Prop)
    (adds : NodeId → NodeId → Prop) : Prop where
  succeeds : ∀ known, (∃ next, check known = Except.ok next) ↔ good
  before : ∀ known next, check known = Except.ok next → ∀ earlier later,
    earlier ∈ next.before later ↔ earlier ∈ known.before later ∨ adds earlier later

theorem Collects.foldlM {ε β : Type} (items : List β) {check : Orderings → β → Checked ε Orderings}
    {good : β → Prop} {adds : β → NodeId → NodeId → Prop}
    (each : ∀ item ∈ items, Collects (check · item) (good item) (adds item)) :
    Collects (fun known => items.foldlM check known) (∀ item ∈ items, good item)
      (fun earlier later => ∃ item ∈ items, adds item earlier later) := by
  induction items with
  | nil =>
    refine ⟨fun known => ⟨fun _ => by simp, fun _ => ⟨known, rfl⟩⟩, ?_⟩
    intro known next run
    cases run
    simp
  | cons head rest ih =>
    have first := each head (by simp)
    have others := ih fun item member => each item (by simp [member])
    constructor
    · intro known
      simp only [List.foldlM_cons, Checked.bind_eq_ok_iff, List.mem_cons, forall_eq_or_imp]
      constructor
      · rintro ⟨next, middle, run, runRest⟩
        exact ⟨(first.succeeds known).mp ⟨middle, run⟩, (others.succeeds middle).mp ⟨next, runRest⟩⟩
      · rintro ⟨goodHead, goodRest⟩
        rcases (first.succeeds known).mpr goodHead with ⟨middle, run⟩
        rcases (others.succeeds middle).mpr goodRest with ⟨next, runRest⟩
        exact ⟨next, middle, run, runRest⟩
    · intro known next run earlier later
      simp only [List.foldlM_cons, Checked.bind_eq_ok_iff] at run
      rcases run with ⟨middle, run, runRest⟩
      rw [others.before middle next runRest, first.before known middle run]
      simp only [List.mem_cons, exists_eq_or_imp, or_assoc]

end Orderings

namespace Dataflow

variable {α : Type} {graph : Dataflow α}

/-- A live node overwrites the storage that a variable owns. -/
def Overwrites (graph : Dataflow α) (id : NodeId) (root : VarId) : Prop :=
  ∃ node, graph.node? id = some node ∧ ∃ target ∈ overwritten node, graph.aliasRoot target = root

/-- A live node that is more than a view reads a variable. -/
def Observes (graph : Dataflow α) (reader : NodeId) (member : VarId) : Prop :=
  ∃ node, graph.node? reader = some node ∧ ¬node.op.isPureView ∧ member ∈ node.inputs

/-- A linear order of the live nodes in which nobody reads storage that has been overwritten,
except through what was computed from the new contents. -/
structure Safe (graph : Dataflow α) (order : List NodeId) : Prop where
  complete : order.Perm graph.liveIds
  producers_first : ∀ reader source, graph.ReadsFrom reader source → Precedes order source reader
  unprotected : ∀ destroyer root, graph.Overwrites destroyer root → ¬graph.isProtected root
  /-- What a node reads comes from every other node that has overwritten its storage by then. -/
  readers_current : ∀ reader member, graph.Observes reader member →
    ∀ destroyer, destroyer ≠ reader → graph.Overwrites destroyer (graph.aliasRoot member) →
      Precedes order destroyer reader → graph.ComputedFrom member destroyer
  /-- An output comes from every node that overwrites its storage. -/
  outputs_current : ∀ member ∈ graph.outputs, ∀ destroyer,
    graph.Overwrites destroyer (graph.aliasRoot member) → graph.ComputedFrom member destroyer

/-- What the analysis asks of a node and the storage it overwrites: it is not protected, and no
output and no descendant reads what was there before. Another node that overwrites the storage must
be an ancestor. -/
structure Clear (graph : Dataflow α) (destroyer : NodeId) (root : VarId) : Prop where
  unprotected : ¬graph.isProtected root
  output : ∀ member ∈ graph.outputs, graph.aliasRoot member = root →
    graph.ComputedFrom member destroyer
  reader : ∀ reader member, graph.Observes reader member → reader ≠ destroyer →
    graph.aliasRoot member = root → ¬graph.ComputedFrom member destroyer →
      ¬TransGen graph.ReadsFrom reader destroyer ∧
        (graph.Overwrites reader root → TransGen graph.ReadsFrom destroyer reader)

/-- A node reads storage as it was before another one overwrites it. -/
def MustPrecede (graph : Dataflow α) (earlier destroyer : NodeId) (root : VarId) : Prop :=
  earlier ≠ destroyer ∧ ∃ member, graph.Observes earlier member ∧ graph.aliasRoot member = root ∧
    ¬graph.ComputedFrom member destroyer

section Unfolding

theorem mem_clients_output {member : VarId} {index : Nat} :
    Client.output index ∈ graph.clients member ↔ graph.outputs[index]? = some member := by
  simp only [clients, positions, List.mem_append, List.mem_flatMap, List.mem_map,
    List.mem_filterMap, Prod.exists, List.mk_mem_zipIdx_iff_getElem?, reduceCtorEq, and_false,
    exists_false, false_or, Client.output.injEq, exists_eq_right]
  constructor
  · rintro ⟨other, position, found, same⟩
    split at same
    · rename_i eq
      cases same
      exact eq ▸ found
    · cases same
  · intro found
    exact ⟨member, index, found, by simp⟩

theorem mem_clients_node {member : VarId} {reader : NodeId} {position : Nat} :
    Client.node reader position ∈ graph.clients member ↔
      ∃ node, graph.node? reader = some node ∧ node.inputs[position]? = some member := by
  simp only [clients, positions, List.mem_append, List.mem_flatMap, List.mem_map,
    List.mem_filterMap, Prod.exists, List.mk_mem_zipIdx_iff_getElem?, mem_liveNodes, reduceCtorEq,
    and_false, exists_false, or_false, Client.node.injEq]
  constructor
  · rintro ⟨other, node, live, place, ⟨var, found, at', same⟩, rfl, rfl⟩
    split at same
    · rename_i eq
      cases same
      exact ⟨node, live, eq ▸ at'⟩
    · cases same
  · rintro ⟨node, live, found⟩
    exact ⟨reader, node, live, position, ⟨member, position, found, by simp⟩, rfl, rfl⟩

theorem mem_viewTree {member root : VarId} :
    member ∈ graph.viewTree root ↔ member ∈ graph.liveVars ∧ graph.aliasRoot member = root := by
  simp only [viewTree, storageRoots, List.mem_map, List.mem_filter, Prod.exists, Prod.mk.injEq,
    decide_eq_true_eq]
  constructor
  · rintro ⟨other, owner, ⟨⟨third, live, rfl, rfl⟩, same⟩, rfl⟩
    exact ⟨live, same⟩
  · rintro ⟨live, same⟩
    exact ⟨member, graph.aliasRoot member, ⟨⟨member, live, rfl, rfl⟩, same⟩, rfl⟩

variable [Arithmetic α]

theorem WellFormed.mem_liveVars_of_isRead (wellFormed : graph.WellFormed) {member : VarId}
    (read : graph.IsRead member) : member ∈ graph.liveVars := by
  simp only [liveVars, List.mem_filter, mem_varIds, wellFormed.read_known member read,
    List.mem_append, List.mem_flatMap, Prod.exists, mem_liveNodes, decide_eq_true_eq, true_and]
  rcases read with output | ⟨id, node, live, input⟩
  · exact Or.inl (Or.inr output)
  · exact Or.inr ⟨id, node, live, Or.inl input⟩

/-- A destructive node as the analysis sees it. -/
abbrev destroyerOf (graph : Dataflow α) (id : NodeId) (node : Node α) : Destroyer α :=
  ⟨id, node, graph.descendants id, graph.ancestorsOf node.inputs⟩

theorem WellFormed.computedFrom_iff (wellFormed : graph.WellFormed) {member : VarId} {id : NodeId} :
    graph.ComputedFrom member id ↔ ∃ producer, graph.producerId? member = some producer ∧
      (producer = id ∨ producer ∈ graph.descendants id) := by
  simp only [ComputedFrom, wellFormed.mem_descendants_iff, reflTransGen_iff_eq_or_transGen]
  constructor
  · rintro ⟨producer, found, same | path⟩
    · exact ⟨producer, found, Or.inl same.symm⟩
    · exact ⟨producer, found, Or.inr path⟩
  · rintro ⟨producer, found, same | path⟩
    · exact ⟨producer, found, Or.inl same.symm⟩
    · exact ⟨producer, found, Or.inr path⟩

theorem WellFormed.mem_membersBefore_iff (wellFormed : graph.WellFormed) {id : NodeId}
    (node : Node α) {member root : VarId} :
    member ∈ graph.membersBefore (graph.destroyerOf id node) root ↔
      member ∈ graph.liveVars ∧ graph.aliasRoot member = root ∧ ¬graph.ComputedFrom member id := by
  rw [membersBefore, List.mem_filter, mem_viewTree, and_assoc, wellFormed.computedFrom_iff]
  cases produced : graph.producerId? member with
  | none => simp
  | some producer =>
    dsimp only [destroyerOf]
    simp only [ne_eq, Bool.and_eq_true, decide_eq_true_eq, Option.some.injEq, exists_eq_left',
      not_or]

omit [Arithmetic α] in
theorem mem_ancestorsOf_inputs {id reader : NodeId} {node : Node α}
    (live : graph.node? id = some node) :
    reader ∈ graph.ancestorsOf node.inputs ↔ TransGen graph.ReadsFrom id reader := by
  rw [mem_ancestorsOf, TransGen.head'_iff]
  constructor
  · rintro ⟨input, inputMem, producer, produced, path⟩
    exact ⟨producer, readsFrom_iff.mpr ⟨node, live, input, inputMem, produced⟩, path⟩
  · rintro ⟨producer, reads, path⟩
    rcases readsFrom_iff.mp reads with ⟨content, live', input, inputMem, produced⟩
    rw [live] at live'
    cases live'
    exact ⟨input, inputMem, producer, produced, path⟩

/-- A reader of storage that a node overwrites is no obstacle: it is no output, it does not come
after the node, and it overwrites the storage itself only if it comes before. -/
def Tolerates (graph : Dataflow α) (id : NodeId) (root : VarId) : Client → Prop
  | .output _ => False
  | .node reader _ => ∀ content, graph.node? reader = some content → ¬content.op.isPureView →
      reader ≠ id → ¬TransGen graph.ReadsFrom reader id ∧
        (graph.Overwrites reader root → TransGen graph.ReadsFrom id reader)

/-- A reader of storage that a node overwrites has to come before the node. -/
def Asks (graph : Dataflow α) (id earlier : NodeId) : Client → Prop
  | .output _ => False
  | .node reader _ => reader = earlier ∧ reader ≠ id ∧
      ∃ content, graph.node? reader = some content ∧ ¬content.op.isPureView

/-- What becomes of one reader of a variable whose storage a node overwrites. -/
theorem WellFormed.collects_reader (wellFormed : graph.WellFormed) {id reader : NodeId}
    {node content : Node α} {root member : VarId} {position : Nat}
    (live : graph.node? id = some node) (readerLive : graph.node? reader = some content) :
    Orderings.Collects
      (fun known => do
        match ← graph.checkReader (graph.destroyerOf id node) root member (.node reader position) with
        | some reader => Except.ok (known.insert id reader)
        | none => Except.ok known)
      (graph.Tolerates id root (.node reader position))
      (fun earlier later => later = id ∧ graph.Asks id earlier (.node reader position)) := by
  have overwrites : (overwritten content).any (graph.aliasRoot · = root) = true ↔
      graph.Overwrites reader root := by
    simp only [List.any_eq_true, decide_eq_true_eq, Overwrites, readerLive, Option.some.injEq,
      exists_eq_left']
  simp only [Tolerates, Asks, readerLive, Option.some.injEq, forall_eq', exists_eq_left']
  dsimp only [checkReader, destroyerOf]
  rw [readerLive]
  by_cases skipped : reader = id ∨ content.op.isPureView = true
  · have trivially : ¬(¬content.op.isPureView = true ∧ reader ≠ id) := by
      rcases skipped with same | view
      · simp [same]
      · simp [view]
    simp only [Bool.or_eq_true, decide_eq_true_eq, skipped, if_true, Checked.ok_bind]
    constructor
    · intro known
      simp only [Except.ok.injEq, exists_eq', true_iff]
      intro notView different
      exact absurd ⟨notView, different⟩ trivially
    · intro known next run earlier later
      cases run
      rw [and_comm] at trivially
      simp only [trivially, and_false, or_false]
  · simp only [Bool.or_eq_true, decide_eq_true_eq, skipped, if_false]
    rw [not_or] at skipped
    simp only [skipped, Bool.false_eq_true, not_false_eq_true, ne_eq, true_implies, and_true]
    by_cases descends : reader ∈ graph.descendants id
    · have descends' := wellFormed.mem_descendants_iff.mp descends
      simp only [descends, if_true, descends', not_true_eq_false, false_and]
      exact ⟨by simp [Checked.raise], by simp [Checked.raise]⟩
    · have descends' : ¬TransGen graph.ReadsFrom reader id :=
        fun path => descends (wellFormed.mem_descendants_iff.mpr path)
      simp only [descends, if_false, descends', not_false_eq_true, true_and]
      by_cases conflict : ((overwritten content).any (graph.aliasRoot · = root) &&
          decide (reader ∉ graph.ancestorsOf node.inputs)) = true
      · simp only [conflict, if_true]
        rw [Bool.and_eq_true, overwrites, decide_eq_true_eq, mem_ancestorsOf_inputs live] at conflict
        have refused : ¬(graph.Overwrites reader root → TransGen graph.ReadsFrom id reader) :=
          fun ancestor => conflict.2 (ancestor conflict.1)
        exact ⟨by simp [Checked.raise, refused], by simp [Checked.raise]⟩
      · rw [if_neg conflict]
        simp only [Checked.ok_bind]
        rw [Bool.and_eq_true, overwrites, decide_eq_true_eq, mem_ancestorsOf_inputs live] at conflict
        constructor
        · intro known
          simp only [Except.ok.injEq, exists_eq', true_iff]
          intro overwrites
          by_contra notAncestor
          exact conflict ⟨overwrites, notAncestor⟩
        · intro known next run earlier later
          cases run
          rw [Orderings.mem_before_insert, or_comm]
          exact or_congr_right (and_congr_right fun _ => eq_comm)

/-- A client reads a variable whose storage a node overwrites, and the variable is there before
the node. -/
def Meets (graph : Dataflow α) (id : NodeId) (root member : VarId) (client : Client) : Prop :=
  client ∈ graph.clients member ∧ graph.aliasRoot member = root ∧ ¬graph.ComputedFrom member id

/-- The clients that a node is checked against are those that meet the storage it overwrites. -/
theorem WellFormed.mem_clientsBefore_iff (wellFormed : graph.WellFormed) {id : NodeId}
    {node : Node α} {root member : VarId} {client : Client} :
    (member, client) ∈ (graph.membersBefore (graph.destroyerOf id node) root).flatMap
        (fun member => (graph.clients member).map fun client => (member, client)) ↔
      graph.Meets id root member client := by
  simp only [List.mem_flatMap, List.mem_map, Prod.mk.injEq, exists_eq_right_right,
    wellFormed.mem_membersBefore_iff, Meets]
  constructor
  · rintro ⟨⟨_, same, stale⟩, clientMem⟩
    exact ⟨clientMem, same, stale⟩
  · rintro ⟨clientMem, same, stale⟩
    have read : graph.IsRead member := by
      cases client with
      | output index => exact Or.inl (List.mem_of_getElem? (mem_clients_output.mp clientMem))
      | node reader position =>
        rcases mem_clients_node.mp clientMem with ⟨content, readerLive, found⟩
        exact Or.inr ⟨reader, content, readerLive, List.mem_of_getElem? found⟩
    exact ⟨⟨wellFormed.mem_liveVars_of_isRead read, same, stale⟩, clientMem⟩

omit [Arithmetic α] in
/-- Storage may be overwritten when no client that meets it stands in the way. -/
theorem clear_iff {id : NodeId} {root : VarId} :
    graph.Clear id root ↔ ¬graph.isProtected root ∧
      ∀ member client, graph.Meets id root member client → graph.Tolerates id root client := by
  constructor
  · refine fun clear => ⟨clear.unprotected, ?_⟩
    rintro member client ⟨clientMem, same, stale⟩
    cases client with
    | output index =>
      have output := List.mem_of_getElem? (mem_clients_output.mp clientMem)
      exact stale (clear.output member output same)
    | node reader position =>
      rcases mem_clients_node.mp clientMem with ⟨content, readerLive, found⟩
      intro other otherLive notView different
      have input : member ∈ other.inputs := by
        cases readerLive.symm.trans otherLive
        exact List.mem_of_getElem? found
      exact clear.reader reader member ⟨other, otherLive, notView, input⟩ different same stale
  · rintro ⟨unprotected, tolerated⟩
    refine ⟨unprotected, ?_, ?_⟩
    · intro member output same
      by_contra stale
      rcases List.mem_iff_getElem?.mp output with ⟨index, found⟩
      exact tolerated member (.output index) ⟨mem_clients_output.mpr found, same, stale⟩
    · rintro reader member ⟨content, readerLive, notView, input⟩ different same stale
      rcases List.mem_iff_getElem?.mp input with ⟨position, found⟩
      have meets : graph.Meets id root member (.node reader position) :=
        ⟨mem_clients_node.mpr ⟨content, readerLive, found⟩, same, stale⟩
      exact tolerated member _ meets content readerLive notView different

omit [Arithmetic α] in
/-- A node has to come before the one that overwrites storage when a client asks for it. -/
theorem mustPrecede_iff {earlier id : NodeId} {root : VarId} :
    graph.MustPrecede earlier id root ↔
      ∃ member client, graph.Meets id root member client ∧ graph.Asks id earlier client := by
  constructor
  · rintro ⟨different, member, ⟨content, readerLive, notView, input⟩, same, stale⟩
    rcases List.mem_iff_getElem?.mp input with ⟨position, found⟩
    have meets : graph.Meets id root member (.node earlier position) :=
      ⟨mem_clients_node.mpr ⟨content, readerLive, found⟩, same, stale⟩
    exact ⟨member, _, meets, rfl, different, content, readerLive, notView⟩
  · rintro ⟨member, client, ⟨clientMem, same, stale⟩, asked⟩
    cases client with
    | output index => exact asked.elim
    | node reader position =>
      rcases asked with ⟨rfl, different, content, readerLive, notView⟩
      rcases mem_clients_node.mp clientMem with ⟨other, otherLive, found⟩
      cases readerLive.symm.trans otherLive
      exact ⟨different, member, ⟨content, readerLive, notView, List.mem_of_getElem? found⟩,
        same, stale⟩

/-- What becomes of one client of a variable whose storage a node overwrites. -/
theorem WellFormed.collects_client (wellFormed : graph.WellFormed) {id : NodeId} {node : Node α}
    {root member : VarId} {client : Client} (live : graph.node? id = some node)
    (clientMem : client ∈ graph.clients member) :
    Orderings.Collects
      (fun known => do
        match ← graph.checkReader (graph.destroyerOf id node) root member client with
        | some reader => Except.ok (known.insert id reader)
        | none => Except.ok known)
      (graph.Tolerates id root client)
      (fun earlier later => later = id ∧ graph.Asks id earlier client) := by
  cases client with
  | output index =>
    simp only [checkReader, Tolerates, Asks]
    exact ⟨by simp [Checked.raise], by simp [Checked.raise]⟩
  | node reader position =>
    rcases mem_clients_node.mp clientMem with ⟨content, readerLive, _⟩
    exact wellFormed.collects_reader live readerLive

theorem WellFormed.collects_overwrite (wellFormed : graph.WellFormed) {id : NodeId}
    {node : Node α} (live : graph.node? id = some node) (target : VarId) :
    Orderings.Collects (graph.checkOverwrite (graph.destroyerOf id node) · target)
      (graph.Clear id (graph.aliasRoot target))
      (fun earlier later => later = id ∧ graph.MustPrecede earlier id (graph.aliasRoot target)) := by
  generalize rootEq : graph.aliasRoot target = root
  unfold checkOverwrite
  simp only [rootEq]
  by_cases guarded : graph.isProtected root
  · have refused : ¬graph.Clear id root := fun clear => clear.unprotected guarded
    simp only [guarded, if_true]
    exact ⟨by simp [Checked.raise, refused], by simp [Checked.raise]⟩
  · simp only [guarded, Bool.false_eq_true, if_false]
    have each : ∀ entry ∈ (graph.membersBefore (graph.destroyerOf id node) root).flatMap
        (fun member => (graph.clients member).map fun client => (member, client)),
        Orderings.Collects
          (fun known => do
            match ← graph.checkReader (graph.destroyerOf id node) root entry.1 entry.2 with
            | some reader => Except.ok (known.insert id reader)
            | none => Except.ok known)
          (graph.Tolerates id root entry.2)
          (fun earlier later => later = id ∧ graph.Asks id earlier entry.2) :=
      fun entry entryMem =>
        wellFormed.collects_client live (wellFormed.mem_clientsBefore_iff.mp entryMem).1
    have whole := Orderings.Collects.foldlM _ each
    constructor
    · intro known
      refine (whole.succeeds known).trans ?_
      simp only [clear_iff, Prod.forall, wellFormed.mem_clientsBefore_iff]
      exact (and_iff_right guarded).symm
    · intro known next run earlier later
      refine (whole.before known next run earlier later).trans (or_congr_right ?_)
      simp only [mustPrecede_iff, Prod.exists, wellFormed.mem_clientsBefore_iff]
      constructor
      · rintro ⟨member, client, meets, same, asked⟩
        exact ⟨same, member, client, meets, asked⟩
      · rintro ⟨same, member, client, meets, asked⟩
        exact ⟨member, client, meets, same, asked⟩

omit [Arithmetic α] in
theorem isDestructive_of_overwritten {node : Node α} {target : VarId}
    (member : target ∈ overwritten node) : node.op.isDestructive := by
  unfold overwritten at member
  unfold Op.isDestructive
  cases destroyed : node.op.destroyMap with
  | nil => simp [destroyed] at member
  | cons entry rest => simp

theorem WellFormed.collects_destroyer (wellFormed : graph.WellFormed) {id : NodeId}
    {node : Node α} (live : graph.node? id = some node) :
    Orderings.Collects (graph.checkDestroyer · id node)
      (∀ root, graph.Overwrites id root → graph.Clear id root)
      (fun earlier later => later = id ∧ ∃ root, graph.Overwrites id root ∧
        graph.MustPrecede earlier id root) := by
  have overwrites : ∀ root, graph.Overwrites id root ↔
      ∃ target ∈ overwritten node, graph.aliasRoot target = root := by
    intro root
    simp only [Overwrites, live, Option.some.injEq, exists_eq_left']
  unfold checkDestroyer
  by_cases destructive : node.op.isDestructive
  · simp only [destructive, if_true]
    have whole := Orderings.Collects.foldlM (overwritten node)
      fun target _ => wellFormed.collects_overwrite live target
    constructor
    · intro known
      refine (whole.succeeds known).trans ?_
      simp only [overwrites]
      constructor
      · rintro clear root ⟨target, member, rfl⟩
        exact clear target member
      · intro clear target member
        exact clear _ ⟨target, member, rfl⟩
    · intro known next run earlier later
      refine (whole.before known next run earlier later).trans (or_congr_right ?_)
      simp only [overwrites]
      constructor
      · rintro ⟨target, member, same, required⟩
        exact ⟨same, _, ⟨target, member, rfl⟩, required⟩
      · rintro ⟨same, root, ⟨target, member, rfl⟩, required⟩
        exact ⟨target, member, same, required⟩
  · have nothing : ∀ root, ¬graph.Overwrites id root := by
      intro root overwritten
      rcases (overwrites root).mp overwritten with ⟨target, member, _⟩
      exact destructive (isDestructive_of_overwritten member)
    simp only [destructive, Bool.false_eq_true, if_false]
    constructor
    · intro known
      simp [nothing]
    · intro known next run earlier later
      cases run
      simp [nothing]

/-- The check of all nodes, apart from the search for an order. -/
theorem WellFormed.collects_all (wellFormed : graph.WellFormed) :
    Orderings.Collects
      (fun known => graph.liveNodes.foldlM (fun known (id, node) =>
        graph.checkDestroyer known id node) known)
      (∀ destroyer root, graph.Overwrites destroyer root → graph.Clear destroyer root)
      (fun earlier later => ∃ root, graph.Overwrites later root ∧
        graph.MustPrecede earlier later root) := by
  have whole := Orderings.Collects.foldlM graph.liveNodes
    fun entry member => wellFormed.collects_destroyer (mem_liveNodes.mp member)
  constructor
  · intro known
    refine (whole.succeeds known).trans ?_
    constructor
    · intro clear destroyer root overwrites
      rcases overwrites with ⟨node, live, target⟩
      exact clear (destroyer, node) (mem_liveNodes.mpr live) root ⟨node, live, target⟩
    · intro clear entry _ root overwrites
      exact clear entry.1 root overwrites
  · intro known next run earlier later
    refine (whole.before known next run earlier later).trans (or_congr_right ?_)
    constructor
    · rintro ⟨entry, _, rfl, required⟩
      exact required
    · rintro ⟨root, ⟨node, live, target⟩, required⟩
      exact ⟨(later, node), mem_liveNodes.mpr live, rfl, root, ⟨node, live, target⟩, required⟩

/-- The analysis succeeds if every node passes and the orderings can be met. -/
theorem WellFormed.validate_eq_ok (wellFormed : graph.WellFormed) {orderings : Orderings}
    (valid : graph.validate = Except.ok orderings) :
    (∀ destroyer root, graph.Overwrites destroyer root → graph.Clear destroyer root) ∧
      (∀ earlier later, earlier ∈ orderings.before later ↔
        ∃ root, graph.Overwrites later root ∧ graph.MustPrecede earlier later root) ∧
      ∃ order, graph.order orderings = Except.ok order := by
  unfold validate at valid
  rw [Checked.bind_eq_ok_iff] at valid
  rcases valid with ⟨collected, run, ordered⟩
  have all := wellFormed.collects_all
  cases found : graph.order collected with
  | error failure => simp [found, Checked.raise] at ordered
  | ok order =>
    simp only [found, Except.ok.injEq] at ordered
    subst ordered
    refine ⟨(all.succeeds Orderings.empty).mp ⟨collected, run⟩, ?_, order, found⟩
    intro earlier later
    rw [all.before Orderings.empty collected run]
    simp [Orderings.before, Orderings.empty]

end Unfolding

section Exactness

variable [Arithmetic α] {order : List NodeId}

omit [Arithmetic α] in
theorem Safe.distinct (safe : graph.Safe order) : order.Nodup :=
  safe.complete.nodup_iff.mpr nodup_liveIds

omit [Arithmetic α] in
theorem Safe.descendants_after (safe : graph.Safe order) {reader source : NodeId}
    (path : TransGen graph.ReadsFrom reader source) : Precedes order source reader :=
  precedes_of_path safe.distinct safe.producers_first path

omit [Arithmetic α] in
/-- A node reads what it overwrites, and is no view. -/
theorem Overwrites.observes {destroyer : NodeId} {root : VarId}
    (overwrites : graph.Overwrites destroyer root) :
    ∃ target, graph.Observes destroyer target ∧ graph.aliasRoot target = root := by
  rcases overwrites with ⟨node, live, target, member, same⟩
  refine ⟨target, ⟨node, live, ?_, ?_⟩, same⟩
  · simp [Op.isPureView, isDestructive_of_overwritten member]
  · simp only [overwritten, List.mem_filterMap] at member
    rcases member with ⟨_, _, found⟩
    exact List.mem_of_getElem? found

omit [Arithmetic α] in
/-- In a safe order, whoever reads storage as it was comes before the node that overwrites it. -/
theorem Safe.precedes_of_mustPrecede (safe : graph.Safe order) {earlier later : NodeId}
    {root : VarId} (overwrites : graph.Overwrites later root)
    (required : graph.MustPrecede earlier later root) : Precedes order earlier later := by
  rcases required with ⟨different, member, observes, rfl, stale⟩
  have earlierMem : earlier ∈ order := by
    rcases observes with ⟨node, live, _⟩
    exact safe.complete.mem_iff.mpr (mem_liveIds.mpr ⟨node, live⟩)
  have laterMem : later ∈ order := by
    rcases overwrites with ⟨node, live, _⟩
    exact safe.complete.mem_iff.mpr (mem_liveIds.mpr ⟨node, live⟩)
  rcases precedes_or_precedes earlierMem laterMem different with before | after
  · exact before
  · exact absurd (safe.readers_current earlier member observes later (Ne.symm different)
      overwrites after) stale

omit [Arithmetic α] in
/-- A graph with a safe order passes all checks of the analysis. -/
theorem Safe.clear (safe : graph.Safe order) {destroyer : NodeId} {root : VarId}
    (overwrites : graph.Overwrites destroyer root) : graph.Clear destroyer root where
  unprotected := safe.unprotected destroyer root overwrites
  output member output same := safe.outputs_current member output destroyer (same ▸ overwrites)
  reader := by
    rintro reader member observes different same stale
    have before := safe.precedes_of_mustPrecede overwrites ⟨different, member, observes, same, stale⟩
    constructor
    · intro path
      exact before.asymm safe.distinct (safe.descendants_after path)
    · intro overwritesToo
      -- The reader has overwritten the storage when the destroyer reads its target.
      rcases overwrites.observes with ⟨target, observed, rootSame⟩
      rcases safe.readers_current destroyer target observed reader different
        (rootSame ▸ overwritesToo) before with ⟨producer, produced, path⟩
      rcases observed with ⟨node, live, _, input⟩
      exact TransGen.head' (readsFrom_iff.mpr ⟨node, live, target, input, produced⟩) path

omit [Arithmetic α] in
/-- The safe orders of a graph that passes are those that respect the orderings. -/
theorem safe_iff_respects {orderings : Orderings}
    (clear : ∀ destroyer root, graph.Overwrites destroyer root → graph.Clear destroyer root)
    (before : ∀ earlier later, earlier ∈ orderings.before later ↔
      ∃ root, graph.Overwrites later root ∧ graph.MustPrecede earlier later root) :
    graph.Safe order ↔ graph.Respects orderings order := by
  constructor
  · intro safe
    refine ⟨safe.complete, safe.producers_first, ?_⟩
    intro later _ earlier required _
    rcases (before earlier later).mp required with ⟨root, overwrites, required⟩
    exact safe.precedes_of_mustPrecede overwrites required
  · intro respects
    refine ⟨respects.complete, respects.producers_first, ?_, ?_, ?_⟩
    · intro destroyer root overwrites
      exact (clear destroyer root overwrites).unprotected
    · intro reader member observes destroyer different overwrites after
      by_contra stale
      have required : reader ∈ orderings.before destroyer := (before reader destroyer).mpr
        ⟨_, overwrites, Ne.symm different, member, observes, rfl, stale⟩
      have destroyerLive : destroyer ∈ graph.liveIds := by
        rcases overwrites with ⟨node, live, _⟩
        exact mem_liveIds.mpr ⟨node, live⟩
      have readerLive : reader ∈ graph.liveIds := by
        rcases observes with ⟨node, live, _⟩
        exact mem_liveIds.mpr ⟨node, live⟩
      exact after.asymm respects.distinct
        (respects.earlier_first destroyer destroyerLive reader required readerLive)
    · intro member output destroyer overwrites
      exact (clear destroyer _ overwrites).output member output rfl

/-- If every node may overwrite what it overwrites then the orderings can be collected, and validation
gives them unless they are cyclic. -/
theorem WellFormed.exists_orderings (wellFormed : graph.WellFormed)
    (clear : ∀ destroyer root, graph.Overwrites destroyer root → graph.Clear destroyer root) :
    ∃ orderings : Orderings, (∀ earlier later, earlier ∈ orderings.before later ↔
        ∃ root, graph.Overwrites later root ∧ graph.MustPrecede earlier later root) ∧
      ((∀ id, ¬TransGen (Leads (graph.dependencies orderings)) id id) →
        graph.validate = Except.ok orderings) := by
  have all := wellFormed.collects_all
  rcases (all.succeeds Orderings.empty).mpr clear with ⟨orderings, collected⟩
  have before : ∀ earlier later, earlier ∈ orderings.before later ↔
      ∃ root, graph.Overwrites later root ∧ graph.MustPrecede earlier later root := by
    intro earlier later
    rw [all.before Orderings.empty orderings collected]
    simp [Orderings.before, Orderings.empty]
  refine ⟨orderings, before, fun acyclic => ?_⟩
  have known : ∀ later ∈ graph.liveIds, ∀ earlier ∈ orderings.before later,
      earlier.index < graph.nodes.size := by
    intro later _ earlier required
    rcases (before earlier later).mp required with ⟨_, _, _, _, ⟨node, live, _⟩, _⟩
    exact lt_size_of_node? live
  rcases exists_order known acyclic with ⟨order, ordered⟩
  unfold validate
  rw [Checked.bind_eq_ok_iff]
  exact ⟨orderings, collected, by simp [ordered]⟩

/-- The analysis accepts exactly the graphs that have a safe order, and its orderings are met by the
safe orders and by no others. -/
theorem validate_exact (graph : Dataflow α) (wellFormed : graph.WellFormed) :
    ((∃ orderings, graph.validate = Except.ok orderings) ↔ ∃ order, graph.Safe order) ∧
      ∀ orderings, graph.validate = Except.ok orderings →
        ∀ order, graph.Safe order ↔ graph.Respects orderings order := by
  have exact : ∀ orderings, graph.validate = Except.ok orderings →
      ∀ order, graph.Safe order ↔ graph.Respects orderings order := by
    intro orderings valid order
    rcases wellFormed.validate_eq_ok valid with ⟨clear, before, _⟩
    exact safe_iff_respects clear before
  refine ⟨⟨?_, ?_⟩, exact⟩
  · rintro ⟨orderings, valid⟩
    rcases wellFormed.validate_eq_ok valid with ⟨_, _, order, ordered⟩
    exact ⟨order, (exact orderings valid order).mpr (respects_of_order ordered)⟩
  · rintro ⟨order, safe⟩
    have clear : ∀ destroyer root, graph.Overwrites destroyer root →
        graph.Clear destroyer root := fun _ _ overwrites => safe.clear overwrites
    rcases wellFormed.exists_orderings clear with ⟨orderings, before, validates⟩
    exact ⟨orderings, validates ((safe_iff_respects clear before).mp safe).acyclic⟩

/-- A graph that sums a vector and then negates the vector in place. -/
def negatedAfterSum : Dataflow Float where
  vars := #[⟨ArrayType.ofRank .float64 1, .input, some "x"⟩,
    ⟨ArrayType.scalar .float64, .output ⟨0⟩ 0, none⟩,
    ⟨ArrayType.ofRank .float64 1, .output ⟨1⟩ 0, none⟩,
    ⟨ArrayType.ofRank .float64 1, .output ⟨2⟩ 0, none⟩]
  nodes := #[some ⟨.sum, [⟨0⟩], [⟨1⟩]⟩, some ⟨.elementwise .neg (some 0), [⟨0⟩], [⟨2⟩]⟩,
    some ⟨.elementwise .add none, [⟨2⟩, ⟨1⟩], [⟨3⟩]⟩]
  inputs := [⟨0⟩]
  outputs := [⟨3⟩]
  guarded := []

/-- The sum is asked to come first, and its order is safe. -/
theorem validate_exact_negatedAfterSum :
    negatedAfterSum.validate = Except.ok ⟨[(⟨1⟩, [⟨0⟩])]⟩ ∧ ∃ order, negatedAfterSum.Safe order :=
  ⟨rfl, (validate_exact negatedAfterSum (by decide)).1.mp ⟨_, rfl⟩⟩

end Exactness

end Dataflow

end ArrayGraph
