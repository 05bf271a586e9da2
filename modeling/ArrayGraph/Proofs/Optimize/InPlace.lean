import ArrayGraph.Optimize.Rules.InPlace
import ArrayGraph.Proofs.Alias.InPlace
import ArrayGraph.Proofs.Optimize.Ready

/-!
# Making nodes destructive

A node is given its destructive form if the graph is valid with it. Nodes are taken in an order in
which they could run, so those that have been refused stay refused: were one of them acceptable once
later nodes are destructive too, it would have been acceptable before that. Hence nothing is left to be
done after one pass, and a second one changes nothing.
-/

namespace ArrayGraph

open Relation

variable {α : Type} [Arithmetic α]

namespace ScalarFunction

variable {name : String} {types : List ArrayType}

omit [Arithmetic α] in
/-- The name is for errors only. -/
theorem commonType_of_name {element : ElementType} {common : Option ArrayType}
    (agreed : commonType name element types = Except.ok common) (other : String) :
    commonType other element types = Except.ok common := by
  unfold commonType at agreed ⊢
  generalize types.filter (fun type => !type.isScalar) = dimensioned at agreed ⊢
  generalize (none : Option ArrayType) = known at agreed ⊢
  induction dimensioned generalizing known with
  | nil => exact agreed
  | cons type rest ih =>
    rw [List.foldlM_cons, Checked.bind_eq_ok_iff] at agreed ⊢
    rcases agreed with ⟨middle, first, agreed⟩
    refine ⟨middle, ?_, ih middle agreed⟩
    cases known with
    | none => exact first
    | some previous =>
      dsimp only at first ⊢
      split at first
      · exact first
      · simp at first

omit [Arithmetic α] in
theorem outputType_of_name {function : ScalarFunction} {output : ArrayType}
    (inferred : function.outputType name types = Except.ok output) (other : String) :
    function.outputType other types = Except.ok output := by
  unfold outputType at inferred ⊢
  rcases Checked.bind_eq_ok_iff.mp inferred with ⟨common, agreed, inferred⟩
  exact Checked.bind_eq_ok_iff.mpr ⟨common, commonType_of_name agreed other, inferred⟩

end ScalarFunction

namespace Op

omit [Arithmetic α] in
theorem lt_length_of_mem_reuseCandidates {op : Op α} {types outputs : List ArrayType}
    {position : Nat} (candidate : position ∈ op.reuseCandidates types outputs) :
    position < types.length := by
  unfold reuseCandidates at candidate
  split at candidate
  · exact List.mem_range.mp (List.mem_filter.mp candidate).1
  · cases candidate

/-- Over an operand of the type of its result, a destructive form infers the same types. -/
theorem inferTypes_destructiveVariant? {op variant : Op α} {position : Nat}
    {types outputs : List ArrayType} (found : op.destructiveVariant? position = some variant)
    (candidate : position ∈ op.reuseCandidates types outputs)
    (inferred : op.inferTypes types = Except.ok outputs) :
    variant.inferTypes types = Except.ok outputs := by
  have arity := arity_of_inferTypes inferred
  rcases destructiveVariant?_eq_some.mp found with ⟨function, rfl, _, rfl⟩
  rcases inferTypes_elementwise inferred with ⟨name, output, computed, rfl, _⟩
  simp only [reuseCandidates, List.mem_filter, decide_eq_true_eq] at candidate
  unfold inferTypes
  rw [if_neg (by simpa [Op.arity] using arity)]
  simp only [ScalarFunction.outputType_of_name computed, Checked.ok_bind, candidate.2,
    Checked.orFault, if_true]

end Op

namespace Dataflow

variable {graph later : Dataflow α} {id : NodeId} {node : Node α}

omit [Arithmetic α] in
theorem getNode_of_live {id : NodeId} {node : Node α} (live : graph.node? id = some node) :
    (graph.getNode id : Checked GraphError (Node α)) = Except.ok node := by
  unfold getNode requireNode
  rw [if_pos (lt_size_of_node? live), live]
  rfl

theorem exists_replaceNodeOp {id : NodeId} {node : Node α} {op : Op α}
    (live : graph.node? id = some node)
    (inferred : op.inferTypes (node.inputs.map graph.type) = Except.ok (node.outputs.map graph.type)) :
    ∃ after, graph.replaceNodeOp id op = Except.ok after := by
  unfold Dataflow.replaceNodeOp
  rw [getNode_of_live live, Checked.ok_bind, inferred]
  exact ⟨_, if_pos rfl⟩

section Reuse

variable {id : NodeId} {node : Node α}

/-- A node may overwrite its input at a position: the types agree, and the graph is valid with the
destructive form in the place of the node. -/
def MayOverwrite (graph : Dataflow α) (id : NodeId) (node : Node α) (position : Nat) : Prop :=
  ∃ variant trial, node.op.destructiveVariant? position = some variant ∧
    position ∈ node.op.reuseCandidates (node.inputs.map graph.type) (node.outputs.map graph.type) ∧
    graph.replaceNodeOp id variant = Except.ok trial ∧ trial.Valid

theorem exists_liveness (wellFormed : graph.WellFormed) (live : graph.node? id = some node)
    (position : Nat) : ∃ liveness, graph.inputLivenessAt id node position = Except.ok liveness ∧
      (liveness = .unique ↔ graph.MayOverwrite id node position) := by
  unfold inputLivenessAt MayOverwrite
  cases found : node.op.destructiveVariant? position with
  | none => exact ⟨_, rfl, by simp⟩
  | some variant =>
    dsimp only
    split
    · rename_i candidate
      have inferred := Op.inferTypes_destructiveVariant? found candidate (wellFormed.typed id node live)
      rcases exists_replaceNodeOp live inferred with ⟨trial, replaced⟩
      rw [replaced, Checked.ok_bind]
      cases validated : trial.validate with
      | ok orderings =>
        exact ⟨_, rfl, by simp [candidate, replaced, Valid, validated]⟩
      | error failure =>
        cases failure with
        | error reason => exact ⟨_, rfl, by simp [replaced, Valid, validated]⟩
        | fault broken => exact absurd validated (faultless_validate trial broken)
    · rename_i unsuited
      exact ⟨_, rfl, by simp [unsuited]⟩

/-- The inputs that count as reusable are those that the node may overwrite. -/
theorem exists_reusableInputs (wellFormed : graph.WellFormed) (live : graph.node? id = some node) :
    ∃ reusable, graph.reusableInputs id = Except.ok reusable ∧
      ∀ position, position ∈ reusable ↔ graph.MayOverwrite id node position := by
  rcases exists_forall₂ fun position (_ : position ∈ List.range node.inputs.length) =>
    exists_liveness wellFormed live position with ⟨liveness, related⟩
  have found : graph.inputLiveness id = Except.ok liveness := by
    unfold inputLiveness
    rw [getNode_of_live live]
    exact Checked.mapM_eq_ok_iff.mpr (related.imp fun _ _ holds => holds.1)
  refine ⟨positions liveness .unique, by simp [reusableInputs, found], fun position => ?_⟩
  rw [mem_positions]
  constructor
  · intro unique
    rcases forall₂_getElem?_right related unique with ⟨other, listed, _, tried⟩
    rcases List.getElem?_eq_some_iff.mp listed with ⟨_, same⟩
    rw [List.getElem_range] at same
    exact same ▸ tried.mp rfl
  · intro may
    have inside : position < node.inputs.length := by
      rcases may with ⟨variant, trial, _, candidate, _⟩
      simpa using Op.lt_length_of_mem_reuseCandidates candidate
    have listed : (List.range node.inputs.length)[position]? = some position := by
      rw [List.getElem?_range inside]
    rcases forall₂_getElem?_left related listed with ⟨state, found, _, tried⟩
    rw [found, tried.mpr may]

/-- A node that has no form that the graph would be valid with. -/
def Settled (graph : Dataflow α) (id : NodeId) : Prop :=
  ∀ node, graph.node? id = some node → ∀ position, ¬graph.MayOverwrite id node position

theorem Settled.reusableInputs (settled : graph.Settled id) (wellFormed : graph.WellFormed)
    (live : graph.node? id = some node) : graph.reusableInputs id = Except.ok [] := by
  rcases exists_reusableInputs wellFormed live with ⟨reusable, found, tried⟩
  have none : reusable = [] := List.eq_nil_iff_forall_not_mem.mpr fun position member =>
    settled node live position ((tried position).mp member)
  rw [found, none]

omit [Arithmetic α] in
/-- The same choice made in two graphs. -/
theorem MoreInPlace.setOp {content : Node α} (more : graph.MoreInPlace later)
    (live : graph.node? id = some node) (live' : later.node? id = some node) :
    MoreInPlace { graph with nodes := graph.nodes.setIfInBounds id.index (some content) }
      { later with nodes := later.nodes.setIfInBounds id.index (some content) } where
  vars := more.vars
  inputs := more.inputs
  outputs := more.outputs
  guarded := more.guarded
  size := by simpa using more.size
  node other := by
    rw [node?_setOp live, node?_setOp live']
    by_cases same : other = id
    · simp [same]
    · simpa [same] using more.node other

/-- A node that has been refused stays refused when nodes become destructive that it does not depend
on. -/
theorem Settled.of_moreInPlace (settled : graph.Settled id) (wellFormed : graph.WellFormed)
    (laterWellFormed : later.WellFormed) (valid : graph.Valid) (more : graph.MoreInPlace later)
    (apart : ∀ other, later.node? other ≠ graph.node? other →
      other ≠ id ∧ ¬TransGen graph.ReadsFrom id other) : later.Settled id := by
  rintro node live' position ⟨variant, laterTrial, found, candidate, replaced', valid'⟩
  have live : graph.node? id = some node := by
    by_contra changed
    exact (apart id (fun same => changed (same ▸ live'))).1 rfl
  rw [more.type_eq] at candidate
  have inferred := Op.inferTypes_destructiveVariant? found candidate (wellFormed.typed id node live)
  rcases exists_replaceNodeOp live inferred with ⟨trial, replaced⟩
  refine settled node live position ⟨variant, trial, found, candidate, replaced, ?_⟩
  have first := MoreInPlace.of_replaceNodeOp live found replaced
  have trialFormed := wellFormed.replaceNodeOp replaced
  have laterTrialFormed := laterWellFormed.replaceNodeOp replaced'
  rcases replaceNodeOp_eq_ok replaced with ⟨_, same, _, rfl⟩
  rcases replaceNodeOp_eq_ok replaced' with ⟨_, same', _, rfl⟩
  cases live.symm.trans same
  cases live'.symm.trans same'
  refine valid_of_moreInPlace wellFormed trialFormed
    laterTrialFormed first (more.setOp live live') valid valid' ?_
  intro changedId other changed changedLater
  rw [node?_setOp live] at changed changedLater
  rw [node?_setOp live'] at changedLater
  have sameId : changedId = id := by
    by_contra different
    simp [different] at changed
  have different : other ≠ id := by
    rintro rfl
    simp at changedLater
  simp only [different, if_false] at changedLater
  exact sameId ▸ (apart other changedLater).2

end Reuse

end Dataflow

namespace Edit

open Dataflow

variable {before now : Editing α} {id : NodeId} {front back order : List NodeId}

/-- A node is left as it is if it has no acceptable form, and is given the first one otherwise. -/
theorem makeNodeInPlace_ends (wellFormed : before.graph.WellFormed) (id : NodeId) :
    Ends (makeNodeInPlace id : Edit α GraphError Bool) before (fun changed after =>
      changed = false ∧ after = before ∧ before.graph.Settled id ∨
        changed = true ∧ ∃ node position variant later, before.graph.node? id = some node ∧
          before.graph.MayOverwrite id node position ∧
          node.op.destructiveVariant? position = some variant ∧
          before.graph.replaceNodeOp id variant = Except.ok later ∧ later.Valid ∧
          after = { before with graph := later }) fun _ => False := by
  refine Ends.after (graph_run before) ?_
  cases live : before.graph.node? id with
  | none => exact Ends.pure (Or.inl ⟨rfl, rfl, fun _ live' => by cases live.symm.trans live'⟩)
  | some node =>
    dsimp only
    split
    · rename_i unsuited
      refine Ends.pure (Or.inl ⟨rfl, rfl, ?_⟩)
      rintro other live' position ⟨variant, _, found, _⟩
      cases live.symm.trans live'
      rcases Op.destructiveVariant?_eq_some.mp found with ⟨function, plain, inside, _⟩
      rw [plain] at unsuited
      simp only [Op.isDestructive, Op.destroyMap, Op.destructiveVariant?] at unsuited
      rw [if_pos (by omega)] at unsuited
      simp at unsuited
    rcases exists_reusableInputs wellFormed live with ⟨reusable, found, tried⟩
    refine Ends.after (ofChecked_eq_ok_iff.mpr ⟨found, rfl⟩) ?_
    split
    · rename_i variant chosen
      rcases Option.bind_eq_some_iff.mp chosen with ⟨position, first, chosen⟩
      rcases (tried position).mp (List.mem_of_head? first) with
        ⟨variant', later, chosen', candidate, replaced, valid⟩
      cases chosen.symm.trans chosen'
      refine Ends.after (ofChecked_eq_ok_iff.mpr ⟨replaced, rfl⟩) (Ends.after rfl (Ends.pure ?_))
      exact Or.inr ⟨rfl, node, position, variant, later, rfl,
        ⟨variant, later, chosen, candidate, replaced, valid⟩, chosen, replaced, valid, rfl⟩
    · rename_i unchosen
      refine Ends.pure (Or.inl ⟨rfl, rfl, ?_⟩)
      intro other live' position may
      cases live.symm.trans live'
      -- The first position that is acceptable has a form to choose.
      cases first : reusable.head? with
      | none =>
        rw [List.head?_eq_none_iff] at first
        simpa [first] using (tried position).mpr may
      | some chosen =>
        rcases (tried chosen).mp (List.mem_of_head? first) with ⟨variant, _, found, _⟩
        simp [first, found] at unchosen

/-- What holds while nodes are made destructive, with those in front already looked at. -/
structure Reached (before : Editing α) (front : List NodeId) (now : Editing α) : Prop where
  rest : now = { before with graph := now.graph }
  more : before.graph.MoreInPlace now.graph
  wellFormed : now.graph.WellFormed
  valid : now.graph.Valid
  settled : ∀ id ∈ front, now.graph.Settled id

theorem Reached.step (reached : Reached before front now)
    (respects : before.graph.Respects Orderings.empty order) (split : order = front ++ id :: back) :
    Ends (makeNodeInPlace id : Edit α GraphError Bool) now
      (fun _ after => Reached before (front ++ [id]) after)
      fun _ => False := by
  refine (makeNodeInPlace_ends reached.wellFormed id).imp ?_ fun _ false => false
  rintro answer after (⟨rfl, rfl, refused⟩ |
    ⟨rfl, node, position, variant, later, live, _, found, replaced, valid, rfl⟩)
  · refine ⟨reached.rest, reached.more, reached.wellFormed, reached.valid, ?_⟩
    intro other member
    rcases List.mem_append.mp member with earlier | same
    · exact reached.settled other earlier
    · exact List.mem_singleton.mp same ▸ refused
  · have more := MoreInPlace.of_replaceNodeOp live found replaced
    have wellFormed := reached.wellFormed.replaceNodeOp replaced
    have nodes : ∀ other, later.node? other =
        if other = id then some { node with op := variant } else now.graph.node? other := by
      intro other
      rcases replaceNodeOp_eq_ok replaced with ⟨_, same, _, rfl⟩
      cases live.symm.trans same
      exact node?_setOp live
    refine ⟨by rw [reached.rest], reached.more.trans more, wellFormed, valid, ?_⟩
    intro other member
    rcases List.mem_append.mp member with earlier | same
    · refine (reached.settled other earlier).of_moreInPlace reached.wellFormed wellFormed reached.valid
        more ?_
      intro converted changed
      have sameId : converted = id := by
        by_contra different
        simp [nodes, different] at changed
      subst sameId
      have precedes : Precedes order other converted := ⟨front, back, split, earlier⟩
      constructor
      · rintro rfl
        exact precedes.irrefl respects.distinct
      · rw [reached.more.readsFrom_eq]
        intro path
        exact precedes.asymm respects.distinct
          (precedes_of_path respects.distinct respects.producers_first path)
    · cases List.mem_singleton.mp same
      rintro content contentLive position ⟨_, _, again, _⟩
      rw [nodes, if_pos rfl] at contentLive
      cases contentLive
      rcases Op.destructiveVariant?_eq_some.mp found with ⟨_, _, _, rfl⟩
      cases again

/-- One pass over all nodes. -/
theorem makeInPlace_ends (wellFormed : before.graph.WellFormed) (valid : before.graph.Valid) :
    Ends makeInPlace before (fun _ after => ∃ order, before.graph.order Orderings.empty =
      Except.ok order ∧ Reached before order after) fun _ => False := by
  rcases (wellFormed.acyclic_of_valid valid).exists_order with ⟨order, ordered⟩
  refine mapError_ends ?_ _
  refine Ends.after (graph_run before) (Ends.after (ofChecked_eq_ok_iff.mpr ⟨ordered, rfl⟩) ?_)
  have start : Reached before [] before := ⟨rfl, .refl _, wellFormed, valid, by simp⟩
  refine (Ends.foldlM (fun front _ now => Reached before front now) start ?_).imp
    (fun _ _ reached => ⟨order, ordered, reached⟩) fun _ false => false
  intro front id back changed now split reached
  exact (reached.step (respects_of_order ordered) split).bind fun _ _ reached => Ends.pure reached

/-- A pass over nodes that are settled changes nothing. -/
theorem makeInPlace_of_settled (wellFormed : before.graph.WellFormed) (valid : before.graph.Valid)
    (settled : ∀ id, before.graph.Settled id) : makeInPlace before = .ok false before := by
  rcases (wellFormed.acyclic_of_valid valid).exists_order with ⟨order, ordered⟩
  have ends : Ends makeInPlace before (fun changed after => changed = false ∧ after = before)
      fun _ => False := by
    refine mapError_ends ?_ _
    refine Ends.after (graph_run before) (Ends.after (ofChecked_eq_ok_iff.mpr ⟨ordered, rfl⟩) ?_)
    refine Ends.foldlM (fun _ changed now => changed = false ∧ now = before) ⟨rfl, rfl⟩ ?_
    rintro front id back _ _ split ⟨rfl, rfl⟩
    refine (makeNodeInPlace_ends wellFormed id).bind ?_
    rintro answer after (⟨rfl, rfl, _⟩ | ⟨rfl, node, position, _, _, live, may, _⟩)
    · exact Ends.pure ⟨rfl, rfl⟩
    · exact absurd may (settled id node live position)
  rcases ends.exists_ok with ⟨_, _, ran, rfl, rfl⟩
  exact ran

/-- Making nodes destructive succeeds on every valid graph and leaves a valid one, in which no further
node may be made destructive. So doing it again changes nothing. -/
theorem makeInPlace_maximal (before : Editing α) (wellFormed : before.graph.WellFormed)
    (valid : before.graph.Valid) :
    ∃ changed later, makeInPlace before = .ok changed { before with graph := later } ∧
      before.graph.MoreInPlace later ∧ later.Valid ∧
      (∀ id node, later.node? id = some node → node.op.isDestructive = false →
        later.reusableInputs id = Except.ok []) ∧
      makeInPlace { before with graph := later } = .ok false { before with graph := later } := by
  rcases (makeInPlace_ends wellFormed valid).exists_ok with ⟨changed, after, ran, order, ordered, reached⟩
  have settled : ∀ id, after.graph.Settled id := by
    intro id node live
    have member : id ∈ order := by
      rw [(respects_of_order ordered).complete.mem_iff, ← reached.more.perm_liveIds.mem_iff]
      exact mem_liveIds.mpr ⟨node, live⟩
    exact reached.settled id member node live
  refine ⟨changed, after.graph, ?_, reached.more, reached.valid, ?_, ?_⟩
  · rw [← reached.rest]
    exact ran
  · exact fun id node live _ => (settled id).reusableInputs reached.wellFormed live
  · exact makeInPlace_of_settled reached.wellFormed reached.valid settled

/-- The sum of a vector's negation and the exponential of that. -/
def negatedAndExponential : Dataflow Float where
  vars := #[⟨ArrayType.ofRank .float64 1, .input, some "x"⟩,
    ⟨ArrayType.ofRank .float64 1, .output ⟨0⟩ 0, none⟩,
    ⟨ArrayType.ofRank .float64 1, .output ⟨1⟩ 0, none⟩,
    ⟨ArrayType.ofRank .float64 1, .output ⟨2⟩ 0, none⟩]
  nodes := #[some ⟨.elementwise .neg none, [⟨0⟩], [⟨1⟩]⟩,
    some ⟨.elementwise .exp none, [⟨1⟩], [⟨2⟩]⟩,
    some ⟨.elementwise .add none, [⟨1⟩, ⟨2⟩], [⟨3⟩]⟩]
  inputs := [⟨0⟩]
  outputs := [⟨3⟩]
  guarded := []

/-- The negation is written over the vector and the sum over the negation. The exponential cannot be,
as the negation is still read after it. -/
theorem makeInPlace_maximal_negatedAndExponential :
    negatedAndExponential.WellFormed ∧ negatedAndExponential.Valid ∧
      ∃ later, makeInPlace ⟨negatedAndExponential, .empty, []⟩ = .ok true ⟨later, .empty, []⟩ ∧
        later.nodes.toList.map (·.map Node.op) = [some (.elementwise .neg (some 0)),
          some (.elementwise .exp none), some (.elementwise .add (some 0))] ∧
        later.Valid ∧ later.reusableInputs ⟨1⟩ = Except.ok [] ∧
        makeInPlace ⟨later, .empty, []⟩ = .ok false ⟨later, .empty, []⟩ := by
  have wellFormed : negatedAndExponential.WellFormed := by decide
  have valid : negatedAndExponential.Valid := ⟨_, rfl⟩
  rcases makeInPlace_maximal ⟨negatedAndExponential, .empty, []⟩ wellFormed valid with
    ⟨changed, later, ran, _, validLater, settled, again⟩
  have ran' : makeInPlace ⟨negatedAndExponential, .empty, []⟩ = .ok true ⟨{ negatedAndExponential with
      nodes := #[some ⟨.elementwise .neg (some 0), [⟨0⟩], [⟨1⟩]⟩,
        some ⟨.elementwise .exp none, [⟨1⟩], [⟨2⟩]⟩,
        some ⟨.elementwise .add (some 0), [⟨1⟩, ⟨2⟩], [⟨3⟩]⟩] }, .empty, []⟩ := by cbv
  cases ran.symm.trans ran'
  exact ⟨wellFormed, valid, _, ran, rfl, validLater, settled ⟨1⟩ _ rfl rfl, again⟩

end Edit

end ArrayGraph
