import ArrayGraph.Proofs.Dataflow.Replace
import ArrayGraph.Proofs.Optimize.Irredundant
import ArrayGraph.Proofs.Optimize.Needed

/-!
# Merging is exact

What the outputs of a graph stand for is the same before and after a merge, bit by bit, and so is
whether they stand for anything. Constants are merged by the bits of their elements. Numbers to fill
arrays with are compared by the arithmetic of the elements instead, which does not tell the two zeros
of floats apart. So merging is exact for graphs in which equal numbers to fill with give equal elements,
and not for others.

The graph need not be pruned. A node that is needed is never merged into one that is not, which pruning
would remove before all outputs of the former are replaced.
-/

namespace ArrayGraph

open Relation

variable {α : Type} [Arithmetic α]

namespace Dataflow

variable {graph middle after : Dataflow α} {memory : Memory α} {old new var : VarId}
  {id duplicate survivor : NodeId} {index : Nat}

/-- The outputs of two graphs stand for the same arrays, whatever is given. -/
def SameAnswers (memory : Memory α) (graph after : Dataflow α) : Prop :=
  List.Forall₂ (fun output output' => ∀ hosts given tensor,
    graph.Yields hosts memory given output tensor ↔ after.Yields hosts memory given output' tensor)
    graph.outputs after.outputs

/-- Equal numbers that arrays are filled with give equal elements. -/
def FillsAgree (graph : Dataflow α) : Prop :=
  ∀ id id' node node' x y, graph.node? id = some node → graph.node? id' = some node' →
    node.op = .fill x → node'.op = .fill y → x == y →
      ∀ element : ElementType, element.normalize x = element.normalize y

section SameAnswers

theorem SameAnswers.refl (memory : Memory α) (graph : Dataflow α) : SameAnswers memory graph graph :=
  List.forall₂_same.mpr fun _ _ _ _ _ => Iff.rfl

theorem SameAnswers.trans (first : SameAnswers memory graph middle)
    (second : SameAnswers memory middle after) : SameAnswers memory graph after := by
  rw [SameAnswers, List.forall₂_iff_get] at first second ⊢
  refine ⟨first.1.trans second.1, fun position inside inside' hosts given tensor => ?_⟩
  have between : position < middle.outputs.length := first.1 ▸ inside
  exact (first.2 position inside between hosts given tensor).trans
    (second.2 position between inside' hosts given tensor)

theorem sameAnswers_prune (graph : Dataflow α) : SameAnswers memory graph graph.prune := by
  refine List.forall₂_same.mpr fun output member hosts given tensor => ?_
  refine (evaluates_prune_iff fun id produced => ?_).symm
  exact mem_ancestorsOf.mpr ⟨output, member, id, produced, ReflTransGen.refl⟩

/-- A variable that is read may be replaced by one that stands for the same array. -/
theorem sameAnswers_replace
    (stands : graph.IsRead old → ∀ hosts given tensor,
      graph.Yields hosts memory given old tensor ↔ graph.Yields hosts memory given new tensor)
    (answer : graph.replace old new = Except.ok after) : SameAnswers memory graph after := by
  rcases replace_eq_ok answer with ⟨_, rfl⟩ | ⟨_, checked, rfl⟩
  · exact SameAnswers.refl memory _
  by_cases read : graph.IsRead old
  · have apart : ∀ id node, graph.node? id = some node → old ∈ node.inputs →
        ¬graph.ComputedFrom new id := by
      intro id node live readsOld computed
      exact ((checkReplacement_eq_ok checked).2.2.2 id node live readsOld).1
        (mem_ancestors.mpr computed)
    refine List.forall₂_map_right_iff.mpr (List.forall₂_same.mpr fun output member => ?_)
    intro hosts given tensor
    exact (evaluates_output_of_redirect apart (stands read hosts given) member).symm
  · rw [redirect_of_not_isRead read]
    exact sameAnswers_prune graph

theorem FillsAgree.replace (fills : graph.FillsAgree)
    (answer : graph.replace old new = Except.ok after) : after.FillsAgree := by
  rw [← replaceAll_singleton] at answer
  intro id id' node node' x y live live' op op'
  rcases live_of_replaceAll answer live with ⟨first, firstLive, same, _⟩
  rcases live_of_replaceAll answer live' with ⟨second, secondLive, same', _⟩
  exact fills id id' first second x y firstLive secondLive (same.trans op) (same'.trans op')

end SameAnswers

section Needs

omit [Arithmetic α]

theorem eq_of_producerId? (kind : (graph.var var).kind = .output survivor index)
    (produced : graph.producerId? var = some id) : id = survivor := by
  rcases producerId?_eq_some.mp produced with ⟨_, _, found⟩
  have same := (producer?_eq_some.mp found).1
  rw [kind] at same
  cases same
  rfl

theorem needs_prune_iff : graph.prune.Needs id ↔ graph.Needs id := by
  constructor
  · intro needs
    rcases needs.live with ⟨node, live⟩
    exact mem_ancestorsOf.mp (node?_prune.mp live).2
  · rintro ⟨output, member, computed⟩
    exact ⟨output, member, computed.prune member⟩

/-- The node that computes the new variable is still needed. -/
theorem Needs.redirect (needs : graph.Needs survivor)
    (kind : (graph.var new).kind = .output survivor index) :
    (graph.redirect old new).Needs survivor := by
  rcases needs.live with ⟨content, live⟩
  exact mem_ancestorsOf.mp (Edit.mem_ancestorsOf_redirect live kind (mem_ancestorsOf.mpr needs))

/-- A node becomes needed only through the node that computes the new variable. -/
theorem needs_of_redirect (kind : (graph.var new).kind = .output survivor index)
    (needs : (graph.redirect old new).Needs id) :
    graph.Needs id ∨ (graph.redirect old new).Needs survivor := by
  rcases needs with ⟨output, member, producer, produced, path⟩
  induction path with
  | refl =>
    by_cases same : producer = survivor
    · subst same
      exact Or.inr ⟨output, member, producer, produced, ReflTransGen.refl⟩
    · rw [producerId?_redirect] at produced
      rcases mem_substitute member with ⟨rfl, _⟩ | ⟨_, member⟩
      · exact absurd (eq_of_producerId? kind produced) same
      · exact Or.inl ⟨output, member, producer, produced, ReflTransGen.refl⟩
  | @tail reader source path reads ih =>
    rcases ih with needs | needs
    · by_cases same : source = survivor
      · subst same
        exact Or.inr ⟨output, member, producer, produced, path.tail reads⟩
      · rcases readsFrom_iff.mp reads with ⟨node, live, input, inputMem, inputProduced⟩
        rw [producerId?_redirect] at inputProduced
        rcases node?_redirect_eq_some.mp live with ⟨original, originalLive, rfl⟩
        rcases mem_substitute inputMem with ⟨rfl, _⟩ | ⟨_, inputMem⟩
        · exact absurd (eq_of_producerId? kind inputProduced) same
        · exact Or.inl (needs.of_readsFrom (readsFrom_iff.mpr
            ⟨original, originalLive, input, inputMem, inputProduced⟩))
    · exact Or.inr needs

end Needs

end Dataflow

namespace Edit

open Dataflow

variable {base graph after : Dataflow α} {memory : Memory α} {old new : VarId}
  {duplicate survivor id : NodeId} {order front back : List NodeId} {buckets : Buckets}

section Constants

variable {before final : Editing α} {left right : VarId}

/-- Constants that are the same stand for the same array. -/
theorem yields_iff_of_sameConstant (identical : ∀ x y : α, Arithmetic.identical x y → x = y)
    (typed : graph.ConstantsTyped) (same : sameConstant memory graph left right)
    (hosts : Meaning α) (given : VarId → Option (Tensor α)) (tensor : Tensor α) :
    graph.Yields hosts memory given left tensor ↔ graph.Yields hosts memory given right tensor := by
  rcases sameConstant_eq_true same with ⟨first, second, kind, kind', type, contents⟩
  rw [typed left first kind, typed right second kind'] at type
  rw [yields_constant kind, yields_constant kind',
    tensor_eq_of_contents type (contents.imp identical)]

/-- What is left as it was, and what is still so, while a graph is merged. -/
structure Faithful (before after : Editing α) : Prop where
  formed : after.graph.Formed
  fills : after.graph.FillsAgree
  vars : after.graph.vars = before.graph.vars
  declared : after.graph.inputs = before.graph.inputs
  memory : after.memory = before.memory
  answers : SameAnswers before.memory before.graph after.graph

theorem Faithful.refl (formed : before.graph.Formed) (fills : before.graph.FillsAgree) :
    Faithful before before :=
  ⟨formed, fills, rfl, rfl, rfl, SameAnswers.refl _ _⟩

theorem Faithful.replace {state : Editing α} (faithful : Faithful before state)
    (stands : state.graph.IsRead old → ∀ hosts given tensor,
      state.graph.Yields hosts state.memory given old tensor ↔
        state.graph.Yields hosts state.memory given new tensor)
    (answer : state.graph.replace old new = Except.ok after) :
    Faithful before { state with graph := after } where
  formed := faithful.formed.replace answer
  fills := faithful.fills.replace answer
  vars := (vars_replace answer).trans faithful.vars
  declared := (inputs_replaceAll ((replaceAll_singleton _ _ _).trans answer)).trans faithful.declared
  memory := faithful.memory
  answers := faithful.answers.trans (faithful.memory ▸ sameAnswers_replace stands answer)

/-- Merging constants makes no difference to what outputs stand for. -/
theorem faithful_mergeConstants {count : Nat}
    (identical : ∀ x y : α, Arithmetic.identical x y → x = y) (formed : before.graph.Formed)
    (fills : before.graph.FillsAgree) (first : before.graph.NeededFirst)
    (typed : before.graph.ConstantsTyped)
    (ran : (mergeConstants : Edit α GraphError Nat) before = .ok count final) :
    Faithful before final ∧ final.graph.NeededFirst := by
  rw [mergeConstants, bind_of_ok (get_run before)] at ran
  refine foldlM_kept (fun _ (state : Editing α) => Faithful before state ∧ state.graph.NeededFirst) ?_
    ⟨Faithful.refl formed fills, first⟩ ran
  intro merged pair member state next after holds ran
  rcases holds with ⟨faithful, first⟩
  rcases bind_eq_ok_iff.mp ran with ⟨replaced, middle, validated, counted⟩
  have unchanged : middle = after := by
    cases replaced with
    | true => exact (pure_eq_ok_iff.mp counted).2
    | false => exact (pure_eq_ok_iff.mp counted).2
  subst unchanged
  rcases replaceValidated_eq_ok validated with rfl | ⟨changed, answer, rfl⟩
  · exact ⟨faithful, first⟩
  · rw [replaceAll_singleton] at answer
    refine ⟨faithful.replace (fun _ => ?_) answer, first.replace answer⟩
    refine yields_iff_of_sameConstant identical (typed.of_vars faithful.vars) ?_
    rw [faithful.memory, sameConstant_congr faithful.vars]
    exact sameConstant_of_mem member

end Constants

section Nodes

/-- Two nodes, either of which may be gone, that compute the same from the same variables. Where the one
is needed so is the other. -/
structure Interchangeable (graph : Dataflow α) (duplicate survivor : NodeId) : Prop where
  alike : ∀ node content, graph.node? duplicate = some node → graph.node? survivor = some content →
    node.inputs = content.inputs ∧
      ∀ hosts operands, node.op.evaluate hosts operands = content.op.evaluate hosts operands
  read : ∀ var index, (graph.var var).kind = .output duplicate index → graph.IsRead var →
    (∃ node, graph.node? duplicate = some node) ∧ ∃ content, graph.node? survivor = some content
  ahead : graph.Needs duplicate → graph.Needs survivor

theorem Interchangeable.stands (same : Interchangeable graph duplicate survivor)
    (corresponds : Corresponds graph duplicate survivor old new) (read : graph.IsRead old)
    (hosts : Meaning α) (given : VarId → Option (Tensor α)) (tensor : Tensor α) :
    graph.Yields hosts memory given old tensor ↔ graph.Yields hosts memory given new tensor := by
  rcases corresponds with ⟨index, kind, kind'⟩
  rcases same.read old index kind read with ⟨⟨node, live⟩, content, survivorLive⟩
  rcases same.alike node content live survivorLive with ⟨inputs, agree⟩
  have produced : graph.producerNode? old = some (node, index) :=
    producerNode?_eq_some.mpr ⟨_, producer?_of_output kind live⟩
  have produced' : graph.producerNode? new = some (content, index) :=
    producerNode?_eq_some.mpr ⟨_, producer?_of_output kind' survivorLive⟩
  refine (Evaluates.output_iff_forall₂ produced).trans (Iff.trans ?_
    (Evaluates.output_iff_forall₂ produced').symm)
  simp only [inputs, agree]

/-- A replacement needs the survivor, if it makes a difference to what outputs depend on. -/
theorem Interchangeable.replace (same : Interchangeable graph duplicate survivor)
    (different : survivor ≠ duplicate) (corresponds : Corresponds graph duplicate survivor old new)
    (answer : graph.replace old new = Except.ok after) :
    Interchangeable after duplicate survivor := by
  rcases corresponds with ⟨index, _, kind⟩
  rcases replace_eq_ok answer with ⟨_, rfl⟩ | ⟨_, _, rfl⟩
  · exact same
  have ahead : (graph.redirect old new).Needs duplicate → (graph.redirect old new).Needs survivor := by
    intro needs
    rcases needs_of_redirect kind needs with before | direct
    · exact (same.ahead before).redirect kind
    · exact direct
  refine ⟨?_, ?_, by simpa only [needs_prune_iff] using ahead⟩
  · intro node content live live'
    rcases node?_redirect_eq_some.mp (node?_prune.mp live).1 with ⟨first, firstLive, rfl⟩
    rcases node?_redirect_eq_some.mp (node?_prune.mp live').1 with ⟨second, secondLive, rfl⟩
    rcases same.alike first second firstLive secondLive with ⟨inputs, agree⟩
    exact ⟨by rw [inputs], agree⟩
  · intro var position varKind read
    -- A variable that is read keeps its node, and where that one is needed the survivor is.
    rcases read.of_prune.of_redirect with ⟨rfl, _⟩ | ⟨_, wasRead⟩
    · cases kind.symm.trans varKind
      exact absurd rfl different
    · rcases same.read var position varKind wasRead with ⟨⟨node, live⟩, _⟩
      have produced : (graph.redirect old new).producerId? var = some duplicate := by
        rw [producerId?_redirect]
        exact producerId?_eq_some.mpr ⟨node, position, producer?_of_output varKind live⟩
      have needs : (graph.redirect old new).Needs duplicate := mem_ancestorsOf.mp (read.kept produced)
      exact ⟨(needs_prune_iff.mpr needs).live, (needs_prune_iff.mpr (ahead needs)).live⟩

/-- How far merging has come: outputs stand for what they stood for at the start, and in front of needed
nodes there are only needed ones. -/
structure Advancing (order taken : List NodeId) (buckets : Buckets) (before after : Editing α) : Prop
    extends Keeping order taken buckets after.graph, Faithful before after where
  needed : ∀ id id' node, after.graph.Needs id → Precedes order id' id →
    after.graph.node? id' = some node → after.graph.Needs id'

variable {before state final : Editing α} {node content : Node α}

theorem Advancing.skip (advancing : Advancing order front buckets before state) :
    Advancing order (front ++ [id]) buckets before state :=
  { advancing with
    toKeeping := advancing.toKeeping.mono fun _ member => List.mem_append_left _ member }

theorem Advancing.keep (advancing : Advancing order front buckets before state)
    (live : state.graph.node? id = some node) :
    Advancing order (front ++ [id]) (Edit.keep buckets node.inputs id) before state :=
  { advancing with toKeeping := advancing.toKeeping.keep live }

theorem Advancing.replace (distinct : order.Nodup) (split : order = front ++ duplicate :: back)
    (member : survivor ∈ front) (advancing : Advancing order front buckets before state)
    (same : Interchangeable state.graph duplicate survivor)
    (corresponds : Corresponds state.graph duplicate survivor old new)
    (answer : state.graph.replace old new = Except.ok after) :
    Advancing order front buckets before { state with graph := after } where
  toKeeping := advancing.toKeeping.replace distinct split member
    (fun read => corresponds.elim fun index kinds => (same.read _ index kinds.1 read).1) corresponds
    answer
  toFaithful := advancing.toFaithful.replace (same.stands corresponds) answer
  needed := by
    rcases replace_eq_ok answer with ⟨_, rfl⟩ | ⟨_, _, rfl⟩
    · exact advancing.needed
    · exact fun _ _ _ _ _ live => pruned_prune.needs live

/-- The outputs of a duplicate are replaced one after the other. -/
theorem Advancing.replaceAll {pairs : List (VarId × VarId)} (distinct : order.Nodup)
    (split : order = front ++ duplicate :: back) (member : survivor ∈ front)
    (advancing : Advancing order front buckets before state)
    (same : Interchangeable state.graph duplicate survivor)
    (correspond : ∀ pair ∈ pairs, Corresponds state.graph duplicate survivor pair.1 pair.2)
    (answer : state.graph.replaceAll pairs = Except.ok after) :
    Advancing order front buckets before { state with graph := after } := by
  have different : survivor ≠ duplicate := by
    rintro rfl
    exact Precedes.irrefl distinct ⟨front, back, split, member⟩
  -- A replacement may remove either node, so that they are interchangeable has to be carried along.
  have kept := Checked.foldlM_invariant (fun current : Dataflow α =>
    Advancing order front buckets before { state with graph := current } ∧
      Interchangeable current duplicate survivor ∧
      ∀ pair ∈ pairs, Corresponds current duplicate survivor pair.1 pair.2) ?_
    ⟨advancing, same, correspond⟩ answer
  · exact kept.1
  · rintro current pair pairMem next ⟨advancing, same, correspond⟩ answer
    have corresponds := correspond pair pairMem
    have advanced := advancing.replace distinct split member same corresponds answer
    exact ⟨advanced, same.replace different corresponds answer, fun other otherMem =>
      (correspond other otherMem).replace answer⟩

/-- A node and the one that it is merged into are interchangeable. -/
theorem Advancing.interchangeable (advancing : Advancing order front buckets before state)
    (split : order = front ++ duplicate :: back) (live : state.graph.node? duplicate = some node)
    (kept : survivor ∈ bucket buckets node.inputs)
    (survivorLive : state.graph.node? survivor = some content) (same : content.op == node.op) :
    Interchangeable state.graph duplicate survivor where
  alike first second firstLive secondLive := by
    cases live.symm.trans firstLive
    cases survivorLive.symm.trans secondLive
    refine ⟨(advancing.inputs _ survivor kept content survivorLive).symm, fun hosts operands => ?_⟩
    refine (Op.evaluate_of_beq same (fun x y op op' equal => ?_) hosts operands).symm
    exact advancing.fills survivor duplicate content node x y survivorLive live op op' equal
  read _ _ _ _ := ⟨⟨node, live⟩, content, survivorLive⟩
  ahead needs := advancing.needed duplicate survivor content needs
    ⟨front, back, split, advancing.front _ survivor kept⟩ survivorLive

theorem mergeStep_advancing {progress next : Nat × Buckets} (distinct : order.Nodup)
    (split : order = front ++ id :: back)
    (advancing : Advancing order front progress.2 before state)
    (ran : mergeStep progress id state = .ok next final) :
    Advancing order (front ++ [id]) next.2 before final := by
  cases merges_of_mergeStep ran with
  | skip _ => exact advancing.skip
  | keep live _ => exact advancing.keep live
  | merge live kept survivorLive same replaced =>
    refine (advancing.replaceAll distinct split (advancing.front _ _ kept)
      (advancing.interchangeable split live kept survivorLive same) ?_ replaced).skip
    exact fun pair => corresponds_of_mem_zip advancing.formed live survivorLive

theorem mergeSteps_advancing {progress next : Nat × Buckets} (distinct : order.Nodup)
    (split : order = front ++ back) (advancing : Advancing order front progress.2 before state)
    (ran : back.foldlM mergeStep progress state = .ok next final) :
    Advancing order order next.2 before final := by
  induction back generalizing front progress state with
  | nil =>
    simp only [List.foldlM_nil, pure_eq_ok_iff] at ran
    rcases ran with ⟨rfl, rfl⟩
    simp only [List.append_nil] at split
    exact split ▸ advancing
  | cons id rest ih =>
    simp only [List.foldlM_cons, bind_eq_ok_iff] at ran
    rcases ran with ⟨middle, between, first, others⟩
    exact ih (by simpa using split) (mergeStep_advancing distinct split advancing first) others

end Nodes

section Merge

variable {before after : Editing α}

theorem faithful_merge {changed : Bool} (identical : ∀ x y : α, Arithmetic.identical x y → x = y)
    (formed : before.graph.Formed) (first : before.graph.NeededFirst)
    (typed : before.graph.ConstantsTyped) (fills : before.graph.FillsAgree)
    (ran : merge before = .ok changed after) : Faithful before after := by
  rcases bind_eq_ok_iff.mp (mapError_eq_ok_iff.mp ran) with ⟨constants, middle, merged, ran⟩
  rcases faithful_mergeConstants identical formed fills first typed merged with ⟨faithful, first'⟩
  rw [bind_of_ok (graph_run middle)] at ran
  rcases bind_eq_ok_iff.mp ran with ⟨order, between, ordered, ran⟩
  rcases ofChecked_eq_ok_iff.mp ordered with ⟨answer, rfl⟩
  rcases bind_eq_ok_iff.mp ran with ⟨result, final, nodes, counted⟩
  simp only [pure_eq_ok_iff] at counted
  rcases counted with ⟨_, rfl⟩
  have respects := respects_of_order answer
  have start : Advancing order [] [] before middle := {
    toKeeping := ⟨respects.producers_first, by simp [bucket], by simp [bucket]⟩
    toFaithful := faithful
    needed := fun _ _ _ needs ahead _ => first'.needs_of_precedes answer needs ahead }
  exact (mergeSteps_advancing respects.distinct (List.nil_append _).symm start nodes).toFaithful

/-- A merge makes no difference to what the outputs stand for, bit by bit, if equal numbers to fill
arrays with give equal elements. -/
theorem sameAnswers_of_merge {changed : Bool}
    (identical : ∀ x y : α, Arithmetic.identical x y → x = y) (formed : before.graph.Formed)
    (first : before.graph.NeededFirst) (typed : before.graph.ConstantsTyped)
    (fills : before.graph.FillsAgree) (ran : merge before = .ok changed after) :
    after.memory = before.memory ∧ after.graph.inputs = before.graph.inputs ∧
      SameAnswers before.memory before.graph after.graph := by
  have faithful := faithful_merge identical formed first typed fills ran
  exact ⟨faithful.memory, faithful.declared, faithful.answers⟩

/-- A graph that has been captured and then changed in any way is merged without a difference to what
its outputs stand for, if equal numbers to fill arrays with give equal elements. -/
theorem sameAnswers_of_merge_changed {source : Graph α} {graph : Dataflow α}
    {inputs outputs : List VarId} {requireDependence changed : Bool}
    (identical : ∀ x y : α, Arithmetic.identical x y → x = y) (built : source.Built)
    (captured : capture source inputs outputs requireDependence = Except.ok graph)
    (changes : List (Change α)) (unaltered : before.graph = graph.changeAll changes)
    (fills : before.graph.FillsAgree) (ran : merge before = .ok changed after) :
    after.memory = before.memory ∧ after.graph.inputs = before.graph.inputs ∧
      SameAnswers before.memory before.graph after.graph := by
  have mergeable := mergeable_of_changes built captured changes
  rw [← unaltered] at mergeable
  rcases mergeable with ⟨formed, first, typed⟩
  have faithful := faithful_merge identical formed first typed fills ran
  exact ⟨faithful.memory, faithful.declared, faithful.answers⟩

end Merge

end Edit

namespace Dataflow

/-- Two arrays of the size of a vector, each filled with a number. -/
def filledBoth (first second : Float) : Dataflow Float where
  vars := #[⟨ArrayType.ofRank .float64 1, .input, some "x"⟩,
    ⟨ArrayType.ofRank .float64 1, .output ⟨0⟩ 0, none⟩,
    ⟨ArrayType.ofRank .float64 1, .output ⟨1⟩ 0, none⟩]
  nodes := #[some ⟨.fill first, [⟨0⟩], [⟨1⟩]⟩, some ⟨.fill second, [⟨0⟩], [⟨2⟩]⟩]
  inputs := [⟨0⟩]
  outputs := [⟨1⟩, ⟨2⟩]
  guarded := []

/-- The first of the arrays in the place of both. -/
def filledOnce (first : Float) : Dataflow Float :=
  { filledBoth first first with
    nodes := #[some ⟨.fill first, [⟨0⟩], [⟨1⟩]⟩, none]
    outputs := [⟨1⟩, ⟨1⟩] }

/-- Two arrays are one if their numbers count as equal. -/
theorem merge_filledBoth {first second : Float} (same : first == second) :
    Edit.merge ⟨filledBoth first second, ⟨#[], #[]⟩, []⟩ =
      .ok true ⟨filledOnce first, ⟨#[], #[]⟩, []⟩ := by
  have ordered : (filledBoth first second).order .empty = Except.ok [⟨0⟩, ⟨1⟩] := rfl
  have replacing : Edit.mergeNode ⟨1⟩ ⟨0⟩ ⟨filledBoth first second, ⟨#[], #[]⟩, []⟩ =
      .ok true ⟨filledOnce first, ⟨#[], #[]⟩, []⟩ := by
    cbv
  have kept : Edit.mergeStep (0, []) ⟨0⟩ ⟨filledBoth first second, ⟨#[], #[]⟩, []⟩ =
      .ok (0, [([⟨0⟩], [⟨0⟩])]) ⟨filledBoth first second, ⟨#[], #[]⟩, []⟩ := rfl
  have merged : Edit.mergeStep (0, [([⟨0⟩], [⟨0⟩])]) ⟨1⟩ ⟨filledBoth first second, ⟨#[], #[]⟩, []⟩ =
      .ok (1, [([⟨0⟩], [⟨0⟩])]) ⟨filledOnce first, ⟨#[], #[]⟩, []⟩ := by
    have live : (filledBoth first second).node? ⟨1⟩ = some ⟨.fill second, [⟨0⟩], [⟨2⟩]⟩ := rfl
    refine (bind_of_ok (Edit.graph_run _)).trans ?_
    have free : (.fill second : Op Float).isDestructive = false := rfl
    simp only [live, free, Bool.false_eq_true, if_false]
    generalize found : List.find? _ _ = survivor?
    cases found.symm.trans (List.find?_cons_of_pos same)
    exact (bind_of_ok replacing).trans rfl
  have constants : (Edit.mergeConstants : Edit Float GraphError Nat)
      ⟨filledBoth first second, ⟨#[], #[]⟩, []⟩ = .ok 0 ⟨filledBoth first second, ⟨#[], #[]⟩, []⟩ := rfl
  refine Edit.mapError_eq_ok_iff.mpr ((bind_of_ok constants).trans ?_)
  refine (bind_of_ok (Edit.graph_run _)).trans ?_
  refine (bind_of_ok (Edit.ofChecked_eq_ok_iff.mpr ⟨ordered, rfl⟩)).trans ?_
  exact (bind_of_ok ((bind_of_ok kept).trans ((bind_of_ok merged).trans rfl))).trans rfl

theorem pruned_filledBoth (first second : Float) : (filledBoth first second).Pruned := by
  have same : (filledBoth first second).prune = filledBoth first second := by cbv
  exact same ▸ pruned_prune

theorem constantsTyped_filledBoth (first second : Float) : (filledBoth first second).ConstantsTyped := by
  rintro ⟨_ | _ | _ | index⟩ value kind <;> cases kind

/-- Floats with the same bits are the same. -/
theorem eq_of_identical_float {x y : Float} (same : Arithmetic.identical x y) : x = y := by
  rcases x with ⟨⟨bits, valid⟩⟩
  rcases y with ⟨⟨bits', valid'⟩⟩
  change (bits == bits') = true at same
  cases beq_iff_eq.mp same
  rfl

/-- Two arrays filled with one are one array of ones. -/
theorem sameAnswers_of_merge_filledBoth :
    Edit.merge ⟨filledBoth 1 1, ⟨#[], #[]⟩, []⟩ = .ok true ⟨filledOnce 1, ⟨#[], #[]⟩, []⟩ ∧
      SameAnswers ⟨#[], #[]⟩ (filledBoth 1 1) (filledOnce 1) := by
  have ops : ∀ id node, (filledBoth 1 1).node? id = some node → node.op = .fill 1 := by
    rintro ⟨_ | _ | index⟩ node live <;> cases live
    · rfl
    · rfl
  have fills : (filledBoth 1 1).FillsAgree := by
    intro id id' node node' x y live live' op op' _ element
    cases (ops id node live).symm.trans op
    cases (ops id' node' live').symm.trans op'
    rfl
  have ran : Edit.merge ⟨filledBoth 1 1, ⟨#[], #[]⟩, []⟩ = .ok true ⟨filledOnce 1, ⟨#[], #[]⟩, []⟩ :=
    merge_filledBoth (by decide)
  exact ⟨ran, (Edit.sameAnswers_of_merge (fun _ _ => eq_of_identical_float) (by decide)
    (pruned_filledBoth 1 1).neededFirst (constantsTyped_filledBoth 1 1) fills ran).2.2⟩

/-- The zeros count as equal and have different bits: the second output turns from one to the other. -/
theorem not_sameAnswers_filledBoth : (filledBoth 0 (-0)).Formed ∧ (filledBoth 0 (-0)).Pruned ∧
    (filledBoth 0 (-0)).ConstantsTyped ∧
    Edit.merge ⟨filledBoth 0 (-0), ⟨#[], #[]⟩, []⟩ = .ok true ⟨filledOnce 0, ⟨#[], #[]⟩, []⟩ ∧
    ¬SameAnswers ⟨#[], #[]⟩ (filledBoth 0 (-0)) (filledOnce 0) := by
  refine ⟨by decide, pruned_filledBoth _ _, constantsTyped_filledBoth _ _,
    merge_filledBoth (by decide), ?_⟩
  intro same
  let hosts : Meaning Float := fun _ _ => Checked.abort (.noSuchOperand 0)
  let given : VarId → Option (Tensor Float) := fun _ => some ⟨.float64, [1], #[1]⟩
  have yields : ∀ (graph : Dataflow Float) var number outputs,
      graph.producerNode? var = some (⟨.fill number, [⟨0⟩], outputs⟩, 0) →
      graph.producerNode? ⟨0⟩ = none → graph.environment ⟨#[], #[]⟩ given ⟨0⟩ = given ⟨0⟩ →
      graph.Yields hosts ⟨#[], #[]⟩ given var ⟨.float64, [1], #[number]⟩ := by
    intro graph var number outputs produced unproduced root
    refine .output (fun _ => ⟨.float64, [1], #[1]⟩) produced ?_ rfl rfl
    intro input member
    cases List.mem_singleton.mp member
    exact .root unproduced root
  have before := yields (filledBoth 0 (-0)) ⟨2⟩ (-0) [⟨2⟩] rfl rfl rfl
  have after := yields (filledOnce 0) ⟨1⟩ 0 [⟨1⟩] rfl rfl rfl
  rcases same with _ | ⟨_, _ | ⟨second, _⟩⟩
  have zeros := ((second hosts given _).mp before).unique after
  simp only [Tensor.mk.injEq] at zeros
  exact absurd zeros.2.2 (by decide)

end Dataflow

end ArrayGraph
