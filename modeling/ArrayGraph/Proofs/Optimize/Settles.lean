import ArrayGraph.Proofs.Optimize.Irredundant
import ArrayGraph.Proofs.Optimize.Meaning
import ArrayGraph.Proofs.Optimize.Search

/-!
# Two scans are enough

A stage of rules that offer what they find settles in one scan: the next one applies nothing. Nodes are
scanned in schedule order, so whatever a node depends on comes before it, and a replacement concerns the
node that is scanned and those that come later. What has been scanned looks the same ever after, and so
no rule finds anything there. A node that has been replaced is gone, and nodes that were added for it are
such that no rule looks for them.
-/

namespace ArrayGraph

open Relation Dataflow

variable {α : Type} [Arithmetic α]

theorem Precedes.of_cons {head first second : NodeId} {rest : List NodeId}
    (distinct : (head :: rest).Nodup) (precedes : Precedes (head :: rest) first second)
    (member : first ∈ rest) : Precedes rest first second := by
  rcases precedes with ⟨front, back, split, inFront⟩
  rcases front with _ | ⟨start, front⟩
  · cases inFront
  · rw [List.cons_append, List.cons.injEq] at split
    rcases split with ⟨rfl, rfl⟩
    rcases List.mem_cons.mp inFront with rfl | inFront
    · exact absurd member (List.nodup_cons.mp distinct).1
    · exact ⟨front, back, rfl, inFront⟩

namespace Dataflow

variable {graph : Dataflow α} {old new : VarId} {reader : NodeId} {node : Node α}

omit [Arithmetic α] in
/-- A node that did not read the old variable is what it was. -/
theorem node?_of_unread (live : (graph.redirect old new).prune.node? reader = some node)
    (unread : ∀ original, graph.node? reader = some original → old ∉ original.inputs) :
    graph.node? reader = some node := by
  rcases node?_redirect_eq_some.mp (node?_prune.mp live).1 with ⟨original, originalLive, rfl⟩
  rw [originalLive, substitute_of_notMem (unread original originalLive)]

end Dataflow

variable {inert : Node α → Prop} {rules : List (Rule α)} {rule : Rule α} {before after : Editing α}
  {id : NodeId} {node : Node α}

/-- A graph without destructive nodes that rules can be applied to, and whose constants exist. -/
structure Editing.Plain (editing : Editing α) : Prop where
  ready : editing.graph.Ready
  free : editing.graph.hasDestroyers = false
  known : editing.graph.ConstantsKnown editing.memory

/-- Nothing that a search finds at a node fits. -/
def Search.FindsNothing (search : Search α) (editing : Editing α) (id : NodeId) : Prop :=
  ∀ offer, search editing.memory editing.graph id = some offer → ¬offer.Fits editing.graph id

/-- Nothing that a rule finds at a node fits. -/
def Rule.FindsNothing (inert : Node α → Prop) (rule : Rule α) (editing : Editing α) (id : NodeId) :
    Prop :=
  ∃ search apply, rule.action = .onNode apply ∧ Edit.Settles inert search apply ∧
    search.FindsNothing editing id

namespace Rule

theorem Settles.findsNothing_of_dead (settles : rule.Settles inert)
    (dead : before.graph.node? id = none) : rule.FindsNothing inert before id := by
  rcases settles with ⟨search, apply, action, settles⟩
  refine ⟨search, apply, action, settles, ?_⟩
  rintro offer _ ⟨node, live, _⟩
  rw [dead] at live
  cases live

theorem Settles.findsNothing_of_inert (settles : rule.Settles inert)
    (live : before.graph.node? id = some node) (rest : inert node) :
    rule.FindsNothing inert before id := by
  rcases settles with ⟨search, apply, action, settles⟩
  refine ⟨search, apply, action, settles, fun offer found => ?_⟩
  rw [settles.rests _ _ id node live rest] at found
  cases found

theorem FindsNothing.of_same (nothing : rule.FindsNothing inert before id)
    (formed : before.graph.Formed) (same : before.LooksSame after id) :
    rule.FindsNothing inert after id := by
  rcases nothing with ⟨search, apply, action, settles, nothing⟩
  refine ⟨search, apply, action, settles, fun offer found fits => ?_⟩
  rw [settles.same before after id formed same] at found
  have read := settles.source _ _ id offer formed found
  exact nothing offer found ((Offer.fits_iff_of_same same formed read).mp fits)

end Rule

/-- Rules on nodes that do not fail, that offer what they find, and that look for nothing they add. -/
structure Settling (inert : Node α → Prop) (rules : List (Rule α)) : Prop where
  total : ∀ rule ∈ rules, rule.Total
  settles : ∀ rule ∈ rules, rule.Settles inert
  harmless : ∀ node, inert node → node.op.isDestructive = false

section Calm

variable {extended : Dataflow α}

/-- All that there was is there, and no node has come. -/
structure Calm (before after : Editing α) : Prop where
  plain : after.Plain
  node : ∀ id, after.graph.node? id = before.graph.node? id
  size : before.graph.nodes.size ≤ after.graph.nodes.size
  var : ∀ var : VarId, var.index < before.graph.vars.size → after.graph.var var = before.graph.var var
  keeps : before.memory.Keeps after.memory

theorem Calm.refl (plain : before.Plain) : Calm before before :=
  ⟨plain, fun _ => rfl, Nat.le_refl _, fun _ _ => rfl, Memory.Keeps.refl _⟩

theorem Calm.looksSame (calm : Calm before after) (plain : before.Plain) (id : NodeId) :
    before.LooksSame after id where
  node := calm.node id
  producers node live input member := by
    have known := plain.ready.formed.input_known live member
    simp only [producer?, calm.var input known, calm.node]
  vars := calm.var
  contents var value kind := calm.keeps.read _ (plain.known var value kind)

theorem calm_of_prune (plain : before.Plain) (extend : before.graph.Extends extended)
    (orderly : extended.Orderly) (pruned : after.graph = extended.prune)
    (known : extended.ConstantsKnown after.memory) (keeps : before.memory.Keeps after.memory) :
    Calm before after := by
  have resembles := plain.ready.pruned.resembles_extend plain.ready.formed plain.ready.acyclic extend
    orderly.acyclic
  have node : ∀ id, after.graph.node? id = before.graph.node? id := by
    rw [pruned]
    exact resembles.node
  refine ⟨⟨?_, ?_, ?_⟩, node, ?_, ?_, keeps⟩
  · rw [pruned]
    exact plain.ready.prune_extend extend orderly
  · refine hasDestroyers_eq_false_iff.mpr fun id content live => ?_
    exact hasDestroyers_eq_false_iff.mp plain.free id content (node id ▸ live)
  · rw [pruned]
    exact known
  · rw [pruned]
    simpa [Dataflow.prune] using extend.nodes_size
  · rw [pruned]
    exact fun var inside => extend.var_eq inside

end Calm

section Fires

variable {extended : Dataflow α} {old new : VarId} {reader source : NodeId}

/-- The output of a node has been replaced by a variable that the node depends on, or that was added. -/
structure Fires (inert : Node α → Prop) (before : Editing α) (id : NodeId) (extended : Dataflow α)
    (old new : VarId) : Prop where
  extend : before.graph.Extends extended
  orderly : extended.Orderly
  live : ∃ node, before.graph.node? id = some node ∧ node.outputs = [old]
  types : extended.type old = extended.type new
  proposal : Edit.Proposal inert before.graph extended id new

namespace Fires

theorem producerId?_old (fires : Fires inert before id extended old new) :
    extended.producerId? old = some id := by
  rcases fires.live with ⟨node, live, outputs⟩
  have kind := (fires.orderly.formed.output_known id node (fires.extend.live live) 0 old
    (by simp [outputs])).2
  exact producerId?_eq_some.mpr ⟨node, 0, producer?_of_output kind (fires.extend.live live)⟩

/-- Whoever reads the output reads the node. -/
theorem readsFrom (fires : Fires inert before id extended old new)
    (live : extended.node? reader = some node) (member : old ∈ node.inputs) :
    extended.ReadsFrom reader id :=
  readsFrom_iff.mpr ⟨node, live, old, member, fires.producerId?_old⟩

/-- Nodes that were added read from what the node depends on. -/
theorem upstream (fires : Fires inert before id extended old new)
    (added : before.graph.nodes.size ≤ reader.index) (reads : extended.ReadsFrom reader source) :
    TransGen extended.ReadsFrom id source := by
  rcases readsFrom_iff.mp reads with ⟨node, live, input, member, produced⟩
  rcases fires.proposal.added reader node live with live | ⟨_, _, upstream⟩
  · exact absurd (lt_size_of_node? live) (by omega)
  · exact upstream input member source produced

/-- Nodes that were added do not read the output. -/
theorem old_notMem_inputs (fires : Fires inert before id extended old new)
    (added : before.graph.nodes.size ≤ reader.index) (live : extended.node? reader = some node) :
    old ∉ node.inputs :=
  fun member => fires.orderly.acyclic id (fires.upstream added (fires.readsFrom live member))

theorem upstream_of_computedFrom (fires : Fires inert before id extended old new)
    (computed : extended.ComputedFrom new source) :
    TransGen extended.ReadsFrom id source ∨ before.graph.nodes.size ≤ source.index := by
  rcases computed with ⟨producer, produced, path⟩
  induction path with
  | refl => exact fires.proposal.upstream producer produced
  | tail _ reads ih =>
    left
    rcases ih with upstream | added
    · exact upstream.tail reads
    · exact fires.upstream added reads

/-- Whoever reads the output does not compute the replacement. -/
theorem apart (fires : Fires inert before id extended old new)
    (live : extended.node? reader = some node) (member : old ∈ node.inputs) :
    ¬extended.ComputedFrom new reader := by
  intro computed
  rcases fires.upstream_of_computedFrom computed with upstream | added
  · exact fires.orderly.acyclic id (upstream.tail (fires.readsFrom live member))
  · exact fires.old_notMem_inputs added live member

theorem ne (fires : Fires inert before id extended old new) : old ≠ new := by
  rintro rfl
  rcases fires.proposal.upstream id fires.producerId?_old with cycle | added
  · exact fires.orderly.acyclic id cycle
  · rcases fires.live with ⟨node, live, _⟩
    exact absurd (lt_size_of_node? live) (by omega)

theorem replace (fires : Fires inert before id extended old new) :
    extended.replace old new = Except.ok (extended.redirect old new).prune := by
  have checked : extended.checkReplacement old new = Except.ok () := by
    rcases producerId?_eq_some.mp fires.producerId?_old with ⟨_, _, found⟩
    refine checkReplacement_of_apart (known_of_kind (producer?_eq_some.mp found).1)
      fires.proposal.known fires.types fun reader node live member => ⟨fires.apart live member, ?_⟩
    intro output
    rcases List.mem_iff_getElem?.mp output with ⟨index, listed⟩
    have kind := (fires.orderly.formed.output_known reader node live index new listed).2
    exact fires.apart live member
      ⟨reader, producerId?_eq_some.mpr ⟨node, index, producer?_of_output kind live⟩, ReflTransGen.refl⟩
  rw [Dataflow.replace, if_neg fires.ne, checked]
  rfl

theorem gone (fires : Fires inert before id extended old new) :
    (extended.redirect old new).prune.node? id = none := by
  refine pruned_prune.gone_of_unread fun var produced read => ?_
  rw [read.producerId?_prune, producerId?_redirect] at produced
  rcases read.of_prune.of_redirect with ⟨rfl, _⟩ | ⟨different, _⟩
  · rcases fires.proposal.upstream id produced with cycle | added
    · exact fires.orderly.acyclic id cycle
    · rcases fires.live with ⟨node, live, _⟩
      exact absurd (lt_size_of_node? live) (by omega)
  · rcases fires.live with ⟨node, live, outputs⟩
    rcases producerId?_eq_some.mp produced with ⟨_, index, found⟩
    have member := fires.orderly.formed.mem_outputs_of_kind (fires.extend.live live)
      (producer?_eq_some.mp found).1
    rw [outputs] at member
    exact different (List.mem_singleton.mp member)

theorem free (fires : Fires inert before id extended old new) (plain : before.Plain)
    (harmless : ∀ node, inert node → node.op.isDestructive = false) :
    extended.hasDestroyers = false := by
  refine hasDestroyers_eq_false_iff.mpr fun other node live => ?_
  rcases fires.proposal.added other node live with live | ⟨_, rest, _⟩
  · exact hasDestroyers_eq_false_iff.mp plain.free other node live
  · exact harmless node rest

theorem plain (fires : Fires inert before id extended old new) (plain : before.Plain)
    (harmless : ∀ node, inert node → node.op.isDestructive = false)
    (replaced : after.graph = (extended.redirect old new).prune)
    (known : extended.ConstantsKnown after.memory) : after.Plain := by
  have free := fires.free plain harmless
  have orderly := fires.orderly.replace fires.replace
  have free' := not_hasDestroyers_replace free fires.replace
  rw [← replaced] at orderly free'
  have valid := orderly.formed.valid_of_not_hasDestroyers orderly.acyclic free'
  refine ⟨⟨orderly.formed, ?_, valid⟩, free', ?_⟩
  · rw [replaced]
    exact pruned_prune
  · rw [replaced]
    exact known

end Fires

end Fires

section Scanned

/-- The nodes that are still to come are in order, and no rule finds anything at any other node. -/
structure Scanned (inert : Node α → Prop) (rules : List (Rule α)) (back : List NodeId)
    (editing : Editing α) : Prop where
  plain : editing.Plain
  distinct : back.Nodup
  inside : ∀ id ∈ back, id.index < editing.graph.nodes.size
  sorted : ∀ reader source, editing.graph.ReadsFrom reader source → source ∈ back →
    Precedes back source reader
  nothing : ∀ id, id ∉ back → ∀ rule ∈ rules, rule.FindsNothing inert editing id

variable {back : List NodeId} {extended : Dataflow α} {old new : VarId} {reader source : NodeId}

namespace Scanned

theorem reader_mem (scanned : Scanned inert rules back before)
    (reads : before.graph.ReadsFrom reader source) (waits : source ∈ back) : reader ∈ back := by
  rcases scanned.sorted reader source reads waits with ⟨front, rest, split, _⟩
  simp [split]

theorem calm (scanned : Scanned inert rules back before) (calm : Calm before after) :
    Scanned inert rules back after where
  plain := calm.plain
  distinct := scanned.distinct
  inside id waits := Nat.lt_of_lt_of_le (scanned.inside id waits) calm.size
  sorted reader source reads := by
    rcases readsFrom_iff.mp reads with ⟨node, live, input, member, produced⟩
    rw [calm.node] at live
    have known := scanned.plain.ready.formed.input_known live member
    have same : after.graph.producer? input = before.graph.producer? input :=
      (calm.looksSame scanned.plain reader).producers node live input member
    rw [producerId?, same] at produced
    exact scanned.sorted reader source (readsFrom_iff.mpr ⟨node, live, input, member, produced⟩)
  nothing id scannedId rule member :=
    (scanned.nothing id scannedId rule member).of_same scanned.plain.ready.formed
      (calm.looksSame scanned.plain id)

theorem next {rest : List NodeId} (scanned : Scanned inert rules (id :: rest) before)
    (nothing : ∀ rule ∈ rules, rule.FindsNothing inert before id) : Scanned inert rules rest before where
  plain := scanned.plain
  distinct := (List.nodup_cons.mp scanned.distinct).2
  inside other waits := scanned.inside other (List.mem_cons_of_mem _ waits)
  sorted reader source reads waits :=
    (scanned.sorted reader source reads (List.mem_cons_of_mem _ waits)).of_cons scanned.distinct waits
  nothing other outside := by
    by_cases same : other = id
    · exact same ▸ nothing
    · exact scanned.nothing other (by simp [same, outside])

section Fires

variable {rest : List NodeId} (scanned : Scanned inert rules (id :: rest) before)
  (fires : Fires inert before id extended old new)
include scanned fires

theorem notMem_of_upstream (path : TransGen extended.ReadsFrom id source) :
    source ∉ id :: rest ∧ ∃ node, before.graph.node? source = some node := by
  have formed := scanned.plain.ready.formed
  -- What the node reads comes before it, and what is read by a scanned node has been scanned.
  induction path with
  | single reads =>
    rcases fires.live with ⟨node, live, _⟩
    have reads' := fires.extend.readsFrom_of_live formed live reads
    refine ⟨fun waits => ?_, reads'.live_source⟩
    exact List.not_mem_nil ((scanned.sorted id _ reads' waits).mem_front scanned.distinct rfl)
  | tail _ reads ih =>
    rcases ih with ⟨outside, node, live⟩
    have reads' := fires.extend.readsFrom_of_live formed live reads
    exact ⟨fun waits => outside (scanned.reader_mem reads' waits), reads'.live_source⟩

/-- A node that has been scanned does not read the output. -/
theorem old_notMem_inputs (outside : reader ∉ id :: rest) (live : extended.node? reader = some node) :
    old ∉ node.inputs := by
  rcases fires.proposal.added reader node live with live' | ⟨added, _⟩
  · intro member
    have reads := fires.extend.readsFrom_of_live scanned.plain.ready.formed live'
      (fires.readsFrom live member)
    exact outside (scanned.reader_mem reads List.mem_cons_self)
  · exact fires.old_notMem_inputs added live

/-- A node that has been scanned and is still there looks the same. -/
theorem looksSame (outside : reader ∉ id :: rest)
    (replaced : after.graph = (extended.redirect old new).prune)
    (keeps : before.memory.Keeps after.memory) (live : before.graph.node? reader = some node)
    (live' : after.graph.node? reader = some node) : before.LooksSame after reader where
  node := live'.trans live.symm
  producers content contentLive input member := by
    cases live.symm.trans contentLive
    have formed := scanned.plain.ready.formed
    rw [replaced] at live' ⊢
    have read : (extended.redirect old new).prune.IsRead input := Or.inr ⟨reader, node, live', member⟩
    rw [producer?_prune fun _ produced => read.kept produced, producer?_redirect,
      fires.extend.producer?_eq formed (formed.input_known live member)]
    cases found : before.graph.producer? input with
    | none => rfl
    | some entry =>
      rcases entry with ⟨producer, content, index⟩
      have reads : before.graph.ReadsFrom reader producer :=
        readsFrom_iff.mpr ⟨node, live, input, member, producerId?_eq_some.mpr ⟨content, index, found⟩⟩
      -- The producer has been scanned as well, so the replacement does not change it either.
      have producerLive := fires.extend.live (producer?_eq_some.mp found).2
      have unread := scanned.old_notMem_inputs fires
        (fun waits => outside (scanned.reader_mem reads waits)) producerLive
      simp only [Option.map_some, substitute_of_notMem unread]
  vars var known := by
    rw [replaced]
    exact fires.extend.var_eq known
  contents var value kind := keeps.read _ (scanned.plain.known var value kind)

theorem fired (settling : Settling inert rules)
    (replaced : after.graph = (extended.redirect old new).prune)
    (known : extended.ConstantsKnown after.memory) (keeps : before.memory.Keeps after.memory) :
    Scanned inert rules (id :: rest) after where
  plain := fires.plain scanned.plain settling.harmless replaced known
  distinct := scanned.distinct
  inside other waits := by
    have size := fires.extend.nodes_size
    rw [replaced]
    simpa [Dataflow.prune, Dataflow.redirect] using Nat.lt_of_lt_of_le (scanned.inside other waits) size
  sorted reader source reads waits := by
    rw [replaced] at reads
    rcases readsFrom_iff.mp reads with ⟨node, live, input, member, produced⟩
    have read : (extended.redirect old new).prune.IsRead input := Or.inr ⟨reader, node, live, member⟩
    rw [read.producerId?_prune, producerId?_redirect] at produced
    rcases node?_redirect_eq_some.mp (node?_prune.mp live).1 with ⟨original, originalLive, rfl⟩
    rcases mem_substitute member with ⟨rfl, _⟩ | ⟨_, member⟩
    · rcases fires.upstream_of_computedFrom ⟨source, produced, ReflTransGen.refl⟩ with upstream | added
      · exact absurd waits (scanned.notMem_of_upstream fires upstream).1
      · exact absurd (scanned.inside source waits) (by omega)
    · have reads : extended.ReadsFrom reader source :=
        readsFrom_iff.mpr ⟨original, originalLive, input, member, produced⟩
      rcases fires.proposal.added reader original originalLive with live | ⟨added, _⟩
      · exact scanned.sorted reader source
          (fires.extend.readsFrom_of_live scanned.plain.ready.formed live reads) waits
      · exact absurd waits (scanned.notMem_of_upstream fires (fires.upstream added reads)).1
  nothing other outside rule member := by
    cases live : after.graph.node? other with
    | none => exact (settling.settles rule member).findsNothing_of_dead live
    | some node =>
      have extendedLive : extended.node? other = some node := by
        rw [replaced] at live
        exact node?_of_unread live fun original originalLive =>
          scanned.old_notMem_inputs fires outside originalLive
      rcases fires.proposal.added other node extendedLive with live' | ⟨_, rest, _⟩
      · exact (scanned.nothing other outside rule member).of_same scanned.plain.ready.formed
          (scanned.looksSame fires outside replaced keeps live' live)
      · exact (settling.settles rule member).findsNothing_of_inert live rest

end Fires

end Scanned

end Scanned

namespace Edit

section Iterate

variable {search : Search α} {apply : NodeId → Edit α GraphError (Option (List VarId))}

/-- What became of a node that a rule was tried on: nothing that the rule found fits, and all is as it
was, or its output has been replaced. -/
def Tried (inert : Node α → Prop) (search : Search α) (id : NodeId) (before : Editing α) (count : Nat)
    (after : Editing α) : Prop :=
  count = 0 ∧ search.FindsNothing before id ∧ Calm before after ∨
    ¬search.FindsNothing before id ∧ ∃ extended old new, Fires inert before id extended old new ∧
      after.graph = (extended.redirect old new).prune ∧ extended.ConstantsKnown after.memory ∧
      before.memory.Keeps after.memory

theorem commit_of_fires {middle : Editing α} {old new : VarId}
    (fires : Fires inert before id middle.graph old new) (free : middle.graph.hasDestroyers = false) :
    commit [(old, new)] middle =
      .ok 1 { middle with graph := (middle.graph.redirect old new).prune } := by
  have replaced : (ofChecked (middle.graph.replaceAll [(old, new)]) : Edit α GraphError _) middle =
      .ok (middle.graph.redirect old new).prune middle :=
    ofChecked_eq_ok_iff.mpr ⟨by rw [replaceAll_singleton, fires.replace], rfl⟩
  have ran : replaceValidated [(old, new)] middle =
      .ok true { middle with graph := (middle.graph.redirect old new).prune } := by
    rw [replaceValidated, bind_of_ok (graph_run middle), bind_of_ok replaced, free]
    rfl
  rw [commit, ran]

theorem applyLocal_ends (settles : Settles inert search apply) (total : TotalOnNodes apply)
    (harmless : ∀ node, inert node → node.op.isDestructive = false) (plain : before.Plain)
    (id : NodeId) : Ends (applyLocal apply id) before (Tried inert search id before) fun _ => False := by
  have formed := plain.ready.formed
  refine Ends.after (graph_run before) ?_
  cases live : before.graph.node? id with
  | none =>
    refine Ends.pure (Or.inl ⟨rfl, ?_, Calm.refl plain⟩)
    rintro offer _ ⟨node, live', _⟩
    rw [live] at live'
    cases live'
  | some node =>
    rcases (total id node before plain.ready live).exists_ok with ⟨answer, middle, ran, proposes⟩
    have responds := settles.responds id node before answer middle formed plain.known live ran
    refine Ends.after (mapError_eq_ok_iff.mpr ran) ?_
    cases answer with
    | none =>
      have declined := responds.declined rfl
      refine Ends.after (graph_run middle) ?_
      split
      · exact Ends.after (prune_run middle) (Ends.pure (Or.inl ⟨rfl, declined,
          calm_of_prune plain proposes.extend proposes.orderly rfl responds.known responds.keeps⟩))
      · rename_i size
        have pruned := plain.ready.pruned.extend formed proposes.extend (by simpa using size)
        exact Ends.pure (Or.inl ⟨rfl, declined, calm_of_prune plain proposes.extend proposes.orderly
          pruned.prune_eq.symm responds.known responds.keeps⟩)
    | some new =>
      rcases responds.offered new rfl with
        ⟨output, replacement, offer, outputs, rfl, found, fits, types, proposal⟩
      have fires : Fires inert before id middle.graph output replacement :=
        ⟨proposes.extend, proposes.orderly, ⟨node, live, outputs⟩, types, proposal⟩
      have pairs : replacements node.outputs [replacement] = [(output, replacement)] := by
        simp [replacements, outputs, fires.ne]
      have something : ¬search.FindsNothing before id := fun nothing => nothing offer found fits
      have committed := commit_of_fires fires (fires.free plain harmless)
      dsimp only
      rw [pairs, if_neg (by simp), Ends, committed]
      exact Or.inr ⟨something, middle.graph, output, replacement, fires, rfl, responds.known,
        responds.keeps⟩

omit [Arithmetic α] in
theorem sumOver_ends {κ : Type} {items : List κ} {change : κ → Edit α OptimizeError Nat}
    {bad : Editing α → Prop} (invariant : List κ → Nat → Editing α → Prop)
    (holds : invariant [] 0 before)
    (each : ∀ done item rest total state, items = done ++ item :: rest → invariant done total state →
      Ends (change item) state (fun count final => invariant (done ++ [item]) (total + count) final)
        bad) :
    Ends (sumOver items change) before (fun total final => invariant items total final) bad :=
  Ends.foldlM invariant holds fun done item rest total state split holds =>
    (each done item rest total state split holds).bind fun _ _ holds => Ends.pure holds

def tryRule (id : NodeId) (rule : Rule α) : Edit α OptimizeError Nat :=
  match rule.action with
  | .onNode apply => applyLocal apply id
  | .onGraph _ => pure 0

theorem tryRule_ends (settling : Settling inert rules) (member : rule ∈ rules)
    (settles : Settles inert search apply) (action : rule.action = .onNode apply)
    (plain : before.Plain) :
    Ends (tryRule id rule) before (Tried inert search id before) fun _ => False := by
  have total := settling.total rule member
  rw [Rule.Total, action] at total
  rw [tryRule, action]
  exact applyLocal_ends settles total settling.harmless plain id

/-- A rule that has been tried on a node finds nothing there. -/
theorem tryRule_scans {done : List (Rule α)} {rest : List NodeId} (settling : Settling inert rules)
    (member : rule ∈ rules) (included : ∀ other ∈ done, other ∈ rules)
    (scanned : Scanned inert rules (id :: rest) before)
    (nothing : ∀ other ∈ done, other.FindsNothing inert before id) :
    Ends (tryRule id rule) before (fun _ after => Scanned inert rules (id :: rest) after ∧
      ∀ other ∈ done ++ [rule], other.FindsNothing inert after id) fun _ => False := by
  rcases settling.settles rule member with ⟨search, apply, action, settles⟩
  refine (tryRule_ends settling member settles action scanned.plain).imp ?_ fun _ false => false
  -- Either the node looks the same to the rules tried before, or it is gone for all rules.
  rintro count after (⟨_, found, calm⟩ | ⟨_, extended, old, new, fires, replaced, known, keeps⟩)
  · refine ⟨scanned.calm calm, fun other otherMem => ?_⟩
    have nothing' : other.FindsNothing inert before id := by
      rcases List.mem_append.mp otherMem with earlier | now
      · exact nothing other earlier
      · rw [List.mem_singleton.mp now]
        exact ⟨search, apply, action, settles, found⟩
    exact nothing'.of_same scanned.plain.ready.formed (calm.looksSame scanned.plain id)
  · refine ⟨scanned.fired fires settling replaced known keeps, fun other otherMem => ?_⟩
    have otherMem' : other ∈ rules := by
      rcases List.mem_append.mp otherMem with earlier | now
      · exact included other earlier
      · exact List.mem_singleton.mp now ▸ member
    exact (settling.settles other otherMem').findsNothing_of_dead (replaced ▸ fires.gone)

theorem visit_scans {rest : List NodeId} (settling : Settling inert rules)
    (scanned : Scanned inert rules (id :: rest) before) :
    Ends (sumOver rules (tryRule id)) before (fun _ after => Scanned inert rules rest after)
      fun _ => False := by
  refine (sumOver_ends (fun done _ state => Scanned inert rules (id :: rest) state ∧
    ∀ other ∈ done, other.FindsNothing inert state id) ⟨scanned, by simp⟩ ?_).imp ?_
    fun _ false => false
  · rintro done rule todo total state split ⟨scanned, nothing⟩
    exact tryRule_scans settling (by simp [split]) (fun other member => by simp [split, member])
      scanned nothing
  · rintro total after ⟨scanned, nothing⟩
    exact scanned.next nothing

theorem scan_scans {order : List NodeId} (settling : Settling inert rules)
    (scanned : Scanned inert rules order before) :
    Ends (sumOver order fun id => sumOver rules (tryRule id)) before
      (fun _ after => Scanned inert rules [] after) fun _ => False := by
  -- The invariant is about what is left of the order.
  refine (sumOver_ends (fun done _ state => ∀ back, order = done ++ back →
    Scanned inert rules back state) (fun back same => ?_) ?_).imp ?_ fun _ false => false
  · rw [List.nil_append] at same
    exact same ▸ scanned
  · intro done id rest total state split holds
    refine (visit_scans settling (holds _ split)).imp ?_ fun _ false => false
    intro count after scanned back same
    rw [split, List.append_assoc, List.append_cancel_left_eq] at same
    cases same
    exact scanned
  · exact fun _ after holds => holds [] (by simp)

theorem scanned_of_order {order : List NodeId} (settling : Settling inert rules) (plain : before.Plain)
    (ordered : before.graph.order Orderings.empty = Except.ok order) :
    Scanned inert rules order before := by
  have respects := respects_of_order ordered
  refine ⟨plain, respects.distinct, fun id waits => ?_, fun reader source reads _ =>
    respects.producers_first reader source reads, fun id outside rule member => ?_⟩
  · rcases respects.mem_iff.mp waits with ⟨node, live⟩
    exact lt_size_of_node? live
  · refine (settling.settles rule member).findsNothing_of_dead ?_
    cases live : before.graph.node? id with
    | none => rfl
    | some node => exact absurd (respects.mem_iff.mpr ⟨node, live⟩) outside

/-- An iteration over rules on nodes is a scan. -/
theorem iterate_ends {good : Nat → Editing α → Prop} (settling : Settling inert rules)
    (plain : before.Plain) (idle : rules = [] → good 0 before)
    (scan : ∀ order, before.graph.order Orderings.empty = Except.ok order →
      Ends (sumOver order fun id => sumOver rules (tryRule id)) before good fun _ => False) :
    Ends (iterate rules) before good fun _ => False := by
  have onNodes : ∀ rule ∈ rules, ∃ apply, rule.action = .onNode apply := by
    intro rule member
    rcases settling.settles rule member with ⟨_, apply, action, _⟩
    exact ⟨apply, action⟩
  have locals : rules.filter (·.isLocal) = rules := by
    refine List.filter_eq_self.mpr fun rule member => ?_
    rcases onNodes rule member with ⟨apply, action⟩
    rw [Rule.isLocal, action]
  simp only [iterate, locals]
  refine (sumOver_ends (fun _ total state => total = 0 ∧ state = before) ⟨rfl, rfl⟩ ?_).bind ?_
  · rintro done rule rest total state split ⟨rfl, rfl⟩
    rcases onNodes rule (by simp [split]) with ⟨apply, action⟩
    rw [action]
    exact Ends.pure ⟨rfl, rfl⟩
  · rintro total state ⟨rfl, rfl⟩
    split
    · rename_i none
      exact Ends.pure (idle (List.isEmpty_iff.mp none))
    · rcases plain.ready.acyclic.exists_order with ⟨order, ordered⟩
      refine Ends.after (graph_run state) ?_
      refine Ends.after (ofChecked_eq_ok_iff.mpr ⟨by rw [ordered]; rfl, rfl⟩) ?_
      exact (scan order ordered).bind fun changed after holds => Ends.pure (by rwa [Nat.zero_add])

theorem iterate_scans (settling : Settling inert rules) (plain : before.Plain) :
    Ends (iterate rules) before (fun _ after => Scanned inert rules [] after) fun _ => False := by
  refine iterate_ends settling plain ?_ fun order ordered =>
    scan_scans settling (scanned_of_order settling plain ordered)
  rintro rfl
  exact ⟨plain, List.nodup_nil, by simp, by simp, by simp⟩

/-- Where no rule finds anything, nothing is applied. -/
theorem iterate_nothing (settling : Settling inert rules) (scanned : Scanned inert rules [] before) :
    Ends (iterate rules) before (fun count after => count = 0 ∧ Scanned inert rules [] after)
      fun _ => False := by
  -- No node is left to scan, so the order of this iteration does not matter.
  refine iterate_ends settling scanned.plain (fun _ => ⟨rfl, scanned⟩) fun order _ => ?_
  refine sumOver_ends (fun _ total state => total = 0 ∧ Scanned inert rules [] state) ⟨rfl, scanned⟩ ?_
  rintro _ id _ _ state _ ⟨rfl, scanned⟩
  simp only [Nat.zero_add]
  refine sumOver_ends (fun _ total state => total = 0 ∧ Scanned inert rules [] state) ⟨rfl, scanned⟩ ?_
  rintro _ rule _ _ state split ⟨rfl, scanned⟩
  have member : rule ∈ rules := by simp [split]
  rcases scanned.nothing id List.not_mem_nil rule member with ⟨search, apply, action, settles, nothing⟩
  refine (tryRule_ends settling member settles action scanned.plain).imp ?_ fun _ false => false
  rintro count after (⟨rfl, _, calm⟩ | ⟨something, _⟩)
  · exact ⟨rfl, scanned.calm calm⟩
  · exact absurd nothing something

/-- Repeating a stage of which the second iteration applies nothing. -/
theorem repeatRules_of_second {count : Nat} {middle : Editing α}
    (first : iterate rules before = .ok count middle) (second : iterate rules middle = .ok 0 after)
    (left : Nat) : repeatRules rules (left + 2) 0 0 before =
      .ok (if count = 0 then 1 else 2, count, true) (if count = 0 then middle else after) := by
  rw [repeatRules, bind_of_ok first]
  by_cases none : count = 0
  · simp only [none, if_true]
    rfl
  · simp only [none, if_false]
    rw [repeatRules, bind_of_ok second]
    simp only [Nat.zero_add, if_true]
    rfl

theorem runStage_of_repeatRules {stage : Stage α} {budget : Option Nat} {report : OptimizeReport}
    {iterations applied : Nat} (repeated : repeatRules rules (stageBudget stage.kind budget) 0 0 before =
      .ok (iterations, applied, true) after) (safe : stage.mayDestroy = false) :
    runStage budget report stage rules before = .ok
      { stages := report.stages ++ [⟨stage.name, iterations, applied, true⟩]
        warnings := report.warnings } after := by
  simp only [runStage]
  rw [bind_of_ok repeated]
  simp only [Bool.true_or, if_true, List.forIn_nil, pure_bind, safe, List.append_nil]
  rfl

end Iterate

/-- The stages that are repeated have the default budget and make no node destructive. -/
theorem repeated_of_standard {query : Query} {entry : Stage α × List (Rule α)}
    (member : entry ∈ (Database.standard : Database α).select query)
    (repeated : entry.1.name ∈ ["useless", "canonicalize", "stabilize", "specialize"]) :
    entry.1.kind = .fixedPoint StageKind.defaultBudget ∧ entry.1.mayDestroy = false := by
  have stage := (Database.mem_select member).1
  simp only [Database.standard, List.mem_cons, List.not_mem_nil, or_false] at stage
  rcases stage with same | same | same | same | same | same | same | same | same <;>
    simp [same, Stage.merging, Stage.repeated, Stage.inPlace, Stage.printing] at repeated ⊢

/-- The second iteration of a repeated stage of the standard database applies nothing, whatever rules a
query selects and however large the graph is. So the stage converges in two iterations at most. -/
theorem runStage_settles {query : Query} {stage : Stage α} {rules : List (Rule α)}
    (member : (stage, rules) ∈ (Database.standard : Database α).select query)
    (repeated : stage.name ∈ ["useless", "canonicalize", "stabilize", "specialize"])
    (before : Editing α) (orderly : before.graph.Orderly) (pruned : before.graph.Pruned)
    (free : before.graph.hasDestroyers = false) (known : before.graph.ConstantsKnown before.memory) :
    ∃ count middle after, iterate rules before = .ok count middle ∧
      iterate rules middle = .ok 0 after ∧
      ∀ (budget : Option Nat) (report : OptimizeReport), (∀ limit, budget = some limit → 2 ≤ limit) →
        runStage budget report stage rules before = .ok
          { stages := report.stages ++ [⟨stage.name, if count = 0 then 1 else 2, count, true⟩]
            warnings := report.warnings } (if count = 0 then middle else after) := by
  rcases Rule.settleTogether_of_standard member repeated with ⟨inert, harmless, settles⟩
  rcases repeated_of_standard member repeated with ⟨kind, safe⟩
  have settling : Settling inert rules := ⟨Rule.total_of_standard _ member, settles, harmless⟩
  have valid := orderly.formed.valid_of_not_hasDestroyers orderly.acyclic free
  have plain : before.Plain := ⟨⟨orderly.formed, pruned, valid⟩, free, known⟩
  rcases (iterate_scans settling plain).exists_ok with ⟨count, middle, first, scanned⟩
  rcases (iterate_nothing settling scanned).exists_ok with ⟨_, after, second, rfl, _⟩
  refine ⟨count, middle, after, first, second, fun budget report ample => ?_⟩
  have enough : 2 ≤ stageBudget stage.kind budget := by
    rw [kind]
    cases budget with
    | none => decide
    | some limit => exact Nat.le_trans (ample limit rfl) (Nat.le_max_left limit 1)
  rcases Nat.exists_eq_add_of_le' enough with ⟨left, same⟩
  exact runStage_of_repeatRules (same ▸ repeatRules_of_second first second left) safe

/-- A zero is dropped in the first iteration, and the second one applies nothing. -/
theorem runStage_settles_capturedSum :
    (Stage.repeated "canonicalize" 1 [.addZero, .mulOne, .negNeg, .subSelf, .divSelf], [Rule.addZero]) ∈
        (Database.standard : Database ℚ).select zeroQuery ∧
      capturedSum.Orderly ∧ capturedSum.Pruned ∧ capturedSum.hasDestroyers = false ∧
      capturedSum.ConstantsKnown ⟨#[#[0]], #[]⟩ ∧
      ∃ middle after, iterate [Rule.addZero] ⟨capturedSum, ⟨#[#[0]], #[]⟩, []⟩ = .ok 1 middle ∧
        iterate [Rule.addZero] middle = .ok 0 after ∧
        runStage none ⟨[], []⟩
          (Stage.repeated "canonicalize" 1 [.addZero, .mulOne, .negNeg, .subSelf, .divSelf])
          [Rule.addZero] ⟨capturedSum, ⟨#[#[0]], #[]⟩, []⟩ =
            .ok ⟨[⟨"canonicalize", 2, 1, true⟩], []⟩ after := by
  have member : (Stage.repeated "canonicalize" 1 [.addZero, .mulOne, .negNeg, .subSelf, .divSelf],
      [Rule.addZero]) ∈ (Database.standard : Database ℚ).select zeroQuery := by
    have admitted : Stage.repeated "canonicalize" 1 [.addZero, .mulOne, .negNeg, .subSelf, .divSelf] ∈
        (Database.standard : Database ℚ).stages.filter zeroQuery.admits :=
      List.mem_filter.mpr ⟨by simp [Database.standard], rfl⟩
    exact List.mem_filterMap.mpr ⟨_, admitted, rfl⟩
  have ordered : capturedSum.order Orderings.empty = Except.ok [⟨0⟩] := rfl
  have orderly : capturedSum.Orderly := ⟨by decide, acyclic_of_order ordered⟩
  have pruned : capturedSum.Pruned := by
    have same : capturedSum.prune = capturedSum := rfl
    exact same ▸ pruned_prune
  have known : capturedSum.ConstantsKnown ⟨#[#[0]], #[]⟩ := by
    have kinds : ∀ var ∈ capturedSum.varIds, ∀ value,
        (capturedSum.var var).constant? = some value → value = ⟨.float64, [], ⟨0⟩⟩ := by
      decide
    intro var value kind
    cases kinds var (mem_varIds.mpr (known_of_constant kind)) value (Variable.constant?_eq_some.mpr kind)
    simp [Memory.Knows]
  have first : iterate [Rule.addZero] ⟨capturedSum, ⟨#[#[0]], #[]⟩, []⟩ = .ok 1
      ⟨{ capturedSum with nodes := #[none], outputs := [⟨0⟩] }, ⟨#[#[0]], #[]⟩, []⟩ := by
    cbv
  refine ⟨member, orderly, pruned, rfl, known, ?_⟩
  rcases runStage_settles member (by simp [Stage.repeated]) ⟨capturedSum, ⟨#[#[0]], #[]⟩, []⟩ orderly
    pruned rfl known with ⟨count, middle, after, ran, second, report⟩
  cases first.symm.trans ran
  exact ⟨_, after, first, second, report none ⟨[], []⟩ (by simp)⟩

end Edit

end ArrayGraph
