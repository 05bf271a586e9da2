import ArrayGraph.Function.Compile
import ArrayGraph.Proofs.Function.Signature
import ArrayGraph.Proofs.Optimize.Meaning
import ArrayGraph.Proofs.Run.Stocked

/-!
# What a compilation gives

A compilation goes through its steps in order, and the graph of the function that it gives stands for
the graph it captured: optimization keeps every job by its rules being safe, and so does putting a
view or a copy before an output. What a compilation asks of its rules, it asks for the sake of jobs
only. If nobody asks for results, then whatever the rules are, the graph reads the roots that the
captured graph reads, with the same inputs, guards and host functions.
-/

namespace ArrayGraph

variable {α : Type}

namespace Dataflow

variable {graph after : Dataflow α}

theorem foldl_guard (vars : List VarId) (graph : Dataflow α) :
    vars.foldl guard graph = { graph with guarded := vars.reverse ++ graph.guarded } := by
  induction vars generalizing graph with
  | nil => rfl
  | cons var rest ih => simp [ih, guard]

variable [Arithmetic α] {setting : Setting α} {memory : Memory α} {index : Nat} {view : Bool}

namespace Captured

theorem guardAll (captured : graph.Captured) (vars : List VarId) :
    (vars.foldl Dataflow.guard graph).Captured := by
  induction vars generalizing graph with
  | nil => exact captured
  | cons var rest ih => exact ih (captured.guard var)

end Captured

namespace Serves

/-- Whatever is read in a graph that serves comes from somewhere. -/
theorem closed (serves : graph.Serves setting memory) (closed : setting.base.Closed) :
    graph.Closed := by
  intro var read
  cases produced : graph.producerId? var with
  | some id => exact Or.inr (Or.inr (Or.inr ⟨id, rfl⟩))
  | none =>
    rcases serves.roots_known var read produced with known | constant
    · rw [var_eq_of_further serves.derives.vars known.known, serves.derives.inputs]
      rcases closed var known.read with input | constant | shared | ⟨id, produced⟩
      · exact Or.inl input
      · exact Or.inr (Or.inl constant)
      · exact Or.inr (Or.inr (Or.inl shared))
      · rcases producerId?_eq_some.mp produced with ⟨_, position, found⟩
        exact absurd (producer?_eq_some.mp found).1 (isRoot_iff.mp known.root id position)
    · exact Or.inr (Or.inl constant)

/-- A view or a copy in the place of an output stands for the same. -/
theorem wrapOutput (serves : graph.Serves setting memory)
    (answer : graph.wrapOutput index view = Except.ok after) : after.Serves setting memory := by
  simp only [Dataflow.wrapOutput, Checked.bind_eq_ok_iff, Checked.orError_eq_ok_iff] at answer
  rcases answer with ⟨output, found, new, added, replaced⟩
  have adds := addNodeSingle_eq_ok added
  have read : graph.IsRead output := Or.inl (List.mem_of_getElem? found)
  have plain : (if view then Op.view else Op.copy : Op α).IsPlain := by
    cases view <;> simp [Op.IsPlain]
  have same : ∀ tensor : Tensor α,
      (if view then Op.view else Op.copy : Op α).evaluate setting.hosts [tensor] =
        Except.ok [tensor] := by
    intro tensor
    cases view <;> rfl
  have extended := serves.adds adds plain (by simpa using Or.inl read) (by
    intro job member
    rcases (serves.works job member).reads output read with ⟨tensor, yields, _⟩
    exact ⟨[tensor], [tensor], .cons yields .nil, same tensor⟩)
  have produced := producer?_of_output (adds.output 0 new rfl).2.2 adds.live
  refine extended.replaceOutput (adds.extend.outputs ▸ found)
    ⟨Or.inr (Or.inl ⟨_, producerId?_eq_some.mpr ⟨_, 0, produced⟩⟩), ?_⟩ replaced
  intro job _ tensor yields
  apply (Evaluates.output_iff_forall₂ (producerNode?_eq_some.mpr ⟨_, produced⟩)).mpr
  exact ⟨[tensor], [tensor], .cons yields .nil, same tensor, rfl⟩

theorem protectFrom {destroyed : List VarId} {inputs : List InputContract}
    {outputs : List OutputContract} {rest : List (OutputContract × Nat)} {count total : Nat}
    (serves : graph.Serves setting memory)
    (answer : protectFrom destroyed inputs outputs rest (count, graph) = Except.ok (total, after)) :
    after.Serves setting memory := by
  induction rest generalizing graph count with
  | nil =>
    cases answer
    exact serves
  | cons entry rest ih =>
    simp only [Dataflow.protectFrom, Checked.bind_eq_ok_iff] at answer
    rcases answer with ⟨root, _, answer⟩
    split at answer
    · simp only [Checked.bind_eq_ok_iff] at answer
      rcases answer with ⟨wrapped, wrapping, answer⟩
      exact ih (serves.wrapOutput wrapping) answer
    · exact ih serves answer

theorem protectOutputs {inputs : List InputContract} {outputs : List OutputContract} {count : Nat}
    (serves : graph.Serves setting memory)
    (answer : graph.protectOutputs inputs outputs = Except.ok (count, after)) :
    after.Serves setting memory := by
  unfold Dataflow.protectOutputs at answer
  split at answer
  · exact serves.protectFrom answer
  · cases answer

end Serves

end Dataflow

namespace Compilation

variable {β ε : Type} {state final : Logged α}

theorem ofChecked_eq_ok_iff {wrap : ε → FunctionError} {computation : Checked ε β} {value : β} :
    (ofChecked wrap computation : Compilation α β) state = .ok value final ↔
      computation = Except.ok value ∧ state = final := by
  cases computation <;> simp [ofChecked]

theorem get_eq_ok_iff {value : Logged α} :
    (get : Compilation α (Logged α)) state = .ok value final ↔ state = value ∧ state = final := by
  change EStateM.Result.ok state state = _ ↔ _
  simp

theorem onGraph_eq_ok_iff {wrap : ε → FunctionError} {edit : Edit α ε β} {graph after : Dataflow α}
    {value : β} : onGraph wrap edit graph state = .ok (value, after) final ↔
      edit ⟨graph, state.memory, state.log⟩ = .ok value ⟨after, final.memory, final.log⟩ := by
  unfold onGraph
  split
  · rename_i found editing ran
    rcases editing with ⟨changed, memory, log⟩
    rcases final with ⟨memory', log'⟩
    rw [ran]
    simp only [EStateM.Result.ok.injEq, Prod.mk.injEq, Logged.mk.injEq, Editing.mk.injEq]
    tauto
  · rename_i failure editing ran
    simp [ran]

theorem log_ends {level : LogLevel} {text : String} : Ends (log level text : Compilation α Unit) state
    (fun _ final => final.memory = state.memory) fun _ => True := rfl

/-- Logging never fails. -/
theorem logAll_eq_ok (entries : List LogEntry) (state : Logged α) :
    ∃ final, (entries.forM fun entry => log entry.level entry.text : Compilation α Unit) state =
      .ok () final ∧ final.memory = state.memory := by
  induction entries generalizing state with
  | nil => exact ⟨state, rfl, rfl⟩
  | cons entry rest ih => exact ih _

theorem checkUnused_ends {policy : UnusedInput} {signature : Signature} {graph : Dataflow α} :
    Ends (checkUnused policy signature graph) state
      (fun _ final => final.memory = state.memory) fun _ => True := by
  unfold checkUnused
  refine Ends.forM (fun _ (final : Logged α) => final.memory = state.memory) rfl ?_
  rintro _ ⟨argument, index⟩ _ middle _ same
  dsimp only
  split
  · cases policy with
    | raise => exact trivial
    | warn => exact same
    | ignore => exact same
  · exact same

end Compilation

namespace Compiler

variable [Arithmetic α] {compiler : Compiler α} {graph : Graph α} {spec : FunctionSpec}
  {state final : Logged α} {function : Function α}

/-- A compilation from optimization on. -/
def finish (compiler : Compiler α) (spec : FunctionSpec) (mode : ResolvedMode) (signature : Signature)
    (guarded : Dataflow α) : Compilation α (Function α) := do
  let ((report, _), optimized) ← Compilation.onGraph FunctionError.optimize
    (Edit.optimize compiler.rules mode.optimizer spec.options.budget) guarded
  let (copies, final) ← Compilation.ofChecked FunctionError.graph
    (optimized.protectOutputs signature.inputContracts signature.outputContracts)
  let orderings ← Compilation.ofChecked FunctionError.alias final.validate
  Compilation.log .debug
    s!"compiled graph ({copies} protective copies):\n{final.text (← get).memory}"
  let (executable, linkLog) ← Compilation.ofChecked FunctionError.graph
    (Executable.link mode.linker spec.link final orderings)
  linkLog.forM fun entry => Compilation.log entry.level entry.text
  let profile := if mode.profile || spec.options.profile then some Profile.empty else none
  pure ⟨executable, signature, final, report, profile⟩

theorem finish_eq_ok {mode : ResolvedMode} {signature : Signature} {guarded : Dataflow α}
    (finished : finish compiler spec mode signature guarded state = .ok function final) :
    function.signature = signature ∧ ∃ optimized ordered copies orderings linkLog log,
      Edit.optimize compiler.rules mode.optimizer spec.options.budget
        ⟨guarded, state.memory, state.log⟩ =
          .ok (function.report, ordered) ⟨optimized, final.memory, log⟩ ∧
      optimized.protectOutputs signature.inputContracts signature.outputContracts =
        Except.ok (copies, function.graph) ∧
      function.graph.validate = Except.ok orderings ∧
      Executable.link mode.linker spec.link function.graph orderings =
        Except.ok (function.executable, linkLog) := by
  simp only [finish, bind_eq_ok_iff, Compilation.ofChecked_eq_ok_iff, Compilation.get_eq_ok_iff,
    pure_eq_ok_iff] at finished
  rcases finished with ⟨⟨⟨report, ordered⟩, optimized⟩, afterOptimize, optimizing, ⟨copies, graph⟩, _,
    ⟨protecting, rfl⟩, orderings, _, ⟨validated, rfl⟩, _, _, ⟨rfl, rfl⟩, _, afterLog, logged,
    ⟨executable, linkLog⟩, _, ⟨link, rfl⟩, _, _, loggedAll, rfl, rfl⟩
  rcases Compilation.logAll_eq_ok linkLog afterLog with ⟨_, loggedAll', kept⟩
  rw [loggedAll] at loggedAll'
  cases loggedAll'
  have memory : _ = afterOptimize.memory := kept.trans (Compilation.log_ends.of_ok logged)
  refine ⟨rfl, optimized, ordered, copies, orderings, linkLog, afterOptimize.log, ?_, protecting,
    validated, link⟩
  rw [memory]
  exact Compilation.onGraph_eq_ok_iff.mp optimizing

/-- The steps that a compilation has gone through. -/
theorem compile_eq_ok (compiled : compiler.compile graph spec state = .ok function final) :
    ∃ mode captured optimized ordered copies orderings linkLog log log',
      compiler.modes.resolve spec.mode = Except.ok mode ∧
      Signature.collect state.memory graph spec.inputs spec.outputs spec.updates =
        Except.ok function.signature ∧
      Compilation.captureGraph graph function.signature spec.options.requireDependence =
        Except.ok captured ∧
      Edit.optimize compiler.rules mode.optimizer spec.options.budget
        ⟨Compilation.guardInputs function.signature captured, state.memory, log⟩ =
          .ok (function.report, ordered) ⟨optimized, final.memory, log'⟩ ∧
      optimized.protectOutputs function.signature.inputContracts
        function.signature.outputContracts = Except.ok (copies, function.graph) ∧
      function.graph.validate = Except.ok orderings ∧
      Executable.link mode.linker spec.link function.graph orderings =
        Except.ok (function.executable, linkLog) := by
  simp only [compile, bind_eq_ok_iff, Compilation.ofChecked_eq_ok_iff, Compilation.get_eq_ok_iff]
    at compiled
  rcases compiled with ⟨mode, _, ⟨resolved, rfl⟩, _, _, ⟨rfl, rfl⟩, signature, _, ⟨collected, rfl⟩,
    captured, _, ⟨capturing, rfl⟩, _, checked, unused, rest⟩
  have finished : finish compiler spec mode signature
      (Compilation.guardInputs signature captured) checked = .ok function final := by
    split at rest
    · simp only [bind_eq_ok_iff, Compilation.ofChecked_eq_ok_iff] at rest
      rcases rest with ⟨_, _, ⟨_, rfl⟩, rest⟩
      simpa only [finish, bind_eq_ok_iff, Compilation.ofChecked_eq_ok_iff] using rest
    · exact rest
  have memory := Compilation.checkUnused_ends.of_ok unused
  rcases finish_eq_ok finished with ⟨rfl, optimized, ordered, copies, orderings, linkLog, log,
    optimizing, protecting, validated, link⟩
  exact ⟨mode, captured, optimized, ordered, copies, orderings, linkLog, checked.log, log, resolved,
    collected, capturing, memory ▸ optimizing, protecting, validated, link⟩

/-- A compilation that gets through all of its steps succeeds. -/
theorem compile_of_steps {mode : ResolvedMode} {signature : Signature} {captured optimized : Dataflow α}
    {report : OptimizeReport} {ordered orderings : Orderings} {copies : Nat} {guarded : Dataflow α}
    {executable : Executable α} {linkLog log : List LogEntry} {memory : Memory α}
    (resolved : compiler.modes.resolve spec.mode = Except.ok mode)
    (collected : Signature.collect state.memory graph spec.inputs spec.outputs spec.updates =
      Except.ok signature)
    (capturing : Compilation.captureGraph graph signature spec.options.requireDependence =
      Except.ok captured)
    (used : Compilation.checkUnused spec.options.onUnusedInput signature captured state =
      .ok () state)
    (accepted : spec.options.acceptInPlace = true)
    (optimizing : Edit.optimize compiler.rules mode.optimizer spec.options.budget
      ⟨Compilation.guardInputs signature captured, state.memory, state.log⟩ =
        .ok (report, ordered) ⟨optimized, memory, log⟩)
    (protecting : optimized.protectOutputs signature.inputContracts signature.outputContracts =
      Except.ok (copies, guarded))
    (validated : guarded.validate = Except.ok orderings)
    (link : Executable.link mode.linker spec.link guarded orderings = Except.ok (executable, linkLog)) :
    ∃ final, compiler.compile graph spec state = .ok ⟨executable, signature, guarded, report,
      if mode.profile || spec.options.profile then some Profile.empty else none⟩ final ∧
        final.memory = memory := by
  have ofChecked : ∀ {β ε : Type} {wrap : ε → FunctionError} {computation : Checked ε β} {value : β}
      (state : Logged α), computation = Except.ok value →
        (Compilation.ofChecked wrap computation : Compilation α β) state = .ok value state :=
    fun state same => Compilation.ofChecked_eq_ok_iff.mpr ⟨same, rfl⟩
  rcases Compilation.logAll_eq_ok linkLog ⟨memory, log ++ [⟨.debug,
    s!"compiled graph ({copies} protective copies):\n{guarded.text memory}"⟩]⟩ with
    ⟨final, loggedAll, same⟩
  have finished : finish compiler spec mode signature (Compilation.guardInputs signature captured)
      state = .ok ⟨executable, signature, guarded, report,
        if mode.profile || spec.options.profile then some Profile.empty else none⟩ final := by
    have optimized' : Compilation.onGraph FunctionError.optimize
        (Edit.optimize compiler.rules mode.optimizer spec.options.budget)
        (Compilation.guardInputs signature captured) state =
          .ok ((report, ordered), optimized) ⟨memory, log⟩ :=
      Compilation.onGraph_eq_ok_iff.mpr optimizing
    unfold finish
    refine (bind_of_ok optimized').trans ?_
    refine (bind_of_ok (ofChecked _ protecting)).trans ?_
    refine (bind_of_ok (ofChecked _ validated)).trans ?_
    refine (bind_of_ok rfl).trans ?_
    refine (bind_of_ok rfl).trans ?_
    refine (bind_of_ok (ofChecked _ link)).trans ?_
    exact (bind_of_ok loggedAll).trans rfl
  refine ⟨final, ?_, same⟩
  unfold compile
  refine (bind_of_ok (ofChecked _ resolved)).trans ?_
  refine (bind_of_ok rfl).trans ?_
  refine (bind_of_ok (ofChecked _ collected)).trans ?_
  refine (bind_of_ok (ofChecked _ capturing)).trans ?_
  refine (bind_of_ok used).trans ?_
  rw [if_neg (by simp [accepted])]
  exact finished

/-- The steps of a compilation that selects no rules. -/
theorem compile_of_no_rules {linker : Linker} {profile : Bool} {signature : Signature}
    {captured guarded : Dataflow α} {before orderings : Orderings} {copies : Nat}
    {executable : Executable α} {linkLog log : List LogEntry} {memory : Memory α}
    (resolved : compiler.modes.resolve spec.mode = Except.ok ⟨Query.none, linker, profile⟩)
    (collected : Signature.collect memory graph spec.inputs spec.outputs spec.updates =
      Except.ok signature)
    (capturing : Compilation.captureGraph graph signature spec.options.requireDependence =
      Except.ok captured)
    (used : Compilation.checkUnused spec.options.onUnusedInput signature captured ⟨memory, log⟩ =
      .ok () ⟨memory, log⟩)
    (accepted : spec.options.acceptInPlace = true)
    (valid : (Compilation.guardInputs signature captured).validate = Except.ok before)
    (protecting : (Compilation.guardInputs signature captured).protectOutputs
      signature.inputContracts signature.outputContracts = Except.ok (copies, guarded))
    (validated : guarded.validate = Except.ok orderings)
    (link : Executable.link linker spec.link guarded orderings = Except.ok (executable, linkLog)) :
    ∃ final, compiler.compile graph spec ⟨memory, log⟩ = .ok ⟨executable, signature, guarded, ⟨[], []⟩,
      if profile || spec.options.profile then some Profile.empty else none⟩ final := by
  have collecting : Signature.collect (Logged.mk memory log).memory graph spec.inputs spec.outputs
      spec.updates = Except.ok signature := collected
  have optimizing : Edit.optimize compiler.rules Query.none spec.options.budget
      ⟨Compilation.guardInputs signature captured, memory, log⟩ =
        .ok (⟨[], []⟩, before) ⟨Compilation.guardInputs signature captured, memory, log⟩ :=
    Edit.optimize_none valid
  rcases compile_of_steps resolved collecting capturing used accepted optimizing protecting validated
    link with ⟨final, compiled, -⟩
  exact ⟨final, compiled⟩

end Compiler

/-- The constants of a symbolic graph are stored in the memory. -/
def Graph.ConstantsStored [Arithmetic α] (graph : Graph α) (memory : Memory α) : Prop :=
  ∀ id value, graph.HasKind id (.constant value) → memory.Stores value

theorem Graph.constantsStored_of_forall_ne [Arithmetic α] {graph : Graph α}
    (free : ∀ var ∈ graph.vars, ∀ value, var.kind ≠ .constant value) (memory : Memory α) :
    graph.ConstantsStored memory := by
  rintro id value ⟨var, found, kind⟩
  exact absurd kind (free var (Array.mem_of_getElem? found) value)

namespace Signature

variable [Arithmetic α]

/-- A graph captured for a signature: it has the variables and host functions of the symbolic graph,
and takes what the signature lists. -/
structure Captures (signature : Signature) (graph : Graph α) (captured : Dataflow α) : Prop where
  origin : captured.Captured
  vars : captured.vars = graph.vars
  inputs : captured.inputs = signature.inputVars
  ops : ∀ id node, captured.node? id = some node → ∃ content ∈ graph.nodes, content.op = node.op

namespace Captures

variable {signature : Signature} {graph : Graph α} {captured after : Dataflow α} {memory : Memory α}

theorem hasKind (captures : signature.Captures graph captured) {id : VarId} {kind : VarKind}
    (found : (captured.var id).kind = kind) (proper : kind ≠ .input) : graph.HasKind id kind := by
  rw [Dataflow.var, captures.vars] at found
  cases located : graph.vars[id.index]? with
  | none =>
    rw [located] at found
    exact absurd found.symm proper
  | some var =>
    rw [located] at found
    exact ⟨var, located, found⟩

theorem constantsStored (captures : signature.Captures graph captured)
    (stored : graph.ConstantsStored memory) : captured.ConstantsStored memory :=
  fun id value kind => stored id value (captures.hasKind kind (by simp))

theorem replace (captures : signature.Captures graph captured) {old new : VarId}
    (declared : new ∈ signature.inputVars) (answer : captured.replace old new = Except.ok after) :
    signature.Captures graph after := by
  have replaced := captures.origin.replace (captures.inputs ▸ declared) answer
  rcases Dataflow.replace_eq_ok answer with ⟨_, rfl⟩ | ⟨_, _, rfl⟩
  · exact captures
  · refine ⟨replaced, captures.vars, captures.inputs, ?_⟩
    intro id node live
    rcases Dataflow.node?_redirect_eq_some.mp (Dataflow.node?_prune.mp live).1 with
      ⟨original, originalLive, rfl⟩
    exact captures.ops id original originalLive

theorem guardInputs (captures : signature.Captures graph captured) :
    signature.Captures graph (Compilation.guardInputs signature captured) where
  origin := captures.origin.guardAll _
  vars := by simp [Compilation.guardInputs, Dataflow.foldl_guard, captures.vars]
  inputs := by simp [Compilation.guardInputs, Dataflow.foldl_guard, captures.inputs]
  ops id node live := by
    rw [Compilation.guardInputs, Dataflow.foldl_guard] at live
    exact captures.ops id node live

end Captures

/-- The variable of a slot is an input. -/
theorem slot_mem_inputVars {signature : Signature} {slot : SharedSlot}
    (member : slot ∈ signature.shared) : slot.var ∈ signature.inputVars :=
  List.mem_append_right _ (List.mem_map_of_mem member)

theorem captures_of_captureGraph {signature : Signature} {graph : Graph α} {captured : Dataflow α}
    {requireDependence : Bool} (built : graph.Built) (lists : signature.Lists graph)
    (answer : Compilation.captureGraph graph signature requireDependence = Except.ok captured) :
    signature.Captures graph captured := by
  simp only [Compilation.captureGraph, Checked.bind_eq_ok_iff] at answer
  rcases answer with ⟨whole, capturing, replacing⟩
  have start : signature.Captures graph whole := by
    rw [(Dataflow.capture_eq_ok capturing).1]
    refine ⟨(Dataflow.capture_eq_ok capturing).1 ▸ .capture built capturing, rfl, rfl, ?_⟩
    intro id node live
    have found := (Dataflow.node?_prune.mp live).1
    rw [Graph.node?_whole] at found
    exact ⟨node, Array.mem_of_getElem? found, rfl⟩
  refine Checked.foldlM_invariant (signature.Captures graph) ?_ start replacing
  rintro before ⟨old, new⟩ member next captures answer
  rcases lists.aliases _ member with ⟨slot, slotMem, rfl, _⟩
  exact captures.replace (slot_mem_inputVars slotMem) answer

end Signature

namespace Compiler

variable [Arithmetic α] {compiler : Compiler α} {graph : Graph α} {spec : FunctionSpec}
  {state final : Logged α} {function : Function α}

/-- Before the outputs are protected, the graph of a function is valid and does whatever jobs the
captured graph does, if the rules that have been selected are safe for them. -/
theorem serves_of_compile (standard : compiler.rules = Database.standard) (built : graph.Built)
    (stored : graph.ConstantsStored state.memory)
    (compiled : compiler.compile graph spec state = .ok function final) :
    ∃ (mode : ResolvedMode) (captured optimized : Dataflow α) (ordered : Orderings) (copies : Nat),
      compiler.modes.resolve spec.mode = Except.ok mode ∧
      Compilation.captureGraph graph function.signature spec.options.requireDependence =
        Except.ok captured ∧ function.signature.Captures graph captured ∧
      optimized.validate = Except.ok ordered ∧
      optimized.protectOutputs function.signature.inputContracts
        function.signature.outputContracts = Except.ok (copies, function.graph) ∧
      ∀ hosts jobs,
        (∀ job, jobs job → Dataflow.Works (Compilation.guardInputs function.signature captured) hosts
          state.memory job) →
        (∀ job, jobs job → ∀ entry ∈ (Database.standard : Database α).select mode.optimizer,
          ∀ rule ∈ entry.2, rule.tags.contains "unsafe" = false) →
        (∀ job, jobs job →
          Identities α ((Database.standard : Database α).Selects mode.optimizer)) →
        optimized.Serves ⟨hosts, Compilation.guardInputs function.signature captured,
          state.memory, jobs⟩ final.memory := by
  rcases compile_eq_ok compiled with ⟨mode, captured, optimized, ordered, copies, orderings, linkLog,
    log, log', resolved, collected, capturing, optimizing, protecting, validated, link⟩
  have captures := Signature.captures_of_captureGraph built (Signature.lists_of_collect collected)
    capturing
  refine ⟨mode, captured, optimized, ordered, copies, resolved, capturing, captures,
    Edit.validate_of_optimize optimizing, protecting, ?_⟩
  intro hosts jobs works sound obeyed
  have guarded := captures.guardInputs
  have start := guarded.origin.serves_of_works (guarded.constantsStored stored) works
  rw [standard] at optimizing
  have safe : Edit.Safe ⟨hosts, Compilation.guardInputs function.signature captured, state.memory,
      jobs⟩ (Edit.optimize Database.standard mode.optimizer spec.options.budget) :=
    Edit.safe_optimize (Rule.safe_of_standard sound obeyed) spec.options.budget
  exact (safe _ _ _ ⟨start, guarded.origin.pruned⟩ optimizing).graph

end Compiler

namespace Function

variable [Arithmetic α]

/-- What holds of a function of a symbolic graph from its compilation on. -/
structure CompiledFrom (function : Function α) (source : Graph α) : Prop where
  formed : function.graph.Formed
  closed : function.graph.Closed
  lists : function.signature.Lists source
  inputs : function.graph.inputs = function.signature.inputVars
  argument_guarded : ∀ argument ∈ function.signature.arguments, argument.mutable = false →
    argument.var ∈ function.graph.guarded
  slot_guarded : ∀ slot ∈ function.signature.shared, slot.update = none →
    slot.var ∈ function.graph.guarded
  ops : ∀ id node, function.graph.node? id = some node → node.op.IsPlain ∨
    ∃ content ∈ source.nodes, content.op = node.op
  linked : ∃ linker options orderings linked log, function.graph.validate = Except.ok orderings ∧
    Executable.link linker options function.graph orderings = Except.ok (linked, log) ∧
      linked.Used function.executable

variable {function : Function α} {source : Graph α}

theorem compiledFrom_of_compile {compiler : Compiler α} {spec : FunctionSpec}
    {state final : Logged α} (standard : compiler.rules = Database.standard) (built : source.Built)
    (stored : source.ConstantsStored state.memory)
    (compiled : compiler.compile source spec state = .ok function final) :
    function.CompiledFrom source := by
  rcases Compiler.serves_of_compile standard built stored compiled with
    ⟨_, captured, _, _, _, _, _, captures, _, protecting, serves⟩
  rcases Compiler.compile_eq_ok compiled with ⟨mode, _, _, _, _, orderings, log, _, _, _, collected, _,
    _, _, validated, link⟩
  have guarded := captures.guardInputs
  -- Nobody asks for results here, so that all rules are safe.
  have serves := (serves (fun _ _ => Checked.abort (.noSuchOperand 0)) (fun _ => False) (by simp)
    (by simp) (by simp)).protectOutputs protecting
  have guards : ∀ var, var ∈ (function.signature.arguments.filter (!·.mutable)).map (·.var) ++
      (function.signature.shared.filter (·.update.isNone)).map (·.var) →
        var ∈ function.graph.guarded := by
    intro var listed
    rw [serves.derives.guarded, Compilation.guardInputs, Dataflow.foldl_guard]
    exact List.mem_append_left _ (List.mem_reverse.mpr listed)
  refine { formed := serves.toFormed
           closed := serves.closed guarded.origin.closed
           lists := Signature.lists_of_collect collected
           inputs := serves.derives.inputs.trans guarded.inputs
           argument_guarded := ?_, slot_guarded := ?_, ops := ?_
           linked := ⟨mode.linker, spec.link, orderings, _, log, validated, link, .linked⟩ }
  · intro argument member fixed
    apply guards
    exact List.mem_append_left _ (List.mem_map_of_mem (List.mem_filter.mpr ⟨member, by simp [fixed]⟩))
  · intro slot member fixed
    apply guards
    exact List.mem_append_right _ (List.mem_map_of_mem (List.mem_filter.mpr ⟨member, by simp [fixed]⟩))
  · intro id node live
    rcases serves.derives.ops id node live with plain | ⟨origin, content, contentLive, same⟩
    · exact Or.inl plain
    · rcases guarded.ops origin content contentLive with ⟨original, member, same'⟩
      exact Or.inr ⟨original, member, same'.trans same⟩

end Function

end ArrayGraph
