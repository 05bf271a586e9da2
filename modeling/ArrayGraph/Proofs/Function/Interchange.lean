import ArrayGraph.Proofs.Function.Exchange
import ArrayGraph.Proofs.Function.TypeSafe
import ArrayGraph.Proofs.Optimize.Alike

/-!
# Compiling functions that read other variables of the same containers

Each step of a compilation does the same thing to two graphs that differ by an exchange of variables:
arguments are used in one if they are used in the other, the same inputs are guarded, the same rules
apply, and the same outputs are protected. So what is linked in the end differs in nothing but the
order in which containers are read that are neither declared nor updated.
-/

namespace ArrayGraph

variable {α β γ ε : Type} {source : Graph α} {f : VarId → VarId} {σ : VarId → VarId}
  {π : Equiv.Perm Nat}

namespace Compilation

/-- Compilations or calls that go the same way from states with the same memory. -/
abbrev Alike (related : β → γ → Prop) : Compilation α β → Compilation α γ → Prop :=
  Parallel (fun (state state' : Logged α) => state'.memory = state.memory)
    (Failure.Alike fun _ _ => True) related

variable {related : β → γ → Prop} {graph other : Dataflow α}

theorem alike_ofChecked {computation : Checked ε β} {computation' : Checked ε γ}
    (agree : computation.Agree related computation') (wrap : ε → FunctionError) :
    Alike (α := α) related (ofChecked wrap computation) (ofChecked wrap computation') := by
  cases agree with
  | ok same => exact .pure same
  | error same => exact .throw (same.map fun _ _ _ => trivial)

theorem alike_log (level level' : LogLevel) (text text' : String) :
    Alike (α := α) Eq (log level text) (log level' text') :=
  .modify fun _ _ same => same

/-- Whatever is logged, the memory stays the same. -/
theorem alike_logAll (entries entries' : List LogEntry) :
    Alike (α := α) Eq (entries.forM fun entry => log entry.level entry.text)
      (entries'.forM fun entry => log entry.level entry.text) := by
  intro state state' same
  rcases logAll_eq_ok entries state with ⟨_, ran, left⟩
  rcases logAll_eq_ok entries' state' with ⟨_, ran', left'⟩
  rw [ran, ran']
  exact .ok rfl (left'.trans (same.trans left.symm))

theorem alike_onGraph {edit : Edit α ε β} {edit' : Edit α ε γ}
    (edits : Edit.Alike σ π related edit edit') (wrap : ε → FunctionError)
    (alike : graph.Alike σ π other) :
    Alike (fun answer answer' => related answer.1 answer'.1 ∧ answer.2.Alike σ π answer'.2)
      (onGraph wrap edit graph) (onGraph wrap edit' other) := by
  intro state state' same
  have start : Editing.Alike σ π ⟨graph, state.memory, state.log⟩ ⟨other, state'.memory, state'.log⟩ :=
    ⟨alike, same⟩
  unfold onGraph
  rcases (edits _ _ start).cases with ⟨_, _, _, _, ran, ran', same, left⟩ |
    ⟨_, _, _, _, ran, ran', same, left⟩
  · rw [ran, ran']
    exact .ok ⟨same, left.graph⟩ left.memory
  · rw [ran, ran']
    exact .error (same.map fun _ _ _ => trivial) left.memory

end Compilation

namespace Signature

variable {signature signature' : Signature} {front back back' : List SharedSlot}

namespace Corresponds

variable (corresponds : Corresponds source f front back back' signature signature')
  {graph other : Dataflow α}

include corresponds

/-- The same arguments are missing from what outputs depend on. -/
theorem alike_checkUnused (alike : graph.Alike (exchange source signature signature') π other)
    (policy : UnusedInput) :
    Compilation.Alike Eq (Compilation.checkUnused policy signature graph)
      (Compilation.checkUnused policy signature' other) := by
  have used : ∀ argument ∈ signature.arguments,
      (argument.var ∈ other.outputs.flatMap other.rootAncestors ↔
        argument.var ∈ graph.outputs.flatMap graph.rootAncestors) := by
    intro argument member
    have fixed := corresponds.exchange_argument member
    rw [← fixed]
    simp only [List.mem_flatMap, alike.outputs, List.mem_map, exists_exists_and_eq_and,
      alike.mem_rootAncestors_iff]
    rw [fixed]
  unfold Compilation.checkUnused
  rw [corresponds.alike.arguments]
  refine .forM (paired_self _) ?_
  rintro ⟨argument, index⟩ _ ⟨rfl, member⟩
  have listed : argument ∈ signature.arguments := (List.mem_zipIdx' member).2 ▸ List.getElem_mem _
  simp only [used argument listed]
  split
  · cases policy with
    | raise => exact .throw (.error trivial)
    | warn => exact Compilation.alike_log _ _ _ _
    | ignore => exact .pure rfl
  · exact .pure rfl

/-- The same inputs are guarded. -/
theorem alike_guardInputs (alike : graph.Alike (exchange source signature signature') π other) :
    (Compilation.guardInputs signature graph).Alike (exchange source signature signature') π
      (Compilation.guardInputs signature' other) := by
  rw [Compilation.guardInputs, Compilation.guardInputs, Dataflow.foldl_guard, Dataflow.foldl_guard]
  refine ⟨alike.exchanges.extend (List.prefix_refl _), alike.vars, alike.nodes, alike.inputs,
    alike.distinct, alike.outputs, fun id => ?_⟩
  have arguments : exchange source signature signature' id ∈
      (signature.arguments.filter (!·.mutable)).map (·.var) ↔
        id ∈ (signature.arguments.filter (!·.mutable)).map (·.var) := by
    have fixed : ((signature.arguments.filter (!·.mutable)).map (·.var)).map
        (exchange source signature signature') =
          (signature.arguments.filter (!·.mutable)).map (·.var) := by
      rw [List.map_map]
      exact List.map_congr_left fun argument member =>
        corresponds.exchange_argument (List.mem_of_mem_filter member)
    rw [← fixed, alike.exchanges.mem_map_iff, fixed]
  have unwritten : ∀ (slots : List SharedSlot) (var : VarId),
      var ∈ (slots.filter (·.update.isNone)).map (·.var) ↔
        ∃ lent, ∃ slot ∈ slots, slot.var = var ∧ slot.borrow = lent ∧ slot.update.isSome = false := by
    simp [and_comm, and_left_comm]
  simp only [List.mem_append, List.mem_reverse, corresponds.alike.arguments, arguments, unwritten,
    corresponds.exists_slot_iff, alike.guarded]

/-- What was agreed upon for an input that stays is the same. -/
theorem find?_inputContracts {var : VarId} (fixed : exchange source signature signature' var = var) :
    signature'.inputContracts.find? (·.var = var) = signature.inputContracts.find? (·.var = var) := by
  have vars : ∀ signature : Signature, signature.inputContracts.map (·.var) = signature.inputVars := by
    intro signature
    simp [inputContracts, inputVars, Function.comp_def]
  have slots : ∀ (slots : List SharedSlot) (lent updated : Bool),
      InputContract.mk var lent updated ∈
          slots.map (fun slot => InputContract.mk slot.var slot.borrow slot.update.isSome) ↔
        ∃ slot ∈ slots, slot.var = var ∧ slot.borrow = lent ∧ slot.update.isSome = updated := by
    simp
  have same := corresponds.exists_slot_iff var
  simp only [fixed] at same
  refine Option.ext fun contract => ?_
  rw [find?_eq_some_iff_of_distinct (by rw [vars]; exact corresponds.lists'.nodup_inputVars),
    find?_eq_some_iff_of_distinct (by rw [vars]; exact corresponds.lists.nodup_inputVars)]
  refine and_congr_left fun here => ?_
  rcases contract with ⟨_, lent, updated⟩
  subst here
  rw [inputContracts, inputContracts, List.mem_append, List.mem_append, slots, slots, same,
    corresponds.alike.arguments]

/-- What was agreed upon for the outputs is the same, since the containers that are updated are
represented by the same variables. -/
theorem outputContracts_eq : signature'.outputContracts =
    signature.outputContracts.map (·.rename (exchange source signature signature')) := by
  have written : ∀ entry ∈ signature.updated,
      exchange source signature signature' entry.1.var = entry.1.var := by
    intro entry member
    have first := corresponds.alike.mem_front_of_updated member
    have listed : entry.1 ∈ signature.shared :=
      corresponds.alike.shared ▸ List.mem_append_left _ first
    have listed' : entry.1.readAs f ∈ signature'.shared :=
      corresponds.alike.shared' ▸ List.mem_append_left _ (List.mem_map_of_mem first)
    have moved : exchange source signature signature' entry.1.var = (entry.1.readAs f).var :=
      corresponds.exchange_slot listed listed' rfl
    exact moved
  rw [outputContracts, outputContracts, corresponds.alike.outputs, corresponds.alike.updated_eq,
    List.map_append, List.map_map, List.map_map, List.map_map, List.map_map]
  refine congrArg₂ _ rfl (List.map_congr_left fun entry member => ?_)
  simp only [Function.comp_apply, OutputContract.rename, Option.map_some, written entry member]
  rfl

end Corresponds

end Signature

namespace Compiler

variable [Arithmetic α] {compiler : Compiler α} {spec : FunctionSpec} {signature signature' : Signature}
  {front back back' : List SharedSlot} {mode : ResolvedMode}

/-- What is left of a compilation once the part of the graph is known comes to the same. -/
theorem alike_finish (spec : FunctionSpec) (mode : ResolvedMode)
    (standard : compiler.rules = Database.standard)
    (corresponds : signature.Corresponds source f front back back' signature')
    (rearranges : signature.Rearranges π signature') {guarded guarded' : Dataflow α}
    (alike : guarded.Alike (Signature.exchange source signature signature') π guarded') :
    Compilation.Alike (Function.Alike π) (compiler.finish spec mode signature guarded)
      (compiler.finish (spec.readAs f) mode signature' guarded') := by
  unfold finish
  rw [standard]
  refine (Compilation.alike_onGraph (Edit.alike_optimize _ _) _ alike).bind ?_
  rintro ⟨⟨report, ordered⟩, optimized⟩ ⟨⟨_, ordered'⟩, optimized'⟩ ⟨⟨rfl, -⟩, alike⟩
  have contracts : ∀ var, (optimized.var var).kind = .input →
      signature'.inputContracts.find? (·.var = var) = signature.inputContracts.find? (·.var = var) := by
    intro var kind
    refine corresponds.find?_inputContracts (alike.exchanges.fixes_of_kind fun container => ?_)
    rw [kind]
    exact VarKind.noConfusion
  rw [corresponds.outputContracts_eq]
  refine (Compilation.alike_ofChecked (alike.protectOutputs contracts) _).bind ?_
  rintro ⟨copies, final⟩ ⟨_, final'⟩ ⟨rfl, alike⟩
  refine (Compilation.alike_ofChecked alike.validate _).bind fun orderings orderings' same => ?_
  refine Parallel.get.bind fun _ _ _ => ?_
  refine (Compilation.alike_log _ _ _ _).bind fun _ _ _ => ?_
  refine (Compilation.alike_ofChecked (Executable.alike_link alike same _ _) _).bind ?_
  rintro ⟨executable, log⟩ ⟨executable', log'⟩ executables
  refine (Compilation.alike_logAll _ _).bind fun _ _ _ => ?_
  exact .pure ⟨rearranges, executables, rfl, rfl⟩

/-- What a compilation does with the part of the graph that has been captured. -/
def settle (compiler : Compiler α) (spec : FunctionSpec) (mode : ResolvedMode) (signature : Signature)
    (captured : Dataflow α) : Compilation α (Function α) := do
  Compilation.checkUnused spec.options.onUnusedInput signature captured
  let guarded := Compilation.guardInputs signature captured
  if !spec.options.acceptInPlace then
    Compilation.ofChecked FunctionError.alias guarded.checkNoInPlace
  compiler.finish spec mode signature guarded

theorem compile_of_resolve {state : Logged α}
    (resolved : compiler.modes.resolve spec.mode = Except.ok mode) :
    compiler.compile source spec state =
      (Compilation.ofChecked id
          (Signature.collect state.memory source spec.inputs spec.outputs spec.updates) >>=
        fun signature => Compilation.ofChecked FunctionError.graph
          (Compilation.captureGraph source signature spec.options.requireDependence) >>=
        compiler.settle spec mode signature) state := by
  unfold compile
  rw [resolved]
  rfl

theorem compile_of_collect {state : Logged α}
    (resolved : compiler.modes.resolve spec.mode = Except.ok mode)
    (collected : Signature.collect state.memory source spec.inputs spec.outputs spec.updates =
      Except.ok signature) :
    compiler.compile source spec state =
      (Compilation.ofChecked FunctionError.graph
          (Compilation.captureGraph source signature spec.options.requireDependence) >>=
        compiler.settle spec mode signature) state := by
  rw [compile_of_resolve resolved, collected]
  rfl

theorem alike_settle (standard : compiler.rules = Database.standard)
    (corresponds : signature.Corresponds source f front back back' signature')
    (rearranges : signature.Rearranges π signature') {captured captured' : Dataflow α}
    (alike : captured.Alike (Signature.exchange source signature signature') π captured') :
    Compilation.Alike (Function.Alike π) (compiler.settle spec mode signature captured)
      (compiler.settle (spec.readAs f) mode signature' captured') := by
  have guarded := corresponds.alike_guardInputs alike
  have finished := alike_finish spec mode standard corresponds rearranges guarded
  have accepted := Compilation.alike_ofChecked (α := α) guarded.checkNoInPlace FunctionError.alias
  have options : (spec.readAs f).options = spec.options := rfl
  unfold settle
  rw [options]
  refine (corresponds.alike_checkUnused alike _).bind fun _ _ _ => ?_
  cases spec.options.acceptInPlace with
  | false => exact accepted.bind fun _ _ _ => finished
  | true => exact finished

/-- The compilation is refused, before anything else is done, because an output depends on no declared
input. -/
def Disconnects (compiler : Compiler α) (source : Graph α) (spec : FunctionSpec) (state : Logged α) :
    Prop :=
  ∃ position, compiler.compile source spec state =
    .error (.error (.graph (.disconnectedOutput position))) state

theorem disconnects_of_captureGraph {state : Logged α} {position : Nat}
    (resolved : compiler.modes.resolve spec.mode = Except.ok mode)
    (collected : Signature.collect state.memory source spec.inputs spec.outputs spec.updates =
      Except.ok signature)
    (refused : Compilation.captureGraph source signature spec.options.requireDependence =
      Checked.raise (.disconnectedOutput position)) :
    compiler.Disconnects source spec state := by
  refine ⟨position, ?_⟩
  rw [compile_of_collect resolved collected, refused]
  rfl

theorem corresponds_of_collect (built : source.Built) (typed : source.TypesShared)
    (interchanges : source.Interchanges f) {memory : Memory α}
    (alike : signature.Alike f front back back' signature')
    (collected : Signature.collect memory source spec.inputs spec.outputs spec.updates =
      Except.ok signature)
    (collected' : Signature.collect memory (source.readAs f) (spec.readAs f).inputs
      (spec.readAs f).outputs (spec.readAs f).updates = Except.ok signature') :
    signature.Corresponds source f front back back' signature' := by
  have lists' := Signature.lists_of_collect collected'
  exact ⟨interchanges, typed, alike, Signature.lists_of_collect collected,
    ⟨lists'.arguments, lists'.arguments_distinct, lists'.shared, lists'.containers_distinct,
      lists'.aliases⟩,
    Signature.covers_of_collect built.operands_known collected,
    Signature.covers_of_collect (interchanges.operands_known built.operands_known) collected'⟩

/-- Two ways to read the same containers compile alike, unless one of the compilations is refused
because an output depends on no declared input. -/
theorem compile_cases (standard : compiler.rules = Database.standard) (built : source.Built)
    (typed : source.TypesShared) (interchanges : source.Interchanges f) (spec : FunctionSpec)
    (state : Logged α) :
    Outcomes (fun left left' : Logged α => left'.memory = left.memory)
        (Failure.Alike fun _ _ => True) (fun function function' => ∃ π, function.Alike π function')
        (compiler.compile source spec state)
        (compiler.compile (source.readAs f) (spec.readAs f) state) ∨
      spec.options.requireDependence = true ∧ (compiler.Disconnects source spec state ∨
        compiler.Disconnects (source.readAs f) (spec.readAs f) state) := by
  have collects := Signature.collect_readAs state.memory interchanges built.operands_known
    spec.inputs spec.outputs spec.updates
  cases resolved : compiler.modes.resolve spec.mode with
  | error failure =>
    have resolved' : compiler.modes.resolve (spec.readAs f).mode = Except.error failure := resolved
    refine Or.inl ?_
    unfold compile
    rw [resolved, resolved']
    exact .error (.refl (fun _ => trivial) _) rfl
  | ok mode =>
    have resolved' : compiler.modes.resolve (spec.readAs f).mode = Except.ok mode := resolved
    rcases collects.cases with ⟨signature, signature', collected, collected', front, back, back', alike⟩ |
      ⟨failure, failure', failed, failed', same⟩
    · have corresponds := corresponds_of_collect built typed interchanges alike collected collected'
      rcases alike.exists_rearrangement with ⟨π, rearranges⟩
      rcases corresponds.alike_captureGraph built rearranges spec.options.requireDependence with
        captures | ⟨required, position, refused | refused⟩
      · refine Or.inl ?_
        rw [compile_of_collect resolved collected, compile_of_collect resolved' collected']
        refine Parallel.bind (Compilation.alike_ofChecked captures _) (fun _ _ captured => ?_) _ _ rfl
        exact (alike_settle standard corresponds rearranges captured).imp fun _ _ same => ⟨π, same⟩
      · exact Or.inr ⟨required, Or.inl (disconnects_of_captureGraph resolved collected refused)⟩
      · exact Or.inr ⟨required, Or.inr (disconnects_of_captureGraph resolved' collected' refused)⟩
    · have refused' : Signature.collect state.memory (source.readAs f) (spec.readAs f).inputs
          (spec.readAs f).outputs (spec.readAs f).updates = Except.error failure' := failed'
      refine Or.inl ?_
      rw [compile_of_resolve resolved, compile_of_resolve resolved', failed, refused']
      exact .error (same.map fun _ _ _ => trivial) rfl

omit [Arithmetic α] in
theorem typesShared_of_containersTyped {memory : Memory α} (typed : source.ContainersTyped memory) :
    source.TypesShared := by
  intro id other var var' container found found' kind kind'
  exact (typed other var' container found' kind').2.1.symm.trans (typed id var container found kind).2.1

omit [Arithmetic α] in
theorem interchanges_redirect {memory : Memory α} (typed : source.ContainersTyped memory)
    {read other : VarId} {container : ContainerId} (kind : source.HasKind read (.shared container))
    (kind' : source.HasKind other (.shared container)) :
    source.Interchanges (VarId.redirect read other) := by
  intro id moved
  have same : id = read := by
    by_contra apart
    exact moved (if_neg apart)
  subst same
  rcases kind with ⟨var, found, kind⟩
  rcases kind' with ⟨var', found', kind'⟩
  have redirected : VarId.redirect id other id = other := if_pos rfl
  refine ⟨var, var', container, found, ?_, kind, kind',
    typesShared_of_containersTyped typed id other var var' container found found' kind kind'⟩
  rw [redirected, found']

/-- The variables of a container are interchangeable: whichever of them is read, the compilation
succeeds alike, and the functions answer every sequence of calls alike. This is as long as the check
that outputs depend on declared inputs, if it is asked for, refuses both compilations or neither. -/
theorem interchangeable_of_hasKind (standard : compiler.rules = Database.standard)
    (built : source.Built) {state : Logged α} (typed : source.ContainersTyped state.memory)
    {read other : VarId} {container : ContainerId} (kind : source.HasKind read (.shared container))
    (kind' : source.HasKind other (.shared container)) (spec : FunctionSpec)
    (dependence : spec.options.requireDependence = true →
      (compiler.Disconnects source spec state ↔
        compiler.Disconnects (source.readAs (VarId.redirect read other))
          (spec.readAs (VarId.redirect read other)) state)) :
    Outcomes (fun left left' : Logged α => left'.memory = left.memory) (Failure.Alike fun _ _ => True)
      (fun function function' => ∀ occasions memory, List.Forall₂ CallOutcome.Same
        (function.respond occasions memory) (function'.respond occasions memory))
      (compiler.compile source spec state)
      (compiler.compile (source.readAs (VarId.redirect read other))
        (spec.readAs (VarId.redirect read other)) state) := by
  rcases compile_cases standard built (typesShared_of_containersTyped typed)
    (interchanges_redirect typed kind kind') spec state with outcomes | ⟨required, refused⟩
  · rcases outcomes.cases with ⟨function, function', left, left', ran, ran', ⟨π, alike⟩, same⟩ |
      ⟨failure, failure', left, left', ran, ran', alike, same⟩
    · rw [ran, ran']
      exact .ok (fun occasions memory => alike.respond occasions memory) same
    · rw [ran, ran']
      exact .error alike same
  · have both := dependence required
    rcases refused.elim (fun first => And.intro first (both.mp first))
      (fun second => And.intro (both.mpr second) second) with
        ⟨⟨position, ran⟩, ⟨position', ran'⟩⟩
    rw [ran, ran']
    exact .error (.error trivial) rfl

/-- A symbolic graph with two variables of a container, of which the second one is negated. -/
def negatedContainer : Graph ℚ where
  vars := #[⟨ArrayType.ofRank .float64 1, .shared ⟨0⟩, some "w"⟩,
    ⟨ArrayType.ofRank .float64 1, .shared ⟨0⟩, some "w"⟩,
    ⟨ArrayType.ofRank .float64 1, .output ⟨0⟩ 0, none⟩]
  nodes := #[⟨.elementwise .neg none, [⟨1⟩], [⟨2⟩]⟩]

/-- The first variable is declared. -/
def negatedContainerSpec (requireDependence : Bool) : FunctionSpec where
  inputs := [⟨⟨0⟩, none, false, false, false, none⟩]
  outputs := [⟨⟨2⟩, false⟩]
  updates := []
  mode := .given ⟨Query.none, "perform", false⟩
  options := ⟨.raise, requireDependence, true, none, false⟩
  link := ⟨true, false⟩

/-- What is captured of the graph if the declared variable stands for the container. -/
def negatedContainerPart : Dataflow ℚ :=
  ⟨negatedContainer.vars, #[some ⟨.elementwise .neg none, [⟨0⟩], [⟨2⟩]⟩], [⟨0⟩], [⟨2⟩], []⟩

/-- What this is compiled to, if there are certain aliases. -/
def negatedContainerFunction (aliases : List (VarId × VarId)) : Function ℚ where
  executable := ⟨⟨2, 1, [(0, .argument 0)], [⟨⟨0⟩, .elementwise .neg none, [0], [1], [0]⟩], [1]⟩,
    .perform, ⟨true, false⟩, #[]⟩
  signature := ⟨[], [⟨⟨0⟩, ⟨0⟩, false, none⟩], aliases, [⟨⟨2⟩, false⟩]⟩
  graph := negatedContainerPart.guard ⟨0⟩
  report := ⟨[], []⟩
  profile := none

/-- The container holds the first buffer. -/
def negatedContainerMemory : Memory ℚ :=
  ⟨#[#[1, 2]], #[⟨"w", ArrayType.ofRank .float64 1, some ⟨.float64, [2], ⟨0⟩⟩⟩]⟩

theorem built_negatedContainer : negatedContainer.Built := by
  let roots : Graph ℚ := ⟨negatedContainer.vars.take 2, #[]⟩
  have applied : roots.apply (.elementwise .neg none) [⟨1⟩] = Except.ok ([⟨2⟩], negatedContainer) := rfl
  have built : roots.Built :=
    .shared (.shared .empty negatedContainerMemory ⟨0⟩) negatedContainerMemory ⟨0⟩
  exact .apply built applied

theorem compile_negatedContainer {f : VarId → VarId} {requireDependence : Bool}
    {aliases : List (VarId × VarId)}
    (collected : Signature.collect negatedContainerMemory (negatedContainer.readAs f)
      ((negatedContainerSpec requireDependence).readAs f).inputs
      ((negatedContainerSpec requireDependence).readAs f).outputs [] =
        Except.ok (negatedContainerFunction aliases).signature)
    (capturing : Compilation.captureGraph (negatedContainer.readAs f)
      (negatedContainerFunction aliases).signature requireDependence =
        Except.ok negatedContainerPart) :
    ∃ left, standard.compile (negatedContainer.readAs f)
      ((negatedContainerSpec requireDependence).readAs f) ⟨negatedContainerMemory, []⟩ =
        .ok (negatedContainerFunction aliases) left := by
  have resolved : (standard : Compiler ℚ).modes.resolve
      ((negatedContainerSpec requireDependence).readAs f).mode =
        Except.ok ⟨Query.none, .perform, false⟩ := rfl
  have guarding : Compilation.guardInputs (negatedContainerFunction aliases).signature
      negatedContainerPart = (negatedContainerFunction aliases).graph := rfl
  have valid : (negatedContainerFunction aliases).graph.validate = Except.ok Orderings.empty := by cbv
  have protecting : (negatedContainerFunction aliases).graph.protectOutputs
      (negatedContainerFunction aliases).signature.inputContracts
      (negatedContainerFunction aliases).signature.outputContracts =
        Except.ok (0, (negatedContainerFunction aliases).graph) := by
    cbv
  have link : Executable.link .perform ⟨true, false⟩ (negatedContainerFunction aliases).graph .empty =
      Except.ok ((negatedContainerFunction aliases).executable, []) := by
    cbv
  exact compile_of_no_rules resolved collected capturing rfl rfl (guarding ▸ valid)
    (guarding ▸ protecting) valid link

theorem typed_negatedContainer : negatedContainer.ContainersTyped negatedContainerMemory := by
  rintro ⟨index⟩ var container found kind
  have member := Array.mem_of_getElem? found
  simp only [negatedContainer, List.mem_toArray, List.mem_cons, List.not_mem_nil, or_false] at member
  rcases member with rfl | rfl | rfl <;> cases kind <;>
    exact ⟨by simp [negatedContainerMemory], rfl, rfl⟩

/-- Without the check on dependence, either variable of the container can be read. -/
theorem interchangeable_of_hasKind_negatedContainer :
    (∃ left, standard.compile negatedContainer (negatedContainerSpec false)
      ⟨negatedContainerMemory, []⟩ = .ok (negatedContainerFunction [(⟨1⟩, ⟨0⟩)]) left) ∧
    Outcomes (fun left left' : Logged ℚ => left'.memory = left.memory) (Failure.Alike fun _ _ => True)
      (fun function function' => ∀ occasions memory, List.Forall₂ CallOutcome.Same
        (function.respond occasions memory) (function'.respond occasions memory))
      (standard.compile negatedContainer (negatedContainerSpec false) ⟨negatedContainerMemory, []⟩)
      (standard.compile (negatedContainer.readAs (VarId.redirect ⟨1⟩ ⟨0⟩))
        ((negatedContainerSpec false).readAs (VarId.redirect ⟨1⟩ ⟨0⟩)) ⟨negatedContainerMemory, []⟩) := by
  have same : negatedContainer.readAs id = negatedContainer := by
    simp [Graph.readAs, Node.readAs, negatedContainer]
  have collected : Signature.collect negatedContainerMemory (negatedContainer.readAs id)
      ((negatedContainerSpec false).readAs id).inputs ((negatedContainerSpec false).readAs id).outputs []
        = Except.ok (negatedContainerFunction [(⟨1⟩, ⟨0⟩)]).signature := by
    rw [same]
    rfl
  have capturing : Compilation.captureGraph (negatedContainer.readAs id)
      (negatedContainerFunction [(⟨1⟩, ⟨0⟩)]).signature false = Except.ok negatedContainerPart := by
    rw [same]
    cbv
  refine ⟨same ▸ compile_negatedContainer collected capturing, ?_⟩
  exact interchangeable_of_hasKind rfl built_negatedContainer typed_negatedContainer
    ⟨_, rfl, rfl⟩ ⟨_, rfl, rfl⟩ _ fun required => Bool.noConfusion required

/-- The check on dependence tells the variables apart: the output counts as an output of the declared
input if this is the variable that is read, but not if the other variable of the container is. -/
theorem not_interchangeable_negatedContainer :
    negatedContainer.HasKind ⟨0⟩ (.shared ⟨0⟩) ∧ negatedContainer.HasKind ⟨1⟩ (.shared ⟨0⟩) ∧
    standard.Disconnects negatedContainer (negatedContainerSpec true) ⟨negatedContainerMemory, []⟩ ∧
    ∃ function left, standard.compile (negatedContainer.readAs (VarId.redirect ⟨1⟩ ⟨0⟩))
      ((negatedContainerSpec true).readAs (VarId.redirect ⟨1⟩ ⟨0⟩)) ⟨negatedContainerMemory, []⟩ =
        .ok function left := by
  have resolved : (standard : Compiler ℚ).modes.resolve (negatedContainerSpec true).mode =
      Except.ok ⟨Query.none, .perform, false⟩ := rfl
  have collected : Signature.collect negatedContainerMemory negatedContainer
      (negatedContainerSpec true).inputs (negatedContainerSpec true).outputs [] =
        Except.ok (negatedContainerFunction [(⟨1⟩, ⟨0⟩)]).signature := rfl
  have refused : Compilation.captureGraph negatedContainer
      (negatedContainerFunction [(⟨1⟩, ⟨0⟩)]).signature true =
        Checked.raise (.disconnectedOutput 0) := by
    cbv
  have collected' : Signature.collect negatedContainerMemory
      (negatedContainer.readAs (VarId.redirect ⟨1⟩ ⟨0⟩))
      ((negatedContainerSpec true).readAs (VarId.redirect ⟨1⟩ ⟨0⟩)).inputs
      ((negatedContainerSpec true).readAs (VarId.redirect ⟨1⟩ ⟨0⟩)).outputs [] =
        Except.ok (negatedContainerFunction []).signature := by
    have reads : negatedContainer.readAs (VarId.redirect ⟨1⟩ ⟨0⟩) =
        { negatedContainer with nodes := #[⟨.elementwise .neg none, [⟨0⟩], [⟨2⟩]⟩] } := by
      simp [Graph.readAs, Node.readAs, negatedContainer, VarId.redirect]
    rw [reads]
    rfl
  have capturing' : Compilation.captureGraph (negatedContainer.readAs (VarId.redirect ⟨1⟩ ⟨0⟩))
      (negatedContainerFunction []).signature true = Except.ok negatedContainerPart := by
    cbv
  exact ⟨⟨_, rfl, rfl⟩, ⟨_, rfl, rfl⟩, disconnects_of_captureGraph resolved collected refused, _,
    compile_negatedContainer collected' capturing'⟩

end Compiler

end ArrayGraph
