import ArrayGraph.Proofs.Function.Correct

/-!
# Constants of compiled functions

The analysis protects the storage of constants, so no node of a compiled graph overwrites it. What a
call overwrites are the buffers of the inputs that the graph overwrites, and the caller chooses
those. As long as none of them is the buffer of a constant, constants keep for ever what they held
when the function was compiled.
-/

namespace ArrayGraph.Function

variable {α : Type} [Arithmetic α] {function compiled : Function α} {source : Graph α}
  {heldOutside : BufferId → Bool} {arguments : List Value} {memory : Memory α} {value : Value}

/-- A constant that the compiled graph or its schedule holds. -/
def HasConstant (function : Function α) (value : Value) : Prop :=
  (∃ var, (function.graph.var var).kind = .constant value) ∨
    value ∈ function.executable.schedule.constants

/-- A function together with the memory, some time after its compilation. Calls may have gone before,
with anything for arguments and in containers, as long as what they overwrite is not a constant, and
between calls anything else may have been changed. -/
inductive Spares (compiled : Function α) (start : Memory α) : Function α → Memory α → Prop
  | compiled : Spares compiled start compiled start
  | call {function : Function α} {memory : Memory α} (before : Spares compiled start function memory)
      (heldOutside : BufferId → Bool) (arguments : List Value)
      (trusts : function.Trusts heldOutside arguments memory)
      (apart : ∀ value, function.HasConstant value →
        ¬function.Overwrites memory arguments value.buffer) :
      Spares compiled start (function.call heldOutside arguments memory).function
        (function.call heldOutside arguments memory).memory
  | elsewhere {function : Function α} {memory after : Memory α}
      (before : Spares compiled start function memory)
      (kept : ∀ value, function.HasConstant value → after.tensor value = memory.tensor value) :
      Spares compiled start function after

theorem Spares.reached {start : Memory α} (spares : compiled.Spares start function memory) :
    compiled.Reached function := by
  induction spares with
  | compiled => exact .compiled
  | @call function memory _ heldOutside arguments _ _ ih => exact ih.call heldOutside arguments memory
  | elsewhere _ _ ih => exact ih

/-- A call leaves a function with the constants that it had. -/
theorem hasConstant_call :
    (function.call heldOutside arguments memory).function.HasConstant value ↔
      function.HasConstant value := by
  rcases function_call function heldOutside arguments memory with ⟨slots, profile, same⟩
  rw [same]
  rfl

/-- However a call ends, it leaves a constant alone that is on none of the buffers that it
overwrites. -/
theorem CompiledFrom.constant_kept (origin : function.CompiledFrom source)
    (quiet : ∀ node ∈ source.nodes, node.op.Quiet)
    (trusts : function.Trusts heldOutside arguments memory) (constant : function.HasConstant value)
    (apart : ¬function.Overwrites memory arguments value.buffer) :
    (function.call heldOutside arguments memory).memory.tensor value = memory.tensor value := by
  have ofGraph : ∃ var, (function.graph.var var).kind = .constant value :=
    constant.elim id origin.kind_of_constant
  rcases ofGraph with ⟨var, kind⟩
  rcases trusts.constants var value kind with ⟨known, outside⟩
  have framed := origin.framed quiet trusts.toVouches
    (ended_call function heldOutside arguments memory)
  exact congrArg (Tensor.mk _ _) (framed.read value.buffer known
    fun touches => apart (touches.overwrites outside))

/-- The constants of a compiled function hold what they held when it was compiled, whatever calls have
gone before and however they ended. -/
theorem constants_of_spares {compiler : Compiler α} {spec : FunctionSpec} {state final : Logged α}
    (standard : compiler.rules = Database.standard) (built : source.Built)
    (stored : source.ConstantsStored state.memory) (quiet : ∀ node ∈ source.nodes, node.op.Quiet)
    (compilation : compiler.compile source spec state = .ok compiled final)
    (spares : compiled.Spares final.memory function memory) :
    ∀ value, function.HasConstant value → memory.tensor value = final.memory.tensor value := by
  have start := compiledFrom_of_compile standard built stored compilation
  induction spares with
  | compiled => exact fun _ _ => rfl
  | call before heldOutside arguments trusts apart ih =>
    intro value constant
    rw [hasConstant_call] at constant
    rw [(before.reached.compiledFrom start).constant_kept quiet trusts constant
      (apart value constant)]
    exact ih value constant
  | elsewhere _ kept ih =>
    exact fun value constant => (kept value constant).trans (ih value constant)

/-- A call on another buffer leaves the constant alone. -/
theorem constants_of_spares_shiftedNegation :
    (shiftedNegationFunction.call (fun _ => true) [⟨.float64, [2], ⟨1⟩⟩]
      shiftedNegationMemory).memory.tensor ⟨.float64, [2], ⟨0⟩⟩ = ⟨.float64, [2], #[1, 2]⟩ := by
  rcases compile_shiftedNegation with ⟨final, compilation, same⟩
  have quiet : ∀ node ∈ shiftedNegation.nodes, node.op.Quiet := by
    simp [shiftedNegation, Op.Quiet]
  have apart : ∀ value, shiftedNegationFunction.HasConstant value →
      ¬shiftedNegationFunction.Overwrites shiftedNegationMemory [⟨.float64, [2], ⟨1⟩⟩]
        value.buffer := by
    rintro value constant ⟨index, input, id, handle, _, _, given, onConstant⟩
    have onFirst : value.buffer = ⟨0⟩ := by
      rcases constant with ⟨var, kind⟩ | member
      · rw [constant_shiftedNegation kind]
      · cases List.mem_singleton.mp member
        rfl
    cases index with
    | zero =>
      cases given
      simp [onFirst] at onConstant
    | succ index => simp [Signature.handle?, shiftedNegationFunction] at given
  have spares : shiftedNegationFunction.Spares final.memory _ _ :=
    .call (same ▸ .compiled) (fun _ => true) [⟨.float64, [2], ⟨1⟩⟩] trusts_shiftedNegation apart
  have constant : shiftedNegationFunction.HasConstant ⟨.float64, [2], ⟨0⟩⟩ := Or.inl ⟨⟨1⟩, rfl⟩
  have kept := constants_of_spares rfl built_shiftedNegation stored_shiftedNegation quiet compilation
    spares ⟨.float64, [2], ⟨0⟩⟩ (hasConstant_call.mpr constant)
  rw [kept, same]
  rfl

/-- A mutable argument on the buffer of the constant is overwritten, and the constant with it. -/
theorem not_constants_kept_shiftedNegation :
    (∃ final, Compiler.standard.compile shiftedNegation shiftedNegationSpec
      ⟨shiftedNegationMemory, []⟩ = .ok shiftedNegationFunction final ∧
        final.memory = shiftedNegationMemory) ∧
    shiftedNegationFunction.HasConstant ⟨.float64, [2], ⟨0⟩⟩ ∧
    shiftedNegationMemory.tensor ⟨.float64, [2], ⟨0⟩⟩ = ⟨.float64, [2], #[1, 2]⟩ ∧
    (shiftedNegationFunction.call (fun _ => true) [⟨.float64, [2], ⟨0⟩⟩]
      shiftedNegationMemory).memory.tensor ⟨.float64, [2], ⟨0⟩⟩ = ⟨.float64, [2], #[-1, -2]⟩ := by
  refine ⟨compile_shiftedNegation, Or.inl ⟨⟨1⟩, rfl⟩, rfl, ?_⟩
  cbv

end ArrayGraph.Function
