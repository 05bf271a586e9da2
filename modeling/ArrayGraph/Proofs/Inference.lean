import ArrayGraph.Proofs.Optimize.Meaning
import ArrayGraph.Proofs.Run.Typed

/-!
# Inferred types and performed operations

Types are inferred from what is known of shapes, one dimension at a time, while an operation compares
whole shapes, and both work out the element type of the result. On values of the types the two agree.
If types are inferred then the operation gives values of them, unless shapes that were left open turn
out not to fit together, and if the types are rejected then so are all values of them. An operation
that overwrites an input puts there what it would otherwise have put into a new buffer.

A reshape is the exception. Its typing rule does not look at the target if the number of elements of
the input is open, and the number of elements that the target asks for may exceed all bounds.
-/

namespace ArrayGraph

variable {α : Type}

namespace Checked

variable {ε β σ : Type} {items : List β} {round : σ → β → Checked ε σ}
  {start final : σ}

/-- A loop succeeds if its rounds do as long as something holds that they keep. -/
theorem foldlM_succeeds (invariant : σ → Prop)
    (step : ∀ state, ∀ item ∈ items, invariant state →
      ∃ next, round state item = Except.ok next ∧ invariant next)
    (holds : invariant start) : ∃ final, items.foldlM round start = Except.ok final := by
  induction items generalizing start with
  | nil => exact ⟨start, rfl⟩
  | cons head rest ih =>
    rcases step start head List.mem_cons_self holds with ⟨next, first, holds⟩
    rw [List.foldlM_cons, first, ok_bind]
    exact ih (fun state item member => step state item (List.mem_cons_of_mem _ member)) holds

/-- What a round finds out about its item, as long as something holds that the rounds keep, is true of
all items if the loop succeeds. -/
theorem foldlM_finds (invariant : σ → Prop) (property : β → Prop)
    (step : ∀ state, ∀ item ∈ items, ∀ next, invariant state → round state item = Except.ok next →
      invariant next ∧ property item)
    (holds : invariant start) (run : items.foldlM round start = Except.ok final) :
    ∀ item ∈ items, property item := by
  induction items generalizing start with
  | nil => simp
  | cons head rest ih =>
    rw [List.foldlM_cons, bind_eq_ok_iff] at run
    rcases run with ⟨next, first, others⟩
    rcases step start head List.mem_cons_self next holds first with ⟨holds, found⟩
    refine List.forall_mem_cons.mpr ⟨found, ?_⟩
    exact ih (fun state item member => step state item (List.mem_cons_of_mem _ member)) holds others

end Checked

namespace ArrayType

variable {type left right : ArrayType} {sizes : List Nat}

/-- No dimension is left open. -/
def IsKnown (type : ArrayType) : Prop := none ∉ type.shape

theorem unify_of_fits {left right : List (Option Nat)}
    (leftFits : List.Forall₂ FitsDimension left sizes)
    (rightFits : List.Forall₂ FitsDimension right sizes) :
    ∃ unified, (left.zip right).mapM (fun (a, b) => unifyDimension? a b) = some unified := by
  induction leftFits generalizing right with
  | nil => exact ⟨[], by simp⟩
  | @cons dimension size _ _ first _ ih =>
    cases rightFits with
    | @cons dimension' _ _ _ second others =>
      rcases ih others with ⟨unified, rest⟩
      have agree : ∃ agreed, unifyDimension? dimension dimension' = some agreed := by
        rcases first with rfl | rfl
        · exact ⟨dimension', rfl⟩
        · rcases second with rfl | rfl
          · exact ⟨some size, rfl⟩
          · exact ⟨some size, by simp [unifyDimension?]⟩
      rcases agree with ⟨agreed, agree⟩
      exact ⟨agreed :: unified, by simp [agree, rest]⟩

/-- Two types that fit one shape can be unified. -/
theorem unifyShape?_of_fits (leftFits : List.Forall₂ FitsDimension left.shape sizes)
    (rightFits : List.Forall₂ FitsDimension right.shape sizes) :
    ∃ unified, left.unifyShape? right = some unified := by
  unfold unifyShape? rank
  rw [if_pos (leftFits.length_eq.trans rightFits.length_eq.symm)]
  exact unify_of_fits leftFits rightFits

theorem unify_known {left right unified : List (Option Nat)} (length : left.length = right.length)
    (leftKnown : none ∉ left) (rightKnown : none ∉ right)
    (agree : (left.zip right).mapM (fun (a, b) => unifyDimension? a b) = some unified) :
    right = left ∧ unified = left := by
  induction left generalizing right unified with
  | nil =>
    cases right with
    | nil => simpa using agree.symm
    | cons _ _ => cases length
  | cons dimension rest ih =>
    cases right with
    | nil => cases length
    | cons dimension' rest' =>
      simp only [List.mem_cons, not_or] at leftKnown rightKnown
      simp only [List.zip_cons_cons, List.mapM_cons, Option.pure_def, Option.bind_eq_bind,
        Option.bind_eq_some_iff, Option.some.injEq] at agree
      rcases agree with ⟨agreed, first, remaining, others, rfl⟩
      rcases ih (by simpa using length) leftKnown.2 rightKnown.2 others with ⟨rfl, rfl⟩
      rcases Option.ne_none_iff_exists'.mp (Ne.symm leftKnown.1) with ⟨size, rfl⟩
      rcases Option.ne_none_iff_exists'.mp (Ne.symm rightKnown.1) with ⟨size', rfl⟩
      unfold unifyDimension? at first
      split at first
      all_goals simp_all

/-- Types without open dimensions unify only if they have one shape. -/
theorem unifyShape?_known {unified : List (Option Nat)} (leftKnown : left.IsKnown)
    (rightKnown : right.IsKnown) (agree : left.unifyShape? right = some unified) :
    right.shape = left.shape ∧ unified = left.shape := by
  unfold unifyShape? rank at agree
  split at agree
  · rename_i length
    exact unify_known length leftKnown rightKnown agree
  · cases agree

theorem go_of_fits {ε : Type} {shape : List (Option Nat)} {start total : Nat}
    (fits : List.Forall₂ FitsDimension shape sizes)
    (counted : sizes.foldlM (fun count dimension =>
      let product := count * dimension
      if product < sizeLimit then some product else none) start = some total) :
    (knownCount.go start shape : Checked ε (Option Nat)) = Except.ok (some total) ∨
      (knownCount.go start shape : Checked ε (Option Nat)) = Except.ok none ∧ none ∈ shape := by
  induction fits generalizing start with
  | nil =>
    cases counted
    exact Or.inl rfl
  | cons first _ ih =>
    rcases first with rfl | rfl
    · exact Or.inr ⟨rfl, List.mem_cons_self⟩
    · rw [List.foldlM_cons, Option.bind_eq_bind, Option.bind_eq_some_iff] at counted
      rcases counted with ⟨product, first, others⟩
      dsimp only at first
      split at first
      · rename_i below
        cases first
        rw [knownCount.go, if_pos below]
        exact (ih others).imp id fun ⟨open_, member⟩ => ⟨open_, List.mem_cons_of_mem _ member⟩
      · cases first

/-- The number of elements of an array is what is known of it from its type, if anything is. -/
theorem knownCount_of_conforms {ε : Type} {tensor : Tensor α} (conforms : tensor.Conforms type) :
    (type.knownCount : Checked ε (Option Nat)) = Except.ok (some tensor.data.size) ∨
      (type.knownCount : Checked ε (Option Nat)) = Except.ok none ∧ none ∈ type.shape :=
  go_of_fits (acceptsShape_iff.mp conforms.shape) conforms.size

theorem shape_eq_of_isKnown (known : type.IsKnown)
    (fits : List.Forall₂ FitsDimension type.shape sizes) : type.shape = sizes.map some := by
  unfold IsKnown at known
  generalize type.shape = shape at known fits
  induction fits with
  | nil => rfl
  | cons first _ ih =>
    simp only [List.mem_cons, not_or] at known
    rw [List.map_cons, ih known.2, first.resolve_left (Ne.symm known.1)]

end ArrayType

namespace ScalarFunction

variable {name : String} {element : ElementType} {types : List ArrayType}
  {operands : List (Tensor α)}

/-- Types that fit one shape, apart from the scalars, agree on a common type. -/
theorem commonType_of_fits (name : String) (element : ElementType) {shape : List Nat}
    (fits : ∀ type ∈ types, type.isScalar = false → type.acceptsShape shape) :
    ∃ common, commonType name element types = Except.ok common := by
  refine Checked.foldlM_succeeds (fun known : Option ArrayType =>
    ∀ type ∈ known, List.Forall₂ FitsDimension type.shape shape) ?_ (by simp)
  intro known type member holds
  rcases List.mem_filter.mp member with ⟨listed, dimensions⟩
  have typeFits := ArrayType.acceptsShape_iff.mp (fits type listed (by simpa using dimensions))
  cases known with
  | none =>
    refine ⟨some type, rfl, ?_⟩
    rintro _ ⟨⟩
    exact typeFits
  | some previous =>
    have previousFits := holds previous rfl
    rcases ArrayType.unifyShape?_of_fits previousFits typeFits with ⟨unified, agree⟩
    refine ⟨some ⟨element, unified⟩, by simp only [agree], ?_⟩
    rintro _ ⟨⟩
    exact ArrayType.fits_unifyShape? agree previousFits typeFits

/-- Types without open dimensions agree only if all of them, apart from the scalars, have one shape. -/
theorem shape_of_commonType {common : Option ArrayType}
    (agreed : commonType name element types = Except.ok common)
    (known : ∀ type ∈ types, type.IsKnown) :
    ∃ shape, ∀ type ∈ types, type.isScalar = false → type.shape = shape := by
  unfold commonType at agreed
  have knownMem : ∀ type ∈ types.filter (fun type => !type.isScalar), type.IsKnown :=
    fun type member => known type (List.mem_of_mem_filter member)
  have member : ∀ type ∈ types, type.isScalar = false →
      type ∈ types.filter (fun type => !type.isScalar) :=
    fun type member dimensions => List.mem_filter.mpr ⟨member, by simp [dimensions]⟩
  generalize types.filter (fun type => !type.isScalar) = listed at agreed knownMem member
  cases listed with
  | nil => exact ⟨[], fun type typeMem dimensions => absurd (member type typeMem dimensions) (by simp)⟩
  | cons head rest =>
    rw [List.foldlM_cons, Checked.ok_bind] at agreed
    have same := Checked.foldlM_finds (fun known : Option ArrayType =>
      ∃ type, known = some type ∧ type.shape = head.shape)
      (fun type => type.shape = head.shape) (by
        rintro _ type typeMem next ⟨previous, rfl, shape⟩ round
        have previousKnown : previous.IsKnown := by
          unfold ArrayType.IsKnown
          rw [shape]
          exact knownMem head List.mem_cons_self
        dsimp only at round
        split at round
        · rename_i unified agree
          cases round
          rcases ArrayType.unifyShape?_known previousKnown
            (knownMem type (List.mem_cons_of_mem _ typeMem)) agree with ⟨typeShape, unifiedShape⟩
          exact ⟨⟨_, rfl, unifiedShape.trans shape⟩, typeShape.trans shape⟩
        · cases round)
      ⟨head, rfl, rfl⟩ agreed
    refine ⟨head.shape, fun type typeMem dimensions => ?_⟩
    rcases List.mem_cons.mp (member type typeMem dimensions) with rfl | listed
    · rfl
    · exact same type listed

/-- Arrays of one shape, apart from those without dimensions, have a common shape. -/
theorem commonShape_of_shape (shape : List Nat)
    (same : ∀ operand ∈ operands, operand.shape.isEmpty = false → operand.shape = shape) :
    ∃ common, commonShape name operands = Except.ok common := by
  have all : ∀ other ∈ (operands.map (·.shape)).filter (fun shape => !shape.isEmpty),
      other = shape := by
    intro other member
    rcases List.mem_filter.mp member with ⟨listed, dimensions⟩
    rcases List.mem_map.mp listed with ⟨operand, operandMem, rfl⟩
    exact same operand operandMem (by simpa using dimensions)
  unfold commonShape
  split
  · exact ⟨_, rfl⟩
  · rename_i first rest found
    rw [found] at all
    rw [if_pos]
    · exact ⟨_, rfl⟩
    · rw [List.all_eq_true]
      intro other member
      rw [decide_eq_true_eq, all other (List.mem_cons_of_mem _ member), all first List.mem_cons_self]

variable {function : ScalarFunction}

/-- If types without open dimensions agree, so do the shapes of their arrays. -/
theorem commonShape_of_isKnown {output : ArrayType}
    (inferred : function.outputType name types = Except.ok output)
    (conform : List.Forall₂ Tensor.Conforms operands types)
    (known : ∀ type ∈ types, type.IsKnown) (name' : String) :
    ∃ shape, commonShape name' operands = Except.ok shape := by
  simp only [outputType, Checked.bind_eq_ok_iff] at inferred
  rcases inferred with ⟨common, agreed, _⟩
  rcases shape_of_commonType agreed known with ⟨shape, same⟩
  refine commonShape_of_shape (shape.filterMap id) fun operand member dimensions => ?_
  rcases List.mem_iff_getElem?.mp member with ⟨index, found⟩
  rcases forall₂_getElem?_left conform found with ⟨type, typeFound, conforms⟩
  have typeMem := List.mem_of_getElem? typeFound
  rw [← ArrayType.isScalar_iff_of_acceptsShape conforms.shape] at dimensions
  rw [← same type typeMem dimensions, ArrayType.shape_eq_of_isKnown (known type typeMem)
    (ArrayType.acceptsShape_iff.mp conforms.shape)]
  simp

/-- If some arrays have a common shape, their types agree. -/
theorem outputType_of_commonShape (function : ScalarFunction) {shape : List Nat} (name' : String)
    (conform : List.Forall₂ Tensor.Conforms operands types)
    (agreed : commonShape name operands = Except.ok shape) :
    ∃ output, function.outputType name' types = Except.ok output := by
  have fits : ∀ type ∈ types, type.isScalar = false → type.acceptsShape shape := by
    intro type member dimensions
    rcases forall₂_mem_right conform member with ⟨operand, operandMem, conforms⟩
    rw [ArrayType.isScalar_iff_of_acceptsShape conforms.shape] at dimensions
    exact (shape_of_commonShape agreed).1 operand operandMem dimensions ▸ conforms.shape
  rcases commonType_of_fits name' (function.resultElement
    (ElementType.upcastAll (types.map (·.element)))) fits with ⟨common, agreed⟩
  unfold outputType
  simp only [agreed, Checked.ok_bind]
  cases common <;> exact ⟨_, rfl⟩

end ScalarFunction

namespace Op

variable [Arithmetic α] {op : Op α} {inputs : List Value} {types outputs : List ArrayType}
  {memory : Memory α}

/-- The errors that say that the shapes of the inputs do not fit together, or do not fit a target. -/
inductive Misfit (op : Op α) (inputs : List Value) : OpError → Prop
  | shapes {function : ScalarFunction} {target : Option Nat}
      (applies : op = .elementwise function target) :
      Misfit op inputs (.incompatibleShapes op.name (inputs.map (·.shape)))
  | reshape {shape : List Nat} {input : Value} (reshapes : op = .reshape shape)
      (given : inputs = [input]) : Misfit op inputs (.badReshape input.type shape)

/-- An operation does what its typing rule says, on some values of some types. -/
structure FollowsTypes (op : Op α) (types : List ArrayType) (inputs : List Value)
    (memory : Memory α) : Prop where
  /-- Values of the inferred types come out, or an error about shapes. -/
  accepted : ∀ outputs, op.inferTypes types = Except.ok outputs →
    (∀ shape, op = .reshape shape → (elementCount? shape).isSome) →
    (∃ values after, op.perform inputs memory = .ok values after ∧
      List.Forall₂ after.Fits values outputs) ∨
    ∃ cause, op.Misfit inputs cause ∧ op.perform inputs memory = .error (.error cause) memory
  /-- Nothing goes wrong if no dimension was left open. -/
  known : ∀ outputs, op.inferTypes types = Except.ok outputs → (∀ type ∈ types, type.IsKnown) →
    ∃ values after, op.perform inputs memory = .ok values after ∧
      List.Forall₂ after.Fits values outputs
  /-- What the typing rule rejects is refused. -/
  rejected : op.destroyMap = [] → ∀ cause, op.inferTypes types = Except.error (.error cause) →
    ∃ cause', op.perform inputs memory = .error (.error cause') memory
  /-- The target is overwritten with what would otherwise be put into a new buffer. -/
  overwrites : ∀ function position, op = .elementwise function (some position) →
    ∀ values after, op.perform inputs memory = .ok values after →
      ∃ target fresh separate, inputs[position]? = some target ∧ values = [target] ∧
        (Op.elementwise function none).perform inputs memory = .ok [fresh] separate ∧
        after.tensor target = separate.tensor fresh

section Table

variable (table : ∀ function, op ≠ .host function) (fits : List.Forall₂ memory.Fits inputs types)

include table fits

/-- What is computed is put where it belongs, as a value of the type that is inferred. -/
theorem performs_of_compute (inferred : op.inferTypes types = Except.ok outputs) {result : Tensor α}
    (computed : op.compute (inputs.map memory.tensor) = Except.ok result) :
    ∃ values after, op.perform inputs memory = .ok values after ∧
      List.Forall₂ after.Fits values outputs := by
  rcases compute_conforms table inferred (conform_of_fits fits) computed with ⟨type, rfl, conforms⟩
  rcases place_fits table inferred fits computed conforms with ⟨value, after, placed, _, valueFits⟩
  have arity : inputs.length = op.arity := fits.length_eq.trans (arity_of_inferTypes inferred)
  exact ⟨_, _, perform_of_ok table arity computed placed, .cons valueFits .nil⟩

theorem performs_of_inferTypes (inferred : op.inferTypes types = Except.ok outputs)
    (counted : ∀ shape, op = .reshape shape → (elementCount? shape).isSome) :
    (∃ values after, op.perform inputs memory = .ok values after ∧
      List.Forall₂ after.Fits values outputs) ∨
    ∃ cause, op.Misfit inputs cause ∧ op.perform inputs memory = .error (.error cause) memory := by
  have reliable : op.Reliable := ⟨fun function calls => absurd calls (table function), counted⟩
  have arity : inputs.length = op.arity := fits.length_eq.trans (arity_of_inferTypes inferred)
  rcases compute_cases reliable table inferred fits with
    ⟨result, _, computed, _⟩ | ⟨failure, refused, refuses⟩
  · exact Or.inl (performs_of_compute table fits inferred computed)
  · refine Or.inr ?_
    have performed := perform_of_error table arity refused
    cases refuses with
    | shapes applies => exact ⟨_, .shapes applies, performed⟩
    | reshape reshapes given => exact ⟨_, .reshape reshapes given, performed⟩
    | host calls => exact absurd calls (table _)

theorem performs_of_isKnown (inferred : op.inferTypes types = Except.ok outputs)
    (known : ∀ type ∈ types, type.IsKnown) :
    ∃ values after, op.perform inputs memory = .ok values after ∧
      List.Forall₂ after.Fits values outputs := by
  have count := arity_of_inferTypes inferred
  have conform := conform_of_fits fits
  cases op with
  | host function => exact absurd rfl (table function)
  | elementwise function target =>
    rcases inferTypes_elementwise inferred with ⟨name, output, typed, _⟩
    rcases ScalarFunction.commonShape_of_isKnown typed conform known
      (Op.elementwise function target : Op α).name with ⟨shape, agreed⟩
    have arity : (inputs.map memory.tensor).length = function.arity := conform.length_eq.trans count
    rcases ScalarFunction.compute_of_commonShape arity (sized_of_conform conform) agreed with
      ⟨result, computed⟩
    exact performs_of_compute table fits inferred computed
  | reshape shape =>
    rcases single_of_fits count fits with ⟨input, type, rfl, rfl, inputFits⟩
    have inputCount : (type.knownCount : Checked OpError (Option Nat)) = _ :=
      (ArrayType.knownCount_of_conforms inputFits.conforms).resolve_right
        fun ⟨_, unknown⟩ => known type List.mem_cons_self unknown
    have computed : ∃ result, (Op.reshape shape).compute ([input].map memory.tensor) =
        Except.ok result := by
      simp only [inferTypes, count, ne_eq, not_true_eq_false, if_false, inputCount,
        Checked.ok_bind, Checked.bind_eq_ok_iff] at inferred
      rcases inferred with ⟨target, counted, inferred⟩
      split at inferred
      · cases inferred
      · rename_i same
        refine ⟨{ memory.tensor input with shape }, ?_⟩
        simp only [compute, List.map_cons, List.map_nil, Tensor.reshape, counted, Checked.ok_bind]
        rw [if_pos (not_not.mp same).symm]
    rcases computed with ⟨result, computed⟩
    exact performs_of_compute table fits inferred computed
  | _ =>
    rcases performs_of_inferTypes table fits inferred (by simp) with done | ⟨_, misfit, _⟩
    · exact done
    · cases misfit <;> contradiction

theorem perform_of_rejected (separate : op.destroyMap = []) {cause : OpError}
    (rejected : op.inferTypes types = Except.error (.error cause)) :
    ∃ cause', op.perform inputs memory = .error (.error cause') memory := by
  by_cases count : types.length = op.arity
  swap
  · refine ⟨.arity op.name op.arity inputs.length, ?_⟩
    unfold perform
    rw [if_pos (by rwa [ne_eq, fits.length_eq])]
    rfl
  have arity : inputs.length = op.arity := fits.length_eq.trans count
  have conform := conform_of_fits fits
  cases op with
  | host function => exact absurd rfl (table function)
  | elementwise function target =>
    cases target with
    | some position => cases separate
    | none =>
      have same : (inputs.map memory.tensor).length = function.arity := conform.length_eq.trans count
      rcases ScalarFunction.compute_cases (Op.elementwise function none : Op α).name same
        (sized_of_conform conform) with ⟨result, computed⟩ | refused
      · rcases function.outputType_of_commonShape (Op.elementwise function none : Op α).name conform
          (ScalarFunction.compute_eq_ok computed).2.1 with ⟨output, typed⟩
        simp [inferTypes, count, typed] at rejected
      · exact ⟨_, perform_of_error table arity refused⟩
  | reshape shape =>
    rcases single_of_fits count fits with ⟨input, type, rfl, rfl, inputFits⟩
    have counts := ArrayType.knownCount_of_conforms (ε := OpError) inputFits.conforms
    simp only [inferTypes, count, ne_eq, not_true_eq_false, if_false] at rejected
    rcases counts with known | ⟨unknown, _⟩
    · simp only [known, Checked.ok_bind] at rejected
      cases target : elementCount? shape with
      | none =>
        have exceeded : (elementCount shape : Checked OpError Nat) = Checked.abort .sizeOverflow := by
          rw [elementCount, target]
          rfl
        rw [exceeded] at rejected
        cases rejected
      | some count =>
        have counted : (elementCount shape : Checked OpError Nat) = Except.ok count := by
          rw [elementCount, target]
          rfl
        simp only [counted, Checked.ok_bind] at rejected
        split at rejected
        · rename_i different
          have refused : (Op.reshape shape : Op α).compute ([input].map memory.tensor) =
              Checked.raise (.badReshape (memory.tensor input).type shape) := by
            simp only [compute, List.map_cons, List.map_nil, Tensor.reshape, counted,
              Checked.ok_bind]
            rw [if_neg (Ne.symm different)]
          exact ⟨_, perform_of_error table arity refused⟩
        · cases rejected
    · simp [unknown] at rejected
  | _ =>
    rcases single_of_fits count fits with ⟨input, type, rfl, rfl, inputFits⟩
    cases rejected

omit fits in
/-- An operation of the table that succeeds has computed a result and placed it. -/
theorem place_of_perform {values : List Value} {after : Memory α}
    (performed : op.perform inputs memory = .ok values after) :
    inputs.length = op.arity ∧ ∃ result value,
      op.compute (inputs.map memory.tensor) = Except.ok result ∧
        op.place inputs result memory = .ok value after ∧ values = [value] := by
  by_cases arity : inputs.length = op.arity
  swap
  · unfold perform at performed
    rw [if_pos arity] at performed
    cases performed
  refine ⟨arity, ?_⟩
  cases computed : op.compute (inputs.map memory.tensor) with
  | error failure =>
    rw [perform_of_error table arity computed] at performed
    cases performed
  | ok result =>
    have placing : (op.place inputs result >>= fun value => pure [value]) memory =
        .ok values after := by
      unfold perform at performed
      rw [if_neg (by simp [arity])] at performed
      cases op with
      | host function => exact absurd rfl (table function)
      | _ =>
        change (Action.ofChecked _ >>= _) memory = _ at performed
        rw [computed] at performed
        exact performed
    rcases bind_eq_ok_iff.mp placing with ⟨value, final, placed, same⟩
    cases same
    exact ⟨result, value, rfl, placed, rfl⟩

omit [Arithmetic α] table fits in
theorem eq_of_writeOver {target value : Value} {result : Tensor α} {mismatch : OpError}
    {after : Memory α} (written : writeOver target result mismatch memory = .ok value after) :
    value = target ∧ after = memory.write target.buffer result.data ∧
      target.element = result.element ∧ target.shape = result.shape := by
  unfold writeOver at written
  rcases bind_eq_ok_iff.mp written with ⟨_, _, ⟨⟩, written⟩
  split at written
  · rename_i fit
    simp only [Bool.and_eq_true, decide_eq_true_eq] at fit
    cases written
    exact ⟨rfl, rfl, fit.1.2, fit.1.1⟩
  · cases written

theorem perform_overwrites {function : ScalarFunction} {position : Nat}
    (overwriting : op = .elementwise function (some position)) {values : List Value} {after : Memory α}
    (performed : op.perform inputs memory = .ok values after) :
    ∃ target fresh separate, inputs[position]? = some target ∧ values = [target] ∧
      (Op.elementwise function none).perform inputs memory = .ok [fresh] separate ∧
      after.tensor target = separate.tensor fresh := by
  rcases place_of_perform table performed with ⟨arity, result, value, computed, placed, rfl⟩
  subst overwriting
  rcases bind_eq_ok_iff.mp placed with ⟨target, middle, located, written⟩
  cases found : inputs[position]? with
  | none =>
    rw [found] at located
    cases located
  | some target' =>
    rw [found] at located
    cases located
    rcases eq_of_writeOver written with ⟨rfl, rfl, element, shape⟩
    have table : ∀ host, (Op.elementwise function none : Op α) ≠ .host host := by simp
    have separate : (Op.elementwise function none : Op α).perform inputs memory =
        .ok [⟨result.element, result.shape, (memory.allocate result.data).1⟩]
          (memory.allocate result.data).2 :=
      perform_of_ok table arity
        (ScalarFunction.compute_congr computed rfl rfl fun _ _ same => same) rfl
    refine ⟨value, _, _, rfl, rfl, separate, ?_⟩
    rcases forall₂_getElem?_left fits found with ⟨type, _, valueFits⟩
    simp only [Memory.tensor, Memory.contents, element, shape]
    rw [Memory.read_write_self _ _ valueFits.known, Memory.read_allocate_self]

end Table

/-- An operation of the table and its typing rule agree, and so do the two forms of an operation that
can overwrite an input. -/
theorem followsTypes (table : ∀ function, op ≠ .host function)
    (fits : List.Forall₂ memory.Fits inputs types) : op.FollowsTypes types inputs memory where
  accepted _ inferred counted := performs_of_inferTypes table fits inferred counted
  known _ inferred known := performs_of_isKnown table fits inferred known
  rejected separate _ rejected := perform_of_rejected table fits separate rejected
  overwrites _ _ overwriting _ _ performed := perform_overwrites table fits overwriting performed

/-- A memory with one vector. -/
def vectorMemory : Memory ℚ := ⟨#[#[1, 2]], #[]⟩

/-- The vector. -/
def heldVector : Value := ⟨.float64, [2], ⟨0⟩⟩

theorem fits_heldVector : vectorMemory.Fits heldVector (ArrayType.ofRank .float64 1) :=
  ⟨Nat.zero_lt_one, rfl, rfl, rfl⟩

/-- A vector is added to itself, and the sum is written over both operands. -/
theorem followsTypes_addToItself :
    (Op.elementwise .add (some 0)).FollowsTypes
      [ArrayType.ofRank .float64 1, ArrayType.ofRank .float64 1] [heldVector, heldVector]
      vectorMemory ∧
    ∃ after, (Op.elementwise .add (some 0)).perform [heldVector, heldVector] vectorMemory =
      .ok [heldVector] after ∧ after.tensor heldVector = ⟨.float64, [2], #[1 + 1, 2 + 2]⟩ := by
  refine ⟨followsTypes (by simp) (.cons fits_heldVector (.cons fits_heldVector .nil)), ?_⟩
  exact ⟨vectorMemory.write ⟨0⟩ #[1 + 1, 2 + 2], rfl, rfl⟩

/-- No error is given for a target of more elements than there can be, although the types are
accepted: the operation breaks off. -/
theorem not_followsTypes_reshapeTooLarge :
    (Op.reshape [2 ^ 63, 2] : Op ℚ).inferTypes [ArrayType.ofRank .float64 1] =
      Except.ok [ArrayType.ofShape .float64 [2 ^ 63, 2]] ∧
    List.Forall₂ vectorMemory.Fits [heldVector] [ArrayType.ofRank .float64 1] ∧
    ¬((∃ values after, (Op.reshape [2 ^ 63, 2]).perform [heldVector] vectorMemory =
        .ok values after) ∨
      ∃ cause after, (Op.reshape [2 ^ 63, 2]).perform [heldVector] vectorMemory =
        .error (.error cause) after) := by
  have broken : (Op.reshape [2 ^ 63, 2]).perform [heldVector] vectorMemory =
      .error (.fault .sizeOverflow) vectorMemory := by cbv
  refine ⟨by cbv, .cons fits_heldVector .nil, ?_⟩
  rw [broken]
  simp

end Op

end ArrayGraph
