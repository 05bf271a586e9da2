import ArrayGraph.Proofs.Evaluation

/-!
# Arrays conform to the types that are inferred

An array conforms to a type if it has the element type, a shape that fits and as many elements as its
shape asks for. If the operands of an operation conform to some types, its results conform to the
types that are inferred from those. For an operation that overwrites an operand this is what makes
the result fit: the types agree, and so the shapes do.
-/

namespace ArrayGraph

variable {α : Type}

/-- An array is one of a type. -/
structure Tensor.Conforms (tensor : Tensor α) (type : ArrayType) : Prop where
  element : tensor.element = type.element
  shape : type.acceptsShape tensor.shape
  size : elementCount? tensor.shape = some tensor.data.size

/-- A dimension of a type is met by a size. -/
def FitsDimension (expected : Option Nat) (size : Nat) : Prop :=
  expected = none ∨ expected = some size

namespace ArrayType

theorem acceptsShape_iff {type : ArrayType} {shape : List Nat} :
    type.acceptsShape shape ↔ List.Forall₂ FitsDimension type.shape shape := by
  rcases type with ⟨element, expected⟩
  induction expected generalizing shape with
  | nil => cases shape <;> simp [acceptsShape]
  | cons head rest ih =>
    cases shape with
    | nil => simp [acceptsShape]
    | cons size sizes =>
      simp only [acceptsShape, List.length_cons, Nat.add_right_cancel_iff, List.zip_cons_cons,
        List.all_cons, Bool.and_eq_true, beq_iff_eq, List.forall₂_cons] at ih ⊢
      rw [← ih, and_left_comm]
      apply and_congr_left'
      cases head <;> simp [FitsDimension]

theorem isScalar_iff_of_acceptsShape {type : ArrayType} {shape : List Nat}
    (accepted : type.acceptsShape shape) : type.isScalar = shape.isEmpty := by
  rw [acceptsShape_iff] at accepted
  unfold isScalar
  generalize type.shape = expected at accepted
  cases accepted <;> rfl

theorem acceptsShape_ofShape (element : ElementType) (shape : List Nat) :
    (ofShape element shape).acceptsShape shape := by
  rw [acceptsShape_iff]
  simp only [ofShape, List.forall₂_map_left_iff, List.forall₂_same]
  intro size _
  exact Or.inr rfl

/-- A type with open dimensions takes every shape of its rank. -/
theorem acceptsShape_ofRank (element : ElementType) (shape : List Nat) :
    (ofRank element shape.length).acceptsShape shape := by
  rw [acceptsShape_iff, ofRank]
  refine List.forall₂_iff_get.mpr ⟨by simp, fun index inside _ => Or.inl ?_⟩
  simp

theorem rank_of_acceptsShape {type : ArrayType} {shape : List Nat}
    (accepted : type.acceptsShape shape) : type.rank = shape.length :=
  (acceptsShape_iff.mp accepted).length_eq

theorem fits_unify {left right unified : List (Option Nat)} {sizes : List Nat}
    (agree : (left.zip right).mapM (fun (a, b) => unifyDimension? a b) = some unified)
    (leftFits : List.Forall₂ FitsDimension left sizes)
    (rightFits : List.Forall₂ FitsDimension right sizes) :
    List.Forall₂ FitsDimension unified sizes := by
  induction leftFits generalizing right unified with
  | nil =>
    cases rightFits
    simp only [List.zip_nil_left, List.mapM_nil, Option.pure_def, Option.some.injEq] at agree
    exact agree ▸ List.Forall₂.nil
  | cons first _ ih =>
    cases rightFits with
    | cons second others =>
      simp only [List.zip_cons_cons, List.mapM_cons, Option.pure_def, Option.bind_eq_bind,
        Option.bind_eq_some_iff, Option.some.injEq] at agree
      rcases agree with ⟨dimension, unifiedFirst, remaining, unifiedRest, rfl⟩
      exact List.Forall₂.cons ((fits_unifyDimension?_iff unifiedFirst).mpr ⟨first, second⟩)
        (ih unifiedRest others)

/-- A shape that fits two types fits what they are unified to. -/
theorem fits_unifyShape? {left right : ArrayType} {unified : List (Option Nat)} {sizes : List Nat}
    (agree : left.unifyShape? right = some unified)
    (leftFits : List.Forall₂ FitsDimension left.shape sizes)
    (rightFits : List.Forall₂ FitsDimension right.shape sizes) :
    List.Forall₂ FitsDimension unified sizes := by
  unfold unifyShape? at agree
  split at agree
  · exact fits_unify agree leftFits rightFits
  · cases agree

end ArrayType

namespace ScalarFunction

/-- The types of operands agree on a shape that fits all of those with dimensions. -/
theorem commonType_fits {name : String} {element : ElementType} {types : List ArrayType}
    {common : Option ArrayType} (agreed : commonType name element types = Except.ok common)
    {shape : List Nat} (fits : ∀ type ∈ types, type.isScalar = false → type.acceptsShape shape) :
    match common with
    | none => ∀ type ∈ types, type.isScalar = true
    | some type => List.Forall₂ FitsDimension type.shape shape := by
  unfold commonType at agreed
  have memFits : ∀ type ∈ types.filter (fun type => !type.isScalar),
      List.Forall₂ FitsDimension type.shape shape := by
    intro type member
    rcases List.mem_filter.mp member with ⟨member, dimensions⟩
    exact ArrayType.acceptsShape_iff.mp (fits type member (by simpa using dimensions))
  cases filtered : types.filter (fun type => !type.isScalar) with
  | nil =>
    rw [filtered] at agreed
    cases agreed
    intro type member
    simpa using List.filter_eq_nil_iff.mp filtered type member
  | cons head rest =>
    rw [filtered] at agreed memFits
    rw [List.foldlM_cons, Checked.ok_bind] at agreed
    have invariant := Checked.foldlM_invariant
      (fun known : Option ArrayType =>
        ∃ type, known = some type ∧ List.Forall₂ FitsDimension type.shape shape)
      (by
        rintro state type member next ⟨previous, rfl, previousFits⟩ round
        simp only at round
        split at round
        · rename_i unified agree
          cases round
          exact ⟨_, rfl, ArrayType.fits_unifyShape? agree previousFits
            (memFits type (by simp [member]))⟩
        · cases round)
      ⟨head, rfl, memFits head (by simp)⟩ agreed
    rcases invariant with ⟨type, rfl, typeFits⟩
    exact typeFits

/-- Operands with dimensions have the common shape. -/
theorem shape_of_commonShape {name : String} {operands : List (Tensor α)} {shape : List Nat}
    (agreed : commonShape name operands = Except.ok shape) :
    (∀ operand ∈ operands, operand.shape.isEmpty = false → operand.shape = shape) ∧
      (shape.isEmpty = false → ∃ operand ∈ operands, operand.shape = shape) := by
  unfold commonShape at agreed
  split at agreed
  · rename_i none
    cases agreed
    refine ⟨?_, by simp⟩
    intro operand member dimensions
    have impossible := List.filter_eq_nil_iff.mp none operand.shape (List.mem_map_of_mem member)
    simp [dimensions] at impossible
  · rename_i first rest found
    split at agreed
    · rename_i same
      cases agreed
      have mem : ∀ other, other ∈ (operands.map (·.shape)).filter (fun shape => !shape.isEmpty) →
          other = shape := by
        intro other member
        rw [found] at member
        rcases List.mem_cons.mp member with rfl | member
        · rfl
        · simpa using List.all_eq_true.mp same other member
      constructor
      · intro operand member dimensions
        exact mem operand.shape (List.mem_filter.mpr ⟨List.mem_map_of_mem member, by simp [dimensions]⟩)
      · intro _
        have member : shape ∈ (operands.map (·.shape)).filter (fun shape => !shape.isEmpty) := by
          simp [found]
        rcases List.mem_map.mp (List.mem_of_mem_filter member) with ⟨operand, member, same⟩
        exact ⟨operand, member, same⟩
    · cases agreed

variable [Arithmetic α]

theorem compute_eq_ok {function : ScalarFunction} {name : String} {operands : List (Tensor α)}
    {result : Tensor α} (computed : function.compute name operands = Except.ok result) :
    result.element =
        function.resultElement (ElementType.upcastAll (operands.map (·.element))) ∧
      commonShape name operands = Except.ok result.shape ∧
      elementCount? result.shape = some result.data.size := by
  unfold compute at computed
  simp only [Checked.bind_eq_ok_iff] at computed
  rcases computed with ⟨shape, agreed, count, counted, data, mapped, same⟩
  cases same
  simp only [elementCount, Checked.orFault_eq_ok_iff] at counted
  have length := (Checked.mapM_eq_ok_iff.mp mapped).length_eq
  refine ⟨rfl, agreed, ?_⟩
  simp only [List.length_range] at length
  simp [counted, length]

/-- The values of a scalar function conform to the type that is inferred for them. -/
theorem compute_conforms {function : ScalarFunction} {name name' : String}
    {operands : List (Tensor α)} {types : List ArrayType} {type : ArrayType} {result : Tensor α}
    (inferred : function.outputType name types = Except.ok type)
    (conform : List.Forall₂ Tensor.Conforms operands types)
    (computed : function.compute name' operands = Except.ok result) : result.Conforms type := by
  rcases compute_eq_ok computed with ⟨element, agreed, size⟩
  rcases shape_of_commonShape agreed with ⟨sameShape, origin⟩
  have elements : operands.map (·.element) = types.map (·.element) := by
    clear computed inferred element agreed size sameShape origin
    induction conform with
    | nil => rfl
    | cons first _ ih => simp [first.element, ih]
  have fits : ∀ type ∈ types, type.isScalar = false → type.acceptsShape result.shape := by
    intro type member dimensions
    rcases List.mem_iff_getElem?.mp member with ⟨index, found⟩
    rcases forall₂_getElem?_right conform found with ⟨operand, operandFound, conforms⟩
    rw [ArrayType.isScalar_iff_of_acceptsShape conforms.shape] at dimensions
    exact sameShape operand (List.mem_of_getElem? operandFound) dimensions ▸ conforms.shape
  unfold outputType at inferred
  rw [Checked.bind_eq_ok_iff] at inferred
  rcases inferred with ⟨common, agreedType, same⟩
  have commonFits := commonType_fits agreedType fits
  cases common with
  | none =>
    cases same
    refine ⟨by rw [element, elements]; rfl, ?_, size⟩
    have scalar : result.shape = [] := by
      by_contra dimensions
      rcases origin (by simpa using dimensions) with ⟨operand, operandMem, shape⟩
      rcases List.mem_iff_getElem?.mp operandMem with ⟨index, found⟩
      rcases forall₂_getElem?_left conform found with ⟨type, typeFound, conforms⟩
      have isScalar := commonFits type (List.mem_of_getElem? typeFound)
      rw [ArrayType.isScalar_iff_of_acceptsShape conforms.shape, shape] at isScalar
      simp [dimensions] at isScalar
    rw [scalar]
    rfl
  | some found =>
    cases same
    exact ⟨by rw [element, elements]; rfl, ArrayType.acceptsShape_iff.mpr commonFits, size⟩

/-- An operand of the shape that is inferred for the result has the shape of the result. -/
theorem shape_of_operand {function : ScalarFunction} {name name' : String}
    {operands : List (Tensor α)} {types : List ArrayType} {type operandType : ArrayType}
    {result operand : Tensor α} {position : Nat}
    (inferred : function.outputType name types = Except.ok type)
    (conform : List.Forall₂ Tensor.Conforms operands types)
    (computed : function.compute name' operands = Except.ok result)
    (typeFound : types[position]? = some operandType) (found : operands[position]? = some operand)
    (sameShape : operandType.shape = type.shape) :
    operand.shape = result.shape ∧ operand.data.size = result.data.size := by
  have conforms := compute_conforms inferred conform computed
  rcases forall₂_getElem?_left conform found with ⟨_, typeFound', operandConforms⟩
  rw [typeFound] at typeFound'
  cases typeFound'
  have same : operand.shape = result.shape := by
    cases scalar : operand.shape.isEmpty with
    | false =>
      exact (shape_of_commonShape (compute_eq_ok computed).2.1).1 operand
        (List.mem_of_getElem? found) scalar
    | true =>
      have resultScalar := scalar
      rw [← ArrayType.isScalar_iff_of_acceptsShape operandConforms.shape, ArrayType.isScalar,
        sameShape, ← ArrayType.isScalar, ArrayType.isScalar_iff_of_acceptsShape conforms.shape]
        at resultScalar
      rw [List.isEmpty_iff.mp scalar, List.isEmpty_iff.mp resultScalar]
  refine ⟨same, ?_⟩
  have size := operandConforms.size
  rw [same, conforms.size] at size
  exact (Option.some.inj size).symm

/-- An operand of the type of the result has the form of the result. -/
theorem compute_like_operand {function : ScalarFunction} {name name' : String}
    {operands : List (Tensor α)} {types : List ArrayType} {type : ArrayType}
    {result operand : Tensor α} {position : Nat}
    (inferred : function.outputType name types = Except.ok type)
    (conform : List.Forall₂ Tensor.Conforms operands types)
    (computed : function.compute name' operands = Except.ok result)
    (sameType : types[position]? = some type) (found : operands[position]? = some operand) :
    operand.element = result.element ∧ operand.shape = result.shape ∧
      operand.data.size = result.data.size := by
  rcases forall₂_getElem?_left conform found with ⟨_, typeFound, operandConforms⟩
  rw [sameType] at typeFound
  cases typeFound
  refine ⟨?_, shape_of_operand inferred conform computed sameType found rfl⟩
  exact operandConforms.element.trans (compute_conforms inferred conform computed).element.symm

end ScalarFunction

/-- Host functions compute arrays of the types they declare. -/
def HostFunction.Typed (function : HostFunction α) (hosts : Meaning α) : Prop :=
  ∀ operands results, hosts function.identity operands = Except.ok results →
    List.Forall₂ Tensor.Conforms results function.outputTypes

namespace Tensor.Conforms

variable {operand result : Tensor α} {type : ArrayType}

theorem reshape (conforms : operand.Conforms type) {shape : List Nat}
    (computed : operand.reshape shape = Except.ok result) :
    result.Conforms (ArrayType.ofShape type.element shape) := by
  simp only [Tensor.reshape, Checked.bind_eq_ok_iff] at computed
  rcases computed with ⟨count, counted, computed⟩
  split at computed
  · rename_i same
    cases computed
    simp only [elementCount, Checked.orFault_eq_ok_iff] at counted
    exact ⟨conforms.element, ArrayType.acceptsShape_ofShape _ _, counted.trans (congrArg some same)⟩
  · cases computed

variable [Arithmetic α]

theorem fill (conforms : operand.Conforms type) {number : α}
    (computed : operand.fill number = Except.ok result) : result.Conforms type := by
  simp only [Tensor.fill, Checked.bind_eq_ok_iff, elementCount, Checked.orFault_eq_ok_iff] at computed
  rcases computed with ⟨count, counted, computed⟩
  cases computed
  exact ⟨conforms.element, conforms.shape, by simp [counted]⟩

theorem cast (conforms : operand.Conforms type) (element : ElementType) :
    (operand.cast element).Conforms ⟨element, type.shape⟩ :=
  ⟨rfl, conforms.shape, by simpa [Tensor.cast] using conforms.size⟩

end Tensor.Conforms

namespace Op

variable [Arithmetic α] {op : Op α} {types outputs : List ArrayType} {operands : List (Tensor α)}

theorem arity_of_inferTypes (inferred : op.inferTypes types = Except.ok outputs) :
    types.length = op.arity := by
  unfold inferTypes at inferred
  split at inferred
  · cases inferred
  · rename_i same
    simpa using same

/-- How many results an operation gives. -/
def resultCount : Op α → Nat
  | .host function => function.outputTypes.length
  | _ => 1

theorem inferTypes_elementwise {function : ScalarFunction} {target : Option Nat}
    (inferred : (Op.elementwise function target : Op α).inferTypes types = Except.ok outputs) :
    ∃ name output, function.outputType name types = Except.ok output ∧ outputs = [output] ∧
      ∀ position, target = some position → types[position]? = some output := by
  unfold inferTypes at inferred
  split at inferred
  · cases inferred
  · simp only [Checked.bind_eq_ok_iff] at inferred
    rcases inferred with ⟨output, computed, inferred⟩
    refine ⟨_, output, computed, ?_⟩
    cases target with
    | none =>
      cases inferred
      exact ⟨rfl, by simp⟩
    | some position =>
      simp only [Checked.bind_eq_ok_iff, Checked.orFault_eq_ok_iff] at inferred
      rcases inferred with ⟨overwritten, found, inferred⟩
      split at inferred
      · rename_i same
        cases inferred
        refine ⟨rfl, ?_⟩
        intro other same'
        cases same'
        exact same ▸ found
      · cases inferred

omit [Arithmetic α] in
/-- The single operand of an operation that has one, with its type. -/
theorem single_of_arity_one (one : types.length = 1)
    (conform : List.Forall₂ Tensor.Conforms operands types) :
    ∃ operand type, operands = [operand] ∧ types = [type] ∧ operand.Conforms type := by
  rcases List.length_eq_one_iff.mp one with ⟨type, rfl⟩
  cases conform with
  | cons conforms none =>
    cases none
    exact ⟨_, type, rfl, rfl, conforms⟩

theorem inferTypes_reshape {shape : List Nat} {type : ArrayType}
    (inferred : (Op.reshape shape : Op α).inferTypes [type] = Except.ok outputs) :
    outputs = [ArrayType.ofShape type.element shape] := by
  simp only [inferTypes, arity, List.length_singleton, ne_eq, not_true_eq_false, if_false,
    Checked.bind_eq_ok_iff] at inferred
  rcases inferred with ⟨known, _, inferred⟩
  cases known with
  | none =>
    cases inferred
    rfl
  | some count =>
    simp only [Checked.bind_eq_ok_iff] at inferred
    rcases inferred with ⟨expected, _, inferred⟩
    split at inferred
    · cases inferred
    · cases inferred
      rfl

/-- As many types are inferred as there are results. -/
theorem length_of_inferTypes (inferred : op.inferTypes types = Except.ok outputs) :
    outputs.length = op.resultCount := by
  have arity := arity_of_inferTypes inferred
  cases op with
  | elementwise function target =>
    rcases inferTypes_elementwise inferred with ⟨_, _, _, rfl, _⟩
    rfl
  | host function =>
    simp only [inferTypes, arity, ne_eq, not_true_eq_false, if_false,
      Checked.bind_eq_ok_iff] at inferred
    rcases inferred with ⟨_, _, same⟩
    cases same
    rfl
  | reshape shape =>
    rcases List.length_eq_one_iff.mp arity with ⟨type, rfl⟩
    rw [inferTypes_reshape inferred]
    rfl
  | _ =>
    rcases List.length_eq_one_iff.mp arity with ⟨type, rfl⟩
    simp only [inferTypes, arity, ne_eq, not_true_eq_false, if_false, Except.ok.injEq] at inferred
    subst inferred
    rfl

/-- What an operation of the table computes conforms to the type that is inferred for it. -/
theorem compute_conforms {result : Tensor α} (table : ∀ function, op ≠ .host function)
    (inferred : op.inferTypes types = Except.ok outputs)
    (conform : List.Forall₂ Tensor.Conforms operands types)
    (computed : op.compute operands = Except.ok result) :
    ∃ type, outputs = [type] ∧ result.Conforms type := by
  have arity := arity_of_inferTypes inferred
  cases op with
  | elementwise function target =>
    rcases inferTypes_elementwise inferred with ⟨name, output, inferredOutput, rfl, _⟩
    exact ⟨output, rfl, ScalarFunction.compute_conforms inferredOutput conform computed⟩
  | host function => exact absurd rfl (table function)
  | reshape shape =>
    rcases single_of_arity_one arity conform with ⟨operand, type, rfl, rfl, conforms⟩
    exact ⟨_, inferTypes_reshape inferred, conforms.reshape computed⟩
  | sum =>
    rcases single_of_arity_one arity conform with ⟨operand, type, rfl, rfl, conforms⟩
    cases inferred
    cases computed
    exact ⟨_, rfl, by simp [ArrayType.scalar, conforms.element], rfl, rfl⟩
  | view | copy =>
    rcases single_of_arity_one arity conform with ⟨operand, type, rfl, rfl, conforms⟩
    cases inferred
    cases computed
    exact ⟨_, rfl, conforms⟩
  | fill number =>
    rcases single_of_arity_one arity conform with ⟨operand, type, rfl, rfl, conforms⟩
    cases inferred
    exact ⟨_, rfl, conforms.fill computed⟩
  | cast element =>
    rcases single_of_arity_one arity conform with ⟨operand, type, rfl, rfl, conforms⟩
    cases inferred
    cases computed
    exact ⟨_, rfl, conforms.cast element⟩

/-- The results of an operation conform to the types that are inferred for them. -/
theorem evaluate_conforms {hosts : Meaning α} {results : List (Tensor α)}
    (inferred : op.inferTypes types = Except.ok outputs)
    (typed : ∀ function, op = .host function → function.Typed hosts)
    (conform : List.Forall₂ Tensor.Conforms operands types)
    (evaluated : op.evaluate hosts operands = Except.ok results) :
    List.Forall₂ Tensor.Conforms results outputs := by
  by_cases table : ∀ function, op ≠ .host function
  · rw [evaluate_of_table table] at evaluated
    cases computed : op.compute operands with
    | error failure => simp [computed, Except.map] at evaluated
    | ok result =>
      simp only [computed, Except.map, Except.ok.injEq] at evaluated
      subst evaluated
      rcases compute_conforms table inferred conform computed with ⟨type, rfl, conforms⟩
      exact .cons conforms .nil
  · simp only [not_forall, not_not] at table
    rcases table with ⟨function, rfl⟩
    have arity := arity_of_inferTypes inferred
    simp only [inferTypes, arity, ne_eq, not_true_eq_false, if_false,
      Checked.bind_eq_ok_iff] at inferred
    rcases inferred with ⟨_, _, same⟩
    cases same
    exact typed function rfl operands results evaluated

end Op

end ArrayGraph
