import ArrayGraph.Proofs.Typing

/-!
# Scalar functions element by element

The array of the values of a scalar function is determined by its shape and by its elements. Rules
that put one operation in the place of another compare the two element by element.
-/

namespace ArrayGraph

variable {α : Type}

theorem Tensor.ext {first second : Tensor α} (element : first.element = second.element)
    (shape : first.shape = second.shape) (data : first.data = second.data) : first = second := by
  cases first
  cases second
  simp_all

theorem ElementType.upcastAll_pair (left right : ElementType) :
    ElementType.upcastAll [left, right] = left.upcast right := by
  cases left <;> cases right <;> rfl

@[simp]
theorem ElementType.upcastAll_singleton (element : ElementType) :
    ElementType.upcastAll [element] = element := by
  cases element <;> rfl

namespace ScalarFunction

/-- The name of an operation plays no part unless shapes conflict. -/
theorem commonShape_of_shapes {name name' : String} {operands operands' : List (Tensor α)}
    (shapes : operands'.map (·.shape) = operands.map (·.shape)) {shape : List Nat}
    (agreed : commonShape name operands = Except.ok shape) :
    commonShape name' operands' = Except.ok shape := by
  unfold commonShape at agreed ⊢
  rw [shapes]
  split at agreed
  · exact agreed
  · split at agreed
    · rename_i same
      rw [if_pos same]
      exact agreed
    · cases agreed

theorem commonShape_singleton (name : String) (operand : Tensor α) :
    commonShape name [operand] = Except.ok operand.shape := by
  unfold commonShape
  cases empty : operand.shape.isEmpty with
  | true => simp [List.isEmpty_iff.mp empty]
  | false => simp [empty]

section OperandAt

variable {operand : Tensor α} {index : Nat} {x : α}

theorem mem_of_operandAt (found : operandAt operand index = Except.ok x) : x ∈ operand.data := by
  unfold operandAt at found
  simp only [Checked.orFault_eq_ok_iff] at found
  exact Array.mem_of_getElem? found

theorem operandAt_eq_ok_iff (inside : index < operand.data.size) :
    operandAt operand index = Except.ok x ↔ operand.data[index]? = some x := by
  unfold operandAt
  simp only [Checked.orFault_eq_ok_iff]
  split
  · rename_i single
    rw [show index = 0 by omega]
  · rfl

end OperandAt

variable [Arithmetic α] {function : ScalarFunction} {name : String} {result : Tensor α}

theorem elementAt_eq_ok_iff {operands : List (Tensor α)} {index : Nat} {y : α} :
    function.elementAt operands index = Except.ok y ↔
      ∃ numbers, List.Forall₂ (fun operand x => operandAt operand index = Except.ok x) operands
        numbers ∧ function.evaluate? numbers = some y := by
  unfold elementAt
  simp only [Checked.bind_eq_ok_iff, Checked.orFault_eq_ok_iff, Checked.mapM_eq_ok_iff]

/-- What a scalar function computes, shape and elements apart. -/
theorem compute_eq_ok_iff {operands : List (Tensor α)} :
    function.compute name operands = Except.ok result ↔
      result.element = function.resultElement (ElementType.upcastAll (operands.map (·.element))) ∧
      commonShape name operands = Except.ok result.shape ∧
      elementCount? result.shape = some result.data.size ∧
      ∀ index y, result.data[index]? = some y →
        ∃ x, function.elementAt operands index = Except.ok x ∧ y = result.element.normalize x := by
  constructor
  · intro computed
    rcases compute_eq_ok computed with ⟨element, agreed, size⟩
    refine ⟨element, agreed, size, ?_⟩
    unfold compute at computed
    simp only [Checked.bind_eq_ok_iff] at computed
    rcases computed with ⟨shape, _, count, _, data, mapped, same⟩
    cases same
    intro index y found
    simp only [List.getElem?_toArray, List.getElem?_map, Option.map_eq_some_iff] at found
    rcases found with ⟨x, found, rfl⟩
    rcases forall₂_getElem?_right (Checked.mapM_eq_ok_iff.mp mapped) found with
      ⟨position, inRange, computed⟩
    rcases List.getElem?_eq_some_iff.mp inRange with ⟨_, same⟩
    rw [List.getElem_range] at same
    exact ⟨x, same ▸ computed, rfl⟩
  · rintro ⟨element, agreed, size, each⟩
    have exists_data : ∀ count ≤ result.data.size, ∃ data : List α,
        (List.range count).mapM (function.elementAt operands) = Except.ok data ∧
          data.map result.element.normalize = result.data.toList.take count := by
      intro count
      induction count with
      | zero => exact fun _ => ⟨[], rfl, by simp⟩
      | succ count ih =>
        intro inside
        rcases ih (by omega) with ⟨data, mapped, same⟩
        have found : result.data[count]? = some result.data[count] :=
          Array.getElem?_eq_getElem (by omega)
        rcases each count _ found with ⟨x, computed, value⟩
        refine ⟨data ++ [x], ?_, ?_⟩
        · rw [Checked.mapM_eq_ok_iff] at mapped ⊢
          rw [List.range_succ]
          exact List.rel_append mapped (List.Forall₂.cons computed List.Forall₂.nil)
        · rw [List.map_append, same, List.take_add_one, Array.getElem?_toList, found, value]
          rfl
    rcases exists_data result.data.size (Nat.le_refl _) with ⟨data, mapped, same⟩
    unfold compute
    simp only [Checked.bind_eq_ok_iff]
    refine ⟨result.shape, agreed, result.data.size, ?_, data, mapped, ?_⟩
    · simpa [elementCount] using size
    · rw [← element, same, ← Array.length_toList, List.take_length]

/-- A scalar function of one operand applies to its elements, and never fails. -/
theorem compute_unary {f : α → α} (value : ∀ x, function.evaluate? [x] = some (f x))
    {operand : Tensor α} (size : elementCount? operand.shape = some operand.data.size) :
    function.compute name [operand] = Except.ok ⟨function.resultElement operand.element,
      operand.shape, operand.data.map fun x =>
        (function.resultElement operand.element).normalize (f x)⟩ := by
  rw [compute_eq_ok_iff]
  refine ⟨by simp, commonShape_singleton name operand, by simpa using size, ?_⟩
  intro index y found
  simp only [Array.getElem?_map, Option.map_eq_some_iff] at found
  rcases found with ⟨x, found, rfl⟩
  refine ⟨f x, elementAt_eq_ok_iff.mpr ⟨[x], ?_, value x⟩, rfl⟩
  have inside := (Array.getElem?_eq_some_iff.mp found).1
  exact List.Forall₂.cons ((operandAt_eq_ok_iff inside).mpr found) List.Forall₂.nil

section Binary

variable {f : α → α → α} (value : ∀ x y, function.evaluate? [x, y] = some (f x y))
  {left right : Tensor α}
include value

theorem elementAt_pair {index : Nat} {z : α} :
    function.elementAt [left, right] index = Except.ok z ↔
      ∃ x y, operandAt left index = Except.ok x ∧ operandAt right index = Except.ok y ∧
        f x y = z := by
  rw [elementAt_eq_ok_iff]
  constructor
  · rintro ⟨numbers, found, same⟩
    cases found with
    | cons first others =>
      cases others with
      | cons second others =>
        cases others
        rw [value] at same
        exact ⟨_, _, first, second, Option.some.inj same⟩
  · rintro ⟨x, y, first, second, rfl⟩
    exact ⟨[x, y], List.Forall₂.cons first (List.Forall₂.cons second List.Forall₂.nil), value x y⟩

/-- The elements of a result that is as large as the first operand. -/
theorem compute_left (computed : function.compute name [left, right] = Except.ok result)
    (size : left.data.size = result.data.size) {index : Nat} {z : α}
    (found : result.data[index]? = some z) :
    ∃ x y, left.data[index]? = some x ∧ y ∈ right.data ∧ z = result.element.normalize (f x y) := by
  rcases (compute_eq_ok_iff.mp computed).2.2.2 index z found with ⟨number, element, rfl⟩
  rcases (elementAt_pair value).mp element with ⟨x, y, first, second, rfl⟩
  have inside : index < left.data.size := size ▸ (Array.getElem?_eq_some_iff.mp found).1
  exact ⟨x, y, (operandAt_eq_ok_iff inside).mp first, mem_of_operandAt second, rfl⟩

/-- The elements of a result that is as large as the second operand. -/
theorem compute_right (computed : function.compute name [left, right] = Except.ok result)
    (size : right.data.size = result.data.size) {index : Nat} {z : α}
    (found : result.data[index]? = some z) :
    ∃ x y, right.data[index]? = some x ∧ y ∈ left.data ∧ z = result.element.normalize (f y x) := by
  rcases (compute_eq_ok_iff.mp computed).2.2.2 index z found with ⟨number, element, rfl⟩
  rcases (elementAt_pair value).mp element with ⟨y, x, first, second, rfl⟩
  have inside : index < right.data.size := size ▸ (Array.getElem?_eq_some_iff.mp found).1
  exact ⟨x, y, (operandAt_eq_ok_iff inside).mp second, mem_of_operandAt first, rfl⟩

/-- A function of the elements of a result that depends on the first operand only. -/
theorem map_compute_left (computed : function.compute name [left, right] = Except.ok result)
    (size : left.data.size = result.data.size) {g h : α → α}
    (same : ∀ x ∈ left.data, ∀ y ∈ right.data, g (result.element.normalize (f x y)) = h x) :
    result.data.map g = left.data.map h := by
  apply Array.ext (by simp [size])
  intro index inside inside'
  simp only [Array.size_map] at inside
  rcases compute_left value computed size (Array.getElem?_eq_getElem inside) with
    ⟨x, y, found, member, element⟩
  simp only [Array.getElem_map, element, (Array.getElem?_eq_some_iff.mp found).2,
    same x (Array.mem_of_getElem? found) y member]

/-- A function of the elements of a result that depends on the second operand only. -/
theorem map_compute_right (computed : function.compute name [left, right] = Except.ok result)
    (size : right.data.size = result.data.size) {g h : α → α}
    (same : ∀ x ∈ right.data, ∀ y ∈ left.data, g (result.element.normalize (f y x)) = h x) :
    result.data.map g = right.data.map h := by
  apply Array.ext (by simp [size])
  intro index inside inside'
  simp only [Array.size_map] at inside
  rcases compute_right value computed size (Array.getElem?_eq_getElem inside) with
    ⟨x, y, found, member, element⟩
  simp only [Array.getElem_map, element, (Array.getElem?_eq_some_iff.mp found).2,
    same x (Array.mem_of_getElem? found) y member]

end Binary

/-- The product of an array with itself is its square. -/
theorem compute_square {name' : String} {operand : Tensor α}
    (computed : ScalarFunction.mul.compute name [operand, operand] = Except.ok result) :
    ScalarFunction.sqr.compute name' [operand] = Except.ok result := by
  rcases compute_eq_ok_iff.mp computed with ⟨element, agreed, size, each⟩
  have shape : operand.shape = result.shape := by
    rcases shape_of_commonShape agreed with ⟨common, origin⟩
    cases empty : operand.shape.isEmpty with
    | false => exact common operand (by simp) empty
    | true =>
      cases resultEmpty : result.shape.isEmpty with
      | true => rw [List.isEmpty_iff.mp empty, List.isEmpty_iff.mp resultEmpty]
      | false =>
        rcases origin resultEmpty with ⟨other, member, same⟩
        simp only [List.mem_cons, List.not_mem_nil, or_false, or_self] at member
        exact member ▸ same
  apply compute_eq_ok_iff.mpr
  refine ⟨?_, shape ▸ commonShape_singleton name' operand, size, ?_⟩
  · simpa [ElementType.upcastAll_pair, resultElement] using element
  · intro index y found
    rcases each index y found with ⟨number, product, same⟩
    rcases (elementAt_pair (fun _ _ => rfl)).mp product with ⟨x, x', first, second, rfl⟩
    rw [first] at second
    cases second
    refine ⟨x * x, elementAt_eq_ok_iff.mpr ⟨[x], ?_, rfl⟩, same⟩
    exact List.Forall₂.cons first List.Forall₂.nil

/-- A function of one operand keeps the shape of its type. -/
theorem outputType_singleton {type output : ArrayType}
    (inferred : function.outputType name [type] = Except.ok output) :
    output.shape = type.shape := by
  simp only [outputType, commonType] at inferred
  cases scalar : type.isScalar with
  | true =>
    simp only [List.filter_cons, scalar, Bool.not_true, Bool.false_eq_true, if_false, List.filter_nil,
      List.foldlM_nil] at inferred
    cases inferred
    exact (List.isEmpty_iff.mp scalar).symm
  | false =>
    simp only [List.filter_cons, scalar, Bool.not_false, if_true, List.filter_nil] at inferred
    cases inferred
    rfl

/-- Another function of operands of the same shapes, equal to the first one element by element. -/
theorem compute_congr {other : ScalarFunction} {name' : String} {operands operands' : List (Tensor α)}
    (computed : function.compute name operands = Except.ok result)
    (shapes : operands'.map (·.shape) = operands.map (·.shape))
    (element : other.resultElement (ElementType.upcastAll (operands'.map (·.element))) =
      function.resultElement (ElementType.upcastAll (operands.map (·.element))))
    (same : ∀ index x, function.elementAt operands index = Except.ok x →
      other.elementAt operands' index = Except.ok x) :
    other.compute name' operands' = Except.ok result := by
  rcases compute_eq_ok_iff.mp computed with ⟨resultElement, agreed, size, each⟩
  apply compute_eq_ok_iff.mpr
  refine ⟨resultElement.trans element.symm, commonShape_of_shapes shapes agreed, size, ?_⟩
  intro index y found
  rcases each index y found with ⟨x, computed, value⟩
  exact ⟨x, same index x computed, value⟩

end ScalarFunction

end ArrayGraph
