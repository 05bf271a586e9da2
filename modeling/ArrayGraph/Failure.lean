/-!
# Failures

An operation can fail in two ways. An error is an answer: it has a cause that the caller can
inspect and a message. A fault is a broken precondition (an identifier that was never handed out,
a number of elements that no machine word holds), after which nothing more is promised. Keeping
the two apart lets every theorem about errors ignore faults, and lets a caller stop at a fault.
-/

namespace ArrayGraph

/-- A broken precondition. -/
inductive Fault where
  /-- A variable identifier past the end of the graph. -/
  | noSuchVariable (index : Nat)
  /-- A node identifier past the end of the graph. -/
  | noSuchNode (index : Nat)
  /-- An operand position past the operands that were given. -/
  | noSuchOperand (position : Nat)
  /-- A position past the end of an operand's elements. -/
  | noSuchElement (position : Nat)
  /-- A slot number past the end of the slot table. -/
  | noSuchSlot (slot : Nat)
  /-- A product of dimensions that does not fit in 64 bits. -/
  | sizeOverflow
  /-- A list of output contracts whose length is not the number of outputs. -/
  | contractCount
deriving DecidableEq, Repr

/-- Why an operation with errors of type `ε` did not succeed. -/
inductive Failure (ε : Type) where
  | error (cause : ε)
  | fault (broken : Fault)
deriving DecidableEq, Repr

namespace Failure

variable {ε δ : Type}

/-- Applies a function to the cause of an error; a fault stays as it is. -/
def map (f : ε → δ) : Failure ε → Failure δ
  | Failure.error cause => Failure.error (f cause)
  | Failure.fault broken => Failure.fault broken

end Failure

/-- A computation that answers or fails. -/
abbrev Checked (ε : Type) (β : Type) := Except (Failure ε) β

namespace Checked

variable {ε δ β γ : Type}

/-- Fails with an error. -/
def raise (cause : ε) : Checked ε β := Except.error (Failure.error cause)

/-- Fails with a fault. -/
def abort (broken : Fault) : Checked ε β := Except.error (Failure.fault broken)

/-- The content of an option, or a fault where there is none. -/
def orFault (content : Option β) (broken : Fault) : Checked ε β :=
  match content with
  | some value => Except.ok value
  | none => abort broken

/-- The content of an option, or an error where there is none. -/
def orError (content : Option β) (cause : ε) : Checked ε β :=
  match content with
  | some value => Except.ok value
  | none => raise cause

/-- Changes the type of errors. -/
def mapError (f : ε → δ) : Checked ε β → Checked δ β
  | Except.ok value => Except.ok value
  | Except.error failure => Except.error (failure.map f)

@[simp]
theorem ok_bind (value : β) (next : β → Checked ε γ) :
    ((Except.ok value : Checked ε β) >>= next) = next value := rfl

@[simp]
theorem error_bind (failure : Failure ε) (next : β → Checked ε γ) :
    ((Except.error failure : Checked ε β) >>= next) = Except.error failure := rfl

@[simp]
theorem raise_ne_ok (cause : ε) (value : β) : raise cause ≠ Except.ok value := by simp [raise]

@[simp]
theorem abort_ne_ok (broken : Fault) (value : β) :
    (abort broken : Checked ε β) ≠ Except.ok value := by simp [abort]

@[simp]
theorem orFault_eq_ok_iff {content : Option β} {broken : Fault} {value : β} :
    (orFault content broken : Checked ε β) = Except.ok value ↔ content = some value := by
  cases content <;> simp [orFault]

@[simp]
theorem orError_eq_ok_iff {content : Option β} {cause : ε} {value : β} :
    orError content cause = Except.ok value ↔ content = some value := by
  cases content <;> simp [orError]

@[simp]
theorem mapError_eq_ok_iff {f : ε → δ} {computation : Checked ε β} {value : β} :
    mapError f computation = Except.ok value ↔ computation = Except.ok value := by
  cases computation <;> simp [mapError]

/-- A computation that binds succeeds exactly when both of its parts do. -/
theorem bind_eq_ok_iff {first : Checked ε β} {next : β → Checked ε γ} {value : γ} :
    first >>= next = Except.ok value ↔
      ∃ middle, first = Except.ok middle ∧ next middle = Except.ok value := by
  cases first <;> simp

end Checked

end ArrayGraph
