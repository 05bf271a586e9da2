import Mathlib.Data.List.Nodup
import ArrayGraph.Executable
import ArrayGraph.Proofs.Checked

/-!
# The moves of a run

Reading and writing slots, and performing an operation on the memory, with what each of them does to
the state of a run. The two executors are made of these moves, and so are the proofs about them.
-/

namespace ArrayGraph

section Sequence

variable {ε σ β γ : Type} {first : EStateM ε σ β} {next : β → EStateM ε σ γ} {state middle : σ}

theorem bind_of_ok {value : β} (ran : first state = .ok value middle) :
    (first >>= next) state = next value middle := by
  change EStateM.bind first next state = _
  simp only [EStateM.bind, ran]

theorem bind_of_error {failure : ε} (ran : first state = .error failure middle) :
    (first >>= next) state = .error failure middle := by
  change EStateM.bind first next state = _
  simp only [EStateM.bind, ran]

/-- A computation that binds succeeds exactly when both of its parts do. -/
theorem bind_eq_ok_iff {value : γ} {final : σ} :
    (first >>= next) state = .ok value final ↔
      ∃ result middle, first state = .ok result middle ∧ next result middle = .ok value final := by
  cases ran : first state with
  | ok result middle => simp [bind_of_ok ran]
  | error failure middle => simp [bind_of_error ran]

@[simp]
theorem pure_eq_ok_iff {value other : β} {final : σ} :
    (pure value : EStateM ε σ β) state = .ok other final ↔ value = other ∧ state = final := by
  change EStateM.Result.ok value state = _ ↔ _
  simp

@[simp]
theorem throw_ne_ok {failure : ε} {value : β} {final : σ} :
    (throw failure : EStateM ε σ β) state ≠ .ok value final := by
  change EStateM.Result.error failure state ≠ _
  simp

theorem forM_append_of_ok {κ : Type} {items more : List κ} {round : κ → EStateM ε σ PUnit}
    (ran : items.forM round state = .ok () middle) :
    (items ++ more).forM round state = more.forM round middle := by
  have split : (items ++ more).forM round = items.forM round >>= fun _ => more.forM round :=
    List.forM_append
  rw [split, bind_of_ok ran]

/-- What holds at the start of a loop and is kept by every round holds at its end. -/
theorem foldlM_kept {κ : Type} (invariant : β → σ → Prop) {items : List κ}
    {round : β → κ → EStateM ε σ β}
    (kept : ∀ total, ∀ item ∈ items, ∀ state next final, invariant total state →
      round total item state = .ok next final → invariant next final)
    {start total : β} {final : σ} (holds : invariant start state)
    (ran : items.foldlM round start state = .ok total final) : invariant total final := by
  induction items generalizing start state with
  | nil =>
    simp only [List.foldlM_nil, pure_eq_ok_iff] at ran
    rcases ran with ⟨rfl, rfl⟩
    exact holds
  | cons head rest ih =>
    simp only [List.foldlM_cons, bind_eq_ok_iff] at ran
    rcases ran with ⟨next, middle, first, others⟩
    apply ih (fun total item member => kept total item (by simp [member])) _ others
    exact kept start head (by simp) state next middle holds first

end Sequence

/-- What a computation comes to, whether it succeeds or fails. -/
def Ends {ε σ β : Type} (computation : EStateM ε σ β) (state : σ) (good : β → σ → Prop)
    (bad : σ → Prop) : Prop :=
  match computation state with
  | .ok value final => good value final
  | .error _ final => bad final

namespace Ends

variable {ε σ β γ κ : Type} {computation : EStateM ε σ β} {state : σ} {good : β → σ → Prop}
  {bad : σ → Prop}

theorem of_ok {value : β} {final : σ} (ends : Ends computation state good bad)
    (ran : computation state = .ok value final) : good value final := by
  unfold Ends at ends
  rwa [ran] at ends

theorem of_error {failure : ε} {final : σ} (ends : Ends computation state good bad)
    (ran : computation state = .error failure final) : bad final := by
  unfold Ends at ends
  rwa [ran] at ends

/-- A computation that cannot end badly succeeds. -/
theorem exists_ok (ends : Ends computation state good fun _ => False) :
    ∃ value final, computation state = .ok value final ∧ good value final := by
  cases ran : computation state with
  | ok value final => exact ⟨value, final, rfl, ends.of_ok ran⟩
  | error failure final => exact (ends.of_error ran).elim

theorem intro (ok : ∀ value final, computation state = .ok value final → good value final)
    (error : ∀ failure final, computation state = .error failure final → bad final) :
    Ends computation state good bad := by
  unfold Ends
  cases ran : computation state with
  | ok value final => exact ok value final ran
  | error failure final => exact error failure final ran

theorem pure {value : β} (holds : good value state) :
    Ends (Pure.pure value : EStateM ε σ β) state good bad := holds

theorem throw {failure : ε} (holds : bad state) :
    Ends (MonadExcept.throw failure : EStateM ε σ β) state good bad := holds

theorem imp {good' : β → σ → Prop} {bad' : σ → Prop} (ends : Ends computation state good bad)
    (ok : ∀ value final, good value final → good' value final)
    (error : ∀ final, bad final → bad' final) : Ends computation state good' bad' :=
  Ends.intro (fun value final ran => ok value final (ends.of_ok ran))
    fun _ final ran => error final (ends.of_error ran)

theorem and {good' : β → σ → Prop} {bad' : σ → Prop} (ends : Ends computation state good bad)
    (ends' : Ends computation state good' bad') : Ends computation state
      (fun value final => good value final ∧ good' value final) fun final => bad final ∧ bad' final :=
  Ends.intro (fun _ _ ran => ⟨ends.of_ok ran, ends'.of_ok ran⟩)
    fun _ _ ran => ⟨ends.of_error ran, ends'.of_error ran⟩

theorem congr {other : EStateM ε σ β} (same : computation state = other state)
    (ends : Ends other state good bad) : Ends computation state good bad := by
  unfold Ends
  rwa [same]

/-- A sequence ends well if its second part does so from wherever the first part leads. -/
theorem bind {next : β → EStateM ε σ γ} {good' : γ → σ → Prop}
    (first : Ends computation state good bad)
    (second : ∀ value final, good value final → Ends (next value) final good' bad) :
    Ends (computation >>= next) state good' bad := by
  cases ran : computation state with
  | ok value final =>
    have rest := second value final (first.of_ok ran)
    unfold Ends
    rwa [bind_of_ok ran]
  | error failure final =>
    unfold Ends
    rw [bind_of_error ran]
    exact first.of_error ran

/-- A sequence whose first part is known to succeed ends as its second part does. -/
theorem after {next : β → EStateM ε σ γ} {good' : γ → σ → Prop} {value : β} {middle : σ}
    (ran : computation state = .ok value middle) (rest : Ends (next value) middle good' bad) :
    Ends (computation >>= next) state good' bad := by
  unfold Ends
  rwa [bind_of_ok ran]

/-- What every round of a loop keeps holds at its end. -/
theorem forM {items : List κ} {round : κ → EStateM ε σ PUnit} (invariant : List κ → σ → Prop)
    (start : invariant [] state)
    (step : ∀ done item rest state, items = done ++ item :: rest → invariant done state →
      Ends (round item) state (fun _ final => invariant (done ++ [item]) final) bad) :
    Ends (items.forM round) state (fun _ final => invariant items final) bad := by
  have loop : ∀ todo done state, items = done ++ todo → invariant done state →
      Ends (todo.forM round) state (fun _ final => invariant items final) bad := by
    intro todo
    induction todo with
    | nil =>
      intro done state split holds
      rw [List.append_nil] at split
      subst split
      exact Ends.pure holds
    | cons item rest ih =>
      intro done state split holds
      exact (step done item rest state split holds).bind fun _ final holds' =>
        ih (done ++ [item]) final (by simp [split]) holds'
  exact loop items [] state rfl start

/-- What every round of a loop with a running total keeps holds at its end. -/
theorem foldlM {items : List κ} {round : β → κ → EStateM ε σ β} {first : β}
    (invariant : List κ → β → σ → Prop) (start : invariant [] first state)
    (step : ∀ done item rest total state, items = done ++ item :: rest → invariant done total state →
      Ends (round total item) state (fun next final => invariant (done ++ [item]) next final) bad) :
    Ends (items.foldlM round first) state (fun total final => invariant items total final) bad := by
  have loop : ∀ todo done total state, items = done ++ todo → invariant done total state →
      Ends (todo.foldlM round total) state (fun total final => invariant items total final) bad := by
    intro todo
    induction todo with
    | nil =>
      intro done total state split holds
      rw [List.append_nil] at split
      subst split
      exact Ends.pure holds
    | cons item rest ih =>
      intro done total state split holds
      rw [List.foldlM_cons]
      exact (step done item rest total state split holds).bind fun next final holds' =>
        ih (done ++ [item]) next final (by simp [split]) holds'
  exact loop items [] first state rfl start

/-- What every item of a list that is gone through keeps holds of the results. -/
theorem mapM {items : List κ} {compute : κ → EStateM ε σ γ} (invariant : List κ → List γ → σ → Prop)
    (start : invariant [] [] state)
    (step : ∀ done results item rest state, items = done ++ item :: rest →
      invariant done results state → Ends (compute item) state
        (fun value final => invariant (done ++ [item]) (results ++ [value]) final) bad) :
    Ends (items.mapM compute) state (fun results final => invariant items results final) bad := by
  have loop : ∀ todo done results state, items = done ++ todo → invariant done results state →
      Ends (todo.mapM compute) state (fun more final => invariant items (results ++ more) final)
        bad := by
    intro todo
    induction todo with
    | nil =>
      intro done results state split holds
      rw [List.append_nil] at split
      subst split
      exact Ends.pure (by simpa using holds)
    | cons item rest ih =>
      intro done results state split holds
      rw [List.mapM_cons]
      refine (step done results item rest state split holds).bind fun value final holds' => ?_
      refine (ih (done ++ [item]) (results ++ [value]) final (by simp [split]) holds').bind ?_
      intro more last holds''
      exact Ends.pure (by simpa using holds'')
  exact (loop items [] [] state rfl start).imp (fun _ _ holds => by simpa using holds)
    fun _ holds => holds

end Ends

/-- Slots with values put into some of them, from the first to the last. -/
def fill (slots : Array (Option Value)) (entries : List (Nat × Value)) : Array (Option Value) :=
  entries.foldl (fun slots (slot, value) => slots.setIfInBounds slot (some value)) slots

section Fill

variable {slots : Array (Option Value)} {entries : List (Nat × Value)} {slot : Nat}

@[simp]
theorem size_fill : (fill slots entries).size = slots.size := by
  unfold fill
  induction entries generalizing slots with
  | nil => rfl
  | cons entry rest ih =>
    rw [List.foldl_cons, ih]
    simp

theorem fill_cons {value : Value} :
    fill slots ((slot, value) :: entries) = fill (slots.setIfInBounds slot (some value)) entries :=
  rfl

theorem getElem?_fill_of_notMem (apart : ∀ value, (slot, value) ∉ entries) :
    (fill slots entries)[slot]? = slots[slot]? := by
  induction entries generalizing slots with
  | nil => rfl
  | cons entry rest ih =>
    rcases entry with ⟨other, value⟩
    rw [fill_cons, ih fun value member => apart value (by simp [member])]
    apply Array.getElem?_setIfInBounds_ne
    intro same
    exact apart value (by simp [same])

/-- What a slot holds was put into it, or nothing was. -/
theorem getElem?_fill_cases {value : Value} (found : (fill slots entries)[slot]? = some (some value)) :
    (slot, value) ∈ entries ∨
      (∀ other, (slot, other) ∉ entries) ∧ slots[slot]? = some (some value) := by
  induction entries generalizing slots with
  | nil => exact Or.inr ⟨fun _ => List.not_mem_nil, found⟩
  | cons entry rest ih =>
    rcases entry with ⟨key, content⟩
    rw [fill_cons] at found
    rcases ih found with member | ⟨unlisted, earlier⟩
    · exact Or.inl (List.mem_cons_of_mem _ member)
    · by_cases same : key = slot
      · subst same
        rw [Array.getElem?_setIfInBounds, if_pos rfl] at earlier
        split at earlier
        · cases earlier
          exact Or.inl List.mem_cons_self
        · cases earlier
      · rw [Array.getElem?_setIfInBounds_ne same] at earlier
        refine Or.inr ⟨fun other member => ?_, earlier⟩
        rcases List.mem_cons.mp member with head | member
        · cases head
          exact same rfl
        · exact unlisted other member

theorem getElem?_fill_of_agree {value : Value} (member : (slot, value) ∈ entries)
    (agree : ∀ other, (slot, other) ∈ entries → other = value) (known : slot < slots.size) :
    (fill slots entries)[slot]? = some (some value) := by
  induction entries generalizing slots with
  | nil => cases member
  | cons entry rest ih =>
    rcases entry with ⟨key, content⟩
    rw [fill_cons]
    by_cases later : (slot, value) ∈ rest
    · exact ih later (fun other member => agree other (by simp [member])) (by simpa using known)
    · rcases List.mem_cons.mp member with same | member
      · cases same
        rw [getElem?_fill_of_notMem]
        · exact Array.getElem?_setIfInBounds_self_of_lt known
        · intro other member
          exact later (agree other (by simp [member]) ▸ member)
      · exact absurd member later

theorem getElem?_fill_zip {keys : List Nat} {values : List Value} {index : Nat} {value : Value}
    (distinct : keys.Nodup) (listed : keys[index]? = some slot) (found : values[index]? = some value)
    (known : slot < slots.size) : (fill slots (keys.zip values))[slot]? = some (some value) := by
  refine getElem?_fill_of_agree ?_ ?_ known
  · exact List.mem_of_getElem? (List.getElem?_zip_eq_some.mpr ⟨listed, found⟩)
  · intro other member
    rcases List.mem_iff_getElem?.mp member with ⟨position, both⟩
    rcases List.getElem?_zip_eq_some.mp both with ⟨listed', found'⟩
    have same : position = index := by
      apply (List.getElem?_inj (List.getElem?_eq_some_iff.mp listed').1 distinct).mp
      simp only at listed'
      rw [listed', listed]
    subst same
    rw [found] at found'
    exact (Option.some.inj found').symm

theorem getElem?_fill_zip_of_mem {keys : List Nat} {values : List Value} (distinct : keys.Nodup)
    (count : keys.length = values.length) (listed : slot ∈ keys) (known : slot < slots.size) :
    ∃ (index : Nat) (value : Value), keys[index]? = some slot ∧ values[index]? = some value ∧
      (fill slots (keys.zip values))[slot]? = some (some value) := by
  rcases List.mem_iff_getElem?.mp listed with ⟨index, key⟩
  have inside : index < values.length := count ▸ (List.getElem?_eq_some_iff.mp key).1
  have found := List.getElem?_eq_getElem inside
  exact ⟨index, values[index], key, found, getElem?_fill_zip distinct key found known⟩

theorem getElem?_fill_zip_of_notMem {keys : List Nat} {values : List Value} (unlisted : slot ∉ keys) :
    (fill slots (keys.zip values))[slot]? = slots[slot]? :=
  getElem?_fill_of_notMem fun _ member => unlisted (List.of_mem_zip member).1

theorem getElem?_fill_zip_cases {keys : List Nat} {values : List Value} {value : Value}
    (count : keys.length = values.length)
    (found : (fill slots (keys.zip values))[slot]? = some (some value)) :
    (∃ index : Nat, keys[index]? = some slot ∧ values[index]? = some value) ∨
      slot ∉ keys ∧ slots[slot]? = some (some value) := by
  rcases getElem?_fill_cases found with member | ⟨apart, earlier⟩
  · rcases List.mem_iff_getElem?.mp member with ⟨index, both⟩
    exact Or.inl ⟨index, List.getElem?_zip_eq_some.mp both⟩
  · refine Or.inr ⟨fun listed => ?_, earlier⟩
    rcases List.mem_iff_getElem?.mp listed with ⟨index, key⟩
    have inside : index < values.length := count ▸ (List.getElem?_eq_some_iff.mp key).1
    exact apart values[index] (List.mem_of_getElem?
      (List.getElem?_zip_eq_some.mpr ⟨key, List.getElem?_eq_getElem inside⟩))

end Fill

namespace Container

variable {α : Type} {container : ContainerId} {memory : Memory α}

theorem getValue_of_some {value : Value} (held : (memory.container container).value = some value) :
    getValue container true memory = .ok value memory := by
  unfold getValue
  refine (bind_of_ok rfl).trans ?_
  simp only [held]
  rfl

theorem getValue_of_none (released : (memory.container container).value = none) (borrow : Bool) :
    getValue container borrow memory =
      .error (Failure.error (.released (memory.container container).name)) memory := by
  unfold getValue
  refine (bind_of_ok rfl).trans ?_
  simp only [released]
  rfl

end Container

/-- The value that a source gives in a run. -/
def Source.value? {α : Type} (memory : Memory α) (arguments : List Value) : Source → Option Value
  | .argument index => arguments[index]?
  | .constant value => some value
  | .shared container => (memory.container container).value

namespace Run

variable {α β ε : Type} {state : RunState α} {slot : Nat}

theorem setSlot_of_lt {value : Option Value} (known : slot < state.slots.size) :
    setSlot slot value state =
      .ok () { state with slots := state.slots.setIfInBounds slot value } := by
  change (if slot < state.slots.size then _ else _ : Run α Unit) state = _
  rw [if_pos known]
  rfl

theorem slot?_of_some {content : Option Value} (found : state.slots[slot]? = some content) :
    slot? slot state = .ok content state := by
  unfold slot?
  refine (bind_of_ok rfl).trans ?_
  rw [found]
  rfl

theorem readSlot_of_some {value : Value} (found : state.slots[slot]? = some (some value)) :
    readSlot slot state = .ok value state := by
  unfold readSlot
  rw [bind_of_ok (slot?_of_some found)]
  rfl

theorem readSlot_of_none (found : state.slots[slot]? = some none) :
    readSlot slot state = .error (Failure.error (.emptySlot slot)) state := by
  unfold readSlot
  rw [bind_of_ok (slot?_of_some found)]
  rfl

theorem readSlots {slots : List Nat} {values : List Value}
    (found : List.Forall₂ (fun slot value => state.slots[slot]? = some (some value)) slots values) :
    slots.mapM readSlot state = .ok values state := by
  induction found with
  | nil => rfl
  | cons head _ ih =>
    rw [List.mapM_cons, bind_of_ok (readSlot_of_some head), bind_of_ok ih]
    rfl

theorem onMemory_of_ok {wrap : ε → RunError} {action : Action α ε β} {value : β}
    {memory : Memory α} (ran : action state.memory = .ok value memory) :
    onMemory wrap action state = .ok value { state with memory } := by
  simp only [onMemory, ran]

theorem onMemory_of_error {wrap : ε → RunError} {action : Action α ε β} {failure : Failure ε}
    {memory : Memory α} (ran : action state.memory = .error failure memory) :
    onMemory wrap action state = .error (failure.map wrap) { state with memory } := by
  simp only [onMemory, ran]

/-- Fills one root slot. -/
def loadRoot (arguments : List Value) : Nat × Source → Run α Unit
  | (slot, .argument index) => setSlot slot arguments[index]?
  | (slot, .constant value) => setSlot slot (some value)
  | (slot, .shared container) => do
    setSlot slot (some (← onMemory RunError.container (Container.getValue container true)))

theorem loadRoot_of_released {state : RunState α} {container : ContainerId}
    (released : (state.memory.container container).value = none) (arguments : List Value) (slot : Nat) :
    loadRoot arguments (slot, .shared container) state = .error
      (.error (.container (.released (state.memory.container container).name))) state :=
  bind_of_error (onMemory_of_error (Container.getValue_of_none released true))

/-- Loading a root puts the value of its source into its slot. A container that has been released has
none, and stops it. -/
theorem loadRoot_eq (state : RunState α) (arguments : List Value) (slot : Nat) (source : Source) :
    loadRoot arguments (slot, source) state =
        setSlot slot (source.value? state.memory arguments) state ∨
      ∃ container, source = .shared container ∧
        (state.memory.container container).value = none := by
  cases source with
  | argument index => exact Or.inl rfl
  | constant value => exact Or.inl rfl
  | shared container =>
    cases held : (state.memory.container container).value with
    | none => exact Or.inr ⟨container, rfl, held⟩
    | some value =>
      refine Or.inl ?_
      simp only [Source.value?, held]
      exact bind_of_ok (onMemory_of_ok (Container.getValue_of_some held))

theorem load_of_count {schedule : Schedule α} {arguments : List Value}
    (count : arguments.length = schedule.arity) :
    load schedule arguments state = schedule.roots.forM (loadRoot arguments) state := by
  unfold load
  rw [if_neg (by simp [count])]
  refine (bind_of_ok rfl).trans (congrArg (fun body : Nat × Source → Run α Unit =>
    (schedule.roots.forM body : Run α Unit) state) ?_)
  funext entry
  rcases entry with ⟨slot, source⟩
  cases source <;> rfl

theorem load_of_miscount {schedule : Schedule α} {arguments : List Value}
    (count : arguments.length ≠ schedule.arity) : load schedule arguments state =
      .error (Failure.error (.inputCount schedule.arity arguments.length)) state := by
  unfold load
  rw [if_pos count]
  rfl

theorem setSlots {entries : List (Nat × Value)}
    (known : ∀ entry ∈ entries, entry.1 < state.slots.size) :
    (entries.forM fun (slot, value) => setSlot slot (some value) : Run α Unit) state =
      .ok () { state with slots := fill state.slots entries } := by
  induction entries generalizing state with
  | nil => rfl
  | cons entry rest ih =>
    rcases entry with ⟨slot, value⟩
    change (setSlot slot (some value) >>= fun _ => rest.forM _) state = _
    rw [bind_of_ok (setSlot_of_lt (known (slot, value) (by simp)))]
    exact ih fun entry member => by simpa using known entry (by simp [member])

/-- Slots of which some have been emptied. -/
def clear (slots : Array (Option Value)) (emptied : List Nat) : Array (Option Value) :=
  emptied.foldl (fun slots slot => slots.setIfInBounds slot none) slots

@[simp]
theorem size_clear {slots : Array (Option Value)} {emptied : List Nat} :
    (clear slots emptied).size = slots.size := by
  unfold clear
  induction emptied generalizing slots with
  | nil => rfl
  | cons head rest ih =>
    rw [List.foldl_cons, ih]
    simp

theorem getElem?_clear {slots : Array (Option Value)} {emptied : List Nat} :
    (clear slots emptied)[slot]? =
      if slot ∈ emptied ∧ slot < slots.size then some none else slots[slot]? := by
  unfold clear
  induction emptied generalizing slots with
  | nil => simp
  | cons head rest ih =>
    rw [List.foldl_cons, ih]
    by_cases same : head = slot
    · subst same
      by_cases known : head < slots.size <;> simp [known]
    · have different : slot ≠ head := fun equal => same equal.symm
      simp [different, Array.getElem?_setIfInBounds_ne same]

theorem getElem?_clear_of_notMem {slots : Array (Option Value)} {emptied : List Nat}
    (kept : slot ∉ emptied) : (clear slots emptied)[slot]? = slots[slot]? := by
  rw [getElem?_clear, if_neg fun inside => kept inside.1]

/-- Emptying slots puts nothing into any of them. -/
theorem getElem?_of_clear {slots : Array (Option Value)} {emptied : List Nat} {value : Value}
    (found : (clear slots emptied)[slot]? = some (some value)) : slots[slot]? = some (some value) := by
  rw [getElem?_clear] at found
  split at found
  · cases found
  · exact found

theorem clearSlots {emptied : List Nat} (known : ∀ slot ∈ emptied, slot < state.slots.size) :
    (emptied.forM fun slot => setSlot slot none : Run α Unit) state =
      .ok () { state with slots := clear state.slots emptied } := by
  induction emptied generalizing state with
  | nil => rfl
  | cons head rest ih =>
    change (setSlot head none >>= fun _ => rest.forM _) state = _
    rw [bind_of_ok (setSlot_of_lt (known head (by simp)))]
    exact ih fun slot member => by simpa using known slot (by simp [member])

theorem store_of_lt {step : Step α} {outputs : List Value}
    (known : ∀ slot ∈ step.outputs, slot < state.slots.size) :
    store step outputs state =
      .ok () { state with slots := fill state.slots (step.outputs.zip outputs) } :=
  setSlots fun entry member => known entry.1 (List.of_mem_zip member).1

variable [Arithmetic α]

/-- What a run tells of a step. -/
def told (monitored : Bool) (step : Step α) (inputs outputs : List Value) (memory : Memory α) :
    List (NodeEvent α) :=
  if monitored then
    [⟨step.node, step.op.name, inputs.map memory.tensor, outputs.map memory.tensor⟩]
  else []

/-- The end of an interpreted step, once its operation has succeeded. -/
def conclude (monitored : Bool) (step : Step α) (inputs outputs : List Value) : Run α Unit := do
  if monitored then report step inputs outputs
  store step outputs
  count step

/-- The end of a planned step, once its operation has succeeded. -/
def concludePlanned (options : LinkOptions) (step : Step α) (inputs outputs : List Value) :
    Run α Unit := do
  if options.monitored then report step inputs outputs
  store step outputs
  if options.collect then step.frees.forM fun slot => setSlot slot none
  count step

omit [Arithmetic α] in
/-- What a planned step may write its result into. -/
def offer (options : LinkOptions) (heldOutside : BufferId → Bool) (step : Step α)
    (inputs : List Value) : Run α (Option Value) :=
  if options.collect then pure none else takeLeftover heldOutside step inputs

theorem planStep_eq (options : LinkOptions) (heldOutside : BufferId → Bool) (step : Step α) :
    planStep options heldOutside step = (do
      let inputs ← step.inputs.mapM readSlot
      let leftover ← offer options heldOutside step inputs
      let outputs ← onMemory (RunError.op step.node step.op.name)
        (step.op.performPlanned inputs leftover)
      concludePlanned options step inputs outputs) := by
  unfold planStep offer concludePlanned
  cases options.collect <;> rfl

theorem conclude_of_lt {monitored : Bool} {step : Step α} {inputs outputs : List Value}
    (known : ∀ slot ∈ step.outputs, slot < state.slots.size) :
    conclude monitored step inputs outputs state = .ok ()
      { memory := state.memory
        slots := fill state.slots (step.outputs.zip outputs)
        events := state.events ++ told monitored step inputs outputs state.memory
        executed := state.executed ++ [(step.node, step.op.name)] } := by
  have ending : ∀ state : RunState α, (∀ slot ∈ step.outputs, slot < state.slots.size) →
      (store step outputs >>= fun _ => count step) state = .ok ()
        { state with
          slots := fill state.slots (step.outputs.zip outputs)
          executed := state.executed ++ [(step.node, step.op.name)] } :=
    fun state known => bind_of_ok (store_of_lt known)
  cases monitored with
  | false =>
    refine (ending state known).trans ?_
    simp [told]
  | true => exact (bind_of_ok rfl).trans (ending _ known)

/-- A step whose inputs are there and whose operation succeeds puts the results into its slots. -/
theorem interpretStep_of_ok {monitored : Bool} {step : Step α} {inputs outputs : List Value}
    {memory : Memory α}
    (read : List.Forall₂ (fun slot value => state.slots[slot]? = some (some value))
      step.inputs inputs)
    (performed : step.op.perform inputs state.memory = .ok outputs memory)
    (known : ∀ slot ∈ step.outputs, slot < state.slots.size) :
    interpretStep monitored step state = .ok ()
      { memory
        slots := fill state.slots (step.outputs.zip outputs)
        events := state.events ++ told monitored step inputs outputs memory
        executed := state.executed ++ [(step.node, step.op.name)] } := by
  unfold interpretStep
  rw [bind_of_ok (readSlots read), bind_of_ok (onMemory_of_ok performed)]
  exact @conclude_of_lt _ { state with memory } _ _ _ _ _ known

theorem interpretStep_of_error {monitored : Bool} {step : Step α} {inputs : List Value}
    {failure : Failure OpError} {memory : Memory α}
    (read : List.Forall₂ (fun slot value => state.slots[slot]? = some (some value))
      step.inputs inputs)
    (performed : step.op.perform inputs state.memory = .error failure memory) :
    interpretStep monitored step state =
      .error (failure.map (RunError.op step.node step.op.name)) { state with memory } := by
  unfold interpretStep
  rw [bind_of_ok (readSlots read), bind_of_error (onMemory_of_error performed)]

theorem concludePlanned_of_lt {options : LinkOptions} {step : Step α}
    {inputs outputs : List Value} (known : ∀ slot ∈ step.outputs, slot < state.slots.size)
    (freed : ∀ slot ∈ step.frees, slot < state.slots.size) :
    concludePlanned options step inputs outputs state = .ok ()
      { memory := state.memory
        slots := clear (fill state.slots (step.outputs.zip outputs))
          (if options.collect then step.frees else [])
        events := state.events ++ told options.monitored step inputs outputs state.memory
        executed := state.executed ++ [(step.node, step.op.name)] } := by
  have ending : ∀ state : RunState α, (∀ slot ∈ step.outputs, slot < state.slots.size) →
      (∀ slot ∈ step.frees, slot < state.slots.size) →
      (do
        store step outputs
        if options.collect then step.frees.forM fun slot => setSlot slot none
        count step : Run α Unit) state = .ok ()
        { state with
          slots := clear (fill state.slots (step.outputs.zip outputs))
            (if options.collect then step.frees else [])
          executed := state.executed ++ [(step.node, step.op.name)] } := by
    intro state known freed
    rw [bind_of_ok (store_of_lt known)]
    cases options.collect with
    | false => rfl
    | true =>
      exact bind_of_ok (clearSlots fun slot member => by simpa using freed slot member)
  unfold concludePlanned
  cases monitored : options.monitored with
  | false =>
    refine (ending state known freed).trans ?_
    simp [told]
  | true => exact (bind_of_ok rfl).trans (ending _ known freed)

end Run

/-- What is left in the slots after a run: nothing if it failed or values are collected, and else
everything but what was in the root slots. -/
theorem Executable.slotsAfter_eq {α : Type} (executable : Executable α) (slots : Array (Option Value))
    (failed : Bool) : executable.slotsAfter slots failed =
      if executable.options.collect || failed then slots.map fun _ => none
      else Run.clear slots (executable.schedule.roots.map (·.1)) := by
  rw [slotsAfter, Run.clear, List.foldl_map]

end ArrayGraph
