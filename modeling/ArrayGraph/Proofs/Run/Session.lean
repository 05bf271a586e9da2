import Mathlib
import ArrayGraph.Workspace
import ArrayGraph.Proofs.Dataflow.Capture
import ArrayGraph.Proofs.Run.Executors

/-!
# The two linkers cannot be told apart

A session is what one caller does with one executable: it runs the executable again and again, and in
between makes values, writes into them, keeps further handles on them, gives handles away and puts
values into containers. After every command the caller sees what it was told and what it still holds:
the arrays behind its handles and in the containers, and which of them share a buffer. Two sessions
that differ in the linker only show the same from the first command to the last.

Between two commands the memories are alike up to the names of those buffers that someone in sight
holds. Everything else is forgotten, which is what lets planned execution write into it.
-/

namespace ArrayGraph

variable {α : Type}

/-- Why something that a caller asked for failed. -/
inductive SessionError where
  | run (cause : RunError)
  | op (cause : OpError)
  | container (cause : ContainerError)
deriving DecidableEq, Repr

/-- What a caller does with values at hand, apart from runs. -/
inductive Task (α : Type) where
  | create (element : ElementType) (shape : List Nat) (data : Array α)
  /-- Takes further handles on the values. -/
  | keep
  | copy
  | cast (element : ElementType)
  | view (shape : List Nat)
  | set (index : Nat) (number : α)
  | overwrite (data : Array α)
  /-- Puts a value into a new container. -/
  | share (name : String)
  | fetch (container : ContainerId) (borrow : Bool)
  | assign (container : ContainerId) (borrow : Bool)
  | release (container : ContainerId)

/-- A command of a caller, who names values by their positions among all that it was ever given. -/
inductive Command (α : Type) where
  /-- Runs the executable. The handles at the positions `given` go to the run, and the caller is left
  without them. -/
  | run (arguments given : List Nat)
  | work (task : Task α) (operands : List Nat)
  | drop (position : Nat)

/-- A caller with an executable. -/
structure Session (α : Type) where
  memory : Memory α
  /-- The values that the caller was given, as far as it has not dropped them. -/
  held : List (Option Value)
  executable : Executable α

/-- What a caller is told after a command. -/
structure Reply (α : Type) where
  result : Checked SessionError (List (Tensor α))
  events : List (NodeEvent α)
  executed : List (NodeId × String)

/-- What a caller can see: the arrays that it holds, the containers with theirs, and which of all these
share a buffer. -/
structure Sight (α : Type) where
  held : List (Option (Tensor α))
  containers : List (String × ArrayType × Option (Tensor α))
  sharing : List Nat

/-- What is done for a task. A task that needs a value and is given none does nothing. -/
def Task.perform [Arithmetic α] (task : Task α) (values : List Value) :
    Action α SessionError (List Value) :=
  match task, values with
  | .create element shape data, _ => Action.mapError SessionError.op do
    pure [← Value.create element shape data]
  | .keep, values => pure values
  | .copy, value :: _ => do pure [← value.copy]
  | .cast element, value :: _ => do pure [← value.cast element]
  | .view shape, value :: _ => Action.mapError SessionError.op do pure [← value.view shape]
  | .set index number, value :: _ => Action.mapError SessionError.op do
    value.set index number
    pure []
  | .overwrite data, value :: _ => Action.mapError SessionError.op do
    value.overwrite data
    pure []
  | .share name, value :: _ => do
    discard (Container.create name value)
    pure []
  | .fetch container borrow, _ => Action.mapError SessionError.container do
    pure [← Container.getValue container borrow]
  | .assign container borrow, value :: _ => Action.mapError SessionError.container do
    Container.setValue container value borrow
    pure []
  | .release container, _ => do
    Container.release container
    pure []
  | _, [] => pure []

namespace Session

/-- The values that the caller and the containers hold. -/
def handles (session : Session α) : List Value :=
  session.held.filterMap id ++ session.memory.containers.toList.filterMap (·.value)

/-- What the caller sees. -/
def sight (session : Session α) : Sight α where
  held := session.held.map fun content => content.map session.memory.tensor
  containers := session.memory.containers.toList.map fun container =>
    (container.name, container.type, container.value.map session.memory.tensor)
  sharing := Workspace.aliasClasses session.handles

/-- The values at some positions, unless one of them has been dropped. -/
def operands? (session : Session α) (positions : List Nat) : Option (List Value) :=
  positions.mapM fun position => session.held[position]?.join

/-- The session in which the handles at some positions are gone. -/
def without (session : Session α) (positions : List Nat) : Session α :=
  { session with
    held := session.held.mapIdx fun position content =>
      if position ∈ positions then none else content }

variable [Arithmetic α]

/-- Runs the executable. A buffer is held outside if the caller or a container still holds it, or if it
is one of those that constants and host functions hold. -/
def run (pinned : List BufferId) (session : Session α) (values : List Value) (given : List Nat) :
    Reply α × Session α :=
  let rest := session.without given
  let heldOutside := fun buffer => decide (buffer ∈ rest.handles.map (·.buffer) ++ pinned)
  let outcome := session.executable.run heldOutside values session.memory
  let seen := (outcome.result.mapError SessionError.run).map (·.map outcome.memory.tensor)
  let outputs := outcome.result.toOption.getD []
  (⟨seen, outcome.events, outcome.executed⟩,
    ⟨outcome.memory, rest.held ++ outputs.map some, outcome.executable⟩)

/-- Does a task with values at hand. The caller is given what comes of it. -/
def work (session : Session α) (task : Task α) (values : List Value) : Reply α × Session α :=
  match task.perform values session.memory with
  | .ok outputs memory =>
    (⟨Except.ok (outputs.map memory.tensor), [], []⟩,
      { session with memory, held := session.held ++ outputs.map some })
  | .error failure memory => (⟨Except.error failure, [], []⟩, { session with memory })

/-- Carries out a command. One that names a value which is not there has no effect and no reply. -/
def step (pinned : List BufferId) (session : Session α) : Command α → Option (Reply α) × Session α
  | .run arguments given =>
    match session.operands? arguments with
    | some values => (session.run pinned values given).map some id
    | none => (none, session)
  | .work task operands =>
    match session.operands? operands with
    | some values => (session.work task values).map some id
    | none => (none, session)
  | .drop position => (none, session.without [position])

/-- What the caller is told and sees, command by command. -/
def trace (pinned : List BufferId) : Session α → List (Command α) → List (Option (Reply α) × Sight α)
  | _, [] => []
  | session, command :: rest =>
    let (reply, after) := session.step pinned command
    (reply, after.sight) :: trace pinned after rest

end Session

section Tasks

variable {rename : Renaming} {left right : Memory α}

/-- Both sides put related values, or none, into a container. -/
theorem Memory.Alike.setContainer (alike : left.Alike rename right) (id : ContainerId)
    {content content' : Option Value} (related : Option.Rel rename.Relates content content') :
    (left.setContainer id content).Alike rename (right.setContainer id content') ∧
      Memory.Grows rename rename left right (left.setContainer id content)
        (right.setContainer id content') := by
  refine ⟨⟨alike.functional, alike.injective, alike.known, alike.read, ?_⟩,
    ⟨fun _ _ pair => pair, fun _ _ pair => Or.inl pair, Nat.le_refl _, Nat.le_refl _, fun _ _ => rfl,
      fun _ _ => rfl⟩⟩
  simp only [Memory.setContainer, Array.toList_modify]
  refine forall₂_modify alike.containers ?_ id.index
  intro container container' same
  exact ⟨same.name, same.type, related⟩

/-- Both sides put related values into a new container. -/
theorem Memory.Alike.addContainer (alike : left.Alike rename right) {container container' : Container}
    (related : Container.Alike rename container container') :
    Memory.Alike rename { left with containers := left.containers.push container }
        { right with containers := right.containers.push container' } ∧
      Memory.Grows rename rename left right
        { left with containers := left.containers.push container }
        { right with containers := right.containers.push container' } := by
  refine ⟨⟨alike.functional, alike.injective, alike.known, alike.read, ?_⟩,
    ⟨fun _ _ pair => pair, fun _ _ pair => Or.inl pair, Nat.le_refl _, Nat.le_refl _, fun _ _ => rfl,
      fun _ _ => rfl⟩⟩
  simp only [Array.toList_push]
  exact List.rel_append alike.containers (List.Forall₂.cons related List.Forall₂.nil)

theorem Coupled.mapError {β γ ε δ : Type} {related : Renaming → β → γ → Prop} (f : ε → δ)
    {action : Action α ε β} {action' : Action α ε γ}
    (coupled : Coupled rename left right related (action left) (action' right)) :
    Coupled rename left right related (Action.mapError f action left)
      (Action.mapError f action' right) := by
  unfold Action.mapError
  rcases SameOutcome.cases coupled with ⟨value, value', left', right', ran, ran', holds⟩ |
    ⟨failure, left', right', ran, ran', holds⟩
  · rw [ran, ran']
    exact holds
  · rw [ran, ran']
    exact ⟨rfl, holds⟩

variable {value value' : Value}

/-- New containers for related values. -/
theorem Renaming.Relates.container (same : rename.Relates value value') (name : String) :
    Container.Alike rename ⟨name, ArrayType.ofRank value.element value.shape.length, some value⟩
      ⟨name, ArrayType.ofRank value'.element value'.shape.length, some value'⟩ :=
  ⟨rfl, by rw [same.element, same.shape], Option.Rel.some same⟩

theorem Coupled.copy {ε : Type} (alike : left.Alike rename right)
    (same : rename.Relates value value') :
    Coupled (ε := Failure ε) rename left right (fun larger => larger.Relates) (value.copy left)
      (value'.copy right) := by
  unfold Value.copy
  apply Coupled.get
  rw [same.element, same.shape, alike.contents same]
  exact Coupled.store alike _ _ _

/-- What fetching a value from a container does on both sides. -/
theorem Coupled.getValue (alike : left.Alike rename right) (id : ContainerId) (borrow : Bool) :
    Coupled rename left right (fun larger => larger.Relates) (Container.getValue id borrow left)
      (Container.getValue id borrow right) := by
  unfold Container.getValue
  apply Coupled.get
  have same := alike.container id
  have related := same.value
  rw [same.name]
  generalize (left.container id).value = content at related
  generalize (right.container id).value = content' at related
  cases related with
  | none => exact Coupled.error alike _
  | some related =>
    cases borrow with
    | true => exact Coupled.ok alike related
    | false => exact Coupled.copy alike related

/-- What putting a value into a container does on both sides. -/
theorem Coupled.setValue (alike : left.Alike rename right) (same : rename.Relates value value')
    (id : ContainerId) (borrow : Bool) :
    Coupled rename left right (fun _ _ _ => True) (Container.setValue id value borrow left)
      (Container.setValue id value' borrow right) := by
  unfold Container.setValue
  apply Coupled.get
  have container := alike.container id
  have accepts : (left.container id).accepts value = (right.container id).accepts value' := by
    rw [Container.accepts, Container.accepts, container.type, same.element, same.shape]
  have empty : (left.container id).value.isNone = (right.container id).value.isNone := by
    have held := container.value
    generalize (left.container id).value = content at held
    generalize (right.container id).value = content' at held
    cases held <;> rfl
  have type : value.type = value'.type := by rw [Value.type, Value.type, same.element, same.shape]
  rw [empty, accepts, container.name, container.type, type]
  split
  · exact Coupled.error alike _
  · split
    · exact Coupled.error alike _
    · cases borrow with
      | true =>
        have both := alike.setContainer id (Option.Rel.some same)
        exact ⟨rename, both.1, both.2, trivial⟩
      | false =>
        refine Coupled.bind (Coupled.copy alike same) ?_
        intro larger left' right' held held' alike' grows related
        have both := alike'.setContainer id (Option.Rel.some related)
        exact ⟨larger, both.1, both.2, trivial⟩

variable [Arithmetic α]

theorem Coupled.create (alike : left.Alike rename right) (element : ElementType)
    (shape : List Nat) (data : Array α) :
    Coupled rename left right (fun larger => larger.Relates) (Value.create element shape data left)
      (Value.create element shape data right) := by
  unfold Value.create
  refine Coupled.bind (Coupled.ofChecked alike _) ?_
  rintro larger left' right' count _ alike' grows ⟨rfl, _⟩
  split
  · exact Coupled.error alike' _
  · exact Coupled.store alike' _ _ _

theorem Coupled.cast {ε : Type} (alike : left.Alike rename right)
    (same : rename.Relates value value') (element : ElementType) :
    Coupled (ε := Failure ε) rename left right (fun larger => larger.Relates)
      (value.cast element left) (value'.cast element right) := by
  unfold Value.cast
  apply Coupled.get
  rw [same.shape, alike.contents same]
  exact Coupled.store alike _ _ _

omit [Arithmetic α] in
theorem Coupled.view (alike : left.Alike rename right) (same : rename.Relates value value')
    (shape : List Nat) :
    Coupled rename left right (fun larger => larger.Relates) (value.view shape left)
      (value'.view shape right) := by
  unfold Value.view
  refine Coupled.bind (Coupled.ofChecked alike _) ?_
  rintro larger left' right' count _ alike' grows ⟨rfl, _⟩
  have same' := same.mono grows.keeps
  apply Coupled.get
  rw [alike'.contents same']
  split
  · exact Coupled.error alike' _
  · exact Coupled.ok alike' ⟨same'.element, rfl, same'.buffer⟩

/-- Both sides write one element. -/
theorem Coupled.set (alike : left.Alike rename right) (same : rename.Relates value value')
    (index : Nat) (number : α) :
    Coupled rename left right (fun _ _ _ => True) (value.set index number left)
      (value'.set index number right) := by
  unfold Value.set
  apply Coupled.get
  rw [same.element, alike.contents same]
  split
  · have size : (left.read value.buffer).size = ((right.contents value').setIfInBounds index
        (value'.element.normalize number)).size := by
      rw [alike.read _ _ same.buffer]
      simp [Memory.contents]
    have both := alike.write same.buffer size
    exact ⟨rename, both.1, both.2, trivial⟩
  · exact Coupled.error alike _

/-- Both sides write all elements. -/
theorem Coupled.overwrite (alike : left.Alike rename right) (same : rename.Relates value value')
    (data : Array α) :
    Coupled rename left right (fun _ _ _ => True) (value.overwrite data left)
      (value'.overwrite data right) := by
  unfold Value.overwrite
  apply Coupled.get
  rw [same.element, same.shape, alike.contents same]
  split
  · exact Coupled.error alike _
  · rename_i fits
    have size : (left.read value.buffer).size = (data.map value'.element.normalize).size := by
      rw [alike.read _ _ same.buffer]
      simpa [Memory.contents] using fits
    have both := alike.write same.buffer size
    exact ⟨rename, both.1, both.2, trivial⟩

omit [Arithmetic α] in
/-- A task that gives one value. -/
theorem Coupled.single {ε : Type} {action action' : Action α ε Value}
    (coupled : Coupled rename left right (fun larger => larger.Relates) (action left) (action' right)) :
    Coupled rename left right (fun larger => List.Forall₂ larger.Relates)
      ((do pure [← action]) left) ((do pure [← action']) right) := by
  refine Coupled.bind coupled ?_
  intro larger left' right' value value' alike' grows related
  exact Coupled.ok alike' (List.Forall₂.cons related List.Forall₂.nil)

omit [Arithmetic α] in
/-- A task that gives no value. -/
theorem Coupled.discard {ε : Type} {action action' : Action α ε Unit}
    (coupled : Coupled rename left right (fun _ _ _ => True) (action left) (action' right)) :
    Coupled rename left right (fun larger => List.Forall₂ larger.Relates)
      ((do action; pure []) left) ((do action'; pure []) right) := by
  refine Coupled.bind coupled ?_
  intro larger left' right' _ _ alike' grows related
  exact Coupled.ok alike' List.Forall₂.nil

/-- What a caller does with values at hand does the same on both sides. -/
theorem Task.coupled (alike : left.Alike rename right) {values values' : List Value}
    (same : List.Forall₂ rename.Relates values values') (task : Task α) :
    Coupled rename left right (fun larger => List.Forall₂ larger.Relates)
      (task.perform values left) (task.perform values' right) := by
  have nothing : Coupled (ε := Failure SessionError) rename left right
      (fun larger => List.Forall₂ larger.Relates) (.ok ([] : List Value) left)
      (.ok ([] : List Value) right) := Coupled.ok alike List.Forall₂.nil
  unfold Task.perform
  cases task with
  | create element shape data =>
    exact Coupled.mapError _ (.single (Coupled.create alike element shape data))
  | keep => exact Coupled.ok alike same
  | fetch container borrow =>
    exact Coupled.mapError _ (.single (Coupled.getValue alike container borrow))
  | release container =>
    have both := alike.setContainer container Option.Rel.none
    exact ⟨rename, both.1, both.2, List.Forall₂.nil⟩
  | copy =>
    cases same with
    | nil => exact nothing
    | cons head rest => exact .single (Coupled.copy alike head)
  | cast element =>
    cases same with
    | nil => exact nothing
    | cons head rest => exact .single (Coupled.cast alike head element)
  | view shape =>
    cases same with
    | nil => exact nothing
    | cons head rest => exact Coupled.mapError _ (.single (Coupled.view alike head shape))
  | set index number =>
    cases same with
    | nil => exact nothing
    | cons head rest => exact Coupled.mapError _ (.discard (Coupled.set alike head index number))
  | overwrite data =>
    cases same with
    | nil => exact nothing
    | cons head rest => exact Coupled.mapError _ (.discard (Coupled.overwrite alike head data))
  | share name =>
    cases same with
    | nil => exact nothing
    | cons head rest =>
      have both := alike.addContainer (head.container name)
      exact ⟨rename, both.1, both.2, List.Forall₂.nil⟩
  | assign container borrow =>
    cases same with
    | nil => exact nothing
    | cons head rest =>
      exact Coupled.mapError _ (.discard (Coupled.setValue alike head container borrow))

end Tasks

namespace Session

/-- Two sessions whose memories and handles are alike, where nothing is related that nobody in sight
holds. -/
structure Alike (pinned : List BufferId) (rename : Renaming) (left right : Session α) : Prop where
  memory : left.memory.Alike rename right.memory
  fixed : ∀ buffer ∈ pinned, rename buffer buffer
  held : List.Forall₂ (Option.Rel rename.Relates) left.held right.held
  inSight : ∀ a b, rename a b → b ∈ right.handles.map (·.buffer) ++ pinned

variable {pinned : List BufferId} {rename : Renaming} {left right : Session α}

theorem mem_handles {value : Value} : value ∈ left.handles ↔ some value ∈ left.held ∨
    ∃ container ∈ left.memory.containers.toList, container.value = some value := by
  simp [handles]

/-- What nobody in sight holds can be forgotten. -/
theorem alike_of_larger {larger : Renaming} (memory : left.memory.Alike larger right.memory)
    (fixed : ∀ buffer ∈ pinned, larger buffer buffer)
    (held : List.Forall₂ (Option.Rel larger.Relates) left.held right.held) :
    Alike pinned (larger.restrict fun b => b ∈ right.handles.map (·.buffer) ++ pinned) left right := by
  have inHandles : ∀ {value : Value}, value ∈ right.handles →
      value.buffer ∈ right.handles.map (·.buffer) ++ pinned := fun member =>
    List.mem_append_left _ (List.mem_map_of_mem member)
  refine ⟨memory.restrict ?_, ?_, ?_, fun a b pair => pair.2⟩
  · intro container member value found
    exact inHandles (mem_handles.mpr (Or.inr ⟨container, member, found⟩))
  · intro buffer member
    exact ⟨fixed buffer member, List.mem_append_right _ member⟩
  · exact Renaming.forall₂_relates_restrict held
      fun value member => inHandles (mem_handles.mpr (Or.inl member))

theorem Alike.handles (alike : Alike pinned rename left right) :
    List.Forall₂ rename.Relates left.handles right.handles := by
  refine List.rel_append (forall₂_filterMap alike.held fun _ _ same => same) ?_
  exact forall₂_filterMap alike.memory.containers fun _ _ same => same.value

/-- The callers of sessions that are alike see the same. -/
theorem Alike.sight (alike : Alike pinned rename left right) : left.sight = right.sight := by
  have tensors : ∀ content content', Option.Rel rename.Relates content content' →
      content.map left.memory.tensor = content'.map right.memory.tensor := by
    intro content content' same
    cases same with
    | none => rfl
    | some same => rw [Option.map_some, Option.map_some, alike.memory.tensor same]
  have buffers : List.Forall₂ rename (left.handles.map (·.buffer)) (right.handles.map (·.buffer)) := by
    rw [List.forall₂_map_left_iff, List.forall₂_map_right_iff]
    exact alike.handles.imp fun _ _ same => same.buffer
  unfold Session.sight
  congr 1
  · exact map_eq_of_forall₂ alike.held tensors
  · refine map_eq_of_forall₂ alike.memory.containers ?_
    intro container container' same
    rw [same.name, same.type, tensors _ _ same.value]
  · refine map_eq_of_forall₂ buffers ?_
    intro a b pair
    exact idxOf_eq_of_forall₂ buffers alike.memory.functional alike.memory.injective pair

theorem Alike.content (alike : Alike pinned rename left right) (position : Nat) :
    Option.Rel rename.Relates left.held[position]?.join right.held[position]?.join := by
  have same := rel_getElem? alike.held position
  generalize left.held[position]? = content at same
  generalize right.held[position]? = content' at same
  cases same with
  | none => exact .none
  | some same => exact same

/-- Commands find related operands, or miss the same ones. -/
theorem Alike.operands (alike : Alike pinned rename left right) (positions : List Nat) :
    Option.Rel (List.Forall₂ rename.Relates) (left.operands? positions)
      (right.operands? positions) := by
  unfold operands?
  induction positions with
  | nil => exact Option.Rel.some List.Forall₂.nil
  | cons position rest ih =>
    rw [List.mapM_cons, List.mapM_cons]
    have same := alike.content position
    generalize left.held[position]?.join = content at same
    generalize right.held[position]?.join = content' at same
    cases same with
    | none => exact Option.Rel.none
    | some same =>
      simp only [Option.bind_eq_bind, Option.bind_some]
      generalize rest.mapM (fun position => left.held[position]?.join) = values at ih
      generalize rest.mapM (fun position => right.held[position]?.join) = values' at ih
      cases ih with
      | none => exact Option.Rel.none
      | some others => exact Option.Rel.some (List.Forall₂.cons same others)

theorem Alike.without (alike : Alike pinned rename left right) (positions : List Nat) :
    List.Forall₂ (Option.Rel rename.Relates) (left.without positions).held
      (right.without positions).held := by
  have pairs := List.forall₂_iff_get.mp alike.held
  refine List.forall₂_iff_get.mpr ⟨by simpa [Session.without] using pairs.1, ?_⟩
  intro position inside inside'
  simp only [Session.without, List.get_eq_getElem, List.getElem_mapIdx]
  split
  · exact Option.Rel.none
  · exact pairs.2 position _ _

/-- Two sessions between two commands that differ in the executable only. -/
structure Matched (interpreted planned : Executable α) (pinned : List BufferId) (rename : Renaming)
    (left right : Session α) : Prop extends Alike pinned rename left right where
  first : left.executable = interpreted
  second : ∃ slots, right.executable = { planned with slots } ∧
    planned.schedule.Idle slots right.memory

section Steps

variable [Arithmetic α] {interpreted planned : Executable α}

omit [Arithmetic α] in
/-- Handles that the caller keeps are related by a renaming of what is live. -/
theorem Alike.held_restrict (alike : Alike pinned rename left right) {live : BufferId → Prop}
    (positions : List Nat)
    (kept : ∀ value ∈ (right.without positions).handles, live value.buffer) :
    List.Forall₂ (Option.Rel (rename.restrict live).Relates) (left.without positions).held
      (right.without positions).held :=
  Renaming.forall₂_relates_restrict (alike.without positions)
    fun value member => kept value (mem_handles.mpr (Or.inl member))

omit [Arithmetic α] in
theorem Alike.drop (alike : Alike pinned rename left right) (positions : List Nat) :
    ∃ smaller, Alike pinned smaller (left.without positions) (right.without positions) :=
  ⟨_, alike_of_larger alike.memory alike.fixed (alike.without positions)⟩

/-- Doing a task shows the same in both sessions and leaves them matched. -/
theorem Matched.work (matched : Matched interpreted planned pinned rename left right)
    {values values' : List Value} (same : List.Forall₂ rename.Relates values values')
    (task : Task α) :
    (left.work task values).1 = (right.work task values').1 ∧
      ∃ larger, Matched interpreted planned pinned larger (left.work task values).2
        (right.work task values').2 := by
  rcases matched.second with ⟨slots, second, idle⟩
  have coupled := task.coupled matched.memory same
  unfold Session.work
  rcases SameOutcome.cases coupled with
    ⟨outputs, outputs', memory, memory', ran, ran', larger, alike, grows, results⟩ |
    ⟨failure, memory, memory', ran, ran', larger, alike, grows⟩
  · rw [ran, ran']
    have held := Renaming.forall₂_relates_append
      (matched.held.imp fun _ _ same => Renaming.relates_option_mono same grows.keeps) results
    refine ⟨by simp only [alike.tensors results], _, alike_of_larger alike ?_ held, matched.first,
      slots, second, idle.later grows.right_size grows.right_read⟩
    exact fun buffer member => grows.keeps _ _ (matched.fixed buffer member)
  · rw [ran, ran']
    have held := matched.held.imp fun _ _ same => Renaming.relates_option_mono same grows.keeps
    refine ⟨rfl, _, alike_of_larger alike ?_ held, matched.first, slots, second,
      idle.later grows.right_size grows.right_read⟩
    exact fun buffer member => grows.keeps _ _ (matched.fixed buffer member)

variable (sameSchedule : planned.schedule = interpreted.schedule)
  (sameMonitor : planned.options.monitored = interpreted.options.monitored)
  (interprets : interpreted.linker = .perform) (plans : planned.linker = .plan)
  (sound : planned.schedule.Sound)
  (parametric : ∀ step ∈ planned.schedule.steps, step.op.Parametric (· ∈ pinned))
  (constants : ∀ value ∈ planned.schedule.constants, value.buffer ∈ pinned)
include sameSchedule sameMonitor interprets plans sound parametric constants

/-- A run shows the same in both sessions and leaves them matched. -/
theorem Matched.run (matched : Matched interpreted planned pinned rename left right)
    {values values' : List Value} (same : List.Forall₂ rename.Relates values values')
    (given : List Nat) :
    (left.run pinned values given).1 = (right.run pinned values' given).1 ∧
      ∃ larger, Matched interpreted planned pinned larger (left.run pinned values given).2
        (right.run pinned values' given).2 := by
  rcases matched.second with ⟨slots, second, idle⟩
  let heldOutside := fun buffer =>
    decide (buffer ∈ (right.without given).handles.map (·.buffer) ++ pinned)
  -- Pairs of buffers that nobody holds any more are left out: a run may reuse such a buffer.
  let live : BufferId → Prop := fun b =>
    heldOutside b = true ∨ ∃ value ∈ values', value.buffer = b
  have inSight : ∀ value ∈ (right.without given).handles, live value.buffer := by
    intro value member
    exact Or.inl (decide_eq_true (List.mem_append_left _ (List.mem_map_of_mem member)))
  have alike : left.memory.Alike (rename.restrict live) right.memory := by
    refine matched.memory.restrict ?_
    intro container member value found
    exact inSight value (mem_handles.mpr (Or.inr ⟨container, member, found⟩))
  have fixed : ∀ buffer, buffer ∈ pinned → rename.restrict live buffer buffer := by
    intro buffer member
    exact ⟨matched.fixed buffer member, Or.inl (decide_eq_true (List.mem_append_right _ member))⟩
  have arguments : List.Forall₂ (rename.restrict live).Relates values values' := by
    refine forall₂_imp_of_mem same fun value value' member related => ?_
    exact ⟨related.element, related.shape, related.buffer, Or.inr ⟨value', member, rfl⟩⟩
  have outcome := Executable.run_alike interpreted { planned with slots }
    (fun buffer => decide (buffer ∈ (left.without given).handles.map (·.buffer) ++ pinned))
    sameSchedule sameMonitor interprets plans sound parametric constants alike fixed arguments
    (fun a b pair => pair.2) idle
  rcases outcome with ⟨kept, larger, slots', runs, second', idle'⟩
  rw [← matched.first] at kept runs
  rw [← second] at runs
  have after : ∃ slots, (right.executable.run heldOutside values' right.memory).executable =
      { planned with slots } ∧ planned.schedule.Idle slots
        (right.executable.run heldOutside values' right.memory).memory := by
    rw [second]
    exact ⟨slots', second', idle'⟩
  have held := (matched.held_restrict given inSight).imp fun _ _ same =>
    Renaming.relates_option_mono same runs.keeps
  have fixed' : ∀ buffer ∈ pinned, larger buffer buffer :=
    fun buffer member => runs.keeps _ _ (fixed buffer member)
  unfold Session.run
  dsimp only
  rcases runs.results.cases with ⟨outputs, outputs', ok, ok', related⟩ | ⟨failure, failed, failed'⟩
  · rw [ok, ok']
    refine ⟨?_, _, alike_of_larger runs.alike fixed' (Renaming.forall₂_relates_append held related),
      kept.trans matched.first, after⟩
    simp only [Checked.mapError, Except.map, runs.alike.tensors related, runs.events, runs.executed]
    rfl
  · rw [failed, failed']
    refine ⟨?_, _, alike_of_larger runs.alike fixed' ?_, kept.trans matched.first, after⟩
    · simp only [Checked.mapError, Except.map, runs.events, runs.executed]
      rfl
    · change List.Forall₂ _ (_ ++ []) (_ ++ [])
      rw [List.append_nil, List.append_nil]
      exact held

/-- One command shows the same in both sessions and leaves them matched. -/
theorem Matched.step (matched : Matched interpreted planned pinned rename left right)
    (command : Command α) :
    (left.step pinned command).1 = (right.step pinned command).1 ∧
      ∃ larger, Matched interpreted planned pinned larger (left.step pinned command).2
        (right.step pinned command).2 := by
  cases command with
  | run arguments given =>
    simp only [Session.step]
    have operands := matched.operands arguments
    generalize left.operands? arguments = values at operands
    generalize right.operands? arguments = values' at operands
    cases operands with
    | none => exact ⟨rfl, rename, matched⟩
    | some same =>
      have ran := matched.run sameSchedule sameMonitor interprets plans sound parametric constants
        same given
      exact ⟨congrArg some ran.1, ran.2⟩
  | work task positions =>
    simp only [Session.step]
    have operands := matched.operands positions
    generalize left.operands? positions = values at operands
    generalize right.operands? positions = values' at operands
    cases operands with
    | none => exact ⟨rfl, rename, matched⟩
    | some same =>
      have worked := matched.work same task
      exact ⟨congrArg some worked.1, worked.2⟩
  | drop position =>
    rcases matched.drop [position] with ⟨smaller, alike⟩
    exact ⟨rfl, smaller, alike, matched.first, matched.second⟩

/-- Matched sessions show the same from the first command to the last. -/
theorem Matched.trace (matched : Matched interpreted planned pinned rename left right)
    (commands : List (Command α)) :
    Session.trace pinned left commands = Session.trace pinned right commands := by
  induction commands generalizing rename left right with
  | nil => rfl
  | cons command rest ih =>
    rcases matched.step sameSchedule sameMonitor interprets plans sound parametric constants command
      with ⟨reply, larger, matched'⟩
    unfold Session.trace
    dsimp only
    rw [reply, matched'.sight, ih matched']

end Steps

/-- The state in which sessions begin: all handles are on buffers that exist. -/
structure Begins (memory : Memory α) (held : List (Option Value)) (pinned : List BufferId) : Prop where
  held : ∀ value, some value ∈ held → memory.Knows value
  containers : ∀ container ∈ memory.containers.toList, ∀ value, container.value = some value →
    memory.Knows value
  pinned : ∀ buffer ∈ pinned, buffer.index < memory.buffers.size

variable {memory : Memory α} {held : List (Option Value)}

/-- At the start of two sessions on one memory every buffer stands for itself. -/
theorem Begins.alike (begins : Begins memory held pinned) (first second : Executable α) :
    ∃ rename, Alike pinned rename ⟨memory, held, first⟩ ⟨memory, held, second⟩ := by
  let whole : Renaming := fun a b => a = b ∧ a.index < memory.buffers.size
  have option : ∀ content : Option Value, (∀ value, content = some value → memory.Knows value) →
      Option.Rel whole.Relates content content := by
    intro content known
    cases content with
    | none => exact Option.Rel.none
    | some value => exact Option.Rel.some ⟨rfl, rfl, rfl, known value rfl⟩
  have alike : memory.Alike whole memory := by
    refine ⟨?_, ?_, ?_, ?_, ?_⟩
    · exact fun a b b' pair pair' => pair.1.symm.trans pair'.1
    · exact fun a a' b pair pair' => pair.1.trans pair'.1.symm
    · exact fun a b pair => ⟨pair.2, pair.1 ▸ pair.2⟩
    · exact fun a b pair => by rw [pair.1]
    · rw [List.forall₂_same]
      exact fun container member =>
        ⟨rfl, rfl, option container.value (begins.containers container member)⟩
  have related : List.Forall₂ (Option.Rel whole.Relates) held held := by
    rw [List.forall₂_same]
    intro content member
    refine option content ?_
    rintro value rfl
    exact begins.held value member
  exact ⟨_, alike_of_larger alike (fun buffer member => ⟨rfl, begins.pinned buffer member⟩) related⟩

variable [Arithmetic α] {graph : Dataflow α} {orderings : Orderings}

/-- A session with a planned executable shows what one with an interpreted executable shows. -/
theorem trace_planned {interpreted planned : Executable α} {options options' : LinkOptions}
    {log log' : List LogEntry} (formed : graph.Formed) (distinct : graph.inputs.Nodup)
    (interprets : Executable.link .perform options graph orderings = Except.ok (interpreted, log))
    (plans : Executable.link .plan options' graph orderings = Except.ok (planned, log'))
    (sameMonitor : options'.monitored = options.monitored)
    (constants : ∀ var value, (graph.var var).kind = .constant value → value.buffer ∈ pinned)
    (hosts : ∀ id node, graph.node? id = some node → node.op.Parametric (· ∈ pinned))
    (begins : Begins memory held pinned) (commands : List (Command α)) :
    trace pinned ⟨memory, held, interpreted⟩ commands =
      trace pinned ⟨memory, held, planned⟩ commands := by
  rcases Executable.link_eq_ok interprets with ⟨laid, isPerform, rfl, _⟩
  rcases Executable.link_eq_ok plans with ⟨laid', isPlan, rfl, empty⟩
  have sameSchedule : planned.schedule = interpreted.schedule := by
    rw [laid] at laid'
    exact (Except.ok.inj laid').symm
  rcases Schedule.laysOut_of_ofGraph distinct laid' with ⟨order, vars, ordered, laysOut⟩
  have sound := laysOut.sound formed.toWellFormed distinct (Dataflow.respects_of_order ordered)
  have parametric : ∀ step ∈ planned.schedule.steps, step.op.Parametric (· ∈ pinned) := by
    intro step member
    rcases forall₂_mem_right laysOut.steps member with ⟨id, _, node, live, stands⟩
    rw [stands.op]
    exact hosts id node live
  have fixed : ∀ value ∈ planned.schedule.constants, value.buffer ∈ pinned := by
    intro value member
    rcases List.mem_filterMap.mp member with ⟨⟨slot, source⟩, root, isConstant⟩
    rcases laysOut.mem_roots.mp root with ⟨var, _, sourced, _⟩
    cases source with
    | constant constant =>
      cases isConstant
      exact constants var value (Dataflow.kind_of_source? sourced)
    | _ => cases isConstant
  have idle : planned.schedule.Idle planned.slots memory := by
    rw [empty rfl]
    exact Schedule.idle_of_empty (by simp) (by simp [Array.getElem?_replicate])
  rcases begins.alike interpreted planned with ⟨rename, alike⟩
  have matched : Matched interpreted planned pinned rename ⟨memory, held, interpreted⟩
      ⟨memory, held, planned⟩ := ⟨alike, rfl, planned.slots, rfl, idle⟩
  exact matched.trace sameSchedule sameMonitor isPerform isPlan sound parametric fixed commands

/-- Executables that were linked from one graph under the same orderings cannot be told apart, whichever
linker made them and whether or not they collect. -/
theorem trace_eq_of_link {linker linker' : Linker} {options options' : LinkOptions}
    {first second : Executable α} {log log' : List LogEntry} (edited : graph.Edited)
    (distinct : graph.inputs.Nodup)
    (link : Executable.link linker options graph orderings = Except.ok (first, log))
    (link' : Executable.link linker' options' graph orderings = Except.ok (second, log'))
    (sameMonitor : options.monitored = options'.monitored)
    (constants : ∀ var value, (graph.var var).kind = .constant value → value.buffer ∈ pinned)
    (hosts : ∀ id node, graph.node? id = some node → node.op.Parametric (· ∈ pinned))
    (begins : Begins memory held pinned) (commands : List (Command α)) :
    trace pinned ⟨memory, held, first⟩ commands = trace pinned ⟨memory, held, second⟩ commands := by
  have formed := edited.formed
  cases linker with
  | perform =>
    cases linker' with
    | perform =>
      rcases Executable.exists_link link .plan options with ⟨planned, log'', plans⟩
      exact (trace_planned formed distinct link plans rfl constants hosts begins commands).trans
        (trace_planned formed distinct link' plans sameMonitor constants hosts begins commands).symm
    | plan =>
      exact trace_planned formed distinct link link' sameMonitor.symm constants hosts begins commands
  | plan =>
    cases linker' with
    | perform =>
      exact (trace_planned formed distinct link' link sameMonitor constants hosts begins
        commands).symm
    | plan =>
      rcases Executable.exists_link link .perform options with ⟨interpreted, log'', interprets⟩
      exact (trace_planned formed distinct interprets link rfl constants hosts begins commands).symm.trans
        (trace_planned formed distinct interprets link' sameMonitor.symm constants hosts begins
          commands)

/-- A symbolic graph that negates a vector. -/
def negation : Graph Float where
  vars := #[⟨ArrayType.ofRank .float64 1, .input, some "x"⟩,
    ⟨ArrayType.ofRank .float64 1, .output ⟨0⟩ 0, none⟩]
  nodes := #[⟨.elementwise .neg none, [⟨0⟩], [⟨1⟩]⟩]

/-- What is captured from it. -/
def capturedNegation : Dataflow Float where
  vars := negation.vars
  nodes := #[some ⟨.elementwise .neg none, [⟨0⟩], [⟨1⟩]⟩]
  inputs := [⟨0⟩]
  outputs := [⟨1⟩]
  guarded := []

theorem edited_capturedNegation : capturedNegation.Edited := by
  have applied : (Graph.empty.addInput (ArrayType.ofRank .float64 1) "x").2.apply
      (Op.elementwise .neg none : Op Float) [⟨0⟩] = Except.ok ([⟨1⟩], negation) := rfl
  have captured : Dataflow.capture negation [⟨0⟩] [⟨1⟩] false = Except.ok capturedNegation := by cbv
  exact .capture (.apply (.input .empty _ _) applied) captured

/-- A caller that runs two executables twice, the second time on the result of the first run, which it
gives away. -/
theorem trace_eq_capturedNegation :
    ∃ first second log log',
      Executable.link .perform ⟨false, true⟩ capturedNegation .empty = Except.ok (first, log) ∧
      Executable.link .plan ⟨false, true⟩ capturedNegation .empty = Except.ok (second, log') ∧
      trace [] ⟨⟨#[#[2, 5]], #[]⟩, [some ⟨.float64, [2], ⟨0⟩⟩], first⟩
          [.run [0] [], .drop 0, .run [1] [1]] =
        trace [] ⟨⟨#[#[2, 5]], #[]⟩, [some ⟨.float64, [2], ⟨0⟩⟩], second⟩
          [.run [0] [], .drop 0, .run [1] [1]] := by
  rcases (⟨_, _, rfl⟩ : ∃ first log, Executable.link .perform ⟨false, true⟩ capturedNegation .empty =
    Except.ok (first, log)) with ⟨first, log, link⟩
  rcases Executable.exists_link link .plan ⟨false, true⟩ with ⟨second, log', link'⟩
  have noHosts : ∀ entry ∈ capturedNegation.liveNodes, entry.2.op.isPlanned := by decide
  refine ⟨first, second, log, log', link, link', trace_eq_of_link edited_capturedNegation (by decide)
    link link' rfl ?_ ?_ ⟨?_, by simp, by simp⟩ _⟩
  · intro var value kind
    by_cases known : var.index < capturedNegation.vars.size
    · have noConstants : ∀ var ∈ capturedNegation.varIds,
          (capturedNegation.var var).constant? = none := by decide
      have absent := noConstants var (Dataflow.mem_varIds.mpr known)
      simp [Variable.constant?, kind] at absent
    · rw [Dataflow.var_default (by omega)] at kind
      cases kind
  · intro id node live function same
    have planned := noHosts (id, node) (Dataflow.mem_liveNodes.mpr live)
    simp [same, Op.isPlanned] at planned
  · simp [Memory.Knows]

end Session

end ArrayGraph
