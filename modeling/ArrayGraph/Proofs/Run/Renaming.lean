import ArrayGraph.Proofs.Perform

/-!
# Memories that are alike up to the names of buffers

Two executors that do the same thing need not use the same buffers. A renaming relates the buffers
of one memory to those of another: it is one to one where it is defined, related buffers hold the
same elements, and containers hold related values. Buffers that are not related may hold anything.
A computation that only follows the handles it was given behaves alike on both sides, and whatever it
makes is related by a larger renaming.
-/

namespace ArrayGraph

variable {α β γ δ ε σ τ : Type}

/-- Which buffer of one memory stands for which of another. -/
abbrev Renaming := BufferId → BufferId → Prop

namespace Renaming

/-- Two values of one form in related buffers. -/
structure Relates (rename : Renaming) (left right : Value) : Prop where
  element : left.element = right.element
  shape : left.shape = right.shape
  buffer : rename left.buffer right.buffer

/-- A renaming in which two further buffers are related. -/
def add (rename : Renaming) (left right : BufferId) : Renaming := fun a b =>
  rename a b ∨ a = left ∧ b = right

/-- The buffers of two lists of values are paired place by place, besides those that are paired
already. -/
def along (rename : Renaming) (values values' : List Value) : Renaming := fun a b =>
  rename a b ∨ ∃ (index : Nat) (value value' : Value), values[index]? = some value ∧
    values'[index]? = some value' ∧ value.buffer = a ∧ value'.buffer = b

theorem along_flip {rename : Renaming} {values values' : List Value} {a b : BufferId} :
    along (fun b a => rename a b) values' values b a ↔ along rename values values' a b := by
  refine or_congr_right ?_
  constructor
  · rintro ⟨index, value', value, found', found, same', same⟩
    exact ⟨index, value, value', found, found', same, same'⟩
  · rintro ⟨index, value, value', found, found', same, same'⟩
    exact ⟨index, value', value, found', found, same', same⟩

theorem Relates.mono {rename larger : Renaming} {left right : Value}
    (related : rename.Relates left right) (within : ∀ a b, rename a b → larger a b) :
    larger.Relates left right :=
  ⟨related.element, related.shape, within _ _ related.buffer⟩

theorem relates_option_mono {rename larger : Renaming} {left right : Option Value}
    (related : Option.Rel rename.Relates left right) (within : ∀ a b, rename a b → larger a b) :
    Option.Rel larger.Relates left right := by
  cases related with
  | some related => exact Option.Rel.some (related.mono within)
  | none => exact Option.Rel.none

/-- A renaming that leaves out what is not live. -/
def restrict (rename : Renaming) (live : BufferId → Prop) : Renaming := fun a b =>
  rename a b ∧ live b

theorem relates_option_restrict {rename : Renaming} {live : BufferId → Prop}
    {left right : Option Value} (related : Option.Rel rename.Relates left right)
    (held : ∀ value, right = some value → live value.buffer) :
    Option.Rel (rename.restrict live).Relates left right := by
  cases related with
  | some related =>
    exact Option.Rel.some ⟨related.element, related.shape, related.buffer, held _ rfl⟩
  | none => exact Option.Rel.none

theorem forall₂_relates_restrict {rename : Renaming} {live : BufferId → Prop}
    {left right : List (Option Value)} (related : List.Forall₂ (Option.Rel rename.Relates) left right)
    (held : ∀ value, some value ∈ right → live value.buffer) :
    List.Forall₂ (Option.Rel (rename.restrict live).Relates) left right := by
  refine forall₂_imp_of_mem related fun content content' member same => ?_
  refine relates_option_restrict same ?_
  rintro value rfl
  exact held value member

/-- Values that have been computed are held after those that are held already. -/
theorem forall₂_relates_append {rename : Renaming} {left right : List (Option Value)}
    {outputs outputs' : List Value} (held : List.Forall₂ (Option.Rel rename.Relates) left right)
    (results : List.Forall₂ rename.Relates outputs outputs') :
    List.Forall₂ (Option.Rel rename.Relates) (left ++ outputs.map some)
      (right ++ outputs'.map some) := by
  refine List.rel_append held ?_
  rw [List.forall₂_map_left_iff, List.forall₂_map_right_iff]
  exact results.imp fun _ _ same => Option.Rel.some same

end Renaming

/-- Two containers of one name and type that hold related values, or none. -/
structure Container.Alike (rename : Renaming) (left right : Container) : Prop where
  name : left.name = right.name
  type : left.type = right.type
  value : Option.Rel rename.Relates left.value right.value

namespace Memory

/-- Two memories are alike up to the names of buffers. -/
structure Alike (rename : Renaming) (left right : Memory α) : Prop where
  functional : ∀ a b b', rename a b → rename a b' → b = b'
  injective : ∀ a a' b, rename a b → rename a' b → a = a'
  known : ∀ a b, rename a b → a.index < left.buffers.size ∧ b.index < right.buffers.size
  read : ∀ a b, rename a b → left.read a = right.read b
  containers : List.Forall₂ (Container.Alike rename) left.containers.toList
    right.containers.toList

/-- How two memories and a renaming develop: pairs are kept, a further pair is one of new buffers,
and no buffer changes its size. -/
structure Grows (rename larger : Renaming) (left right left' right' : Memory α) : Prop where
  keeps : ∀ a b, rename a b → larger a b
  fresh : ∀ a b, larger a b →
    rename a b ∨ left.buffers.size ≤ a.index ∧ right.buffers.size ≤ b.index
  left_size : left.buffers.size ≤ left'.buffers.size
  right_size : right.buffers.size ≤ right'.buffers.size
  left_read : ∀ a : BufferId, a.index < left.buffers.size →
    (left'.read a).size = (left.read a).size
  right_read : ∀ b : BufferId, b.index < right.buffers.size →
    (right'.read b).size = (right.read b).size

variable {rename larger largest : Renaming} {left right left' right' left'' right'' : Memory α}

theorem Grows.refl (rename : Renaming) (left right : Memory α) :
    Grows rename rename left right left right :=
  ⟨fun _ _ pair => pair, fun _ _ pair => Or.inl pair, Nat.le_refl _, Nat.le_refl _,
    fun _ _ => rfl, fun _ _ => rfl⟩

theorem Grows.trans (first : Grows rename larger left right left' right')
    (second : Grows larger largest left' right' left'' right'') :
    Grows rename largest left right left'' right'' where
  keeps a b pair := second.keeps a b (first.keeps a b pair)
  fresh a b pair := by
    rcases second.fresh a b pair with pair | ⟨newLeft, newRight⟩
    · exact first.fresh a b pair
    · exact Or.inr ⟨Nat.le_trans first.left_size newLeft, Nat.le_trans first.right_size newRight⟩
  left_size := Nat.le_trans first.left_size second.left_size
  right_size := Nat.le_trans first.right_size second.right_size
  left_read a known :=
    (second.left_read a (Nat.lt_of_lt_of_le known first.left_size)).trans (first.left_read a known)
  right_read b known :=
    (second.right_read b (Nat.lt_of_lt_of_le known first.right_size)).trans
      (first.right_read b known)

theorem Alike.contents (alike : Alike rename left right) {value value' : Value}
    (related : rename.Relates value value') : left.contents value = right.contents value' :=
  alike.read _ _ related.buffer

theorem Alike.tensor (alike : Alike rename left right) {value value' : Value}
    (related : rename.Relates value value') : left.tensor value = right.tensor value' := by
  rw [Memory.tensor, Memory.tensor, related.element, related.shape, alike.contents related]

theorem Alike.tensors (alike : Alike rename left right) {values values' : List Value}
    (related : List.Forall₂ rename.Relates values values') :
    values.map left.tensor = values'.map right.tensor := by
  induction related with
  | nil => rfl
  | cons head _ ih => simp [alike.tensor head, ih]

theorem Alike.container (alike : Alike rename left right) (id : ContainerId) :
    Container.Alike rename (left.container id) (right.container id) := by
  unfold Memory.container
  rw [← Array.getElem?_toList, ← Array.getElem?_toList]
  have same := rel_getElem? alike.containers id.index
  generalize left.containers.toList[id.index]? = content at same
  generalize right.containers.toList[id.index]? = content' at same
  cases same with
  | none => exact ⟨rfl, rfl, .none⟩
  | some same => exact same

theorem Alike.containers_mono (alike : Alike rename left right)
    (within : ∀ a b, rename a b → larger a b) :
    List.Forall₂ (Container.Alike larger) left.containers.toList right.containers.toList := by
  refine alike.containers.imp ?_
  intro container container' same
  exact ⟨same.name, same.type, Renaming.relates_option_mono same.value within⟩

/-- Relating a buffer that is new on the left to one that nothing on the left is related to. -/
theorem Alike.add (alike : Alike rename left right) {data : Array α} {right' : Memory α}
    {buffer : BufferId} (known : buffer.index < right'.buffers.size)
    (unrelated : ∀ a, ¬rename a buffer) (grown : right.buffers.size ≤ right'.buffers.size)
    (written : right'.read buffer = data)
    (kept : ∀ other : BufferId, other.index < right.buffers.size → other ≠ buffer →
      right'.read other = right.read other)
    (containers : right'.containers = right.containers) :
    Alike (rename.add (left.allocate data).1 buffer) (left.allocate data).2 right' where
  functional a b b' := by
    rintro (pair | ⟨rfl, rfl⟩) (pair' | ⟨same, rfl⟩)
    · exact alike.functional a b b' pair pair'
    · have known := (alike.known a b pair).1
      rw [same, left.allocate_fresh] at known
      omega
    · have known := (alike.known _ b' pair').1
      rw [left.allocate_fresh] at known
      omega
    · rfl
  injective a a' b := by
    rintro (pair | ⟨rfl, rfl⟩) (pair' | ⟨rfl, same⟩)
    · exact alike.injective a a' b pair pair'
    · exact absurd (same ▸ pair) (unrelated a)
    · exact absurd pair' (unrelated a')
    · rfl
  known a b := by
    rintro (pair | ⟨rfl, rfl⟩)
    · have both := alike.known a b pair
      rw [size_allocate]
      omega
    · rw [size_allocate, left.allocate_fresh]
      omega
  read a b := by
    rintro (pair | ⟨rfl, rfl⟩)
    · have both := alike.known a b pair
      rw [left.read_allocate_of_lt data both.1, alike.read a b pair]
      refine (kept b both.2 ?_).symm
      rintro rfl
      exact unrelated a pair
    · rw [read_allocate_self, written]
  containers := by
    rw [containers]
    exact alike.containers_mono fun a b pair => Or.inl pair

/-- Both sides make a buffer with the same elements. -/
theorem Alike.allocate (alike : Alike rename left right) (data : Array α) :
    Alike (rename.add (left.allocate data).1 (right.allocate data).1) (left.allocate data).2
        (right.allocate data).2 ∧
      Grows rename (rename.add (left.allocate data).1 (right.allocate data).1) left right
        (left.allocate data).2 (right.allocate data).2 := by
  constructor
  · refine alike.add ?_ ?_ ?_ (right.read_allocate_self data) ?_ rfl
    · simp [right.allocate_fresh]
    · intro a pair
      have known := (alike.known a _ pair).2
      rw [right.allocate_fresh] at known
      omega
    · simp
    · exact fun other known _ => right.read_allocate_of_lt data known
  · refine ⟨fun a b pair => Or.inl pair, ?_, by simp, by simp, ?_, ?_⟩
    · rintro a b (pair | ⟨rfl, rfl⟩)
      · exact Or.inl pair
      · exact Or.inr ⟨Nat.le_refl _, Nat.le_refl _⟩
    · exact fun a known => by rw [left.read_allocate_of_lt data known]
    · exact fun b known => by rw [right.read_allocate_of_lt data known]

/-- Both sides write the same elements, as many as there were, into related buffers. -/
theorem Alike.write (alike : Alike rename left right) {a b : BufferId} (pair : rename a b)
    {data : Array α} (size : (left.read a).size = data.size) :
    Alike rename (left.write a data) (right.write b data) ∧
      Grows rename rename left right (left.write a data) (right.write b data) := by
  have both := alike.known a b pair
  constructor
  · refine ⟨alike.functional, alike.injective, ?_, ?_, alike.containers⟩
    · simpa using alike.known
    · intro a' b' pair'
      by_cases same : a' = a
      · subst same
        cases alike.functional a' b b' pair pair'
        rw [left.read_write_self data both.1, right.read_write_self data both.2]
      · have different : b' ≠ b := by
          rintro rfl
          exact same (alike.injective a' a b' pair' pair)
        rw [left.read_write_of_ne data same, right.read_write_of_ne data different,
          alike.read a' b' pair']
  · refine ⟨fun _ _ pair => pair, fun _ _ pair => Or.inl pair, by simp, by simp, ?_, ?_⟩
    · intro a' _
      by_cases same : a' = a
      · rw [same, left.read_write_self data both.1, size]
      · rw [left.read_write_of_ne data same]
    · intro b' _
      by_cases same : b' = b
      · rw [same, right.read_write_self data both.2, ← alike.read a b pair, size]
      · rw [right.read_write_of_ne data same]

/-- Buffers that no container holds can be forgotten. -/
theorem Alike.restrict (alike : Alike rename left right) {live : BufferId → Prop}
    (held : ∀ container ∈ right.containers.toList, ∀ value, container.value = some value →
      live value.buffer) : Alike (rename.restrict live) left right where
  functional a b b' pair pair' := alike.functional a b b' pair.1 pair'.1
  injective a a' b pair pair' := alike.injective a a' b pair.1 pair'.1
  known a b pair := alike.known a b pair.1
  read a b pair := alike.read a b pair.1
  containers := by
    refine forall₂_imp_of_mem alike.containers fun container container' member same => ?_
    exact ⟨same.name, same.type, Renaming.relates_option_restrict same.value (held container' member)⟩

/-- Nothing that was there has changed on either side. -/
theorem Alike.keeps (alike : Alike rename left right) (kept : left.Keeps left')
    (kept' : right.Keeps right') :
    Alike rename left' right' ∧ Grows rename rename left right left' right' := by
  constructor
  · refine ⟨alike.functional, alike.injective, ?_, ?_, ?_⟩
    · intro a b pair
      have both := alike.known a b pair
      exact ⟨Nat.lt_of_lt_of_le both.1 kept.size, Nat.lt_of_lt_of_le both.2 kept'.size⟩
    · intro a b pair
      have both := alike.known a b pair
      rw [kept.read a both.1, kept'.read b both.2, alike.read a b pair]
    · rw [kept.containers, kept'.containers]
      exact alike.containers
  · exact ⟨fun _ _ pair => pair, fun _ _ pair => Or.inl pair, kept.size, kept'.size,
      fun a known => by rw [kept.read a known], fun b known => by rw [kept'.read b known]⟩

/-- Handles on different buffers stand at one position if they share a buffer. -/
theorem Fresh.position {values : List Value} (fresh : left.Fresh left' values)
    {first second : Nat} {value value' : Value} (found : values[first]? = some value)
    (found' : values[second]? = some value') (same : value.buffer = value'.buffer) :
    first = second := by
  have known : first < (values.map (·.buffer)).length := by
    rw [List.length_map]
    exact (List.getElem?_eq_some_iff.mp found).1
  apply (List.getElem?_inj known fresh.distinct).mp
  rw [List.getElem?_map, List.getElem?_map, found, found', Option.map_some, Option.map_some, same]

/-- New buffers on the one side are paired with at most one buffer each. -/
theorem Fresh.functional {values values' : List Value} (fresh : left.Fresh left' values)
    (functional : ∀ a b b', rename a b → rename a b' → b = b')
    (known : ∀ a b, rename a b → a.index < left.buffers.size) {a b b' : BufferId}
    (pair : rename.along values values' a b) (pair' : rename.along values values' a b') : b = b' := by
  rcases pair with pair | ⟨index, value, other, found, found', rfl, rfl⟩
  · rcases pair' with pair' | ⟨second, value, other, found, found', shared, rfl⟩
    · exact functional a b b' pair pair'
    · have old := known a b pair
      have new := fresh.new value (List.mem_of_getElem? found)
      rw [shared] at new
      omega
  · rcases pair' with pair' | ⟨second, value', other', known, known', shared, rfl⟩
    · have old := known _ b' pair'
      have new := fresh.new value (List.mem_of_getElem? found)
      omega
    · cases fresh.position found known shared.symm
      rw [found'] at known'
      cases known'
      rfl

/-- Both sides put the same arrays into new buffers and change nothing. -/
theorem Alike.fresh (alike : Alike rename left right) (kept : left.Keeps left')
    (kept' : right.Keeps right') {outputs outputs' : List Value} (fresh : left.Fresh left' outputs)
    (fresh' : right.Fresh right' outputs')
    (same : outputs.map left'.tensor = outputs'.map right'.tensor) :
    ∃ larger, Alike larger left' right' ∧ Grows rename larger left right left' right' ∧
      List.Forall₂ larger.Relates outputs outputs' := by
  have both := alike.keeps kept kept'
  have length : outputs.length = outputs'.length := by
    simpa using congrArg List.length same
  have tensors : ∀ {index : Nat} {output output' : Value}, outputs[index]? = some output →
      outputs'[index]? = some output' → left'.tensor output = right'.tensor output' := by
    intro index output output' found found'
    have at_index := congrArg (fun tensors => tensors[index]?) same
    simpa [found, found'] using at_index
  refine ⟨rename.along outputs outputs', ⟨?_, ?_, ?_, ?_, ?_⟩,
    ⟨fun a b pair => Or.inl pair, ?_, kept.size, kept'.size, both.2.left_read, both.2.right_read⟩, ?_⟩
  · intro a b b' pair pair'
    exact fresh.functional alike.functional (fun a b pair => (alike.known a b pair).1) pair pair'
  · intro a a' b pair pair'
    exact fresh'.functional (fun b a a' => alike.injective a a' b)
      (fun b a pair => (alike.known a b pair).2) (Renaming.along_flip.mpr pair)
      (Renaming.along_flip.mpr pair')
  · rintro a b (pair | ⟨index, output, output', found, found', rfl, rfl⟩)
    · exact both.1.known a b pair
    · exact ⟨fresh.known output (List.mem_of_getElem? found),
        fresh'.known output' (List.mem_of_getElem? found')⟩
  · rintro a b (pair | ⟨index, output, output', found, found', rfl, rfl⟩)
    · exact both.1.read a b pair
    · exact congrArg Tensor.data (tensors found found')
  · exact both.1.containers_mono fun a b pair => Or.inl pair
  · rintro a b (pair | ⟨index, output, output', found, found', rfl, rfl⟩)
    · exact Or.inl pair
    · exact Or.inr ⟨fresh.new output (List.mem_of_getElem? found),
        fresh'.new output' (List.mem_of_getElem? found')⟩
  · rw [List.forall₂_iff_get]
    refine ⟨length, ?_⟩
    intro index inside inside'
    have found := List.getElem?_eq_getElem inside
    have found' := List.getElem?_eq_getElem inside'
    have tensor := tensors found found'
    exact ⟨congrArg Tensor.element tensor, congrArg Tensor.shape tensor,
      Or.inr ⟨index, _, _, found, found', rfl, rfl⟩⟩

end Memory

section Outcomes

/-- Two computations end alike: both with results, or both with the same failure. -/
def SameOutcome (ok : β → γ → σ → τ → Prop) (failed : σ → τ → Prop) :
    EStateM.Result ε σ β → EStateM.Result ε τ γ → Prop
  | .ok value state, .ok value' state' => ok value value' state state'
  | .error failure state, .error failure' state' => failure = failure' ∧ failed state state'
  | _, _ => False

variable {ok : β → γ → σ → τ → Prop} {failed : σ → τ → Prop}

theorem SameOutcome.cases {left : EStateM.Result ε σ β} {right : EStateM.Result ε τ γ}
    (same : SameOutcome ok failed left right) :
    (∃ value value' state state', left = .ok value state ∧ right = .ok value' state' ∧
      ok value value' state state') ∨
    ∃ failure state state', left = .error failure state ∧ right = .error failure state' ∧
      failed state state' := by
  cases left with
  | ok value state =>
    cases right with
    | ok value' state' => exact Or.inl ⟨_, _, _, _, rfl, rfl, same⟩
    | error failure' state' => exact same.elim
  | error failure state =>
    cases right with
    | ok value' state' => exact same.elim
    | error failure' state' => exact Or.inr ⟨_, _, _, rfl, same.1 ▸ rfl, same.2⟩

theorem SameOutcome.imp {ok' : β → γ → σ → τ → Prop} {failed' : σ → τ → Prop}
    {left : EStateM.Result ε σ β} {right : EStateM.Result ε τ γ}
    (same : SameOutcome ok failed left right)
    (onOk : ∀ value value' state state', ok value value' state state' →
      ok' value value' state state')
    (onFailed : ∀ state state', failed state state' → failed' state state') :
    SameOutcome ok' failed' left right := by
  rcases same.cases with ⟨_, _, _, _, rfl, rfl, holds⟩ | ⟨_, _, _, rfl, rfl, holds⟩
  · exact onOk _ _ _ _ holds
  · exact ⟨rfl, onFailed _ _ holds⟩

/-- Computations that end alike can be continued alike. -/
theorem SameOutcome.bind {β' γ' : Type} {ok' : β' → γ' → σ → τ → Prop}
    {failed' : σ → τ → Prop} {first : EStateM ε σ β} {first' : EStateM ε τ γ}
    {next : β → EStateM ε σ β'} {next' : γ → EStateM ε τ γ'} {state : σ} {state' : τ}
    (same : SameOutcome ok failed (first state) (first' state'))
    (onOk : ∀ value value' middle middle', ok value value' middle middle' →
      SameOutcome ok' failed' (next value middle) (next' value' middle'))
    (onFailed : ∀ middle middle', failed middle middle' → failed' middle middle') :
    SameOutcome ok' failed' ((first >>= next) state) ((first' >>= next') state') := by
  rcases same.cases with ⟨value, value', middle, middle', ran, ran', holds⟩ |
    ⟨failure, middle, middle', ran, ran', holds⟩
  · rw [bind_of_ok ran, bind_of_ok ran']
    exact onOk _ _ _ _ holds
  · rw [bind_of_error ran, bind_of_error ran']
    exact ⟨rfl, onFailed _ _ holds⟩

end Outcomes

/-- Two computations on memories end alike, with memories that are alike under a larger renaming. -/
def Coupled (rename : Renaming) (left right : Memory α) (related : Renaming → β → γ → Prop) :
    EStateM.Result ε (Memory α) β → EStateM.Result ε (Memory α) γ → Prop :=
  SameOutcome
    (fun value value' left' right' => ∃ larger : Renaming, left'.Alike larger right' ∧
      Memory.Grows rename larger left right left' right' ∧ related larger value value')
    (fun left' right' => ∃ larger : Renaming, left'.Alike larger right' ∧
      Memory.Grows rename larger left right left' right')

section Coupled

variable {rename : Renaming} {left right : Memory α} {related : Renaming → β → γ → Prop}

theorem Coupled.ok (alike : left.Alike rename right) {value : β} {value' : γ}
    (holds : related rename value value') :
    Coupled (ε := ε) rename left right related (.ok value left) (.ok value' right) :=
  ⟨rename, alike, Memory.Grows.refl rename left right, holds⟩

theorem Coupled.error (alike : left.Alike rename right) (failure : ε) :
    Coupled rename left right related (.error failure left) (.error failure right) :=
  ⟨rfl, rename, alike, Memory.Grows.refl rename left right⟩

theorem Coupled.bind {β' γ' : Type} {related' : Renaming → β' → γ' → Prop}
    {first : EStateM ε (Memory α) β} {first' : EStateM ε (Memory α) γ}
    {next : β → EStateM ε (Memory α) β'} {next' : γ → EStateM ε (Memory α) γ'}
    (coupled : Coupled rename left right related (first left) (first' right))
    (continued : ∀ larger left' right' value value', left'.Alike larger right' →
      Memory.Grows rename larger left right left' right' → related larger value value' →
      Coupled larger left' right' related' (next value left') (next' value' right')) :
    Coupled rename left right related' ((first >>= next) left) ((first' >>= next') right) := by
  refine SameOutcome.bind coupled ?_ fun _ _ failed => failed
  rintro value value' left' right' ⟨larger, alike, grows, holds⟩
  refine (continued larger left' right' value value' alike grows holds).imp ?_ ?_
  · rintro result result' left'' right'' ⟨largest, alike', grows', holds'⟩
    exact ⟨largest, alike', grows.trans grows', holds'⟩
  · rintro left'' right'' ⟨largest, alike', grows'⟩
    exact ⟨largest, alike', grows.trans grows'⟩

/-- A computation that does not look at the memory. -/
theorem Coupled.ofChecked (alike : left.Alike rename right) (computation : Checked ε β) :
    Coupled rename left right (fun _ value value' => value = value' ∧ computation = Except.ok value)
      (Action.ofChecked computation left) (Action.ofChecked computation right) := by
  cases computation with
  | ok value => exact Coupled.ok alike ⟨rfl, rfl⟩
  | error failure => exact Coupled.error alike failure

theorem Coupled.get {next : Memory α → EStateM ε (Memory α) β}
    {next' : Memory α → EStateM ε (Memory α) γ}
    (continued : Coupled rename left right related (next left left) (next' right right)) :
    Coupled rename left right related ((MonadState.get >>= next) left)
      ((MonadState.get >>= next') right) := continued

/-- Both sides put the same array into a new buffer. -/
theorem Coupled.store (alike : left.Alike rename right) (element : ElementType) (shape : List Nat)
    (data : Array α) :
    Coupled (ε := ε) rename left right (fun larger value value' => larger.Relates value value')
      (.ok ⟨element, shape, (left.allocate data).1⟩ (left.allocate data).2)
      (.ok ⟨element, shape, (right.allocate data).1⟩ (right.allocate data).2) :=
  ⟨_, (alike.allocate data).1, (alike.allocate data).2, ⟨rfl, rfl, Or.inr ⟨rfl, rfl⟩⟩⟩

/-- Both sides write the same array over related values. -/
theorem Coupled.writeOver (alike : left.Alike rename right) {target target' : Value}
    (same : rename.Relates target target') (result : Tensor α) (mismatch : OpError) :
    Coupled rename left right (fun larger value value' => larger.Relates value value')
      (Op.writeOver target result mismatch left) (Op.writeOver target' result mismatch right) := by
  unfold Op.writeOver
  apply Coupled.get
  rw [← same.shape, ← same.element, ← alike.contents same]
  split
  · rename_i fits
    simp only [Bool.and_eq_true, decide_eq_true_eq] at fits
    have written := alike.write same.buffer fits.2
    exact ⟨rename, written.1, written.2, same⟩
  · exact Coupled.error alike _

end Coupled

/-- A host function that follows the handles it is given and those it holds itself, and cannot tell
one buffer from another but by its contents and its other handles. `pinned` tells which buffers host
functions hold. -/
def HostFunction.Parametric (pinned : BufferId → Prop) (function : HostFunction α) : Prop :=
  ∀ (rename : Renaming) (left right : Memory α) (inputs inputs' : List Value),
    left.Alike rename right → (∀ buffer, pinned buffer → rename buffer buffer) →
    List.Forall₂ rename.Relates inputs inputs' →
      Coupled rename left right (fun larger outputs outputs' =>
        List.Forall₂ larger.Relates outputs outputs') (function.run inputs left)
        (function.run inputs' right)

/-- A function of the contents of its inputs that gives its results in new buffers cannot tell buffers
apart. -/
theorem HostFunction.Computes.parametric {function : HostFunction α} {hosts : Meaning α}
    (computes : function.Computes hosts) (pinned : BufferId → Prop) :
    function.Parametric pinned := by
  intro rename left right inputs inputs' alike _ related
  have tensors := alike.tensors related
  have known : ∀ value ∈ inputs, left.Knows value := by
    intro value member
    rcases List.mem_iff_getElem?.mp member with ⟨index, found⟩
    rcases forall₂_getElem?_left related found with ⟨value', _, same⟩
    exact (alike.known _ _ same.buffer).1
  have known' : ∀ value ∈ inputs', right.Knows value := by
    intro value' member
    rcases List.mem_iff_getElem?.mp member with ⟨index, found⟩
    rcases forall₂_getElem?_right related found with ⟨value, _, same⟩
    exact (alike.known _ _ same.buffer).2
  cases ran : function.run inputs left with
  | ok outputs left' =>
    rcases computes.ok inputs left outputs left' known ran with ⟨means, kept, fresh⟩
    cases ran' : function.run inputs' right with
    | ok outputs' right' =>
      rcases computes.ok inputs' right outputs' right' known' ran' with ⟨means', kept', fresh'⟩
      rw [tensors, means'] at means
      exact alike.fresh kept kept' fresh fresh' (Except.ok.inj means).symm
    | error failure right' =>
      have means' := (computes.error inputs' right failure right' known' ran').1
      rw [tensors, means'] at means
      cases means
  | error failure left' =>
    rcases computes.error inputs left failure left' known ran with ⟨means, kept⟩
    cases ran' : function.run inputs' right with
    | ok outputs' right' =>
      have means' := (computes.ok inputs' right outputs' right' known' ran').1
      rw [tensors, means'] at means
      cases means
    | error failure' right' =>
      rcases computes.error inputs' right failure' right' known' ran' with ⟨means', kept'⟩
      rw [tensors, means'] at means
      cases means
      exact ⟨rfl, rename, alike.keeps kept kept'⟩

namespace Op

/-- The host functions of an operation cannot tell buffers apart. -/
def Parametric (pinned : BufferId → Prop) (op : Op α) : Prop :=
  ∀ function, op = .host function → function.Parametric pinned

variable [Arithmetic α] {op : Op α} {pinned : BufferId → Prop} {rename : Renaming}
  {left right : Memory α} {inputs inputs' : List Value}

/-- Placing a result does the same on both sides. -/
theorem coupled_place (alike : left.Alike rename right)
    (related : List.Forall₂ rename.Relates inputs inputs') (result : Tensor α) :
    Coupled rename left right (fun larger value value' => larger.Relates value value')
      (op.place inputs result left) (op.place inputs' result right) := by
  have handle : ∀ (shape : List Nat) {input input' : Value}, rename.Relates input input' →
      rename.Relates { input with shape } { input' with shape } :=
    fun shape input input' same => ⟨same.element, rfl, same.buffer⟩
  unfold place
  cases op with
  | elementwise function target =>
    cases target with
    | none => exact Coupled.store alike _ _ _
    | some position =>
      cases found : inputs[position]? with
      | none =>
        have found' : inputs'[position]? = none := by
          rw [List.getElem?_eq_none_iff] at found ⊢
          rw [← related.length_eq]
          exact found
        simp only [found, found']
        exact Coupled.error alike _
      | some target =>
        rcases forall₂_getElem?_left related found with ⟨target', found', same⟩
        have sameType : target.type = target'.type := by
          rw [Value.type, Value.type, same.element, same.shape]
        simp only [found, found']
        have written := Coupled.writeOver alike same result
          (.inPlaceType (Op.elementwise function (some position) : Op α).name target.type result.type)
        nth_rewrite 2 [sameType] at written
        exact written
  | reshape shape =>
    cases related with
    | nil => exact Coupled.store alike _ _ _
    | cons same _ => exact Coupled.ok alike (handle _ same)
  | view =>
    cases related with
    | nil => exact Coupled.store alike _ _ _
    | cons same _ => exact Coupled.ok alike (handle _ same)
  | _ => exact Coupled.store alike _ _ _

/-- Performing an operation does the same on both sides. -/
theorem coupled_perform (alike : left.Alike rename right) (parametric : op.Parametric pinned)
    (held : ∀ buffer, pinned buffer → rename buffer buffer)
    (related : List.Forall₂ rename.Relates inputs inputs') :
    Coupled rename left right (fun larger outputs outputs' =>
      List.Forall₂ larger.Relates outputs outputs' ∧ outputs.length = op.resultCount)
      (op.perform inputs left) (op.perform inputs' right) := by
  unfold perform
  rw [related.length_eq]
  split
  · exact Coupled.error alike _
  · by_cases table : ∀ function, op ≠ .host function
    · have computed : Coupled rename left right (fun larger outputs outputs' =>
          List.Forall₂ larger.Relates outputs outputs' ∧ outputs.length = 1)
          ((do
            let result ← Action.ofChecked (op.compute (inputs.map left.tensor))
            pure [← op.place inputs result] : Action α OpError (List Value)) left)
          ((do
            let result ← Action.ofChecked (op.compute (inputs'.map right.tensor))
            pure [← op.place inputs' result] : Action α OpError (List Value)) right) := by
        rw [alike.tensors related]
        refine Coupled.bind (Coupled.ofChecked alike _) ?_
        rintro larger left' right' result _ alike' grows ⟨rfl, _⟩
        have related' := related.imp fun _ _ same => same.mono grows.keeps
        refine Coupled.bind (coupled_place alike' related' result) ?_
        intro largest left'' right'' value value' alike'' grows' same
        exact Coupled.ok alike'' ⟨List.Forall₂.cons same List.Forall₂.nil, rfl⟩
      cases op with
      | host function => exact absurd rfl (table function)
      | _ => exact computed
    · simp only [not_forall, ne_eq, not_not] at table
      rcases table with ⟨function, rfl⟩
      refine Coupled.bind (parametric function rfl rename left right inputs inputs' alike held
        related) ?_
      intro larger left' right' outputs outputs' alike' grows same
      rw [same.length_eq]
      split
      · rename_i count
        exact Coupled.ok alike' ⟨same, same.length_eq.trans count⟩
      · exact Coupled.error alike' _

end Op

end ArrayGraph
