import ArrayGraph.Proofs.Run.Renaming
import ArrayGraph.Proofs.Schedule

/-!
# Loading the roots of two runs

Two runs on memories that are alike load their roots alike: related arguments, the same constants, and
what the containers hold. A container that has been released makes both of them fail.
-/

namespace ArrayGraph

variable {α : Type}

namespace Run

variable {schedule : Schedule α} {rename : Renaming} {left right : RunState α}
  {arguments arguments' : List Value}

/-- What loading some of the roots does on both sides. -/
structure Loaded (schedule : Schedule α) (rename : Renaming) (arguments' : List Value)
    (done : List (Nat × Source)) (left right left' right' : RunState α) : Prop where
  left_memory : left'.memory = left.memory
  right_memory : right'.memory = right.memory
  left_size : left'.slots.size = left.slots.size
  right_size : right'.slots.size = right.slots.size
  left_told : left'.events = left.events ∧ left'.executed = left.executed
  right_told : right'.events = right.events ∧ right'.executed = right.executed
  left_kept : ∀ slot, (∀ source, (slot, source) ∉ schedule.roots) →
    left'.slots[slot]? = left.slots[slot]?
  right_kept : ∀ slot, (∀ source, (slot, source) ∉ schedule.roots) →
    right'.slots[slot]? = right.slots[slot]?
  related : ∀ slot source, (slot, source) ∈ done →
    Option.Rel rename.Relates left'.slots[slot]?.join right'.slots[slot]?.join
  argument : ∀ slot index, (slot, .argument index) ∈ done →
    right'.slots[slot]? = some arguments'[index]?
  known : ∀ (slot : Nat) (value : Value), right'.slots[slot]? = some (some value) →
    right.slots[slot]? = some (some value) ∨ ∃ a, rename a value.buffer

theorem Loaded.refl : Loaded schedule rename arguments' [] left right left right :=
  ⟨rfl, rfl, rfl, rfl, ⟨rfl, rfl⟩, ⟨rfl, rfl⟩, fun _ _ => rfl, fun _ _ => rfl, by simp, by simp,
    fun _ _ found => Or.inl found⟩

/-- Putting related contents into a root slot. -/
theorem Loaded.set {done : List (Nat × Source)} {left' right' : RunState α}
    (loaded : Loaded schedule rename arguments' done left right left' right') {slot : Nat}
    {source : Source} {content content' : Option Value}
    (subset : ∀ entry ∈ done, entry ∈ schedule.roots)
    (sources : ∀ slot source source', (slot, source) ∈ schedule.roots →
      (slot, source') ∈ schedule.roots → source = source')
    (member : (slot, source) ∈ schedule.roots) (inside : slot < left.slots.size)
    (inside' : slot < right.slots.size) (same : Option.Rel rename.Relates content content')
    (given : ∀ index, source = .argument index → content' = arguments'[index]?) :
    Loaded schedule rename arguments' (done ++ [(slot, source)]) left right
      { left' with slots := left'.slots.setIfInBounds slot content }
      { right' with slots := right'.slots.setIfInBounds slot content' } where
  left_memory := loaded.left_memory
  right_memory := loaded.right_memory
  left_size := by simpa using loaded.left_size
  right_size := by simpa using loaded.right_size
  left_told := loaded.left_told
  right_told := loaded.right_told
  left_kept other unlisted := by
    have different : slot ≠ other := by
      rintro rfl
      exact unlisted source member
    simpa [Array.getElem?_setIfInBounds_ne different] using loaded.left_kept other unlisted
  right_kept other unlisted := by
    have different : slot ≠ other := by
      rintro rfl
      exact unlisted source member
    simpa [Array.getElem?_setIfInBounds_ne different] using loaded.right_kept other unlisted
  related other source' listed := by
    by_cases same' : slot = other
    · subst same'
      simpa [Array.getElem?_setIfInBounds, loaded.left_size, loaded.right_size, inside, inside']
        using same
    · simp only [Array.getElem?_setIfInBounds_ne same']
      rcases List.mem_append.mp listed with listed | listed
      · exact loaded.related other source' listed
      · simp only [List.mem_singleton, Prod.mk.injEq] at listed
        exact absurd listed.1.symm same'
  argument other index listed := by
    by_cases same' : slot = other
    · subst same'
      have inRoots : (slot, Source.argument index) ∈ schedule.roots := by
        rcases List.mem_append.mp listed with listed | listed
        · exact subset _ listed
        · rw [List.mem_singleton] at listed
          exact listed ▸ member
      have content := given index (sources slot source _ member inRoots)
      simp [loaded.right_size, inside', content]
    · simp only [Array.getElem?_setIfInBounds_ne same']
      rcases List.mem_append.mp listed with listed | listed
      · exact loaded.argument other index listed
      · simp only [List.mem_singleton, Prod.mk.injEq] at listed
        exact absurd listed.1.symm same'
  known other value found := by
    by_cases same' : slot = other
    · subst same'
      simp only [Array.getElem?_setIfInBounds, loaded.right_size, inside', if_true,
        Option.some.injEq] at found
      subst found
      cases same with
      | some related => exact Or.inr ⟨_, related.buffer⟩
    · simp only [Array.getElem?_setIfInBounds_ne same'] at found
      exact loaded.known other value found

/-- The sources of a root are related: arguments and containers are, and constants are the same. -/
theorem related_source (alike : left.memory.Alike rename right.memory)
    (held : ∀ value ∈ schedule.constants, rename value.buffer value.buffer)
    (given : List.Forall₂ rename.Relates arguments arguments') {slot : Nat} {source : Source}
    (member : (slot, source) ∈ schedule.roots) :
    Option.Rel rename.Relates (source.value? left.memory arguments)
      (source.value? right.memory arguments') := by
  cases source with
  | argument index => exact rel_getElem? given index
  | constant value =>
    refine .some ⟨rfl, rfl, held value ?_⟩
    exact List.mem_filterMap.mpr ⟨(slot, .constant value), member, rfl⟩
  | shared container => exact (alike.container container).value

/-- One root is loaded alike on both sides. -/
theorem coupled_loadRoot {left' right' : RunState α} {done : List (Nat × Source)}
    (sound : schedule.Sound)
    (loaded : Loaded schedule rename arguments' done left right left' right')
    (alike : left.memory.Alike rename right.memory)
    (held : ∀ value ∈ schedule.constants, rename value.buffer value.buffer)
    (given : List.Forall₂ rename.Relates arguments arguments')
    (size : left.slots.size = schedule.slotCount) (size' : right.slots.size = schedule.slotCount)
    (subset : ∀ entry ∈ done, entry ∈ schedule.roots) {slot : Nat} {source : Source}
    (member : (slot, source) ∈ schedule.roots) :
    SameOutcome
      (fun _ _ left'' right'' =>
        Loaded schedule rename arguments' (done ++ [(slot, source)]) left right left'' right'')
      (fun left'' right'' => ∃ done, Loaded schedule rename arguments' done left right left'' right'')
      (loadRoot arguments (slot, source) left') (loadRoot arguments' (slot, source) right') := by
  have inside : slot < left.slots.size := size ▸ sound.roots_known slot source member
  have inside' : slot < right.slots.size := size' ▸ sound.roots_known slot source member
  rw [← loaded.left_memory, ← loaded.right_memory] at alike
  have same := related_source alike held given member
  by_cases released : ∃ container, source = .shared container ∧
      (left'.memory.container container).value = none
  · rcases released with ⟨container, rfl, released⟩
    have released' : (right'.memory.container container).value = none :=
      (rel_eq_none_iff same).mp released
    rw [loadRoot_of_released released, loadRoot_of_released released', (alike.container container).name]
    exact ⟨rfl, done, loaded⟩
  · have held' : ¬∃ container, source = .shared container ∧
        (right'.memory.container container).value = none := by
      rintro ⟨container, rfl, released'⟩
      exact released ⟨container, rfl, (rel_eq_none_iff same).mpr released'⟩
    rw [(loadRoot_eq left' arguments slot source).resolve_right released,
      (loadRoot_eq right' arguments' slot source).resolve_right held',
      setSlot_of_lt (loaded.left_size ▸ inside), setSlot_of_lt (loaded.right_size ▸ inside')]
    refine loaded.set subset sound.sources member inside inside' same ?_
    rintro index rfl
    rfl

/-- Loading does the same on both sides. -/
theorem coupled_load (sound : schedule.Sound) (alike : left.memory.Alike rename right.memory)
    (held : ∀ value ∈ schedule.constants, rename value.buffer value.buffer)
    (given : List.Forall₂ rename.Relates arguments arguments')
    (size : left.slots.size = schedule.slotCount) (size' : right.slots.size = schedule.slotCount) :
    SameOutcome
      (fun _ _ left' right' =>
        Loaded schedule rename arguments' schedule.roots left right left' right' ∧
          arguments'.length = schedule.arity)
      (fun left' right' => ∃ done, Loaded schedule rename arguments' done left right left' right')
      (load schedule arguments left) (load schedule arguments' right) := by
  by_cases count : arguments'.length = schedule.arity
  · rw [load_of_count (given.length_eq.trans count), load_of_count count]
    have loop : ∀ todo done left' right', done ++ todo = schedule.roots →
        Loaded schedule rename arguments' done left right left' right' →
        SameOutcome
          (fun _ _ left'' right'' =>
            Loaded schedule rename arguments' schedule.roots left right left'' right'')
          (fun left'' right'' =>
            ∃ done, Loaded schedule rename arguments' done left right left'' right'')
          (todo.forM (loadRoot arguments) left') (todo.forM (loadRoot arguments') right') := by
      intro todo
      induction todo with
      | nil =>
        intro done left' right' split loaded
        rw [List.append_nil] at split
        exact split ▸ loaded
      | cons entry todo ih =>
        intro done left' right' split loaded
        rcases entry with ⟨slot, source⟩
        refine SameOutcome.bind (coupled_loadRoot sound loaded alike held given size size'
          (fun entry member => split ▸ by simp [member]) (split ▸ by simp)) ?_ (fun _ _ failed => failed)
        intro _ _ left'' right'' loaded'
        exact ih _ left'' right'' (by simp [← split]) loaded'
    refine (loop schedule.roots [] left right rfl Loaded.refl).imp ?_ (fun _ _ failed => failed)
    intro _ _ left'' right'' loaded
    exact ⟨loaded, count⟩
  · rw [load_of_miscount count, load_of_miscount (given.length_eq.trans_ne count), given.length_eq]
    exact ⟨rfl, [], Loaded.refl⟩

end Run

end ArrayGraph
