import ArrayGraph.Proofs.Run.Primitives

/-!
# Computations that go the same way

Two computations go the same way if they both answer, with related answers, or both fail, with
related failures. If they have states then these stay related, whatever happens. What is put together
from computations that go the same way goes the same way.
-/

namespace ArrayGraph

variable {β β' γ γ' δ ε κ κ' σ τ : Type}

/-- A list goes with what a function makes of its items. -/
theorem paired_map (f : κ → κ') (items : List κ) :
    List.Forall₂ (fun item item' => item' = f item ∧ item ∈ items) items (items.map f) := by
  rw [List.forall₂_map_right_iff, List.forall₂_same]
  exact fun item member => ⟨rfl, member⟩

/-- A list goes with itself. -/
theorem paired_self (items : List κ) :
    List.Forall₂ (fun item item' => item' = item ∧ item ∈ items) items items :=
  List.forall₂_same.mpr fun _ member => ⟨rfl, member⟩

/-- Failures of one kind: two errors that are related, or two faults. -/
inductive Failure.Alike (failed : ε → δ → Prop) : Failure ε → Failure δ → Prop
  | error {cause : ε} {cause' : δ} (same : failed cause cause') :
      Alike failed (Failure.error cause) (Failure.error cause')
  | fault (broken broken' : Fault) : Alike failed (Failure.fault broken) (Failure.fault broken')

/-- Computations that go the same way. -/
inductive Checked.Alike (failed : ε → δ → Prop) (related : β → γ → Prop) :
    Checked ε β → Checked δ γ → Prop
  | ok {value : β} {value' : γ} (same : related value value') :
      Alike failed related (Except.ok value) (Except.ok value')
  | error {failure : Failure ε} {failure' : Failure δ} (same : failure.Alike failed failure') :
      Alike failed related (Except.error failure) (Except.error failure')

/-- Computations that go the same way, up to what exactly an error says. -/
abbrev Checked.Agree (related : β → γ → Prop) : Checked ε β → Checked δ γ → Prop :=
  Checked.Alike (fun _ _ => True) related

namespace Failure

variable {failed : ε → δ → Prop}

theorem Alike.refl {failed : ε → ε → Prop} (same : ∀ cause, failed cause cause)
    (failure : Failure ε) : failure.Alike failed failure := by
  cases failure with
  | error cause => exact .error (same cause)
  | fault broken => exact .fault broken broken

theorem Alike.map {ε' δ' : Type} {failed' : ε' → δ' → Prop} {failure : Failure ε}
    {failure' : Failure δ} (alike : failure.Alike failed failure') {f : ε → ε'} {g : δ → δ'}
    (kept : ∀ cause cause', failed cause cause' → failed' (f cause) (g cause')) :
    (failure.map f).Alike failed' (failure'.map g) := by
  cases alike with
  | error same => exact .error (kept _ _ same)
  | fault broken broken' => exact .fault broken broken'

end Failure

namespace Checked

variable {failed : ε → δ → Prop} {related : β → γ → Prop} {related' : β' → γ' → Prop}
  {first : Checked ε β} {second : Checked δ γ}

theorem Alike.cases (alike : first.Alike failed related second) :
    (∃ value value', first = Except.ok value ∧ second = Except.ok value' ∧ related value value') ∨
      ∃ failure failure', first = Except.error failure ∧ second = Except.error failure' ∧
        failure.Alike failed failure' := by
  cases alike with
  | ok same => exact Or.inl ⟨_, _, rfl, rfl, same⟩
  | error same => exact Or.inr ⟨_, _, rfl, rfl, same⟩

theorem Alike.bind_of_ok (alike : first.Alike failed related second) {next : β → Checked ε β'}
    {next' : γ → Checked δ γ'}
    (continued : ∀ value value', first = Except.ok value → second = Except.ok value' →
      related value value' → (next value).Alike failed related' (next' value')) :
    (first >>= next).Alike failed related' (second >>= next') := by
  cases alike with
  | ok same => exact continued _ _ rfl rfl same
  | error same => exact .error same

theorem Alike.bind (alike : first.Alike failed related second) {next : β → Checked ε β'}
    {next' : γ → Checked δ γ'}
    (continued : ∀ value value', related value value' →
      (next value).Alike failed related' (next' value')) :
    (first >>= next).Alike failed related' (second >>= next') :=
  alike.bind_of_ok fun value value' _ _ => continued value value'

/-- Answers of computations that go the same way are related in whatever way all answers are. -/
theorem Alike.strengthen {stronger : β → γ → Prop} (alike : first.Alike failed related second)
    (strengthens : ∀ value value', first = Except.ok value → second = Except.ok value' →
      related value value' → stronger value value') : first.Alike failed stronger second := by
  cases alike with
  | ok same => exact .ok (strengthens _ _ rfl rfl same)
  | error same => exact .error same

theorem Alike.ite {condition condition' : Prop} [Decidable condition] [Decidable condition']
    {first' : Checked ε β} {second' : Checked δ γ} (same : condition ↔ condition')
    (yes : first.Alike failed related second) (no : first'.Alike failed related second') :
    Alike failed related (if condition then first else first')
      (if condition' then second else second') := by
  by_cases holds : condition
  · rw [if_pos holds, if_pos (same.mp holds)]
    exact yes
  · rw [if_neg holds, if_neg (mt same.mpr holds)]
    exact no

theorem Alike.mapError {ε' δ' : Type} {failed' : ε' → δ' → Prop}
    (alike : first.Alike failed related second) {f : ε → ε'} {g : δ → δ'}
    (kept : ∀ cause cause', failed cause cause' → failed' (f cause) (g cause')) :
    (first.mapError f).Alike failed' related (second.mapError g) := by
  cases alike with
  | ok same => exact .ok same
  | error same => exact .error (same.map kept)

theorem alike_raise {cause : ε} {cause' : δ} (same : failed cause cause') :
    (raise cause : Checked ε β).Alike failed related (raise cause' : Checked δ γ) :=
  .error (.error same)

theorem alike_abort (broken broken' : Fault) :
    (abort broken : Checked ε β).Alike failed related (abort broken' : Checked δ γ) :=
  .error (.fault broken broken')

theorem alike_orError {content : Option β} {content' : Option γ} {cause : ε} {cause' : δ}
    (same : Option.Rel related content content') (causes : failed cause cause') :
    (orError content cause).Alike failed related (orError content' cause') := by
  cases same with
  | some same => exact .ok same
  | none => exact alike_raise causes

theorem Alike.refl {failed : ε → ε → Prop} {related : β → β → Prop}
    (causes : ∀ cause, failed cause cause) (values : ∀ value, related value value)
    (computation : Checked ε β) : Alike failed related computation computation := by
  cases computation with
  | ok value => exact .ok (values value)
  | error failure => exact .error (.refl causes failure)

theorem agree_self (computation : Checked ε β) : computation.Agree Eq computation :=
  .refl (fun _ => trivial) (fun _ => rfl) computation

/-- One of two computations that go the same way succeeds exactly if the other one does. -/
theorem Alike.succeeds_iff (alike : first.Alike failed related second) :
    (∃ value, first = Except.ok value) ↔ ∃ value, second = Except.ok value := by
  cases alike <;> simp

theorem Alike.eq_ok_iff {second : Checked δ β} (alike : first.Alike failed Eq second) {value : β} :
    first = Except.ok value ↔ second = Except.ok value := by
  cases alike with
  | ok same => simp [same]
  | error => simp

/-- A loop over checks that fail with faults only fails with faults only. -/
theorem forM_faults {items : List κ} {check : κ → Checked ε Unit}
    (each : ∀ item ∈ items, check item = Except.ok () ∨
      ∃ broken, check item = Except.error (Failure.fault broken)) :
    items.forM check = Except.ok () ∨
      ∃ broken, items.forM check = Except.error (Failure.fault broken) := by
  induction items with
  | nil => exact Or.inl rfl
  | cons head rest ih =>
    change (check head >>= fun _ => rest.forM check) = _ ∨
      ∃ broken, (check head >>= fun _ => rest.forM check) = _
    rcases each head (by simp) with passed | ⟨broken, failed⟩
    · rw [passed]
      exact ih fun item member => each item (by simp [member])
    · rw [failed]
      exact Or.inr ⟨broken, rfl⟩

theorem Alike.forM {items : List κ} {items' : List κ'} {pair : κ → κ' → Prop}
    (pairs : List.Forall₂ pair items items') {check : κ → Checked ε Unit}
    {check' : κ' → Checked δ Unit}
    (each : ∀ item item', pair item item' → (check item).Alike failed Eq (check' item')) :
    (items.forM check).Alike failed Eq (items'.forM check') := by
  induction pairs with
  | nil => exact .ok rfl
  | cons head _ ih => exact (each _ _ head).bind fun _ _ _ => ih

theorem Alike.foldlM {items : List κ} {items' : List κ'} {pair : κ → κ' → Prop}
    (pairs : List.Forall₂ pair items items') {round : β → κ → Checked ε β}
    {round' : γ → κ' → Checked δ γ}
    (each : ∀ state state' item item', related state state' → pair item item' →
      (round state item).Alike failed related (round' state' item'))
    {start : β} {start' : γ} (same : related start start') :
    (items.foldlM round start).Alike failed related (items'.foldlM round' start') := by
  induction pairs generalizing start start' with
  | nil => exact .ok same
  | cons head _ ih =>
    simp only [List.foldlM_cons]
    exact (each _ _ _ _ same head).bind fun _ _ => ih

theorem Alike.mapM {items : List κ} {items' : List κ'} {pair : κ → κ' → Prop}
    (pairs : List.Forall₂ pair items items') {compute : κ → Checked ε β}
    {compute' : κ' → Checked δ γ}
    (each : ∀ item item', pair item item' →
      (compute item).Alike failed related (compute' item')) :
    (items.mapM compute).Alike failed (List.Forall₂ related) (items'.mapM compute') := by
  induction pairs with
  | nil => exact .ok .nil
  | cons head _ ih =>
    simp only [List.mapM_cons]
    exact (each _ _ head).bind fun _ _ same => ih.bind fun _ _ others => .ok (.cons same others)

end Checked

/-- Two outcomes with related results, or related failures, and related states. -/
inductive Outcomes (states : σ → τ → Prop) (failed : ε → δ → Prop) (related : β → γ → Prop) :
    EStateM.Result ε σ β → EStateM.Result δ τ γ → Prop
  | ok {value : β} {value' : γ} {state : σ} {state' : τ} (same : related value value')
      (left : states state state') : Outcomes states failed related (.ok value state) (.ok value' state')
  | error {failure : ε} {failure' : δ} {state : σ} {state' : τ} (same : failed failure failure')
      (left : states state state') :
      Outcomes states failed related (.error failure state) (.error failure' state')

theorem Outcomes.cases {states : σ → τ → Prop} {failed : ε → δ → Prop} {related : β → γ → Prop}
    {result : EStateM.Result ε σ β} {result' : EStateM.Result δ τ γ}
    (outcomes : Outcomes states failed related result result') :
    (∃ value value' state state', result = .ok value state ∧ result' = .ok value' state' ∧
      related value value' ∧ states state state') ∨
    ∃ failure failure' state state', result = .error failure state ∧
      result' = .error failure' state' ∧ failed failure failure' ∧ states state state' := by
  cases outcomes with
  | ok same left => exact Or.inl ⟨_, _, _, _, rfl, rfl, same, left⟩
  | error same left => exact Or.inr ⟨_, _, _, _, rfl, rfl, same, left⟩

/-- Computations with states that go the same way from any states that are related. -/
def Parallel (states : σ → τ → Prop) (failed : ε → δ → Prop) (related : β → γ → Prop)
    (first : EStateM ε σ β) (second : EStateM δ τ γ) : Prop :=
  ∀ state state', states state state' → Outcomes states failed related (first state) (second state')

namespace Parallel

variable {states : σ → τ → Prop} {failed : ε → δ → Prop} {related : β → γ → Prop}
  {related' : β' → γ' → Prop} {first : EStateM ε σ β} {second : EStateM δ τ γ}

theorem pure {value : β} {value' : γ} (same : related value value') :
    Parallel states failed related (pure value) (pure value') :=
  fun _ _ left => .ok same left

theorem throw {failure : ε} {failure' : δ} (same : failed failure failure') :
    Parallel states failed related (throw failure : EStateM ε σ β) (throw failure' : EStateM δ τ γ) :=
  fun _ _ left => .error same left

theorem get : Parallel states failed states (get : EStateM ε σ σ) (get : EStateM δ τ τ) :=
  fun _ _ left => .ok left left

theorem modify {f : σ → σ} {g : τ → τ} (kept : ∀ state state', states state state' →
    states (f state) (g state')) :
    Parallel states failed Eq (modify f : EStateM ε σ PUnit) (modify g : EStateM δ τ PUnit) :=
  fun _ _ left => .ok rfl (kept _ _ left)

theorem bind (parallel : Parallel states failed related first second) {next : β → EStateM ε σ β'}
    {next' : γ → EStateM δ τ γ'}
    (continued : ∀ value value', related value value' →
      Parallel states failed related' (next value) (next' value')) :
    Parallel states failed related' (first >>= next) (second >>= next') := by
  intro state state' left
  rcases (parallel state state' left).cases with ⟨_, _, _, _, ran, ran', same, left⟩ |
    ⟨_, _, _, _, ran, ran', same, left⟩
  · rw [bind_of_ok ran, bind_of_ok ran']
    exact continued _ _ same _ _ left
  · rw [bind_of_error ran, bind_of_error ran']
    exact .error same left

theorem imp (parallel : Parallel states failed related first second) {weaker : β → γ → Prop}
    (weakens : ∀ value value', related value value' → weaker value value') :
    Parallel states failed weaker first second := by
  intro state state' left
  rcases (parallel state state' left).cases with ⟨_, _, _, _, ran, ran', same, left⟩ |
    ⟨_, _, _, _, ran, ran', same, left⟩
  · rw [ran, ran']
    exact .ok (weakens _ _ same) left
  · rw [ran, ran']
    exact .error same left

theorem foldlM {items : List κ} {items' : List κ'} {pair : κ → κ' → Prop}
    (pairs : List.Forall₂ pair items items') {round : β → κ → EStateM ε σ β}
    {round' : γ → κ' → EStateM δ τ γ}
    (each : ∀ total total' item item', related total total' → pair item item' →
      Parallel states failed related (round total item) (round' total' item'))
    {start : β} {start' : γ} (same : related start start') :
    Parallel states failed related (items.foldlM round start) (items'.foldlM round' start') := by
  induction pairs generalizing start start' with
  | nil => exact .pure same
  | cons head _ ih =>
    simp only [List.foldlM_cons]
    exact (each _ _ _ _ same head).bind fun _ _ => ih

theorem forM {items : List κ} {items' : List κ'} {pair : κ → κ' → Prop}
    (pairs : List.Forall₂ pair items items') {act : κ → EStateM ε σ PUnit}
    {act' : κ' → EStateM δ τ PUnit}
    (each : ∀ item item', pair item item' → Parallel states failed Eq (act item) (act' item')) :
    Parallel states failed Eq (items.forM act) (items'.forM act') := by
  induction pairs with
  | nil => exact .pure rfl
  | cons head _ ih => exact (each _ _ head).bind fun _ _ _ => ih

theorem mapM {items : List κ} {items' : List κ'} {pair : κ → κ' → Prop}
    (pairs : List.Forall₂ pair items items') {act : κ → EStateM ε σ β} {act' : κ' → EStateM δ τ γ}
    (each : ∀ item item', pair item item' →
      Parallel states failed related (act item) (act' item')) :
    Parallel states failed (List.Forall₂ related) (items.mapM act) (items'.mapM act') := by
  induction pairs with
  | nil =>
    simp only [List.mapM_nil]
    exact .pure .nil
  | cons head _ ih =>
    simp only [List.mapM_cons]
    exact (each _ _ head).bind fun _ _ same =>
      ih.bind fun _ _ others => .pure (.cons same others)

end Parallel

end ArrayGraph
