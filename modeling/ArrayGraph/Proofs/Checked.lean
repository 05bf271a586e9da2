import Mathlib.Data.List.Forall2
import ArrayGraph.Failure

/-!
# Loops over computations that can fail

A loop succeeds exactly when all of its rounds do. These are the forms in which the loops of the
library are used in proofs.
-/

namespace ArrayGraph

section Pairs

variable {β γ : Type} {relation : β → γ → Prop} {first : List β} {second : List γ} {index : Nat}

theorem rel_getElem? (related : List.Forall₂ relation first second) (index : Nat) :
    Option.Rel relation first[index]? second[index]? := by
  induction related generalizing index with
  | nil => exact .none
  | cons head _ ih =>
    cases index with
    | zero => exact .some head
    | succ index => exact ih index

theorem forall₂_getElem?_left (related : List.Forall₂ relation first second) {item : β}
    (found : first[index]? = some item) : ∃ other, second[index]? = some other ∧ relation item other := by
  have same := rel_getElem? related index
  rw [found] at same
  generalize second[index]? = content at same
  cases same with
  | some related => exact ⟨_, rfl, related⟩

theorem forall₂_getElem?_right (related : List.Forall₂ relation first second) {other : γ}
    (found : second[index]? = some other) : ∃ item, first[index]? = some item ∧ relation item other := by
  rcases forall₂_getElem?_left related.flip found with ⟨item, itemFound, related⟩
  exact ⟨item, itemFound, related⟩

theorem rel_eq_none_iff {content : Option β} {content' : Option γ}
    (related : Option.Rel relation content content') : content = none ↔ content' = none := by
  cases related <;> simp

theorem forall₂_imp_of_mem {relation' : β → γ → Prop} (related : List.Forall₂ relation first second)
    (imp : ∀ item, ∀ other ∈ second, relation item other → relation' item other) :
    List.Forall₂ relation' first second := by
  have both := (List.forall₂_and_left _ _).mpr ⟨fun _ member => member, related.flip⟩
  exact both.flip.imp fun item other ⟨member, holds⟩ => imp item other member holds

/-- If every item is related to something, then all of them are related to a list of such things. -/
theorem exists_forall₂ (each : ∀ item ∈ first, ∃ other, relation item other) :
    ∃ second, List.Forall₂ relation first second := by
  induction first with
  | nil => exact ⟨[], .nil⟩
  | cons item rest ih =>
    rcases each item List.mem_cons_self with ⟨other, related⟩
    rcases ih fun item member => each item (List.mem_cons_of_mem _ member) with ⟨others, rest⟩
    exact ⟨other :: others, .cons related rest⟩

theorem forall₂_comp {δ : Type} {relation' : γ → δ → Prop} {third : List δ}
    (related : List.Forall₂ relation first second) (related' : List.Forall₂ relation' second third) :
    List.Forall₂ (fun item other => ∃ middle, relation item middle ∧ relation' middle other)
      first third := by
  induction related generalizing third with
  | nil =>
    cases related'
    exact List.Forall₂.nil
  | cons head _ ih =>
    cases related' with
    | cons head' others => exact List.Forall₂.cons ⟨_, head, head'⟩ (ih others)

theorem forall₂_split {front back : List γ} {other : γ}
    (related : List.Forall₂ relation first (front ++ other :: back)) :
    ∃ front' item back', first = front' ++ item :: back' ∧ List.Forall₂ relation front' front ∧
      relation item other ∧ List.Forall₂ relation back' back := by
  induction front generalizing first with
  | nil =>
    cases related with
    | cons head others => exact ⟨[], _, _, rfl, List.Forall₂.nil, head, others⟩
  | cons _ front ih =>
    cases related with
    | cons head others =>
      rcases ih others with ⟨front', item, back', rfl, before, same, behind⟩
      exact ⟨_ :: front', item, back', rfl, List.Forall₂.cons head before, same, behind⟩

theorem forall₂_mem_right (related : List.Forall₂ relation first second) {other : γ}
    (member : other ∈ second) : ∃ item ∈ first, relation item other := by
  rcases List.mem_iff_getElem?.mp member with ⟨index, found⟩
  rcases forall₂_getElem?_right related found with ⟨item, itemFound, same⟩
  exact ⟨item, List.mem_of_getElem? itemFound, same⟩

theorem forall₂_modify (related : List.Forall₂ relation first second) {f : β → β} {g : γ → γ}
    (kept : ∀ item other, relation item other → relation (f item) (g other)) (index : Nat) :
    List.Forall₂ relation (first.modify index f) (second.modify index g) := by
  induction related generalizing index with
  | nil => simp
  | cons head rest ih =>
    cases index with
    | zero => exact List.Forall₂.cons (kept _ _ head) rest
    | succ index => exact List.Forall₂.cons head (ih index)

theorem forall₂_set_left (related : List.Forall₂ relation first second) {item new : β}
    (found : first[index]? = some item) (kept : ∀ other, relation item other → relation new other) :
    List.Forall₂ relation (first.set index new) second := by
  induction related generalizing index with
  | nil => exact List.Forall₂.nil
  | cons head rest ih =>
    cases index with
    | zero =>
      cases found
      exact List.Forall₂.cons (kept _ head) rest
    | succ index => exact List.Forall₂.cons head (ih found)

theorem forall₂_filterMap {δ ζ : Type} {relation' : δ → ζ → Prop}
    (related : List.Forall₂ relation first second) {f : β → Option δ} {g : γ → Option ζ}
    (kept : ∀ item other, relation item other → Option.Rel relation' (f item) (g other)) :
    List.Forall₂ relation' (first.filterMap f) (second.filterMap g) := by
  induction related with
  | nil => exact List.Forall₂.nil
  | @cons item other rest rest' head _ ih =>
    rw [List.filterMap_cons, List.filterMap_cons]
    have same := kept item other head
    generalize f item = content at same
    generalize g other = content' at same
    cases same with
    | none => exact ih
    | some same => exact List.Forall₂.cons same ih

theorem map_eq_of_forall₂ {δ : Type} (related : List.Forall₂ relation first second) {f : β → δ}
    {g : γ → δ} (same : ∀ item other, relation item other → f item = g other) :
    first.map f = second.map g := by
  induction related with
  | nil => rfl
  | cons head _ ih => rw [List.map_cons, List.map_cons, same _ _ head, ih]

/-- Items that are related one to one stand at the same positions. -/
theorem idxOf_eq_of_forall₂ [DecidableEq β] [DecidableEq γ]
    (related : List.Forall₂ relation first second)
    (functional : ∀ item other other', relation item other → relation item other' → other = other')
    (injective : ∀ item item' other, relation item other → relation item' other → item = item')
    {item : β} {other : γ} (pair : relation item other) :
    first.idxOf item = second.idxOf other := by
  induction related with
  | nil => rfl
  | @cons head head' rest rest' headPair _ ih =>
    rw [List.idxOf_cons, List.idxOf_cons, ih]
    have same : head = item ↔ head' = other := by
      constructor
      · rintro rfl
        exact functional head head' other headPair pair
      · rintro rfl
        exact injective head item head' headPair pair
    by_cases found : head = item
    · rw [found, same.mp found, beq_self_eq_true, beq_self_eq_true]
    · rw [beq_false_of_ne found, beq_false_of_ne (mt same.mpr found)]

end Pairs

namespace Checked

variable {ε β γ σ : Type}

theorem forM_eq_ok_iff {items : List β} {check : β → Checked ε Unit} :
    items.forM check = Except.ok () ↔ ∀ item ∈ items, check item = Except.ok () := by
  induction items with
  | nil =>
    constructor
    · intro _ item member
      cases member
    · intro _
      rfl
  | cons head rest ih =>
    change (check head >>= fun _ => rest.forM check) = Except.ok () ↔ _
    rw [bind_eq_ok_iff]
    simp only [List.mem_cons, forall_eq_or_imp, ← ih]
    constructor
    · rintro ⟨_, first, others⟩
      exact ⟨first, others⟩
    · rintro ⟨first, others⟩
      exact ⟨(), first, others⟩

theorem mapM_eq_ok_iff {items : List β} {compute : β → Checked ε γ} {results : List γ} :
    items.mapM compute = Except.ok results ↔
      List.Forall₂ (fun item result => compute item = Except.ok result) items results := by
  induction items generalizing results with
  | nil =>
    rw [List.mapM_nil]
    constructor
    · intro same
      cases same
      exact List.Forall₂.nil
    · intro related
      cases related
      rfl
  | cons head rest ih =>
    rw [List.mapM_cons, bind_eq_ok_iff]
    constructor
    · rintro ⟨result, first, others⟩
      rw [bind_eq_ok_iff] at others
      rcases others with ⟨remaining, mapped, same⟩
      cases same
      exact List.Forall₂.cons first (ih.mp mapped)
    · intro related
      cases related with
      | cons first others =>
        exact ⟨_, first, bind_eq_ok_iff.mpr ⟨_, ih.mpr others, rfl⟩⟩

/-- A computation fails in a certain way only if one of its parts does. -/
theorem bind_ne_error {first : Checked ε β} {next : β → Checked ε γ}
    {failure : Failure ε} (apart : first ≠ Except.error failure)
    (rest : ∀ value, first = Except.ok value → next value ≠ Except.error failure) :
    first >>= next ≠ Except.error failure := by
  cases first with
  | error other => simpa using apart
  | ok value => exact rest value rfl

theorem mapM_ne_error {items : List β} {compute : β → Checked ε γ}
    {failure : Failure ε} (each : ∀ item ∈ items, compute item ≠ Except.error failure) :
    items.mapM compute ≠ Except.error failure := by
  induction items with
  | nil => exact nofun
  | cons item rest ih =>
    rw [List.mapM_cons]
    refine bind_ne_error (each item List.mem_cons_self) fun value _ => ?_
    refine bind_ne_error (ih fun other member => each other (List.mem_cons_of_mem _ member)) ?_
    exact fun values _ => nofun

theorem orFault_ne_abort {content : Option β} {broken other : Fault} (apart : broken ≠ other) :
    (orFault content broken : Checked ε β) ≠ abort other := by
  cases content <;> simp [orFault, abort, apart]

/-- What holds at the start of a loop and is kept by every round holds at its end. -/
theorem foldlM_invariant (invariant : σ → Prop) {items : List β} {round : σ → β → Checked ε σ}
    (kept : ∀ state, ∀ item ∈ items, ∀ next, invariant state → round state item = Except.ok next →
      invariant next)
    {start final : σ} (holds : invariant start) (run : items.foldlM round start = Except.ok final) :
    invariant final := by
  induction items generalizing start with
  | nil =>
    cases run
    exact holds
  | cons head rest ih =>
    rw [List.foldlM_cons, bind_eq_ok_iff] at run
    rcases run with ⟨next, first, others⟩
    exact ih (fun state item member => kept state item (by simp [member]))
      (kept start head (by simp) next holds first) others

end Checked

end ArrayGraph
