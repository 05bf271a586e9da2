import Mathlib.Logic.Equiv.Basic
import Mathlib.Data.List.Nodup

/-!
# Lists in another order

A permutation of places tells where the items of one list stand in another one. Which items a list has
does not depend on their places, and lists that are computed item by item from lists in another order
are in another order in the same way.
-/

namespace ArrayGraph

variable {β γ : Type}

/-- Lists with the same items, each at the place that a permutation gives it. -/
structure Arranges (π : Equiv.Perm Nat) (items items' : List β) : Prop where
  item : ∀ place, items'[π place]? = items[place]?
  back : ∀ place, items.length ≤ place → π place = place

/-- A permutation that leaves all places from a bound on as they are permutes those before it. -/
theorem lt_iff_of_fixed {π : Equiv.Perm Nat} {bound : Nat}
    (back : ∀ place, bound ≤ place → π place = place) (place : Nat) :
    π place < bound ↔ place < bound := by
  constructor
  · intro within
    by_contra outside
    rw [back place (Nat.le_of_not_lt outside)] at within
    exact outside within
  · intro within
    by_contra outside
    have same := π.injective (back _ (Nat.le_of_not_lt outside))
    rw [same] at outside
    exact outside within

/-- A permutation of what comes after the first place. -/
def behindFirst (π : Equiv.Perm Nat) : Equiv.Perm Nat where
  toFun
    | 0 => 0
    | place + 1 => π place + 1
  invFun
    | 0 => 0
    | place + 1 => π.symm place + 1
  left_inv place := by cases place <;> simp
  right_inv place := by cases place <;> simp

namespace Arranges

variable {π π' : Equiv.Perm Nat} {items items' items'' : List β}

theorem cons (arranges : Arranges π items items') (head : β) :
    Arranges (behindFirst π) (head :: items) (head :: items') := by
  refine ⟨fun place => ?_, fun place after => ?_⟩
  · cases place with
    | zero => rfl
    | succ place => exact arranges.item place
  · cases place with
    | zero => rfl
    | succ place => exact congrArg (· + 1) (arranges.back place (Nat.le_of_succ_le_succ after))

theorem lt_iff (arranges : Arranges π items items') (place : Nat) :
    π place < items.length ↔ place < items.length :=
  lt_iff_of_fixed arranges.back place

theorem length (arranges : Arranges π items items') : items'.length = items.length := by
  have unknown : ∀ place, items'.length ≤ place ↔ items.length ≤ place := by
    intro place
    have item := arranges.item (π.symm place)
    have within := arranges.lt_iff (π.symm place)
    rw [Equiv.apply_symm_apply] at item within
    rw [← List.getElem?_eq_none_iff, item, List.getElem?_eq_none_iff]
    omega
  exact Nat.le_antisymm ((unknown _).mpr (Nat.le_refl _)) ((unknown _).mp (Nat.le_refl _))

theorem trans (first : Arranges π items items') (second : Arranges π' items' items'') :
    Arranges (π.trans π') items items'' := by
  refine ⟨fun place => ?_, fun place after => ?_⟩
  · rw [Equiv.trans_apply, second.item, first.item]
  · rw [Equiv.trans_apply, first.back place after,
      second.back place (first.length.symm ▸ after)]

/-- Lists that differ in the order of their items are arrangements of each other, and so they are
behind a common front. -/
theorem exists_of_perm (front : List β) (perm : items.Perm items') :
    ∃ π, Arranges π (front ++ items) (front ++ items') ∧ ∀ place < front.length, π place = place := by
  induction front with
  | nil =>
    suffices ∃ π, Arranges π items items' by
      rcases this with ⟨π, arranges⟩
      exact ⟨π, arranges, fun place none => absurd none (Nat.not_lt_zero place)⟩
    induction perm with
    | nil => exact ⟨Equiv.refl Nat, fun _ => rfl, fun _ _ => rfl⟩
    | cons head _ ih =>
      rcases ih with ⟨π, arranges⟩
      exact ⟨_, arranges.cons head⟩
    | swap first second rest =>
      refine ⟨Equiv.swap 0 1, fun place => ?_, fun place after => ?_⟩
      · match place with
        | 0 => rfl
        | 1 => rfl
        | place + 2 =>
          rw [Equiv.swap_apply_of_ne_of_ne (by simp) (by simp)]
          rfl
      · simp only [List.length_cons] at after
        exact Equiv.swap_apply_of_ne_of_ne (by omega) (by omega)
    | trans _ _ ih ih' =>
      rcases ih with ⟨_, first⟩
      rcases ih' with ⟨_, second⟩
      exact ⟨_, first.trans second⟩
  | cons head front ih =>
    rcases ih with ⟨π, arranges, fixed⟩
    refine ⟨behindFirst π, arranges.cons head, fun place within => ?_⟩
    cases place with
    | zero => rfl
    | succ place => exact congrArg (· + 1) (fixed place (Nat.lt_of_succ_lt_succ within))

theorem idxOf [DecidableEq β] (arranges : Arranges π items items') (distinct : items'.Nodup)
    {item : β} (member : item ∈ items) : items'.idxOf item = π (items.idxOf item) := by
  have found : items'[π (items.idxOf item)]? = some item := by
    rw [arranges.item]
    exact List.getElem?_idxOf member
  rcases List.getElem?_eq_some_iff.mp found with ⟨within, same⟩
  have place := distinct.idxOf_getElem _ within
  rwa [same] at place

theorem mem_iff (arranges : Arranges π items items') {item : β} : item ∈ items' ↔ item ∈ items := by
  simp only [List.mem_iff_getElem?]
  constructor
  · rintro ⟨place, found⟩
    refine ⟨π.symm place, ?_⟩
    rw [← arranges.item, Equiv.apply_symm_apply, found]
  · rintro ⟨place, found⟩
    exact ⟨π place, by rw [arranges.item, found]⟩

theorem nodup (arranges : Arranges π items items') (distinct : items.Nodup) : items'.Nodup := by
  rw [List.nodup_iff_injective_getElem]
  rintro ⟨place, within⟩ ⟨place', within'⟩ same
  have found := arranges.item (π.symm place)
  have found' := arranges.item (π.symm place')
  rw [Equiv.apply_symm_apply, List.getElem?_eq_getElem within] at found
  rw [Equiv.apply_symm_apply, List.getElem?_eq_getElem within'] at found'
  have known : π.symm place < items.length := (List.getElem?_eq_some_iff.mp found.symm).1
  have places := (List.getElem?_inj known distinct).mp
    (found.symm.trans ((congrArg some same).trans found'))
  rw [Fin.mk.injEq]
  exact π.symm.injective places

/-- What is computed from items behind a front of the same length is arranged in the same way. -/
theorem behind {front : List β} (arranges : Arranges π (front ++ items) (front ++ items'))
    (fixed : ∀ place < front.length, π place = place) {other : List γ}
    (length : other.length = front.length) (f : β → γ) :
    Arranges π (other ++ items.map f) (other ++ items'.map f) := by
  refine ⟨fun place => ?_, fun place after => arranges.back place (by simpa [length] using after)⟩
  by_cases within : place < front.length
  · rw [fixed place within, List.getElem?_append_left (length ▸ within),
      List.getElem?_append_left (length ▸ within)]
  · have beyond : ¬π place < front.length := by
      intro inside
      have same := π.injective (fixed _ inside)
      exact within (same ▸ inside)
    have item := arranges.item place
    rw [List.getElem?_append_right (Nat.le_of_not_lt beyond),
      List.getElem?_append_right (Nat.le_of_not_lt within)] at item
    rw [List.getElem?_append_right (length ▸ Nat.le_of_not_lt beyond),
      List.getElem?_append_right (length ▸ Nat.le_of_not_lt within), length, List.getElem?_map,
      List.getElem?_map, item]

/-- Other items at a place that stays where it is. -/
theorem set (arranges : Arranges π items items') {place : Nat} (fixed : π place = place) (item : β) :
    Arranges π (items.set place item) (items'.set place item) := by
  refine ⟨fun other => ?_, fun other after => arranges.back other (by simpa using after)⟩
  have moved : place = π other ↔ place = other := by
    rw [← fixed, π.injective.eq_iff, fixed]
  simp only [List.getElem?_set, moved, arranges.length, arranges.item]

end Arranges

end ArrayGraph
