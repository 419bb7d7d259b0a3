import DocSig.Bisection
import Mathlib.Data.List.TakeWhile

/-!
Binary search finds the place where a property of the items ends, if it ends once.

Each step halves a range that this place stays in (`bisect_eq`). In a list in which no item with
the property comes behind one without it (`EndsOnce`), there are as many items before that place as
have the property (`countFront_eq`), and they are those (`take_countFront`).
-/

set_option autoImplicit false

namespace DocSig

variable {α : Type} {holds : α → Bool}

/-- A place between `low` and `high` at which the property ends is found. -/
theorem bisect_eq {items : Array α} {ends : Nat}
    (before : ∀ i x, items[i]? = some x → i < ends → holds x = true)
    (behind : ∀ i x, items[i]? = some x → ends ≤ i → holds x = false) {low high : Nat}
    (above : low ≤ ends) (below : ends ≤ high) (within : high ≤ items.size) :
    bisect holds items low high = ends := by
  fun_induction bisect holds items low high with
  | case1 low high open_ middle has ih =>
      obtain ⟨x, found, given⟩ := (Option.any_eq_true _ _).mp has
      have nearer : middle < ends := by
        by_contra past
        rw [behind middle x found (by omega)] at given
        cases given
      exact ih (by omega) below within
  | case2 low high open_ middle lacks ih =>
      have inside : middle < items.size := by omega
      have found : items[middle]? = some items[middle] := Array.getElem?_eq_getElem inside
      have nearer : ends ≤ middle := by
        by_contra past
        have has := before middle _ found (by omega)
        rw [found] at lacks
        exact lacks has
      exact ih above nearer (by omega)
  | case3 low high closed => omega

/-- No item that has the property comes behind one that lacks it. -/
def EndsOnce (holds : α → Bool) (items : List α) : Prop :=
  items.Pairwise fun earlier later => holds later = true → holds earlier = true

theorem takeWhile_eq_filter {items : List α} (once : EndsOnce holds items) :
    items.takeWhile holds = items.filter holds := by
  induction items with
  | nil => rfl
  | cons x items ih =>
      obtain ⟨first, others⟩ := List.pairwise_cons.mp once
      by_cases has : holds x = true
      · rw [List.takeWhile_cons_of_pos has, List.filter_cons_of_pos has, ih others]
      · rw [List.takeWhile_cons_of_neg has, List.filter_cons_of_neg has, eq_comm,
          List.filter_eq_nil_iff]
        exact fun y inside later => has (first y inside later)

/-- The items behind the front that has the property lack it. -/
theorem lacks_dropWhile {items : List α} (once : EndsOnce holds items) :
    ∀ x ∈ items.dropWhile holds, holds x = false := by
  have whole : items.filter holds ++ items.dropWhile holds = items := by
    rw [← takeWhile_eq_filter once, List.takeWhile_append_dropWhile]
  have none : (items.dropWhile holds).filter holds = [] := by
    have twice := congrArg (List.filter holds) whole
    rw [List.filter_append, List.filter_filter] at twice
    simpa using twice
  intro x inside
  simpa using List.filter_eq_nil_iff.mp none x inside

/-- As many items are counted as have the property. -/
theorem countFront_eq {items : List α} (once : EndsOnce holds items) :
    countFront holds items.toArray = items.countP holds := by
  have whole : items.takeWhile holds ++ items.dropWhile holds = items :=
    List.takeWhile_append_dropWhile
  have counted : countFront holds items.toArray = (items.takeWhile holds).length := by
    apply bisect_eq
    · intro i x found inside
      rw [List.getElem?_toArray, ← whole, List.getElem?_append_left inside] at found
      exact List.mem_takeWhile_imp (List.mem_of_getElem? found)
    · intro i x found past
      rw [List.getElem?_toArray, ← whole, List.getElem?_append_right past] at found
      exact lacks_dropWhile once x (List.mem_of_getElem? found)
    · exact Nat.zero_le _
    · exact (List.takeWhile_prefix holds).length_le
    · exact Nat.le_refl _
  rw [counted, takeWhile_eq_filter once, List.countP_eq_length_filter]

/-- The items that are counted are those with the property. -/
theorem take_countFront {items : List α} (once : EndsOnce holds items) :
    items.take (countFront holds items.toArray) = items.filter holds := by
  rw [countFront_eq once, List.countP_eq_length_filter, ← takeWhile_eq_filter once,
    ← List.prefix_iff_eq_take.mp (List.takeWhile_prefix holds)]

end DocSig
