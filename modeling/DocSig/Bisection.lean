/-!
Binary search in an array of which a property holds up to some place and not from there on.
-/

set_option autoImplicit false

namespace DocSig

/-- The place from which on a property fails, given that it holds of all items before `low` and of
none from `high` on: the range between is halved until it is empty. -/
def bisect {α : Type} (holds : α → Bool) (items : Array α) (low high : Nat) : Nat :=
  if low < high then
    let middle := (low + high) / 2
    if items[middle]?.any holds then bisect holds items (middle + 1) high
    else bisect holds items low middle
  else low
termination_by high - low

/-- The number of items at the front of an array that have a property, given that no item behind
one that lacks it has it. -/
def countFront {α : Type} (holds : α → Bool) (items : Array α) : Nat :=
  bisect holds items 0 items.size

end DocSig
