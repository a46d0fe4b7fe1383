/-!
Sets of code points, held as the ascending list of the places where membership changes: a code
point is a member when the number of places up to it is odd.
-/

namespace TypedSchema.Text

structure CodePoints where
  bounds : Array Nat

namespace CodePoints

/-- How many of the ascending bounds before `high` are at most `code`, given that those before `low`
are. Each step halves the gap. -/
def rankBetween (bounds : Array Nat) (code : Nat) : Nat → Nat → Nat → Nat
  | 0, low, _ => low
  | steps + 1, low, high =>
    if low < high then
      let middle := (low + high) / 2
      if bounds.getD middle 0 ≤ code then rankBetween bounds code steps (middle + 1) high
      else rankBetween bounds code steps low middle
    else low

def rank (set : CodePoints) (code : Nat) : Nat :=
  rankBetween set.bounds code (set.bounds.size.log2 + 1) 0 set.bounds.size

def contains (set : CodePoints) (code : Nat) : Bool :=
  set.rank code % 2 = 1

end CodePoints

end TypedSchema.Text
