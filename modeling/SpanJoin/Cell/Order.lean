import SpanJoin.Cell.Basic

/-!
# The order of cells

Two integers, two texts and two truth values compare exactly; an integer and a floating-point number
compare by their numeric readings, the integer being rounded first. All other pairs are
incomparable, and so is everything with what is not a number.

Labels are matched by `sameLabel`, which is wider than `==`: an integer label matches an equal
floating-point one.
-/

namespace SpanJoin

namespace Cell

/-- The order of two integers. -/
def orderInt (a b : Int) : Ordering := if a < b then .lt else if b < a then .gt else .eq

/-- The order of two texts, by code points. -/
def orderText (a b : String) : Ordering := if a < b then .lt else if b < a then .gt else .eq

/-- The order of two floating-point numbers, if both are numbers. -/
def orderFloat? (x y : Float) : Option Ordering :=
  if x < y then some .lt else if y < x then some .gt else if x == y then some .eq else none

/-- The order of two cells of comparable kinds. -/
def compare? (a b : Cell) : Option Ordering :=
  match a, b with
  | int m, int n => some (orderInt m.toInt n.toInt)
  | text s, text t => some (orderText s t)
  | bool p, bool q => some (orderInt p.toNat q.toNat)
  | a, b =>
    match a.number?, b.number? with
    | some x, some y => orderFloat? x y
    | _, _ => none

/-- Do two cells match as labels: are they equal, or do they compare as equal? -/
def sameLabel (a b : Cell) : Bool := a == b || a.compare? b == some .eq

/-- The place of a cell's kind in the order of keys: missing, truth values, numbers, texts. -/
def rank : Cell → Nat
  | null => 0
  | bool _ => 1
  | int _ => 2
  | float _ => 2
  | text _ => 3

/-- The order of grouping keys: that of the cells where they compare, else that of their kinds. -/
def orderKey (a b : Cell) : Ordering := (a.compare? b).getD (orderInt a.rank b.rank)

end Cell

end SpanJoin
