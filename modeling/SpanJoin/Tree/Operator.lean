import SpanJoin.Cell.Order
import SpanJoin.Tree.Error

/-!
# Operators on cells

Arithmetic on two integers wraps around at 64 bits, and on anything else numeric it is done on the
floating-point readings; division always is. `null` makes an arithmetic result `null`. Comparisons
with a missing cell are false, never missing, so that a comparison can always serve as a mask.
`and`, `or` and `not` are three-valued, `null` being the unknown truth value.
-/

namespace SpanJoin

namespace BinaryOp

/-- The error that the operands do not go together. -/
def invalid (op : BinaryOp) (l r : Cell) : Except TreeError Cell :=
  .error (.invalidOperands (.action (.binary op)) l.kind? r.kind?)

/-- An operation on the numeric readings of two cells. -/
def onNumbers (op : BinaryOp) (f : Float → Float → Float) (l r : Cell) : Except TreeError Cell :=
  match l.number?, r.number? with
  | some x, some y => .ok (.float (f x y))
  | _, _ => op.invalid l r

/-- An arithmetic operation, on integers if both operands are. -/
def arithmetic (op : BinaryOp) (onInts : Int64 → Int64 → Int64) (f : Float → Float → Float)
    (l r : Cell) : Except TreeError Cell :=
  match l, r with
  | .null, _ => .ok .null
  | _, .null => .ok .null
  | .int a, .int b => .ok (.int (onInts a b))
  | l, r => op.onNumbers f l r

/-- Does the first cell stand in the given order to the second? -/
def ordered (op : BinaryOp) (wanted : Ordering) (l r : Cell) : Except TreeError Cell :=
  if l.isMissing || r.isMissing then .ok (.bool false)
  else
    match l.compare? r with
    | some o => .ok (.bool (o == wanted))
    | none => op.invalid l r

/-- A connective of three-valued logic: `decisive` is the operand that settles the result. -/
def connective (op : BinaryOp) (decisive : Bool) (l r : Cell) : Except TreeError Cell :=
  match l, r with
  | .bool a, .bool b => .ok (.bool (if a = decisive then decisive else b))
  | .bool a, .null => .ok (if a = decisive then .bool decisive else .null)
  | .null, .bool b => .ok (if b = decisive then .bool decisive else .null)
  | .null, .null => .ok .null
  | l, r => op.invalid l r

/-- The result of an operator on two cells. -/
def apply (op : BinaryOp) (l r : Cell) : Except TreeError Cell :=
  match op with
  | add =>
    match l, r with
    | .text s, .text t => .ok (.text (s ++ t))
    | l, r => add.arithmetic (· + ·) (· + ·) l r
  | sub => sub.arithmetic (· - ·) (· - ·) l r
  | mul => mul.arithmetic (· * ·) (· * ·) l r
  | div =>
    match l, r with
    | .null, _ => .ok .null
    | _, .null => .ok .null
    | l, r => div.onNumbers (· / ·) l r
  | gt => gt.ordered .gt l r
  | lt => lt.ordered .lt l r
  | eq =>
    if l.isMissing || r.isMissing then .ok (.bool false) else .ok (.bool (l.sameLabel r))
  | and => and.connective false l r
  | or => or.connective true l r

end BinaryOp

namespace UnaryOp

/-- The error that the operand is of the wrong kind. -/
def invalid (op : UnaryOp) (c : Cell) : Except TreeError Cell :=
  .error (.invalidOperands (.action (.unary op)) c.kind? none)

/-- The result of an operator on one cell. -/
def apply (op : UnaryOp) (c : Cell) : Except TreeError Cell :=
  match op, c with
  | not, .null => .ok .null
  | not, .bool b => .ok (.bool !b)
  | not, c => not.invalid c
  | neg, .null => .ok .null
  | neg, .int n => .ok (.int (-n))
  | neg, .float x => .ok (.float (-x))
  | neg, c => neg.invalid c
  | isna, c => .ok (.bool c.isMissing)

end UnaryOp

end SpanJoin
