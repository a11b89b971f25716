import SpanJoin.Tree.Operator

/-!
# Operators on data

An operator acts on two scalars, on a scalar and every cell of a series, or on the cells of two
series row by row; the two series must then carry equal labels in the same order. A result of a
binary operator has no name, one of a unary operator keeps the name of its operand.
-/

namespace SpanJoin

/-- A series without a name over the labels of `s`, its cells computed by `f` from a list. -/
def Series.compute {α : Type} (s : Series) (f : α → Except TreeError Cell) (as : List α) :
    Except TreeError Datum := do
  let cells ← as.mapM f
  let t ← (Series.ofIndex s.index cells).mapError .data
  return .series t

namespace Datum

/-- Is the datum a scalar or a series? -/
def isElementwise : Datum → Bool
  | scalar _ => true
  | series _ => true
  | _ => false

/-- The result of a binary operator on two data. -/
def binary (op : BinaryOp) : Datum → Datum → Except TreeError Datum
  | scalar a, scalar b => (op.apply a b).map scalar
  | series s, scalar b => s.compute (fun a => op.apply a b) s.cells
  | scalar a, series t => t.compute (fun b => op.apply a b) t.cells
  | series s, series t =>
    if s.alignedWith t then
      s.compute (fun p => op.apply p.1 p.2) (s.cells.zip t.cells)
    else .error (.misaligned (.binary op))
  | l, r =>
    .error (.wrongShape (.binary op) .scalarOrSeries (if l.isElementwise then r else l))

/-- The result of a unary operator on a datum. -/
def unary (op : UnaryOp) : Datum → Except TreeError Datum
  | scalar c => (op.apply c).map scalar
  | series s => do
    let cells ← s.cells.mapM op.apply
    let t ← (s.withCells cells).mapError .data
    return series t
  | d => .error (.wrongShape (.unary op) .scalarOrSeries d)

end Datum

end SpanJoin
