import SpanJoin.Datum.Broadcast
import SpanJoin.Datum.Reshape
import SpanJoin.Datum.Stack
import SpanJoin.Eval.Environment
import SpanJoin.Tree.Naming

/-!
# Evaluation

A tree is evaluated for one left row and the right rows that match it. Children are evaluated before
their node, from left to right, and the environment goes from one to the next: there are no scopes,
so a name declared in one operand is bound in the operands after it and stays bound. An evaluation
ends in a datum or a fault and, in either case, in the environment that it had reached.
-/

namespace SpanJoin

/-- All that a tree may read. -/
structure Context where
  /-- The left row. -/
  left : Table.Row
  /-- The right rows that match it. -/
  right : Table
  /-- The length of the left interval. -/
  lengthOfLeft : Cell
  /-- The lengths of the right intervals. -/
  lengthOfRight : Series
  /-- The overlaps of the left interval with the right ones. -/
  lengthOfOverlap : Series

/-- What an evaluation ends in, and the environment that it had reached. -/
abbrev Evaluated (α : Type) := Outcome TreeError α × Environment

/-- Goes on with the answer of an evaluation, without touching the environment. -/
def Evaluated.andThen {α β : Type} (r : Evaluated α) (f : α → Outcome TreeError β) : Evaluated β :=
  match r with
  | (.ok a, env) => (f a, env)
  | (.error e, env) => (.error e, env)

namespace Tree

/-! ## Arguments -/

/-- The text among the children of a node at a position. -/
def textAt (action : Action) (children : List Tree) (position : Nat) : Except TreeError String :=
  match children[position]?.bind text? with
  | some s => .ok s
  | none => .error (.invalidChild action position .text)

/-- Exactly one argument. -/
def oneArgument {α : Type} (action : Action) (f : Datum → Outcome TreeError α) :
    List Datum → Outcome TreeError α
  | [d] => f d
  | args => .error (.error (.invalidArity action (.exactly 1) args.length))

/-- Exactly two arguments. -/
def twoArguments {α : Type} (action : Action) (f : Datum → Datum → Outcome TreeError α) :
    List Datum → Outcome TreeError α
  | [d, e] => f d e
  | args => .error (.error (.invalidArity action (.exactly 2) args.length))

/-! ## Reading the context -/

/-- A cell of the left row. -/
def readLeft (c : Context) (children : List Tree) : Outcome TreeError Datum := do
  let name ← Outcome.ofExcept (textAt .leftColumn children 0)
  let cell ← (c.left.get name).mapError .data
  return .scalar cell

/-- A column of the right rows. -/
def readRight (c : Context) (children : List Tree) : Except TreeError Datum := do
  let name ← textAt .rightColumn children 0
  let s ← (c.right.series name).mapError .data
  return .series s

/-- The datum bound to a name. -/
def readName (env : Environment) (children : List Tree) : Except TreeError Datum := do
  let name ← textAt .refer children 0
  match env.get? name with
  | some d => return d
  | none => throw (.undeclared name)

/-- The length of the left interval over each overlap. -/
def leftFraction (c : Context) : Except TreeError Datum :=
  Datum.binary .div (.scalar c.lengthOfLeft) (.series c.lengthOfOverlap)

/-- The length of each right interval over its overlap. -/
def rightFraction (c : Context) : Except TreeError Datum :=
  Datum.binary .div (.series c.lengthOfRight) (.series c.lengthOfOverlap)

/-! ## Nodes with evaluated children -/

/-- The value of a node that casts its first argument to the kind that its second child names. -/
def castResult (children : List Tree) : List Datum → Outcome TreeError Datum :=
  twoArguments .castTo fun d _ => Outcome.ofExcept do
    let name ← textAt .castTo children 1
    let kind ← (Kind.parse name).mapError .data
    d.cast kind

/-- Binds the name that the first child gives to the second argument. -/
def bindResult (children : List Tree) (args : List Datum) (env : Environment) : Evaluated Datum :=
  match twoArguments .declare (fun _ d => .ok d) args with
  | .error e => (.error e, env)
  | .ok d =>
    match textAt .declare children 0 with
    | .error e => (.error (.error e), env)
    | .ok name => (.ok (.scalar .null), env.bind name d)

/-- The last of the statements' values. -/
def lastResult (args : List Datum) : Datum := args.getLast?.getD (.scalar .null)

/-- The columns that a child of a side-by-side node contributes. A series is named after its tree,
or by its own name if the tree has none. -/
def parts (child : Tree) : Datum → Outcome TreeError (List Part)
  | .series s =>
    match child.outputName, s.name with
    | .ok name, _ => .ok [⟨name, s⟩]
    | .error .outOfRange, _ => .error .outOfRange
    | .error (.error _), some name => .ok [⟨name, s⟩]
    | .error (.error e), none => .error (.error e)
  | .frame t => Outcome.ofExcept (Part.ofTable t)
  | d => .error (.error (.wrongShape .hstack .seriesOrFrames d))

/-! ## Trees -/

mutual

/-- The value of a tree in an environment. -/
def evalIn (c : Context) : Tree → Environment → Evaluated Datum
  | .literal l, env => (.ok l.datum, env)
  | .node action cs, env =>
    match action with
    | .leftColumn => (readLeft c cs, env)
    | .rightColumn => (Outcome.ofExcept (readRight c cs), env)
    | .refer => (Outcome.ofExcept (readName env cs), env)
    | .lengthOfLeft => (.ok (.scalar c.lengthOfLeft), env)
    | .lengthOfRight => (.ok (.series c.lengthOfRight), env)
    | .lengthOfOverlap => (.ok (.series c.lengthOfOverlap), env)
    | .fractionOfLeft => (Outcome.ofExcept (leftFraction c), env)
    | .fractionOfRight => (Outcome.ofExcept (rightFraction c), env)
    | .hstack => (partsEach c cs env).andThen Part.stack
    | .binary op =>
      (evalEach c cs env).andThen
        (twoArguments action fun d e => Outcome.ofExcept (Datum.binary op d e))
    | .unary op =>
      (evalEach c cs env).andThen (oneArgument action fun d => Outcome.ofExcept (Datum.unary op d))
    | .sum => (evalEach c cs env).andThen (oneArgument action Datum.sum)
    | .filter => (evalEach c cs env).andThen (twoArguments action Datum.filter)
    | .sliceLabel => (evalEach c cs env).andThen (twoArguments action (Datum.slice action))
    | .sliceInteger => (evalEach c cs env).andThen (twoArguments action (Datum.slice action))
    | .castTo => (evalEach c cs env).andThen (castResult cs)
    | .indexOfMax => (evalEach c cs env).andThen (oneArgument action Datum.indexOfMax)
    | .atIndex => (evalEach c cs env).andThen (twoArguments action Datum.atIndex)
    | .nameAs => (evalEach c cs env).andThen (twoArguments action fun d _ => .ok d)
    | .groupBy =>
      (evalEach c cs env).andThen
        (twoArguments action fun d k => Outcome.ofExcept (Datum.groupBy d k))
    | .declare =>
      match evalEach c cs env with
      | (.ok args, env) => bindResult cs args env
      | (.error e, env) => (.error e, env)
    | .execute => (evalEach c cs env).andThen fun args => .ok (lastResult args)

/-- The values of the trees in a list, one after the other. -/
def evalEach (c : Context) : List Tree → Environment → Evaluated (List Datum)
  | [], env => (.ok [], env)
  | t :: ts, env =>
    match t.evalIn c env with
    | (.error e, env) => (.error e, env)
    | (.ok d, env) => (evalEach c ts env).andThen fun ds => .ok (d :: ds)

/-- The columns that the children of a side-by-side node contribute, one child after the other. -/
def partsEach (c : Context) : List Tree → Environment → Evaluated (List Part)
  | [], env => (.ok [], env)
  | t :: ts, env =>
    match t.evalIn c env with
    | (.error e, env) => (.error e, env)
    | (.ok d, env) =>
      match t.parts d with
      | .error e => (.error e, env)
      | .ok ps => (partsEach c ts env).andThen fun qs => .ok (ps ++ qs)

end

/-- The value of a tree in an environment without bindings. -/
def eval (c : Context) (t : Tree) : Outcome TreeError Datum := (t.evalIn c .empty).1

end Tree

end SpanJoin
