/-!
# Outcomes

A computation over a table or a tree ends in an answer, in an error that it reports, or short of
both: it is led to a position that does not exist, such as the second child of a node that has one,
or row 7 of a table of five rows. Only malformed input leads there. `Outcome ε α` keeps the three
apart, where a function that can only report errors answers in `Except ε α`.
-/

namespace SpanJoin

/-- Why a computation stopped without an answer. -/
inductive Fault (ε : Type) where
  /-- It reports an error. -/
  | error (cause : ε)
  /-- It was to read a position that does not exist. -/
  | outOfRange
  deriving DecidableEq

/-- What a computation that may be led to a missing position ends in. -/
abbrev Outcome (ε α : Type) := Except (Fault ε) α

namespace Outcome

variable {ε ε' α : Type}

/-- The outcome of a computation that reads no positions. -/
def ofExcept : Except ε α → Outcome ε α
  | .ok a => .ok a
  | .error e => .error (.error e)

/-- The outcome of reading a position that may be missing. -/
def ofOption : Option α → Outcome ε α
  | some a => .ok a
  | none => .error .outOfRange

/-- The same outcome, its error seen as one of another kind. -/
def mapError (f : ε → ε') : Outcome ε α → Outcome ε' α
  | .ok a => .ok a
  | .error (.error e) => .error (.error (f e))
  | .error .outOfRange => .error .outOfRange

/-! ## How outcomes are taken apart -/

@[simp] theorem ok_bind {β : Type} (a : α) (f : α → Except ε β) :
    ((Except.ok a : Except ε α) >>= f) = f a := rfl

@[simp] theorem error_bind {β : Type} (e : ε) (f : α → Except ε β) :
    ((Except.error e : Except ε α) >>= f) = .error e := rfl

/-- Two steps give an answer if the first one does and the second one does with it. -/
theorem bind_eq_ok {β : Type} {r : Except ε α} {f : α → Except ε β} {b : β} :
    (r >>= f) = .ok b ↔ ∃ a, r = .ok a ∧ f a = .ok b := by
  cases r <;> simp

@[simp] theorem ofExcept_eq_ok {r : Except ε α} {a : α} : ofExcept r = .ok a ↔ r = .ok a := by
  cases r <;> simp [ofExcept]

/-- Where no position is read, none can be missing. -/
@[simp] theorem ofExcept_ne_outOfRange (r : Except ε α) : ofExcept r ≠ .error .outOfRange := by
  cases r <;> simp [ofExcept]

@[simp] theorem ofOption_eq_ok {o : Option α} {a : α} :
    (ofOption o : Outcome ε α) = .ok a ↔ o = some a := by
  cases o <;> simp [ofOption]

@[simp] theorem mapError_eq_ok {f : ε → ε'} {r : Outcome ε α} {a : α} :
    mapError f r = .ok a ↔ r = .ok a := by
  rcases r with (e | _) | b <;> simp [mapError]

@[simp] theorem mapError_eq_outOfRange {f : ε → ε'} {r : Outcome ε α} :
    mapError f r = .error .outOfRange ↔ r = .error .outOfRange := by
  rcases r with (e | _) | b <;> simp [mapError]

end Outcome

end SpanJoin
