import SpanJoin.Text.Blank

/-!
# Configuration of a join

What becomes of a left row whose key no right row shares, and whether the join has been cancelled.
-/

namespace SpanJoin

/-- What to do with a left key that no right row shares. -/
inductive Unmatched where
  /-- Every derived cell of the row is missing. -/
  | null
  /-- The derived columns are evaluated against no right rows. -/
  | evaluateEmpty
  /-- The join fails. -/
  | error
  deriving DecidableEq

namespace Unmatched

/-- The name of a policy. -/
def name : Unmatched → String
  | null => "null"
  | evaluateEmpty => "evaluate-empty"
  | error => "error"

/-- The policy that a text means, or a message; capital letters do not matter. -/
def parse (s : String) : Except String Unmatched :=
  match Text.lower s with
  | "null" => .ok null
  | "evaluate-empty" | "evaluate_empty" | "empty" => .ok evaluateEmpty
  | "error" => .ok error
  | other =>
    .error ("unknown unmatched policy '" ++ other
      ++ "', expected null, evaluate-empty or error")

end Unmatched

/-- How to join. -/
structure JoinConfig where
  /-- Asks for the rows to be evaluated side by side; the result is the same. -/
  parallel : Bool := false
  unmatched : Unmatched := .null
  /-- The flag that stops the join, if there is one. -/
  cancel : Option Bool := none
  deriving DecidableEq

/-- Is there a flag, and is it set? -/
def JoinConfig.isCancelled (config : JoinConfig) : Bool := config.cancel.getD false

end SpanJoin
