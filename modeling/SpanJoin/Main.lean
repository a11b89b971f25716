import SpanJoin.Demo.Report

/-!
# The demonstration program

Prints the report for the arguments of the command line.
-/

/-- Prints the report and exits with its status. -/
def main (args : List String) : IO UInt32 := do
  let r := SpanJoin.Demo.run args
  IO.print r.stdout
  IO.eprint r.stderr
  return r.status.toUInt32
