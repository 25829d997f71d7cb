import Intake.Demonstration

/-!
The command line: shows the demonstrations that the arguments name, or both of them.
-/

def main (args : List String) : IO Unit := do
  let names := if args.isEmpty then ["demo", "error_demo"] else args
  for name in names do
    for line in (Intake.Demonstration.named? name).getD [] do
      IO.println line
