import Stackwise.CommandLine

/-! The executable around the command line. -/

/-- Write the response to the arguments and exit with its status. -/
def main (arguments : List String) : IO UInt32 := do
  let response := Stackwise.respond arguments
  (← IO.getStdout).putStr response.output
  (← IO.getStderr).putStr response.errors
  return response.exit
