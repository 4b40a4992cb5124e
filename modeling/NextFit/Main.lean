import NextFit.MemoryDump

/-! # Command line

Prints the demonstration.
-/

/-- Print the demonstration, or how it failed. -/
def main : IO UInt32 := do
  match NextFit.MemoryDump.text with
  | .ok text =>
      IO.print text
      return 0
  | .error failure =>
      IO.eprintln failure.message
      return 1
