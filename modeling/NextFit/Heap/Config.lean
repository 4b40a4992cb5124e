/-! # Configuration of a heap

What a heap may be told about the way it asks its arena for memory.
-/

namespace NextFit

/-- How a heap asks its arena for memory. -/
structure HeapConfig where
  /-- The fewest units of an extension. -/
  minExtensionUnits : Nat := 1024
  deriving Repr, DecidableEq, Inhabited

namespace HeapConfig

/-- The configuration with another minimum. With `0`, an extension is just what a request needs. -/
def withMinExtensionUnits (config : HeapConfig) (units : Nat) : HeapConfig :=
  { config with minExtensionUnits := units }

def describe (config : HeapConfig) : String :=
  s!"HeapConfig \x7b min_extension_units: {config.minExtensionUnits} \x7d"

end HeapConfig

end NextFit
