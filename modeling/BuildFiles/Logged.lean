import BuildFiles.Log
import BuildFiles.Fault

/-!
# Computations that say what they do

A `Logged` computation may fail and makes records while it goes on. What it has said before it
fails stays said.
-/

namespace BuildFiles

/-- A computation that may fail and says what it does. -/
abbrev Logged := ExceptT Fault (StateM (List Record))

namespace Logged

/-- Make a record. -/
def say (r : Record) : Logged Unit := modify (· ++ [r])

/-- Make a record for the search for errors. -/
def debug (area message : String) : Logged Unit := say ⟨.debug, area, message, false⟩

/-- Make a record of what was done. -/
def info (area message : String) : Logged Unit := say ⟨.info, area, message, false⟩

/-- Make a record of what may be a mistake. -/
def warning (area message : String) : Logged Unit := say ⟨.warning, area, message, false⟩

/-- The value or the fault, after all. -/
def of {α : Type} (x : Except Fault α) : Logged α := ExceptT.mk (pure x)

/-- The result of a computation, with what it said. -/
def outcome {α : Type} (x : Logged α) : Except Fault α × List Record := x.run.run []

end Logged

end BuildFiles
