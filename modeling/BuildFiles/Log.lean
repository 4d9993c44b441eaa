/-!
# Records of a run

What a run has to say while it goes on: records of a level, from an area of the program. An
`Outlet` shows those from its threshold on, on the console and, if asked, in a file as well.
-/

namespace BuildFiles

/-- How much a record matters. -/
inductive Level where
  | debug
  | info
  | warning
  | error
  | critical
  deriving DecidableEq

namespace Level

/-- The place among the levels. -/
def rank : Level → Nat
  | .debug => 0
  | .info => 1
  | .warning => 2
  | .error => 3
  | .critical => 4

/-- The word for the level. -/
def name : Level → String
  | .debug => "DEBUG"
  | .info => "INFO"
  | .warning => "WARNING"
  | .error => "ERROR"
  | .critical => "CRITICAL"

/-- All levels, from the least. -/
def all : List Level := [.debug, .info, .warning, .error, .critical]

/-- The level of a word. -/
def ofName? (word : String) : Option Level := all.find? fun l => l.name == word

end Level

/-- A record. -/
structure Record where
  level : Level
  area : String
  message : String
  /-- it was made while several descriptions of libraries were read side by side -/
  aside : Bool
  deriving DecidableEq

namespace Record

/-- The area as shown; a record without one is of the main program. -/
def areaName (r : Record) : String := if r.area.isEmpty then "main" else r.area

/-- The record on the console. -/
def consoleText (r : Record) : String :=
  "[genbuild:" ++ r.areaName ++ "] " ++ r.level.name ++ " " ++ r.message ++ "\n"

/-- The record in a file, without the time before it. -/
def fileText (r : Record) : String :=
  r.level.name ++ " " ++ r.areaName ++ ": " ++ r.message ++ "\n"

end Record

/-- Where records go. -/
structure Outlet where
  threshold : Level
  toFile : Bool

namespace Outlet

/-- The outlet of a command; to be verbose wins over to be quiet. -/
def configure (verbose quiet toFile : Bool) : Outlet :=
  ⟨if verbose then .debug else if quiet then .warning else .info, toFile⟩

/-- The outlet shows the record. -/
def shows (o : Outlet) (r : Record) : Bool := o.threshold.rank ≤ r.level.rank

/-- How many places records go to. -/
def places (o : Outlet) : Nat := if o.toFile then 2 else 1

/-- What the console shows of the records. -/
def consoleText (o : Outlet) (records : List Record) : String :=
  String.join ((records.filter o.shows).map Record.consoleText)

/-- What the file gets of the records, each with the time before it. -/
def fileText (o : Outlet) (time : String) (records : List Record) : String :=
  String.join ((records.filter o.shows).map fun r => time ++ " " ++ r.fileText)

end Outlet

end BuildFiles
