/-!
# Log records

What a program notes about its own work: a severity, who speaks, a message and named values. Whether
a record is shown, and in which form, is not for the program to say: it hands its records to a
library for logging, and a run does not depend on what becomes of them.
-/

namespace TapeMachine

/-- How severe a record is. The program speaks at three of the usual levels: it warns of a run that
has failed, informs about the program that it has loaded, and leaves a trail of the runs themselves
for whoever looks for mistakes. -/
inductive Level where
  | warn
  | info
  | debug
deriving DecidableEq

/-- Which part of the program speaks. -/
inductive Speaker where
  /-- the command line -/
  | program
  /-- the engine -/
  | engine
deriving DecidableEq

/-- A note about the program's work. -/
structure LogRecord where
  /-- how severe it is -/
  level : Level
  /-- who speaks -/
  speaker : Speaker
  /-- what happened -/
  message : String
  /-- named values, in the order in which they are shown -/
  fields : List (String × String)
deriving DecidableEq

end TapeMachine
