/-!
Errors: a cause, and the causes it was raised on. An error belongs to every class that one of
its causes belongs to.
-/

namespace TreeQuery

/-- What went wrong at one step. -/
inductive Cause where
  | note (message : String)
  /-- Raised by code that knows nothing of this library. -/
  | foreign (message : String)
  | cancelled
  /-- Raised by the database, with the messages of what caused it there. -/
  | driver (message : String) (sources : List String)
  | invalidArgument (message : String)
  | invalidConfiguration (message : String)
  | invalidCursor (message : String)
  | invalidResult (message : String)
  | unsupportedFeature (message : String)
  deriving DecidableEq

/-- The causes of an error, the most recent first. -/
structure Error where
  cause : Cause
  earlier : List Cause
  deriving DecidableEq

inductive ErrorClass where
  | cancelled
  | driver
  | invalidArgument
  | invalidCursor
  | invalidResult
  | unsupportedFeature
  | invalidConfiguration
  deriving DecidableEq

namespace Cause

def message : Cause → String
  | .note m => m
  | .foreign m => m
  | .cancelled => "request was cancelled"
  | .driver m sources => String.intercalate ": " (m :: sources)
  | .invalidArgument m => "invalid argument: " ++ m
  | .invalidConfiguration m => "invalid configuration: " ++ m
  | .invalidCursor m => "invalid cursor: " ++ m
  | .invalidResult m => "invalid result: " ++ m
  | .unsupportedFeature m => "unsupported feature: " ++ m

/-- A feature that is missing is also a fault of the configuration. -/
def belongsTo (c : Cause) : ErrorClass → Bool
  | .cancelled => (c matches .cancelled)
  | .driver => (c matches .driver ..)
  | .invalidArgument => (c matches .invalidArgument _)
  | .invalidCursor => (c matches .invalidCursor _)
  | .invalidResult => (c matches .invalidResult _)
  | .unsupportedFeature => (c matches .unsupportedFeature _)
  | .invalidConfiguration => (c matches .invalidConfiguration _ | .unsupportedFeature _)

end Cause

namespace Error

def of (c : Cause) : Error := ⟨c, []⟩

def note (message : String) : Error := of (.note message)

def cancelled : Error := of .cancelled

def invalidArgument (message : String) : Error := of (.invalidArgument message)

def invalidConfiguration (message : String) : Error := of (.invalidConfiguration message)

def invalidCursor (message : String) : Error := of (.invalidCursor message)

def invalidResult (message : String) : Error := of (.invalidResult message)

def unsupportedFeature (message : String) : Error := of (.unsupportedFeature message)

def causes (e : Error) : List Cause := e.cause :: e.earlier

def message (e : Error) : String := String.intercalate ": " (e.causes.map Cause.message)

def isA (e : Error) (k : ErrorClass) : Bool := e.causes.any (fun c => c.belongsTo k)

/-- Keeps only the text of `c`. -/
def wrap (e c : Error) : Error := ⟨.note c.message, e.causes⟩

/-- Puts `c` in front of `e`. Only a context that has no causes of its own is kept as it is. -/
def context (e c : Error) : Error :=
  if c.earlier.isEmpty then ⟨c.cause, e.causes⟩ else wrap e c

/-- The text of the error behind the most recent cause, where it is kept as an error. -/
def source? (e : Error) : Option String :=
  match e.cause with
  | .driver .. => some e.cause.message
  | .foreign m => some m
  | _ => none

end Error

end TreeQuery
