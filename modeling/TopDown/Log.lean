/-!
# Log records

What the library has to say about its own decisions. A record has a level, a topic, and a text; who
runs the program decides which levels are shown and how a topic is named.
-/

namespace TopDown

/-- How much detail a record goes into. -/
inductive LogLevel where
  /-- A decision that a user may want to know about. -/
  | debug
  /-- A single step. -/
  | trace
deriving DecidableEq

/-- The level as records show it. -/
def LogLevel.label : LogLevel → String
  | .debug => "DEBUG"
  | .trace => "TRACE"

/-- What a record is about. -/
inductive LogTopic where
  /-- Splitting a text into tokens. -/
  | lexing
  /-- Recording the rules of a language. -/
  | recording
  /-- Computing lookahead. -/
  | prediction
  /-- Running rules on tokens. -/
  | parsing
  /-- Getting past a syntax error. -/
  | recovery
deriving DecidableEq

/-- One thing that is said. -/
structure LogRecord where
  /-- How much detail it goes into. -/
  level : LogLevel
  /-- What it is about. -/
  topic : LogTopic
  /-- What is said. -/
  text : String
deriving DecidableEq

end TopDown
