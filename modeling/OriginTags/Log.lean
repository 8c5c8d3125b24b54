/-!
# Log records

What the library reports while it works.
-/

namespace OriginTags

inductive LogLevel
  | error
  | warn
  | info
  | debug
deriving DecidableEq, Repr

/-- A record: a message and some named values. -/
structure LogRecord where
  level : LogLevel
  message : String
  fields : List (String × String) := []
deriving DecidableEq, Repr

end OriginTags
