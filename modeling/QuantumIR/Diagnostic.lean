/-!
# Diagnostics

How a failure is shown to a user. Every kind of failure in the library is an
inductive type of causes; this is the common form into which each of them is
put, with a code by which a cause can be looked up and, for some causes, a hint
on what to do.
-/

namespace QuantumIR

/-- A failure as it is reported. -/
structure Diagnostic where
  /-- What went wrong. -/
  message : String
  /-- The stable name of the cause. -/
  code : String
  /-- What the user may do about it. -/
  help : Option String := none
deriving DecidableEq, Repr

end QuantumIR
