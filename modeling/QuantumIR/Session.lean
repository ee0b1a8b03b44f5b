import QuantumIR.Emission

/-!
# Sessions

An emission that is driven from outside, call by call. Each call is one of the
things an instruction can ask for, or a list of instructions, and a call that
fails leaves the session open: the next one goes on from the state in which the
failure left it.

## Main definitions

* `Call`: What can be asked of an emission.
* `Reply`: What a call answers.
* `Call.perform`: The reply to a call, and the emission after it.
* `Session.run`: The emission after a list of calls.
-/

namespace QuantumIR

/-- What can be asked of an emission. -/
inductive Call where
  | gate (gate : Gate) (operands : List Operand)
  | measure (qubit result : Operand)
  | comment (text : String)
  | showQubit (operand : Operand)
  | showResult (operand : Operand)
  | emit (instructions : List Instruction)
deriving DecidableEq, Repr

/-- What a call answers. -/
inductive Reply where
  | done
  | text (text : String)
  | failed (error : ArityError)
deriving DecidableEq, Repr

/-- The reply to a call that can fail. -/
def Reply.ofOutcome (o : Emission.Outcome) : Reply :=
  match o.failure with
  | none => done
  | some error => failed error

namespace Call

/-- The reply to a call, and the emission after it. -/
def perform (d : Dialect) (e : Emission) : Call → Reply × Emission
  | gate g operands =>
    let o := e.tryGate g operands
    (Reply.ofOutcome o, o.emission)
  | measure qubit result => (.done, e.measure qubit result)
  | comment text => (.done, e.comment text)
  | showQubit o =>
    let (text, e) := e.showQubit d o
    (.text text, e)
  | showResult o =>
    let (text, e) := e.showResult d o
    (.text text, e)
  | emit instructions =>
    let o := e.run d instructions
    (Reply.ofOutcome o, o.emission)

end Call

namespace Session

/-- The emission after a list of calls, whatever they answer. -/
def run (d : Dialect) (e : Emission) : List Call → Emission
  | [] => e
  | c :: cs => run d (c.perform d e).2 cs

end Session

end QuantumIR
