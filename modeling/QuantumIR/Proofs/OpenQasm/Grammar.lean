import Mathlib.Data.List.Forall2
import QuantumIR.OpenQasm.Reader
import QuantumIR.Proofs.Text.Shape

/-!
# The Grammar of OpenQASM

Which texts of OpenQASM describe a circuit, and which circuit. All is said of the
lines of a text, with the blanks at their ends removed, and nothing of it refers to
a reader or to its state.

A line by itself has a shape. The shapes overlap: a declaration and a measurement
also have the shape of a gate. `Reads` therefore lists them in order, and a line has
the meaning of the first that fits.

Whether a line is allowed depends on the lines before it, and only on what they
declare. A register is known by a line that declares it, so "declared before" is a
statement about the earlier lines of the text (`Declares`), and a text is a good one
if each of its lines is allowed after those that precede it (`IsBody`).

## Main definitions

* `ElementShape`, `InclusionShape`, `DeclarationShape`, `MeasurementShape`,
  `GateShape`, `CommentShape`: The shapes of lines and of their parts.
* `Reads`: The statement of a line, by the first shape that fits.
* `Declares`: Some line declares a register of a given name and size.
* `RefersTo`: An element lies in the register that was declared.
* `Allowed`: A statement may follow given lines.
* `IsBody`: Every line is allowed after those that precede it.
* `HasBody`: The lines of a text that follow its version.
* `Statement.Adds`, `Adds`: The operations that a statement or a line adds to a circuit.
* `Describes`: The circuit of the lines after the version.
-/

namespace QuantumIR

namespace OpenQasm

open Text

/-- The number that the digits of an element denote. -/
def Element.value (e : Element) : Nat :=
  Nat.ofDigitChars 10 e.digits 0

/-! ### Shapes -/

/-- An element: a name and a number in brackets, with spaces between the tokens. -/
inductive ElementShape : Element → List Char → Prop
  | intro {name digits g₁ g₂ g₃ : List Char} (hname : IsIdentifier name)
      (hdigits : IsNumeral digits) (h₁ : IsGap g₁) (h₂ : IsGap g₂) (h₃ : IsGap g₃) :
      ElementShape ⟨String.ofList name, digits⟩
        (name ++ (g₁ ++ '[' :: (g₂ ++ (digits ++ (g₃ ++ [']'])))))

/-- The inclusion of another file. -/
def InclusionShape (line : List Char) : Prop :=
  "include ".toList <+: line

/-- The declaration of a register. -/
inductive DeclarationShape (kind : RegisterKind) (e : Element) : List Char → Prop
  | intro {t g₁ g₂ : List Char} (hne : g₁ ≠ []) (h₁ : IsGap g₁) (ht : ElementShape e t)
      (h₂ : IsGap g₂) :
      DeclarationShape kind e (kind.keyword.toList ++ (g₁ ++ (t ++ (g₂ ++ [';']))))

/-- The measurement of one element into another. -/
inductive MeasurementShape (q r : Element) : List Char → Prop
  | intro {t u g₁ g₂ g₃ g₄ : List Char} (hne : g₁ ≠ []) (h₁ : IsGap g₁) (ht : ElementShape q t)
      (h₂ : IsGap g₂) (h₃ : IsGap g₃) (hu : ElementShape r u) (h₄ : IsGap g₄) :
      MeasurementShape q r
        ("measure".toList ++ (g₁ ++ (t ++ (g₂ ++ ("->".toList ++ (g₃ ++ (u ++ (g₄ ++ [';']))))))))

/-- A name, spaces and arguments up to the only semicolon. The arguments are
    separated by commas, and the blanks around each do not belong to it. -/
inductive GateShape : String → List (List Char) → List Char → Prop
  | intro {name g args : List Char} (hname : IsIdentifier name) (hne : g ≠ []) (hg : IsGap g)
      (hargs : args ≠ []) (hsemicolon : ';' ∉ args) :
      GateShape (String.ofList name) ((args.splitOn ',').map trim)
        (name ++ (g ++ (args ++ [';'])))

/-- A comment with the given text. One space after the slashes does not belong to
    it. -/
inductive CommentShape : List Char → List Char → Prop
  | spaced (text : List Char) : CommentShape text ('/' :: '/' :: ' ' :: text)
  | tight {text : List Char} (h : text.head? ≠ some ' ') : CommentShape text ('/' :: '/' :: text)

/-- The line is blank or a comment. -/
def IsAside (line : List Char) : Prop :=
  line = [] ∨ "//".toList <+: line

/-- The statement of a line: that of the first shape that fits. -/
inductive Reads (line : List Char) : Statement → Prop
  | inclusion (h : InclusionShape line) : Reads line .inclusion
  | declaration {kind : RegisterKind} {e : Element} (hinclusion : ¬ InclusionShape line)
      (h : DeclarationShape kind e line) : Reads line (.declaration kind e)
  | measurement {q r : Element} (hinclusion : ¬ InclusionShape line)
      (hdeclaration : ∀ kind e, ¬ DeclarationShape kind e line) (h : MeasurementShape q r line) :
      Reads line (.measurement q r)
  | gate {name : String} {args : List (List Char)} (hinclusion : ¬ InclusionShape line)
      (hdeclaration : ∀ kind e, ¬ DeclarationShape kind e line)
      (hmeasurement : ∀ q r, ¬ MeasurementShape q r line) (h : GateShape name args line) :
      Reads line (.gate name args)

/-! ### Lines in their place -/

/-- One of the lines declares a register of the given kind, name and size. -/
def Declares (ls : List (List Char)) (kind : RegisterKind) (name : String) (size : Nat) : Prop :=
  ∃ l ∈ ls, ∃ e : Element, Reads l (.declaration kind e) ∧ e.register = name ∧ e.value = size

/-- The element lies in the register of the given kind that the lines declare. -/
def RefersTo (ls : List (List Char)) (kind : RegisterKind) (e : Element) : Prop :=
  ∃ size, Declares ls kind e.register size ∧ e.value < size

/-- The statement may follow the given lines. -/
inductive Allowed (earlier : List (List Char)) : Statement → Prop
  | inclusion : Allowed earlier .inclusion
  | declaration {kind : RegisterKind} {e : Element} (hsize : e.value < Decimal.limit64)
      (hfirst : ∀ name size, ¬ Declares earlier kind name size) :
      Allowed earlier (.declaration kind e)
  | measurement {q r : Element} (hq : RefersTo earlier .quantum q)
      (hr : RefersTo earlier .classical r) : Allowed earlier (.measurement q r)
  | gate {name : String} {args : List (List Char)}
      (h : ∀ arg ∈ args, ∃ e, ElementShape e arg ∧ RefersTo earlier .quantum e) :
      Allowed earlier (.gate name args)

/-- The line may follow the given lines: it is blank, a comment or a statement that
    is allowed there. -/
def Follows (earlier : List (List Char)) (line : List Char) : Prop :=
  IsAside line ∨ ∃ statement, Reads line statement ∧ Allowed earlier statement

/-- Every line may follow those that precede it. -/
def IsBody (ls : List (List Char)) : Prop :=
  ∀ earlier line later, ls = earlier ++ line :: later → Follows earlier line

/-- The lines of a text that follow its version. What precedes the version is blank
    or a comment, and a text in which there is nothing else needs no version. -/
inductive HasBody : List (List Char) → List (List Char) → Prop
  | asides {ls : List (List Char)} (h : ∀ l ∈ ls, IsAside l) : HasBody ls []
  | versioned {before body : List (List Char)} (h : ∀ l ∈ before, IsAside l) :
      HasBody (before ++ version.toList :: body) body

/-! ### Circuits -/

/-- The argument is an element with the given index. -/
def Denotes (arg : List Char) (i : Nat) : Prop :=
  ∃ e, ElementShape e arg ∧ e.value = i

/-- The operations that a statement adds: one for a gate or a measurement, and none
    for anything else. -/
inductive Statement.Adds : Statement → List Operation → Prop
  | inclusion : Adds .inclusion []
  | declaration (kind : RegisterKind) (e : Element) : Adds (.declaration kind e) []
  | measurement (q r : Element) : Adds (.measurement q r) [.measurement q.value r.value]
  | gate (name : String) {args : List (List Char)} {targets : List Nat}
      (h : List.Forall₂ Denotes args targets) : Adds (.gate name args) [.gate name targets]

/-- The operations that a line after the version adds: those of its statement, and
    one for a comment. -/
inductive Adds (line : List Char) : List Operation → Prop
  | blank (h : line = []) : Adds line []
  | comment {text : List Char} (h : CommentShape text line) :
      Adds line [.remark (String.ofList text)]
  | statement {statement : Statement} {ops : List Operation} (h : Reads line statement)
      (hops : statement.Adds ops) : Adds line ops

/-- The size of the register of the given kind, zero if there is none. -/
structure HasSize (ls : List (List Char)) (kind : RegisterKind) (size : Nat) : Prop where
  declared : ∀ name n, Declares ls kind name n → size = n
  undeclared : (∀ name n, ¬ Declares ls kind name n) → size = 0

/-- The circuit that the lines after the version describe: the wires are those of
    the declared registers, and the operations are those of the lines, in order. -/
structure Describes (body : List (List Char)) (c : Circuit) : Prop where
  numQubits : HasSize body .quantum c.numQubits
  numResults : HasSize body .classical c.numResults
  operations : ∃ ops, List.Forall₂ Adds body ops ∧ c.operations.toList = ops.flatten

/-- The lines of a text, without the blanks at their ends. -/
def trimmedLines (text : String) : List (List Char) :=
  (lines text.toList).map trim

end OpenQasm

end QuantumIR
