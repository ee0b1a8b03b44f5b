import QuantumIR.Proofs.Assembly.Moves

/-!
# The Grammar of Assembly

Which texts stand for which functions. The grammar is given as relations between
what is meant and the codes that say it, where a code is a line without its comment
and without the blanks around it. What a line may add to its code is said once and
for all by `Framed`, so the rules themselves are free of blanks and comments.

A function is a header, the lines before the first label, any number of labelled
blocks and a closing brace. Lines before the first label form a block of their own,
named `0`, unless none of them is a call. Between the calls of a block there may be
terminators, which mean nothing here, and the table of a `switch` may go on over any
lines up to the first one that holds a closing bracket.

The rules leave free all that the reader is not meant to look at: the types of
functions and calls, parameters and attributes, the operands of terminators and all
lines outside of functions that do not begin like a definition.

## Main definitions

* `IsInline`, `IsCode`: The code of a line.
* `Framed`: A line with a given code.
* `ArgumentText`: An operand as written in a call.
* `CallText`, `HeaderText`, `TerminatorText`: The codes of single lines.
* `BodyText`, `BlocksText`, `FunctionText`, `ModuleText`: The codes of several lines.
* `IsArgument`, `IsCall`, `IsBlock`, `IsFunction`: What the grammar speaks of.
-/

namespace QuantumIR

namespace Assembly

open Text

/-- The text begins no comment and ends no line. -/
def IsInline (s : String) : Prop :=
  ∀ c ∈ s.toList, c ≠ ';' ∧ c ≠ '\n'

instance (s : String) : Decidable (IsInline s) :=
  List.decidableBAll _ _

/-- The code of a line: it stands without a comment and without outer blanks. -/
structure IsCode (t : String) : Prop where
  inline : IsInline t
  trimmed : trim t.toList = t.toList

/-- Blanks that do not end a line. -/
def IsMargin (s : String) : Prop :=
  ∀ c ∈ s.toList, isBlank c = true ∧ c ≠ '\n'

instance (s : String) : Decidable (IsMargin s) :=
  List.decidableBAll _ _

/-- A line that shows the code between blanks, and may add a comment. -/
inductive Framed (t : String) : String → Prop
  | bare {before after : String} (hbefore : IsMargin before) (hafter : IsMargin after) :
      Framed t (before ++ t ++ after)
  | commented {before after comment : String} (hbefore : IsMargin before) (hafter : IsMargin after)
      (hcomment : '\n' ∉ comment.toList) : Framed t (before ++ t ++ after ++ ";" ++ comment)

/-- The kinds of pointers, by the type they are written with. -/
inductive PointerKind where
  | qubit
  | result
  /-- The kind of the pointer shows only in the call. -/
  | untyped

namespace PointerKind

/-- The type of a pointer. -/
def type : PointerKind → String
  | qubit => "%Qubit*"
  | result => "%Result*"
  | untyped => "ptr"

/-- The operand that a pointer is. -/
def operand : PointerKind → Option Nat → Operand
  | qubit => .qubit
  | result => .result
  | untyped => .pointer

end PointerKind

/-- An operand as written in a call: its type, a space and its value. -/
inductive ArgumentText : Operand → String → Prop
  | null (kind : PointerKind) : ArgumentText (kind.operand (some 0)) (kind.type ++ " " ++ "null")
  | address (kind : PointerKind) {n : Nat} (h : n < Decimal.limit64) :
      ArgumentText (kind.operand (some n))
        (kind.type ++ " " ++ ("inttoptr (i64 " ++ n.repr ++ " to " ++ kind.type ++ ")"))
  | dynamic (kind : PointerKind) {name : String} (h : IsName name) :
      ArgumentText (kind.operand none) (kind.type ++ " " ++ ("%" ++ name))
  | integer {n : Int} (hlow : -(Decimal.limit63 : Int) ≤ n) (hhigh : n < Decimal.limit63) :
      ArgumentText (.integer n) ("i64" ++ " " ++ n.repr)
  | bool (b : Bool) : ArgumentText (.bool b) ("i1" ++ " " ++ if b then "true" else "false")
  | named {type name : String} (htype : type ∈ ["i64", "i1", "double"]) (h : IsName name) :
      ArgumentText (.named name) (type ++ " " ++ ("%" ++ name))

/-- A type, of which only the end must be found. -/
def IsType (s : String) : Prop :=
  IsInline s ∧ '@' ∉ s.toList

instance (s : String) : Decidable (IsType s) :=
  inferInstanceAs (Decidable (_ ∧ _))

/-- The part of a call that binds its value. -/
def bindingText : Option String → String
  | some name => "%" ++ name ++ " = "
  | none => ""

/-- The markers of a call, of which the first is none. -/
def tailMarkers : List String :=
  ["", "tail ", "musttail ", "notail "]

/-- The code of a call. -/
inductive CallText : Instruction → String → Prop
  | intro {output : Option String} {marker type callee suffix : String} {operands : List Operand}
      {args : List String} (houtput : ∀ name ∈ output, IsName name) (hmarker : marker ∈ tailMarkers)
      (htype : IsType type) (hcallee : IsName callee)
      (hargs : List.Forall₂ ArgumentText operands args)
      (hsuffix : suffix = "" ∨ ∃ n : Nat, suffix = " #" ++ n.repr) :
      CallText { opcode := callee, operands := operands, output := output }
        (bindingText output ++ marker ++ ("call " ++ type ++ " @" ++ callee
          ++ "(" ++ ", ".intercalate args ++ ")" ++ suffix))

/-- The code that opens the function with the given name. -/
inductive HeaderText (name : String) : String → Prop
  | intro {type params attributes : String} (hname : IsName name) (htype : IsType type)
      (hparams : IsInline params) (hattributes : IsInline attributes) :
      HeaderText name ("define " ++ type ++ " @" ++ name ++ "(" ++ params ++ ")" ++ attributes
        ++ "\x7b")

/-- The words with which a terminator begins. -/
def terminatorWords : List String :=
  ["br", "ret", "switch", "unreachable", "indirectbr", "resume"]

/-- A code whose first word is the given terminator. -/
structure TerminatorText (word t : String) : Prop where
  terminator : word ∈ terminatorWords
  first : ∃ rest, t.toList = word.toList ++ rest ∧ ∀ c ∈ rest.head?, isBlank c = true
  code : IsCode t

/-- The code of a terminator goes on with a table in the following lines. -/
def GoesOn (word t : String) : Prop :=
  word = "switch" ∧ '[' ∈ t.toList ∧ ']' ∉ t.toList

/-- The codes of lines with the given calls. -/
inductive BodyText : List Instruction → List String → Prop
  | nil : BodyText [] []
  | blank {is : List Instruction} {ts : List String} (hrest : BodyText is ts) :
      BodyText is ("" :: ts)
  | call {i : Instruction} {t : String} {is : List Instruction} {ts : List String}
      (hcall : CallText i t) (hrest : BodyText is ts) : BodyText (i :: is) (t :: ts)
  | terminator {word t : String} {is : List Instruction} {ts : List String}
      (ht : TerminatorText word t) (hends : ¬ GoesOn word t) (hrest : BodyText is ts) :
      BodyText is (t :: ts)
  | table {word t last : String} {rows : List String} {is : List Instruction} {ts : List String}
      (ht : TerminatorText word t) (hgoes : GoesOn word t)
      (hrows : ∀ row ∈ rows, IsCode row ∧ ']' ∉ row.toList) (hlast : IsCode last)
      (hclose : ']' ∈ last.toList) (hrest : BodyText is ts) :
      BodyText is (t :: (rows ++ last :: ts))

/-- The codes of labelled blocks. -/
inductive BlocksText : List Block → List String → Prop
  | nil : BlocksText [] []
  | cons {label : String} {is : List Instruction} {bs : List Block} {ts us : List String}
      (hlabel : IsName label) (hbody : BodyText is ts) (hrest : BlocksText bs us) :
      BlocksText ({ name := label, instructions := is.toArray } :: bs)
        ((label ++ ":") :: (ts ++ us))

/-- The block that calls before the first label form. -/
def entryBlocks : List Instruction → List Block
  | [] => []
  | i :: is => [{ name := "0", instructions := (i :: is).toArray }]

/-- The codes of a function. -/
inductive FunctionText : FunctionDef → List String → Prop
  | intro {name header : String} {is : List Instruction} {bs : List Block} {ts us : List String}
      (hheader : HeaderText name header) (hentry : BodyText is ts) (hblocks : BlocksText bs us) :
      FunctionText { name := name, blocks := (entryBlocks is ++ bs).toArray }
        (header :: (ts ++ us ++ ["\x7d"]))

/-- The codes of a text with the given functions. -/
inductive ModuleText : List FunctionDef → List String → Prop
  | nil : ModuleText [] []
  | outside {t : String} {fs : List FunctionDef} {ts : List String} (hcode : IsCode t)
      (ht : ¬ "define".toList <+: t.toList) (hrest : ModuleText fs ts) : ModuleText fs (t :: ts)
  | function {f : FunctionDef} {fs : List FunctionDef} {ts us : List String}
      (hfunction : FunctionText f ts) (hrest : ModuleText fs us) : ModuleText (f :: fs) (ts ++ us)

/-- The operand can be written in a call. -/
def IsArgument : Operand → Prop
  | .qubit id | .result id | .pointer id => ∀ n ∈ id, n < Decimal.limit64
  | .integer n => -(Decimal.limit63 : Int) ≤ n ∧ n < Decimal.limit63
  | .bool _ => True
  | .named name => IsName name
  | .double _ | .raw _ => False

/-- The instruction can be written as a call. -/
structure IsCall (i : Instruction) : Prop where
  opcode : IsName i.opcode
  operands : ∀ o ∈ i.operands, IsArgument o
  output : ∀ name ∈ i.output, IsName name

/-- The block has a name and holds calls only. -/
structure IsBlock (b : Block) : Prop where
  name : IsName b.name
  instructions : ∀ i ∈ b.instructions.toList, IsCall i

/-- The function has a name and blocks that hold calls only. -/
structure IsFunction (f : FunctionDef) : Prop where
  name : IsName f.name
  blocks : ∀ b ∈ f.blocks.toList, IsBlock b

end Assembly

end QuantumIR
