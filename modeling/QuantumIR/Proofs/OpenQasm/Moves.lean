import QuantumIR.Proofs.Circuit.Range
import QuantumIR.Proofs.OpenQasm.Recognition

/-!
# What a Line of OpenQASM Can Do

The reader decides about a line in several layers: what it is, what its statement
says in the present state, and whether the circuit takes the operation. `Move` puts
them together. It lists the ways in which a line changes the state, each with all
conditions under which it does so, and a line is accepted exactly if it makes one of
these moves. What is wrong with a line that makes none is of no interest here.

The two registers are treated alike, so a kind of register selects its name and its
size in a state.

## Main definitions

* `State.register`, `State.size`: Name and size of the register of a kind.
* `State.withRegister`: The state after a declaration.
* `State.Knows`: An element lies in a register that is declared.
* `State.Resolves`: An argument of a gate stands for a qubit.
* `State.Interprets`: The effect of a statement, and the operation it stands for.
* `Move`: The effect of a line that is accepted.

## Theorems

* `index_eq_ok_iff`, `resolve_eq_ok_iff`, `arguments_eq_ok_iff`: When an index, an
  element or a list of arguments is understood.
* `State.interpret_eq_ok_iff`: When a statement is.
* `move_of_step`, `step_of_move`: A line is accepted exactly if it makes a move.
-/

namespace QuantumIR

namespace OpenQasm

open Text

namespace State

/-- The name of the register of the given kind, once declared. -/
def register (s : State) : RegisterKind → Option String
  | .quantum => s.quantum
  | .classical => s.classical

/-- The number of elements of the register of the given kind. -/
def size (s : State) : RegisterKind → Nat
  | .quantum => s.circuit.numQubits
  | .classical => s.circuit.numResults

/-- The state after a register has been declared. -/
def withRegister (s : State) (kind : RegisterKind) (name : String) (size : Nat) : State :=
  match kind with
  | .quantum => { s with quantum := some name, circuit := { s.circuit with numQubits := size } }
  | .classical =>
    { s with classical := some name, circuit := { s.circuit with numResults := size } }

/-- The state after an operation has been added. -/
def push (s : State) (o : Operation) : State :=
  { s with circuit := s.circuit.push o }

/-- The element lies in the register of the given kind that is declared, and its
    number fits into 64 bits. -/
structure Knows (s : State) (kind : RegisterKind) (e : Element) : Prop where
  register : s.register kind = some e.register
  fits : e.value < Decimal.limit64

/-- The argument of a gate is an element of the quantum register, with the given
    number. -/
def Resolves (s : State) (arg : List Char) (i : Nat) : Prop :=
  ∃ e, ElementShape e arg ∧ s.Knows .quantum e ∧ e.value = i

/-- What a statement says: the state after it, and the operation that it stands for,
    if any. -/
inductive Interprets (s : State) : Statement → State → Option Operation → Prop
  | inclusion : Interprets s .inclusion s none
  | declaration {kind : RegisterKind} {e : Element} (hsize : e.value < Decimal.limit64)
      (hfirst : s.register kind = none) :
      Interprets s (.declaration kind e) (s.withRegister kind e.register e.value) none
  | measurement {q r : Element} (hq : s.Knows .quantum q) (hr : s.Knows .classical r) :
      Interprets s (.measurement q r) s (some (.measurement q.value r.value))
  | gate (name : String) {args : List (List Char)} {targets : List Nat}
      (h : List.Forall₂ s.Resolves args targets) :
      Interprets s (.gate name args) s (some (.gate name targets))

end State

/-- The effect of a line that is accepted. -/
inductive Move (line : List Char) (s : State) : State → Prop
  | blank (h : line = []) : Move line s s
  | dropped {text : List Char} (h : CommentShape text line) (hs : s.versioned = false) :
      Move line s s
  | remark {text : List Char} (h : CommentShape text line) (hs : s.versioned = true) :
      Move line s (s.push (.remark (String.ofList text)))
  | version (h : line = version.toList) (hs : s.versioned = false) :
      Move line s { s with versioned := true }
  | silent {statement : Statement} {s' : State} (h : Reads line statement)
      (hs : s.versioned = true) (heffect : s.Interprets statement s' none) : Move line s s'
  | operation {statement : Statement} {s' : State} {o : Operation} (h : Reads line statement)
      (hs : s.versioned = true) (heffect : s.Interprets statement s' (some o))
      (hrange : o.InRange s'.circuit.numQubits s'.circuit.numResults) : Move line s (s'.push o)

/-! ### Elements -/

theorem ElementShape.isNumeral {e : Element} {t : List Char} (h : ElementShape e t) :
    IsNumeral e.digits := by
  rcases h with ⟨-, hdigits, -, -, -⟩
  exact hdigits

theorem index_eq_ok_iff {digits : List Char} (h : IsNumeral digits) {n : Nat} :
    index digits = .ok n ↔ Nat.ofDigitChars 10 digits 0 = n ∧ n < Decimal.limit64 := by
  rw [← Decimal.unsigned64?_eq_some_iff h, index]
  cases Decimal.unsigned64? digits with
  | none => simp
  | some m => simp

theorem resolve_eq_ok_iff {declared : Option String} {e : Element} (h : IsNumeral e.digits)
    {i : Nat} :
    resolve declared e = .ok i
      ↔ declared = some e.register ∧ e.value = i ∧ i < Decimal.limit64 := by
  rw [resolve]
  by_cases hdeclared : declared = some e.register
  · rw [if_pos hdeclared, index_eq_ok_iff h, Element.value]
    exact ⟨fun hi => ⟨hdeclared, hi⟩, fun hi => hi.2⟩
  · rw [if_neg hdeclared]
    exact ⟨nofun, fun hi => absurd hi.1 hdeclared⟩

theorem argument_eq_ok_iff {s : State} {arg : List Char} {i : Nat} :
    argument s.quantum arg = .ok i ↔ s.Resolves arg i := by
  rw [argument]
  constructor
  · intro h
    split at h
    · -- Nothing may be left behind the element, so it is the whole argument.
      rename_i e hcut
      rcases element?_eq_some_iff.1 hcut with ⟨t, htext, ht⟩
      rw [List.append_nil] at htext
      rcases (resolve_eq_ok_iff ht.isNumeral).1 h with ⟨hdeclared, rfl, hfits⟩
      exact ⟨e, htext ▸ ht, ⟨hdeclared, hfits⟩, rfl⟩
    · cases h
  · rintro ⟨e, ht, hknows, rfl⟩
    rw [element?_eq_some_iff.2 ⟨arg, (List.append_nil arg).symm, ht⟩]
    exact (resolve_eq_ok_iff ht.isNumeral).2 ⟨hknows.register, rfl, hknows.fits⟩

/-- Arguments are understood one by one. -/
theorem arguments_eq_ok_iff {s : State} {args : List (List Char)} {targets : List Nat} :
    arguments s.quantum args = .ok targets ↔ List.Forall₂ s.Resolves args targets := by
  induction args generalizing targets with
  | nil =>
      rw [arguments, Except.ok.injEq, List.forall₂_nil_left_iff]
      exact eq_comm
  | cons arg args ih =>
      rw [arguments, List.forall₂_cons_left_iff]
      simp only [← ih, ← argument_eq_ok_iff]
      cases argument s.quantum arg with
      | error fault => simp
      | ok i =>
          cases arguments s.quantum args with
          | error fault => simp [Except.map]
          | ok is => simp [Except.map, eq_comm]

/-! ### Statements -/

theorem State.declare_eq_ok_iff {s s' : State} {kind : RegisterKind} {name : String} {size : Nat} :
    s.declare kind name size = .ok s'
      ↔ s.register kind = none ∧ s' = s.withRegister kind name size := by
  cases kind with
  | quantum =>
      cases h : s.quantum with
      | none => simp [declare, register, withRegister, h, eq_comm]
      | some other => simp [declare, register, h]
  | classical =>
      cases h : s.classical with
      | none => simp [declare, register, withRegister, h, eq_comm]
      | some other => simp [declare, register, h]

theorem bind_eq_ok_iff {ε α β : Type} {x : Except ε α} {f : α → Except ε β} {b : β} :
    x >>= f = .ok b ↔ ∃ a, x = .ok a ∧ f a = .ok b := by
  cases x with
  | error err => simp [bind, Except.bind]
  | ok a => simp [bind, Except.bind]

/-- A statement of a line is understood exactly if it says something. -/
theorem State.interpret_eq_ok_iff {s s' : State} {statement : Statement} {o : Option Operation}
    {line : List Char} (h : Reads line statement) :
    s.interpret statement = .ok (s', o) ↔ s.Interprets statement s' o := by
  -- As the statement comes from a line, its numbers are numerals, and what is left to
  -- refuse is their size.
  cases h with
  | inclusion h =>
      constructor
      · intro heffect
        cases heffect
        exact .inclusion
      · intro heffect
        cases heffect
        rfl
  | declaration _ h =>
      rcases h with ⟨-, -, ht, -⟩
      simp only [interpret, bind_eq_ok_iff, index_eq_ok_iff ht.isNumeral, declare_eq_ok_iff]
      constructor
      · rintro ⟨_, ⟨rfl, hsize⟩, _, ⟨hfirst, rfl⟩, hfinal⟩
        cases hfinal
        exact .declaration hsize hfirst
      · intro heffect
        cases heffect with
        | declaration hsize hfirst => exact ⟨_, ⟨rfl, hsize⟩, _, ⟨hfirst, rfl⟩, rfl⟩
  | measurement _ _ h =>
      rcases h with ⟨-, -, ht, -, -, hu, -⟩
      simp only [interpret, bind_eq_ok_iff, resolve_eq_ok_iff ht.isNumeral,
        resolve_eq_ok_iff hu.isNumeral]
      constructor
      · rintro ⟨_, ⟨hq, rfl, hfq⟩, _, ⟨hr, rfl, hfr⟩, hfinal⟩
        cases hfinal
        exact .measurement ⟨hq, hfq⟩ ⟨hr, hfr⟩
      · intro heffect
        cases heffect with
        | measurement hq hr =>
            exact ⟨_, ⟨hq.register, rfl, hq.fits⟩, _, ⟨hr.register, rfl, hr.fits⟩, rfl⟩
  | gate _ _ _ h =>
      simp only [interpret, bind_eq_ok_iff, arguments_eq_ok_iff]
      constructor
      · rintro ⟨targets, htargets, hfinal⟩
        cases hfinal
        exact .gate _ htargets
      · intro heffect
        cases heffect with
        | gate _ htargets => exact ⟨_, htargets, rfl⟩

/-! ### Lines -/

theorem State.read_comment_eq {s : State} {line text : List Char} (h : CommentShape text line) :
    s.read line
      = .ok (s, if s.versioned then some (.remark (String.ofList text)) else none) := by
  have hne : line ≠ [] := by
    rintro rfl
    cases h
  rw [read, if_neg (by simpa using hne), comment?_eq_some_iff.2 h]

theorem comment?_of_not_isAside {line : List Char} (h : ¬ IsAside line) :
    comment? line = none := by
  rw [Option.eq_none_iff_forall_ne_some]
  exact fun text htext => h (isAside_iff.2 (.inr ⟨text, comment?_eq_some_iff.1 htext⟩))

theorem isEmpty_of_not_isAside {line : List Char} (h : ¬ IsAside line) :
    ¬ line.isEmpty = true :=
  fun hempty => h (.inl (List.isEmpty_iff.1 hempty))

theorem State.read_of_not_isAside {s s' : State} {line : List Char} {o : Option Operation}
    (h : ¬ IsAside line) :
    s.read line = .ok (s', o)
      ↔ (s.versioned = true ∧ ∃ statement, Reads line statement ∧ s.Interprets statement s' o)
        ∨ (s.versioned = false ∧ line = version.toList ∧ s' = { s with versioned := true }
          ∧ o = none) := by
  rw [read, if_neg (isEmpty_of_not_isAside h), comment?_of_not_isAside h]
  -- Before the version nothing else is accepted, and after it the version is a
  -- statement like any other.
  cases hs : s.versioned with
  | true =>
      simp only [if_true, true_and, Bool.true_eq_false, false_and, or_false]
      cases hparse : Statement.parse? line with
      | none =>
          refine ⟨nofun, ?_⟩
          rintro ⟨statement, hread, -⟩
          rw [Statement.parse?_eq_some_iff.2 hread] at hparse
          cases hparse
      | some statement =>
          have hread := Statement.parse?_eq_some_iff.1 hparse
          simp only [interpret_eq_ok_iff hread]
          refine ⟨fun heffect => ⟨statement, hread, heffect⟩, ?_⟩
          rintro ⟨other, hother, heffect⟩
          rwa [hread.unique hother]
  | false =>
      by_cases hversion : line = version.toList
      · simp [hversion, eq_comm]
      · simp [hversion]

theorem step_eq_ok_iff_read {n : Nat} {l : List Char} {s s' : State} :
    step n l s = .ok s'
      ↔ s.read (trim l) = .ok (s', none)
        ∨ ∃ t o, s.read (trim l) = .ok (t, some o)
          ∧ o.InRange t.circuit.numQubits t.circuit.numResults ∧ s' = t.push o := by
  rw [step]
  rcases s.read (trim l) with fault | ⟨t, _ | o⟩
  · simp
  · simp
  · simp only [Except.ok.injEq, Prod.mk.injEq, reduceCtorEq, and_false, false_or,
      Option.some.injEq]
    -- An operation can still be refused, over its wires.
    constructor
    · intro h
      split at h
      · rename_i c hadd
        rcases Circuit.result_add_eq_ok_iff.1 hadd with ⟨hrange, rfl⟩
        cases h
        exact ⟨t, o, ⟨rfl, rfl⟩, hrange, rfl⟩
      · cases h
    · rintro ⟨_, _, ⟨rfl, rfl⟩, hrange, rfl⟩
      rw [Circuit.result_add_eq_ok_iff.2 ⟨hrange, rfl⟩]
      rfl

/-- A line that is accepted makes a move. -/
theorem move_of_step {n : Nat} {l : List Char} {s s' : State} (h : step n l s = .ok s') :
    Move (trim l) s s' := by
  rw [step_eq_ok_iff_read] at h
  by_cases haside : IsAside (trim l)
  · rcases isAside_iff.1 haside with hblank | ⟨text, htext⟩
    · rw [hblank, show s.read [] = .ok (s, none) from rfl] at h
      rcases h with h | ⟨t, o, h, -⟩
      · cases h
        exact .blank hblank
      · cases h
    · rw [State.read_comment_eq htext] at h
      cases hs : s.versioned with
      | true =>
          rw [hs] at h
          rcases h with h | ⟨t, o, h, -, rfl⟩
          · cases h
          · cases h
            exact .remark htext hs
      | false =>
          rw [hs] at h
          rcases h with h | ⟨t, o, h, -⟩
          · cases h
            exact .dropped htext hs
          · cases h
  · -- A statement or the version, with an operation to add or without one. The version
    -- comes without.
    simp only [State.read_of_not_isAside haside] at h
    rcases h with (⟨hs, statement, hread, heffect⟩ | ⟨hs, hversion, rfl, -⟩)
      | ⟨t, o, ⟨hs, statement, hread, heffect⟩ | ⟨-, -, -, ho⟩, hrange, rfl⟩
    · exact .silent hread hs heffect
    · exact .version hversion hs
    · exact .operation hread hs heffect hrange
    · cases ho

/-- A line that makes a move is accepted. -/
theorem step_of_move {l : List Char} {s s' : State} (h : Move (trim l) s s') (n : Nat) :
    step n l s = .ok s' := by
  rw [step_eq_ok_iff_read]
  cases h with
  | blank h =>
      rw [h]
      exact .inl rfl
  | dropped h hs =>
      rw [State.read_comment_eq h, hs]
      exact .inl rfl
  | remark h hs =>
      rw [State.read_comment_eq h, hs]
      exact .inr ⟨s, _, rfl, trivial, rfl⟩
  | version h hs =>
      have haside : ¬ IsAside (trim l) := by
        rw [h, IsAside]
        decide
      exact .inl ((State.read_of_not_isAside haside).2 (.inr ⟨hs, h, rfl, rfl⟩))
  | silent h hs heffect =>
      exact .inl ((State.read_of_not_isAside h.not_isAside).2 (.inl ⟨hs, _, h, heffect⟩))
  | operation h hs heffect hrange =>
      exact .inr ⟨_, _, (State.read_of_not_isAside h.not_isAside).2 (.inl ⟨hs, _, h, heffect⟩),
        hrange, rfl⟩

end OpenQasm

end QuantumIR
