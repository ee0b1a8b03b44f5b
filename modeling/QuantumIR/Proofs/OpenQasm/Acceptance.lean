import QuantumIR.Proofs.OpenQasm.Moves

/-!
# Which Texts Are Read

A text is read exactly if it is in the grammar, and the circuit that is read is the
one that the grammar describes.

The grammar looks back at the lines before a line; the reader has only its state.
`Tracks` says that a state holds all that matters of the lines before it: which
registers they declare, and the operations they add. It is kept by every line that
is accepted, and in a state that tracks the lines before it a line is accepted
exactly if the grammar allows it there. An index is compared with the size of its
register when the operation is added. That it is in range of the final circuit as
well is due to the order of things: a register has no elements before it is
declared, and is not declared again.

What is read needs no separate comparison. The grammar describes one circuit only,
so it is enough that the one which is read is described.

## Main definitions

* `Continues`: Lines may follow given lines, one after the other.
* `Tracks`: A state holds what matters of the lines before it.
* `Leaves`: The state after the first lines of a text.

## Theorems

* `Tracks.move`, `Tracks.exists_move`: A line that is accepted is allowed, and the
  reverse.
* `Tracks.run`, `Tracks.exists_run`: The same for several lines.
* `leaves_of_run`: The state between two lines tracks those after the version.
* `Describes.unique`: Lines describe one circuit at most.
* `circuit_grammar`: The texts that are read, and the circuits that are read from
  them.
-/

namespace QuantumIR

namespace OpenQasm

open Text

/-! ### States and registers -/

namespace State

variable (s : State) (kind : RegisterKind)

theorem register_push (o : Operation) : (s.push o).register kind = s.register kind := by
  cases kind <;> rfl

theorem size_push (o : Operation) : (s.push o).size kind = s.size kind := by
  cases kind <;> rfl

theorem register_withRegister (kind' : RegisterKind) (name : String) (n : Nat) :
    (s.withRegister kind name n).register kind'
      = if kind' = kind then some name else s.register kind' := by
  cases kind <;> cases kind' <;> rfl

theorem size_withRegister (kind' : RegisterKind) (name : String) (n : Nat) :
    (s.withRegister kind name n).size kind' = if kind' = kind then n else s.size kind' := by
  cases kind <;> cases kind' <;> rfl

theorem operations_withRegister (name : String) (n : Nat) :
    (s.withRegister kind name n).circuit.operations = s.circuit.operations := by
  cases kind <;> rfl

end State

/-- One more line declares what it declares itself. -/
theorem declares_concat {ls : List (List Char)} {l : List Char} {kind : RegisterKind}
    {name : String} {size : Nat} :
    Declares (ls ++ [l]) kind name size
      ↔ Declares ls kind name size
        ∨ ∃ e : Element, Reads l (.declaration kind e) ∧ e.register = name ∧ e.value = size := by
  simp only [Declares, List.mem_append, List.mem_singleton, or_and_right, exists_or, exists_eq_left]

section Registers

variable {earlier : List (List Char)} {s : State} (hdeclares : ∀ kind name size,
  Declares earlier kind name size ↔ s.register kind = some name ∧ s.size kind = size)

include hdeclares

theorem declares_of_knows {kind : RegisterKind} {e : Element} (h : s.Knows kind e) :
    Declares earlier kind e.register (s.size kind) :=
  (hdeclares kind _ _).2 ⟨h.register, rfl⟩

/-- If the registers of a state are those that the lines declare, the targets of a gate
    that are in range come from elements of the register. -/
theorem refersTo_of_targets {args : List (List Char)} {targets : List Nat}
    (hargs : List.Forall₂ s.Resolves args targets)
    (hrange : ∀ t ∈ targets, t < s.circuit.numQubits) :
    ∀ arg ∈ args, ∃ e, ElementShape e arg ∧ RefersTo earlier .quantum e := by
  induction hargs with
  | nil => exact fun _ harg => absurd harg List.not_mem_nil
  | cons hfirst _ ih =>
      rcases hfirst with ⟨e, hshape, hknows, rfl⟩
      rcases List.forall_mem_cons.1 hrange with ⟨hlt, hrest⟩
      refine List.forall_mem_cons.2 ⟨⟨e, hshape, ?_⟩, ih hrest⟩
      exact ⟨_, declares_of_knows hdeclares hknows, hlt⟩

end Registers

/-- The state holds what matters of the lines before it. -/
structure Tracks (earlier : List (List Char)) (s : State) : Prop where
  versioned : s.versioned = true
  registers : ∀ kind name size,
    Declares earlier kind name size ↔ s.register kind = some name ∧ s.size kind = size
  undeclared : ∀ kind, s.register kind = none → s.size kind = 0
  fits : ∀ kind, s.size kind < Decimal.limit64
  operations : ∃ ops, List.Forall₂ Adds earlier ops ∧ s.circuit.operations.toList = ops.flatten
  wellFormed : s.circuit.WellFormed

namespace Tracks

variable {earlier : List (List Char)} {s s' : State} {l : List Char}

theorem start : Tracks [] { versioned := true } where
  versioned := rfl
  registers := by
    intro kind name size
    cases kind <;> simp [Declares, State.register]
  undeclared := by
    intro kind _
    cases kind <;> rfl
  fits := by
    intro kind
    cases kind <;> decide
  operations := ⟨[], .nil, rfl⟩
  wellFormed := by simp [Circuit.WellFormed]

theorem operations_concat (h : Tracks earlier s) {ops : List Operation} (hadds : Adds l ops) :
    ∃ opss, List.Forall₂ Adds (earlier ++ [l]) opss
      ∧ s.circuit.operations.toList ++ ops = opss.flatten := by
  rcases h.operations with ⟨opss, hall, hflat⟩
  refine ⟨opss ++ [ops], List.rel_append hall (.cons hadds .nil), ?_⟩
  rw [hflat, List.flatten_append, List.flatten_singleton]

theorem registers_concat (h : Tracks earlier s)
    (hno : ∀ kind e, ¬ Reads l (.declaration kind e)) (kind : RegisterKind) (name : String)
    (size : Nat) :
    Declares (earlier ++ [l]) kind name size
      ↔ s.register kind = some name ∧ s.size kind = size := by
  rw [declares_concat, ← h.registers]
  exact or_iff_left fun ⟨e, he, _⟩ => hno kind e he

/-- A line that neither declares nor adds anything leaves the state as it is. -/
theorem silent (h : Tracks earlier s) (hno : ∀ kind e, ¬ Reads l (.declaration kind e))
    (hadds : Adds l []) : Tracks (earlier ++ [l]) s where
  versioned := h.versioned
  registers := h.registers_concat hno
  undeclared := h.undeclared
  fits := h.fits
  operations := by
    rcases h.operations_concat hadds with ⟨ops, hall, hflat⟩
    exact ⟨ops, hall, by rw [← hflat, List.append_nil]⟩
  wellFormed := h.wellFormed

/-- A line that adds an operation declares nothing. -/
theorem push (h : Tracks earlier s) (hno : ∀ kind e, ¬ Reads l (.declaration kind e))
    {o : Operation} (hadds : Adds l [o])
    (hrange : o.InRange s.circuit.numQubits s.circuit.numResults) :
    Tracks (earlier ++ [l]) (s.push o) where
  versioned := h.versioned
  registers := by
    intro kind name size
    rw [State.register_push, State.size_push]
    exact h.registers_concat hno kind name size
  undeclared := by
    intro kind
    rw [State.register_push, State.size_push]
    exact h.undeclared kind
  fits := by
    intro kind
    rw [State.size_push]
    exact h.fits kind
  operations := by
    rcases h.operations_concat hadds with ⟨ops, hall, hflat⟩
    exact ⟨ops, hall, by rw [← hflat]; exact Circuit.toList_operations_push _ _⟩
  wellFormed := h.wellFormed.push hrange

/-- A line that declares a register makes it known. The operations before it do not
    refer to the register, so they stay in range. -/
theorem declare (h : Tracks earlier s) {kind : RegisterKind} {e : Element}
    (hread : Reads l (.declaration kind e)) (hsize : e.value < Decimal.limit64)
    (hfirst : s.register kind = none) :
    Tracks (earlier ++ [l]) (s.withRegister kind e.register e.value) where
  versioned := by
    have hversioned := h.versioned
    cases kind <;> exact hversioned
  registers := by
    intro kind' name size
    rw [declares_concat, h.registers, State.register_withRegister, State.size_withRegister]
    by_cases hkind : kind' = kind
    · -- No earlier line declares a register of this kind, so this line is the only one.
      subst hkind
      rw [if_pos rfl, if_pos rfl, hfirst, Option.some.injEq]
      constructor
      · rintro (⟨hnone, -⟩ | ⟨e', he', rfl, rfl⟩)
        · cases hnone
        · cases hread.unique he'
          exact ⟨rfl, rfl⟩
      · rintro ⟨rfl, rfl⟩
        exact .inr ⟨e, hread, rfl, rfl⟩
    · rw [if_neg hkind, if_neg hkind]
      refine or_iff_left ?_
      rintro ⟨e', he', -⟩
      cases hread.unique he'
      exact hkind rfl
  undeclared := by
    intro kind' hnone
    rw [State.register_withRegister] at hnone
    rw [State.size_withRegister]
    by_cases hkind : kind' = kind
    · rw [if_pos hkind] at hnone
      cases hnone
    · rw [if_neg hkind] at hnone ⊢
      exact h.undeclared kind' hnone
  fits := by
    intro kind'
    rw [State.size_withRegister]
    by_cases hkind : kind' = kind
    · rw [if_pos hkind]
      exact hsize
    · rw [if_neg hkind]
      exact h.fits kind'
  operations := by
    rcases h.operations_concat (.statement hread (.declaration kind e)) with ⟨ops, hall, hflat⟩
    refine ⟨ops, hall, ?_⟩
    rw [State.operations_withRegister, ← hflat, List.append_nil]
  wellFormed := by
    have hzero := h.undeclared kind hfirst
    intro o ho
    rw [State.operations_withRegister] at ho
    have hrange := h.wellFormed o ho
    -- The register had no elements before, so its bound can only have grown.
    cases kind with
    | quantum =>
        refine hrange.mono ?_ (Nat.le_refl _)
        rw [show s.circuit.numQubits = 0 from hzero]
        exact Nat.zero_le _
    | classical =>
        refine hrange.mono (Nat.le_refl _) ?_
        rw [show s.circuit.numResults = 0 from hzero]
        exact Nat.zero_le _

theorem register_eq_none_iff (h : Tracks earlier s) {kind : RegisterKind} :
    s.register kind = none ↔ ∀ name size, ¬ Declares earlier kind name size := by
  constructor
  · intro hnone name size hdeclares
    rw [h.registers, hnone] at hdeclares
    cases hdeclares.1
  · intro hno
    rw [Option.eq_none_iff_forall_ne_some]
    exact fun name hname => hno name _ ((h.registers kind name _).2 ⟨hname, rfl⟩)

/-- A known register is one that the lines declare, and an index in it is one that is
    below its size. -/
theorem refersTo_iff (h : Tracks earlier s) {kind : RegisterKind} {e : Element} :
    RefersTo earlier kind e ↔ s.Knows kind e ∧ e.value < s.size kind := by
  constructor
  · rintro ⟨size, hdeclares, hlt⟩
    rcases (h.registers kind e.register size).1 hdeclares with ⟨hregister, rfl⟩
    -- An index below the size fits into 64 bits, since the size does.
    exact ⟨⟨hregister, Nat.lt_trans hlt (h.fits kind)⟩, hlt⟩
  · rintro ⟨hknows, hlt⟩
    exact ⟨_, declares_of_knows h.registers hknows, hlt⟩

theorem exists_targets (h : Tracks earlier s) {args : List (List Char)}
    (hargs : ∀ arg ∈ args, ∃ e, ElementShape e arg ∧ RefersTo earlier .quantum e) :
    ∃ targets, List.Forall₂ s.Resolves args targets
      ∧ ∀ t ∈ targets, t < s.circuit.numQubits := by
  induction args with
  | nil => exact ⟨[], .nil, List.forall_mem_nil _⟩
  | cons arg args ih =>
      rcases List.forall_mem_cons.1 hargs with ⟨⟨e, hshape, hrefers⟩, hrest⟩
      rcases h.refersTo_iff.1 hrefers with ⟨hknows, hlt⟩
      rcases ih hrest with ⟨targets, htargets, hrange⟩
      exact ⟨e.value :: targets, .cons ⟨e, hshape, hknows, rfl⟩ htargets,
        List.forall_mem_cons.2 ⟨hlt, hrange⟩⟩

theorem denotes_targets {args : List (List Char)} {targets : List Nat}
    (hargs : List.Forall₂ s.Resolves args targets) : List.Forall₂ Denotes args targets :=
  hargs.imp fun _ _ ⟨e, hshape, _, hvalue⟩ => ⟨e, hshape, hvalue⟩

/-- A line that is accepted is allowed after the lines before it, and the state goes
    on to track them. -/
theorem move (h : Tracks earlier s) (hmove : Move l s s') :
    Follows earlier l ∧ Tracks (earlier ++ [l]) s' := by
  -- A line that is read as something else declares nothing.
  have hother : ∀ {statement : Statement}, Reads l statement →
      (∀ kind e, statement ≠ .declaration kind e) → ∀ kind e, ¬ Reads l (.declaration kind e) :=
    fun hread hne kind e he => hne kind e (hread.unique he)
  have haside : IsAside l → ∀ kind e, ¬ Reads l (.declaration kind e) :=
    fun hl _ _ hread => hread.not_isAside hl
  cases hmove with
  | blank hl =>
      have hl' : IsAside l := .inl hl
      exact ⟨.inl hl', h.silent (haside hl') (.blank hl)⟩
  -- Comments are dropped, and the version is looked for, only before the version.
  | dropped _ hs =>
      rw [h.versioned] at hs
      cases hs
  | remark hl _ =>
      have hl' : IsAside l := isAside_iff.2 (.inr ⟨_, hl⟩)
      exact ⟨.inl hl', h.push (haside hl') (.comment hl) trivial⟩
  | version _ hs =>
      rw [h.versioned] at hs
      cases hs
  | silent hread _ heffect =>
      cases heffect with
      | inclusion =>
          exact ⟨.inr ⟨_, hread, .inclusion⟩,
            h.silent (hother hread nofun) (.statement hread .inclusion)⟩
      | @declaration kind e hsize hfirst =>
          have hallowed : Allowed earlier (.declaration kind e) :=
            .declaration hsize (h.register_eq_none_iff.1 hfirst)
          exact ⟨.inr ⟨_, hread, hallowed⟩, h.declare hread hsize hfirst⟩
  | operation hread _ heffect hrange =>
      cases heffect with
      | measurement hq hr =>
          have hallowed : Allowed earlier (.measurement _ _) :=
            .measurement (h.refersTo_iff.2 ⟨hq, hrange.1⟩) (h.refersTo_iff.2 ⟨hr, hrange.2⟩)
          exact ⟨.inr ⟨_, hread, hallowed⟩,
            h.push (hother hread nofun) (.statement hread (.measurement _ _)) hrange⟩
      | gate name hargs =>
          have hallowed : Allowed earlier (.gate name _) :=
            .gate (refersTo_of_targets h.registers hargs hrange)
          exact ⟨.inr ⟨_, hread, hallowed⟩,
            h.push (hother hread nofun) (.statement hread (.gate name (denotes_targets hargs)))
              hrange⟩

/-- A line that is allowed after the lines before it is accepted. -/
theorem exists_move (h : Tracks earlier s) (hl : Follows earlier l) : ∃ s', Move l s s' := by
  rcases hl with haside | ⟨statement, hread, hallowed⟩
  · rcases isAside_iff.1 haside with hblank | ⟨text, htext⟩
    · exact ⟨s, .blank hblank⟩
    · exact ⟨_, .remark htext h.versioned⟩
  cases hallowed with
  | inclusion => exact ⟨s, .silent hread h.versioned .inclusion⟩
  | declaration hsize hfirst =>
      have hnone := h.register_eq_none_iff.2 hfirst
      exact ⟨_, .silent hread h.versioned (.declaration hsize hnone)⟩
  | measurement hq hr =>
      rcases h.refersTo_iff.1 hq with ⟨hq, hltq⟩
      rcases h.refersTo_iff.1 hr with ⟨hr, hltr⟩
      exact ⟨_, .operation hread h.versioned (.measurement hq hr) ⟨hltq, hltr⟩⟩
  | @gate name args hargs =>
      rcases h.exists_targets hargs with ⟨targets, htargets, hrange⟩
      exact ⟨_, .operation hread h.versioned (.gate name htargets) hrange⟩

end Tracks

/-! ### Runs -/

/-- The lines may follow the given lines, one after the other. -/
def Continues (earlier ls : List (List Char)) : Prop :=
  ∀ before line after, ls = before ++ line :: after → Follows (earlier ++ before) line

theorem continues_nil (earlier : List (List Char)) : Continues earlier [] :=
  fun before line after h => absurd h.symm (by simp)

theorem continues_cons {earlier ls : List (List Char)} {l : List Char} :
    Continues earlier (l :: ls) ↔ Follows earlier l ∧ Continues (earlier ++ [l]) ls := by
  constructor
  · intro h
    refine ⟨?_, ?_⟩
    · have hfirst := h [] l ls rfl
      rwa [List.append_nil] at hfirst
    · intro before line after hls
      have hrest := h (l :: before) line after (by rw [hls, List.cons_append])
      rwa [List.append_assoc, List.singleton_append]
  · rintro ⟨hfirst, hrest⟩ before line after hls
    rcases before with _ | ⟨b, before⟩
    · cases hls
      rwa [List.append_nil]
    · rw [List.cons_append, List.cons.injEq] at hls
      rcases hls with ⟨rfl, hls⟩
      have hline := hrest before line after hls
      rwa [List.append_assoc, List.singleton_append] at hline

theorem run_cons_eq_ok_iff {n : Nat} {l : List Char} {ls : List (List Char)} {s s' : State} :
    run n (l :: ls) s = .ok s' ↔ ∃ t, Move (trim l) s t ∧ run (n + 1) ls t = .ok s' := by
  rw [run]
  constructor
  · intro h
    split at h
    · rename_i t hstep
      exact ⟨t, move_of_step hstep, h⟩
    · cases h
  · rintro ⟨t, hmove, hrest⟩
    rw [step_of_move hmove n]
    exact hrest

namespace Tracks

variable {earlier ls : List (List Char)} {s s' : State} {n : Nat}

/-- Lines that are accepted are allowed in their places. -/
theorem run (h : Tracks earlier s) (hrun : OpenQasm.run n ls s = .ok s') :
    Continues earlier (ls.map trim) ∧ Tracks (earlier ++ ls.map trim) s' := by
  induction ls generalizing earlier s n with
  | nil =>
      rw [OpenQasm.run, Except.ok.injEq] at hrun
      rw [← hrun, List.map_nil, List.append_nil]
      exact ⟨continues_nil earlier, h⟩
  | cons l ls ih =>
      rcases run_cons_eq_ok_iff.1 hrun with ⟨t, hmove, hrest⟩
      rcases h.move hmove with ⟨hfollows, hnext⟩
      rcases ih hnext hrest with ⟨hcontinues, hfinal⟩
      rw [List.append_assoc, List.singleton_append] at hfinal
      exact ⟨continues_cons.2 ⟨hfollows, hcontinues⟩, hfinal⟩

/-- Lines that are allowed in their places are accepted. -/
theorem exists_run (h : Tracks earlier s) (hls : Continues earlier (ls.map trim)) :
    ∃ s', OpenQasm.run n ls s = .ok s' := by
  induction ls generalizing earlier s n with
  | nil => exact ⟨s, rfl⟩
  | cons l ls ih =>
      rcases continues_cons.1 hls with ⟨hfollows, hcontinues⟩
      rcases h.exists_move hfollows with ⟨t, hmove⟩
      rcases ih (h.move hmove).2 hcontinues (n := n + 1) with ⟨s', hrun⟩
      exact ⟨s', run_cons_eq_ok_iff.2 ⟨t, hmove, hrun⟩⟩

theorem hasSize (h : Tracks earlier s) (kind : RegisterKind) :
    HasSize earlier kind (s.size kind) where
  declared := fun name size hsize => ((h.registers kind name size).1 hsize).2
  undeclared := fun hnone => h.undeclared kind (h.register_eq_none_iff.2 hnone)

/-- What a state tracks is what the lines describe. -/
theorem describes (h : Tracks earlier s) : Describes earlier s.circuit where
  numQubits := h.hasSize .quantum
  numResults := h.hasSize .classical
  operations := h.operations

end Tracks

theorem HasSize.unique {ls : List (List Char)} {kind : RegisterKind} {m n : Nat}
    (hm : HasSize ls kind m) (hn : HasSize ls kind n) : m = n := by
  by_cases h : ∃ name size, Declares ls kind name size
  · rcases h with ⟨name, size, h⟩
    rw [hm.declared name size h, hn.declared name size h]
  · have hnone : ∀ name size, ¬ Declares ls kind name size :=
      fun name size hsize => h ⟨name, size, hsize⟩
    rw [hm.undeclared hnone, hn.undeclared hnone]

/-- Lines describe one circuit at most. -/
theorem Describes.unique {body : List (List Char)} {c c' : Circuit} (h : Describes body c)
    (h' : Describes body c') : c = c' := by
  -- A line adds one list of operations only, so the lists agree line by line.
  have hunique : Relator.RightUnique Adds := fun _ _ _ => Adds.unique
  rcases h.operations with ⟨ops, hall, hops⟩
  rcases h'.operations with ⟨ops', hall', hops'⟩
  rw [← List.right_unique_forall₂' hunique hall hall', ← hops, Array.toList_inj] at hops'
  rcases c with ⟨nq, nr, operations⟩
  rcases c' with ⟨nq', nr', operations'⟩
  rw [Circuit.mk.injEq]
  exact ⟨h.numQubits.unique h'.numQubits, h.numResults.unique h'.numResults, hops'.symm⟩

/-! ### Texts -/

theorem move_aside {l : List Char} (h : IsAside l) : Move l {} {} := by
  rcases isAside_iff.1 h with hblank | ⟨text, htext⟩
  · exact .blank hblank
  · exact .dropped htext rfl

/-- What lines leave of the initial state: asides leave it as it is, and with the version
    the state begins to track the lines that follow. -/
inductive Leaves : List (List Char) → State → Prop
  | asides {ls : List (List Char)} (h : ∀ l ∈ ls, IsAside l) : Leaves ls {}
  | versioned {before body : List (List Char)} {s : State} (h : ∀ l ∈ before, IsAside l)
      (hbody : IsBody body) (htracks : Tracks body s) :
      Leaves (before ++ version.toList :: body) s

theorem Leaves.cons {l : List Char} {ls : List (List Char)} {s : State} (hl : IsAside l)
    (h : Leaves ls s) : Leaves (l :: ls) s := by
  cases h with
  | asides h => exact .asides (List.forall_mem_cons.2 ⟨hl, h⟩)
  | @versioned before _ _ h hbody htracks =>
      have hall : ∀ l' ∈ l :: before, IsAside l' := List.forall_mem_cons.2 ⟨hl, h⟩
      exact .versioned hall hbody htracks

/-- Lines that are read leave such a state. -/
theorem leaves_of_run {n : Nat} {ls : List (List Char)} {s : State} (h : run n ls {} = .ok s) :
    Leaves (ls.map trim) s := by
  -- Asides leave the initial state as it is, so the induction stays in it until the
  -- version is met.
  induction ls generalizing n with
  | nil =>
      cases h
      exact .asides (List.forall_mem_nil _)
  | cons l ls ih =>
      rcases run_cons_eq_ok_iff.1 h with ⟨t, hmove, hrest⟩
      cases hmove with
      | blank hl => exact (ih hrest).cons (.inl hl)
      | dropped hl _ => exact (ih hrest).cons (isAside_iff.2 (.inr ⟨_, hl⟩))
      | version hl _ =>
          -- All lines after this one are the body.
          rcases Tracks.start.run hrest with ⟨hcontinues, hfinal⟩
          have hnone : ∀ l' ∈ ([] : List (List Char)), IsAside l' := List.forall_mem_nil _
          rw [List.map_cons, hl]
          exact .versioned hnone hcontinues hfinal
      | remark _ hs => cases hs
      | silent _ hs _ => cases hs
      | operation _ hs _ _ => cases hs

/-- A text that is read has a body, and each line of it may follow those that precede
    it. -/
theorem exists_body_of_run {n : Nat} {ls : List (List Char)} {s : State}
    (h : run n ls {} = .ok s) :
    ∃ body t, HasBody (ls.map trim) body ∧ IsBody body ∧ Tracks body t ∧ t.circuit = s.circuit := by
  have hleaves := leaves_of_run h
  generalize ls.map trim = trimmed at hleaves ⊢
  cases hleaves with
  | asides hls => exact ⟨[], _, .asides hls, continues_nil [], .start, rfl⟩
  | versioned hbefore hbody htracks => exact ⟨_, s, .versioned hbefore, hbody, htracks, rfl⟩

/-- Asides before the version leave no trace but in the numbers of the lines. -/
theorem run_of_asides {before : List (List Char)} (h : ∀ l ∈ before.map trim, IsAside l) (n : Nat)
    (ls : List (List Char)) : ∃ m, run n (before ++ ls) {} = run m ls {} := by
  induction before generalizing n with
  | nil => exact ⟨n, rfl⟩
  | cons l before ih =>
      rw [List.map_cons, List.forall_mem_cons] at h
      rcases ih h.2 (n + 1) with ⟨m, hm⟩
      refine ⟨m, ?_⟩
      rw [List.cons_append, run, step_of_move (move_aside h.1)]
      exact hm

/-- A text that has a body is read if every line of the body may follow those that
    precede it. -/
theorem exists_run_of_hasBody {ls body : List (List Char)} (hls : HasBody (ls.map trim) body)
    (hbody : IsBody body) (n : Nat) :
    ∃ s t, run n ls {} = .ok s ∧ Tracks body t ∧ t.circuit = s.circuit := by
  generalize htrimmed : ls.map trim = trimmed at hls
  cases hls with
  | asides h =>
      rw [← htrimmed] at h
      rcases run_of_asides h n [] with ⟨m, hm⟩
      rw [List.append_nil] at hm
      exact ⟨{}, _, hm, .start, rfl⟩
  | versioned h =>
      rcases List.map_eq_append_iff.1 htrimmed with ⟨before, rest, rfl, rfl, hrest⟩
      rcases List.map_eq_cons_iff.1 hrest with ⟨l, after, rfl, hl, rfl⟩
      rcases run_of_asides h n (l :: after) with ⟨m, hm⟩
      rcases Tracks.start.exists_run hbody (n := m + 1) with ⟨s, hs⟩
      have htracks := (Tracks.start.run hs).2
      refine ⟨s, s, ?_, htracks, rfl⟩
      rw [hm]
      exact run_cons_eq_ok_iff.2 ⟨_, .version hl rfl, hs⟩

theorem circuit_eq_ok_iff_run {text : String} {c : Circuit} :
    circuit text = .ok c ↔ ∃ s, run 1 (lines text.toList) {} = .ok s ∧ s.circuit = c := by
  rw [circuit]
  cases run 1 (lines text.toList) {} with
  | error e => simp [Except.map]
  | ok s => simp [Except.map]

theorem exists_body_of_circuit {text : String} {c : Circuit} (h : circuit text = .ok c) :
    ∃ body, HasBody (trimmedLines text) body ∧ IsBody body ∧ Describes body c ∧ c.WellFormed := by
  rcases circuit_eq_ok_iff_run.1 h with ⟨s, hrun, rfl⟩
  rcases exists_body_of_run hrun with ⟨body, t, hhas, hbody, htracks, hcircuit⟩
  rw [← hcircuit]
  exact ⟨body, hhas, hbody, htracks.describes, htracks.wellFormed⟩

theorem exists_circuit_of_hasBody {text : String} {body : List (List Char)}
    (h : HasBody (trimmedLines text) body) (hbody : IsBody body) :
    ∃ c, circuit text = .ok c ∧ Describes body c := by
  rcases exists_run_of_hasBody h hbody 1 with ⟨s, t, hrun, htracks, hcircuit⟩
  refine ⟨s.circuit, circuit_eq_ok_iff_run.2 ⟨s, hrun, rfl⟩, ?_⟩
  rw [← hcircuit]
  exact htracks.describes

/-- **The reader accepts the texts of the grammar and no others.** A text is read
    exactly if all of its lines are asides, or asides precede the version and every
    line after it may follow those before it. The circuit is then the one that these
    lines describe, and all its wires are in range. -/
theorem circuit_grammar (text : String) :
    ((∃ c, circuit text = .ok c) ↔ ∃ body, HasBody (trimmedLines text) body ∧ IsBody body)
    ∧ ∀ c, (circuit text = .ok c
          ↔ ∃ body, HasBody (trimmedLines text) body ∧ IsBody body ∧ Describes body c)
        ∧ (circuit text = .ok c → c.WellFormed) := by
  have hreads : ∀ c, circuit text = .ok c
      ↔ ∃ body, HasBody (trimmedLines text) body ∧ IsBody body ∧ Describes body c := by
    intro c
    constructor
    · intro h
      rcases exists_body_of_circuit h with ⟨body, hhas, hbody, hdescribes, _⟩
      exact ⟨body, hhas, hbody, hdescribes⟩
    · rintro ⟨body, hhas, hbody, hdescribes⟩
      rcases exists_circuit_of_hasBody hhas hbody with ⟨c', hc', hdescribes'⟩
      rwa [hdescribes.unique hdescribes']
  refine ⟨⟨?_, ?_⟩, fun c => ⟨hreads c, ?_⟩⟩
  · rintro ⟨c, hc⟩
    rcases (hreads c).1 hc with ⟨body, hhas, hbody, _⟩
    exact ⟨body, hhas, hbody⟩
  · rintro ⟨body, hhas, hbody⟩
    rcases exists_circuit_of_hasBody hhas hbody with ⟨c, hc, _⟩
    exact ⟨c, hc⟩
  · intro hc
    rcases exists_body_of_circuit hc with ⟨_, _, _, _, hwell⟩
    exact hwell

/-- Spaces of all kinds, a leading zero, and comments on both sides of the version. -/
def spacedText : String :=
  "\n".intercalate ["// ahead", "", "OPENQASM 2.0;", "include \"qelib1.inc\";", "qreg\tq [ 02 ] ;",
    "creg c[1];", "  cx q[0],\u00a0q [1];\r", "//  note", "measure q[1]->c[0];"]

/-- The circuit of a text without regular spacing is that of the grammar, and a gate
    before the declaration of its register is none. -/
theorem circuit_grammar_spacedText :
    (∃ body, HasBody (trimmedLines spacedText) body ∧ IsBody body
      ∧ Describes body ⟨2, 1, #[.gate "cx" [0, 1], .remark " note", .measurement 1 0]⟩)
    ∧ ¬ ∃ body, HasBody (trimmedLines "OPENQASM 2.0;\nx q[0];\nqreg q[1];") body
      ∧ IsBody body := by
  refine ⟨((circuit_grammar _).2 _).1.1 (by decide +kernel), mt (circuit_grammar _).1.2 ?_⟩
  have herror : circuit "OPENQASM 2.0;\nx q[0];\nqreg q[1];"
      = .error (.malformed 2 (.undeclaredRegister "q")) := by
    decide +kernel
  rintro ⟨c, hc⟩
  rw [herror] at hc
  cases hc

end OpenQasm

end QuantumIR
