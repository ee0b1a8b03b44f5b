import Mathlib.Data.List.Permutation
import QuantumIR.Artifact
import QuantumIR.Proofs.Emission.Invariant
import QuantumIR.Proofs.OpenQasm.Keywords

/-!
# Printed Circuits

The printed form of a circuit determines the circuit. Nothing reads this form back, so
this is shown without a reader: two circuits that are printed alike are compared line by
line, and in a line part by part.

Three things are needed for it. A remark is printed as it is, so it must not contain the
line feed that ends its line. The three kinds of operations share their lines, and a gate
may well be called `M` like a measurement; what tells them apart is that a remark begins
with a character that no name begins with, and that only a measurement has an arrow. And
the name of a gate ends at the first space, since an identifier has none.

Circuits that are not made by hand meet these conditions: whatever is read from a text or
built from a block has identifiers for its gates and single lines for its remarks.

## Main definitions

* `Operation.Legible`: A gate is named by an identifier, and a remark is a single line.
* `Circuit.Legible`: All operations of a circuit are of this kind.

## Theorems

* `targetsText_inj`: The targets of a gate can be recovered from their text.
* `Operation.render_inj`: So can an operation from its line.
* `Circuit.linesText_inj`: So can operations from their lines.
* `Circuit.render_inj`: So can a circuit.
* `OpenQasm.legible_of_move`, `OpenQasm.legible_of_run`: What is read is legible.
* `Emission.preserved_legible`: What is built is legible.
* `render_determines`: All of this together.
-/

namespace QuantumIR

open Text

/-- A gate is named by an identifier, and a remark is a single line. -/
def Operation.Legible : Operation → Prop
  | gate name _ => IsIdentifier name.toList
  | measurement _ _ => True
  | remark text => '\n' ∉ text.toList

/-- All operations of the circuit can be told apart when they are printed. -/
def Circuit.Legible (c : Circuit) : Prop :=
  ∀ o ∈ c.operations.toList, o.Legible

namespace Operation

/-! ### Wires -/

/-- A wire as printed. -/
def wireText (kind : Char) (i : Nat) : List Char :=
  kind :: '_' :: Nat.toDigits 10 i

/-- The targets of a gate as printed. -/
def targetsText (targets : List Nat) : List Char :=
  [',', ' '].intercalate (targets.map (wireText 'q'))

theorem toDigits_inj {m n : Nat} (h : Nat.toDigits 10 m = Nat.toDigits 10 n) : m = n := by
  have hread := Decimal.natural?_toDigits m
  rw [h, Decimal.natural?_toDigits, Option.some.injEq] at hread
  exact hread.symm

theorem notMem_toDigits {c : Char} (hc : c.isDigit = false) (n : Nat) :
    c ∉ Nat.toDigits 10 n := by
  intro hmem
  rw [isDigit_of_mem_toDigits hmem] at hc
  cases hc

theorem wireText_inj {kind : Char} {m n : Nat} (h : wireText kind m = wireText kind n) : m = n :=
  toDigits_inj (List.cons.inj (List.cons.inj h).2).2

theorem notMem_wireText {c kind : Char} (hkind : c ≠ kind) (hscore : c ≠ '_')
    (hdigit : c.isDigit = false) (i : Nat) : c ∉ wireText kind i := by
  rw [wireText, List.mem_cons, List.mem_cons, not_or, not_or]
  exact ⟨hkind, hscore, notMem_toDigits hdigit i⟩

theorem notMem_targetsText {c : Char} (hsep : c ∉ [',', ' ']) (h : ∀ i, c ∉ wireText 'q' i)
    (targets : List Nat) : c ∉ targetsText targets := by
  refine notMem_intercalate hsep fun p hp => ?_
  rcases List.mem_map.1 hp with ⟨t, -, rfl⟩
  exact h t

theorem trim_wireText (i : Nat) : trim (wireText 'q' i) = wireText 'q' i :=
  trim_cons_append (by decide) ['_'] Nat.toDigits_ne_nil (trim_toDigits i)

/-- Cutting the targets at their commas gives them back one by one. -/
theorem map_trim_splitOn_targetsText {targets : List Nat} (hne : targets ≠ []) :
    ((targetsText targets).splitOn ',').map trim = targets.map (wireText 'q') := by
  have hitem : ∀ p ∈ targets.map (wireText 'q'), ',' ∉ p ∧ trim p = p := by
    intro p hp
    rcases List.mem_map.1 hp with ⟨t, -, rfl⟩
    exact ⟨notMem_wireText (by decide) (by decide) (by decide) t, trim_wireText t⟩
  exact map_trim_splitOn_intercalate (by simpa using hne) (fun p hp => (hitem p hp).1)
    fun p hp => (hitem p hp).2

theorem targetsText_eq_nil_iff {targets : List Nat} : targetsText targets = [] ↔ targets = [] := by
  constructor
  · intro h
    by_contra hne
    have hcut := map_trim_splitOn_targetsText hne
    rw [h] at hcut
    -- What is cut from nothing is one empty piece, and no wire is printed as that.
    rcases targets with _ | ⟨t, ts⟩
    · exact hne rfl
    · cases hcut
  · rintro rfl
    rfl

/-- The targets of a gate can be recovered from their text. -/
theorem targetsText_inj {ts us : List Nat} (h : targetsText ts = targetsText us) : ts = us := by
  by_cases hts : ts = []
  · rw [targetsText_eq_nil_iff.2 hts, eq_comm, targetsText_eq_nil_iff] at h
    rw [hts, h]
  · have hus : us ≠ [] := by
      intro hnil
      rw [targetsText_eq_nil_iff.2 hnil, targetsText_eq_nil_iff] at h
      exact hts h
    have hmap := map_trim_splitOn_targetsText hts
    rw [h, map_trim_splitOn_targetsText hus] at hmap
    exact (List.map_injective_iff.2 (fun _ _ => wireText_inj) hmap).symm

/-! ### Operations -/

theorem toList_render_gate (name : String) (targets : List Nat) :
    (render (.gate name targets)).toList = name.toList ++ ' ' :: targetsText targets := by
  have hwires : (targets.map fun q => "q_" ++ q.repr).map String.toList
      = targets.map (wireText 'q') := by
    rw [List.map_map]
    refine List.map_congr_left fun t _ => ?_
    simp [wireText, String.toList_append, Nat.toList_repr]
  simp only [render, String.toList_append, String.toList_intercalate, hwires, targetsText]
  simp

theorem toList_render_measurement (q r : Nat) :
    (render (.measurement q r)).toList
      = 'M' :: ' ' :: (wireText 'q' q ++ ' ' :: '-' :: '>' :: ' ' :: wireText 'c' r) := by
  simp [render, wireText, String.toList_append, Nat.toList_repr]

theorem toList_render_remark (text : String) :
    (render (.remark text)).toList = '#' :: ' ' :: text.toList := by
  simp [render, String.toList_append]

/-- A character that is no word character is in no name. -/
theorem notMem_of_isIdentifier {c : Char} (hc : isWordChar c = false) {name : List Char}
    (h : IsIdentifier name) : c ∉ name := by
  intro hmem
  rw [h.isWordChar c hmem] at hc
  cases hc

/-- A character that is not used between words is not in the line of a gate. -/
theorem notMem_render_gate {c : Char} (hword : isWordChar c = false) (hsep : c ∉ [',', ' '])
    {name : String} (h : IsIdentifier name.toList) (targets : List Nat) :
    c ∉ (render (.gate name targets)).toList := by
  have hne : ∀ d, isWordChar d = true → c ≠ d := by
    rintro d hd rfl
    rw [hd] at hword
    cases hword
  have hdigit : c.isDigit = false := by
    cases hc : c.isDigit with
    | false => rfl
    | true => exact absurd rfl (hne c (isWordChar_of_isDigit hc))
  have hspace : c ≠ ' ' := fun hc => hsep (by simp [hc])
  rw [toList_render_gate, List.mem_append, List.mem_cons, not_or, not_or]
  refine ⟨notMem_of_isIdentifier hword h, hspace, notMem_targetsText hsep ?_ targets⟩
  exact notMem_wireText (hne 'q' (by decide)) (hne '_' (by decide)) hdigit

/-- Only a remark begins with this character. -/
theorem head?_render_ne {o : Operation} (h : o.Legible) (hremark : o.isRemark = false) :
    o.render.toList.head? ≠ some '#' := by
  cases o with
  | gate name targets =>
      rcases h with ⟨a, w, hname, ha, -⟩
      rw [toList_render_gate, hname]
      rintro hhead
      cases hhead
      exact absurd ha (by decide)
  | measurement q r =>
      rw [toList_render_measurement]
      simp
  | remark text => cases hremark

/-- Only a measurement has an arrow. -/
theorem render_gate_ne_measurement {name : String} (h : IsIdentifier name.toList)
    (targets : List Nat) (q r : Nat) : render (.gate name targets) ≠ render (.measurement q r) := by
  intro heq
  have hdash := notMem_render_gate (c := '-') (by decide) (by decide) h targets
  rw [heq, toList_render_measurement] at hdash
  simp at hdash

theorem render_measurement_inj {q r q' r' : Nat}
    (h : render (.measurement q r) = render (.measurement q' r')) : q = q' ∧ r = r' := by
  rw [← String.toList_inj, toList_render_measurement, toList_render_measurement] at h
  have hspace : ∀ i, ' ' ∉ wireText 'q' i :=
    notMem_wireText (by decide) (by decide) (by decide)
  have hwires := (List.cons.inj (List.cons.inj h).2).2
  rcases append_cons_inj_of_first hwires (hspace q) (hspace q') with ⟨hq, hrest⟩
  have hr := (List.cons.inj (List.cons.inj (List.cons.inj hrest).2).2).2
  exact ⟨wireText_inj hq, wireText_inj hr⟩

theorem render_gate_inj {name name' : String} (h : IsIdentifier name.toList)
    (h' : IsIdentifier name'.toList) {targets targets' : List Nat}
    (heq : render (.gate name targets) = render (.gate name' targets')) :
    name = name' ∧ targets = targets' := by
  rw [← String.toList_inj, toList_render_gate, toList_render_gate] at heq
  -- The name ends at the first space.
  rcases append_cons_inj_of_first heq (notMem_of_isIdentifier (by decide) h)
    (notMem_of_isIdentifier (by decide) h') with ⟨hname, htargets⟩
  exact ⟨String.toList_inj.1 hname, targetsText_inj htargets⟩

/-- An operation can be recovered from its line. -/
theorem render_inj {o p : Operation} (ho : o.Legible) (hp : p.Legible)
    (h : o.render = p.render) : o = p := by
  -- The kinds are told apart first; then the parts of two operations of one kind.
  have hremark : ∀ {o p : Operation}, o.Legible → o.isRemark = false → p.isRemark = true →
      o.render ≠ p.render := by
    intro o p ho hother hremark heq
    cases p with
    | remark text =>
        have hhead := head?_render_ne ho hother
        rw [heq, toList_render_remark] at hhead
        exact hhead rfl
    | gate _ _ | measurement _ _ => cases hremark
  cases o with
  | gate name targets =>
      cases p with
      | gate name' targets' =>
          rcases render_gate_inj ho hp h with ⟨rfl, rfl⟩
          rfl
      | measurement q r => exact absurd h (render_gate_ne_measurement ho targets q r)
      | remark text => exact absurd h (hremark ho rfl rfl)
  | measurement q r =>
      cases p with
      | gate name targets => exact absurd h.symm (render_gate_ne_measurement hp targets q r)
      | measurement q' r' =>
          rcases render_measurement_inj h with ⟨rfl, rfl⟩
          rfl
      | remark text => exact absurd h (hremark ho rfl rfl)
  | remark text =>
      cases p with
      | gate _ _ | measurement _ _ => exact absurd h.symm (hremark hp rfl rfl)
      | remark text' =>
          rw [← String.toList_inj, toList_render_remark, toList_render_remark] at h
          rw [String.toList_inj.1 (List.cons.inj (List.cons.inj h).2).2]

theorem notMem_render {o : Operation} (h : o.Legible) : '\n' ∉ o.render.toList := by
  cases o with
  | gate name targets => exact notMem_render_gate (by decide) (by decide) h targets
  | measurement q r =>
      have hwire : ∀ kind ∈ ['q', 'c'], ∀ i, '\n' ∉ wireText kind i := by
        intro kind hkind
        have hne : '\n' ≠ kind := by
          rintro rfl
          exact absurd hkind (by decide)
        exact notMem_wireText hne (by decide) (by decide)
      rw [toList_render_measurement]
      simp [hwire]
  | remark text =>
      have htext : '\n' ∉ text.toList := h
      rw [toList_render_remark]
      simpa using htext

end Operation

/-! ### Circuits -/

namespace Circuit

/-- The lines of operations, each with its end. -/
def linesText (os : List Operation) : List Char :=
  os.flatMap fun o => o.render.toList ++ ['\n']

/-- The line with the wire counts. -/
def countsLine (numQubits numResults : Nat) : String :=
  "qubits: " ++ numQubits.repr ++ ", results: " ++ numResults.repr

theorem toList_countsLine (numQubits numResults : Nat) :
    (countsLine numQubits numResults).toList
      = "qubits: ".toList ++ (Nat.toDigits 10 numQubits
        ++ ',' :: (" results: ".toList ++ Nat.toDigits 10 numResults)) := by
  simp only [countsLine, String.toList_append, Nat.toList_repr, List.append_assoc]
  rfl

theorem notMem_countsLine (numQubits numResults : Nat) :
    '\n' ∉ (countsLine numQubits numResults).toList := by
  have hdigits : ∀ n, '\n' ∉ Nat.toDigits 10 n := Operation.notMem_toDigits (by decide)
  simp only [toList_countsLine, List.mem_append, List.mem_cons, not_or, hdigits,
    not_false_eq_true, and_true, true_and]
  decide

theorem countsLine_inj {nq nr nq' nr' : Nat} (h : countsLine nq nr = countsLine nq' nr') :
    nq = nq' ∧ nr = nr' := by
  have hcomma : ∀ n, ',' ∉ Nat.toDigits 10 n := Operation.notMem_toDigits (by decide)
  rw [← String.toList_inj, toList_countsLine, toList_countsLine] at h
  have hcounts := List.append_cancel_left h
  rcases append_cons_inj_of_first hcounts (hcomma nq) (hcomma nq') with ⟨hqubits, hrest⟩
  exact ⟨Operation.toDigits_inj hqubits, Operation.toDigits_inj (List.append_cancel_left hrest)⟩

theorem toList_render (c : Circuit) :
    c.render.toList = (countsLine c.numQubits c.numResults).toList
      ++ '\n' :: linesText c.operations.toList := by
  have hfeed : "\n".toList = ['\n'] := rfl
  simp only [render, String.toList_join, List.map_cons, List.flatMap_cons, List.map_map,
    List.flatMap_map, Function.comp_apply, String.toList_append, hfeed, linesText, countsLine,
    List.append_assoc, List.singleton_append]

/-- Operations can be recovered from their lines. -/
theorem linesText_inj {os ps : List Operation} (hos : ∀ o ∈ os, o.Legible)
    (hps : ∀ p ∈ ps, p.Legible) (h : linesText os = linesText ps) : os = ps := by
  induction os generalizing ps with
  | nil =>
      cases ps with
      | nil => rfl
      | cons p ps => simp [linesText] at h
  | cons o os ih =>
      cases ps with
      | nil => simp [linesText] at h
      | cons p ps =>
          rcases List.forall_mem_cons.1 hos with ⟨ho, hos⟩
          rcases List.forall_mem_cons.1 hps with ⟨hp, hps⟩
          -- The first line feed ends the first line, since no line has one.
          simp only [linesText, List.flatMap_cons, List.append_assoc, List.singleton_append] at h
          rcases append_cons_inj_of_first h (Operation.notMem_render ho)
            (Operation.notMem_render hp) with ⟨hfirst, hrest⟩
          rw [Operation.render_inj ho hp (String.toList_inj.1 hfirst), ih hos hps hrest]

/-- A circuit can be recovered from its printed form. -/
theorem render_inj {c c' : Circuit} (hc : c.Legible) (hc' : c'.Legible)
    (h : c.render = c'.render) : c = c' := by
  rw [← String.toList_inj, toList_render, toList_render] at h
  rcases append_cons_inj_of_first h (notMem_countsLine _ _) (notMem_countsLine _ _) with
    ⟨hcounts, hlines⟩
  rcases countsLine_inj (String.toList_inj.1 hcounts) with ⟨hqubits, hresults⟩
  have hoperations := Array.toList_inj.1 (linesText_inj hc hc' hlines)
  rcases c with ⟨nq, nr, os⟩
  rcases c' with ⟨nq', nr', os'⟩
  rw [Circuit.mk.injEq]
  exact ⟨hqubits, hresults, hoperations⟩

theorem Legible.push {c : Circuit} (h : c.Legible) {o : Operation} (ho : o.Legible) :
    (c.push o).Legible := by
  intro p hp
  rw [toList_operations_push, List.mem_append, List.mem_singleton] at hp
  rcases hp with hp | rfl
  · exact h p hp
  · exact ho

end Circuit

/-! ### Circuits that are read -/

namespace OpenQasm

theorem CommentShape.notMem {text line : List Char} (h : CommentShape text line) {c : Char}
    (hc : c ∉ line) : c ∉ text := by
  cases h with
  | spaced => exact fun hmem => hc (by simp [hmem])
  | tight _ => exact fun hmem => hc (by simp [hmem])

/-- A line adds a gate named by an identifier, or a remark that is a part of the line, if it
    adds anything that could be hard to read. -/
theorem legible_of_move {line : List Char} {s s' : State} (hline : '\n' ∉ line)
    (h : s.circuit.Legible) (hmove : Move line s s') : s'.circuit.Legible := by
  cases hmove with
  | blank _ | dropped _ _ | version _ _ => exact h
  | remark htext _ =>
      refine h.push ?_
      rw [Operation.Legible, String.toList_ofList]
      exact htext.notMem hline
  | silent _ _ heffect =>
      cases heffect with
      | inclusion => exact h
      | declaration _ _ =>
          rw [Circuit.Legible, State.operations_withRegister]
          exact h
  | operation hread _ heffect _ =>
      cases heffect with
      | measurement _ _ => exact h.push trivial
      | gate name _ =>
          cases hread with
          | gate _ _ _ hshape => exact h.push hshape.isIdentifier

theorem notMem_trim {c : Char} {s : List Char} (h : c ∉ s) : c ∉ trim s :=
  Emission.notMem_dropWhileEnd fun hc => h ((List.dropWhile_suffix isBlank).subset hc)

theorem legible_of_run {n : Nat} {ls : List (List Char)} {s s' : State}
    (hls : ∀ l ∈ ls, '\n' ∉ l) (h : s.circuit.Legible) (hrun : run n ls s = .ok s') :
    s'.circuit.Legible := by
  induction ls generalizing n s with
  | nil =>
      cases hrun
      exact h
  | cons l ls ih =>
      rcases List.forall_mem_cons.1 hls with ⟨hl, hls⟩
      rcases run_cons_eq_ok_iff.1 hrun with ⟨t, hmove, hrest⟩
      exact ih hls (legible_of_move (notMem_trim hl) h hmove) hrest

/-- Whatever is read is legible. -/
theorem legible_of_circuit {text : String} {c : Circuit} (h : circuit text = .ok c) :
    c.Legible := by
  rcases circuit_eq_ok_iff_run.1 h with ⟨s, hrun, rfl⟩
  refine legible_of_run (fun l => notMem_of_mem_lines) ?_ hrun
  exact fun o ho => absurd ho (by simp)

end OpenQasm

/-! ### Circuits that are built -/

namespace Emission

/-- Whatever is asked of an emission, its operations are legible, if the gates that are
    asked for are named by identifiers. -/
theorem preserved_legible :
    Preserved (fun g => IsIdentifier g.symbol.toList) fun e =>
      ∀ o ∈ e.operations.toList, o.Legible :=
  preserved_forall (fun _ _ hg _ => hg) (fun _ _ => trivial) fun _ h => h

end Emission

theorem Circuit.isIdentifier_gate (k : GateKind) :
    IsIdentifier (dialect.gate k).symbol.toList := by
  cases k <;> exact ⟨_, _, rfl, by decide, List.all_eq_true.1 (by decide)⟩

theorem Circuit.isIdentifier_reset : IsIdentifier dialect.reset.symbol.toList :=
  ⟨_, _, rfl, by decide, List.all_eq_true.1 (by decide)⟩

/-- Whatever is built from a block is a circuit, and it is legible. -/
theorem Artifact.exists_legible_of_ofBlock {b : Block} {a : Artifact}
    (h : ofBlock .circuit b = .ok a) : ∃ c, a = .circuit c ∧ c.Legible := by
  rcases ofBlock_eq_ok_iff.1 h with ⟨e, he, ha⟩
  have hsound := Emission.preserved_sound.ofBlock (fun _ => trivial) trivial
    Emission.sound_empty he
  have hlegible := Emission.preserved_legible.ofBlock Circuit.isIdentifier_gate
    Circuit.isIdentifier_reset (by simp) he
  rw [ofEmission, Emission.toCircuit_of_sound hsound] at ha
  cases ha
  exact ⟨_, rfl, hlegible⟩

/-- **The printed form determines the circuit.** Two circuits that are printed alike are
    equal, if their gates are named by identifiers and their remarks are single lines. Both
    conditions are met by every circuit that is read from a text, and by every circuit that
    is built from a block. -/
theorem Circuit.render_determines :
    (∀ c c' : Circuit, c.Legible → c'.Legible → c.render = c'.render → c = c')
      ∧ (∀ (text : String) (c : Circuit), OpenQasm.circuit text = .ok c → c.Legible)
      ∧ ∀ (b : Block) (a : Artifact), Artifact.ofBlock .circuit b = .ok a →
        ∃ c, a = .circuit c ∧ c.Legible := by
  refine ⟨fun c c' hc hc' => render_inj hc hc', ?_, ?_⟩
  · exact fun text c => OpenQasm.legible_of_circuit
  · exact fun b a => Artifact.exists_legible_of_ofBlock

/-- A gate that is named like a measurement, and a comment that looks like one. -/
def lookalikeText : String :=
  "OPENQASM 2.0;\nqreg q[2];\ncreg c[1];\nM q[1];\n// M q_1 -> c_0\nmeasure q[1] -> c[0];"

/-- The same with other names and spaces. -/
def looseText : String :=
  "//\nOPENQASM 2.0;\ncreg b [1];\nqreg a[2] ;\nM\ta[01];\n//M q_1 -> c_0\nmeasure a[1]->b[0];\n"

/-- A block with a call that is kept as two lines, of which the second looks like a
    measurement. -/
def lookalikeBlock : Block where
  name := "entry"
  instructions :=
    #[{ opcode := "__quantum__qis__mz__body", operands := [.qubit (some 1), .result (some 0)] },
      { opcode := "foo\nM q_0 -> c_0", operands := [.integer 5] }]

theorem Circuit.render_determines_lookalikes :
    ∃ c c' d, OpenQasm.circuit lookalikeText = .ok c ∧ OpenQasm.circuit looseText = .ok c'
      ∧ Artifact.ofBlock .circuit lookalikeBlock = .ok (.circuit d)
      ∧ c.Legible ∧ c'.Legible ∧ d.Legible
      ∧ c.render = "qubits: 2, results: 1\nM q_1\n# M q_1 -> c_0\nM q_1 -> c_0\n"
      ∧ c.render = c'.render ∧ c = c' ∧ c.render ≠ d.render := by
  have hread : OpenQasm.circuit lookalikeText
      = .ok ⟨2, 1, #[.gate "M" [1], .remark "M q_1 -> c_0", .measurement 1 0]⟩ := by
    decide +kernel
  have hloose : OpenQasm.circuit looseText
      = .ok ⟨2, 1, #[.gate "M" [1], .remark "M q_1 -> c_0", .measurement 1 0]⟩ := by
    decide +kernel
  have hbuilt : Artifact.ofBlock .circuit lookalikeBlock
      = .ok (.circuit ⟨1, 1, #[.measurement 0 0, .remark "Unsupported QIS operation:",
        .remark "foo", .remark "M q_0 -> c_0 5"]⟩) := by
    cbv
  rcases render_determines with ⟨hinj, htexts, hblocks⟩
  have hc := htexts _ _ hread
  have hc' := htexts _ _ hloose
  rcases hblocks _ _ hbuilt with ⟨d, hd, hlegible⟩
  cases hd
  refine ⟨_, _, _, hread, hloose, hbuilt, hc, hc', hlegible, by decide +kernel, rfl,
    hinj _ _ hc hc' rfl, fun heq => ?_⟩
  -- The two circuits have different numbers of qubits.
  exact absurd (congrArg Circuit.numQubits (hinj _ _ hc hlegible heq)) (by decide)

end QuantumIR
