import QuantumIR.Proofs.Circuit.Range
import QuantumIR.Proofs.Numbering
import QuantumIR.Proofs.Text.Cut
import QuantumIR.Session

/-!
# What Every Emission Keeps

An emission is driven in many ways: instruction by instruction, from a list, or
call by call with failures in between. All of them come down to five primitive
moves, so a property that these five keep is kept by everything. `Preserved`
collects the five obligations, and the lemmas after it carry the property along
each way of driving, failed calls included.

Gates are the one move on which a caller's choice matters: a session may ask for
a gate of any name. `Preserved` therefore restricts the gates by a predicate,
and each way of driving asks that the gates it can reach satisfy it.

`Sound` is the first property proved this way: every recorded operation refers to
wires that have a number. It is not obvious at the time of recording, since the
numberings go on growing afterwards; it holds because they only grow. Properties
of single operations, such as those that a text can express, follow from one lemma
about all of them.

## Main definitions

* `Emission.Preserved`: A property that the five primitive moves keep.
* `Emission.Sound`: The numberings agree with themselves and cover all operations.

## Theorems

* `Preserved.step`, `Preserved.run`: Instructions keep what the moves keep.
* `Preserved.perform`, `Preserved.session`: So do calls, whatever they answer.
* `Preserved.ofBlock`: So does the construction from a block.
* `preserved_sound`: Soundness is kept.
* `toCircuit_of_sound`: A sound emission is a circuit as it stands.
* `preserved_forall`: A property of single operations is kept if every operation
  that can be recorded has it.
-/

namespace QuantumIR

namespace Emission

/-- A property of emissions that every primitive move keeps, where the gates that
    are applied satisfy `G` and have as many operands as they ask for. -/
structure Preserved (G : Gate → Prop) (P : Emission → Prop) : Prop where
  qubit : ∀ e o, P e → P (e.qubit o).2
  result : ∀ e o, P e → P (e.result o).2
  gate : ∀ e g os, G g → os.length = g.arity → P e → P (e.gate g.symbol os)
  measure : ∀ e q r, P e → P (e.measure q r)
  comment : ∀ e text, P e → P (e.comment text)

namespace Preserved

variable {G : Gate → Prop} {P : Emission → Prop} {d : Dialect}

theorem showOperand (h : Preserved G P) (d : Dialect) (e : Emission) (o : Operand) (he : P e) :
    P (e.showOperand d o).2 := by
  cases o with
  | qubit id => exact h.qubit e _ he
  | result id => exact h.result e _ he
  | pointer id => exact h.qubit e _ he
  | integer _ | double _ | bool _ | named _ | raw _ => exact he

theorem showOperands (h : Preserved G P) (d : Dialect) (e : Emission) (os : List Operand)
    (he : P e) : P (e.showOperands d os).2 := by
  induction os generalizing e with
  | nil => exact he
  | cons o os ih => exact ih _ (h.showOperand d e o he)

theorem tryGate (h : Preserved G P) (e : Emission) (g : Gate) (hg : G g) (os : List Operand)
    (he : P e) : P (e.tryGate g os).emission := by
  rw [Emission.tryGate, Gate.checkCount]
  by_cases hcount : os.length = g.arity
  · rw [if_pos hcount]
    exact h.gate e g os hg hcount he
  · rw [if_neg hcount]
    exact he

/-- One instruction keeps what the moves keep, also if it fails: the gates it can
    apply are those of the dialect. -/
theorem step (h : Preserved G P) (hd : ∀ k, G (d.gate k)) (hreset : G d.reset) (e : Emission)
    (i : Instruction) (he : P e) : P (e.step d i).emission := by
  have hannounced : ∀ e os, P e → P (e.reset d os).emission :=
    fun e os he => h.tryGate _ _ hreset os (h.comment e _ he)
  unfold Emission.step
  cases Role.ofOpcode i.opcode with
  | gate kind => exact h.tryGate e _ (hd kind) _ he
  | reset => exact hannounced e _ he
  -- A list of the wrong length fails before anything is done.
  | measurement =>
      simp only []
      split
      · exact h.measure e _ _ he
      · exact he
  | measureReset =>
      simp only []
      split
      · exact hannounced _ _ (h.measure e _ _ he)
      · exact he
  | readout =>
      simp only []
      split
      · exact h.comment _ _ (h.result e _ he)
      · exact he
  | other => exact h.comment _ _ (h.comment _ _ (h.showOperands d e _ he))

theorem run (h : Preserved G P) (hd : ∀ k, G (d.gate k)) (hreset : G d.reset) (e : Emission)
    (is : List Instruction) (he : P e) : P (e.run d is).emission := by
  induction is generalizing e with
  | nil => exact he
  | cons i is ih =>
      have hstep := h.step hd hreset e i he
      rw [Emission.run, Outcome.bind]
      cases (e.step d i).failure with
      | none => exact ih _ hstep
      | some _ => exact hstep

/-- A call keeps what the moves keep, whatever it answers. -/
theorem perform (h : Preserved G P) (hd : ∀ k, G (d.gate k)) (hreset : G d.reset) (e : Emission)
    (c : Call) (hc : ∀ g os, c = .gate g os → G g) (he : P e) : P (c.perform d e).2 := by
  cases c with
  | gate g os => exact h.tryGate e g (hc g os rfl) os he
  | measure q r => exact h.measure e q r he
  | comment text => exact h.comment e text he
  | showQubit o => exact h.qubit e o he
  | showResult o => exact h.result e o he
  | emit is => exact h.run hd hreset e is he

theorem session (h : Preserved G P) (hd : ∀ k, G (d.gate k)) (hreset : G d.reset) (e : Emission)
    (cs : List Call) (hcs : ∀ g os, .gate g os ∈ cs → G g) (he : P e) :
    P (Session.run d e cs) := by
  induction cs generalizing e with
  | nil => exact he
  | cons c cs ih =>
      refine ih _ (fun g os hmem => hcs g os (List.mem_cons_of_mem _ hmem)) ?_
      refine h.perform hd hreset e c (fun g os hc => hcs g os ?_) he
      rw [hc]
      exact List.mem_cons_self

end Preserved

/-- The emission of a block is what its instructions leave, none of which
    failed. -/
theorem run_eq_of_ofBlock {d : Dialect} {b : Block} {e : Emission} (h : ofBlock d b = .ok e) :
    run d {} b.instructions.toList = ⟨e, none⟩ := by
  rw [ofBlock] at h
  rcases hrun : run d {} b.instructions.toList with ⟨e', failure⟩
  rw [hrun] at h
  cases failure with
  | none =>
      simp only [Except.ok.injEq] at h
      rw [h]
  | some err => simp only [reduceCtorEq] at h

theorem Preserved.ofBlock {G : Gate → Prop} {P : Emission → Prop} {d : Dialect}
    (h : Preserved G P) (hd : ∀ k, G (d.gate k)) (hreset : G d.reset) {b : Block} {e : Emission}
    (hstart : P {}) (hb : ofBlock d b = .ok e) : P e := by
  have hrun := h.run hd hreset {} b.instructions.toList hstart
  rwa [run_eq_of_ofBlock hb] at hrun

end Emission

namespace Numbering

theorem size_le_size {t t' : Numbering} (h : t.toList <+: t'.toList) : t.size ≤ t'.size := by
  simpa [size, toList] using h.length_le

/-- A number that is given out is in use from then on. -/
theorem Coherent.fst_assign_lt {t : Numbering} (h : t.Coherent) (id : Identity) :
    (t.assign id).1 < (t.assign id).2.size := by
  rcases List.getElem?_eq_some_iff.1 (h.getElem?_fst_assign id) with ⟨hlt, -⟩
  simpa [size, toList] using hlt

theorem Coherent.fst_assignAll_lt {t : Numbering} (h : t.Coherent) (ids : List Identity) :
    ∀ i ∈ (t.assignAll ids).1, i < (t.assignAll ids).2.size := by
  induction ids generalizing t with
  | nil => exact fun i hi => absurd hi List.not_mem_nil
  | cons id ids ih =>
      intro i hi
      rcases List.mem_cons.1 hi with rfl | hi
      -- The numbers after the first can only make the numbering larger.
      · exact Nat.lt_of_lt_of_le (h.fst_assign_lt id)
          (size_le_size (toList_prefix_assignAll _ ids))
      · exact ih (h.assign id) i hi

theorem length_fst_assignAll (t : Numbering) (ids : List Identity) :
    (t.assignAll ids).1.length = ids.length := by
  induction ids generalizing t with
  | nil => rfl
  | cons id ids ih => simp only [assignAll, List.length_cons, ih]

end Numbering

namespace Emission

/-- Both numberings agree with themselves, and every operation refers to wires
    that have a number. -/
structure Sound (e : Emission) : Prop where
  qubits : e.qubits.Coherent
  results : e.results.Coherent
  operations : ∀ o ∈ e.operations.toList, o.InRange e.qubits.size e.results.size

theorem sound_empty : Sound {} where
  qubits := Numbering.coherent_empty
  results := Numbering.coherent_empty
  operations := by simp

theorem Sound.qubit {e : Emission} (h : e.Sound) (o : Operand) : (e.qubit o).2.Sound where
  qubits := h.qubits.assign o.identity
  results := h.results
  operations := fun op hop => (h.operations op hop).mono
    (Numbering.size_le_size (e.qubits.toList_prefix_assign o.identity)) (Nat.le_refl _)

theorem Sound.result {e : Emission} (h : e.Sound) (o : Operand) : (e.result o).2.Sound where
  qubits := h.qubits
  results := h.results.assign o.identity
  operations := fun op hop => (h.operations op hop).mono (Nat.le_refl _)
    (Numbering.size_le_size (e.results.toList_prefix_assign o.identity))

theorem Sound.push {e : Emission} (h : e.Sound) {o : Operation}
    (ho : o.InRange e.qubits.size e.results.size) : (e.push o).Sound where
  qubits := h.qubits
  results := h.results
  operations := by
    intro op hop
    simp only [Emission.push, Array.toList_push, List.mem_append, List.mem_singleton] at hop
    rcases hop with hop | rfl
    · exact h.operations op hop
    · exact ho

theorem Sound.gate {e : Emission} (h : e.Sound) (symbol : String) (os : List Operand) :
    (e.gate symbol os).Sound := by
  -- All operands are numbered before the gate is recorded, so what was recorded earlier
  -- meets a numbering that has only grown.
  have hgrown : Sound { e with qubits := (e.qubits.assignAll (os.map Operand.identity)).2 } :=
    { qubits := h.qubits.assignAll _
      results := h.results
      operations := fun op hop => (h.operations op hop).mono
        (Numbering.size_le_size (e.qubits.toList_prefix_assignAll _)) (Nat.le_refl _) }
  exact hgrown.push (h.qubits.fst_assignAll_lt (os.map Operand.identity))

theorem Sound.measure {e : Emission} (h : e.Sound) (q r : Operand) : (e.measure q r).Sound := by
  refine ((h.qubit q).result r).push ⟨?_, ?_⟩
  · exact h.qubits.fst_assign_lt q.identity
  · exact h.results.fst_assign_lt r.identity

theorem Sound.comment {e : Emission} (h : e.Sound) (text : String) : (e.comment text).Sound where
  qubits := h.qubits
  results := h.results
  operations := by
    intro op hop
    rw [toList_operations_comment, List.mem_append, List.mem_map] at hop
    rcases hop with hop | ⟨line, -, rfl⟩
    · exact h.operations op hop
    · trivial

/-- Whatever is asked of an emission, its operations refer to wires that have a
    number. -/
theorem preserved_sound : Preserved (fun _ => True) Sound where
  qubit := fun _ o h => h.qubit o
  result := fun _ o h => h.result o
  gate := fun _ g os _ _ h => h.gate g.symbol os
  measure := fun _ q r h => h.measure q r
  comment := fun _ text h => h.comment text

/-- A sound emission is a circuit as it stands: every operation is accepted. -/
theorem toCircuit_of_sound {e : Emission} (h : e.Sound) :
    e.toCircuit = .ok ⟨e.qubits.size, e.results.size, e.operations⟩ := by
  have hadd := Circuit.addAll_of_inRange (c := ⟨e.qubits.size, e.results.size, #[]⟩) h.operations
  simpa [toCircuit] using hadd

theorem notMem_dropWhileEnd {p : Char → Bool} {c : Char} {s : List Char} (h : c ∉ s) :
    c ∉ Text.dropWhileEnd p s := by
  intro hc
  rw [Text.dropWhileEnd, List.mem_reverse] at hc
  exact h (List.mem_reverse.1 ((List.dropWhile_suffix p).subset hc))

/-- The lines of a comment hold no line feed. -/
theorem notMem_of_mem_commentLines {text line : String} (h : line ∈ commentLines text) :
    '\n' ∉ line.toList := by
  rw [commentLines, List.mem_map] at h
  rcases h with ⟨piece, hpiece, rfl⟩
  rw [String.toList_ofList]
  exact notMem_dropWhileEnd (Text.notMem_of_mem_splitOn hpiece)

/-- What holds of every gate that can be applied, of every measurement and of
    every remark of a single line holds of all that is recorded. Remarks are single
    lines because a comment is cut before it is recorded. -/
theorem preserved_forall {G : Gate → Prop} {Q : Operation → Prop}
    (hgate : ∀ g targets, G g → targets.length = g.arity → Q (.gate g.symbol targets))
    (hmeasure : ∀ q r, Q (.measurement q r))
    (hremark : ∀ text, '\n' ∉ text.toList → Q (.remark text)) :
    Preserved G fun e => ∀ o ∈ e.operations.toList, Q o where
  qubit := fun _ _ h => h
  result := fun _ _ h => h
  gate := by
    intro e g os hg hcount h o ho
    simp only [gate, push, Array.toList_push, List.mem_append, List.mem_singleton] at ho
    rcases ho with ho | rfl
    · exact h o ho
    · refine hgate g _ hg ?_
      rw [Numbering.length_fst_assignAll, List.length_map, hcount]
  measure := by
    intro e q r h o ho
    simp only [measure, push, Array.toList_push, List.mem_append, List.mem_singleton] at ho
    rcases ho with ho | rfl
    · exact h o ho
    · exact hmeasure _ _
  comment := by
    intro e text h o ho
    rw [toList_operations_comment, List.mem_append, List.mem_map] at ho
    rcases ho with ho | ⟨line, hline, rfl⟩
    · exact h o ho
    · exact hremark line (notMem_of_mem_commentLines hline)

end Emission

end QuantumIR
