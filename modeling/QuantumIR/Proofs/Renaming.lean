import Mathlib.Data.List.Forall2
import Mathlib.Data.List.Induction
import Mathlib.Data.List.Permutation
import Mathlib.Data.Set.Operations
import QuantumIR.Artifact
import QuantumIR.Proofs.Emission.Rendering

/-!
# Renamed Wires

The numbers that a program gives to its qubits and results do not reach an
artifact. Wires are numbered anew by their first mention, so all that is left of the
old numbers is which of them are equal. A block whose numbers are renamed one to one
has the same artifacts and the same errors.

Nor does it matter how a wire is referred to. Where the instruction says what its
operands are, a typed and an opaque pointer with the same number are the same wire,
and anything that is no constant pointer is the wire without an identity. Only an
instruction that is kept as a comment looks at the kind of an operand, and there it
tells results from all other pointers, and pointers from plain values.

A renaming has to tell apart the numbers that occur in the block. It need not be
injective on any others, which is why the mentions of the block are carried along:
ranks agree because the two histories of mentions repeat themselves in the same
places.

## Main definitions

* `Identity.rename`: An identity with its number renamed.
* `Operand.SameWire`: Two operands refer to one wire, up to a renaming.
* `Operand.KeptAs`: Two operands look the same in a comment, up to a renaming.
* `Instruction.Renamed`, `Block.Renamed`: Two instructions or blocks that differ in
  their wires only as the renaming does.
* `Block.numbers`: The numbers of the constant pointers of a block.

## Theorems

* `rank_map`: Ranks do not depend on names.
* `Renamed.qubitMentions_eq`, `Renamed.resultMentions_eq`: The mentions of a renamed
  instruction are renamed mentions.
* `Renamed.rendering_eq`: A renamed instruction has the same rendering.
* `Artifact.ofEmission_congr`: What an artifact depends on.
* `Artifact.ofBlock_renamed`: Renamed blocks have the same artifacts and errors.
-/

namespace QuantumIR

open QuantumIR.Numbering (rank)

/-- The identity with its number renamed. What has no identity of its own gets none. -/
def Identity.rename (s : Nat → Nat) : Identity → Identity
  | number id => number (s id)
  | unsupported => unsupported

namespace Operand

/-- The second operand refers to the wire of the first, of whatever kind the two
    are. -/
def SameWire (s : Nat → Nat) (o o' : Operand) : Prop :=
  o'.identity = o.identity.rename s

/-- The second operand stands for the first in an instruction that is kept as a
    comment: results stay results, other pointers are interchangeable, and plain
    values stay as they are. -/
inductive KeptAs (s : Nat → Nat) : Operand → Operand → Prop
  | result (id : Option Nat) : KeptAs s (.result id) (.result (id.map s))
  | pointer {o o' : Operand} (h : o.isQubitPointer = true) (h' : o'.isQubitPointer = true)
      (hid : o'.id? = o.id?.map s) : KeptAs s o o'
  | value {o : Operand} (hqubit : o.isQubitPointer = false) (hresult : o.isResultPointer = false) :
      KeptAs s o o

end Operand

/-- The second instruction is the first with its wires renamed. -/
structure Instruction.Renamed (s : Nat → Nat) (i i' : Instruction) : Prop where
  opcode : i'.opcode = i.opcode
  output : i'.output = i.output
  routed : i.role ≠ .other → List.Forall₂ (Operand.SameWire s) i.operands i'.operands
  kept : i.role = .other → List.Forall₂ (Operand.KeptAs s) i.operands i'.operands

/-- The second block is the first with its wires renamed. -/
structure Block.Renamed (s : Nat → Nat) (b b' : Block) : Prop where
  name : b'.name = b.name
  instructions : List.Forall₂ (Instruction.Renamed s) b.instructions.toList b'.instructions.toList

/-- The numbers of the constant pointers of a block. -/
def Block.numbers (b : Block) : List Nat :=
  b.instructions.toList.flatMap fun i => i.operands.filterMap Operand.id?

/-! ### Ranks -/

namespace Numbering

variable {f : Identity → Identity} {ids : List Identity}

theorem eraseDups_map (hf : ∀ a ∈ ids, ∀ b ∈ ids, f a = f b → a = b) :
    (ids.map f).eraseDups = ids.eraseDups.map f := by
  -- The induction goes along the history, as numbers are given out.
  induction ids using List.reverseRecOn with
  | nil => rfl
  | append_singleton ids id ih =>
      have hids := ih fun a ha b hb =>
        hf a (List.mem_append_left _ ha) b (List.mem_append_left _ hb)
      -- A renamed identity was met before exactly if the identity itself was.
      have hmem : f id ∈ ids.map f ↔ id ∈ ids := by
        rw [List.mem_map]
        constructor
        · rintro ⟨a, ha, heq⟩
          rwa [← hf a (List.mem_append_left _ ha) id (by simp) heq]
        · exact fun h => ⟨id, h, rfl⟩
      rw [List.map_append, List.map_singleton, eraseDups_concat, eraseDups_concat, hids]
      by_cases h : id ∈ ids
      · rw [if_pos h, if_pos (hmem.2 h)]
      · rw [if_neg h, if_neg (mt hmem.1 h), List.map_append, List.map_singleton]

theorem idxOf_map {id : Identity} (hf : ∀ a ∈ ids, f a = f id → a = id) :
    (ids.map f).idxOf (f id) = ids.idxOf id := by
  induction ids with
  | nil => rfl
  | cons a ids ih =>
      rw [List.forall_mem_cons] at hf
      rw [List.map_cons, List.idxOf_cons, List.idxOf_cons, ih hf.2]
      by_cases h : a = id
      · rw [h, BEq.rfl, BEq.rfl]
      · rw [beq_false_of_ne h, beq_false_of_ne (mt hf.1 h)]

/-- The place of an identity does not depend on names. -/
theorem rank_map (hf : ∀ a ∈ ids, ∀ b ∈ ids, f a = f b → a = b) {id : Identity} (hid : id ∈ ids) :
    rank (ids.map f) (f id) = rank ids id := by
  rw [rank, rank, eraseDups_map hf]
  exact idxOf_map fun a ha => hf a (List.mem_eraseDups.1 ha) id hid

end Numbering

/-! ### Operands -/

namespace Operand

variable {s : Nat → Nat} {o o' : Operand} {os os' : List Operand}

theorem sameWire_of_id? (h : o'.id? = o.id?.map s) : o.SameWire s o' := by
  rw [SameWire, identity, identity, h]
  cases o.id? <;> rfl

/-- What looks the same in a comment is the same wire. -/
theorem KeptAs.sameWire (h : o.KeptAs s o') : o.SameWire s o' := by
  cases h with
  | result id => exact sameWire_of_id? rfl
  | pointer _ _ hid => exact sameWire_of_id? hid
  | value hqubit hresult =>
      -- What is no pointer of either kind has no number that could be renamed.
      refine sameWire_of_id? ?_
      cases o with
      | qubit _ | pointer _ => cases hqubit
      | result _ => cases hresult
      | integer _ | double _ | bool _ | named _ | raw _ => rfl

theorem KeptAs.isQubitPointer_eq (h : o.KeptAs s o') : o'.isQubitPointer = o.isQubitPointer := by
  cases h with
  | result id => rfl
  | pointer h h' _ => rw [h, h']
  | value _ _ => rfl

theorem KeptAs.isResultPointer_eq (h : o.KeptAs s o') : o'.isResultPointer = o.isResultPointer := by
  have hnot : ∀ {o : Operand}, o.isQubitPointer = true → o.isResultPointer = false := by
    intro o ho
    cases o with
    | result _ => cases ho
    | _ => rfl
  cases h with
  | result id => rfl
  | pointer h h' _ => rw [hnot h, hnot h']
  | value _ _ => rfl

theorem map_identity (h : List.Forall₂ (SameWire s) os os') :
    os'.map identity = (os.map identity).map (Identity.rename s) := by
  induction h with
  | nil => rfl
  | cons hfirst _ ih => rw [List.map_cons, hfirst, ih, List.map_cons, List.map_cons]

theorem map_identity_filter {p : Operand → Bool} (hp : ∀ {o o'}, KeptAs s o o' → p o' = p o)
    (h : List.Forall₂ (KeptAs s) os os') :
    (os'.filter p).map identity = ((os.filter p).map identity).map (Identity.rename s) := by
  have hfilter : List.Forall₂ (KeptAs s) (os.filter p) (os'.filter p) :=
    List.rel_filter (fun o o' ho => by simp only [hp ho]) h
  exact map_identity (hfilter.imp fun _ _ ho => ho.sameWire)

/-- Numbers that agree on the mentioned wires agree on operands that refer to
    them. -/
theorem map_number (h : List.Forall₂ (SameWire s) os os') {n n' : Identity → Nat}
    (hn : ∀ id ∈ os.map identity, n' (id.rename s) = n id) :
    (os'.map fun o => n' o.identity) = os.map fun o => n o.identity := by
  have hcompose : ∀ (m : Identity → Nat) (os : List Operand),
      (os.map fun o => m o.identity) = (os.map identity).map m := by
    intro m os
    rw [List.map_map]
    rfl
  rw [hcompose, hcompose, map_identity h, List.map_map]
  exact List.map_congr_left hn

theorem KeptAs.text_eq (h : o.KeptAs s o') (d : Dialect) {w w' : Wires}
    (hq : o.isQubitPointer = true → w'.qubit (o.identity.rename s) = w.qubit o.identity)
    (hr : o.isResultPointer = true → w'.result (o.identity.rename s) = w.result o.identity) :
    o'.text d w' = o.text d w := by
  have hwire := h.sameWire
  have hqubit : ∀ {o : Operand} (w : Wires), o.isQubitPointer = true →
      o.text d w = d.qubitText (w.qubit o.identity) := by
    intro o w ho
    cases o with
    | qubit _ | pointer _ => rfl
    | _ => cases ho
  cases h with
  | result id => exact congrArg d.resultText ((congrArg w'.result hwire).trans (hr rfl))
  | pointer h h' _ => rw [hqubit w h, hqubit w' h', hwire, hq h]
  | value hq hr =>
      cases o with
      | qubit _ | pointer _ => cases hq
      | result _ => cases hr
      | integer _ | double _ | bool _ | named _ | raw _ => rfl

theorem map_text (h : List.Forall₂ (KeptAs s) os os') (d : Dialect) {w w' : Wires}
    (hq : ∀ id ∈ (os.filter isQubitPointer).map identity, w'.qubit (id.rename s) = w.qubit id)
    (hr : ∀ id ∈ (os.filter isResultPointer).map identity, w'.result (id.rename s) = w.result id) :
    os'.map (text d w') = os.map (text d w) := by
  induction h with
  | nil => rfl
  | @cons o o' os os' hfirst _ ih =>
      rw [List.map_cons, List.map_cons]
      congr 1
      · -- A pointer is mentioned where it is shown, so its number is one that agrees.
        refine hfirst.text_eq d (fun ho => hq _ ?_) (fun ho => hr _ ?_)
        · rw [List.filter_cons_of_pos ho]
          exact List.mem_cons_self
        · rw [List.filter_cons_of_pos ho]
          exact List.mem_cons_self
      · have hsub : ∀ p : Operand → Bool,
            (os.filter p).map identity ⊆ ((o :: os).filter p).map identity :=
          fun p => List.map_subset _ ((List.sublist_cons_self o os).filter p).subset
        exact ih (fun id hid => hq id (hsub _ hid)) (fun id hid => hr id (hsub _ hid))

end Operand

/-! ### Instructions -/

namespace Instruction

theorem qubitMentions_subset (i : Instruction) :
    i.qubitMentions ⊆ i.operands.map Operand.identity := by
  rw [qubitMentions]
  cases i.role with
  | gate _ | reset => exact List.Subset.refl _
  | measurement | measureReset => exact List.map_subset _ (List.take_subset _ _)
  | readout => exact List.nil_subset _
  | other => exact List.map_subset _ (List.filter_subset_self _)

theorem resultMentions_subset (i : Instruction) :
    i.resultMentions ⊆ i.operands.map Operand.identity := by
  rw [resultMentions]
  cases i.role with
  | gate _ | reset => exact List.nil_subset _
  | measurement | measureReset =>
      exact List.map_subset _ (List.Subset.trans (List.take_subset _ _) (List.drop_subset _ _))
  | readout => exact List.map_subset _ (List.take_subset _ _)
  | other => exact List.map_subset _ (List.filter_subset_self _)

namespace Renamed

variable {s : Nat → Nat} {i i' : Instruction}

theorem role_eq (h : i.Renamed s i') : i'.role = i.role := by
  rw [role, role, h.opcode]

theorem length_eq (h : i.Renamed s i') : i'.operands.length = i.operands.length := by
  by_cases hrole : i.role = .other
  · exact (h.kept hrole).length_eq.symm
  · exact (h.routed hrole).length_eq.symm

/-- Errors tell the count of the operands and nothing else about them. -/
theorem fault_eq (h : i.Renamed s i') (d : Dialect) : i'.fault d = i.fault d := by
  rw [fault, fault, faultName, faultName, h.role_eq, h.opcode, h.length_eq]

theorem qubitMentions_eq (h : i.Renamed s i') :
    i'.qubitMentions = i.qubitMentions.map (Identity.rename s) := by
  rw [qubitMentions, qubitMentions, h.role_eq]
  cases hrole : i.role with
  | gate _ | reset => exact Operand.map_identity (h.routed (by simp [hrole]))
  | measurement | measureReset =>
      exact Operand.map_identity (List.forall₂_take 1 (h.routed (by simp [hrole])))
  | readout => rfl
  | other => exact Operand.map_identity_filter (·.isQubitPointer_eq) (h.kept hrole)

theorem resultMentions_eq (h : i.Renamed s i') :
    i'.resultMentions = i.resultMentions.map (Identity.rename s) := by
  rw [resultMentions, resultMentions, h.role_eq]
  cases hrole : i.role with
  | gate _ | reset => rfl
  | measurement | measureReset =>
      exact Operand.map_identity
        (List.forall₂_take 1 (List.forall₂_drop 1 (h.routed (by simp [hrole]))))
  | readout => exact Operand.map_identity (List.forall₂_take 1 (h.routed (by simp [hrole])))
  | other => exact Operand.map_identity_filter (·.isResultPointer_eq) (h.kept hrole)

/-- A renamed instruction has the same rendering, if each wire that it mentions has
    the number of the wire that it stands for. -/
theorem rendering_eq (h : i.Renamed s i') (hi : i.Counted) (d : Dialect) {w w' : Wires}
    (hq : ∀ id ∈ i.qubitMentions, w'.qubit (id.rename s) = w.qubit id)
    (hr : ∀ id ∈ i.resultMentions, w'.result (id.rename s) = w.result id) :
    i'.rendering d w' = i.rendering d w := by
  rw [Counted] at hi
  rw [qubitMentions] at hq
  rw [resultMentions] at hr
  rw [rendering, rendering, h.role_eq, h.output, h.opcode]
  -- An instruction with a fixed number of operands is taken apart together with its
  -- renaming, operand by operand.
  cases hrole : i.role with
  | gate kind =>
      simp only [hrole] at hq
      have hwires := h.routed (by simp [hrole])
      simp only [Operand.map_number hwires hq]
  | reset =>
      simp only [hrole] at hq
      have hwires := h.routed (by simp [hrole])
      simp only [resetRendering, Operand.map_number hwires hq]
  | measurement | measureReset =>
      simp only [hrole, Role.operandCount?, Option.all_some, beq_iff_eq] at hi hq hr
      have hwires := h.routed (by simp [hrole])
      rcases List.length_eq_two.1 hi.symm with ⟨q, r, hops⟩
      rcases List.length_eq_two.1 (hwires.length_eq.symm.trans hi.symm) with ⟨q', r', hops'⟩
      simp only [hops, hops', List.forall₂_cons, List.forall₂_nil_left_iff, and_true] at hwires
      have hqubit : w'.qubit q'.identity = w.qubit q.identity := by
        rw [hwires.1]
        exact hq _ (by simp [hops])
      have hresult : w'.result r'.identity = w.result r.identity := by
        rw [hwires.2]
        exact hr _ (by simp [hops])
      simp only [hops, hops', resetRendering, List.map_cons, List.map_nil, hqubit, hresult]
  | readout =>
      simp only [hrole, Role.operandCount?, Option.all_some, beq_iff_eq] at hi hr
      have hwires := h.routed (by simp [hrole])
      rcases List.length_eq_one_iff.1 hi.symm with ⟨r, hops⟩
      rcases List.length_eq_one_iff.1 (hwires.length_eq.symm.trans hi.symm) with ⟨r', hops'⟩
      simp only [hops, hops', List.forall₂_cons, List.forall₂_nil_left_iff, and_true] at hwires
      have hresult : w'.result r'.identity = w.result r.identity := by
        rw [hwires]
        exact hr _ (by simp [hops])
      simp only [hops, hops', hresult]
  | other =>
      simp only [hrole] at hq hr
      simp only [Operand.map_text (h.kept hrole) d hq hr]

end Renamed

variable {s : Nat → Nat} {is is' : List Instruction}

theorem flatMap_map_rename {f : Instruction → List Identity}
    (hf : ∀ {i i'}, Instruction.Renamed s i i' → f i' = (f i).map (Identity.rename s))
    (h : List.Forall₂ (Renamed s) is is') :
    is'.flatMap f = (is.flatMap f).map (Identity.rename s) := by
  induction h with
  | nil => rfl
  | cons hfirst _ ih => rw [List.flatMap_cons, hf hfirst, ih, List.flatMap_cons, List.map_append]

theorem findSome?_fault_eq (h : List.Forall₂ (Renamed s) is is') (d : Dialect) :
    is'.findSome? (fault d) = is.findSome? (fault d) := by
  induction h with
  | nil => rfl
  | cons hfirst _ ih => rw [List.findSome?_cons, hfirst.fault_eq, ih, List.findSome?_cons]

theorem flatMap_rendering_eq (h : List.Forall₂ (Renamed s) is is') (his : ∀ i ∈ is, i.Counted)
    (d : Dialect) {w w' : Wires}
    (hq : ∀ id ∈ is.flatMap qubitMentions, w'.qubit (id.rename s) = w.qubit id)
    (hr : ∀ id ∈ is.flatMap resultMentions, w'.result (id.rename s) = w.result id) :
    is'.flatMap (rendering d w') = is.flatMap (rendering d w) := by
  induction h with
  | nil => rfl
  | cons hfirst _ ih =>
      rw [List.forall_mem_cons] at his
      simp only [List.flatMap_cons, List.forall_mem_append] at hq hr
      rw [List.flatMap_cons, List.flatMap_cons, hfirst.rendering_eq his.1 d hq.1 hr.1,
        ih his.2 hq.2 hr.2]

end Instruction

/-! ### Blocks -/

namespace Block

variable {s : Nat → Nat} {b b' : Block}

/-- A renaming that tells the numbers of a block apart tells its wires apart. -/
theorem rename_injOn (hs : Set.InjOn s {n | n ∈ b.numbers}) {ids : List Identity}
    (hids : ids ⊆ b.instructions.toList.flatMap fun i => i.operands.map Operand.identity) :
    ∀ x ∈ ids, ∀ y ∈ ids, x.rename s = y.rename s → x = y := by
  have hnumber : ∀ {n}, .number n ∈ ids → n ∈ b.numbers := by
    intro n hn
    rcases List.mem_flatMap.1 (hids hn) with ⟨i, hi, hmem⟩
    rcases List.mem_map.1 hmem with ⟨o, ho, hidentity⟩
    refine List.mem_flatMap.2 ⟨i, hi, List.mem_filterMap.2 ⟨o, ho, ?_⟩⟩
    rw [Operand.identity] at hidentity
    split at hidentity
    · rename_i id hid
      rw [hid, Identity.number.inj hidentity]
    · cases hidentity
  intro x hx y hy heq
  -- A wire without a number stays without one, so it meets no other.
  cases x with
  | unsupported =>
      cases y with
      | unsupported => rfl
      | number m => cases heq
  | number n =>
      cases y with
      | unsupported => cases heq
      | number m => rw [hs (hnumber hx) (hnumber hy) (Identity.number.inj heq)]

namespace Renamed

theorem qubitMentions_eq (h : b.Renamed s b') :
    b'.qubitMentions = b.qubitMentions.map (Identity.rename s) :=
  Instruction.flatMap_map_rename (·.qubitMentions_eq) h.instructions

theorem resultMentions_eq (h : b.Renamed s b') :
    b'.resultMentions = b.resultMentions.map (Identity.rename s) :=
  Instruction.flatMap_map_rename (·.resultMentions_eq) h.instructions

/-- The mentions of a block repeat themselves where those of a renamed block do. -/
theorem rename_injOn_mentions (hs : Set.InjOn s {n | n ∈ b.numbers}) :
    (∀ x ∈ b.qubitMentions, ∀ y ∈ b.qubitMentions, x.rename s = y.rename s → x = y)
      ∧ ∀ x ∈ b.resultMentions, ∀ y ∈ b.resultMentions, x.rename s = y.rename s → x = y := by
  have hsub : ∀ {f : Instruction → List Identity},
      (∀ i : Instruction, f i ⊆ i.operands.map Operand.identity) →
      b.instructions.toList.flatMap f
        ⊆ b.instructions.toList.flatMap fun i => i.operands.map Operand.identity := by
    intro f hf id hid
    rcases List.mem_flatMap.1 hid with ⟨i, hi, hmem⟩
    exact List.mem_flatMap.2 ⟨i, hi, hf i hmem⟩
  exact ⟨rename_injOn hs (hsub Instruction.qubitMentions_subset),
    rename_injOn hs (hsub Instruction.resultMentions_subset)⟩

theorem rendering_eq (h : b.Renamed s b') (hs : Set.InjOn s {n | n ∈ b.numbers})
    (hb : ∀ i ∈ b.instructions.toList, i.Counted) (d : Dialect) :
    b'.rendering d = b.rendering d := by
  rcases rename_injOn_mentions hs with ⟨hqubits, hresults⟩
  refine Instruction.flatMap_rendering_eq h.instructions hb d ?_ ?_
  · intro id hid
    rw [wires, wires, Wires.ofMentions, Wires.ofMentions, h.qubitMentions_eq]
    exact Numbering.rank_map hqubits hid
  · intro id hid
    rw [wires, wires, Wires.ofMentions, Wires.ofMentions, h.resultMentions_eq]
    exact Numbering.rank_map hresults hid

/-- Renamed blocks give out as many numbers. -/
theorem length_mentions (h : b.Renamed s b') (hs : Set.InjOn s {n | n ∈ b.numbers}) :
    b'.qubitMentions.eraseDups.length = b.qubitMentions.eraseDups.length
      ∧ b'.resultMentions.eraseDups.length = b.resultMentions.eraseDups.length := by
  rcases rename_injOn_mentions hs with ⟨hqubits, hresults⟩
  rw [h.qubitMentions_eq, h.resultMentions_eq, Numbering.eraseDups_map hqubits,
    Numbering.eraseDups_map hresults, List.length_map, List.length_map]
  exact ⟨rfl, rfl⟩

end Renamed

end Block

namespace Artifact

/-- An artifact depends on how many numbers were given out and on the operations. -/
theorem ofEmission_congr {e e' : Emission} (hq : e'.qubits.size = e.qubits.size)
    (hr : e'.results.size = e.results.size) (hops : e'.operations.toList = e.operations.toList)
    (target : Target) (name : String) : ofEmission target name e' = ofEmission target name e := by
  have htext : OpenQasm.text name e' = OpenQasm.text name e := by
    simp only [OpenQasm.text, OpenQasm.registers, OpenQasm.body, hq, hr, hops]
  cases target with
  | circuit => simp only [ofEmission, Emission.toCircuit, hq, hr, hops]
  | openQasm | openQasmCircuit => simp only [ofEmission, htext]

/-- **Only the pattern of equal wires matters.** A block whose numbers are renamed so
    that different ones stay different gives the same artifact, or fails with the same
    error, whatever is asked for. -/
theorem ofBlock_renamed {s : Nat → Nat} {b b' : Block} (h : b.Renamed s b')
    (hs : Set.InjOn s {n | n ∈ b.numbers}) (target : Target) :
    ofBlock target b' = ofBlock target b := by
  have hfault := Instruction.findSome?_fault_eq h.instructions target.dialect
  have hcounted : ∀ {is : List Instruction},
      is.findSome? (Instruction.fault target.dialect) = none → ∀ i ∈ is, i.Counted :=
    fun hnone i hi =>
      (Instruction.fault_eq_none_iff _ i).1 (List.findSome?_eq_none_iff.1 hnone i hi)
  rw [ofBlock, ofBlock, h.name]
  -- Both blocks fail, and with one error, or both are carried through.
  cases hfirst : b.instructions.toList.findSome? (Instruction.fault target.dialect) with
  | some err =>
      rw [Emission.ofBlock_of_fault hfirst, Emission.ofBlock_of_fault (hfault.trans hfirst)]
  | none =>
      have hb := hcounted hfirst
      have hb' := hcounted (hfault.trans hfirst)
      rcases Emission.ofBlock_of_counted target.dialect b hb with ⟨e, he, hfollows⟩
      rcases Emission.ofBlock_of_counted target.dialect b' hb' with ⟨e', he', hfollows'⟩
      rcases h.length_mentions hs with ⟨hqubits, hresults⟩
      rw [← hfollows'.qubits.size_eq, ← hfollows.qubits.size_eq] at hqubits
      rw [← hfollows'.results.size_eq, ← hfollows.results.size_eq] at hresults
      rw [he, he']
      refine ofEmission_congr hqubits hresults ?_ target b.name
      rw [hfollows'.operations, hfollows.operations, h.rendering_eq hs hb]

/-- A block with typed pointers throughout. -/
def typedBlock : Block where
  name := "entry"
  instructions :=
    #[{ opcode := "__quantum__qis__cnot__body"
        operands := [.qubit (some 7), .qubit (some 3)] },
      { opcode := "__quantum__qis__mresetz__body"
        operands := [.qubit (some 3), .result (some 9)] },
      { opcode := "foo"
        operands := [.result none, .qubit (some 8), .integer 4, .qubit (some 7)]
        output := some "a" },
      { opcode := "__quantum__rt__read_result", operands := [.result (some 9)] },
      { opcode := "__quantum__qis__reset__body", operands := [.named "q"] }]

/-- The same block with every number subtracted from ten, and with pointers of other
    kinds. -/
def opaqueBlock : Block where
  name := "entry"
  instructions :=
    #[{ opcode := "__quantum__qis__cnot__body"
        operands := [.pointer (some 3), .result (some 7)] },
      { opcode := "__quantum__qis__mresetz__body"
        operands := [.qubit (some 7), .pointer (some 1)] },
      { opcode := "foo"
        operands := [.result none, .pointer (some 2), .integer 4, .pointer (some 3)]
        output := some "a" },
      { opcode := "__quantum__rt__read_result", operands := [.qubit (some 1)] },
      { opcode := "__quantum__qis__reset__body", operands := [.integer 0] }]

/-- Subtraction from ten is not injective, but it tells apart the numbers of the
    block. -/
theorem ofBlock_renamed_opaqueBlock :
    typedBlock.Renamed (10 - ·) opaqueBlock
      ∧ Set.InjOn (10 - ·) {n | n ∈ typedBlock.numbers}
      ∧ (∀ target, ofBlock target opaqueBlock = ofBlock target typedBlock)
      ∧ ofBlock .circuit opaqueBlock = .ok (.circuit
        { numQubits := 4
          numResults := 2
          operations := #[.gate "CNOT" [0, 1], .measurement 1 0,
            .remark "Requires nonstandard reset gate:", .gate "Reset" [1],
            .remark "Unsupported QIS operation:", .remark "%a = foo 1, 2, 4, 0",
            .remark "%_ = 0", .remark "Requires nonstandard reset gate:",
            .gate "Reset" [3]] }) := by
  have hrouted : ∀ {opcode : String} {os os' : List Operand}, Role.ofOpcode opcode ≠ .other →
      List.Forall₂ (Operand.SameWire (10 - ·)) os os' →
      Instruction.Renamed (10 - ·) { opcode, operands := os } { opcode, operands := os' } :=
    fun hrole hos => ⟨rfl, rfl, fun _ => hos, fun hother => absurd hother hrole⟩
  have hrenamed : typedBlock.Renamed (10 - ·) opaqueBlock := by
    refine ⟨rfl, .cons (hrouted (by decide) ?_) (.cons (hrouted (by decide) ?_) (.cons ?_
      (.cons (hrouted (by decide) ?_) (.cons (hrouted (by decide) ?_) .nil))))⟩
    · exact .cons rfl (.cons rfl .nil)
    · exact .cons rfl (.cons rfl .nil)
    · refine ⟨rfl, rfl, fun hrole => absurd (by decide) hrole, fun _ => ?_⟩
      exact .cons (.result none) (.cons (.pointer rfl rfl rfl)
        (.cons (.value rfl rfl) (.cons (.pointer rfl rfl rfl) .nil)))
    · exact .cons rfl .nil
    · exact .cons rfl .nil
  have hnumbers : ∀ m ∈ typedBlock.numbers, ∀ n ∈ typedBlock.numbers, 10 - m = 10 - n → m = n := by
    decide
  have hinjOn : Set.InjOn (10 - ·) {n | n ∈ typedBlock.numbers} :=
    fun m hm n hn => hnumbers m hm n hn
  have hsame := ofBlock_renamed hrenamed hinjOn
  refine ⟨hrenamed, hinjOn, hsame, ?_⟩
  rw [hsame]
  cbv

end Artifact

end QuantumIR
