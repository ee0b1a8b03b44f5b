import QuantumIR.Artifact
import QuantumIR.Proofs.OpenQasm.Asides

/-!
# What Does Not Influence a Circuit

Parts of a program that a circuit cannot express are kept as remarks, and remarks
are all that they can change. Taking such parts out leaves the wires of the circuit
and what acts on them as they are, for a circuit that is built directly as for one
that goes through a text.

Two things can be taken out. An instruction of a block is `Idle` if it is unknown to
circuits and mentions no wire, or if it reads a result that an instruction before it
has already mentioned. The second condition looks at what is left of the instructions
before it, so the one that mentions the result first has to stay. In a session the
comments can be taken out, and then the two numberings are the same after every call
that remains.

Numbers are given by first mention. An idle instruction mentions nothing for the first
time, so the mentions that are left have the same order; that is all there is to show,
since the emission of a block is a function of its mentions and of the rendering of
its instructions, and what an idle instruction renders is remarks.

## Main definitions

* `keepAt`: The elements of a list at the places that are kept.
* `Instruction.Idle`: An instruction that does nothing to a circuit.
* `DropsIdle`: Only idle instructions are taken out of a list.
* `Block.keepAt`: A block without some of its instructions.
* `Numbering.Agrees`: Two numberings that give out the same numbers.
* `Emission.SameAction`: Two emissions that differ in remarks only.
* `Emission.Printable`: What every emission of a block or a session is.
* `Artifact.withoutRemarks?`: The circuit that was made, without its remarks.

## Theorems

* `flatMap_keepAt`: Elements that contribute nothing can be taken out.
* `eraseDups_resultMentions_keepAt`: Reading a result again mentions nothing new.
* `ofBlock_keepAt`: The emission of a block without idle instructions.
* `agrees_session_keepAt`, `sameAction_session_keepAt`: A session without comments.
* `withoutRemarks?_ofEmission`: Artifacts do not depend on remarks.
* `circuit_noninterference`: Neither idle instructions nor comments influence a circuit.
-/

namespace QuantumIR

/-! ### Lists without some of their elements -/

section Lists

variable {α β : Type} {kept : Nat → Bool} {l : List α}

/-- The elements at the places that are kept. -/
def keepAt (kept : Nat → Bool) (l : List α) : List α :=
  (l.zipIdx.filter fun p => kept p.2).map Prod.fst

theorem keepAt_concat (l : List α) (a : α) :
    keepAt kept (l ++ [a]) = keepAt kept l ++ if kept l.length then [a] else [] := by
  rw [keepAt, List.zipIdx_append, List.filter_append, List.map_append]
  cases h : kept l.length with
  | true => simp [keepAt, h]
  | false => simp [keepAt, h]

/-- What holds of all elements that are taken out holds of those in a first part. -/
theorem forall_taken_mono {l' : List α} {P : Nat → α → Prop} (hl : l <+: l')
    (h : ∀ p a, l'[p]? = some a → kept p = false → P p a) :
    ∀ p a, l[p]? = some a → kept p = false → P p a := by
  rcases hl with ⟨rest, rfl⟩
  intro p a ha
  refine h p a ?_
  rw [List.getElem?_append_left (List.getElem?_eq_some_iff.1 ha).1, ha]

/-- Elements that contribute nothing can be taken out. -/
theorem flatMap_keepAt {f : α → List β}
    (h : ∀ p a, l[p]? = some a → kept p = false → f a = []) :
    (keepAt kept l).flatMap f = l.flatMap f := by
  induction l using List.reverseRecOn with
  | nil => rfl
  | append_singleton l a ih =>
      have hrest := ih (forall_taken_mono (List.prefix_append l [a]) h)
      rw [keepAt_concat, List.flatMap_append, List.flatMap_append, hrest]
      cases hkept : kept l.length with
      | true => rw [if_pos rfl]
      | false =>
          have hnone : f a = [] := h l.length a (by simp) hkept
          rw [if_neg (by simp), List.flatMap_singleton, hnone, List.flatMap_nil]

end Lists

namespace Numbering

/-- The two numberings list the same identities and give each the same number. -/
structure Agrees (t t' : Numbering) : Prop where
  toList : t.toList = t'.toList
  get? : ∀ id, t.get? id = t'.get? id

/-- Numberings that have seen the same identities agree. -/
theorem Records.agrees {t t' : Numbering} {ids : List Identity} (h : t.Records ids)
    (h' : t'.Records ids) : t.Agrees t' where
  toList := h.toList_eq.trans h'.toList_eq.symm
  get? := by
    intro id
    refine Option.ext fun i => ?_
    rw [h.coherent id i, h'.coherent id i, h.toList_eq, h'.toList_eq]

theorem eraseDups_append_congr {ids ids' : List Identity} (h : ids.eraseDups = ids'.eraseDups)
    (more : List Identity) : (ids ++ more).eraseDups = (ids' ++ more).eraseDups := by
  have hmem : ∀ id, id ∈ ids ↔ id ∈ ids' := by
    intro id
    rw [← List.mem_eraseDups, h, List.mem_eraseDups]
  have hnew : more.removeAll ids = more.removeAll ids' := by
    refine List.filter_congr fun id _ => ?_
    simp only [List.elem_eq_mem, hmem id]
  rw [List.eraseDups_append, List.eraseDups_append, h, hnew]

/-- Mentions of identities that were met before add nothing. -/
theorem eraseDups_append_of_subset {ids more : List Identity} (h : ∀ id ∈ more, id ∈ ids) :
    (ids ++ more).eraseDups = ids.eraseDups := by
  have hnew : more.removeAll ids = [] := by
    refine List.filter_eq_nil_iff.2 fun id hid => ?_
    simp [h id hid]
  rw [List.eraseDups_append, hnew, List.eraseDups_nil, List.append_nil]

end Numbering

theorem Operation.filter_remarks (text : String) :
    (Operation.remarks text).filter (fun o => !o.isRemark) = [] := by
  refine List.filter_eq_nil_iff.2 fun o ho => ?_
  rcases List.mem_map.1 ho with ⟨line, -, rfl⟩
  simp [Operation.isRemark]

/-! ### Idle instructions -/

namespace Instruction

/-- The instruction does nothing to a circuit if it follows the given ones: it is unknown
    to circuits and mentions no wire, or it reads a result that has been mentioned. -/
inductive Idle (before : List Instruction) (i : Instruction) : Prop
  | unmapped (hrole : i.role = .other)
      (hoperands : ∀ o ∈ i.operands, o.isQubitPointer = false ∧ o.isResultPointer = false)
  | reread {o : Operand} {j : Instruction} (hrole : i.role = .readout)
      (hoperands : i.operands = [o]) (hj : j ∈ before) (hresult : o.identity ∈ j.resultMentions)

namespace Idle

variable {before : List Instruction} {i : Instruction}

theorem qubitMentions_eq (h : i.Idle before) : i.qubitMentions = [] := by
  cases h with
  | unmapped hrole hoperands =>
      have hnone : i.operands.filter Operand.isQubitPointer = [] := by
        rw [List.filter_eq_nil_iff]
        exact fun o ho => by simp [(hoperands o ho).1]
      simp only [qubitMentions, hrole, hnone, List.map_nil]
  | reread hrole _ _ _ => simp only [qubitMentions, hrole]

theorem mem_resultMentions (h : i.Idle before) :
    ∀ id ∈ i.resultMentions, id ∈ before.flatMap resultMentions := by
  cases h with
  | unmapped hrole hoperands =>
      have hnone : i.operands.filter Operand.isResultPointer = [] := by
        rw [List.filter_eq_nil_iff]
        exact fun o ho => by simp [(hoperands o ho).2]
      simp only [resultMentions, hrole, hnone, List.map_nil]
      exact List.forall_mem_nil _
  | @reread o j hrole hoperands hj hresult =>
      simp only [resultMentions, hrole, hoperands]
      intro id hid
      rw [List.mem_singleton.1 hid]
      exact List.mem_flatMap.2 ⟨j, hj, hresult⟩

theorem fault_eq_none (h : i.Idle before) (d : Dialect) : i.fault d = none := by
  cases h with
  | unmapped hrole _ => simp only [fault, hrole, Role.operandCount?]
  | reread hrole hoperands _ _ =>
      simp only [fault, hrole, Role.operandCount?, hoperands, List.length_singleton, if_true]

/-- What an idle instruction renders is remarks. -/
theorem filter_rendering (h : i.Idle before) (d : Dialect) (w : Wires) :
    (i.rendering d w).filter (fun o => !o.isRemark) = [] := by
  cases h with
  | unmapped hrole _ =>
      simp only [rendering, hrole]
      exact (List.filter_cons_of_neg (by simp [Operation.isRemark])).trans
        (Operation.filter_remarks _)
  | reread hrole hoperands _ _ =>
      simp only [rendering, hrole, hoperands]
      exact Operation.filter_remarks _

end Idle

end Instruction

/-- Every instruction that is taken out is idle after those before it that are kept. -/
def DropsIdle (kept : Nat → Bool) (is : List Instruction) : Prop :=
  ∀ p i, is[p]? = some i → kept p = false → i.Idle (keepAt kept (is.take p))

namespace DropsIdle

variable {kept : Nat → Bool} {is : List Instruction} {i : Instruction}

theorem of_concat (h : DropsIdle kept (is ++ [i])) : DropsIdle kept is := by
  intro p j hj hp
  have hidle := forall_taken_mono (List.prefix_append is [i]) h p j hj hp
  have hlt := (List.getElem?_eq_some_iff.1 hj).1
  rwa [List.take_append_of_le_length (Nat.le_of_lt hlt)] at hidle

theorem idle_last (h : DropsIdle kept (is ++ [i])) (hkept : kept is.length = false) :
    i.Idle (keepAt kept is) := by
  have hidle := h is.length i (by simp) hkept
  rwa [List.take_left] at hidle

end DropsIdle

/-- Reading a result again mentions nothing for the first time, so the results come in
    the same order. -/
theorem eraseDups_resultMentions_keepAt {kept : Nat → Bool} {is : List Instruction}
    (h : DropsIdle kept is) :
    ((keepAt kept is).flatMap Instruction.resultMentions).eraseDups
      = (is.flatMap Instruction.resultMentions).eraseDups := by
  induction is using List.reverseRecOn with
  | nil => rfl
  | append_singleton is i ih =>
      have hrest := ih h.of_concat
      rw [keepAt_concat, List.flatMap_append, List.flatMap_append, List.flatMap_singleton]
      cases hkept : kept is.length with
      | true =>
          rw [if_pos rfl, List.flatMap_singleton]
          exact Numbering.eraseDups_append_congr hrest _
      | false =>
          rw [if_neg (by simp), List.flatMap_nil, List.append_nil, hrest]
          -- What is left of the others mentions the same results as all of them.
          have hmet : ∀ id ∈ i.resultMentions, id ∈ is.flatMap Instruction.resultMentions := by
            intro id hid
            have hmem := (h.idle_last hkept).mem_resultMentions id hid
            rwa [← List.mem_eraseDups, hrest, List.mem_eraseDups] at hmem
          exact (Numbering.eraseDups_append_of_subset hmet).symm

/-! ### Blocks -/

namespace Block

variable {kept : Nat → Bool} {b : Block}

/-- The block with the instructions at the places that are kept. -/
def keepAt (kept : Nat → Bool) (b : Block) : Block :=
  { b with instructions := (QuantumIR.keepAt kept b.instructions.toList).toArray }

theorem toList_keepAt (kept : Nat → Bool) (b : Block) :
    (b.keepAt kept).instructions.toList = QuantumIR.keepAt kept b.instructions.toList :=
  rfl

variable (h : DropsIdle kept b.instructions.toList)

include h

theorem qubitMentions_keepAt : (b.keepAt kept).qubitMentions = b.qubitMentions := by
  rw [qubitMentions, qubitMentions, toList_keepAt]
  exact flatMap_keepAt fun p i hi hp => (h p i hi hp).qubitMentions_eq

theorem wires_keepAt : (b.keepAt kept).wires = b.wires := by
  -- A rank sees a history only up to repeated mentions.
  have hresults : Numbering.rank (b.keepAt kept).resultMentions
      = Numbering.rank b.resultMentions := by
    funext id
    rw [Numbering.rank, Numbering.rank, resultMentions, toList_keepAt,
      eraseDups_resultMentions_keepAt h, resultMentions]
  rw [wires, wires, Wires.ofMentions, Wires.ofMentions, qubitMentions_keepAt h, hresults]

theorem filter_rendering_keepAt (d : Dialect) :
    ((b.keepAt kept).rendering d).filter (fun o => !o.isRemark)
      = (b.rendering d).filter fun o => !o.isRemark := by
  rw [rendering, rendering, List.filter_flatMap, List.filter_flatMap, toList_keepAt,
    wires_keepAt h]
  exact flatMap_keepAt fun p i hi hp => (h p i hi hp).filter_rendering d b.wires

/-- The first miscounted instruction stays the first. -/
theorem findSome?_fault_keepAt (d : Dialect) :
    (b.keepAt kept).instructions.toList.findSome? (Instruction.fault d)
      = b.instructions.toList.findSome? (Instruction.fault d) := by
  -- The first error is the first of all errors, to which idle instructions add none.
  have hhead : ∀ is : List Instruction, is.findSome? (Instruction.fault d)
      = (is.flatMap fun i => (i.fault d).toList).head? := by
    intro is
    rw [List.head?_flatMap]
    simp only [Option.head?_toList]
  rw [hhead, hhead, toList_keepAt]
  refine congrArg List.head? (flatMap_keepAt fun p i hi hp => ?_)
  rw [(h p i hi hp).fault_eq_none d, Option.toList_none]

end Block

namespace Emission

/-- The two emissions have as many wires, and the same gates and measurements in the
    same order. -/
structure SameAction (e e' : Emission) : Prop where
  numQubits : e.qubits.size = e'.qubits.size
  numResults : e.results.size = e'.results.size
  operations : e.operations.toList.filter (fun o => !o.isRemark)
    = e'.operations.toList.filter fun o => !o.isRemark

variable {kept : Nat → Bool} {b : Block}

/-- Without idle instructions a block fails as before, or is emitted with the same
    action. -/
theorem ofBlock_keepAt (h : DropsIdle kept b.instructions.toList) (d : Dialect) :
    (∃ err, ofBlock d b = .error err ∧ ofBlock d (b.keepAt kept) = .error err)
      ∨ ∃ e e', ofBlock d b = .ok e ∧ ofBlock d (b.keepAt kept) = .ok e' ∧ e'.SameAction e := by
  have hfault := Block.findSome?_fault_keepAt h d
  cases hcase : b.instructions.toList.findSome? (Instruction.fault d) with
  | some err =>
      rw [hcase] at hfault
      exact .inl ⟨err, ofBlock_of_fault hcase, ofBlock_of_fault hfault⟩
  | none =>
      -- Nothing is miscounted in either block, so both emissions are known in closed form.
      rw [hcase, List.findSome?_eq_none_iff] at hfault
      rw [List.findSome?_eq_none_iff] at hcase
      rcases ofBlock_of_counted d b
        (fun i hi => (Instruction.fault_eq_none_iff d i).1 (hcase i hi)) with ⟨e, he, hfollows⟩
      rcases ofBlock_of_counted d (b.keepAt kept)
        (fun i hi => (Instruction.fault_eq_none_iff d i).1 (hfault i hi)) with
        ⟨e', he', hfollows'⟩
      refine .inr ⟨e, e', he, he', ?_, ?_, ?_⟩
      · rw [hfollows'.qubits.size_eq, hfollows.qubits.size_eq, Block.qubitMentions_keepAt h]
      · rw [hfollows'.results.size_eq, hfollows.results.size_eq, Block.resultMentions,
          Block.toList_keepAt, eraseDups_resultMentions_keepAt h, Block.resultMentions]
      · rw [hfollows'.operations, hfollows.operations, Block.filter_rendering_keepAt h]

/-! ### Sessions -/

section Sessions

variable {d : Dialect} {e : Emission} {cs : List Call}
  (hcomments : ∀ p c, cs[p]? = some c → kept p = false → ∃ text, c = .comment text)

include hcomments

theorem qubitMentions_session_keepAt :
    Session.qubitMentions b (keepAt kept cs) = Session.qubitMentions b cs := by
  rw [Session.qubitMentions, Session.qubitMentions]
  refine congrArg _ (flatMap_keepAt fun p c hc hp => ?_)
  rcases hcomments p c hc hp with ⟨text, rfl⟩
  rfl

theorem resultMentions_session_keepAt :
    Session.resultMentions b (keepAt kept cs) = Session.resultMentions b cs := by
  rw [Session.resultMentions, Session.resultMentions]
  refine congrArg _ (flatMap_keepAt fun p c hc hp => ?_)
  rcases hcomments p c hc hp with ⟨text, rfl⟩
  rfl

/-- Comments render remarks. -/
theorem filter_rendering_session_keepAt :
    (Session.rendering d b (keepAt kept cs)).filter (fun o => !o.isRemark)
      = (Session.rendering d b cs).filter fun o => !o.isRemark := by
  have hwires : Session.wires b (keepAt kept cs) = Session.wires b cs := by
    rw [Session.wires, Session.wires, qubitMentions_session_keepAt hcomments,
      resultMentions_session_keepAt hcomments]
  rw [Session.rendering, Session.rendering, hwires, List.filter_append, List.filter_append,
    List.filter_flatMap (l := cs), List.filter_flatMap (l := keepAt kept cs)]
  refine congrArg _ (flatMap_keepAt fun p c hc hp => ?_)
  rcases hcomments p c hc hp with ⟨text, rfl⟩
  exact Operation.filter_remarks text

/-- Without comments a session meets the same identities. -/
theorem follows_session_keepAt (he : ofBlock d b = .ok e) :
    (Session.run d e (keepAt kept cs)).Follows (Session.qubitMentions b cs)
      (Session.resultMentions b cs) (Session.rendering d b (keepAt kept cs)) := by
  rw [← qubitMentions_session_keepAt hcomments, ← resultMentions_session_keepAt hcomments]
  exact follows_session he (keepAt kept cs)

/-- Without comments a session has the same numberings. -/
theorem agrees_session_keepAt (he : ofBlock d b = .ok e) :
    (Session.run d e (keepAt kept cs)).qubits.Agrees (Session.run d e cs).qubits
      ∧ (Session.run d e (keepAt kept cs)).results.Agrees (Session.run d e cs).results := by
  have hall := follows_session he cs
  have hleft := follows_session_keepAt hcomments he
  exact ⟨hleft.qubits.agrees hall.qubits, hleft.results.agrees hall.results⟩

/-- Without comments a session has the same action. -/
theorem sameAction_session_keepAt (he : ofBlock d b = .ok e) :
    (Session.run d e (keepAt kept cs)).SameAction (Session.run d e cs) := by
  have hall := follows_session he cs
  have hleft := follows_session_keepAt hcomments he
  refine ⟨?_, ?_, ?_⟩
  · rw [hleft.qubits.size_eq, hall.qubits.size_eq]
  · rw [hleft.results.size_eq, hall.results.size_eq]
  · rw [hleft.operations, hall.operations, filter_rendering_session_keepAt hcomments]

end Sessions

/-! ### Artifacts -/

/-- All operations refer to wires that have a number, and all remarks are single
    lines. -/
structure Printable (e : Emission) : Prop where
  sound : e.Sound
  singleLine : ∀ o ∈ e.operations.toList, o.SingleLine

/-- Whatever is asked of an emission, its remarks are single lines. -/
theorem preserved_singleLine :
    Preserved (fun _ => True) fun e => ∀ o ∈ e.operations.toList, o.SingleLine :=
  preserved_forall (fun _ _ _ _ => trivial) (fun _ _ => trivial) fun _ h => h

theorem printable_ofBlock {d : Dialect} {e : Emission} (h : ofBlock d b = .ok e) :
    e.Printable where
  sound := preserved_sound.ofBlock (fun _ => trivial) trivial sound_empty h
  singleLine := preserved_singleLine.ofBlock (fun _ => trivial) trivial (by simp) h

theorem Printable.session {e : Emission} (h : e.Printable) (d : Dialect) (cs : List Call) :
    (Session.run d e cs).Printable where
  sound := preserved_sound.session (fun _ => trivial) trivial e cs (fun _ _ _ => trivial) h.sound
  singleLine := preserved_singleLine.session (fun _ => trivial) trivial e cs
    (fun _ _ _ => trivial) h.singleLine

end Emission

namespace Artifact

/-- The circuit that was made, if there is one, without its remarks. -/
def withoutRemarks? : Except ExportError Artifact → Option Circuit
  | .ok (.circuit c) => some c.withoutRemarks
  | _ => none

theorem withoutRemarks?_read (x : Except OpenQasm.Error Circuit) :
    withoutRemarks? ((x.map circuit).mapError .openQasm)
      = x.toOption.map Circuit.withoutRemarks := by
  cases x <;> rfl

/-- The circuit that is made of an emission depends, up to remarks, only on its wires and
    on what acts on them. -/
theorem withoutRemarks?_ofEmission {e e' : Emission} (h : e.SameAction e')
    (he : e.Printable) (he' : e'.Printable) (target : Target) (blockName : String) :
    withoutRemarks? (ofEmission target blockName e)
      = withoutRemarks? (ofEmission target blockName e') := by
  cases target with
  | openQasm => rfl
  | circuit =>
      rw [ofEmission, ofEmission, Emission.toCircuit_of_sound he.sound,
        Emission.toCircuit_of_sound he'.sound]
      simp only [Except.map, Except.mapError, withoutRemarks?, Circuit.withoutRemarks,
        Circuit.wireOperations, h.numQubits, h.numResults, h.operations]
  | openQasmCircuit =>
      -- The texts differ in comments only.
      have hregisters : OpenQasm.registers e = OpenQasm.registers e' := by
        rw [OpenQasm.registers, OpenQasm.registers, h.numQubits, h.numResults]
      rw [ofEmission, ofEmission, withoutRemarks?_read, withoutRemarks?_read,
        OpenQasm.circuit_withoutRemarks, OpenQasm.circuit_withoutRemarks,
        OpenQasm.actingLines_text he.singleLine, OpenQasm.actingLines_text he'.singleLine,
        hregisters, h.operations]

/-- **Neither idle instructions nor comments influence a circuit.** If the instructions
    that are taken out of a block are idle after those that are kept before them, the same
    circuit is made of it up to remarks, or none as before. If the calls that are taken out
    of a session are comments, its numberings agree at all times, and the same holds of
    what is made of it in the end. -/
theorem circuit_noninterference :
    (∀ (target : Target) (b : Block) (kept : Nat → Bool),
      DropsIdle kept b.instructions.toList →
        withoutRemarks? (ofBlock target (b.keepAt kept)) = withoutRemarks? (ofBlock target b))
    ∧ ∀ (target : Target) (b : Block) (e : Emission) (cs : List Call) (kept : Nat → Bool),
      Emission.ofBlock target.dialect b = .ok e →
      (∀ p c, cs[p]? = some c → kept p = false → ∃ text, c = .comment text) →
        (∀ count,
          (Session.run target.dialect e (keepAt kept (cs.take count))).qubits.Agrees
              (Session.run target.dialect e (cs.take count)).qubits
            ∧ (Session.run target.dialect e (keepAt kept (cs.take count))).results.Agrees
              (Session.run target.dialect e (cs.take count)).results)
        ∧ withoutRemarks?
            (ofEmission target b.name (Session.run target.dialect e (keepAt kept cs)))
          = withoutRemarks? (ofEmission target b.name (Session.run target.dialect e cs)) := by
  constructor
  · intro target b kept h
    rcases Emission.ofBlock_keepAt h target.dialect with
      ⟨err, herror, herror'⟩ | ⟨e, e', he, he', hsame⟩
    · rw [ofBlock, ofBlock, herror, herror']
    · rw [ofBlock, ofBlock, he, he']
      exact withoutRemarks?_ofEmission hsame (Emission.printable_ofBlock he')
        (Emission.printable_ofBlock he) target b.name
  · intro target b e cs kept he hcomments
    have hprintable := Emission.printable_ofBlock he
    constructor
    · -- Whatever is taken out of the first calls is a comment as well.
      intro count
      have hfirst := forall_taken_mono (List.take_prefix count cs) hcomments
      exact Emission.agrees_session_keepAt hfirst he
    · exact withoutRemarks?_ofEmission (Emission.sameAction_session_keepAt hcomments he)
        (hprintable.session _ _) (hprintable.session _ _) target b.name

/-- A block with calls that a circuit does not know and results that are read twice. -/
def chattyBlock : Block where
  name := "entry"
  instructions :=
    #[{ opcode := "__quantum__qis__x__body", operands := [.qubit (some 3)] },
      { opcode := "__quantum__rt__message", operands := [.integer 1, .raw "a\nmeasure q[0];"] },
      { opcode := "__quantum__qis__mz__body", operands := [.qubit (some 3), .result (some 7)] },
      { opcode := "__quantum__rt__read_result", operands := [.pointer (some 7)]
        output := some "a\n" },
      { opcode := "__quantum__rt__read_result", operands := [.result (some 9)] },
      { opcode := "__quantum__rt__read_result", operands := [.result (some 9)] }]

/-- All places but those of the call and of the results that are read again. -/
def spoken (p : Nat) : Bool :=
  p ∉ [1, 3, 5]

theorem dropsIdle_chattyBlock : DropsIdle spoken chattyBlock.instructions.toList := by
  intro p i hi hp
  have hplace : p ∈ [1, 3, 5] := by
    rwa [spoken, decide_eq_false_iff_not, not_not] at hp
  simp only [List.mem_cons, List.not_mem_nil, or_false] at hplace
  rcases hplace with rfl | rfl | rfl
  · cases hi
    exact .unmapped (by decide) (by decide)
  · have hmeasured : { opcode := "__quantum__qis__mz__body"
                       operands := [.qubit (some 3), .result (some 7)] }
        ∈ keepAt spoken (chattyBlock.instructions.toList.take 3) := by decide
    cases hi
    exact .reread (by decide) rfl hmeasured (by decide)
  · have hread : { opcode := "__quantum__rt__read_result", operands := [.result (some 9)] }
        ∈ keepAt spoken (chattyBlock.instructions.toList.take 5) := by decide
    cases hi
    exact .reread (by decide) rfl hread (by decide)

/-- Comments around a gate whose name breaks the text, and around a measurement. -/
def chattyCalls : List Call :=
  [.comment "one\nOPENQASM 2.0;", .gate ⟨"x q[0];\n//", 1⟩ [.qubit (some 3)],
    .measure (.qubit (some 4)) (.result (some 0)), .comment "// qreg q[1];"]

/-- The places of the calls that are no comments. -/
def quiet (p : Nat) : Bool :=
  p ∉ [0, 3]

theorem circuit_noninterference_chattyBlock :
    withoutRemarks? (ofBlock .circuit (chattyBlock.keepAt spoken))
        = some ⟨1, 2, #[.gate "X" [0], .measurement 0 0]⟩
      ∧ withoutRemarks? (ofBlock .openQasmCircuit (chattyBlock.keepAt spoken))
        = withoutRemarks? (ofBlock .openQasmCircuit chattyBlock)
      ∧ keepAt quiet chattyCalls = [.gate ⟨"x q[0];\n//", 1⟩ [.qubit (some 3)],
        .measure (.qubit (some 4)) (.result (some 0))]
      ∧ ∃ e, Emission.ofBlock OpenQasm.dialect chattyBlock = .ok e
        ∧ (Session.run OpenQasm.dialect e (keepAt quiet (chattyCalls.take 3))).qubits.Agrees
          (Session.run OpenQasm.dialect e (chattyCalls.take 3)).qubits
        ∧ withoutRemarks? (ofEmission .openQasmCircuit "entry"
            (Session.run OpenQasm.dialect e (keepAt quiet chattyCalls)))
          = withoutRemarks? (ofEmission .openQasmCircuit "entry"
            (Session.run OpenQasm.dialect e chattyCalls)) := by
  rcases Emission.ofBlock_of_counted Circuit.dialect chattyBlock (by decide) with
    ⟨e, he, hfollows⟩
  rcases Emission.ofBlock_of_counted OpenQasm.dialect chattyBlock (by decide) with ⟨e', he', -⟩
  have hsound := (Emission.printable_ofBlock he).sound
  have hvalue : withoutRemarks? (ofBlock .circuit chattyBlock)
      = some ⟨1, 2, #[.gate "X" [0], .measurement 0 0]⟩ := by
    rw [ofBlock, show Target.circuit.dialect = Circuit.dialect from rfl, he]
    simp only [ofEmission, Emission.toCircuit_of_sound hsound, Except.map, Except.mapError,
      withoutRemarks?, Circuit.withoutRemarks, Circuit.wireOperations, hfollows.operations,
      hfollows.qubits.size_eq, hfollows.results.size_eq]
    decide
  have hcomments : ∀ p c, chattyCalls[p]? = some c → quiet p = false →
      ∃ text, c = .comment text := by
    intro p c hc hp
    have hplace : p ∈ [0, 3] := by
      rwa [quiet, decide_eq_false_iff_not, not_not] at hp
    simp only [List.mem_cons, List.not_mem_nil, or_false] at hplace
    rcases hplace with rfl | rfl
    · cases hc
      exact ⟨_, rfl⟩
    · cases hc
      exact ⟨_, rfl⟩
  rcases circuit_noninterference.2 .openQasmCircuit chattyBlock e' chattyCalls quiet he' hcomments
    with ⟨hagrees, hsame⟩
  refine ⟨?_, ?_, by decide, e', he', (hagrees 3).1, hsame⟩
  · rw [circuit_noninterference.1 .circuit chattyBlock spoken dropsIdle_chattyBlock, hvalue]
  · exact circuit_noninterference.1 .openQasmCircuit chattyBlock spoken dropsIdle_chattyBlock

end Artifact


end QuantumIR
