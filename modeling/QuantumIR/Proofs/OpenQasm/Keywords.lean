import QuantumIR.Proofs.OpenQasm.FirstError

/-!
# Gates Named after Keywords

A declaration or a measurement that is not well formed need not be an error. The gate
is the last shape that is tried, and its name may be any word, so a line that opens
with a keyword and then does not go on as the keyword demands is a gate of that name if
it has the shape of one. `measure q[0];` is such a line: the result is missing, and
what is left reads like a gate on one qubit.

This is the only way in which a gate gets such a name. Lines of this kind (`Stray`) and
gates named after a keyword therefore come together in every text that is read. A
line of this kind is reported as malformed exactly if it is not a gate whose arguments
are elements of the declared register; otherwise nothing is reported but a qubit that
is out of range.

## Main definitions

* `keywords`: The words that open declarations and measurements.
* `OpensWith`: The first word of a line is a given one.
* `Stray`: A line opens with a keyword and is no declaration and no measurement.
* `AppliesTo`: A line reads as a gate on elements of the declared register.

## Theorems

* `Stray.exists_gate`, `stray_of_reads`: Such lines are gates of this name, if they are
  statements at all.
* `Stray.read_eq_ok_iff`: When such a line is accepted, and as what.
* `exists_gate_iff_stray`: Which texts have gates of these names.
* `keywords_asGates`: What becomes of such lines.
-/

namespace QuantumIR

namespace OpenQasm

open Text

/-- The words that open declarations and measurements. -/
def keywords : List String :=
  ["measure", RegisterKind.keyword .quantum, RegisterKind.keyword .classical]

/-- The first word of the line is the given one. -/
def OpensWith (word : String) (line : List Char) : Prop :=
  ∃ rest, line = word.toList ++ rest ∧ Stops isWordChar rest

/-- The line opens with a keyword and is neither a declaration nor a measurement. -/
structure Stray (keyword : String) (line : List Char) : Prop where
  mem : keyword ∈ keywords
  opens : OpensWith keyword line
  noDeclaration : ∀ kind e, ¬ DeclarationShape kind e line
  noMeasurement : ∀ q r, ¬ MeasurementShape q r line

/-- The line has the shape of a gate of the given name, its arguments are elements of the
    quantum register that the earlier lines declare, and these are their numbers. -/
def AppliesTo (earlier : List (List Char)) (name : String) (line : List Char)
    (targets : List Nat) : Prop :=
  ∃ args, GateShape name args line
    ∧ List.Forall₂ (fun arg i => ∃ e size, ElementShape e arg
        ∧ Declares earlier .quantum e.register size ∧ e.value < Decimal.limit64
        ∧ e.value = i) args targets

/-! ### First words -/

theorem isIdentifier_of_mem_keywords {keyword : String} (h : keyword ∈ keywords) :
    IsIdentifier keyword.toList := by
  have hall : ∀ w ∈ keywords, ∃ a t, w.toList = a :: t ∧ isIdentifierStart a = true
      ∧ t.all isWordChar = true := by
    intro w hw
    simp only [keywords, List.mem_cons, List.not_mem_nil, or_false] at hw
    rcases hw with rfl | rfl | rfl
    · exact ⟨'m', "easure".toList, rfl, by decide, by decide⟩
    · exact ⟨'q', "reg".toList, rfl, by decide, by decide⟩
    · exact ⟨'c', "reg".toList, rfl, by decide, by decide⟩
  rcases hall keyword h with ⟨a, t, htext, ha, ht⟩
  exact ⟨a, t, htext, ha, List.all_eq_true.1 ht⟩

/-- The name of a gate is the first word of its line. -/
theorem GateShape.opensWith {name : String} {args : List (List Char)} {line : List Char}
    (h : GateShape name args line) : OpensWith name line := by
  rcases h with ⟨-, hne, hg, -, -⟩
  refine ⟨_, by rw [String.toList_ofList], ?_⟩
  exact stops_gap_append_of_ne_nil (fun _ => isWordChar_of_isSpace) hne hg _

theorem GateShape.isIdentifier {name : String} {args : List (List Char)} {line : List Char}
    (h : GateShape name args line) : IsIdentifier name.toList := by
  rcases h with ⟨hname, -, -, -, -⟩
  rwa [String.toList_ofList]

theorem GateShape.args_ne_nil {name : String} {args : List (List Char)} {line : List Char}
    (h : GateShape name args line) : args ≠ [] := by
  rcases h with ⟨-, -, -, -, -⟩
  simp

/-- A line has one first word. -/
theorem OpensWith.unique {word word' : String} {line : List Char} (h : OpensWith word line)
    (h' : OpensWith word' line) (hword : IsIdentifier word.toList)
    (hword' : IsIdentifier word'.toList) : word = word' := by
  rcases h with ⟨rest, rfl, hrest⟩
  rcases h' with ⟨rest', heq, hrest'⟩
  have hsame := append_inj_of_stops heq hword.isWordChar hrest hword'.isWordChar hrest'
  exact String.toList_inj.1 hsame.1

/-! ### Lines that open with a keyword -/

namespace Stray

variable {keyword : String} {line : List Char}

theorem isIdentifier (h : Stray keyword line) : IsIdentifier keyword.toList :=
  isIdentifier_of_mem_keywords h.mem

theorem exists_head (h : Stray keyword line) :
    ∃ c rest, line = c :: rest ∧ c ∈ ['m', 'q', 'c'] := by
  -- Each keyword is known by its first letter, and no line of another kind begins with one
  -- of the three.
  rcases h.opens with ⟨rest, rfl, -⟩
  have hmem := h.mem
  simp only [keywords, List.mem_cons, List.not_mem_nil, or_false] at hmem
  rcases hmem with rfl | rfl | rfl
  · exact ⟨'m', _, rfl, by decide⟩
  · exact ⟨'q', _, rfl, by decide⟩
  · exact ⟨'c', _, rfl, by decide⟩

theorem not_inclusionShape (h : Stray keyword line) : ¬ InclusionShape line := by
  rcases h.exists_head with ⟨c, rest, rfl, hc⟩
  rintro ⟨u, hu⟩
  cases (List.cons.inj hu).1
  exact absurd hc (by decide)

theorem not_isAside (h : Stray keyword line) : ¬ IsAside line := by
  rcases h.exists_head with ⟨c, rest, rfl, hc⟩
  rintro (hnil | ⟨u, hu⟩)
  · cases hnil
  · cases (List.cons.inj hu).1
    exact absurd hc (by decide)

theorem ne_version (h : Stray keyword line) : line ≠ version.toList := by
  rcases h.exists_head with ⟨c, rest, rfl, hc⟩
  intro hversion
  cases (List.cons.inj hversion).1
  exact absurd hc (by decide)

/-- If such a line is a statement, it is a gate of this name. -/
theorem exists_gate (h : Stray keyword line) {statement : Statement}
    (hread : Reads line statement) :
    ∃ args, statement = .gate keyword args ∧ GateShape keyword args line := by
  cases hread with
  | inclusion hi => exact absurd hi h.not_inclusionShape
  | declaration _ hd => exact absurd hd (h.noDeclaration _ _)
  | measurement _ _ hm => exact absurd hm (h.noMeasurement _ _)
  | gate _ _ _ hg =>
      cases h.opens.unique hg.opensWith h.isIdentifier hg.isIdentifier
      exact ⟨_, rfl, hg⟩

theorem reads_gate (h : Stray keyword line) {args : List (List Char)}
    (hg : GateShape keyword args line) : Reads line (.gate keyword args) :=
  .gate h.not_inclusionShape h.noDeclaration h.noMeasurement hg

end Stray

theorem stray_of_reads {keyword : String} {line : List Char} {args : List (List Char)}
    (hmem : keyword ∈ keywords) (h : Reads line (.gate keyword args)) : Stray keyword line := by
  cases h with
  | gate _ hd hm hg => exact ⟨hmem, hg.opensWith, hd, hm⟩

theorem Leaves.versioned_of_declares {ls : List (List Char)} {s : State} (h : Leaves ls s)
    {kind : RegisterKind} {name : String} {size : Nat} (hdeclares : Declares ls kind name size) :
    s.versioned = true := by
  cases h with
  | asides h =>
      rcases hdeclares with ⟨l, hl, e, hread, -⟩
      exact absurd (h l hl) hread.not_isAside
  | versioned _ _ htracks => exact htracks.versioned

/-- The elements of the declared register are those that a gate can refer to. -/
theorem Leaves.resolves_iff {ls : List (List Char)} {s : State} (h : Leaves ls s)
    {arg : List Char} {i : Nat} :
    s.Resolves arg i ↔ ∃ e size, ElementShape e arg
      ∧ Declares ls .quantum e.register size ∧ e.value < Decimal.limit64 ∧ e.value = i := by
  constructor
  · rintro ⟨e, hshape, hknows, hvalue⟩
    exact ⟨e, _, hshape, declares_of_knows h.declares_iff hknows, hknows.fits, hvalue⟩
  · rintro ⟨e, size, hshape, hdeclares, hfits, hvalue⟩
    exact ⟨e, hshape, ⟨((h.declares_iff _ _ _).1 hdeclares).1, hfits⟩, hvalue⟩

/-- A line that opens with a keyword, and is not what the keyword announces, is accepted
    exactly if it can be read as a gate of that name on the declared register. -/
theorem Stray.read_eq_ok_iff {keyword : String} {line : List Char} {earlier : List (List Char)}
    {s t : State} {o : Option Operation} (h : Stray keyword line) (hs : Leaves earlier s) :
    s.read line = .ok (t, o)
      ↔ t = s ∧ ∃ targets, o = some (.gate keyword targets)
        ∧ AppliesTo earlier keyword line targets := by
  rw [State.read_of_not_isAside h.not_isAside]
  constructor
  · rintro (⟨-, statement, hread, heffect⟩ | ⟨-, hversion, -, -⟩)
    · rcases h.exists_gate hread with ⟨args, rfl, hg⟩
      cases heffect with
      | gate _ hargs =>
          refine ⟨rfl, _, rfl, args, hg, hargs.imp fun _ _ => hs.resolves_iff.1⟩
    · exact absurd hversion h.ne_version
  · rintro ⟨rfl, targets, rfl, args, hg, hargs⟩
    -- There is an argument, so a register has been declared, and before it the version.
    have hversioned : t.versioned = true := by
      cases hargs with
      | nil => exact absurd rfl hg.args_ne_nil
      | cons hfirst _ =>
          rcases hfirst with ⟨e, size, -, hdeclares, -⟩
          exact hs.versioned_of_declares hdeclares
    refine .inl ⟨hversioned, _, h.reads_gate hg, ?_⟩
    exact .gate keyword (hargs.imp fun _ _ => hs.resolves_iff.2)

/-! ### Texts -/

theorem exists_of_mem_forall₂ {α β : Type} {R : α → β → Prop} {xs : List α} {ys : List β}
    (h : List.Forall₂ R xs ys) {x : α} (hx : x ∈ xs) : ∃ y ∈ ys, R x y := by
  induction h with
  | nil => cases hx
  | cons hfirst _ ih =>
      rcases List.mem_cons.1 hx with rfl | hx
      · exact ⟨_, List.mem_cons_self, hfirst⟩
      · rcases ih hx with ⟨y, hy, hR⟩
        exact ⟨y, List.mem_cons_of_mem _ hy, hR⟩

/-- Gates named after keywords come from lines that are not what the keyword announces,
    and every such line of a text that is read adds one. -/
theorem exists_gate_iff_stray {text : String} {c : Circuit} (h : circuit text = .ok c)
    {keyword : String} (hmem : keyword ∈ keywords) :
    (∃ targets, .gate keyword targets ∈ c.operations.toList)
      ↔ ∃ l ∈ trimmedLines text, Stray keyword l := by
  rcases circuit_eq_ok_iff_run.1 h with ⟨s, hrun, rfl⟩
  have hleaves := leaves_of_run hrun
  -- The lines and the state are all that is needed, so the text is forgotten.
  rw [trimmedLines]
  generalize (lines text.toList).map trim = ls at hleaves
  cases hleaves with
  | asides hls =>
      constructor
      · rintro ⟨targets, hgate⟩
        exact absurd hgate (by simp)
      · rintro ⟨l, hl, hstray⟩
        exact absurd (hls l hl) hstray.not_isAside
  | @versioned before body _ hbefore _ htracks =>
      rcases htracks.operations with ⟨opss, hall, hops⟩
      rw [hops]
      constructor
      · rintro ⟨targets, hgate⟩
        rcases List.mem_flatten.1 hgate with ⟨ops, hmemops, hgate⟩
        rcases exists_of_mem_forall₂ hall.flip hmemops with ⟨l, hl, hadds⟩
        refine ⟨l, List.mem_append_right _ (List.mem_cons_of_mem _ hl), ?_⟩
        -- Of all lines only a gate adds a gate, and it has this name.
        cases hadds with
        | blank _ => cases hgate
        | comment _ => cases List.mem_singleton.1 hgate
        | statement hread hadds =>
            cases hadds with
            | inclusion => cases hgate
            | declaration _ _ => cases hgate
            | measurement _ _ => cases List.mem_singleton.1 hgate
            | gate _ _ =>
                cases List.mem_singleton.1 hgate
                exact stray_of_reads hmem hread
      · rintro ⟨l, hl, hstray⟩
        -- No line up to the version opens with a keyword.
        rw [List.mem_append, List.mem_cons] at hl
        rcases hl with hl | rfl | hl
        · exact absurd (hbefore l hl) hstray.not_isAside
        · exact absurd rfl hstray.ne_version
        -- The line adds something, so it is a statement, and then a gate of this name.
        rcases exists_of_mem_forall₂ hall hl with ⟨ops, hmemops, hadds⟩
        cases hadds with
        | blank hl => exact absurd (.inl hl) hstray.not_isAside
        | comment hl => exact absurd (isAside_iff.2 (.inr ⟨_, hl⟩)) hstray.not_isAside
        | statement hread hadds =>
            rcases hstray.exists_gate hread with ⟨args, rfl, -⟩
            cases hadds with
            | @gate _ _ targets _ =>
                exact ⟨targets, List.mem_flatten.2 ⟨_, hmemops, List.mem_singleton_self _⟩⟩

section Places

variable {text : String} {place : Nat} {l : List Char} {s : State}

/-- The state in which a line of a text is read, if the lines before it are. -/
theorem exists_run_of_firstLines {c : Circuit} (hl : (trimmedLines text)[place]? = some l)
    (h : circuit (firstLines place text) = .ok c) :
    ∃ m s, (lines text.toList)[place]? = some m ∧ trim m = l
      ∧ runLines step 1 ((lines text.toList).take place) {} = .ok s ∧ s.circuit = c
      ∧ Leaves ((trimmedLines text).take place) s := by
  rw [trimmedLines, List.getElem?_map, Option.map_eq_some_iff] at hl
  rcases hl with ⟨m, hm, hml⟩
  rw [circuit_firstLines] at h
  cases hrun : run 1 ((lines text.toList).take place) {} with
  | error err =>
      rw [hrun] at h
      cases h
  | ok s =>
      rw [hrun] at h
      cases h
      have hleaves := leaves_of_run hrun
      rw [List.map_take] at hleaves
      exact ⟨m, s, hm, hml, by rw [← run_eq_runLines, hrun], rfl, hleaves⟩

variable (hl : (lines text.toList)[place]? = some l)
  (hbefore : runLines step 1 ((lines text.toList).take place) {} = .ok s)

include hl hbefore

/-- With one line more, the text is read as far as this line goes. -/
theorem circuit_firstLines_succ :
    circuit (firstLines (place + 1) text) = (step (place + 1) l s).map State.circuit := by
  have hlength : ((lines text.toList).take place).length = place :=
    List.length_take_of_le (Nat.le_of_lt (List.getElem?_eq_some_iff.1 hl).1)
  rw [circuit_firstLines, List.take_add_one, hl, Option.toList_some, run_eq_runLines,
    runLines_append, hbefore, hlength, Nat.add_comm 1 place, Except.bind, runLines_singleton]

/-- A line is reported as malformed exactly if it says nothing in its place. -/
theorem circuit_eq_malformed_iff {fault : Fault} :
    circuit text = .error (.malformed (place + 1) fault) ↔ s.read (trim l) = .error fault := by
  constructor
  · intro h
    -- The number says which line was refused, and there is one state before it.
    rcases circuit_eq_error_iff.1 h with ⟨place', hrefused⟩
    cases number_of_refusedAt hrefused
    rcases hrefused with ⟨hl', hbefore', hstep⟩
    rw [hl, Option.some.injEq] at hl'
    rw [hbefore, Except.ok.injEq] at hbefore'
    rw [← hl', ← hbefore'] at hstep
    rcases step_eq_error_iff.1 hstep with ⟨_, hread, herror⟩ | ⟨_, _, _, -, -, herror⟩
    · cases herror
      exact hread
    · cases herror
  · intro hread
    refine circuit_eq_error_iff.2 ⟨place, .intro hl hbefore ?_⟩
    exact step_eq_error_iff.2 (.inl ⟨fault, hread, rfl⟩)

end Places

/-- **What becomes of lines that open with a keyword, and are neither a declaration nor a
    measurement.** A text that is read has gates named after the keyword exactly if it has
    such lines. If the lines before one are read, and it reads as a gate on elements of
    the declared register, it is that gate, and nothing can be wrong with it but a qubit
    out of range. It is reported as malformed, on its line, exactly if it cannot be read
    in this way. -/
theorem keywords_asGates (text : String) :
    (∀ c, circuit text = .ok c → ∀ keyword ∈ keywords,
      ((∃ targets, .gate keyword targets ∈ c.operations.toList)
        ↔ ∃ l ∈ trimmedLines text, Stray keyword l))
    ∧ ∀ place keyword l c, (trimmedLines text)[place]? = some l → Stray keyword l →
        circuit (firstLines place text) = .ok c →
      (∀ targets, AppliesTo ((trimmedLines text).take place) keyword l targets →
        circuit (firstLines (place + 1) text)
          = (c.gate keyword targets).result.mapError .outOfRange)
      ∧ ((∃ fault, circuit text = .error (.malformed (place + 1) fault))
        ↔ ∀ targets, ¬ AppliesTo ((trimmedLines text).take place) keyword l targets) := by
  refine ⟨fun c hc keyword hmem => exists_gate_iff_stray hc hmem, ?_⟩
  intro place keyword l c hl hstray hfirst
  rcases exists_run_of_firstLines hl hfirst with ⟨m, s, hm, rfl, hbefore, rfl, hleaves⟩
  constructor
  · intro targets hgate
    have hread : s.read (trim m) = .ok (s, some (.gate keyword targets)) :=
      (hstray.read_eq_ok_iff hleaves).2 ⟨rfl, targets, rfl, hgate⟩
    rw [circuit_firstLines_succ hm hbefore, step, hread]
    simp only [Circuit.add]
    cases (s.circuit.gate keyword targets).result <;> rfl
  · simp only [circuit_eq_malformed_iff hm hbefore]
    constructor
    · rintro ⟨fault, hfault⟩ targets hgate
      rw [(hstray.read_eq_ok_iff hleaves).2 ⟨rfl, targets, rfl, hgate⟩] at hfault
      cases hfault
    · intro hno
      cases hread : s.read (trim m) with
      | error fault => exact ⟨fault, rfl⟩
      | ok said =>
          rcases (hstray.read_eq_ok_iff hleaves).1 hread with ⟨-, targets, -, hgate⟩
          exact absurd hgate (hno targets)

/-- A measurement without a result. -/
def bareMeasure : String :=
  "OPENQASM 2.0;\nqreg q[1];\nmeasure q[0];"

/-- The result of the measurement is one of its arguments, which belongs to the wrong
    register. -/
def commaMeasure : String :=
  "OPENQASM 2.0;\nqreg q[1];\ncreg c[1];\nmeasure\tq[0], c[0];"

theorem stray_bareMeasure : Stray "measure" "measure q[0];".toList := by
  have hread : Reads "measure q[0];".toList (.gate "measure" ["q[0]".toList]) :=
    Statement.parse?_eq_some_iff.1 (by decide +kernel)
  exact stray_of_reads (by decide) hread

theorem stray_commaMeasure : Stray "measure" "measure\tq[0], c[0];".toList := by
  have hread : Reads "measure\tq[0], c[0];".toList
      (.gate "measure" ["q[0]".toList, "c[0]".toList]) :=
    Statement.parse?_eq_some_iff.1 (by decide +kernel)
  exact stray_of_reads (by decide) hread

/-- One of the two is a gate, and the other is reported. -/
theorem keywords_asGates_bareMeasure :
    circuit bareMeasure = .ok ⟨1, 0, #[.gate "measure" [0]]⟩
      ∧ (∃ l ∈ trimmedLines bareMeasure, Stray "measure" l)
      ∧ (∃ targets, AppliesTo ((trimmedLines bareMeasure).take 2) "measure"
          "measure q[0];".toList targets
        ∧ circuit (firstLines 3 bareMeasure)
          = ((⟨1, 0, #[]⟩ : Circuit).gate "measure" targets).result.mapError .outOfRange)
      ∧ circuit commaMeasure = .error (.malformed 4 (.undeclaredRegister "c"))
      ∧ ∀ targets, ¬ AppliesTo ((trimmedLines commaMeasure).take 3) "measure"
          "measure\tq[0], c[0];".toList targets := by
  have hbare : circuit bareMeasure = .ok ⟨1, 0, #[.gate "measure" [0]]⟩ := by decide +kernel
  have hcomma : circuit commaMeasure = .error (.malformed 4 (.undeclaredRegister "c")) := by
    decide +kernel
  have hbareLine : (trimmedLines bareMeasure)[2]? = some "measure q[0];".toList := by
    decide +kernel
  have hcommaLine : (trimmedLines commaMeasure)[3]? = some "measure\tq[0], c[0];".toList := by
    decide +kernel
  rcases keywords_asGates bareMeasure with ⟨hgates, hlines⟩
  rcases hlines 2 _ _ ⟨1, 0, #[]⟩ hbareLine stray_bareMeasure (by decide +kernel) with
    ⟨hgate, hreported⟩
  rcases (keywords_asGates commaMeasure).2 3 _ _ ⟨1, 1, #[]⟩ hcommaLine stray_commaMeasure
    (by decide +kernel) with ⟨-, hreported'⟩
  have hstray := (hgates _ hbare "measure" (by decide)).1 ⟨[0], by simp⟩
  refine ⟨hbare, hstray, ?_, hcomma, hreported'.1 ⟨_, hcomma⟩⟩
  by_contra hno
  have hmalformed := hreported.2 fun targets htargets =>
    hno ⟨targets, htargets, hgate targets htargets⟩
  rcases hmalformed with ⟨fault, hfault⟩
  rw [hbare] at hfault
  cases hfault

/-- A measurement that lacks its result is not reported. It becomes a gate, and the
    circuit has no result at all. -/
theorem not_reported_bareMeasure :
    Stray "measure" "measure q[0];".toList
      ∧ (trimmedLines bareMeasure)[2]? = some "measure q[0];".toList
      ∧ circuit bareMeasure = .ok ⟨1, 0, #[.gate "measure" [0]]⟩
      ∧ ∀ number fault, circuit bareMeasure ≠ .error (.malformed number fault) := by
  have hread : circuit bareMeasure = .ok ⟨1, 0, #[.gate "measure" [0]]⟩ := by decide +kernel
  refine ⟨stray_bareMeasure, by decide +kernel, hread, ?_⟩
  intro number fault herror
  rw [hread] at herror
  cases herror

end OpenQasm

end QuantumIR
