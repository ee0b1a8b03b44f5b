import Mathlib.Data.List.Forall2
import QuantumIR.Proofs.Assembly.Codes
import QuantumIR.Proofs.Text.LineByLine

/-!
# The Reader Is Complete

Every text that the grammar allows for a list of functions is read as exactly this
list. The proof follows the grammar: a lemma for each relation says from which state
to which its codes lead. `Leads` quantifies over the lines that follow and over the
number of the first line, so nothing has to be said about reading a part of a text
and line numbers, which matter to errors only, are counted in one place.

The state has one field that the grammar does not show, the flag for an open table.
It is down at the beginning and the end of every rule: only the rule for a table
raises it, and the last line of the table takes it down again.

## Main definitions

* `Leads`: Codes take the reader from one state to another.

## Theorems

* `leads_bodyText`, `leads_blocksText`, `leads_functionText`, `leads_moduleText`: What
  the reader makes of the codes of each rule.
* `run_eq_runLines`, `tolerates_step`: The reader goes line by line.
* `run_framed`: Lines are read as their codes.
* `exists_moduleText`: Every list of functions that the grammar speaks of has a text.
* `functions_complete`: Every text of a list of functions is read as this list.
-/

namespace QuantumIR

namespace Assembly

open Text

/-! ### Single steps -/

section Steps

variable {number : Nat} {finished : Array FunctionDef} {f : OpenFunction} {t : String}

theorem step_inside {line : List Char} (hne : line ≠ []) (table : Bool) :
    step number line ⟨finished, some f, table⟩
      = stepInside number line ⟨finished, some f, table⟩ f := by
  rw [step, if_neg (by simpa using hne)]

theorem step_callText {i : Instruction} (h : CallText i t) :
    step number t.toList ⟨finished, some f, false⟩ = .ok ⟨finished, some (f.push i), false⟩ := by
  have hread := call?_callText h
  -- A line that is read as a call is neither empty nor the closing brace.
  have hempty : t.toList ≠ [] := ne_of_apply_ne call? (by rw [hread]; exact nofun)
  have hbrace : t.toList ≠ ['\x7d'] := ne_of_apply_ne call? (by rw [hread]; exact nofun)
  rcases callText_first h with ⟨hlabel, hterminator⟩
  rw [step_inside hempty, stepInside, if_neg Bool.false_ne_true, if_neg hbrace, hlabel]
  simp only [hterminator, instruction_callText h]
  rfl

/-- A terminator says whether a table follows, and nothing else. -/
theorem step_terminatorText {word : String} (h : TerminatorText word t) :
    step number t.toList ⟨finished, some f, false⟩
      = .ok ⟨finished, some f, opensTable t.toList⟩ := by
  have hterminator := h.isTerminator
  have hempty : t.toList ≠ [] := ne_of_apply_ne isTerminator (by rw [hterminator]; decide)
  have hbrace : t.toList ≠ ['\x7d'] := ne_of_apply_ne isTerminator (by rw [hterminator]; decide)
  rw [step_inside hempty, stepInside, if_neg Bool.false_ne_true, if_neg hbrace,
    h.label?_eq_none]
  simp only [hterminator, if_true]

/-- A row of a table that does not close it leaves the state as it is. -/
theorem step_row (h : ']' ∉ t.toList) :
    step number t.toList ⟨finished, some f, true⟩ = .ok ⟨finished, some f, true⟩ := by
  by_cases hempty : t.toList = []
  · rw [hempty]
    rfl
  · have hflag : (!t.toList.contains ']') = true := by simpa using h
    rw [step_inside hempty, stepInside, if_pos rfl, hflag]

theorem step_lastRow (h : ']' ∈ t.toList) :
    step number t.toList ⟨finished, some f, true⟩ = .ok ⟨finished, some f, false⟩ := by
  have hempty : t.toList ≠ [] := List.ne_nil_of_mem h
  have hflag : (!t.toList.contains ']') = false := by simpa using h
  rw [step_inside hempty, stepInside, if_pos rfl, hflag]

theorem step_label {label : String} (h : IsName label) :
    step number (label ++ ":").toList ⟨finished, some f, false⟩
      = .ok ⟨finished, some (f.startBlock label), false⟩ := by
  have hread := label?_written h
  have hempty : (label ++ ":").toList ≠ [] := ne_of_apply_ne label? (by rw [hread]; exact nofun)
  have hbrace : (label ++ ":").toList ≠ ['\x7d'] :=
    ne_of_apply_ne label? (by rw [hread]; exact nofun)
  rw [step_inside hempty, stepInside, if_neg Bool.false_ne_true, if_neg hbrace, hread]

theorem step_brace :
    step number "\x7d".toList ⟨finished, some f, false⟩
      = .ok ⟨finished.push f.close, none, false⟩ := by
  rw [step_inside (by decide), stepInside, if_neg Bool.false_ne_true, if_pos (by decide)]

theorem step_headerText {name : String} (h : HeaderText name t) :
    step number t.toList ⟨finished, none, false⟩ = .ok ⟨finished, some { name }, false⟩ := by
  have hread := header?_headerText h
  have hempty : t.toList ≠ [] := ne_of_apply_ne header? (by rw [hread]; exact nofun)
  rw [step, if_neg (by simpa using hempty)]
  simp only [stepOutside, hread]

theorem step_outside (h : ¬ "define".toList <+: t.toList) :
    step number t.toList ⟨finished, none, false⟩ = .ok ⟨finished, none, false⟩ := by
  by_cases hempty : t.toList = []
  · rw [hempty]
    rfl
  · rw [step, if_neg (by simpa using hempty)]
    simp only [stepOutside, header?_of_not_isPrefix h]

end Steps

/-! ### Runs -/

/-- The codes lead from one state to another, wherever they stand and whatever
    follows them. -/
def Leads (ts : List String) (s s' : State) : Prop :=
  ∀ number ls, run number (ts.map String.toList ++ ls) s = run (number + ts.length) ls s'

namespace Leads

theorem nil (s : State) : Leads [] s s :=
  fun _ _ => rfl

theorem cons {t : String} {ts : List String} {s s' s'' : State} (ht : IsCode t)
    (hstep : ∀ number, step number t.toList s = .ok s') (h : Leads ts s' s'') :
    Leads (t :: ts) s s'' := by
  intro number ls
  rw [List.map_cons, List.cons_append, run, content_of_isCode ht, hstep]
  simp only []
  rw [h, List.length_cons, Nat.add_assoc, Nat.add_comm 1]

theorem append {ts us : List String} {s s' s'' : State} (h : Leads ts s s') (h' : Leads us s' s'') :
    Leads (ts ++ us) s s'' := by
  intro number ls
  rw [List.map_append, List.append_assoc, h, h', List.length_append, Nat.add_assoc]

end Leads

section Runs

variable {finished : Array FunctionDef} {f : OpenFunction}

theorem leads_rows {rows : List String} (hrows : ∀ row ∈ rows, IsCode row ∧ ']' ∉ row.toList) :
    Leads rows ⟨finished, some f, true⟩ ⟨finished, some f, true⟩ := by
  induction rows with
  | nil => exact .nil _
  | cons row rows ih =>
      rcases hrows row List.mem_cons_self with ⟨hcode, hopen⟩
      exact .cons hcode (fun _ => step_row hopen)
        (ih fun r hr => hrows r (List.mem_cons_of_mem _ hr))

/-- The codes of calls add these calls to the open function. Terminators add
    nothing, and a table is passed over to its end. -/
theorem leads_bodyText {is : List Instruction} {ts : List String} (h : BodyText is ts) :
    Leads ts ⟨finished, some f, false⟩ ⟨finished, some (is.foldl OpenFunction.push f), false⟩ := by
  induction h generalizing f with
  | nil => exact .nil _
  | blank hrest ih => exact .cons ⟨by decide, by decide⟩ (fun _ => rfl) ih
  | call hcall hrest ih => exact .cons hcall.isCode (fun _ => step_callText hcall) ih
  | @terminator word t is ts ht hends hrest ih =>
      have hflag : opensTable t.toList = false := by
        rw [← Bool.not_eq_true, ht.opensTable_iff]
        exact hends
      refine .cons ht.code (fun _ => step_terminatorText ht) ?_
      rw [hflag]
      exact ih
  | @table word t last rows is ts ht hgoes hrows hlast hclose hrest ih =>
      -- The flag goes up with the first line of the table and down with its last.
      have hflag : opensTable t.toList = true := ht.opensTable_iff.2 hgoes
      refine .cons ht.code (fun _ => step_terminatorText ht) ?_
      rw [hflag]
      exact (leads_rows hrows).append (.cons hlast (fun _ => step_lastRow hclose) ih)

/-- Calls that are added to a block stay in it. -/
theorem foldl_push_of_some {b : Block} (hb : f.current = some b) (is : List Instruction) :
    is.foldl OpenFunction.push f
      = { f with current := some { b with instructions := b.instructions ++ is.toArray } } := by
  induction is generalizing f b with
  | nil =>
      rw [List.foldl_nil, Array.append_empty, ← hb]
  | cons i is ih =>
      have hpush : (f.push i).current = some (b.push i) := by simp [OpenFunction.push, hb]
      rw [List.foldl_cons, ih hpush]
      simp [OpenFunction.push, Block.push]

/-- Calls before the first label open the block that has none. -/
theorem blocks_foldl_push_entry (name : String) (is : List Instruction) :
    (is.foldl OpenFunction.push { name }).blocks = (entryBlocks is).toArray := by
  cases is with
  | nil => rfl
  | cons i is =>
      have hpush : (OpenFunction.push { name } i).current
          = some (Block.push { name := "0" } i) := rfl
      rw [List.foldl_cons, foldl_push_of_some hpush]
      simp [OpenFunction.blocks, OpenFunction.push, Block.push, entryBlocks]

theorem foldl_push_name (f : OpenFunction) (is : List Instruction) :
    (is.foldl OpenFunction.push f).name = f.name := by
  induction is generalizing f with
  | nil => rfl
  | cons i is ih => exact ih (f.push i)

/-- The codes of labelled blocks add these blocks to the open function. -/
theorem leads_blocksText {bs : List Block} {us : List String} (h : BlocksText bs us) :
    ∃ g : OpenFunction, Leads us ⟨finished, some f, false⟩ ⟨finished, some g, false⟩
      ∧ g.name = f.name ∧ g.blocks = f.blocks ++ bs.toArray := by
  induction h generalizing f with
  | nil => exact ⟨f, .nil _, rfl, by simp⟩
  | @cons label is bs ts us hlabel hbody hrest ih =>
      -- The label opens an empty block, which the calls then fill.
      have hfilled := foldl_push_of_some (f := f.startBlock label) (b := { name := label }) rfl is
      have hname := foldl_push_name (f.startBlock label) is
      rcases @ih (is.foldl OpenFunction.push (f.startBlock label)) with
        ⟨g, hleads, hgname, hgblocks⟩
      refine ⟨g, ?_, hgname.trans hname, ?_⟩
      · exact .cons (isCode_label hlabel) (fun _ => step_label hlabel)
          ((leads_bodyText hbody).append hleads)
      · rw [hgblocks, hfilled]
        simp [OpenFunction.blocks, OpenFunction.startBlock]

theorem leads_functionText {d : FunctionDef} {ts : List String} (h : FunctionText d ts) :
    Leads ts ⟨finished, none, false⟩ ⟨finished.push d, none, false⟩ := by
  rcases h with @⟨name, header, is, bs, ts, us, hheader, hentry, hblocks⟩
  have hname := foldl_push_name { name } is
  rcases @leads_blocksText finished (is.foldl OpenFunction.push { name }) _ _ hblocks with
    ⟨g, hleads, hgname, hgblocks⟩
  -- Neither calls nor labels change the name under which the function was opened.
  have hclose : g.close = { name := name, blocks := (entryBlocks is ++ bs).toArray } := by
    rw [OpenFunction.close, hgname, hname, hgblocks, blocks_foldl_push_entry]
    simp
  have hbrace : Leads ["\x7d"] ⟨finished, some g, false⟩ ⟨finished.push g.close, none, false⟩ :=
    .cons ⟨by decide, by decide⟩ (fun _ => step_brace) (.nil _)
  rw [hclose] at hbrace
  exact .cons hheader.isCode (fun _ => step_headerText hheader)
    (((leads_bodyText hentry).append hleads).append hbrace)

/-- The codes of a text add its functions, and leave none open. -/
theorem leads_moduleText {fs : List FunctionDef} {ts : List String} (h : ModuleText fs ts) :
    Leads ts ⟨finished, none, false⟩ ⟨finished ++ fs.toArray, none, false⟩ := by
  induction h generalizing finished with
  | nil => simpa using Leads.nil _
  | outside hcode ht hrest ih => exact .cons hcode (fun _ => step_outside ht) ih
  | @function f fs ts us hfunction hrest ih =>
      have hfinal := @ih (finished.push f)
      rw [show finished.push f ++ fs.toArray = finished ++ (f :: fs).toArray by simp] at hfinal
      exact (leads_functionText hfunction).append hfinal

end Runs

/-! ### Lines -/

/-- Only the contents of lines matter. -/
theorem run_congr {ls ms : List (List Char)} (h : ls.map content = ms.map content) (number : Nat)
    (s : State) : run number ls s = run number ms s := by
  induction ls generalizing ms number s with
  | nil =>
      rw [List.map_nil, eq_comm, List.map_eq_nil_iff] at h
      rw [h]
  | cons l ls ih =>
      rcases ms with _ | ⟨m, ms⟩
      · simp at h
      · rw [List.map_cons, List.map_cons, List.cons.injEq] at h
        rw [run, run, h.1]
        cases step number (content m) s with
        | error err => rfl
        | ok s' => exact ih h.2 (number + 1) s'

theorem run_eq_runLines : run = runLines fun number l => step number (content l) := by
  funext number ls s
  induction ls generalizing number s with
  | nil => rfl
  | cons l ls ih =>
      rw [run, runLines]
      cases step number (content l) s with
      | error err => rfl
      | ok s' => exact ih (number + 1) s'

theorem tolerates_step : Tolerates fun number l => step number (content l) where
  dropReturn := by
    intro number l s
    rw [content_dropReturn]
  empty := fun _ _ => rfl

/-- Lines that are joined by line feeds are read one after the other. What joining
    them loses makes no difference. -/
theorem run_lines_intercalate {ls : List (List Char)} (h : ∀ l ∈ ls, '\n' ∉ l) (number : Nat)
    (s : State) : run number (lines (['\n'].intercalate ls)) s = run number ls s := by
  rw [run_eq_runLines]
  exact tolerates_step.runLines_lines_intercalate h number s

theorem BodyText.isCode {is : List Instruction} {ts : List String} (h : BodyText is ts) :
    ∀ t ∈ ts, IsCode t := by
  induction h with
  | nil => exact List.forall_mem_nil _
  | blank _ ih => exact List.forall_mem_cons.2 ⟨⟨by decide, by decide⟩, ih⟩
  | call hcall _ ih => exact List.forall_mem_cons.2 ⟨hcall.isCode, ih⟩
  | terminator ht _ _ ih => exact List.forall_mem_cons.2 ⟨ht.code, ih⟩
  | table ht _ hrows hlast _ _ ih =>
      refine List.forall_mem_cons.2 ⟨ht.code, List.forall_mem_append.2 ⟨?_, ?_⟩⟩
      · exact fun row hrow => (hrows row hrow).1
      · exact List.forall_mem_cons.2 ⟨hlast, ih⟩

theorem BlocksText.isCode {bs : List Block} {us : List String} (h : BlocksText bs us) :
    ∀ t ∈ us, IsCode t := by
  induction h with
  | nil => exact List.forall_mem_nil _
  | cons hlabel hbody _ ih =>
      exact List.forall_mem_cons.2
        ⟨isCode_label hlabel, List.forall_mem_append.2 ⟨hbody.isCode, ih⟩⟩

theorem ModuleText.isCode {fs : List FunctionDef} {ts : List String} (h : ModuleText fs ts) :
    ∀ t ∈ ts, IsCode t := by
  induction h with
  | nil => exact List.forall_mem_nil _
  | outside hcode _ _ ih => exact List.forall_mem_cons.2 ⟨hcode, ih⟩
  | function hfunction _ ih =>
      refine List.forall_mem_append.2 ⟨?_, ih⟩
      rcases hfunction with ⟨hheader, hentry, hblocks⟩
      have hbrace : ∀ t ∈ ["\x7d"], IsCode t :=
        List.forall_mem_singleton.2 ⟨by decide, by decide⟩
      exact List.forall_mem_cons.2 ⟨hheader.isCode,
        List.forall_mem_append.2 ⟨List.forall_mem_append.2 ⟨hentry.isCode, hblocks.isCode⟩, hbrace⟩⟩

section Framed

variable {ts ls : List String}

theorem map_content_of_framed (hts : ∀ t ∈ ts, IsCode t) (h : List.Forall₂ Framed ts ls) :
    (ls.map String.toList).map content = (ts.map String.toList).map content := by
  induction h with
  | nil => rfl
  | @cons t l ts ls hfirst _ ih =>
      have ht := hts t List.mem_cons_self
      rw [List.map_cons, List.map_cons, List.map_cons, List.map_cons, content_of_framed ht hfirst,
        content_of_isCode ht, ih fun u hu => hts u (List.mem_cons_of_mem _ hu)]

theorem notMem_of_forall₂ (hts : ∀ t ∈ ts, IsCode t) (h : List.Forall₂ Framed ts ls) :
    ∀ l ∈ ls.map String.toList, '\n' ∉ l := by
  induction h with
  | nil => exact List.forall_mem_nil _
  | @cons t l ts ls hfirst _ ih =>
      rw [List.map_cons, List.forall_mem_cons]
      exact ⟨notMem_of_framed (hts t List.mem_cons_self) hfirst,
        ih fun u hu => hts u (List.mem_cons_of_mem _ hu)⟩

/-- Lines are read as their codes. -/
theorem run_framed (hts : ∀ t ∈ ts, IsCode t) (h : List.Forall₂ Framed ts ls) (number : Nat)
    (s : State) :
    run number (lines ("\n".intercalate ls).toList) s = run number (ts.map String.toList) s := by
  rw [String.toList_intercalate, show "\n".toList = ['\n'] from rfl,
    run_lines_intercalate (notMem_of_forall₂ hts h)]
  exact run_congr (map_content_of_framed hts h) number s

end Framed

theorem functions_moduleText {fs : List FunctionDef} {ts ls : List String} (h : ModuleText fs ts)
    (hls : List.Forall₂ Framed ts ls) : functions ("\n".intercalate ls) = .ok fs.toArray := by
  have hrun := @leads_moduleText #[] fs ts h 1 []
  rw [List.append_nil, run] at hrun
  rw [functions, run_framed h.isCode hls, hrun]
  simp [State.finish]

/-! ### Every function has a text -/

theorem exists_pointerText (kind : PointerKind) {id : Option Nat}
    (h : ∀ n ∈ id, n < Decimal.limit64) : ∃ t, ArgumentText (kind.operand id) t := by
  cases id with
  | some n => exact ⟨_, .address kind (h n rfl)⟩
  | none => exact ⟨_, .dynamic kind (show IsName "p" by decide)⟩

theorem exists_argumentText {o : Operand} (h : IsArgument o) : ∃ t, ArgumentText o t := by
  cases o with
  | qubit id => exact exists_pointerText .qubit h
  | result id => exact exists_pointerText .result h
  | pointer id => exact exists_pointerText .untyped h
  | integer n => exact ⟨_, .integer h.1 h.2⟩
  | double d => exact h.elim
  | bool b => exact ⟨_, .bool b⟩
  | named name => exact ⟨_, .named (show "i64" ∈ _ by decide) h⟩
  | raw text => exact h.elim

theorem exists_argumentTexts {os : List Operand} (h : ∀ o ∈ os, IsArgument o) :
    ∃ args, List.Forall₂ ArgumentText os args := by
  induction os with
  | nil => exact ⟨[], .nil⟩
  | cons o os ih =>
      rcases exists_argumentText (h o List.mem_cons_self) with ⟨t, ht⟩
      rcases ih fun p hp => h p (List.mem_cons_of_mem _ hp) with ⟨args, hargs⟩
      exact ⟨t :: args, .cons ht hargs⟩

theorem exists_callText {i : Instruction} (h : IsCall i) : ∃ t, CallText i t := by
  rcases exists_argumentTexts h.operands with ⟨args, hargs⟩
  exact ⟨_, .intro h.output (show "" ∈ tailMarkers by decide) (show IsType "void" by decide)
    h.opcode hargs (.inl rfl)⟩

theorem exists_bodyText {is : List Instruction} (h : ∀ i ∈ is, IsCall i) :
    ∃ ts, BodyText is ts := by
  induction is with
  | nil => exact ⟨[], .nil⟩
  | cons i is ih =>
      rcases exists_callText (h i List.mem_cons_self) with ⟨t, ht⟩
      rcases ih fun j hj => h j (List.mem_cons_of_mem _ hj) with ⟨ts, hts⟩
      exact ⟨t :: ts, .call ht hts⟩

theorem exists_blocksText {bs : List Block} (h : ∀ b ∈ bs, IsBlock b) :
    ∃ us, BlocksText bs us := by
  induction bs with
  | nil => exact ⟨[], .nil⟩
  | cons b bs ih =>
      have hb := h b List.mem_cons_self
      rcases exists_bodyText hb.instructions with ⟨ts, hts⟩
      rcases ih fun c hc => h c (List.mem_cons_of_mem _ hc) with ⟨us, hus⟩
      exact ⟨_, .cons hb.name hts hus⟩

theorem exists_functionText {f : FunctionDef} (h : IsFunction f) : ∃ ts, FunctionText f ts := by
  rcases exists_blocksText h.blocks with ⟨us, hus⟩
  exact ⟨_, .intro (.intro h.name (show IsType "void" by decide) (show IsInline "" by decide)
    (show IsInline " " by decide)) .nil hus⟩

theorem exists_moduleText {fs : List FunctionDef} (h : ∀ f ∈ fs, IsFunction f) :
    ∃ ts, ModuleText fs ts := by
  induction fs with
  | nil => exact ⟨[], .nil⟩
  | cons f fs ih =>
      rcases exists_functionText (h f List.mem_cons_self) with ⟨ts, hts⟩
      rcases ih fun g hg => h g (List.mem_cons_of_mem _ hg) with ⟨us, hus⟩
      exact ⟨ts ++ us, .function hts hus⟩

/-- The reader is complete. Every list of functions that the grammar speaks of has a
    text, and each of its texts is read as this list, however the types, parameters,
    attributes, terminators, tables, outside lines, blanks and comments are chosen
    that the grammar leaves free. -/
theorem functions_complete (fs : List FunctionDef) (hfs : ∀ f ∈ fs, IsFunction f) :
    (∃ ts, ModuleText fs ts)
      ∧ ∀ ts ls, ModuleText fs ts → List.Forall₂ Framed ts ls →
        functions ("\n".intercalate ls) = .ok fs.toArray :=
  ⟨exists_moduleText hfs, fun _ _ => functions_moduleText⟩

/-- The call in the block without a label. -/
def unlabelledCall : Instruction where
  opcode := "h$-2"
  operands := [.qubit (some 0)]

/-- The call in the block with a label. -/
def labelledCall : Instruction where
  opcode := "f"
  operands := [.integer (-3), .pointer (some 7)]
  output := some "r"

/-- A function whose first block has no label and is left by way of a table, and whose
    last has no calls. -/
def tableFunction : FunctionDef where
  name := "main"
  blocks :=
    #[{ name := "0", instructions := #[unlabelledCall] },
      { name := "b.1", instructions := #[labelledCall] },
      { name := "c" }]

/-- Codes of this function, after lines that belong to none. -/
def tableCodes : List String :=
  ["declare i1 @f(i64, ptr)", "", "define void @main(i64 %n) #0 \x7b",
    "tail call void @h$-2(%Qubit* null) #1", "switch i64 %n, label %c [", "i64 0, label %b.1",
    "]", "b.1:", "%r = call i1 @f(i64 -3, ptr inttoptr (i64 7 to ptr))",
    "br i1 %r, label %b.1, label %c", "c:", "ret void", "unreachable", "\x7d"]

theorem isFunction_tableFunction : IsFunction tableFunction := by
  have hfirst : IsCall unlabelledCall :=
    ⟨by decide, by simp [unlabelledCall, IsArgument, Decimal.limit64], by simp [unlabelledCall]⟩
  have hsecond : IsCall labelledCall :=
    ⟨by decide, by simp [labelledCall, IsArgument, Decimal.limit64, Decimal.limit63],
      by simp [labelledCall]; decide⟩
  refine ⟨by decide, ?_⟩
  simp only [tableFunction, List.forall_mem_cons]
  exact ⟨⟨by decide, by simpa using hfirst⟩, ⟨by decide, by simpa using hsecond⟩,
    ⟨by decide, by simp⟩, by simp⟩

theorem moduleText_tableCodes : ModuleText [tableFunction] tableCodes := by
  have hfirst : CallText unlabelledCall "tail call void @h$-2(%Qubit* null) #1" :=
    @CallText.intro none "tail " "void" "h$-2" " #1" _ ["%Qubit* null"] (by decide) (by decide)
      (by decide) (by decide) (.cons (.null .qubit) .nil) (.inr ⟨1, by decide⟩)
  have hsecond : CallText labelledCall "%r = call i1 @f(i64 -3, ptr inttoptr (i64 7 to ptr))" :=
    @CallText.intro (some "r") "" "i1" "f" "" _ ["i64 -3", "ptr inttoptr (i64 7 to ptr)"]
      (by decide) (by decide) (by decide) (by decide)
      (.cons (.integer (by decide) (by decide)) (.cons (.address .untyped (by decide)) .nil))
      (.inl rfl)
  have hswitch : TerminatorText "switch" "switch i64 %n, label %c [" :=
    ⟨by decide, ⟨" i64 %n, label %c [".toList, by decide, fun _ hc => Option.some.inj hc ▸ rfl⟩,
      by decide, by decide⟩
  have hbranch : TerminatorText "br" "br i1 %r, label %b.1, label %c" :=
    ⟨by decide, ⟨" i1 %r, label %b.1, label %c".toList, by decide,
      fun _ hc => Option.some.inj hc ▸ rfl⟩, by decide, by decide⟩
  have hret : TerminatorText "ret" "ret void" :=
    ⟨by decide, ⟨" void".toList, by decide, fun _ hc => Option.some.inj hc ▸ rfl⟩, by decide,
      by decide⟩
  have hnever : TerminatorText "unreachable" "unreachable" :=
    ⟨by decide, ⟨[], by decide, fun _ hc => by cases hc⟩, by decide, by decide⟩
  have hentry : BodyText [unlabelledCall] ["tail call void @h$-2(%Qubit* null) #1",
      "switch i64 %n, label %c [", "i64 0, label %b.1", "]"] :=
    .call hfirst (@BodyText.table _ _ "]" ["i64 0, label %b.1"] _ _ hswitch
      ⟨rfl, by decide, by decide⟩ (List.forall_mem_singleton.2 ⟨⟨by decide, by decide⟩, by decide⟩)
      ⟨by decide, by decide⟩ (by decide) .nil)
  have hlabelled : BodyText [labelledCall]
      ["%r = call i1 @f(i64 -3, ptr inttoptr (i64 7 to ptr))",
        "br i1 %r, label %b.1, label %c"] :=
    .call hsecond (.terminator hbranch (fun h => absurd h.1 (by decide)) .nil)
  have hlast : BodyText [] ["ret void", "unreachable"] :=
    .terminator hret (fun h => absurd h.1 (by decide))
      (.terminator hnever (fun h => absurd h.1 (by decide)) .nil)
  have hheader : HeaderText "main" "define void @main(i64 %n) #0 \x7b" :=
    @HeaderText.intro "main" "void" "i64 %n" " #0 " (by decide) (by decide) (by decide) (by decide)
  have hblocks := BlocksText.cons (show IsName "b.1" by decide) hlabelled
    (.cons (show IsName "c" by decide) hlast .nil)
  exact .outside ⟨by decide, by decide⟩ (by decide)
    (.outside ⟨by decide, by decide⟩ (by decide) (.function (.intro hheader hentry hblocks) .nil))

theorem functions_complete_tableCodes :
    (∀ f ∈ [tableFunction], IsFunction f)
      ∧ functions ("\n".intercalate (tableCodes.map fun t => "\t" ++ t ++ " " ++ ";" ++ " [\r"))
        = .ok #[tableFunction] := by
  have hfunction : ∀ f ∈ [tableFunction], IsFunction f := by
    simpa using isFunction_tableFunction
  have hframed : List.Forall₂ Framed tableCodes
      (tableCodes.map fun t => "\t" ++ t ++ " " ++ ";" ++ " [\r") := by
    rw [List.forall₂_map_right_iff, List.forall₂_same]
    exact fun t _ => .commented (by decide) (by decide) (by decide)
  exact ⟨hfunction,
    (functions_complete [tableFunction] hfunction).2 _ _ moduleText_tableCodes hframed⟩

end Assembly

end QuantumIR
