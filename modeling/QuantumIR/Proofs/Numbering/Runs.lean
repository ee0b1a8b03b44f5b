import Mathlib.Data.Finset.Card
import Mathlib.Data.List.Nodup
import QuantumIR.Proofs.Numbering

/-!
# Runs of a Numbering

A numbering over its whole life. It starts empty and is asked one thing after the other:
for the number of an operand, which it gives out if need be, for a number without
giving one out, or for all identities in order. What is true at one moment has to be
related to what was answered at another, with any number of questions in between.

The relation is easy to state once all answers are measured by the same rule. The number
given for an operand is the rank of its identity in the history of the whole run, also in
the part of it that is still to come (`getElem?_answers_resolve`), because later mentions
do not move earlier ones. Two answers then agree exactly if two ranks do, and nothing has to be
said about the tables in between.

## Main definitions

* `Query`, `Answer`: What can be asked of a numbering, and the answers.
* `after`, `answers`: The numbering after a run, and all that was answered in it.
* `tableAt`: The numbering after the first questions of a run.
* `resolved`: The identities of the operands that a run resolves.
* `Numbers`: A numbering is a bijection between the identities of a history and the
  numbers below their count, in the order of their first occurrence.

## Theorems

* `rank_lt_rank_iff`: Ranks are in the order of first occurrence.
* `Records.get?_eq_some_iff`: The numbers in a table are ranks.
* `Records.numbers`: A numbering that follows its history numbers it.
* `getElem?_answers_resolve`: The numbers given in a run are ranks in its whole history.
* `numbers_run`: What holds at all moments of a run, and between any two of them.
-/

namespace QuantumIR

namespace Numbering

/-- What can be asked of a numbering. -/
inductive Query where
  /-- The number of an operand, given out if need be. -/
  | resolve (operand : Operand)
  /-- The number of an identity, if it has one. -/
  | look (id : Identity)
  /-- All identities in the order of their numbers. -/
  | list
deriving DecidableEq, Repr

/-- What is answered. -/
inductive Answer where
  | number (number : Nat)
  | found (number : Option Nat)
  | listed (ids : List Identity)
deriving DecidableEq, Repr

namespace Query

/-- The answer, and the numbering after it. -/
def perform (t : Numbering) : Query → Answer × Numbering
  | resolve o =>
    let (number, t) := t.assign o.identity
    (.number number, t)
  | look id => (.found (t.get? id), t)
  | list => (.listed t.toList, t)

/-- The identity that a question can give a number to. -/
def resolved? : Query → Option Identity
  | resolve o => some o.identity
  | _ => none

end Query

/-- The numbering after a run of questions. -/
def after (t : Numbering) : List Query → Numbering
  | [] => t
  | q :: qs => after (q.perform t).2 qs

/-- The answers of a run of questions. -/
def answers (t : Numbering) : List Query → List Answer
  | [] => []
  | q :: qs => (q.perform t).1 :: answers (q.perform t).2 qs

/-- The numbering after the first questions of a run that starts with nothing. -/
def tableAt (qs : List Query) (count : Nat) : Numbering :=
  after {} (qs.take count)

/-- The identities of the operands that a run resolves, repetitions included. -/
def resolved (qs : List Query) : List Identity :=
  qs.filterMap Query.resolved?

/-- The numbering is a bijection between the identities of a history and the numbers
    below their count, and it numbers them in the order of their first occurrence. -/
structure Numbers (t : Numbering) (ids : List Identity) : Prop where
  /-- Map and order describe the same numbering. -/
  get?_iff : ∀ id i, t.get? id = some i ↔ t.toList[i]? = some id
  /-- No identity has two numbers. -/
  nodup : t.toList.Nodup
  /-- The numbers are used without gaps. -/
  lt_size_iff : ∀ i, i < t.size ↔ ∃ id, t.get? id = some i
  /-- The identities are those of the history. -/
  isSome_get?_iff : ∀ id, (t.get? id).isSome = true ↔ id ∈ ids
  size_eq : t.size = ids.toFinset.card
  order : ∀ a b i j, t.get? a = some i → t.get? b = some j →
    (i < j ↔ ids.idxOf a < ids.idxOf b)

/-! ### Ranks -/

theorem rank_lt_length {ids : List Identity} {id : Identity} (h : id ∈ ids) :
    rank ids id < ids.eraseDups.length :=
  List.idxOf_lt_length_of_mem (List.mem_eraseDups.2 h)

theorem rank_inj {ids : List Identity} {a b : Identity} (ha : a ∈ ids) :
    rank ids a = rank ids b ↔ a = b :=
  List.idxOf_inj (List.mem_eraseDups.2 ha)

/-- An identity that was not met before takes the place behind all others. -/
theorem rank_concat_self {ids : List Identity} {id : Identity} (h : id ∉ ids) :
    rank (ids ++ [id]) id = ids.eraseDups.length := by
  have hnew : id ∉ ids.eraseDups := fun hmem => h (List.mem_eraseDups.1 hmem)
  rw [rank, eraseDups_concat, if_neg h, List.idxOf_append, if_neg hnew]
  simp

/-- Ranks are in the order of first occurrence. -/
theorem rank_lt_rank_iff {ids : List Identity} {a b : Identity} (ha : a ∈ ids) (hb : b ∈ ids) :
    rank ids a < rank ids b ↔ ids.idxOf a < ids.idxOf b := by
  -- The history is cut at its last mention, which comes after all others or is no new one.
  induction ids using List.reverseRecOn with
  | nil => exact absurd ha List.not_mem_nil
  | append_singleton ids c ih =>
      have hlast : ∀ d ∈ ids ++ [c], d ∉ ids → d = c ∧ rank (ids ++ [c]) d = ids.eraseDups.length
          ∧ (ids ++ [c]).idxOf d = ids.length := by
        intro d hd hnew
        have heq : d = c := by
          rcases List.mem_append.1 hd with hd | hd
          · exact absurd hd hnew
          · exact List.mem_singleton.1 hd
        subst heq
        refine ⟨rfl, rank_concat_self hnew, ?_⟩
        rw [List.idxOf_append, if_neg hnew]
        simp
      have hearlier : ∀ d ∈ ids, rank (ids ++ [c]) d = rank ids d
          ∧ (ids ++ [c]).idxOf d = ids.idxOf d := by
        intro d hd
        refine ⟨rank_append hd _, ?_⟩
        rw [List.idxOf_append, if_pos hd]
      by_cases ha' : a ∈ ids
      · by_cases hb' : b ∈ ids
        · rw [(hearlier a ha').1, (hearlier b hb').1, (hearlier a ha').2, (hearlier b hb').2]
          exact ih ha' hb'
        · have hlt := rank_lt_length ha'
          have hlt' := List.idxOf_lt_length_of_mem ha'
          rw [(hearlier a ha').1, (hearlier a ha').2, (hlast b hb hb').2.1, (hlast b hb hb').2.2]
          exact iff_of_true hlt hlt'
      · by_cases hb' : b ∈ ids
        · have hlt := rank_lt_length hb'
          have hlt' := List.idxOf_lt_length_of_mem hb'
          rw [(hearlier b hb').1, (hearlier b hb').2, (hlast a ha ha').2.1, (hlast a ha ha').2.2]
          omega
        · rw [(hlast a ha ha').1, (hlast b hb hb').1]
          omega

/-! ### Tables -/

theorem Coherent.nodup {t : Numbering} (h : t.Coherent) : t.toList.Nodup := by
  rw [List.nodup_iff_getElem?_ne_getElem?]
  intro i j hij hj heq
  rw [List.getElem?_eq_getElem hj] at heq
  have hsame := h.eq_of_getElem? heq (List.getElem?_eq_getElem hj)
  omega

theorem lt_size_iff_getElem? (t : Numbering) (i : Nat) :
    i < t.size ↔ ∃ id, t.toList[i]? = some id := by
  rw [← Option.isSome_iff_exists, isSome_getElem?]
  simp [size, toList]

namespace Records

variable {t : Numbering} {ids : List Identity}

/-- The numbers in a table are ranks. -/
theorem get?_eq_some_iff (h : t.Records ids) {id : Identity} {i : Nat} :
    t.get? id = some i ↔ id ∈ ids ∧ rank ids id = i := by
  constructor
  · intro hget
    have hmem : id ∈ ids := by
      rw [← List.mem_eraseDups, ← h.toList_eq]
      exact List.mem_of_getElem? ((h.coherent id i).1 hget)
    have hassign := h.assign_of_mem hmem
    rw [assign_of_get?_eq_some hget, Prod.mk.injEq] at hassign
    exact ⟨hmem, hassign.1.symm⟩
  · rintro ⟨hmem, rfl⟩
    rw [h.coherent id, h.toList_eq]
    exact List.getElem?_idxOf (List.mem_eraseDups.2 hmem)

theorem numbers (h : t.Records ids) : t.Numbers ids where
  get?_iff := h.coherent
  nodup := h.coherent.nodup
  lt_size_iff i := by
    rw [lt_size_iff_getElem?]
    exact exists_congr fun id => (h.coherent id i).symm
  isSome_get?_iff id := by
    rw [Option.isSome_iff_exists]
    simp only [h.get?_eq_some_iff]
    exact ⟨fun ⟨_, hmem, _⟩ => hmem, fun hmem => ⟨_, hmem, rfl⟩⟩
  size_eq := by
    have hnodup := h.coherent.nodup
    rw [h.toList_eq] at hnodup
    rw [h.size_eq, ← List.toFinset_card_of_nodup hnodup]
    congr 1
    ext id
    simp
  order a b i j ha hb := by
    rcases h.get?_eq_some_iff.1 ha with ⟨hmem, rfl⟩
    rcases h.get?_eq_some_iff.1 hb with ⟨hmem', rfl⟩
    exact rank_lt_rank_iff hmem hmem'

end Records

/-! ### Runs -/

/-- One question leaves a numbering that follows its history. -/
theorem Records.perform {t : Numbering} {ids : List Identity} (h : t.Records ids) (q : Query) :
    (q.perform t).2.Records (ids ++ q.resolved?.toList) := by
  cases q with
  | resolve o => exact h.assign o.identity
  | look id => simpa [Query.perform, Query.resolved?] using h
  | list => simpa [Query.perform, Query.resolved?] using h

theorem resolved_cons (q : Query) (qs : List Query) :
    resolved (q :: qs) = q.resolved?.toList ++ resolved qs := by
  rw [resolved, resolved, List.filterMap_cons]
  cases q.resolved? <;> rfl

theorem resolved_append (qs rs : List Query) : resolved (qs ++ rs) = resolved qs ++ resolved rs :=
  List.filterMap_append

theorem Records.after {t : Numbering} {ids : List Identity} (h : t.Records ids)
    (qs : List Query) : (t.after qs).Records (ids ++ resolved qs) := by
  induction qs generalizing t ids with
  | nil => simpa [Numbering.after, resolved] using h
  | cons q qs ih =>
      have hrest := ih (h.perform q)
      rwa [List.append_assoc, ← resolved_cons] at hrest

theorem after_append (t : Numbering) (qs rs : List Query) :
    t.after (qs ++ rs) = (t.after qs).after rs := by
  induction qs generalizing t with
  | nil => rfl
  | cons q qs ih => exact ih _

theorem records_tableAt (qs : List Query) (n : Nat) :
    (tableAt qs n).Records (resolved (qs.take n)) :=
  Records.empty.after (qs.take n)

/-- The history of a run goes on from the history at each of its moments. -/
theorem resolved_take_append (qs : List Query) (n : Nat) :
    resolved qs = resolved (qs.take n) ++ resolved (qs.drop n) := by
  rw [← resolved_append, List.take_append_drop]

theorem mem_resolved_take {qs : List Query} {n : Nat} {o : Operand}
    (h : qs[n]? = some (.resolve o)) : o.identity ∈ resolved (qs.take (n + 1)) := by
  rw [List.take_add_one, h, resolved_append]
  exact List.mem_append_right _ List.mem_cons_self

/-- A question is put to the numbering after the questions before it. -/
theorem getElem?_answers (t : Numbering) (qs : List Query) (n : Nat) :
    (t.answers qs)[n]? = qs[n]?.map fun q => (q.perform (t.after (qs.take n))).1 := by
  induction qs generalizing t n with
  | nil => rfl
  | cons q qs ih =>
      cases n with
      | zero => rfl
      | succ n => exact ih _ n

/-- The number that a run gives for an operand is the rank of its identity in the
    history of the whole run. -/
theorem getElem?_answers_resolve {qs : List Query} {n : Nat} {o : Operand}
    (h : qs[n]? = some (.resolve o)) :
    (answers {} qs)[n]? = some (.number (rank (resolved qs) o.identity)) := by
  have hnow : resolved (qs.take n) ++ [o.identity] = resolved (qs.take (n + 1)) := by
    rw [List.take_add_one, h, resolved_append]
    rfl
  rw [getElem?_answers, h, resolved_take_append qs (n + 1), rank_append (mem_resolved_take h),
    ← hnow, ← (records_tableAt qs n).fst_assign]
  rfl

/-- The number answered for an operand is the one that its identity has afterwards. -/
theorem get?_tableAt_resolve {qs : List Query} {n : Nat} {o : Operand}
    (h : qs[n]? = some (.resolve o)) :
    (tableAt qs (n + 1)).get? o.identity = some (rank (resolved qs) o.identity) := by
  rw [(records_tableAt qs (n + 1)).get?_eq_some_iff, resolved_take_append qs (n + 1),
    rank_append (mem_resolved_take h)]
  exact ⟨mem_resolved_take h, rfl⟩

/-- A number that is given out stays. -/
theorem get?_tableAt_of_le {qs : List Query} {m n : Nat} (hmn : m ≤ n) {id : Identity} {i : Nat}
    (h : (tableAt qs m).get? id = some i) : (tableAt qs n).get? id = some i := by
  rcases (records_tableAt qs m).get?_eq_some_iff.1 h with ⟨hmem, hrank⟩
  have hlater : resolved (qs.take n) = resolved (qs.take m) ++ resolved ((qs.take n).drop m) := by
    rw [resolved_take_append (qs.take n) m, List.take_take, Nat.min_eq_left hmn]
  rw [(records_tableAt qs n).get?_eq_some_iff, hlater, rank_append hmem]
  exact ⟨List.mem_append_left _ hmem, hrank⟩

theorem tableAt_succ {qs : List Query} {n : Nat} {q : Query} (h : qs[n]? = some q) :
    tableAt qs (n + 1) = (q.perform (tableAt qs n)).2 := by
  rw [tableAt, List.take_add_one, h, after_append]
  rfl

/-- The life of a numbering that starts with nothing, whatever it is asked. At every
    moment it numbers the identities resolved so far, without gaps and in the order of
    their first occurrence. The number answered for an operand is the one its identity
    has afterwards; two such answers agree exactly if the identities do; no number ever
    changes; and looking up and listing change nothing at all. -/
theorem numbers_run (qs : List Query) :
    (∀ n, (tableAt qs n).Numbers (resolved (qs.take n)))
      ∧ (∀ (n : Nat) o, qs[n]? = some (.resolve o) →
          ∃ i, (answers {} qs)[n]? = some (.number i)
            ∧ (tableAt qs (n + 1)).get? o.identity = some i)
      ∧ (∀ (m n : Nat) o p, qs[m]? = some (.resolve o) → qs[n]? = some (.resolve p) →
          ((answers {} qs)[m]? = (answers {} qs)[n]? ↔ o.identity = p.identity))
      ∧ (∀ m n id i, m ≤ n → (tableAt qs m).get? id = some i → (tableAt qs n).get? id = some i)
      ∧ ∀ (n : Nat) q, qs[n]? = some q → q.resolved? = none →
          tableAt qs (n + 1) = tableAt qs n := by
  refine ⟨fun n => (records_tableAt qs n).numbers, ?_, ?_, ?_, ?_⟩
  · intro n o h
    exact ⟨_, getElem?_answers_resolve h, get?_tableAt_resolve h⟩
  · intro m n o p hm hn
    have hmem : o.identity ∈ resolved qs := by
      rw [resolved_take_append qs (m + 1)]
      exact List.mem_append_left _ (mem_resolved_take hm)
    rw [getElem?_answers_resolve hm, getElem?_answers_resolve hn, Option.some.injEq,
      Answer.number.injEq, rank_inj hmem]
  · intro m n id i hmn h
    exact get?_tableAt_of_le hmn h
  · intro n q h hq
    rw [tableAt_succ h]
    cases q with
    | resolve o => cases hq
    | look id => rfl
    | list => rfl

/-- A run in which a wire is mentioned through two kinds of pointers, and two operands
    have no identity of their own. -/
def mixedQueries : List Query :=
  [.resolve (.qubit (some 5)), .look (.number 7), .resolve (.pointer (some 5)),
    .resolve (.raw "x"), .list, .resolve (.integer 5)]

theorem numbers_run_mixedQueries :
    (mixedQueries[0]? = some (.resolve (.qubit (some 5)))
      ∧ mixedQueries[1]? = some (.look (.number 7))
      ∧ mixedQueries[2]? = some (.resolve (.pointer (some 5)))
      ∧ mixedQueries[3]? = some (.resolve (.raw "x"))
      ∧ mixedQueries[5]? = some (.resolve (.integer 5)))
      ∧ (answers {} mixedQueries)[0]? = (answers {} mixedQueries)[2]?
      ∧ (answers {} mixedQueries)[2]? ≠ (answers {} mixedQueries)[3]?
      ∧ (answers {} mixedQueries)[3]? = (answers {} mixedQueries)[5]?
      ∧ tableAt mixedQueries 2 = tableAt mixedQueries 1
      ∧ (tableAt mixedQueries 6).size = 2 := by
  rcases numbers_run mixedQueries with ⟨hnumbers, -, hagree, -, hsame⟩
  refine ⟨⟨rfl, rfl, rfl, rfl, rfl⟩, (hagree 0 2 _ _ rfl rfl).2 rfl, ?_,
    (hagree 3 5 _ _ rfl rfl).2 rfl, hsame 1 _ rfl rfl, (hnumbers 6).size_eq.trans (by decide)⟩
  exact fun heq => absurd ((hagree 2 3 _ _ rfl rfl).1 heq) (by decide)

end Numbering

end QuantumIR
