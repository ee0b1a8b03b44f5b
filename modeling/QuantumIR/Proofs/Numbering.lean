import QuantumIR.Numbering

/-!
# Numbers by First Mention

What a numbering is, said without its map: the identities that were met, each
listed once, at the place where it was met first.

`rank` is that place, computed from the whole history of identities. A number is
given out long before the history is complete, so the two agree only because a
later mention never moves an earlier one; `rank_append` is this fact, and it is
what lets a pass that numbers as it goes be compared with one that knows all
mentions beforehand.

`Records` ties a numbering to the history it has seen. It is kept by `assign`,
and everything a caller needs to know about a numbering follows from it.

## Main definitions

* `Numbering.rank`: The place of an identity in a history.
* `Numbering.Records`: A numbering holds exactly the identities of a history.

## Theorems

* `eraseDups_concat`: One more mention adds an identity at the end or nothing.
* `eraseDups_isPrefix_append`: A longer history keeps the places of a shorter one.
* `rank_append`: Later mentions do not change a place.
* `Coherent.assign`: Map and order stay in agreement.
* `Coherent.getElem?_fst_assign`: The number given out is a place in the order.
* `Coherent.toList_assign`: What a mention does to the order.
* `toList_prefix_assign`: A mention only adds at the end.
* `Records.assign`, `Records.assignAll`: A numbering follows its history.
* `Records.fst_assign`, `Records.fst_assignAll`: The numbers given out are ranks.
* `Records.assign_of_mem`: A second mention changes nothing.
-/

namespace QuantumIR

namespace Numbering

/-- The place of an identity among those of a history, each counted once, where
    it was met first. -/
def rank (ids : List Identity) (id : Identity) : Nat :=
  ids.eraseDups.idxOf id

theorem eraseDups_concat (ids : List Identity) (id : Identity) :
    (ids ++ [id]).eraseDups = if id ∈ ids then ids.eraseDups else ids.eraseDups ++ [id] := by
  rw [List.eraseDups_append]
  by_cases h : id ∈ ids
  · simp [h, List.removeAll]
  · simp [h, List.removeAll, List.eraseDups_cons]

theorem eraseDups_isPrefix_append (ids more : List Identity) :
    ids.eraseDups <+: (ids ++ more).eraseDups := by
  rw [List.eraseDups_append]
  exact List.prefix_append _ _

/-- Later mentions do not change the place of an identity that was met. -/
theorem rank_append {ids : List Identity} {id : Identity} (h : id ∈ ids) (more : List Identity) :
    rank (ids ++ more) id = rank ids id := by
  rcases eraseDups_isPrefix_append ids more with ⟨rest, hrest⟩
  -- Later mentions stand behind all of the earlier ones, where the search does not get.
  rw [rank, rank, ← hrest, List.idxOf_append, if_pos (List.mem_eraseDups.2 h)]

theorem coherent_empty : Coherent {} := by
  intro id i
  simp [get?, toList]

theorem Coherent.get?_eq_none_iff {t : Numbering} (h : t.Coherent) (id : Identity) :
    t.get? id = none ↔ id ∉ t.toList := by
  rw [Option.eq_none_iff_forall_ne_some, List.mem_iff_getElem?]
  simp only [ne_eq, h id, not_exists]

theorem get?_assign_of_get?_eq_none {t : Numbering} {id : Identity} (h : t.get? id = none)
    (id' : Identity) :
    (t.assign id).2.get? id' = if id = id' then some t.size else t.get? id' := by
  simp only [assign, h]
  simp only [get?, Std.HashMap.getElem?_insert, beq_iff_eq]

/-- A mention only adds an identity at the end of the order. -/
theorem toList_prefix_assign (t : Numbering) (id : Identity) :
    t.toList <+: (t.assign id).2.toList := by
  cases h : t.get? id with
  | some i =>
      simp [assign_of_get?_eq_some h]
  | none =>
      rw [toList_assign_of_get?_eq_none h]
      exact List.prefix_append _ _

theorem toList_prefix_assignAll (t : Numbering) (ids : List Identity) :
    t.toList <+: (t.assignAll ids).2.toList := by
  induction ids generalizing t with
  | nil => exact List.prefix_refl _
  | cons id ids ih => exact (t.toList_prefix_assign id).trans (ih _)

theorem Coherent.toList_assign {t : Numbering} (h : t.Coherent) (id : Identity) :
    (t.assign id).2.toList = if id ∈ t.toList then t.toList else t.toList ++ [id] := by
  cases hget : t.get? id with
  | some i =>
      rw [assign_of_get?_eq_some hget, if_pos (List.mem_of_getElem? ((h id i).1 hget))]
  | none =>
      rw [toList_assign_of_get?_eq_none hget, if_neg ((h.get?_eq_none_iff id).1 hget)]

theorem getElem?_concat_eq_some_iff (l : List Identity) (a b : Identity) (i : Nat) :
    (l ++ [a])[i]? = some b ↔ l[i]? = some b ∨ (i = l.length ∧ a = b) := by
  grind

/-- Map and order stay in agreement when a number is given out. -/
theorem Coherent.assign {t : Numbering} (h : t.Coherent) (id : Identity) :
    (t.assign id).2.Coherent := by
  cases hget : t.get? id with
  | some i =>
      rw [assign_of_get?_eq_some hget]
      exact h
  | none =>
      intro id' i
      have hlen : t.size = t.toList.length := by simp [size, toList]
      rw [get?_assign_of_get?_eq_none hget, toList_assign_of_get?_eq_none hget,
        getElem?_concat_eq_some_iff, ← h id' i, hlen]
      by_cases hid : id = id'
      · -- The new identity had no number before, so its only place is the last.
        subst hid
        simp only [if_true, Option.some.injEq, hget, reduceCtorEq, false_or, and_true]
        exact eq_comm
      · simp only [hid, if_false, and_false, or_false]

theorem Coherent.assignAll {t : Numbering} (h : t.Coherent) (ids : List Identity) :
    (t.assignAll ids).2.Coherent := by
  induction ids generalizing t with
  | nil => exact h
  | cons id ids ih => exact ih (h.assign id)

/-- The number given out is the place at which the identity stands. -/
theorem Coherent.getElem?_fst_assign {t : Numbering} (h : t.Coherent) (id : Identity) :
    (t.assign id).2.toList[(t.assign id).1]? = some id := by
  cases hget : t.get? id with
  | some i =>
      rw [assign_of_get?_eq_some hget]
      exact (h id i).1 hget
  | none =>
      rw [toList_assign_of_get?_eq_none hget]
      simp [Numbering.assign, hget, size, toList]

/-- An identity holds one place only. -/
theorem Coherent.eq_of_getElem? {t : Numbering} (h : t.Coherent) {id : Identity} {i j : Nat}
    (hi : t.toList[i]? = some id) (hj : t.toList[j]? = some id) : i = j := by
  have hij := ((h id i).2 hi).symm.trans ((h id j).2 hj)
  exact Option.some.inj hij

/-- The numbering holds the identities of the history `ids`, in the order in
    which they were first met. -/
structure Records (t : Numbering) (ids : List Identity) : Prop where
  coherent : t.Coherent
  toList_eq : t.toList = ids.eraseDups

namespace Records

variable {t : Numbering} {ids : List Identity}

theorem empty : Records {} [] :=
  ⟨coherent_empty, rfl⟩

theorem size_eq (h : t.Records ids) : t.size = ids.eraseDups.length := by
  rw [← h.toList_eq]
  simp [size, toList]

/-- A numbering follows its history. -/
theorem assign (h : t.Records ids) (id : Identity) : (t.assign id).2.Records (ids ++ [id]) where
  coherent := h.coherent.assign id
  toList_eq := by
    rw [h.coherent.toList_assign, eraseDups_concat, h.toList_eq]
    simp only [List.mem_eraseDups]

/-- The number given out is the rank in the history so far. -/
theorem fst_assign (h : t.Records ids) (id : Identity) :
    (t.assign id).1 = rank (ids ++ [id]) id := by
  have hnext := h.assign id
  have hmem : id ∈ (ids ++ [id]).eraseDups := by simp [List.mem_eraseDups]
  -- Both numbers are places at which the identity stands, and there is only one.
  refine hnext.coherent.eq_of_getElem? (h.coherent.getElem?_fst_assign id) ?_
  rw [hnext.toList_eq, rank, List.getElem?_eq_getElem (List.idxOf_lt_length_of_mem hmem),
    List.getElem_idxOf]

/-- An identity that was met before keeps the numbering as it is. -/
theorem assign_of_mem (h : t.Records ids) {id : Identity} (hid : id ∈ ids) :
    t.assign id = (rank ids id, t) := by
  cases hget : t.get? id with
  | none =>
      have hnot := (h.coherent.get?_eq_none_iff id).1 hget
      rw [h.toList_eq, List.mem_eraseDups] at hnot
      exact absurd hid hnot
  | some i =>
      have hrank := h.fst_assign id
      rw [rank_append hid, assign_of_get?_eq_some hget] at hrank
      rw [assign_of_get?_eq_some hget, ← hrank]

theorem assignAll (h : t.Records ids) (new : List Identity) :
    (t.assignAll new).2.Records (ids ++ new) := by
  induction new generalizing t ids with
  | nil => simpa [Numbering.assignAll] using h
  | cons id new ih =>
      have hrest := ih (h.assign id)
      rwa [List.append_assoc] at hrest

/-- The numbers of several identities are their ranks in any history that goes
    on from there. -/
theorem fst_assignAll (h : t.Records ids) (new more : List Identity) :
    (t.assignAll new).1 = new.map (rank (ids ++ new ++ more)) := by
  induction new generalizing t ids with
  | nil => rfl
  | cons id new ih =>
      have hfirst : (t.assign id).1 = rank (ids ++ id :: new ++ more) id := by
        -- Seen from the first identity, the others of the list are later mentions too.
        have hlater : ids ++ id :: new ++ more = ids ++ [id] ++ (new ++ more) := by simp
        rw [h.fst_assign, hlater]
        exact (rank_append (by simp) _).symm
      have hrest := ih (h.assign id)
      rw [List.append_assoc ids, List.singleton_append] at hrest
      simp only [Numbering.assignAll, List.map_cons, hfirst, hrest]

end Records

end Numbering

end QuantumIR
