/-
What a graph is built of.

A graph is built by inserting blocks, and what is inserted later takes the place of what has the
same id. So much is said by looking up. Here it is said of the list of blocks: which blocks a graph
has after one was inserted, and that a graph built of blocks with different ids has just these, if
in another order. The order of a list of blocks is then no concern of those who build a graph.
-/
import BlockDiagram.Proofs.Graph.Reference

set_option autoImplicit false

namespace BlockDiagram

/-! ## Tables in ascending order of id -/

section Ascending

variable {α : Type} {id : α → BlockId} {entry : α} {entries : List α}

/-- An entry is told by its id. -/
theorem Ascending.eq_of_id_eq (h : Ascending id entries) {a b : α} (ha : a ∈ entries)
    (hb : b ∈ entries) (hid : id a = id b) : a = b := by
  have hfound := findById_of_mem h ha
  rw [hid, findById_of_mem h hb] at hfound
  exact (Option.some.inj hfound).symm

/-- No id occurs twice. -/
theorem Ascending.nodup_ids (h : Ascending id entries) : (entries.map id).Nodup := by
  have hlt : (entries.map id).Pairwise (· < ·) := List.pairwise_map.2 h
  exact hlt.imp fun hlt => UInt32.ne_of_lt hlt

theorem findById_eq_none_iff {wanted : BlockId} :
    findById id wanted entries = none ↔ ∀ a ∈ entries, id a ≠ wanted := by
  simp [findById, List.find?_eq_none]

/-- Inserting adds the new entry, and the one with the same id is all that it takes away. -/
theorem insertById_perm (h : Ascending id entries) :
    ((findById id (id entry) entries).toList ++ insertById id entry entries).Perm
      (entry :: entries) := by
  induction entries with
  | nil => exact .refl _
  | cons first rest ih =>
    obtain ⟨habove, hrest⟩ := List.pairwise_cons.1 h
    rw [insertById]
    split
    · -- what comes after the new entry lies above it, so none of it is found
      rename_i hbelow
      have hnone : findById id (id entry) (first :: rest) = none := by
        refine findById_eq_none_iff.2 fun a ha => (UInt32.ne_of_lt ?_).symm
        rcases List.mem_cons.1 ha with rfl | ha
        · exact hbelow
        · exact UInt32.lt_trans hbelow (habove a ha)
      rw [hnone]
      exact .refl _
    · rename_i hnotBelow
      split
      · rename_i hbeyond
        have hapart : (id first == id entry) = false :=
          beq_eq_false_iff_ne.2 (UInt32.ne_of_lt hbeyond)
        rw [findById, List.find?_cons, hapart]
        exact List.perm_middle.trans (((ih hrest).cons first).trans (.swap entry first rest))
      · rename_i hnotBeyond
        have hsame : (id first == id entry) = true := beq_iff_eq.2 <|
          UInt32.le_antisymm (UInt32.not_lt.1 hnotBelow) (UInt32.not_lt.1 hnotBeyond)
        rw [findById, List.find?_cons, hsame]
        exact .swap entry first rest

/-- Inserting an entry with a new id takes nothing away. -/
theorem mem_insertById (h : Ascending id entries) (hnew : findById id (id entry) entries = none)
    {a : α} : a ∈ insertById id entry entries ↔ a = entry ∨ a ∈ entries := by
  have hperm : ((findById id (id entry) entries).toList ++ insertById id entry entries).Perm
      (entry :: entries) := insertById_perm h
  rw [hnew] at hperm
  exact hperm.mem_iff.trans List.mem_cons

end Ascending

/-! ## Graphs -/

namespace Graph

variable {graph : Graph} {block other : Block}

/-- A block is told by its id. -/
theorem eq_of_id_eq (hblock : block ∈ graph.blocks) (hother : other ∈ graph.blocks)
    (hid : block.id = other.id) : block = other :=
  graph.ascending.eq_of_id_eq hblock hother hid

/-- No id occurs twice in a graph. -/
theorem nodup_ids (graph : Graph) : graph.ids.Nodup :=
  graph.ascending.nodup_ids

/-- No graph has more blocks than there are ids. -/
theorem size_le (graph : Graph) : graph.size ≤ UInt32.size := by
  have hnodup : (graph.ids.map UInt32.toNat).Nodup :=
    graph.nodup_ids.map fun _ _ => UInt32.toNat_inj.1
  have hsubset : graph.ids.map UInt32.toNat ⊆ List.range UInt32.size := by
    intro n hn
    obtain ⟨id, -, rfl⟩ := List.mem_map.1 hn
    exact List.mem_range.2 id.toNat_lt
  have hlength := (hnodup.subperm hsubset).length_le
  rwa [List.length_map, List.length_range, ids, List.length_map] at hlength

/-- After a block was inserted, a graph has this block and those of its own with other ids. -/
theorem mem_blocks_insert :
    other ∈ (graph.insert block).blocks ↔
      other = block ∨ other ∈ graph.blocks ∧ other.id ≠ block.id := by
  have hfound (graph : Graph) : other ∈ graph.blocks ↔ graph.get? other.id = some other := by
    rw [get?_eq_some_iff, and_iff_left rfl]
  rw [hfound, hfound]
  by_cases hid : other.id = block.id
  · rw [hid, get?_insert_self, Option.some.injEq]
    simp [eq_comm]
  · rw [get?_insert_of_ne graph (Ne.symm hid)]
    have hne : other ≠ block := fun h => hid (congrArg Block.id h)
    simp [hid, hne]

/-- An exchange gives back what it takes out of a graph, and puts the new block in. -/
theorem exchange_perm (graph : Graph) (block : Block) :
    ((graph.exchange block).1.toList ++ (graph.exchange block).2.blocks).Perm
      (block :: graph.blocks) :=
  insertById_perm graph.ascending

/-- Blocks with different ids, inserted one after the other, are all there. -/
theorem blocks_foldl_insert_perm (blocks : List Block) (graph : Graph)
    (hnodup : ((graph.blocks ++ blocks).map Block.id).Nodup) :
    (blocks.foldl insert graph).blocks.Perm (graph.blocks ++ blocks) := by
  induction blocks generalizing graph with
  | nil => rw [List.append_nil]; exact .refl _
  | cons block rest ih =>
    have hnew : ∀ a ∈ graph.blocks, a.id ≠ block.id := by
      intro a ha
      rw [List.map_append, List.nodup_append] at hnodup
      exact hnodup.2.2 a.id (List.mem_map_of_mem ha) block.id (by simp)
    have hnone : graph.get? block.id = none := get?_eq_none_iff.2 hnew
    have hinsert := graph.exchange_perm block
    rw [exchange, hnone] at hinsert
    -- the new block has moved to the front, which matters neither to the ids nor to the rest
    have hmove : ((graph.insert block).blocks ++ rest).Perm (graph.blocks ++ block :: rest) :=
      (hinsert.append_right rest).trans List.perm_middle.symm
    have hrest := ih (graph.insert block) ((hmove.map Block.id).nodup_iff.2 hnodup)
    exact hrest.trans hmove

/-- A graph built of blocks with different ids has these blocks. -/
theorem blocks_ofList_perm {blocks : List Block} (hnodup : (blocks.map Block.id).Nodup) :
    (ofList blocks).blocks.Perm blocks :=
  blocks_foldl_insert_perm blocks empty hnodup

end Graph

end BlockDiagram
