/-
How often a block occurs in a program.

A block is written once for every way in which the references of the graph lead to it from the
entry, and at a depth that is given by the way: a reference that is nested in its block leads one
level down, and a `next` link of a statement leads to the same level. Two ways may differ in their
last reference only, or in nothing but the slot of one reference, and each counts.

The ways are sets of paths, and their number is taken as the size of a set, so that nothing has to
be enumerated twice. That the tree of a link has as many visits as there are paths from it goes by
induction on the link: a path that is not empty begins with one of the slots of the block, and the
paths that begin with different slots are different.
-/
import BlockDiagram.Proofs.Program.Run

set_option autoImplicit false

namespace BlockDiagram

open Relation

/-! ## Paths -/

/-- A reference as it is followed: the block that it comes from, and its slot. -/
abbrev Hop := BlockId × Slot

namespace Graph

variable {graph : Graph}

/-- The paths of a graph: references one after the other, each from where the last one led to. -/
inductive Path (graph : Graph) : BlockId → List Hop → BlockId → Prop
  | stay (id : BlockId) : Path graph id [] id
  | hop {a b c : BlockId} {slot : Slot} {path : List Hop} (hedge : ⟨a, slot, b⟩ ∈ graph.edges)
      (hpath : Path graph b path c) : Path graph a ((a, slot) :: path) c

/-- Whether a reference leads a level down. The `next` links of statements do not; that of a start
block does. -/
def nests (graph : Graph) (hop : Hop) : Bool :=
  decide (hop.2 ≠ .next ∨ hop.1 ∈ graph.starts)

/-- The number of levels that a path leads down. -/
def depth (graph : Graph) (path : List Hop) : Nat :=
  path.countP graph.nests

theorem exists_path_iff {a b : BlockId} :
    (∃ path, graph.Path a path b) ↔ ReflTransGen graph.Refers a b := by
  constructor
  · rintro ⟨path, hpath⟩
    induction hpath with
    | stay id => exact .refl
    | hop hedge _ ih => exact .head ⟨_, hedge⟩ ih
  · intro hway
    induction hway using ReflTransGen.head_induction_on with
    | refl => exact ⟨[], .stay b⟩
    | head hac _ ih =>
      obtain ⟨slot, hedge⟩ := hac
      obtain ⟨path, hpath⟩ := ih
      exact ⟨_, .hop hedge hpath⟩

/-- A slot leads down in the graph exactly where it does in its block. -/
theorem nests_eq {id : BlockId} {block : Block} (hget : graph.get? id = some block) (slot : Slot) :
    graph.nests (id, slot) = block.nests slot := by
  rw [Bool.eq_iff_iff, nests, decide_eq_true_iff, mem_starts_iff hget]
  cases slot <;> simp [Block.nests]

theorem depth_cons {id : BlockId} {block : Block} (hget : graph.get? id = some block) (slot : Slot)
    (path : List Hop) (level : Nat) :
    level + graph.depth ((id, slot) :: path) = block.levelOf slot level + graph.depth path := by
  unfold depth Block.levelOf
  rw [List.countP_cons, nests_eq hget slot]
  split <;> omega

/-- The paths from a link to a block at a level, given the level of the link. -/
def ways (graph : Graph) (link : Option BlockId) (below : Nat) (id : BlockId) (level : Nat) :
    Set (List Hop) :=
  {path | ∃ first ∈ link, graph.Path first path id ∧ below + graph.depth path = level}

/-- Those of them that begin with one of the given slots of a block. -/
def waysBy (graph : Graph) (first : BlockId) (block : Block) (slots : List Slot) (below : Nat)
    (id : BlockId) (level : Nat) : Set (List Hop) :=
  {path | ∃ slot ∈ slots, ∃ rest ∈
    graph.ways (block.target? slot) (block.levelOf slot below) id level,
      (first, slot) :: rest = path}

variable {id first : BlockId} {below level : Nat} {block : Block}

theorem ways_none : graph.ways none below id level = ∅ := by
  ext path
  simp [ways]

/-- A path from a block is empty or begins with one of its slots. -/
theorem ways_some (hget : graph.get? first = some block) :
    graph.ways (some first) below id level =
      (if (⟨first, below⟩ : Visit) = ⟨id, level⟩ then {[]} else ∅) ∪
        graph.waysBy first block Slot.inOrder below id level := by
  ext path
  rw [Set.mem_union]
  constructor
  · rintro ⟨_, ⟨⟩, hpath, hlevel⟩
    cases hpath with
    | stay =>
      left
      rw [depth, List.countP_nil, Nat.add_zero] at hlevel
      rw [if_pos (by rw [hlevel])]
      rfl
    | @hop _ target _ slot rest hedge hpath =>
      -- the edge that the path begins with is a slot of the block
      right
      obtain ⟨found, hfound, htarget⟩ := edge_iff.1 hedge
      rw [hget, Option.some.injEq] at hfound
      subst hfound
      rw [depth_cons hget] at hlevel
      refine ⟨slot, ?_, rest, ⟨target, htarget, hpath, hlevel⟩, rfl⟩
      cases slot <;> decide
  · rintro (hpath | ⟨slot, -, rest, ⟨target, htarget, hpath, hlevel⟩, rfl⟩)
    · split at hpath
      · rename_i heq
        rw [Set.mem_singleton_iff] at hpath
        rw [Visit.mk.injEq] at heq
        rw [hpath, ← heq.1, ← heq.2]
        exact ⟨first, rfl, .stay first, rfl⟩
      · exact absurd hpath (Set.notMem_empty path)
    · refine ⟨first, rfl, .hop (edge_iff.2 ⟨block, hget, htarget⟩) hpath, ?_⟩
      rw [depth_cons hget]
      exact hlevel

/-- Paths that begin with different slots are different, so their numbers add up. -/
theorem encard_waysBy (slots : List Slot) (hnodup : slots.Nodup) :
    (graph.waysBy first block slots below id level).encard =
      (slots.map fun slot =>
        (graph.ways (block.target? slot) (block.levelOf slot below) id level).encard).sum := by
  -- on the slots; the paths by the first one are the image of the ways from its target
  induction slots with
  | nil =>
    have hempty : graph.waysBy first block [] below id level = ∅ := by
      ext path
      simp [waysBy]
    rw [hempty, Set.encard_empty, List.map_nil, List.sum_nil]
  | cons slot slots ih =>
    rw [List.nodup_cons] at hnodup
    have hsplit : graph.waysBy first block (slot :: slots) below id level =
        (fun rest => (first, slot) :: rest) ''
            graph.ways (block.target? slot) (block.levelOf slot below) id level ∪
          graph.waysBy first block slots below id level := by
      ext path
      simp [waysBy]
    have hinjective : Function.Injective fun rest : List Hop => (first, slot) :: rest :=
      List.cons_injective
    have hdisjoint : Disjoint
        ((fun rest => (first, slot) :: rest) ''
          graph.ways (block.target? slot) (block.levelOf slot below) id level)
        (graph.waysBy first block slots below id level) := by
      rw [Set.disjoint_left]
      rintro _ ⟨rest, -, rfl⟩ ⟨other, hother, rest', -, heq⟩
      rw [List.cons.injEq, Prod.mk.injEq] at heq
      rw [heq.1.2] at hother
      exact hnodup.1 hother
    rw [hsplit, Set.encard_union_eq hdisjoint, hinjective.encard_image, ih hnodup.2, List.map_cons,
      List.sum_cons]

end Graph

/-! ## Visits -/

namespace ValidGraph

/-- The tree of a link has as many visits of a block at a level as there are paths to it. -/
theorem count_visits_unfold (valid : ValidGraph) (link : Option BlockId)
    (hlink : valid.graph.Resolves link) (below : Nat) (id : BlockId) (level : Nat) :
    ((((valid.unfold link).visits below).count ⟨id, level⟩ : ℕ) : ℕ∞) =
      (valid.graph.ways link below id level).encard := by
  induction link, hlink using valid.link_induction generalizing below with
  | nothing =>
    rw [unfold_none, Graph.ways_none, Set.encard_empty, Unfolding.visits, List.count_nil,
      Nat.cast_zero]
  | block first block hget ih =>
    have hid : block.id = first := (Graph.get?_eq_some_iff.1 hget).2
    have hself : (((if (⟨first, below⟩ : Visit) == ⟨id, level⟩ then 1 else 0 : ℕ)) : ℕ∞) =
        (if (⟨first, below⟩ : Visit) = ⟨id, level⟩ then {[]} else ∅ : Set (List Hop)).encard := by
      by_cases heq : (⟨first, below⟩ : Visit) = ⟨id, level⟩
      · rw [if_pos heq, if_pos (beq_iff_eq.2 heq), Set.encard_singleton, Nat.cast_one]
      · rw [if_neg heq, if_neg (fun h => heq (beq_iff_eq.1 h)), Set.encard_empty, Nat.cast_zero]
    have hslots : ((Slot.inOrder.flatMap fun slot =>
          (valid.unfold (block.target? slot)).visits (block.levelOf slot below)).count
            ⟨id, level⟩ : ℕ∞) =
        (valid.graph.waysBy first block Slot.inOrder below id level).encard := by
      rw [Graph.encard_waysBy _ (by decide), List.count_flatMap, Nat.cast_list_sum, List.map_map]
      congr 1
      exact List.map_congr_left fun slot _ => ih slot (block.levelOf slot below)
    -- the path that stays is not one of those that begin with a slot
    have hdisjoint : Disjoint
        (if (⟨first, below⟩ : Visit) = ⟨id, level⟩ then {[]} else ∅ : Set (List Hop))
        (valid.graph.waysBy first block Slot.inOrder below id level) := by
      rw [Set.disjoint_left]
      rintro path hpath ⟨slot, -, rest, -, rfl⟩
      split at hpath
      · exact absurd (Set.mem_singleton_iff.1 hpath) (List.cons_ne_nil _ _)
      · exact absurd hpath (Set.notMem_empty _)
    rw [unfold_some hget, Unfolding.visits, hid, List.count_cons, Nat.cast_add, hslots, hself,
      Graph.ways_some hget, Set.encard_union_eq hdisjoint, add_comm]

/-- The ways from the entry are the paths from it, at their depths. -/
theorem count_visits (valid : ValidGraph) (id : BlockId) (level : Nat) :
    ((valid.visits.count ⟨id, level⟩ : ℕ) : ℕ∞) =
      {path | valid.graph.Path valid.entry path id ∧ valid.graph.depth path = level}.encard := by
  rw [visits_eq, tree, valid.count_visits_unfold _ valid.resolves_entry]
  congr 1
  ext path
  simp [Graph.ways]

theorem mem_visits_iff (valid : ValidGraph) {id : BlockId} {level : Nat} :
    ⟨id, level⟩ ∈ valid.visits ↔
      ∃ path, valid.graph.Path valid.entry path id ∧ valid.graph.depth path = level := by
  rw [← List.count_pos_iff, ← Nat.cast_pos' (α := ℕ∞), count_visits, Set.encard_pos]
  rfl

/-- Nothing leads back to the entry, so the path that stays there is the only one to it. -/
theorem path_entry_iff (valid : ValidGraph) {path : List Hop} :
    valid.graph.Path valid.entry path valid.entry ↔ path = [] := by
  constructor
  · intro hpath
    cases hpath with
    | stay => rfl
    | hop hedge hrest =>
      have hback := Graph.exists_path_iff.1 ⟨_, hrest⟩
      exact absurd (.head' ⟨_, hedge⟩ hback) (valid.acyclic valid.entry)
  · rintro rfl
    exact .stay valid.entry

/-- The program has one visit of the entry, at the outermost level. -/
theorem visits_entry (valid : ValidGraph) :
    valid.visits.filter (fun visit => visit.id = valid.entry) = [⟨valid.entry, 0⟩] := by
  have hcount (level : Nat) :
      valid.visits.count ⟨valid.entry, level⟩ = if level = 0 then 1 else 0 := by
    have hpaths : {path | valid.graph.Path valid.entry path valid.entry ∧
        valid.graph.depth path = level} = if level = 0 then {[]} else ∅ := by
      ext path
      rw [Set.mem_ofPred_eq, path_entry_iff]
      by_cases hlevel : level = 0
      · rw [if_pos hlevel, hlevel, Set.mem_singleton_iff]
        constructor
        · exact And.left
        · rintro rfl
          exact ⟨rfl, rfl⟩
      · rw [if_neg hlevel]
        refine iff_of_false ?_ (Set.notMem_empty path)
        rintro ⟨rfl, hdepth⟩
        exact hlevel hdepth.symm
    rw [← Nat.cast_inj (R := ℕ∞), count_visits, hpaths]
    split
    · rw [Set.encard_singleton, Nat.cast_one]
    · rw [Set.encard_empty, Nat.cast_zero]
  -- a list that has one visit once and no other visit is that visit alone
  apply List.perm_singleton.1
  rw [List.perm_iff_count]
  rintro ⟨id, level⟩
  by_cases hid : id = valid.entry
  · subst hid
    rw [List.count_filter (by simp), hcount, List.count_singleton]
    simp only [beq_iff_eq, Visit.mk.injEq, true_and]
    exact if_congr eq_comm rfl rfl
  · rw [List.count_eq_zero.2, List.count_eq_zero.2]
    · simp [hid]
    · simp [hid]

/-- A block occurs at a level as often as there are paths to it from the entry that lead as many
levels down, counting the paths and not their blocks. The entry occurs once, outermost; and exactly
the blocks that the entry leads to, itself included, occur at all. -/
theorem occurrences_eq_paths (valid : ValidGraph) :
    (∀ id level, ((valid.visits.count ⟨id, level⟩ : ℕ) : ℕ∞) =
        {path | valid.graph.Path valid.entry path id ∧ valid.graph.depth path = level}.encard) ∧
      valid.visits.filter (fun visit => visit.id = valid.entry) = [⟨valid.entry, 0⟩] ∧
      ∀ id, (∃ level, ⟨id, level⟩ ∈ valid.visits) ↔
        ReflTransGen valid.graph.Refers valid.entry id := by
  refine ⟨valid.count_visits, valid.visits_entry, fun id => ?_⟩
  rw [← Graph.exists_path_iff]
  constructor
  · rintro ⟨level, hmem⟩
    obtain ⟨path, hpath, -⟩ := valid.mem_visits_iff.1 hmem
    exact ⟨path, hpath⟩
  · rintro ⟨path, hpath⟩
    exact ⟨_, valid.mem_visits_iff.2 ⟨path, hpath, rfl⟩⟩

end ValidGraph

end BlockDiagram
