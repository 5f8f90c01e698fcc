/-
Editing a single statement.

To change a pin or a waiting time in the editor is to change the kind of one block. The block may be
written many times over, at different levels and in chains that others share, and every one of these
places shows the new statement. Nothing else does: the program is made of texts that do not depend
on the kind of the block, with the statement between them.

So a program is looked at for all kinds at once. A row of fragments that depends on the kind has the
statement of the kind in some places and is the same elsewhere, which is said of the row by
recursion, so that rows can be put together of rows. Along the links of the graph it holds of every
row that emission makes, with a place for every visit of the block. The edited graphs have the
references of the original, so it is the links of the original that are followed.
-/
import BlockDiagram.Proofs.Graph.Building
import BlockDiagram.Proofs.Program.Bisimulation

set_option autoImplicit false

namespace BlockDiagram

/-! ## Single statements -/

/-- A kind whose statement is a single one, with the text that the statement needs. -/
structure Leaf where
  kind : BlockKind
  fragment : Fragment
  single : kind.leaf? = some fragment
  worded : kind.Worded

/-- A block with its kind replaced. -/
def Block.become (block : Block) (leaf : Leaf) : Block :=
  { block with kind := leaf.kind }

theorem Block.leaf?_become (block : Block) (leaf : Leaf) :
    (block.become leaf).kind.leaf? = some leaf.fragment :=
  leaf.single

theorem BlockKind.hasArms_of_leaf {kind : BlockKind} {fragment : Fragment}
    (hleaf : kind.leaf? = some fragment) : kind.HasArms := by
  cases kind with
  | conditional => cases hleaf
  | _ => trivial

namespace Block

variable {block : Block} {fragment : Fragment}

theorem isStart_of_leaf (hleaf : block.kind.leaf? = some fragment) : block.isStart = false := by
  unfold isStart
  cases hkind : block.kind <;> simp_all [BlockKind.leaf?]

/-- A single statement refers to nothing but what comes next. -/
theorem references_of_leaf (hleaf : block.kind.leaf? = some fragment) :
    block.references = reference? .next block.next := by
  unfold references
  cases hkind : block.kind <;> simp_all [BlockKind.leaf?]

theorem parts_of_leaf (hleaf : block.kind.leaf? = some fragment) (level : Nat) :
    block.parts level = [.fragment ⟨fragment, level⟩] := by
  unfold parts
  cases hkind : block.kind <;> simp_all [BlockKind.leaf?]

/-- What follows a single statement does not depend on what it is. -/
theorem following_become (hleaf : block.kind.leaf? = some fragment) (leaf : Leaf) (level : Nat) :
    (block.become leaf).following level = block.following level := by
  rw [following, following, isStart_of_leaf (block.leaf?_become leaf), isStart_of_leaf hleaf]
  rfl

theorem references_become (hleaf : block.kind.leaf? = some fragment) (leaf : Leaf) :
    (block.become leaf).references = block.references := by
  rw [references_of_leaf hleaf, references_of_leaf (block.leaf?_become leaf)]
  rfl

end Block

/-! ## The edited graph -/

section Edited

variable {graph : Graph} {block : Block} {fragment : Fragment}

namespace Graph

/-- The block is there with its new kind, and the others as they were. -/
theorem mem_blocks_edited (leaf : Leaf) {other : Block} :
    other ∈ (graph.insert (block.become leaf)).blocks ↔
      other = block.become leaf ∨ other ∈ graph.blocks ∧ other.id ≠ block.id :=
  mem_blocks_insert

theorem get?_edited_self (leaf : Leaf) :
    (graph.insert (block.become leaf)).get? block.id = some (block.become leaf) :=
  graph.get?_insert_self (block.become leaf)

theorem get?_edited_of_ne (leaf : Leaf) {id : BlockId} (hne : id ≠ block.id) :
    (graph.insert (block.become leaf)).get? id = graph.get? id :=
  graph.get?_insert_of_ne (Ne.symm hne)

variable (hblock : block ∈ graph.blocks) (hleaf : block.kind.leaf? = some fragment) (leaf : Leaf)

include hblock

theorem contains_edited (id : BlockId) :
    (graph.insert (block.become leaf)).contains id = graph.contains id := by
  by_cases hid : id = block.id
  · subst hid
    rw [contains_of_get? (get?_edited_self leaf),
      contains_of_get? (get?_eq_some_iff.2 ⟨hblock, rfl⟩)]
  · rw [contains, contains, get?_edited_of_ne leaf hid]

include hleaf

/-- The references are the same, so whatever is said of them still holds. -/
theorem mem_edges_edited {edge : Edge} :
    edge ∈ (graph.insert (block.become leaf)).edges ↔ edge ∈ graph.edges := by
  have hreferences := Block.references_become hleaf leaf
  rw [mem_edges_iff, mem_edges_iff]
  constructor
  · rintro ⟨other, hother, hid, hreference⟩
    rcases (mem_blocks_edited leaf).1 hother with rfl | ⟨hother, -⟩
    · exact ⟨block, hblock, hid, hreferences ▸ hreference⟩
    · exact ⟨other, hother, hid, hreference⟩
  · rintro ⟨other, hother, hid, hreference⟩
    by_cases hsame : other.id = block.id
    · obtain rfl : other = block := eq_of_id_eq hother hblock hsame
      exact ⟨_, (mem_blocks_edited leaf).2 (.inl rfl), hid, hreferences ▸ hreference⟩
    · exact ⟨other, (mem_blocks_edited leaf).2 (.inr ⟨hother, hsame⟩), hid, hreference⟩

theorem BeginsAt.edited {entry : BlockId} (hbegins : graph.BeginsAt entry) :
    (graph.insert (block.become leaf)).BeginsAt entry := by
  have hne {other : Block} {f : Fragment} (hsingle : other.kind.leaf? = some f) :
      other.kind ≠ .start := by
    intro hstart
    rw [hstart] at hsingle
    cases hsingle
  obtain ⟨⟨start, hstart, hid, hkind⟩, honly⟩ := hbegins
  refine ⟨⟨start, (mem_blocks_edited leaf).2 (.inr ⟨hstart, fun hsame => ?_⟩), hid, hkind⟩, ?_⟩
  · obtain rfl : start = block := eq_of_id_eq hstart hblock hsame
    exact hne hleaf hkind
  · intro other hother hkind'
    rcases (mem_blocks_edited leaf).1 hother with rfl | ⟨hother, -⟩
    · exact absurd hkind' (hne (block.leaf?_become leaf))
    · exact honly other hother hkind'

theorem WellFormed.edited (hwell : graph.WellFormed) :
    (graph.insert (block.become leaf)).WellFormed where
  begins := by
    obtain ⟨entry, hbegins⟩ := hwell.begins
    exact ⟨entry, hbegins.edited hblock hleaf leaf⟩
  closed edge hedge := by
    rw [contains_edited hblock leaf]
    exact hwell.closed edge ((mem_edges_edited hblock hleaf leaf).1 hedge)
  arms other hother := by
    rcases (mem_blocks_edited leaf).1 hother with rfl | ⟨hother, -⟩
    · exact BlockKind.hasArms_of_leaf leaf.single
    · exact hwell.arms other hother
  worded other hother := by
    rcases (mem_blocks_edited leaf).1 hother with rfl | ⟨hother, -⟩
    · exact leaf.worded
    · exact hwell.worded other hother
  acyclic := by
    have hrefers : (graph.insert (block.become leaf)).Refers = graph.Refers := by
      funext a b
      simp only [Refers, Along, mem_edges_edited hblock hleaf leaf]
    intro id
    rw [hrefers]
    exact hwell.acyclic id

end Graph

end Edited

/-! ## Rows with places for a statement -/

/-- Whether a row of fragments, given for every single statement, has the statement at some levels
and is the same for all of them elsewhere. -/
inductive Gapped : List Nat → (Leaf → List Placed) → Prop
  | nil : Gapped [] fun _ => []
  | kept {levels : List Nat} {row : Leaf → List Placed} (placed : Placed) (h : Gapped levels row) :
    Gapped levels fun leaf => placed :: row leaf
  | gap {levels : List Nat} {row : Leaf → List Placed} (level : Nat) (h : Gapped levels row) :
    Gapped (level :: levels) fun leaf => ⟨leaf.fragment, level⟩ :: row leaf

namespace Gapped

variable {levels levels' : List Nat} {row row' : Leaf → List Placed}

theorem append (h : Gapped levels row) (h' : Gapped levels' row') :
    Gapped (levels ++ levels') fun leaf => row leaf ++ row' leaf := by
  induction h with
  | nil => exact h'
  | kept placed _ ih => exact .kept placed ih
  | gap level _ ih => exact .gap level ih

theorem flatMap {α : Type} {items : List α} {levelsOf : α → List Nat}
    {rowOf : Leaf → α → List Placed}
    (h : ∀ item ∈ items, Gapped (levelsOf item) fun leaf => rowOf leaf item) :
    Gapped (items.flatMap levelsOf) fun leaf => items.flatMap (rowOf leaf) := by
  induction items with
  | nil => exact .nil
  | cons first rest ih =>
    simp only [List.flatMap_cons]
    exact (h first List.mem_cons_self).append (ih fun item hitem => h item (.tail _ hitem))

/-- The text of such a row consists of fixed texts with the statement between them, each time behind
the indentation of its level. -/
theorem exists_texts (h : Gapped levels row) (width : UInt64) :
    ∃ (head : String) (pieces : List (Nat × String)), pieces.map Prod.fst = levels ∧
      ∀ leaf, rowText width (row leaf) = head ++ String.join (pieces.map fun piece =>
        indentation width piece.1 ++ leaf.fragment.text "" ++ piece.2) := by
  induction h with
  | nil => exact ⟨"", [], rfl, fun _ => by simp⟩
  | kept placed _ ih =>
    obtain ⟨head, pieces, hlevels, htext⟩ := ih
    refine ⟨placed.text width ++ head, pieces, hlevels, fun leaf => ?_⟩
    rw [rowText_cons, htext, String.append_assoc]
  | gap level _ ih =>
    obtain ⟨head, pieces, hlevels, htext⟩ := ih
    refine ⟨"", (level, head) :: pieces, by rw [List.map_cons, hlevels], fun leaf => ?_⟩
    rw [rowText_cons, htext, Placed.text, BlockKind.leaf_text leaf.single, List.map_cons,
      String.join_cons, String.empty_append]
    simp only [String.append_assoc]

end Gapped

/-! ## The program around a statement -/

section Program

variable {valid : ValidGraph} {block : Block} {fragment : Fragment}

/-- A valid graph with the kind of a single statement replaced is valid, with the same entry. -/
def ValidGraph.edited (valid : ValidGraph) (hblock : block ∈ valid.graph.blocks)
    (hleaf : block.kind.leaf? = some fragment) (leaf : Leaf) : ValidGraph where
  graph := valid.graph.insert (block.become leaf)
  entry := valid.entry
  valid := Graph.violations_eq_nil_iff.2 (valid.wellFormed.edited hblock hleaf leaf)
  entry_eq := Graph.entry?_eq_some_iff.2 (valid.beginsAt_entry.edited hblock hleaf leaf)

/-- The levels of the visits of a block. -/
def levelsOf (id : BlockId) (visits : List Visit) : List Nat :=
  (visits.filter fun visit => decide (visit.id = id)).map Visit.level

@[simp] theorem levelsOf_cons_self (id : BlockId) (level : Nat) (visits : List Visit) :
    levelsOf id (⟨id, level⟩ :: visits) = level :: levelsOf id visits := by
  simp [levelsOf]

@[simp] theorem levelsOf_cons_of_ne {id other : BlockId} (hne : other ≠ id) (level : Nat)
    (visits : List Visit) : levelsOf id (⟨other, level⟩ :: visits) = levelsOf id visits := by
  simp [levelsOf, hne]

theorem levelsOf_flatMap {α : Type} (id : BlockId) (items : List α) (visits : α → List Visit) :
    levelsOf id (items.flatMap visits) = items.flatMap fun item => levelsOf id (visits item) := by
  rw [levelsOf, List.filter_flatMap, List.map_flatMap]
  rfl

namespace ValidGraph

variable (hblock : block ∈ valid.graph.blocks) (hleaf : block.kind.leaf? = some fragment)

/-- The edited block is its statement, and then what comes next. -/
theorem placed_edited_self (leaf : Leaf) (level : Nat) :
    ((valid.edited hblock hleaf leaf).unfold (some block.id)).placed level =
      ⟨leaf.fragment, level⟩ :: (block.following level).flatMap (Pending.placed
        fun link level => ((valid.edited hblock hleaf leaf).unfold link).placed level) := by
  have hget : (valid.edited hblock hleaf leaf).graph.get? block.id = some (block.become leaf) :=
    Graph.get?_edited_self leaf
  rw [placed_unfold hget, Block.parts_of_leaf (block.leaf?_become leaf),
    Block.following_become hleaf]
  rfl

/-- Any other block is what it was. -/
theorem placed_edited_of_ne {id : BlockId} {found : Block}
    (hget : valid.graph.get? id = some found) (hne : id ≠ block.id) (leaf : Leaf) (level : Nat) :
    ((valid.edited hblock hleaf leaf).unfold (some id)).placed level =
      (found.parts level ++ found.following level).flatMap (Pending.placed
        fun link level => ((valid.edited hblock hleaf leaf).unfold link).placed level) := by
  apply placed_unfold
  rw [← hget]
  exact Graph.get?_edited_of_ne leaf hne

/-- The fragments of a link have a place for the statement at every visit of the block. The links of
the edited graphs are followed along with those of the original. -/
theorem gapped_unfold (link : Option BlockId) (hlink : valid.graph.Resolves link) (level : Nat) :
    Gapped (levelsOf block.id ((valid.unfold link).visits level)) fun leaf =>
      ((valid.edited hblock hleaf leaf).unfold link).placed level := by
  induction link, hlink using valid.link_induction generalizing level with
  | nothing =>
    simp only [unfold_none]
    exact .nil
  | block id found hget ih =>
    -- what the block leaves behind, or the part of it that comes after its own statement
    have hpending (pending : List Pending)
        (hsub : ∀ item ∈ pending, item ∈ found.parts level ++ found.following level) :
        Gapped (levelsOf block.id
            (pending.flatMap (Pending.visits fun link level => (valid.unfold link).visits level)))
          fun leaf => pending.flatMap (Pending.placed fun link level =>
            ((valid.edited hblock hleaf leaf).unfold link).placed level) := by
      rw [levelsOf_flatMap]
      refine .flatMap fun item hitem => ?_
      cases item with
      | chain link below =>
        obtain ⟨slot, rfl, -⟩ := Block.exists_slot_of_mem (hsub _ hitem)
        exact ih slot below
      | fragment placed => exact .kept placed .nil
    rw [visits_unfold hget]
    by_cases hid : id = block.id
    · subst hid
      rw [Graph.get?_eq_some_iff.2 ⟨hblock, rfl⟩, Option.some.injEq] at hget
      subst hget
      have hfollowing := hpending (block.following level) fun _ => List.mem_append_right _
      simp only [placed_edited_self]
      rw [levelsOf_cons_self, Block.parts_of_leaf hleaf]
      exact .gap level hfollowing
    · simp only [placed_edited_of_ne hblock hleaf hget hid]
      rw [levelsOf_cons_of_ne hid]
      exact hpending _ fun _ hitem => hitem

/-- **Editing a single statement.** Let a block of a valid graph be a single statement. Then there
are texts, one more than the program visits the block, such that for every kind that is a single
statement, and has a text where it needs one, the graph with this kind for the block is valid and
its program consists of these texts with the statement of the kind between them, indented as far as
the level of each visit says. -/
theorem program_edited (valid : ValidGraph) (width : UInt64) {block : Block}
    (hblock : block ∈ valid.graph.blocks) (hleaf : block.kind.leaf?.isSome) :
    ∃ (head : String) (pieces : List (Nat × String)),
      pieces.map Prod.fst =
        (valid.visits.filter fun visit => decide (visit.id = block.id)).map Visit.level ∧
      ∀ kind fragment, kind.leaf? = some fragment → kind.Worded →
        ∃ edited, (valid.graph.insert { block with kind }).validated = .ok edited ∧
          edited.entry = valid.entry ∧
          edited.program width = head ++ String.join (pieces.map fun piece =>
            indentation width piece.1 ++ fragment.text "" ++ piece.2) := by
  obtain ⟨own, hleaf⟩ := Option.isSome_iff_exists.1 hleaf
  have hrow := gapped_unfold hblock hleaf (some valid.entry) valid.resolves_entry 0
  obtain ⟨head, pieces, hlevels, htext⟩ := hrow.exists_texts width
  refine ⟨head, pieces, ?_, fun kind fragment hsingle hworded => ?_⟩
  · rw [hlevels, visits_eq]
    rfl
  · have hprogram := htext ⟨kind, fragment, hsingle, hworded⟩
    refine ⟨valid.edited hblock hleaf ⟨kind, fragment, hsingle, hworded⟩, ?_, rfl, ?_⟩
    · exact (valid.edited hblock hleaf ⟨kind, fragment, hsingle, hworded⟩).validated_graph
    · rw [program_eq]
      exact hprogram

end ValidGraph

end Program

/-- Both arms of the conditional have the edited block. -/
theorem program_edited_sharing :
    (⟨2, none, .write 4 .high, .nil⟩ : Block) ∈ sharing.graph.blocks ∧
      ∃ before between behind, ∃ edited,
        (sharing.graph.insert ⟨2, none, .sleep 70, .nil⟩).validated = .ok edited ∧
        edited.program 4 = before ++ (indentation 4 2 ++ "delay(70);" ++ between ++
          (indentation 4 2 ++ "delay(70);" ++ behind)) := by
  have hblock : (⟨2, none, .write 4 .high, .nil⟩ : Block) ∈ sharing.graph.blocks :=
    (Graph.get?_eq_some_iff.1 (show sharing.graph.get? 2 = some _ from rfl)).1
  obtain ⟨before, pieces, hlevels, hedit⟩ := sharing.program_edited 4 hblock rfl
  have hvisits : (sharing.visits.filter fun visit => decide (visit.id = 2)).map Visit.level =
      [2, 2] := by decide
  rw [hvisits] at hlevels
  match pieces, hlevels with
  | [(_, between), (_, behind)], rfl =>
    obtain ⟨edited, hok, -, hprogram⟩ := hedit (.sleep 70) (.wait 70) rfl trivial
    refine ⟨hblock, before, between, behind, edited, hok, ?_⟩
    have htext : (Fragment.wait 70).text "" = "delay(70);" := by decide
    rw [hprogram, htext]
    simp [String.join_cons]

end BlockDiagram
