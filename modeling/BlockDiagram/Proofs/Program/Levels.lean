/-
How far a program is indented.

A fragment is indented by as many spaces as the width makes of a level, and a machine computes this
product in sixty-four bits. A level is carried along ways that may be exponentially many, and no
step of emission says how far it may grow. What bounds it is the rank of the links: every reference
leads to something of lower rank, and adds one to the level at most. So the two together never grow
along a way, and at the entry they come to the number of blocks at most.

Indentations are made where a block is visited, for the fragments that it is written as. A body that
has no blocks would be one level further down, but nothing is indented there.
-/
import BlockDiagram.Proofs.Graph.Building
import BlockDiagram.Proofs.Program.Run

set_option autoImplicit false

namespace BlockDiagram

/-! ## Levels along a way -/

/-- What a block turns into and what follows it is placed at the level of the block, as far as it
is placed already. -/
theorem Block.level_of_fragment_mem {block : Block} {level : Nat} {placed : Placed}
    (h : Pending.fragment placed ∈ block.parts level ++ block.following level) :
    placed.level = level := by
  have hparts : ∀ pending ∈ block.parts level, ∀ placed, pending = .fragment placed →
      placed.level = level := by
    unfold parts
    cases block.kind <;> simp
  have hfollowing : ∀ pending ∈ block.following level, ∀ placed, pending = .fragment placed →
      placed.level = level := by
    unfold following
    split <;> simp
  exact (List.mem_append.1 h).elim (hparts _ · _ rfl) (hfollowing _ · _ rfl)

namespace ValidGraph

variable {valid : ValidGraph}

/-- A fragment is placed at the level of a block that is visited there. -/
theorem exists_visit_of_mem_placed (link : Option BlockId) (hlink : valid.graph.Resolves link)
    (level : Nat) {placed : Placed} (h : placed ∈ (valid.unfold link).placed level) :
    ∃ visit ∈ (valid.unfold link).visits level, visit.level = placed.level := by
  induction link, hlink using valid.link_induction generalizing level with
  | nothing =>
    rw [unfold_none] at h
    exact absurd h List.not_mem_nil
  | block id block hget ih =>
    rw [placed_unfold hget, List.mem_flatMap] at h
    rw [visits_unfold hget]
    obtain ⟨pending, hpending, hmem⟩ := h
    cases pending with
    | fragment other =>
      rw [Pending.placed, List.mem_singleton] at hmem
      rw [hmem, Block.level_of_fragment_mem hpending]
      exact ⟨⟨id, level⟩, List.mem_cons_self, rfl⟩
    | chain link below =>
      obtain ⟨slot, rfl, -⟩ := Block.exists_slot_of_mem hpending
      obtain ⟨visit, hvisit, hlevel⟩ := ih slot below hmem
      refine ⟨visit, List.mem_cons_of_mem _ ?_, hlevel⟩
      exact List.mem_flatMap.2 ⟨_, hpending, hvisit⟩

/-- From a link on, the level grows by less than the rank of the link. -/
theorem level_lt_of_mem_visits (link : Option BlockId) (hlink : valid.graph.Resolves link)
    (level : Nat) {visit : Visit} (h : visit ∈ (valid.unfold link).visits level) :
    visit.level < level + valid.graph.rank link := by
  -- the rank of a slot is lower than that of the block, and its level is one more at most
  induction link, hlink using valid.link_induction generalizing level with
  | nothing =>
    rw [unfold_none] at h
    exact absurd h List.not_mem_nil
  | block id block hget ih =>
    rw [visits_unfold hget, List.mem_cons, List.mem_flatMap] at h
    rcases h with rfl | ⟨pending, hpending, hmem⟩
    · exact Nat.lt_add_of_pos_right (Nat.succ_pos _)
    · cases pending with
      | fragment placed => exact absurd hmem List.not_mem_nil
      | chain link below =>
        obtain ⟨slot, rfl, rfl⟩ := Block.exists_slot_of_mem hpending
        have hslot := ih slot _ hmem
        have hrank := valid.rank_target?_lt hget slot
        have hlevel : block.levelOf slot level ≤ level + 1 := by
          unfold Block.levelOf
          split <;> omega
        omega

end ValidGraph

/-! ## Levels of a program -/

namespace ValidGraph

/-- Whether a program has something at a level: a block that is visited there, or a fragment that is
placed there. -/
def Indents (valid : ValidGraph) (level : Nat) : Prop :=
  (∃ visit ∈ valid.visits, visit.level = level) ∨ ∃ placed ∈ valid.fragments, placed.level = level

/-- Whether sixty-four bits are enough for all indentations of a program at some width: no product
of the width and a level overflows, and what a machine computes is the number of spaces. -/
def FitsWord (valid : ValidGraph) (width : UInt64) : Prop :=
  ∀ level, valid.Indents level → width.toNat * level < 2 ^ 64 ∧
    (width * UInt64.ofNat level).toNat = (indentation width level).length

theorem indents_iff (valid : ValidGraph) {level : Nat} :
    valid.Indents level ↔ ∃ visit ∈ valid.visits, visit.level = level := by
  constructor
  · rintro (hvisit | ⟨placed, hplaced, rfl⟩)
    · exact hvisit
    · rw [fragments_eq] at hplaced
      rw [visits_eq]
      exact exists_visit_of_mem_placed _ valid.resolves_entry 0 hplaced
  · exact .inl

theorem level_lt_size (valid : ValidGraph) {level : Nat} (h : valid.Indents level) :
    level < valid.graph.size := by
  obtain ⟨visit, hvisit, rfl⟩ := valid.indents_iff.1 h
  rw [visits_eq] at hvisit
  have hlt := level_lt_of_mem_visits _ valid.resolves_entry 0 hvisit
  have hrank := valid.acyclic.rank_le_size valid.resolves_entry
  omega

/-- The greatest level that the number of blocks allows decides about all of them. -/
theorem fitsWord_of_lt (valid : ValidGraph) {width : UInt64}
    (h : width.toNat * (valid.graph.size - 1) < 2 ^ 64) : valid.FitsWord width := by
  intro level hlevel
  have hlt := valid.level_lt_size hlevel
  have hsize := valid.graph.size_le
  have hmul : width.toNat * level < 2 ^ 64 :=
    (Nat.mul_le_mul_left _ (Nat.le_sub_one_of_lt hlt)).trans_lt h
  have hword : level < UInt64.size := hlt.trans_le (hsize.trans (by decide))
  refine ⟨hmul, ?_⟩
  rw [indentation, String.length_ofList, List.length_replicate, UInt64.toNat_mul,
    UInt64.toNat_ofNat_of_lt' hword]
  exact Nat.mod_eq_of_lt hmul

theorem fitsWord_of_le (valid : ValidGraph) {width : UInt64} (h : width.toNat ≤ 2 ^ 32) :
    valid.FitsWord width := by
  apply valid.fitsWord_of_lt
  have hsize := valid.graph.size_le
  calc width.toNat * (valid.graph.size - 1)
      ≤ 2 ^ 32 * (2 ^ 32 - 1) := Nat.mul_le_mul h (Nat.sub_le_sub_right hsize 1)
    _ < 2 ^ 64 := by decide

/-- Where nothing follows the entry, it is the only block that is visited. -/
theorem visits_of_next_eq_none (valid : ValidGraph) {block : Block}
    (hget : valid.graph.get? valid.entry = some block) (hnext : block.next = none) :
    valid.visits = [⟨valid.entry, 0⟩] := by
  obtain ⟨start, hstart, hkind⟩ := valid.get?_entry
  rw [hget, Option.some.injEq] at hstart
  subst hstart
  rw [visits_eq, tree, visits_unfold hget]
  simp [Block.parts, Block.following, Block.isStart, hkind, hnext, Pending.visits,
    Unfolding.visits]

/-- **Levels of a program.** Every level of a program is below the number of blocks of its graph. So
its indentations fit sixty-four bits whenever the width times the greatest level that the number of
blocks allows does; and since ids have thirty-two bits, they fit for all widths up to `2 ^ 32`. A
program without a body has everything at the outermost level. -/
theorem program_levels (valid : ValidGraph) :
    (∀ level, valid.Indents level → level < valid.graph.size) ∧
      (∀ width : UInt64, width.toNat * (valid.graph.size - 1) < 2 ^ 64 → valid.FitsWord width) ∧
      valid.graph.size ≤ 2 ^ 32 ∧
      (∀ width : UInt64, width.toNat ≤ 2 ^ 32 → valid.FitsWord width) ∧
      ∀ block, valid.graph.get? valid.entry = some block → block.next = none →
        ∀ level, valid.Indents level → level = 0 := by
  refine ⟨fun _ => valid.level_lt_size, fun _ => valid.fitsWord_of_lt, valid.graph.size_le,
    fun _ => valid.fitsWord_of_le, fun block hget hnext level h => ?_⟩
  obtain ⟨visit, hvisit, rfl⟩ := valid.indents_iff.1 h
  rw [valid.visits_of_next_eq_none hget hnext, List.mem_singleton] at hvisit
  rw [hvisit]

end ValidGraph

/-- A program that is nested as far as three blocks can be. -/
def nestedThrice : ValidGraph where
  graph := .ofList [⟨0, some 1, .start, .nil⟩, ⟨1, none, .loop "on" (some 2), .nil⟩,
    ⟨2, none, .sleep 5, .nil⟩]
  entry := 0
  valid := by decide
  entry_eq := by decide

/-- A program without a body. -/
def bodiless : ValidGraph where
  graph := .ofList [⟨7, none, .start, .nil⟩]
  entry := 7
  valid := by decide
  entry_eq := by decide

/-- The greatest level that three blocks allow is reached, and the greatest width fits; without a
body the outermost level is the only one. -/
theorem program_levels_nestedThrice :
    (nestedThrice.Indents 2 ∧ nestedThrice.graph.size = 3) ∧
      nestedThrice.FitsWord 4294967296 ∧ nestedThrice.FitsWord 9223372036854775807 ∧
      ∀ level, bodiless.Indents level → level = 0 := by
  have hnested : nestedThrice.Indents 2 := .inl ⟨⟨2, 2⟩, by decide, rfl⟩
  refine ⟨⟨hnested, rfl⟩, nestedThrice.program_levels.2.2.2.1 _ (by decide),
    nestedThrice.program_levels.2.1 _ (by decide), ?_⟩
  exact bodiless.program_levels.2.2.2.2 ⟨7, none, .start, .nil⟩ rfl rfl

end BlockDiagram
