/-
What a run of emission does.

Emission keeps what is still to come on a stack and never looks below the top. So what it does with
the things on top does not depend on what lies under them, and a run can be put together from the
runs of its parts: of a fragment, of a link that leads nowhere, and of a block, whose parts are run
one after the other once they have taken its place. Along the tree of a link this gives the whole
run, with the fragments and the visits that it adds and the number of steps that it takes.

The number of steps matters only in that there is one. A block that is referred to twice is walked
twice, and so is everything below it, so no count of blocks bounds the run; what does is a power of
the number of links that a block leaves behind, with the rank of the link as the exponent.
-/
import BlockDiagram.Proofs.Machine
import BlockDiagram.Proofs.Program.Unfolding

set_option autoImplicit false

namespace BlockDiagram

/-! ## Parts of a run -/

/-- What is placed for something that is still to come, given what is placed for a link. -/
def Pending.placed (ofLink : Option BlockId → Nat → List Placed) : Pending → List Placed
  | .chain link level => ofLink link level
  | .fragment placed => [placed]

/-- What is visited for something that is still to come, given what is visited for a link. -/
def Pending.visits (ofLink : Option BlockId → Nat → List Visit) : Pending → List Visit
  | .chain link level => ofLink link level
  | .fragment _ => []

/-- The steps for something that is still to come, given a number of steps for every link. -/
def Pending.cost (ofLink : Nat) : Pending → Nat
  | .chain _ _ => ofLink
  | .fragment _ => 1

namespace Emission

variable {graph : Graph} {m n : Nat} {pending pending' : List Pending}
  {placed placed' : List Placed} {visits visits' : List Visit}

/-- Whether emission gets rid of what is on top of its stack in a number of steps, adding the given
fragments and visits, whatever lies below and whatever was added before. -/
def Emits (graph : Graph) (n : Nat) (pending : List Pending) (placed : List Placed)
    (visits : List Visit) : Prop :=
  ∀ rest before earlier, Takes (step? graph) n ⟨pending ++ rest, before, earlier⟩
    ⟨rest, placed.reverse ++ before, visits.reverse ++ earlier⟩

theorem Emits.nil : Emits graph 0 [] [] [] := by
  intro rest before earlier
  exact .rest _

theorem Emits.append (hm : Emits graph m pending placed visits)
    (hn : Emits graph n pending' placed' visits') :
    Emits graph (m + n) (pending ++ pending') (placed ++ placed') (visits ++ visits') := by
  intro rest before earlier
  have hfirst := hm (pending' ++ rest) before earlier
  have hsecond := hn rest (placed.reverse ++ before) (visits.reverse ++ earlier)
  rw [List.append_assoc, List.reverse_append, List.reverse_append, List.append_assoc,
    List.append_assoc]
  exact hfirst.trans hsecond

theorem emits_fragment (placed : Placed) : Emits graph 1 [.fragment placed] [placed] [] := by
  intro rest before earlier
  exact .single rfl

theorem emits_nowhere (level : Nat) : Emits graph 1 [.chain none level] [] [] := by
  intro rest before earlier
  exact .single rfl

/-- A link to a block is replaced by what the block turns into and what follows it. -/
theorem emits_block {id : BlockId} {block : Block} (hget : graph.get? id = some block)
    {level : Nat}
    (h : Emits graph n (block.parts level ++ block.following level) placed visits) :
    Emits graph (n + 1) [.chain (some id) level] placed (⟨id, level⟩ :: visits) := by
  intro rest before earlier
  have hstep : step? graph ⟨.chain (some id) level :: rest, before, earlier⟩ =
      some ⟨block.parts level ++ block.following level ++ rest, before,
        ⟨id, level⟩ :: earlier⟩ := by
    simp only [step?, hget]
  -- the visit is the first of those that this run adds, so it is the last in the reversed list
  have hrest := h rest before (⟨id, level⟩ :: earlier)
  rw [List.reverse_cons, List.append_assoc]
  exact .step hstep hrest

/-- Where every link of a list is run in a bounded number of steps, the whole list is. -/
theorem emits_pending {bound : Nat} {ofLink : Option BlockId → Nat → List Placed}
    {visitsOf : Option BlockId → Nat → List Visit} (pending : List Pending)
    (h : ∀ link level, .chain link level ∈ pending → ∃ n ≤ bound,
      Emits graph n [.chain link level] (ofLink link level) (visitsOf link level)) :
    ∃ n ≤ (pending.map (Pending.cost bound)).sum,
      Emits graph n pending (pending.flatMap (Pending.placed ofLink))
        (pending.flatMap (Pending.visits visitsOf)) := by
  induction pending with
  | nil => exact ⟨0, Nat.le_refl 0, .nil⟩
  | cons first pending ih =>
    obtain ⟨n, hn, hrest⟩ := ih fun link level hmem =>
      h link level (List.mem_cons_of_mem first hmem)
    rw [List.map_cons, List.sum_cons, List.flatMap_cons, List.flatMap_cons]
    cases first with
    | chain link level =>
      obtain ⟨m, hm, hfirst⟩ := h link level List.mem_cons_self
      exact ⟨m + n, Nat.add_le_add hm hn, hfirst.append hrest⟩
    | fragment placed =>
      exact ⟨1 + n, Nat.add_le_add_left hn 1, (emits_fragment placed).append hrest⟩

end Emission

/-! ## What a block leaves behind -/

namespace Block

/-- The links that a block leaves behind are those in its slots, at the levels of these. -/
theorem exists_slot_of_mem {block : Block} {level below : Nat} {link : Option BlockId}
    (h : Pending.chain link below ∈ block.parts level ++ block.following level) :
    ∃ slot, link = block.target? slot ∧ below = block.levelOf slot level := by
  rw [List.mem_append] at h
  rcases h with h | h
  · cases hkind : block.kind with
    | start =>
      refine ⟨.next, ?_⟩
      simpa [parts, target?, levelOf, nests, isStart, hkind] using h
    | loop condition child =>
      refine ⟨.child, ?_⟩
      simpa [parts, target?, levelOf, nests, hkind] using h
    | conditional condition ifTrue ifFalse =>
      simp only [parts, hkind, List.mem_cons, reduceCtorEq, Pending.chain.injEq, List.not_mem_nil,
        false_or, or_false] at h
      rcases h with h | h
      · refine ⟨.ifTrue, ?_⟩
        simpa [target?, levelOf, nests, hkind] using h
      · refine ⟨.ifFalse, ?_⟩
        simpa [target?, levelOf, nests, hkind] using h
    | _ => simp [parts, hkind] at h
  · refine ⟨.next, ?_⟩
    unfold following at h
    by_cases hends : (block.isStart || block.next.isNone) = true
    · rw [if_pos hends] at h
      exact absurd h List.not_mem_nil
    · rw [if_neg hends] at h
      have hstart : block.isStart = false := by simp_all
      simpa [target?, levelOf, nests, hstart] using h

/-- A block leaves three links behind at most, and four fragments. -/
theorem cost_le (bound : Nat) (block : Block) (level : Nat) :
    ((block.parts level ++ block.following level).map (Pending.cost bound)).sum ≤
      3 * bound + 4 := by
  have hparts : ((block.parts level).map (Pending.cost bound)).sum ≤ 2 * bound + 3 := by
    unfold parts
    cases block.kind <;>
    · simp only [List.map_cons, List.map_nil, List.sum_cons, List.sum_nil, Pending.cost]
      omega
  have hfollowing : ((block.following level).map (Pending.cost bound)).sum ≤ bound + 1 := by
    unfold following
    split <;>
    · simp only [List.map_cons, List.map_nil, List.sum_cons, List.sum_nil, Pending.cost]
      omega
  rw [List.map_append, List.sum_append]
  omega

end Block

/-! ## The run along a tree -/

namespace ValidGraph

variable {valid : ValidGraph}

/-- The visits of a block are its own, and those of what it turns into and of what follows it. -/
theorem visits_unfold {id : BlockId} {block : Block} (hget : valid.graph.get? id = some block)
    (level : Nat) :
    (valid.unfold (some id)).visits level = ⟨id, level⟩ ::
      (block.parts level ++ block.following level).flatMap
        (Pending.visits fun link level => (valid.unfold link).visits level) := by
  have hid : block.id = id := (Graph.get?_eq_some_iff.1 hget).2
  rw [unfold_some hget, Unfolding.visits, hid]
  congr 1
  unfold Block.parts Block.following Block.levelOf Block.nests Block.target? Block.isStart
  cases hkind : block.kind <;> cases hnext : block.next <;>
    simp [Slot.inOrder, Pending.visits, Unfolding.visits]

/-- There is a sequel where there is a link, since the link leads to a block. -/
theorem sequel_unfold {link : Option BlockId} (hlink : valid.graph.Resolves link) (level : Nat)
    (placed : List Placed) : Unfolding.sequel level (valid.unfold link) placed =
      if link.isNone then [] else ⟨.lineBreak, level⟩ :: placed := by
  cases link with
  | none => simp [Unfolding.sequel]
  | some id =>
    obtain ⟨block, hget⟩ := Graph.get?_of_contains (Graph.resolves_some.1 hlink)
    simp [unfold_some hget, Unfolding.sequel]

/-- The fragments of a block are those of what it turns into and of what follows it. -/
theorem placed_unfold {id : BlockId} {block : Block} (hget : valid.graph.get? id = some block)
    (level : Nat) :
    (valid.unfold (some id)).placed level =
      (block.parts level ++ block.following level).flatMap
        (Pending.placed fun link level => (valid.unfold link).placed level) := by
  -- the tree asks whether something follows, the block whether it has a `next` link
  have hsequel := sequel_unfold (valid.closed.resolves_target? hget .next) level
    ((valid.unfold (block.target? .next)).placed level)
  rw [unfold_some hget, Unfolding.placed]
  simp only [hsequel]
  unfold Block.parts Block.following Block.target? Block.isStart
  cases hkind : block.kind <;> cases hnext : block.next <;> simp [Pending.placed]

/-- The run that gets rid of a link adds what its tree says. -/
theorem emits_unfold (valid : ValidGraph) (link : Option BlockId)
    (hlink : valid.graph.Resolves link) (level : Nat) :
    ∃ n, n + 4 ≤ 5 * 3 ^ valid.graph.rank link ∧
      Emission.Emits valid.graph n [.chain link level] ((valid.unfold link).placed level)
        ((valid.unfold link).visits level) := by
  induction link, hlink using valid.link_induction generalizing level with
  | nothing =>
    refine ⟨1, by simp [Graph.rank], ?_⟩
    rw [unfold_none]
    exact Emission.emits_nowhere level
  | block id block hget ih =>
    -- the slots are bounded alike, by the rank that is one below that of the block
    have hpower : 0 < 3 ^ valid.graph.height id := Nat.pow_pos (by omega)
    obtain ⟨bound, hbound⟩ : ∃ bound, bound + 4 = 5 * 3 ^ valid.graph.height id :=
      ⟨5 * 3 ^ valid.graph.height id - 4, by omega⟩
    have hslots (link : Option BlockId) (below : Nat)
        (hmem : Pending.chain link below ∈ block.parts level ++ block.following level) :
        ∃ n ≤ bound, Emission.Emits valid.graph n [.chain link below]
          ((valid.unfold link).placed below) ((valid.unfold link).visits below) := by
      obtain ⟨slot, rfl, -⟩ := Block.exists_slot_of_mem hmem
      obtain ⟨n, hn, hemits⟩ := ih slot below
      have hrank : valid.graph.rank (block.target? slot) ≤ valid.graph.height id :=
        Nat.le_of_lt_succ (valid.rank_target?_lt hget slot)
      have hmono := Nat.pow_le_pow_right (show 0 < 3 by omega) hrank
      exact ⟨n, by omega, hemits⟩
    obtain ⟨n, hn, hemits⟩ := Emission.emits_pending _ hslots
    refine ⟨n + 1, ?_, ?_⟩
    · have hcost := Block.cost_le bound block level
      rw [Graph.rank, Nat.pow_succ]
      omega
    · rw [placed_unfold hget, visits_unfold hget]
      exact Emission.emits_block hget hemits

/-! ## The whole run -/

/-- The tree that the program of a valid graph is written from. -/
def tree (valid : ValidGraph) : Unfolding :=
  valid.unfold (some valid.entry)

/-- Emission gets from its start to where nothing is left, in no more steps than it is given. -/
theorem takes_start (valid : ValidGraph) : ∃ n ≤ Emission.bound valid.graph,
    Takes (Emission.step? valid.graph) n (.start (some valid.entry))
      ⟨[], (valid.tree.placed 0).reverse, (valid.tree.visits 0).reverse⟩ := by
  obtain ⟨n, hn, hemits⟩ := valid.emits_unfold (some valid.entry) valid.resolves_entry 0
  refine ⟨n, ?_, ?_⟩
  · have hrank := valid.acyclic.rank_le_size valid.resolves_entry
    have hmono := Nat.pow_le_pow_right (show 0 < 3 by omega) hrank
    show n ≤ 5 * 3 ^ valid.graph.size
    omega
  · have htakes := hemits [] [] []
    rw [List.append_nil, List.append_nil, List.append_nil] at htakes
    exact htakes

theorem run_eq (valid : ValidGraph) : Emission.run valid.graph valid.entry =
    ⟨[], (valid.tree.placed 0).reverse, (valid.tree.visits 0).reverse⟩ := by
  obtain ⟨n, hn, htakes⟩ := valid.takes_start
  exact htakes.drive_eq rfl hn

/-- The fragments of the program are those of its tree. -/
theorem fragments_eq (valid : ValidGraph) : valid.fragments = valid.tree.placed 0 := by
  rw [fragments, run_eq, List.reverse_reverse]

/-- The blocks that the program is made of are those of its tree. -/
theorem visits_eq (valid : ValidGraph) : valid.visits = valid.tree.visits 0 := by
  rw [visits, run_eq, List.reverse_reverse]

end ValidGraph

/-! ## The text of the program -/

/-- The text of fragments in a row. -/
def rowText (width : UInt64) (placed : List Placed) : String :=
  String.join (placed.map (Placed.text width))

section RowText

variable {width : UInt64}

@[simp] theorem rowText_nil : rowText width [] = "" := by
  rw [rowText, List.map_nil, String.join_nil]

@[simp] theorem rowText_cons (first : Placed) (placed : List Placed) :
    rowText width (first :: placed) = first.text width ++ rowText width placed := by
  rw [rowText, List.map_cons, String.join_cons]
  rfl

@[simp] theorem rowText_append (placed placed' : List Placed) :
    rowText width (placed ++ placed') = rowText width placed ++ rowText width placed' := by
  rw [rowText, List.map_append, String.join_append]
  rfl

end RowText

theorem ValidGraph.program_eq (valid : ValidGraph) (width : UInt64) :
    valid.program width = rowText width (valid.tree.placed 0) := by
  rw [program, fragments_eq]
  rfl

end BlockDiagram
