/-
The course of the search for cycles.

A run of the search is known step by step. It takes one step for each reference and one for each
block, on any graph, since the work that is left goes down by one at every step and is used up at
the end. A block is pushed by the step that gives it its first mark, and that happens once; a
reference is examined by the step that follows it, and that happens once too. At all times the stack
is a path through the graph: each frame was entered over the reference that the frame below took
last.

What the search finds on this course is what the recursion finds, and in the same order.
-/
import BlockDiagram.Proofs.Graph.Building
import BlockDiagram.Proofs.Validation.DepthFirst
import BlockDiagram.Validation.Check

set_option autoImplicit false

namespace BlockDiagram

/-! ## What happens once -/

/-- What happens when something becomes true that stays true happens exactly once. -/
theorem existsUnique_of_first {Q E : Nat → Prop} (hzero : E 0 ↔ Q 0)
    (hsucc : ∀ n, E (n + 1) ↔ Q (n + 1) ∧ ¬ Q n) (hmono : ∀ n, Q n → Q (n + 1))
    (hever : ∃ n, Q n) : ∃! n, E n := by
  have hE {n : Nat} (h : E n) : Q n := by
    cases n with
    | zero => exact hzero.1 h
    | succ n => exact ((hsucc n).1 h).1
  have hapart {m n : Nat} (hlt : m < n) (hm : E m) : ¬ E n := by
    obtain ⟨k, rfl⟩ := Nat.exists_eq_add_of_lt hlt
    intro hn
    -- it was true from the earlier time on, and so just before the later one
    have hQ : Q (m + k) := by
      clear hlt hn
      induction k with
      | zero => exact hE hm
      | succ k ih => exact hmono _ ih
    exact ((hsucc _).1 hn).2 hQ
  obtain ⟨n, hn⟩ : ∃ n, E n := by
    obtain ⟨bound, hbound⟩ := hever
    induction bound with
    | zero => exact ⟨0, hzero.2 hbound⟩
    | succ n ih =>
      by_cases hQ : Q n
      · exact ih hQ
      · exact ⟨n + 1, (hsucc n).2 ⟨hbound, hQ⟩⟩
  refine ⟨n, hn, fun m hm => ?_⟩
  rcases Nat.lt_trichotomy m n with hlt | heq | hgt
  · exact absurd hn (hapart hlt hm)
  · exact heq
  · exact absurd hm (hapart hgt hn)

namespace Search

variable {graph : Graph} {search : Search}

/-! ## The states of a run -/

/-- The search after a number of steps, or at its end if it takes no more of them. -/
def after (graph : Graph) (n : Nat) : Search :=
  drive (step? graph) n (start graph)

theorem after_zero (graph : Graph) : after graph 0 = start graph := by
  rw [after, drive]

theorem sound_after (graph : Graph) (n : Nat) : Sound graph none (after graph n) :=
  drive_preserves (fun _ _ h hstep => h.step hstep) n (sound_start graph)

theorem after_succ (graph : Graph) (n : Nat) :
    after graph (n + 1) = (step? graph (after graph n)).getD (after graph n) := by
  rw [after, drive_add]
  change drive (step? graph) 1 (after graph n) = _
  rw [drive]
  cases step? graph (after graph n) <;> rfl

/-- The steps of a run are taken off the work that was to be done. -/
theorem work_takes {n : Nat} {last : Search} (h : Takes (step? graph) n search last)
    (hsound : Sound graph none search) : work graph last + n = work graph search := by
  induction h with
  | rest => rfl
  | step hstep _ ih =>
    have hrest := ih (hsound.step hstep)
    have hwork := hsound.work_step hstep
    omega

theorem Sound.work_of_end (h : Sound graph none search) (hroots : search.roots = [])
    (hstack : search.stack = []) : work graph search = 0 := by
  have hahead : graph.ahead (fun block => block.references.length + 1)
      (fun id => (search.mark? id).isNone) = 0 := by
    rw [Graph.ahead, List.filter_eq_nil_iff.2]
    · rfl
    · intro block hblock
      rw [h.mark?_of_end hroots hstack hblock]
      exact Bool.false_ne_true
  rw [work, hahead, hstack]
  rfl

/-- The end of the run: it comes after as many steps as there are references and blocks. -/
theorem takes_weight (graph : Graph) : ∃ last, Takes (step? graph) graph.weight (start graph) last ∧
    last.roots = [] ∧ last.stack = [] ∧ last.found = graph.depthFirst.found := by
  obtain ⟨n, last, htakes, hroots, hstack, -, hfound⟩ := tours_graph graph
  have hsound : Sound graph none last :=
    htakes.preserves (fun _ _ h hstep => h.step hstep) (sound_start graph)
  have hwork : work graph last + n = work graph (start graph) :=
    work_takes htakes (sound_start graph)
  have hn : n = graph.weight := by
    rw [← work_start graph, ← hwork, hsound.work_of_end hroots hstack, Nat.zero_add]
  subst hn
  exact ⟨last, htakes, hroots, hstack, hfound⟩

/-! ## Examining references -/

/-- The reference that the next step examines, if it does not finish a block. -/
def next? (search : Search) : Option Edge :=
  match search.stack with
  | ⟨id, (slot, target) :: _⟩ :: _ => some ⟨id, slot, target⟩
  | _ => none

theorem Sound.followed_settle (h : Sound graph none search) (edge : Edge) :
    Followed graph none search.settle edge ↔ Followed graph none search edge := by
  rcases settle_cases search with ⟨-, hsettle⟩ | ⟨-, -, hsettle⟩ |
    ⟨-, tried, root, roots, hroots, -, hnew, hsettle⟩
  · rw [hsettle]
  · rw [hsettle]
    rfl
  · -- no edge is on hand when a root is entered, so none is followed
    rw [hsettle, h.followed_enter (h.get?_root (mem_roots_of_split hroots)) hnew roots edge]
    simp

/-- A step follows the reference that it examines, and no other. -/
theorem Sound.followed_step {next : Search} (h : Sound graph none search)
    (hstep : step? graph search = some next) (edge : Edge) :
    Followed graph none next edge ↔ Followed graph none search edge ∨ search.next? = some edge := by
  rcases step_cases hstep with ⟨id, stack, hstack, rfl⟩ |
    ⟨id, slot, target, left, stack, hstack, rfl⟩
  · rw [(h.finish hstack).followed_settle, h.followed_finish hstack, next?, hstack]
    simp
  · have htake := h.take hstack
    have hnext : search.next? = some ⟨id, slot, target⟩ := by rw [next?, hstack]
    rw [hnext, ← followed_take graph hstack edge]
    rcases follow_cases graph (search.take id left stack) ⟨id, slot, target⟩ with ⟨-, hfollow⟩ |
      ⟨-, hfollow⟩ | ⟨hnew, block, hget, hfollow⟩
    · rw [hfollow, ← htake.followed_onHand edge]
      rfl
    · rw [hfollow, htake.followed_onHand edge]
    · obtain ⟨-, hid⟩ := Graph.get?_eq_some_iff.1 hget
      rw [hfollow, htake.followed_enter (by rw [hid]; exact hget) (by rw [hid]; exact hnew)]

/-- What is still to be examined was not followed. -/
theorem not_followed_of_next? {edge : Edge} (h : search.next? = some edge) :
    ¬ Followed graph none search edge := by
  rintro ⟨-, -, -, hleft⟩
  rw [next?] at h
  split at h
  · rename_i id slot target left stack hstack
    cases h
    refine hleft ⟨id, (slot, target) :: left⟩ ?_ rfl List.mem_cons_self
    rw [hstack]
    exact List.mem_cons_self
  · cases h

/-! ## Pushing blocks -/

/-- Whether a block was pushed by the last step: its frame is on top, with all its references left.
Frames are pushed like that, and the next step takes a reference out of the frame or takes the frame
off. -/
def Fresh (search : Search) (block : Block) : Prop :=
  search.stack.head? = some ⟨block.id, block.references⟩

/-- Whether a frame was entered over the reference that the frame below took last. -/
def EnteredOver (graph : Graph) (inner outer : Frame) : Prop :=
  ∃ block before slot, graph.get? outer.id = some block ∧
    block.references = before ++ (slot, inner.id) :: outer.left

/-- Whether each frame was entered over the reference that the frame below took last. -/
def Linked (graph : Graph) (search : Search) : Prop :=
  search.stack.IsChain (EnteredOver graph)

/-- A root is entered on an empty stack, where no frame lies below it. -/
theorem Linked.settle (h : Linked graph search) : Linked graph search.settle := by
  rcases settle_cases search with ⟨-, hsettle⟩ | ⟨-, -, hsettle⟩ |
    ⟨hstack, tried, root, roots, -, -, -, hsettle⟩
  · rwa [hsettle]
  · rwa [hsettle]
  · rw [hsettle, Linked, enter, hstack]
    exact .singleton _

theorem Sound.linked_step {next : Search} (h : Sound graph none search)
    (hlinked : Linked graph search) (hstep : step? graph search = some next) :
    Linked graph next := by
  rw [Linked] at hlinked
  rcases step_cases hstep with ⟨id, stack, hstack, rfl⟩ |
    ⟨id, slot, target, left, stack, hstack, rfl⟩
  · rw [hstack] at hlinked
    have hfinish : Linked graph (search.finish id stack) := hlinked.tail
    exact hfinish.settle
  · obtain ⟨block, hget, before, hbefore⟩ := h.left ⟨id, (slot, target) :: left⟩
      (by rw [hstack]; exact List.mem_cons_self)
    rw [hstack] at hlinked
    -- the frame below was left over the block on top, whatever that has left itself
    obtain ⟨htop, hbelow⟩ := List.isChain_cons.1 hlinked
    have htake : Linked graph (search.take id left stack) := List.isChain_cons.2 ⟨htop, hbelow⟩
    rcases follow_cases graph (search.take id left stack) ⟨id, slot, target⟩ with ⟨-, hfollow⟩ |
      ⟨-, hfollow⟩ | ⟨-, inner, hinner, hfollow⟩
    · rwa [hfollow]
    · rwa [hfollow]
    · rw [hfollow]
      refine List.isChain_cons_cons.2 ⟨⟨block, before, slot, hget, ?_⟩, htake⟩
      rw [(Graph.get?_eq_some_iff.1 hinner).2]
      exact hbefore.symm

theorem linked_after (graph : Graph) (n : Nat) : Linked graph (after graph n) := by
  have hblank : Linked graph ⟨graph.blocks, [], [], []⟩ := .nil
  exact (drive_preserves (P := fun search => Sound graph none search ∧ Linked graph search)
    (fun _ _ h hstep => ⟨h.1.step hstep, h.1.linked_step h.2 hstep⟩) n
    ⟨sound_start graph, hblank.settle⟩).2

/-- A frame that another was entered over has lost a reference, so it is not fresh again when it
comes back on top. -/
theorem EnteredOver.ne {inner outer : Frame} (h : EnteredOver graph inner outer) {block : Block}
    (hblock : block ∈ graph.blocks) : outer ≠ ⟨block.id, block.references⟩ := by
  rintro rfl
  obtain ⟨other, before, slot, hget, hreferences⟩ := h
  rw [Graph.get?_eq_some_iff.2 ⟨hblock, rfl⟩, Option.some.injEq] at hget
  subst hget
  have hlength := congrArg List.length hreferences
  simp only [List.length_append, List.length_cons] at hlength
  omega

/-- Neither is a frame that the next reference was taken out of. -/
theorem Sound.not_fresh_take (h : Sound graph none search) {id target : BlockId} {slot : Slot}
    {left : List (Slot × BlockId)} {stack : List Frame}
    (hstack : search.stack = ⟨id, (slot, target) :: left⟩ :: stack) {block : Block}
    (hblock : block ∈ graph.blocks) : ¬ Fresh (search.take id left stack) block := by
  intro hfresh
  rw [Fresh, Search.take, List.head?_cons, Option.some.injEq, Frame.mk.injEq] at hfresh
  obtain ⟨rfl, rfl⟩ := hfresh
  obtain ⟨other, hget, hsuffix⟩ := h.left ⟨block.id, (slot, target) :: block.references⟩
    (by rw [hstack]; exact List.mem_cons_self)
  rw [Graph.get?_eq_some_iff.2 ⟨hblock, rfl⟩, Option.some.injEq] at hget
  subst hget
  have hlength := hsuffix.length_le
  rw [List.length_cons] at hlength
  omega

/-- The block that is entered is the one that is pushed, and the one that gets its first mark. -/
theorem fresh_enter {block inner : Block} (hblock : block ∈ graph.blocks)
    (hinner : inner ∈ graph.blocks) (hnew : search.mark? inner.id = none) (roots : List Block) :
    Fresh (search.enter roots inner) block ↔
      (search.enter roots inner).mark? block.id ≠ none ∧ search.mark? block.id = none := by
  rw [Fresh, enter, List.head?_cons, Option.some.injEq, Frame.mk.injEq, ← enter, mark?_enter]
  constructor
  · rintro ⟨hid, -⟩
    rw [if_pos hid.symm, ← hid]
    exact ⟨Option.some_ne_none _, hnew⟩
  · rintro ⟨hmark, hnone⟩
    by_cases hid : block.id = inner.id
    · rw [graph.eq_of_id_eq hblock hinner hid]
      exact ⟨rfl, rfl⟩
    · rw [if_neg hid] at hmark
      exact absurd hnone hmark

theorem Sound.fresh_settle (h : Sound graph none search) {block : Block}
    (hblock : block ∈ graph.blocks) (hstale : ¬ Fresh search block) :
    Fresh search.settle block ↔
      search.settle.mark? block.id ≠ none ∧ search.mark? block.id = none := by
  rcases settle_cases search with ⟨-, hsettle⟩ | ⟨-, -, hsettle⟩ |
    ⟨-, tried, root, roots, hroots, -, hnew, hsettle⟩
  · rw [hsettle]
    exact iff_of_false hstale fun hmark => hmark.1 hmark.2
  · rw [hsettle]
    exact iff_of_false hstale fun hmark => hmark.1 hmark.2
  · rw [hsettle]
    exact fresh_enter hblock (h.roots root (mem_roots_of_split hroots)) hnew roots

/-- A block is pushed by the step that gives it its first mark, and by no other. -/
theorem Sound.fresh_step {next : Search} (h : Sound graph none search)
    (hlinked : Linked graph search) (hstep : step? graph search = some next) {block : Block}
    (hblock : block ∈ graph.blocks) :
    Fresh next block ↔ next.mark? block.id ≠ none ∧ search.mark? block.id = none := by
  rcases step_cases hstep with ⟨id, stack, hstack, rfl⟩ |
    ⟨id, slot, target, left, stack, hstack, rfl⟩
  · -- the frame that comes to the top was there before, and another was entered over it
    have hstale : ¬ Fresh (search.finish id stack) block := by
      intro hfresh
      rw [Linked, hstack] at hlinked
      cases stack with
      | nil => cases hfresh
      | cons outer stack =>
        have hover : EnteredOver graph ⟨id, []⟩ outer := (List.isChain_cons_cons.1 hlinked).1
        exact hover.ne hblock (Option.some.inj hfresh)
    have hmarks :
        (search.finish id stack).mark? block.id = none ↔ search.mark? block.id = none := by
      rw [mark?_finish]
      split
      · rename_i hid
        rw [hid, h.mark?_top hstack]
        simp
      · rfl
    rw [(h.finish hstack).fresh_settle hblock hstale, hmarks]
  · have hstale := h.not_fresh_take hstack hblock
    rcases follow_cases graph (search.take id left stack) ⟨id, slot, target⟩ with ⟨-, hfollow⟩ |
      ⟨-, hfollow⟩ | ⟨hnew, inner, hinner, hfollow⟩
    · rw [hfollow]
      exact iff_of_false hstale fun hmark => hmark.1 hmark.2
    · rw [hfollow]
      exact iff_of_false hstale fun hmark => hmark.1 hmark.2
    · obtain ⟨hmem, hid⟩ := Graph.get?_eq_some_iff.1 hinner
      rw [hfollow]
      exact fresh_enter hblock hmem (by rw [hid]; exact hnew) _

/-- No step takes all marks of a block away. -/
theorem mark?_step {next : Search} (hstep : step? graph search = some next) {id : BlockId}
    (hmark : search.mark? id ≠ none) : next.mark? id ≠ none := by
  have henter (search : Search) (hmark : search.mark? id ≠ none) (roots : List Block)
      (block : Block) : (search.enter roots block).mark? id ≠ none := by
    rw [mark?_enter]
    split
    · exact Option.some_ne_none _
    · exact hmark
  rcases step_cases hstep with ⟨other, stack, -, rfl⟩ | ⟨other, slot, target, left, stack, -, rfl⟩
  · have hfinish : (search.finish other stack).mark? id ≠ none := by
      rw [mark?_finish]
      split
      · exact Option.some_ne_none _
      · exact hmark
    rcases settle_cases (search.finish other stack) with ⟨-, hsettle⟩ | ⟨-, -, hsettle⟩ |
      ⟨-, _, root, roots, -, -, -, hsettle⟩
    · rwa [hsettle]
    · rwa [hsettle]
    · rw [hsettle]
      exact henter _ hfinish roots root
  · rcases follow_cases graph (search.take other left stack) ⟨other, slot, target⟩ with
      ⟨-, hfollow⟩ | ⟨-, hfollow⟩ | ⟨-, block, -, hfollow⟩
    · rwa [hfollow]
    · rwa [hfollow]
    · rw [hfollow]
      exact henter (search.take other left stack) hmark _ block

/-! ## The whole run -/

theorem after_of_some {n : Nat} {next : Search} (h : step? graph (after graph n) = some next) :
    after graph (n + 1) = next := by
  rw [after_succ, h, Option.getD_some]

theorem after_of_none {n : Nat} (h : step? graph (after graph n) = none) :
    after graph (n + 1) = after graph n := by
  rw [after_succ, h, Option.getD_none]

theorem step?_of_stack (h : search.stack = []) : step? graph search = none := by
  rw [step?, h]

/-- Where the run stops: nothing is left to be done, and nothing changes after it. -/
theorem after_end (graph : Graph) {n : Nat} (hn : graph.weight ≤ n) :
    (after graph n).roots = [] ∧ (after graph n).stack = [] ∧
      (after graph n).found = graph.depthFirst.found := by
  obtain ⟨last, htakes, hroots, hstack, hfound⟩ := takes_weight graph
  have hlast : after graph n = last := htakes.drive_eq (step?_of_stack hstack) hn
  rw [hlast]
  exact ⟨hroots, hstack, hfound⟩

theorem takes_after_weight (graph : Graph) :
    Takes (step? graph) graph.weight (start graph) (after graph graph.weight) := by
  obtain ⟨last, htakes, -, hstack, -⟩ := takes_weight graph
  have hlast : after graph graph.weight = last :=
    htakes.drive_eq (step?_of_stack hstack) (Nat.le_refl _)
  rwa [hlast]

theorem mark?_end (graph : Graph) {n : Nat} (hn : graph.weight ≤ n) {block : Block}
    (hblock : block ∈ graph.blocks) : (after graph n).mark? block.id = some .done := by
  obtain ⟨hroots, hstack, -⟩ := after_end graph hn
  exact (sound_after graph n).mark?_of_end hroots hstack hblock

/-- A block is pushed once. -/
theorem existsUnique_fresh {block : Block} (hblock : block ∈ graph.blocks) :
    ∃! n, Fresh (after graph n) block := by
  refine existsUnique_of_first (Q := fun n => (after graph n).mark? block.id ≠ none)
    ?start ?step ?stays ?done
  case start =>
    have hstart := (sound_blank graph).fresh_settle hblock (by rintro ⟨⟩)
    exact hstart.trans (and_iff_left rfl)
  case step =>
    intro n
    cases hstep : step? graph (after graph n) with
    | none =>
      rw [after_of_none hstep, Fresh, stack_of_done hstep]
      simp
    | some next =>
      rw [after_of_some hstep, not_not]
      exact (sound_after graph n).fresh_step (linked_after graph n) hstep hblock
  case stays =>
    intro n hmark
    cases hstep : step? graph (after graph n) with
    | none => rwa [after_of_none hstep]
    | some next =>
      rw [after_of_some hstep]
      exact mark?_step hstep hmark
  case done =>
    refine ⟨graph.weight, ?_⟩
    rw [mark?_end graph (Nat.le_refl _) hblock]
    exact Option.some_ne_none _

/-- A reference is examined once. -/
theorem existsUnique_next? {edge : Edge} (hedge : edge ∈ graph.edges) :
    ∃! n, (after graph n).next? = some edge := by
  have hexamined (n : Nat) : (after graph n).next? = some edge ↔
      Followed graph none (after graph (n + 1)) edge ∧
        ¬ Followed graph none (after graph n) edge := by
    cases hstep : step? graph (after graph n) with
    | none =>
      rw [after_of_none hstep, next?, stack_of_done hstep]
      simp
    | some next =>
      rw [after_of_some hstep, (sound_after graph n).followed_step hstep edge]
      exact ⟨fun hnext => ⟨.inr hnext, not_followed_of_next? hnext⟩, fun h => h.1.resolve_left h.2⟩
  refine existsUnique_of_first (Q := fun n => Followed graph none (after graph (n + 1)) edge)
    ?start (fun n => hexamined (n + 1)) ?stays ?done
  case start =>
    refine (hexamined 0).trans (and_iff_left ?_)
    rw [after_zero, start, (sound_blank graph).followed_settle]
    exact fun hfollowed => hfollowed.2.1 rfl
  case stays =>
    intro n hfollowed
    cases hstep : step? graph (after graph (n + 1)) with
    | none => rwa [after_of_none hstep]
    | some next =>
      rw [after_of_some hstep, (sound_after graph _).followed_step hstep]
      exact .inl hfollowed
  case done =>
    obtain ⟨block, hget, -⟩ := Graph.edge_iff.1 hedge
    obtain ⟨hblock, hid⟩ := Graph.get?_eq_some_iff.1 hget
    have hlast : graph.weight ≤ graph.weight + 1 := Nat.le_succ _
    obtain ⟨-, hstack, -⟩ := after_end graph hlast
    refine ⟨graph.weight, hedge, ?_, by simp, fun frame hframe => ?_⟩
    · rw [← hid, mark?_end graph hlast hblock]
      exact Option.some_ne_none _
    · rw [hstack] at hframe
      cases hframe

/-- What is examined is a reference of the graph. -/
theorem mem_edges_of_next? {n : Nat} {edge : Edge} (h : (after graph n).next? = some edge) :
    edge ∈ graph.edges := by
  rw [next?] at h
  split at h
  · rename_i id slot target left stack hstack
    exact (((sound_after graph n).take hstack).onHand edge h).1
  · cases h

end Search

/-- The search finds what the recursion finds. -/
theorem Graph.cycleEdges_eq_depthFirst (graph : Graph) :
    graph.cycleEdges = graph.depthFirst.found :=
  (Search.after_end graph (Nat.le_refl _)).2.2

/-- The search for cycles finds what the recursion finds, in the same order. It takes one step for
each block and one for each reference of it, and then stops with every block done. On its way it
pushes each block once and examines each reference once, and nothing else. At all times the blocks
in progress are those on the stack, none of them twice; each frame belongs to a block, with the last
of its references left, and was entered over the reference that the frame below took last. -/
theorem Graph.cycleSearch_spec (graph : Graph) :
    graph.cycleViolations = graph.depthFirst.found.map (fun edge =>
      .at edge.source (.cycle edge.slot edge.target)) ∧
    (∃ last, Takes (Search.step? graph)
        (graph.blocks.map fun block => block.references.length + 1).sum (Search.start graph) last ∧
      Search.step? graph last = none ∧ last.found = graph.cycleEdges ∧
      ∀ block ∈ graph.blocks, last.mark? block.id = some .done) ∧
    (∀ block ∈ graph.blocks, ∃! n, (Search.after graph n).Fresh block) ∧
    (∀ edge, edge ∈ graph.edges ↔ ∃! n, (Search.after graph n).next? = some edge) ∧
    ∀ n, (∀ id, (Search.after graph n).mark? id = some .inProgress ↔
        id ∈ (Search.after graph n).ids) ∧
      (Search.after graph n).ids.Nodup ∧
      (∀ frame ∈ (Search.after graph n).stack, ∃ block, graph.get? frame.id = some block ∧
        frame.left <:+ block.references) ∧
      (Search.after graph n).stack.IsChain (Search.EnteredOver graph) := by
  have hsize : (graph.blocks.map fun block => block.references.length + 1).sum = graph.weight := by
    rw [weight, ← ahead_all, ahead, List.filter_true]
  refine ⟨?found, ?steps, ?pushed, ?examined, ?always⟩
  case found => rw [cycleViolations, graph.cycleEdges_eq_depthFirst]
  case steps =>
    obtain ⟨-, hstack, -⟩ := Search.after_end graph (Nat.le_refl _)
    refine ⟨Search.after graph graph.weight, ?_, Search.step?_of_stack hstack, rfl,
      fun block hblock => Search.mark?_end graph (Nat.le_refl _) hblock⟩
    rw [hsize]
    exact Search.takes_after_weight graph
  case pushed => exact fun block hblock => Search.existsUnique_fresh hblock
  case examined =>
    intro edge
    constructor
    · exact Search.existsUnique_next?
    · rintro ⟨n, hn, -⟩
      exact Search.mem_edges_of_next? hn
  case always =>
    intro n
    have hsound := Search.sound_after graph n
    exact ⟨hsound.inProgress, hsound.nodup, hsound.left, Search.linked_after graph n⟩

end BlockDiagram
