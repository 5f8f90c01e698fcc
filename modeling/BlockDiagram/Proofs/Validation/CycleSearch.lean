/-
What the search for cycles finds.

The search is an iteration, and what is to be shown of it concerns its whole past: the references
it reported close cycles, and those it did not report make up no cycle. Both follow from what holds
between any two steps. The blocks in progress are the ones on the stack, and each of them was
entered along a reference of the one below; so a reference to a block in progress leads back to
where it came from. Of a block that is done, every reference leads to a block that was done before
it, or was reported; so along references that were not reported the times of finishing go down,
and nothing leads back to itself.

A step is taken apart into smaller moves: a reference is taken out of the frame on top, and then it
is passed over, reported, or followed into a new block; or a block is finished, and then the next
root is entered. Between the two halves of a step one reference is on hand: it has left its frame,
and nothing has been done about it yet. The invariant says which one that is.
-/
import BlockDiagram.Proofs.Graph.Reference
import BlockDiagram.Proofs.Machine
import BlockDiagram.Validation.Cycle

set_option autoImplicit false

namespace BlockDiagram

open Relation

namespace Search

variable {graph : Graph} {search : Search}

/-! ## Moves -/

/-- The ids of the blocks on the stack, innermost first. -/
def ids (search : Search) : List BlockId :=
  search.stack.map Frame.id

/-- The search with one more block in progress, and the given roots still to be tried. -/
def enter (search : Search) (roots : List Block) (block : Block) : Search :=
  { search with
    roots
    stack := ⟨block.id, block.references⟩ :: search.stack
    marks := (block.id, .inProgress) :: search.marks }

/-- The search with the innermost block done. -/
def finish (search : Search) (id : BlockId) (stack : List Frame) : Search :=
  { search with stack, marks := (id, .done) :: search.marks }

/-- The search with a reference taken out of the innermost frame. -/
def take (search : Search) (id : BlockId) (left : List (Slot × BlockId)) (stack : List Frame) :
    Search :=
  { search with stack := ⟨id, left⟩ :: stack }

/-- The search with one more reference reported. -/
def report (search : Search) (edge : Edge) : Search :=
  { search with found := search.found ++ [edge] }

/-- A mark hides the marks that the same block had before, and no others. -/
theorem lookup_mark (marks : List (BlockId × Mark)) (id other : BlockId) (mark : Mark) :
    ((id, mark) :: marks).lookup other = if other = id then some mark else marks.lookup other := by
  rw [List.lookup_cons]
  by_cases h : other = id
  · rw [if_pos h, beq_iff_eq.2 h]
  · rw [if_neg h, beq_eq_false_iff_ne.2 h]

theorem mark?_enter (search : Search) (roots : List Block) (block : Block) (id : BlockId) :
    (search.enter roots block).mark? id =
      if id = block.id then some .inProgress else search.mark? id :=
  lookup_mark search.marks block.id id .inProgress

theorem mark?_finish (search : Search) (id other : BlockId) (stack : List Frame) :
    (search.finish id stack).mark? other = if other = id then some .done else search.mark? other :=
  lookup_mark search.marks id other .done

/-- Settling enters the first root that was not entered before, if the stack is empty and there is
such a root. -/
theorem settle_cases (search : Search) :
    (search.stack ≠ [] ∧ search.settle = search) ∨
      (search.stack = [] ∧ (∀ root ∈ search.roots, search.mark? root.id ≠ none) ∧
        search.settle = { search with roots := [] }) ∨
      (search.stack = [] ∧ ∃ tried root roots, search.roots = tried ++ root :: roots ∧
        (∀ other ∈ tried, search.mark? other.id ≠ none) ∧ search.mark? root.id = none ∧
        search.settle = search.enter roots root) := by
  cases hstack : search.stack with
  | cons frame stack =>
    refine .inl ⟨List.cons_ne_nil _ _, ?_⟩
    rw [settle, hstack]
  | nil =>
    cases hroots : search.roots.dropWhile fun root => (search.mark? root.id).isSome with
    | nil =>
      refine .inr (.inl ⟨rfl, fun root hroot => ?_, ?_⟩)
      · exact Option.isSome_iff_ne_none.1 (List.dropWhile_eq_nil_iff.1 hroots root hroot)
      · simp only [settle, hstack, hroots]
    | cons root roots =>
      -- what `dropWhile` leaves begins with a root that does not have the property
      have hsplit := List.takeWhile_append_dropWhile
        (p := fun root : Block => (search.mark? root.id).isSome) (l := search.roots)
      have hhead := List.head_dropWhile_not (fun root : Block => (search.mark? root.id).isSome)
        (by rw [hroots]; exact List.cons_ne_nil root roots)
      rw [hroots] at hsplit
      simp only [hroots, List.head_cons, Option.isSome_eq_false_iff, Option.isNone_iff_eq_none]
        at hhead
      refine .inr (.inr ⟨rfl, _, root, roots, hsplit.symm, fun other hother => ?_, hhead, ?_⟩)
      · have hmarked := List.mem_takeWhile_imp hother
        exact Option.isSome_iff_ne_none.1 hmarked
      · simp only [settle, hstack, hroots, enter]

/-- The root that settling enters is one of those that were still to be tried. -/
theorem mem_roots_of_split {tried roots : List Block} {root : Block}
    (h : search.roots = tried ++ root :: roots) : root ∈ search.roots := by
  rw [h]
  exact List.mem_append_right _ List.mem_cons_self

/-- Following a reference reports it, passes it over, or enters its target. -/
theorem follow_cases (graph : Graph) (search : Search) (edge : Edge) :
    (search.mark? edge.target = some .inProgress ∧
        search.follow graph edge = search.report edge) ∨
      ((graph.contains edge.target = true → search.mark? edge.target = some .done) ∧
        search.follow graph edge = search) ∨
      (search.mark? edge.target = none ∧ ∃ block, graph.get? edge.target = some block ∧
        search.follow graph edge = search.enter search.roots block) := by
  rw [follow]
  cases hmark : search.mark? edge.target with
  | some mark =>
    cases mark with
    | inProgress => exact .inl ⟨rfl, rfl⟩
    | done => exact .inr (.inl ⟨fun _ => rfl, rfl⟩)
  | none =>
    cases hget : graph.get? edge.target with
    | none =>
      refine .inr (.inl ⟨fun hexists => ?_, rfl⟩)
      rw [Graph.contains, hget] at hexists
      cases hexists
    | some block =>
      refine .inr (.inr ⟨rfl, block, rfl, ?_⟩)
      rw [enter, (Graph.get?_eq_some_iff.1 hget).2]

/-- A step finishes the innermost block and settles, or takes a reference out of its frame and
follows it. -/
theorem step_cases {next : Search} (h : step? graph search = some next) :
    (∃ id stack, search.stack = ⟨id, []⟩ :: stack ∧ next = (search.finish id stack).settle) ∨
      ∃ id slot target left stack, search.stack = ⟨id, (slot, target) :: left⟩ :: stack ∧
        next = (search.take id left stack).follow graph ⟨id, slot, target⟩ := by
  rw [step?] at h
  split at h
  · cases h
  · rename_i id stack hstack
    exact .inl ⟨id, stack, hstack, (Option.some.inj h).symm⟩
  · rename_i id slot target left stack hstack
    exact .inr ⟨id, slot, target, left, stack, hstack, (Option.some.inj h).symm⟩

/-! ## The invariant -/

/-- Whether the search has followed an edge. It has not followed the edges of blocks that it did not
enter, nor the references left in a frame, nor the edge on hand. -/
def Followed (graph : Graph) (hand : Option Edge) (search : Search) (edge : Edge) : Prop :=
  edge ∈ graph.edges ∧ search.mark? edge.source ≠ none ∧ hand ≠ some edge ∧
    ∀ frame ∈ search.stack, frame.id = edge.source → (edge.slot, edge.target) ∉ frame.left

/-- Whether the search has followed an edge and not reported it. -/
def Kept (graph : Graph) (hand : Option Edge) (search : Search) (edge : Edge) : Prop :=
  Followed graph hand search edge ∧ edge ∉ search.found

/-- What holds of the search on its way, with an edge on hand or none. -/
structure Sound (graph : Graph) (hand : Option Edge) (search : Search) : Prop where
  /-- The roots are blocks. -/
  roots : ∀ root ∈ search.roots, root ∈ graph.blocks
  /-- A block that was not entered is a root that is still to be tried. -/
  unmarked : ∀ block ∈ graph.blocks, search.mark? block.id = none → block ∈ search.roots
  /-- What was entered is a block. -/
  marked : ∀ id, search.mark? id ≠ none → graph.contains id = true
  /-- The blocks in progress are the ones on the stack. -/
  inProgress : ∀ id, search.mark? id = some .inProgress ↔ id ∈ search.ids
  /-- No block is on the stack twice. -/
  nodup : search.ids.Nodup
  /-- What is left in a frame are the last references of its block. -/
  left : ∀ frame ∈ search.stack, ∃ block, graph.get? frame.id = some block ∧
    frame.left <:+ block.references
  /-- The edge on hand comes from the innermost block, and is not left in its frame. -/
  onHand : ∀ edge, hand = some edge → edge ∈ graph.edges ∧ search.ids.head? = some edge.source ∧
    ∀ frame ∈ search.stack, frame.id = edge.source → (edge.slot, edge.target) ∉ frame.left
  /-- An edge that was followed was reported, or its target is done, or is further up on the
  stack. -/
  followed : ∀ edge, Followed graph hand search edge → graph.contains edge.target = true →
    edge ∈ search.found ∨ search.mark? edge.target = some .done ∨
      [edge.target, edge.source].Sublist search.ids
  /-- A reported edge was followed, and its target leads back to its source along edges that were
  not reported. -/
  found : ∀ edge ∈ search.found, Followed graph hand search edge ∧
    ReflTransGen (Along (Kept graph hand search)) edge.target edge.source
  /-- Each block on the stack was entered along an edge of the one below. -/
  chain : search.stack.IsChain fun inner outer =>
    Along (Kept graph hand search) outer.id inner.id
  /-- The blocks that are done have times of finishing that go down along every edge that was not
  reported. -/
  times : ∃ (time : BlockId → Nat) (now : Nat),
    (∀ id, search.mark? id = some .done → time id < now) ∧
    ∀ edge ∈ graph.edges, search.mark? edge.source = some .done →
      graph.contains edge.target = true → edge ∉ search.found →
      search.mark? edge.target = some .done ∧ time edge.target < time edge.source

variable {hand : Option Edge}

theorem sound_blank (graph : Graph) : Sound graph none ⟨graph.blocks, [], [], []⟩ where
  roots _ hroot := hroot
  unmarked _ hblock _ := hblock
  marked _ hmark := absurd rfl hmark
  inProgress id := by simp [mark?, ids]
  nodup := List.nodup_nil
  left _ hframe := absurd hframe List.not_mem_nil
  onHand _ hedge := by cases hedge
  followed _ hfollowed _ := absurd rfl hfollowed.2.1
  found _ hedge := absurd hedge List.not_mem_nil
  chain := .nil
  times := ⟨fun _ => 0, 0, ⟨fun _ hdone => (by cases hdone), fun _ _ hdone => (by cases hdone)⟩⟩

/-- A block on the stack leads to every block further up, along edges that were followed and not
reported. -/
theorem leads_of_chain {edges : Edge → Prop} {frame : Frame} {stack : List Frame}
    (h : (frame :: stack).IsChain fun inner outer => Along edges outer.id inner.id) :
    ∀ outer ∈ frame :: stack, ReflTransGen (Along edges) outer.id frame.id := by
  induction stack generalizing frame with
  | nil =>
    intro outer houter
    rw [List.mem_singleton.1 houter]
  | cons below stack ih =>
    rw [List.isChain_cons_cons] at h
    intro outer houter
    rcases List.mem_cons.1 houter with rfl | houter
    · exact .refl
    · exact (ih h.2 outer houter).tail h.1

/-- What is on the stack is marked, so an unmarked block is not on it. -/
theorem Sound.not_mem_ids (h : Sound graph hand search) {id : BlockId}
    (hid : search.mark? id = none) : id ∉ search.ids := by
  intro hmem
  rw [← h.inProgress, hid] at hmem
  cases hmem

theorem Sound.source_mem_ids (h : Sound graph hand search) {edge : Edge}
    (hedge : hand = some edge) : edge.source ∈ search.ids :=
  List.mem_of_mem_head? (h.onHand edge hedge).2.1

/-- The edge on hand was not reported, since what was reported was followed. -/
theorem Sound.onHand_notMem_found (h : Sound graph hand search) {edge : Edge}
    (hedge : hand = some edge) : edge ∉ search.found :=
  fun hfound => (h.found edge hfound).1.2.2.1 hedge

theorem ids_cons {id : BlockId} {left : List (Slot × BlockId)} {stack : List Frame}
    (hstack : search.stack = ⟨id, left⟩ :: stack) : search.ids = id :: stack.map Frame.id := by
  rw [ids, hstack]
  rfl

/-- The innermost block is in progress, and not once more below. -/
theorem Sound.mark?_top (h : Sound graph hand search) {id : BlockId}
    {left : List (Slot × BlockId)} {stack : List Frame}
    (hstack : search.stack = ⟨id, left⟩ :: stack) : search.mark? id = some .inProgress := by
  rw [h.inProgress, ids_cons hstack]
  exact List.mem_cons_self

theorem Sound.not_mem_below (h : Sound graph hand search) {id : BlockId}
    {left : List (Slot × BlockId)} {stack : List Frame}
    (hstack : search.stack = ⟨id, left⟩ :: stack) : id ∉ stack.map Frame.id := by
  have hnodup := h.nodup
  rw [ids_cons hstack, List.nodup_cons] at hnodup
  exact hnodup.1

theorem Sound.ne_of_mem_below (h : Sound graph hand search) {id : BlockId}
    {left : List (Slot × BlockId)} {stack : List Frame}
    (hstack : search.stack = ⟨id, left⟩ :: stack) : ∀ below ∈ stack, below.id ≠ id := by
  intro below hbelow hid
  exact h.not_mem_below hstack (hid ▸ List.mem_map_of_mem hbelow)

/-- What was found still closes a cycle when no less was followed and no less was kept. -/
theorem Sound.found_mono {hand' : Option Edge} {search' : Search} (h : Sound graph hand search)
    (hfollowed : ∀ edge, Followed graph hand search edge → Followed graph hand' search' edge)
    (hkept : ∀ edge, Kept graph hand search edge → Kept graph hand' search' edge) {edge : Edge}
    (hedge : edge ∈ search.found) :
    Followed graph hand' search' edge ∧
      ReflTransGen (Along (Kept graph hand' search')) edge.target edge.source := by
  obtain ⟨hfound, hback⟩ := h.found edge hedge
  exact ⟨hfollowed edge hfound, ReflTransGen.mono (Along.mono hkept) _ _ hback⟩

theorem Sound.chain_mono {hand' : Option Edge} {search' : Search} (h : Sound graph hand search)
    (hkept : ∀ edge, Kept graph hand search edge → Kept graph hand' search' edge) :
    search.stack.IsChain fun inner outer =>
      Along (Kept graph hand' search') outer.id inner.id :=
  h.chain.imp fun inner outer => Along.mono hkept outer.id inner.id

/-! ## Taking a reference out of its frame -/

/-- Taking a reference out of its frame follows nothing: the edge was left in the frame before, and
is on hand afterwards. -/
theorem followed_take (graph : Graph) {id target : BlockId} {slot : Slot}
    {left : List (Slot × BlockId)} {stack : List Frame}
    (hstack : search.stack = ⟨id, (slot, target) :: left⟩ :: stack) (edge : Edge) :
    Followed graph (some ⟨id, slot, target⟩) (search.take id left stack) edge ↔
      Followed graph none search edge := by
  constructor
  · rintro ⟨hedge, hmark, hhand, hleft⟩
    refine ⟨hedge, hmark, by simp, fun frame hframe hid hmem => ?_⟩
    rw [hstack] at hframe
    rcases List.mem_cons.1 hframe with rfl | hframe
    · rcases List.mem_cons.1 hmem with heq | hmem
      · -- the reference taken out is the edge on hand
        obtain ⟨source, slot', target'⟩ := edge
        cases hid
        cases heq
        exact hhand rfl
      · exact hleft ⟨id, left⟩ List.mem_cons_self hid hmem
    · exact hleft frame (List.mem_cons_of_mem _ hframe) hid hmem
  · rintro ⟨hedge, hmark, -, hleft⟩
    refine ⟨hedge, hmark, fun hhand => ?_, fun frame hframe hid hmem => ?_⟩
    · cases hhand
      refine hleft ⟨id, (slot, target) :: left⟩ ?_ rfl List.mem_cons_self
      rw [hstack]
      exact List.mem_cons_self
    · rcases List.mem_cons.1 hframe with rfl | hframe
      · refine hleft ⟨id, (slot, target) :: left⟩ ?_ hid (List.mem_cons_of_mem _ hmem)
        rw [hstack]
        exact List.mem_cons_self
      · refine hleft frame ?_ hid hmem
        rw [hstack]
        exact List.mem_cons_of_mem _ hframe

/-- Taking a reference out of its frame puts an edge on hand. -/
theorem Sound.take (h : Sound graph none search) {id target : BlockId} {slot : Slot}
    {left : List (Slot × BlockId)} {stack : List Frame}
    (hstack : search.stack = ⟨id, (slot, target) :: left⟩ :: stack) :
    Sound graph (some ⟨id, slot, target⟩) (search.take id left stack) := by
  have hfollowed := followed_take graph hstack
  have hkept (edge : Edge) (hedge : Kept graph none search edge) :
      Kept graph (some ⟨id, slot, target⟩) (search.take id left stack) edge :=
    ⟨(hfollowed edge).2 hedge.1, hedge.2⟩
  have hids : (search.take id left stack).ids = search.ids := (ids_cons hstack).symm
  obtain ⟨block, hget, hsuffix⟩ := h.left ⟨id, (slot, target) :: left⟩
    (by rw [hstack]; exact List.mem_cons_self)
  refine {
    roots := h.roots, unmarked := h.unmarked, marked := h.marked
    inProgress := ?inProgress, nodup := ?nodup, left := ?left, onHand := ?onHand
    followed := ?followed
    found := fun edge hedge => h.found_mono (fun other => (hfollowed other).2) hkept hedge
    chain := ?chain, times := h.times }
  case inProgress =>
    rw [hids]
    exact h.inProgress
  case nodup =>
    rw [hids]
    exact h.nodup
  case left =>
    intro frame hframe
    rcases List.mem_cons.1 hframe with rfl | hframe
    · exact ⟨block, hget, (List.suffix_cons _ _).trans hsuffix⟩
    · refine h.left frame ?_
      rw [hstack]
      exact List.mem_cons_of_mem _ hframe
  case onHand =>
    rintro edge hedge
    cases hedge
    refine ⟨?_, rfl, fun frame hframe hid hmem => ?_⟩
    · exact Graph.edge_iff.2 ⟨block, hget,
        Block.mem_references.1 (hsuffix.subset List.mem_cons_self)⟩
    · rcases List.mem_cons.1 hframe with rfl | hframe
      · -- a block has no reference twice, so none like the one taken out is left
        have hnodup := block.references_nodup.sublist hsuffix.sublist
        exact (List.nodup_cons.1 hnodup).1 hmem
      · exact h.ne_of_mem_below hstack frame hframe hid
  case followed =>
    intro edge hedge
    rw [hids]
    exact h.followed edge ((hfollowed edge).1 hedge)
  case chain =>
    have hchain := h.chain_mono hkept
    rw [hstack] at hchain
    exact List.isChain_cons.2 (List.isChain_cons.1 hchain)

/-! ## Dealing with the edge on hand -/

/-- Once it is dealt with, the edge on hand was followed like the others. -/
theorem Sound.followed_onHand (h : Sound graph hand search) (edge : Edge) :
    Followed graph none search edge ↔ Followed graph hand search edge ∨ hand = some edge := by
  constructor
  · rintro ⟨hedge, hmark, -, hleft⟩
    by_cases hhand : hand = some edge
    · exact .inr hhand
    · exact .inl ⟨hedge, hmark, hhand, hleft⟩
  · rintro (⟨hedge, hmark, -, hleft⟩ | hhand)
    · exact ⟨hedge, hmark, by simp, hleft⟩
    · obtain ⟨hedge, -, hleft⟩ := h.onHand edge hhand
      have hmark := (h.inProgress edge.source).2 (h.source_mem_ids hhand)
      exact ⟨hedge, by simp [hmark], by simp, hleft⟩

/-- An edge to a block that is done, or to none, is passed over. -/
theorem Sound.pass {edge : Edge} (h : Sound graph (some edge) search)
    (hdone : graph.contains edge.target = true → search.mark? edge.target = some .done) :
    Sound graph none search := by
  have hfollowed := h.followed_onHand
  have hmono (other : Edge) (hother : Followed graph (some edge) search other) :
      Followed graph none search other := (hfollowed other).2 (.inl hother)
  have hkept (other : Edge) (hother : Kept graph (some edge) search other) :
      Kept graph none search other := ⟨hmono other hother.1, hother.2⟩
  refine { h with onHand := ?onHand, followed := ?followed, found := ?found, chain := ?chain }
  case onHand =>
    intro other hother
    cases hother
  case followed =>
    intro other hother hexists
    rcases (hfollowed other).1 hother with hother | hhand
    · exact h.followed other hother hexists
    · -- the edge on hand counts as followed from here on
      cases hhand
      exact .inr (.inl (hdone hexists))
  case found => exact fun other hother => h.found_mono hmono hkept hother
  case chain => exact h.chain_mono hkept

/-- The target of an edge to a block in progress leads back to where the edge comes from: it is on
the stack, and every block on the stack leads to the innermost one. -/
theorem Sound.back_of_inProgress {edge : Edge} (h : Sound graph (some edge) search)
    (hmark : search.mark? edge.target = some .inProgress) :
    ReflTransGen (Along (Kept graph (some edge) search)) edge.target edge.source := by
  -- the source is the block on top, so the chain from the target up ends there
  obtain ⟨outer, houter, hid⟩ := List.mem_map.1 ((h.inProgress edge.target).1 hmark)
  have hhead := (h.onHand edge rfl).2.1
  have hchain := h.chain
  rw [ids] at hhead
  cases hstack : search.stack with
  | nil =>
    rw [hstack] at houter
    cases houter
  | cons frame stack =>
    rw [hstack] at houter hhead hchain
    rw [List.map_cons, List.head?_cons, Option.some.injEq] at hhead
    rw [← hid, ← hhead]
    exact leads_of_chain hchain outer houter

/-- An edge to a block in progress is reported. -/
theorem Sound.report {edge : Edge} (h : Sound graph (some edge) search)
    (hmark : search.mark? edge.target = some .inProgress) :
    Sound graph none (search.report edge) := by
  have hfollowed := h.followed_onHand
  have hmono (other : Edge) (hother : Followed graph (some edge) search other) :
      Followed graph none (search.report edge) other := (hfollowed other).2 (.inl hother)
  have hkept (other : Edge) (hother : Kept graph (some edge) search other) :
      Kept graph none (search.report edge) other := by
    refine ⟨hmono other hother.1, fun hfound => ?_⟩
    rcases List.mem_append.1 hfound with hfound | hfound
    · exact hother.2 hfound
    · -- what was followed before is not the edge on hand
      rw [List.mem_singleton] at hfound
      exact hother.1.2.2.1 (congrArg some hfound.symm)
  refine { h with
    onHand := ?onHand, followed := ?followed, found := ?found, chain := ?chain, times := ?times }
  case onHand =>
    intro other hother
    cases hother
  case followed =>
    intro other hother hexists
    rcases (hfollowed other).1 hother with hother | hhand
    · exact (h.followed other hother hexists).imp_left (List.mem_append_left _)
    · cases hhand
      exact .inl (List.mem_append_right _ List.mem_cons_self)
  case found =>
    intro other hother
    rcases List.mem_append.1 hother with hother | hother
    · exact h.found_mono hmono hkept hother
    · rw [List.mem_singleton.1 hother]
      have hback := h.back_of_inProgress hmark
      exact ⟨(hfollowed edge).2 (.inr rfl), ReflTransGen.mono (Along.mono hkept) _ _ hback⟩
  case chain => exact h.chain_mono hkept
  case times =>
    obtain ⟨time, now, hnow, htime⟩ := h.times
    refine ⟨time, now, hnow, fun other hother hdone hexists hfound => ?_⟩
    exact htime other hother hdone hexists fun hmem => hfound (List.mem_append_left _ hmem)

/-! ## Entering a block -/

/-- Entering a block follows the edge on hand and no other: the references of the new block are all
left. -/
theorem Sound.followed_enter (h : Sound graph hand search) {block : Block}
    (hget : graph.get? block.id = some block) (hnew : search.mark? block.id = none)
    (roots : List Block) (edge : Edge) :
    Followed graph none (search.enter roots block) edge ↔
      Followed graph hand search edge ∨ hand = some edge := by
  rw [← h.followed_onHand edge]
  constructor
  · rintro ⟨hedge, hmark, -, hleft⟩
    have hne : edge.source ≠ block.id := by
      -- all references of the new block are left in its frame
      intro hsource
      obtain ⟨other, hother, htarget⟩ := Graph.edge_iff.1 hedge
      rw [hsource, hget, Option.some.injEq] at hother
      subst hother
      exact hleft ⟨block.id, block.references⟩ List.mem_cons_self hsource.symm
        (Block.mem_references.2 htarget)
    rw [mark?_enter, if_neg hne] at hmark
    exact ⟨hedge, hmark, by simp, fun frame hframe =>
      hleft frame (List.mem_cons_of_mem _ hframe)⟩
  · rintro ⟨hedge, hmark, -, hleft⟩
    have hne : edge.source ≠ block.id := fun hsource => hmark (hsource ▸ hnew)
    refine ⟨hedge, ?_, by simp, fun frame hframe hid => ?_⟩
    · rw [mark?_enter, if_neg hne]
      exact hmark
    · rcases List.mem_cons.1 hframe with rfl | hframe
      · exact absurd hid.symm hne
      · exact hleft frame hframe hid

/-- Entering a block leaves every mark as it was. -/
theorem mark?_enter_of_ne_none {block : Block} (hnew : search.mark? block.id = none)
    (roots : List Block) {id : BlockId} (hid : search.mark? id ≠ none) :
    (search.enter roots block).mark? id = search.mark? id := by
  have hne : id ≠ block.id := by
    rintro rfl
    exact hid hnew
  rw [mark?_enter, if_neg hne]

theorem mark?_of_enter {block : Block} {roots : List Block} {id : BlockId}
    (hid : (search.enter roots block).mark? id = some .done) : search.mark? id = some .done := by
  rw [mark?_enter] at hid
  split at hid
  · cases hid
  · exact hid

/-- Entering a block puts it in progress. It is entered along the edge on hand, or as a root with
nothing below it. -/
theorem Sound.enter (h : Sound graph hand search) {roots : List Block} {block : Block}
    (hget : graph.get? block.id = some block) (hnew : search.mark? block.id = none)
    (hroots : ∀ root ∈ roots, root ∈ search.roots)
    (hrest : ∀ root ∈ search.roots, search.mark? root.id = none → root.id ≠ block.id →
      root ∈ roots)
    (hhand : search.stack = [] ∧ hand = none ∨
      ∃ source slot, hand = some ⟨source, slot, block.id⟩) :
    Sound graph none (search.enter roots block) := by
  have hfollowed := h.followed_enter hget hnew roots
  have hmono (other : Edge) (hother : Followed graph hand search other) :
      Followed graph none (search.enter roots block) other := (hfollowed other).2 (.inl hother)
  have hkept (other : Edge) (hother : Kept graph hand search other) :
      Kept graph none (search.enter roots block) other := ⟨hmono other hother.1, hother.2⟩
  refine {
    roots := fun root hroot => h.roots root (hroots root hroot)
    unmarked := ?unmarked, marked := ?marked, inProgress := ?inProgress
    nodup := List.nodup_cons.2 ⟨h.not_mem_ids hnew, h.nodup⟩
    left := ?left, onHand := ?onHand, followed := ?followed
    found := fun other hother => h.found_mono hmono hkept hother
    chain := ?chain, times := ?times }
  case unmarked =>
    intro other hother hunmarked
    rw [mark?_enter] at hunmarked
    split at hunmarked
    · cases hunmarked
    · rename_i hne
      exact hrest other (h.unmarked other hother hunmarked) hunmarked hne
  case marked =>
    intro id hid
    rw [mark?_enter] at hid
    split at hid
    · rename_i heq
      rw [heq]
      exact Graph.contains_of_get? hget
    · exact h.marked id hid
  case inProgress =>
    intro id
    rw [mark?_enter]
    by_cases heq : id = block.id
    · rw [if_pos heq, heq]
      exact iff_of_true rfl List.mem_cons_self
    · rw [if_neg heq, h.inProgress]
      exact (List.mem_cons.trans (or_iff_right heq)).symm
  case left =>
    intro frame hframe
    rcases List.mem_cons.1 hframe with rfl | hframe
    · exact ⟨block, hget, List.suffix_refl _⟩
    · exact h.left frame hframe
  case onHand =>
    intro edge hedge
    cases hedge
  case followed =>
    intro edge hedge hexists
    rcases (hfollowed edge).1 hedge with hedge | hedge
    · rcases h.followed edge hedge hexists with hfound | hdone | habove
      · exact .inl hfound
      · refine .inr (.inl ?_)
        rw [mark?_enter_of_ne_none hnew roots (by rw [hdone]; exact Option.some_ne_none _)]
        exact hdone
      · exact .inr (.inr (habove.cons _))
    · -- the edge on hand leads to the new block, and comes from one below it
      rcases hhand with ⟨-, hnone⟩ | ⟨source, slot, hsome⟩
      · rw [hnone] at hedge
        cases hedge
      · have hsource := h.source_mem_ids hedge
        rw [hsome] at hedge
        cases hedge
        exact .inr (.inr ((List.singleton_sublist.2 hsource).cons_cons _))
  case chain =>
    refine List.isChain_cons.2 ⟨fun frame hframe => ?_, h.chain_mono hkept⟩
    rcases hhand with ⟨hnil, -⟩ | ⟨source, slot, hsome⟩
    · rw [hnil] at hframe
      cases hframe
    · have hhead := (h.onHand _ hsome).2.1
      rw [ids, List.head?_map, hframe] at hhead
      cases hhead
      exact ⟨slot, (hfollowed _).2 (.inr hsome), h.onHand_notMem_found hsome⟩
  case times =>
    obtain ⟨time, now, hnow, htime⟩ := h.times
    refine ⟨time, now, fun id hid => hnow id (mark?_of_enter hid), ?_⟩
    intro edge hedge hsource hexists hfound
    obtain ⟨htarget, hlt⟩ := htime edge hedge (mark?_of_enter hsource) hexists hfound
    refine ⟨?_, hlt⟩
    rw [mark?_enter_of_ne_none hnew roots (by rw [htarget]; exact Option.some_ne_none _)]
    exact htarget

/-! ## Finishing a block -/

section Finish

variable {id : BlockId} {stack : List Frame}

/-- Finishing a block follows nothing, since nothing is left in its frame. -/
theorem Sound.followed_finish (h : Sound graph none search)
    (hstack : search.stack = ⟨id, []⟩ :: stack) (edge : Edge) :
    Followed graph none (search.finish id stack) edge ↔ Followed graph none search edge := by
  constructor
  · rintro ⟨hedge, hmark, -, hleft⟩
    refine ⟨hedge, ?_, by simp, fun frame hframe hid => ?_⟩
    · rw [mark?_finish] at hmark
      split at hmark
      · rename_i heq
        rw [heq, h.mark?_top hstack]
        exact Option.some_ne_none _
      · exact hmark
    · rw [hstack] at hframe
      rcases List.mem_cons.1 hframe with rfl | hframe
      · exact List.not_mem_nil
      · exact hleft frame hframe hid
  · rintro ⟨hedge, hmark, -, hleft⟩
    refine ⟨hedge, ?_, by simp, fun frame hframe => hleft frame ?_⟩
    · rw [mark?_finish]
      split
      · exact Option.some_ne_none _
      · exact hmark
    · rw [hstack]
      exact List.mem_cons_of_mem _ hframe

theorem mark?_finish_of_done {other : BlockId} (hdone : search.mark? other = some .done) :
    (search.finish id stack).mark? other = some .done := by
  rw [mark?_finish]
  split
  · rfl
  · exact hdone

/-- Every edge of the block that is finished was reported or leads to a block that was done before.
None of them leads to a block above it on the stack, for there is none. -/
theorem Sound.done_of_top (h : Sound graph none search)
    (hstack : search.stack = ⟨id, []⟩ :: stack) {edge : Edge} (hedge : edge ∈ graph.edges)
    (hsource : edge.source = id) (hexists : graph.contains edge.target = true) :
    edge ∈ search.found ∨ search.mark? edge.target = some .done := by
  have hfollowed : Followed graph none search edge := by
    refine ⟨hedge, ?_, by simp, fun frame hframe hid => ?_⟩
    · rw [hsource, h.mark?_top hstack]
      exact Option.some_ne_none _
    · rw [hstack] at hframe
      rcases List.mem_cons.1 hframe with rfl | hframe
      · exact List.not_mem_nil
      · exact absurd (hid.trans hsource) (h.ne_of_mem_below hstack frame hframe)
  rcases h.followed edge hfollowed hexists with hfound | hdone | habove
  · exact .inl hfound
  · exact .inr hdone
  · -- either way the finished block would be on the stack once more, below itself
    rw [ids_cons hstack, hsource, List.sublist_cons_iff] at habove
    have hbelow := h.not_mem_below hstack
    rcases habove with habove | ⟨rest, hrest, habove⟩
    · exact absurd (habove.subset (by simp)) hbelow
    · rw [List.cons.injEq] at hrest
      rw [← hrest.2, List.singleton_sublist] at habove
      exact absurd habove hbelow

/-- The time of the block that is finished may be the latest. -/
theorem Sound.times_finish (h : Sound graph none search)
    (hstack : search.stack = ⟨id, []⟩ :: stack) :
    ∃ (time : BlockId → Nat) (now : Nat),
      (∀ other, (search.finish id stack).mark? other = some .done → time other < now) ∧
      ∀ edge ∈ graph.edges, (search.finish id stack).mark? edge.source = some .done →
        graph.contains edge.target = true → edge ∉ search.found →
        (search.finish id stack).mark? edge.target = some .done ∧
          time edge.target < time edge.source := by
  obtain ⟨time, now, hnow, htime⟩ := h.times
  have hne (other : BlockId) (hdone : search.mark? other = some .done) : other ≠ id := by
    rintro rfl
    rw [h.mark?_top hstack] at hdone
    cases hdone
  refine ⟨fun other => if other = id then now else time other, now + 1, ?_, ?_⟩
  · intro other hother
    dsimp only
    split
    · exact Nat.lt_succ_self now
    · rename_i hother'
      rw [mark?_finish, if_neg hother'] at hother
      exact Nat.lt_succ_of_lt (hnow other hother)
  · intro edge hedge hsource hexists hfound
    dsimp only
    by_cases heq : edge.source = id
    · -- an edge of the finished block leads to one that was done before now
      have hdone := (h.done_of_top hstack hedge heq hexists).resolve_left hfound
      refine ⟨mark?_finish_of_done hdone, ?_⟩
      rw [if_pos heq, if_neg (hne _ hdone)]
      exact hnow edge.target hdone
    · rw [mark?_finish, if_neg heq] at hsource
      obtain ⟨hdone, hlt⟩ := htime edge hedge hsource hexists hfound
      refine ⟨mark?_finish_of_done hdone, ?_⟩
      rw [if_neg heq, if_neg (hne _ hdone)]
      exact hlt

/-- Finishing a block takes it off the stack. -/
theorem Sound.finish (h : Sound graph none search) (hstack : search.stack = ⟨id, []⟩ :: stack) :
    Sound graph none (search.finish id stack) := by
  have hfollowed := h.followed_finish hstack
  have hmono (other : Edge) (hother : Followed graph none search other) :
      Followed graph none (search.finish id stack) other := (hfollowed other).2 hother
  have hkept (other : Edge) (hother : Kept graph none search other) :
      Kept graph none (search.finish id stack) other := ⟨hmono other hother.1, hother.2⟩
  have hids := ids_cons hstack
  have hnodup := h.nodup
  rw [hids, List.nodup_cons] at hnodup
  refine {
    roots := h.roots
    unmarked := ?unmarked, marked := ?marked, inProgress := ?inProgress
    nodup := hnodup.2
    left := ?left, onHand := ?onHand, followed := ?followed
    found := fun other hother => h.found_mono hmono hkept hother
    chain := ?chain
    times := h.times_finish hstack }
  case unmarked =>
    intro block hblock hunmarked
    rw [mark?_finish] at hunmarked
    split at hunmarked
    · cases hunmarked
    · exact h.unmarked block hblock hunmarked
  case marked =>
    intro other hother
    rw [mark?_finish] at hother
    split at hother
    · rename_i heq
      rw [heq]
      exact h.marked id (by rw [h.mark?_top hstack]; exact Option.some_ne_none _)
    · exact h.marked other hother
  case inProgress =>
    intro other
    rw [mark?_finish]
    by_cases heq : other = id
    · rw [if_pos heq, heq]
      exact iff_of_false (by simp) hnodup.1
    · rw [if_neg heq, h.inProgress, hids, List.mem_cons]
      exact or_iff_right heq
  case left =>
    intro frame hframe
    refine h.left frame ?_
    rw [hstack]
    exact List.mem_cons_of_mem _ hframe
  case onHand =>
    intro edge hedge
    cases hedge
  case followed =>
    intro edge hedge hexists
    rcases h.followed edge ((hfollowed edge).1 hedge) hexists with hfound | hdone | habove
    · exact .inl hfound
    · exact .inr (.inl (mark?_finish_of_done hdone))
    · rw [hids, List.sublist_cons_iff] at habove
      rcases habove with habove | ⟨rest, hrest, -⟩
      · exact .inr (.inr habove)
      · -- the target is the block that is finished
        rw [List.cons.injEq] at hrest
        refine .inr (.inl ?_)
        rw [mark?_finish, if_pos hrest.1]
  case chain =>
    have hchain := h.chain
    rw [hstack] at hchain
    exact hchain.tail.imp fun inner outer => Along.mono hkept outer.id inner.id

end Finish

/-! ## Whole steps -/

theorem Sound.get?_root (h : Sound graph hand search) {root : Block} (hroot : root ∈ search.roots) :
    graph.get? root.id = some root :=
  Graph.get?_eq_some_iff.2 ⟨h.roots root hroot, rfl⟩

theorem Sound.settle (h : Sound graph none search) : Sound graph none search.settle := by
  rcases settle_cases search with ⟨-, hsettle⟩ | ⟨-, hmarked, hsettle⟩ |
    ⟨hstack, tried, root, roots, hroots, htried, hnew, hsettle⟩
  · rw [hsettle]
    exact h
  · rw [hsettle]
    refine { h with roots := ?_, unmarked := ?_ }
    · exact fun root hroot => absurd hroot List.not_mem_nil
    · exact fun block hblock hunmarked =>
        absurd hunmarked (hmarked block (h.unmarked block hblock hunmarked))
  · rw [hsettle]
    have hroot := mem_roots_of_split hroots
    -- the roots tried before this one were entered, so no root that was not is lost with them
    refine h.enter (h.get?_root hroot) hnew (fun other hother => ?_)
      (fun other hother hunmarked hne => ?_) (.inl ⟨hstack, rfl⟩)
    · rw [hroots]
      exact List.mem_append_right _ (List.mem_cons_of_mem _ hother)
    · rw [hroots, List.mem_append, List.mem_cons] at hother
      rcases hother with hother | rfl | hother
      · exact absurd hunmarked (htried other hother)
      · exact absurd rfl hne
      · exact hother

theorem Sound.follow {edge : Edge} (h : Sound graph (some edge) search) :
    Sound graph none (search.follow graph edge) := by
  rcases follow_cases graph search edge with ⟨hmark, hfollow⟩ | ⟨hdone, hfollow⟩ |
    ⟨hnew, block, hget, hfollow⟩
  · rw [hfollow]
    exact h.report hmark
  · rw [hfollow]
    exact h.pass hdone
  · rw [hfollow]
    have hid : block.id = edge.target := (Graph.get?_eq_some_iff.1 hget).2
    refine h.enter (by rw [hid]; exact hget) (by rw [hid]; exact hnew) (fun _ hroot => hroot)
      (fun _ hroot _ _ => hroot) (.inr ⟨edge.source, edge.slot, ?_⟩)
    rw [hid]

theorem Sound.step {next : Search} (h : Sound graph none search)
    (hstep : step? graph search = some next) : Sound graph none next := by
  rcases step_cases hstep with ⟨id, stack, hstack, rfl⟩ |
    ⟨id, slot, target, left, stack, hstack, rfl⟩
  · exact (h.finish hstack).settle
  · exact (h.take hstack).follow

theorem sound_start (graph : Graph) : Sound graph none (start graph) :=
  (sound_blank graph).settle

/-! ## The end of the search -/

/-- Settling leaves no root while nothing is in progress. -/
theorem roots_settle (search : Search) (h : search.settle.stack = []) :
    search.settle.roots = [] := by
  rcases settle_cases search with ⟨hstack, hsettle⟩ | ⟨-, -, hsettle⟩ |
    ⟨-, tried, root, roots, -, -, -, hsettle⟩
  · rw [hsettle] at h
    exact absurd h hstack
  · rw [hsettle]
  · rw [hsettle] at h
    cases h

theorem roots_step {next : Search} (hstep : step? graph search = some next)
    (h : next.stack = []) : next.roots = [] := by
  rcases step_cases hstep with ⟨id, stack, -, rfl⟩ | ⟨id, slot, target, left, stack, -, rfl⟩
  · exact roots_settle _ h
  · rcases follow_cases graph (search.take id left stack) ⟨id, slot, target⟩ with ⟨-, hfollow⟩ |
      ⟨-, hfollow⟩ | ⟨-, block, -, hfollow⟩ <;>
    · rw [hfollow] at h
      cases h

/-- The number of steps that are still to come: one for each block and each reference of the blocks
that were not entered, and of the ones in progress one for each reference left and one for the
block. -/
def work (graph : Graph) (search : Search) : Nat :=
  graph.ahead (fun block => block.references.length + 1) (fun id => (search.mark? id).isNone) +
    (search.stack.map fun frame => frame.left.length + 1).sum

/-- Entering a block moves its steps to its frame. -/
theorem work_enter {block : Block} (hget : graph.get? block.id = some block)
    (hnew : search.mark? block.id = none) (roots : List Block) :
    work graph (search.enter roots block) = work graph search := by
  -- what the block weighed while it lay ahead is what its frame weighs now
  have hahead := Graph.ahead_eq_add (fun block => block.references.length + 1)
    (fun id => (search.mark? id).isNone) hget (by rw [hnew]; rfl)
  have hunmet : graph.ahead (fun block => block.references.length + 1)
        (fun id => ((search.enter roots block).mark? id).isNone)
      = graph.ahead (fun block => block.references.length + 1)
        (fun id => (search.mark? id).isNone && id != block.id) := by
    refine Graph.ahead_congr fun id _ => ?_
    rw [mark?_enter]
    by_cases heq : id = block.id
    · rw [if_pos heq, heq]
      simp
    · rw [if_neg heq, bne_iff_ne.2 heq, Bool.and_true]
  rw [work, work, hunmet, hahead, Search.enter, List.map_cons, List.sum_cons]
  dsimp only
  omega

theorem Sound.work_settle (h : Sound graph none search) :
    work graph search.settle = work graph search := by
  rcases settle_cases search with ⟨-, hsettle⟩ | ⟨-, -, hsettle⟩ |
    ⟨-, tried, root, roots, hroots, -, hnew, hsettle⟩
  · rw [hsettle]
  · rw [hsettle]
    rfl
  · rw [hsettle]
    exact work_enter (h.get?_root (mem_roots_of_split hroots)) hnew roots

/-- A step is one of those that were still to come, and it is exactly one. -/
theorem Sound.work_step {next : Search} (h : Sound graph none search)
    (hstep : step? graph search = some next) : work graph next + 1 = work graph search := by
  rcases step_cases hstep with ⟨id, stack, hstack, rfl⟩ |
    ⟨id, slot, target, left, stack, hstack, rfl⟩
  · -- the block was entered long ago, so what lies ahead is the same and its empty frame is paid
    have hmark : (search.mark? id).isNone = false := by
      rw [h.mark?_top hstack]
      rfl
    have hunmet : graph.ahead (fun block => block.references.length + 1)
          (fun other => ((search.finish id stack).mark? other).isNone)
        = graph.ahead (fun block => block.references.length + 1)
          (fun other => (search.mark? other).isNone) := by
      refine Graph.ahead_congr fun other _ => ?_
      rw [mark?_finish]
      split
      · rename_i heq
        rw [heq, hmark]
        rfl
      · rfl
    rw [(h.finish hstack).work_settle, work, work, hunmet, hstack, Search.finish, List.map_cons,
      List.sum_cons, List.length_nil]
    dsimp only
    omega
  · -- the reference taken out is paid for, whatever is done about it
    have htake : work graph (search.take id left stack) + 1 = work graph search := by
      rw [work, work, hstack]
      simp only [Search.take, mark?, List.map_cons, List.sum_cons, List.length_cons]
      omega
    rcases follow_cases graph (search.take id left stack) ⟨id, slot, target⟩ with ⟨-, hfollow⟩ |
      ⟨-, hfollow⟩ | ⟨hnew, block, hget, hfollow⟩
    · rw [hfollow]
      exact htake
    · rw [hfollow]
      exact htake
    · have hid : block.id = target := (Graph.get?_eq_some_iff.1 hget).2
      rw [hfollow, work_enter (by rw [hid]; exact hget) (by rw [hid]; exact hnew)]
      exact htake

theorem work_start (graph : Graph) : work graph (start graph) = graph.weight := by
  rw [start, (sound_blank graph).work_settle, work, List.map_nil, List.sum_nil, Nat.add_zero,
    Graph.weight, ← Graph.ahead_all]
  rfl

theorem step?_cycleEdges (graph : Graph) :
    step? graph (drive (step? graph) graph.weight (start graph)) = none :=
  step?_drive_eq_none (P := Sound graph none) (work graph) (fun _ _ h hstep => h.step hstep)
    (fun _ _ h hstep => Nat.lt_of_succ_le (h.work_step hstep).le) (sound_start graph)
    (work_start graph).le

theorem stack_of_done (h : step? graph search = none) : search.stack = [] := by
  rw [step?] at h
  split at h
  · assumption
  · cases h
  · cases h

/-- When the search has come to its end, no root is left either. -/
theorem roots_cycleEdges (graph : Graph)
    (h : (drive (step? graph) graph.weight (start graph)).stack = []) :
    (drive (step? graph) graph.weight (start graph)).roots = [] := by
  refine drive_preserves (P := fun search => search.stack = [] → search.roots = [])
    (fun _ _ _ hstep => roots_step hstep) graph.weight (fun hstack => ?_) h
  rw [start] at hstack ⊢
  exact roots_settle _ hstack

/-- At the end every block is done. A block that was not entered would be a root still to be tried,
and one in progress would be on the stack. -/
theorem Sound.mark?_of_end (h : Sound graph none search) (hroots : search.roots = [])
    (hstack : search.stack = []) {block : Block} (hblock : block ∈ graph.blocks) :
    search.mark? block.id = some .done := by
  cases hmark : search.mark? block.id with
  | none =>
    have hroot := h.unmarked block hblock hmark
    rw [hroots] at hroot
    cases hroot
  | some mark =>
    cases mark with
    | done => rfl
    | inProgress =>
      rw [h.inProgress, ids, hstack] at hmark
      cases hmark

end Search

namespace Graph

/-- What holds at the end of the search: its invariant, and every block is done. -/
theorem search_end (graph : Graph) : ∃ search : Search, search.found = graph.cycleEdges ∧
    Search.Sound graph none search ∧
    ∀ id, graph.contains id = true → search.mark? id = some .done := by
  have hsound : Search.Sound graph none
      (drive (Search.step? graph) graph.weight (Search.start graph)) :=
    drive_preserves (fun _ _ h hstep => h.step hstep) graph.weight (Search.sound_start graph)
  have hstack := Search.stack_of_done (Search.step?_cycleEdges graph)
  have hroots := Search.roots_cycleEdges graph hstack
  refine ⟨_, rfl, hsound, fun id hid => ?_⟩
  obtain ⟨block, hget⟩ := get?_of_contains hid
  obtain ⟨hblock, rfl⟩ := get?_eq_some_iff.1 hget
  exact hsound.mark?_of_end hroots hstack hblock

/-! ## What was found -/

/-- Whether a reference is one of the graph's that the search did not report. -/
def Unreported (graph : Graph) (edge : Edge) : Prop :=
  edge ∈ graph.edges ∧ edge ∉ graph.cycleEdges

/-- A reported reference is one of the graph's, and closes a cycle with references none of which was
reported. -/
theorem of_mem_cycleEdges {graph : Graph} {edge : Edge} (h : edge ∈ graph.cycleEdges) :
    edge ∈ graph.edges ∧ ReflTransGen (Along graph.Unreported) edge.target edge.source := by
  obtain ⟨search, hfound, hsound, -⟩ := graph.search_end
  rw [← hfound] at h
  obtain ⟨hfollowed, hback⟩ := hsound.found edge h
  refine ⟨hfollowed.1, ?_⟩
  refine ReflTransGen.mono (Along.mono fun other hother => ?_) _ _ hback
  rw [Unreported, ← hfound]
  exact ⟨hother.1.1, hother.2⟩

/-- The blocks can be numbered so that every reference that was not reported leads down, unless it
leads nowhere. -/
theorem exists_time (graph : Graph) : ∃ time : BlockId → Nat, ∀ edge, graph.Unreported edge →
    graph.contains edge.target = true → time edge.target < time edge.source := by
  obtain ⟨search, hfound, hsound, hdone⟩ := graph.search_end
  obtain ⟨time, now, -, htime⟩ := hsound.times
  refine ⟨time, fun edge hedge hexists => ?_⟩
  rw [Unreported, ← hfound] at hedge
  obtain ⟨block, hget, -⟩ := edge_iff.1 hedge.1
  exact (htime edge hedge.1 (hdone _ (contains_of_get? hget)) hexists hedge.2).2

/-- The references that were not reported make up no cycle. -/
theorem not_transGen_unreported (graph : Graph) (id : BlockId) :
    ¬ TransGen (Along graph.Unreported) id id := by
  obtain ⟨time, htime⟩ := graph.exists_time
  -- a block that leads back to itself has a reference, so it is a block of the graph
  have hdown {a b : BlockId} (hab : TransGen (Along graph.Unreported) a b)
      (hb : graph.contains b = true) : time b < time a := by
    induction hab using TransGen.head_induction_on with
    | single hab =>
      obtain ⟨slot, hedge⟩ := hab
      exact htime _ hedge hb
    | head hac hcb ih =>
      obtain ⟨slot, hedge⟩ := hac
      obtain ⟨_, ⟨slot', hedge'⟩, -⟩ := TransGen.head'_iff.1 hcb
      exact ih.trans (htime _ hedge (Refers.contains ⟨slot', hedge'.1⟩))
  intro hcycle
  obtain ⟨_, ⟨slot, hedge⟩, -⟩ := TransGen.head'_iff.1 hcycle
  exact lt_irrefl _ (hdown hcycle (Refers.contains ⟨slot, hedge.1⟩))

/-- The search reports nothing exactly if no block leads back to itself. -/
theorem cycleEdges_eq_nil_iff {graph : Graph} : graph.cycleEdges = [] ↔ graph.Acyclic := by
  constructor
  · intro hnil id hcycle
    refine graph.not_transGen_unreported id (TransGen.mono (Along.mono fun edge hedge => ?_) _ _
      hcycle)
    rw [Unreported, hnil]
    exact ⟨hedge, List.not_mem_nil⟩
  · intro hacyclic
    rw [List.eq_nil_iff_forall_not_mem]
    intro edge hmem
    obtain ⟨hedge, hback⟩ := of_mem_cycleEdges hmem
    have hall : Along graph.Unreported ≤ graph.Refers := Along.mono fun _ hother => hother.1
    exact hacyclic edge.source (.head' ⟨edge.slot, hedge⟩ (ReflTransGen.mono hall _ _ hback))

end Graph

end BlockDiagram
