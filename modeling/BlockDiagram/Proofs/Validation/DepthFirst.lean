/-
The search for cycles as a recursion.

Depth-first search is usually told as a recursion with three colours. A block is white until it is
come to, grey while its references are followed, and black from then on; to follow a reference to a
white block is to follow the references of that block first. This is the search that is meant, and
it is written down here as it is told. The search that is run keeps a stack of its own instead, and
goes on from one state to the next.

The stack holds what the calls of the recursion have still to do, the innermost call on top. So a
call is a run of the machine from a frame on top to the same frame with nothing left in it, whatever
lies below; the proof follows the recursion, and every call gives one such run.
-/
import BlockDiagram.Proofs.Validation.CycleSearch
import Mathlib.Logic.Function.Basic

set_option autoImplicit false

namespace BlockDiagram

/-! ## The recursion -/

/-- How far the recursion has come with a block: not come to it, come to it and following its
references, or followed them all. -/
inductive Colour where
  | white
  | grey
  | black
  deriving DecidableEq, Repr

/-- The colour of a block with a mark, or with none. -/
def Colour.ofMark : Option Mark → Colour
  | none => .white
  | some .inProgress => .grey
  | some .done => .black

theorem Colour.ofMark_injective : Function.Injective Colour.ofMark := by
  rintro (_ | _ | _) (_ | _ | _) h
  case none.none | some.inProgress.some.inProgress | some.done.some.done => rfl
  all_goals cases h

/-- What a part of the recursion leaves behind: the colours, and the references to grey blocks in
the order in which it met them. -/
structure Excursion where
  colour : BlockId → Colour
  found : List Edge

/-- One excursion behind another. -/
def Excursion.andThen (first : Excursion) (next : (BlockId → Colour) → Excursion) : Excursion :=
  let last := next first.colour
  ⟨last.colour, first.found ++ last.found⟩

namespace Graph

variable {graph : Graph} {colour : BlockId → Colour}

/-- The white blocks. -/
def whites (graph : Graph) (colour : BlockId → Colour) : List Block :=
  graph.blocks.filter fun block => colour block.id == .white

/-- Painting a block takes it out of the white ones. -/
theorem whites_update (graph : Graph) (colour : BlockId → Colour) (id : BlockId) {shade : Colour}
    (h : shade ≠ .white) : graph.whites (Function.update colour id shade) =
      (graph.whites colour).filter fun block => block.id != id := by
  rw [whites, whites, List.filter_filter]
  refine List.filter_congr fun block _ => ?_
  by_cases heq : block.id = id
  · simp [heq, h]
  · simp [heq]

theorem length_whites_black_le (graph : Graph) (colour : BlockId → Colour) (id : BlockId) :
    (graph.whites (Function.update colour id .black)).length ≤ (graph.whites colour).length := by
  rw [whites_update graph colour id (by decide)]
  exact List.length_filter_le _ _

theorem length_whites_grey_lt {id : BlockId} {block : Block} (hget : graph.get? id = some block)
    (hwhite : colour id = .white) :
    (graph.whites (Function.update colour id .grey)).length < (graph.whites colour).length := by
  obtain ⟨hmem, rfl⟩ := get?_eq_some_iff.1 hget
  rw [whites_update graph colour _ (by decide), List.length_filter_lt_length_iff_exists]
  exact ⟨block, List.mem_filter.2 ⟨hmem, by simp [hwhite]⟩, by simp⟩

/-- Follow the references of a grey block from left to right. A reference to a white block is
followed by following those of that block; one to a grey block is found to close a cycle. What is
said of the white blocks is why this ends. -/
def explore (graph : Graph) (source : BlockId) (colour : BlockId → Colour) :
    (left : List (Slot × BlockId)) →
      {trip : Excursion // (graph.whites trip.colour).length ≤ (graph.whites colour).length}
  | [] => ⟨⟨colour, []⟩, Nat.le_refl _⟩
  | (slot, target) :: left =>
    match hcolour : colour target, hget : graph.get? target with
    | .white, some block =>
      -- there are fewer white blocks in the call for the target, and so behind it as well
      have hgrey := length_whites_grey_lt hget hcolour
      let inner := graph.explore target (Function.update colour target .grey) block.references
      have hblack := (graph.length_whites_black_le inner.1.colour target).trans_lt
        (inner.2.trans_lt hgrey)
      let rest := graph.explore source (Function.update inner.1.colour target .black) left
      ⟨⟨rest.1.colour, inner.1.found ++ rest.1.found⟩, rest.2.trans hblack.le⟩
    | .grey, _ =>
      let rest := graph.explore source colour left
      ⟨⟨rest.1.colour, ⟨source, slot, target⟩ :: rest.1.found⟩, rest.2⟩
    | .black, _ | .white, none => graph.explore source colour left
termination_by left => ((graph.whites colour).length, left.length)
decreasing_by
  · exact .left _ _ hgrey
  · exact .left _ _ hblack
  · exact .right _ (Nat.lt_succ_self _)
  · exact .right _ (Nat.lt_succ_self _)
  · exact .right _ (Nat.lt_succ_self _)

/-- What following the references of a grey block leaves behind. -/
def explored (graph : Graph) (source : BlockId) (colour : BlockId → Colour)
    (left : List (Slot × BlockId)) : Excursion :=
  (graph.explore source colour left).1

/-- What coming to a white block leaves behind: its references are followed while it is grey, and
then it is black. -/
def visited (graph : Graph) (colour : BlockId → Colour) (block : Block) : Excursion :=
  let inner := graph.explored block.id (Function.update colour block.id .grey) block.references
  ⟨Function.update inner.colour block.id .black, inner.found⟩

/-- Come to the blocks of a list one after the other, as far as they are still white. -/
def tour (graph : Graph) : List Block → (BlockId → Colour) → Excursion
  | [], colour => ⟨colour, []⟩
  | root :: roots, colour =>
    if colour root.id = .white then (graph.visited colour root).andThen (graph.tour roots)
    else graph.tour roots colour

/-- Depth-first search over a whole graph, with roots in ascending order of id. -/
def depthFirst (graph : Graph) : Excursion :=
  graph.tour graph.blocks fun _ => .white

/-! ## Its equations -/

variable {source target : BlockId} {slot : Slot} {left : List (Slot × BlockId)}

theorem explored_nil (graph : Graph) (source : BlockId) (colour : BlockId → Colour) :
    graph.explored source colour [] = ⟨colour, []⟩ := by
  rw [explored, explore]

theorem explored_white {block : Block} (hcolour : colour target = .white)
    (hget : graph.get? target = some block) :
    graph.explored source colour ((slot, target) :: left) =
      (graph.visited colour block).andThen fun colour => graph.explored source colour left := by
  obtain ⟨-, rfl⟩ := get?_eq_some_iff.1 hget
  rw [explored, explore]
  split
  · rename_i other _ hother
    rw [hget, Option.some.injEq] at hother
    subst hother
    rfl
  all_goals simp_all

theorem explored_grey (hcolour : colour target = .grey) :
    graph.explored source colour ((slot, target) :: left) =
      (⟨colour, [⟨source, slot, target⟩]⟩ : Excursion).andThen fun colour =>
        graph.explored source colour left := by
  rw [explored, explore]
  split <;> first | rfl | simp_all

theorem explored_pass
    (h : colour target = .black ∨ colour target = .white ∧ graph.get? target = none) :
    graph.explored source colour ((slot, target) :: left) = graph.explored source colour left := by
  rw [explored, explore]
  split <;> first | rfl | simp_all

end Graph

/-! ## What the machine does -/

namespace Search

variable {graph : Graph} {search : Search}

/-- The marks as colours. -/
def colour (search : Search) (id : BlockId) : Colour :=
  .ofMark (search.mark? id)

theorem mark?_of_colour {colour : BlockId → Colour} {id : BlockId} {mark : Option Mark}
    (hcolour : search.colour = colour) (h : colour id = .ofMark mark) : search.mark? id = mark :=
  Colour.ofMark_injective ((congrFun hcolour id).trans h)

theorem colour_enter (search : Search) (roots : List Block) (block : Block) :
    (search.enter roots block).colour = Function.update search.colour block.id .grey := by
  funext id
  rw [colour, mark?_enter, apply_ite Colour.ofMark, Function.update_apply]
  rfl

theorem colour_finish (search : Search) (id : BlockId) (stack : List Frame) :
    (search.finish id stack).colour = Function.update search.colour id .black := by
  funext other
  rw [colour, mark?_finish, apply_ite Colour.ofMark, Function.update_apply]
  rfl

/-- Whether a run of the machine makes an excursion, with no root tried on the way, and ends with a
given stack. -/
def Makes (graph : Graph) (search : Search) (trip : Excursion) (stack : List Frame) : Prop :=
  ∃ n last, Takes (step? graph) n search last ∧ last.roots = search.roots ∧ last.stack = stack ∧
    last.colour = trip.colour ∧ last.found = search.found ++ trip.found

theorem Makes.andThen {first : Excursion} {next : (BlockId → Colour) → Excursion}
    {middle stack : List Frame} (hfirst : Makes graph search first middle)
    (hnext : ∀ search' : Search, search'.stack = middle → search'.colour = first.colour →
      Makes graph search' (next first.colour) stack) :
    Makes graph search (first.andThen next) stack := by
  obtain ⟨m, search', htakes, hroots, hstack, hcolour, hfound⟩ := hfirst
  obtain ⟨n, last, htakes', hroots', hstack', hcolour', hfound'⟩ := hnext search' hstack hcolour
  refine ⟨m + n, last, htakes.trans htakes', hroots'.trans hroots, hstack', hcolour', ?_⟩
  rw [hfound', hfound, List.append_assoc]
  rfl

/-! ### Single steps -/

theorem step?_follow {id target : BlockId} {slot : Slot} {left : List (Slot × BlockId)}
    {stack : List Frame} (hstack : search.stack = ⟨id, (slot, target) :: left⟩ :: stack) :
    step? graph search = some ((search.take id left stack).follow graph ⟨id, slot, target⟩) := by
  rw [step?, hstack]
  rfl

theorem step?_finish {id : BlockId} {stack : List Frame}
    (hstack : search.stack = ⟨id, []⟩ :: stack) :
    step? graph search = some (search.finish id stack).settle := by
  rw [step?, hstack]
  rfl

theorem follow_of_none {edge : Edge} {block : Block} (hmark : search.mark? edge.target = none)
    (hget : graph.get? edge.target = some block) :
    search.follow graph edge = search.enter search.roots block := by
  rw [follow, hmark, hget, enter, (Graph.get?_eq_some_iff.1 hget).2]

theorem follow_of_inProgress {edge : Edge} (hmark : search.mark? edge.target = some .inProgress) :
    search.follow graph edge = search.report edge := by
  rw [follow, hmark]
  rfl

theorem follow_of_pass {edge : Edge} (h : search.mark? edge.target = some .done ∨
      search.mark? edge.target = none ∧ graph.get? edge.target = none) :
    search.follow graph edge = search := by
  rcases h with hmark | ⟨hmark, hget⟩
  · rw [follow, hmark]
  · rw [follow, hmark, hget]

/-- A step that finds nothing may come first. -/
theorem Makes.step {next : Search} {trip : Excursion} {stack : List Frame}
    (hstep : step? graph search = some next) (hroots : next.roots = search.roots)
    (hfound : next.found = search.found) (h : Makes graph next trip stack) :
    Makes graph search trip stack := by
  obtain ⟨n, last, htakes, hroots', hstack, hcolour, hfound'⟩ := h
  exact ⟨n + 1, last, .step hstep htakes, hroots'.trans hroots, hstack, hcolour,
    by rw [hfound', hfound]⟩

/-- When all references of a block were followed, and it is not the only one on the stack, the next
step paints it black and takes it off the stack. -/
theorem Makes.finish {id : BlockId} {trip : Excursion} {frame : Frame} {stack : List Frame}
    (h : Makes graph search trip (⟨id, []⟩ :: frame :: stack)) :
    Makes graph search ⟨Function.update trip.colour id .black, trip.found⟩ (frame :: stack) := by
  obtain ⟨n, last, htakes, hroots, hstack, hcolour, hfound⟩ := h
  refine ⟨n + 1, last.finish id (frame :: stack), ?_, hroots, rfl, ?_, hfound⟩
  · exact htakes.trans (.single (step?_finish hstack))
  · rw [colour_finish, hcolour]

/-- Following the references of a block is a run of the machine from the frame of the block to the
same frame with no reference left, whatever lies below. -/
theorem makes_explored (graph : Graph) (source : BlockId) (colour : BlockId → Colour)
    (left : List (Slot × BlockId)) (search : Search) (stack : List Frame)
    (hstack : search.stack = ⟨source, left⟩ :: stack) (hcolour : search.colour = colour) :
    Makes graph search (graph.explored source colour left) (⟨source, []⟩ :: stack) := by
  induction source, colour, left using Graph.explore.induct graph generalizing search stack with
  | case1 source colour =>
    rw [Graph.explored_nil]
    exact ⟨0, search, .rest search, rfl, hstack, hcolour, (List.append_nil _).symm⟩
  | case2 source colour slot target left block hwhite hget hgrey inner hblack ihinner _ ihrest =>
    obtain ⟨-, rfl⟩ := Graph.get?_eq_some_iff.1 hget
    have hmark : search.mark? block.id = none := mark?_of_colour hcolour hwhite
    have hstep : step? graph search =
        some ((search.take source left stack).enter search.roots block) := by
      rw [step?_follow hstack]
      exact congrArg some (follow_of_none hmark hget)
    have hvisited : Makes graph search (graph.visited colour block) (⟨source, left⟩ :: stack) := by
      refine Makes.step hstep rfl rfl (Makes.finish (ihinner _ _ rfl ?_))
      rw [colour_enter, ← hcolour]
      rfl
    rw [Graph.explored_white hwhite hget]
    exact hvisited.andThen fun search' hstack' hcolour' =>
      ihrest search' stack hstack' hcolour'
  | case3 source colour slot target left hgrey ih =>
    have hmark : search.mark? target = some .inProgress := mark?_of_colour hcolour hgrey
    have hstep : step? graph search =
        some ((search.take source left stack).report ⟨source, slot, target⟩) := by
      rw [step?_follow hstack]
      exact congrArg some (follow_of_inProgress hmark)
    have hreported : Makes graph search ⟨colour, [⟨source, slot, target⟩]⟩
        (⟨source, left⟩ :: stack) := ⟨1, _, .single hstep, rfl, rfl, hcolour, rfl⟩
    rw [Graph.explored_grey hgrey]
    exact hreported.andThen fun search' hstack' hcolour' => ih search' stack hstack' hcolour'
  | case4 source colour slot target left hblack ih =>
    have hmark : search.mark? target = some .done := mark?_of_colour hcolour hblack
    have hstep : step? graph search = some (search.take source left stack) := by
      rw [step?_follow hstack]
      exact congrArg some (follow_of_pass (.inl hmark))
    rw [Graph.explored_pass (.inl hblack)]
    exact Makes.step hstep rfl rfl (ih _ stack rfl hcolour)
  | case5 source colour slot target left hwhite hnone ih =>
    have hmark : search.mark? target = none := mark?_of_colour hcolour hwhite
    have hstep : step? graph search = some (search.take source left stack) := by
      rw [step?_follow hstack]
      exact congrArg some (follow_of_pass (.inr ⟨hmark, hnone⟩))
    rw [Graph.explored_pass (.inr ⟨hwhite, hnone⟩)]
    exact Makes.step hstep rfl rfl (ih _ stack rfl hcolour)

/-- Whether the machine, once it has gone on to the next root, runs up to an end with no root left
and makes a tour on the way. -/
def Tours (graph : Graph) (search : Search) (trip : Excursion) : Prop :=
  ∃ n last, Takes (step? graph) n search.settle last ∧ last.roots = [] ∧ last.stack = [] ∧
    last.colour = trip.colour ∧ last.found = search.found ++ trip.found

theorem settle_of_marked {root : Block} {roots : List Block} (hroots : search.roots = root :: roots)
    (hstack : search.stack = []) (hmark : search.mark? root.id ≠ none) :
    search.settle = { search with roots }.settle := by
  have hsome : (search.mark? root.id).isSome = true := Option.isSome_iff_ne_none.2 hmark
  simp only [settle, hstack, hroots, List.dropWhile_cons, hsome, if_true]
  rfl

theorem settle_of_unmarked {root : Block} {roots : List Block}
    (hroots : search.roots = root :: roots) (hstack : search.stack = [])
    (hmark : search.mark? root.id = none) : search.settle = search.enter roots root := by
  simp [settle, hstack, hroots, hmark, enter]

/-- Between two roots the machine has what is left of the tour before it. -/
theorem tours_of_roots (graph : Graph) (roots : List Block) (search : Search)
    (hroots : search.roots = roots) (hstack : search.stack = []) :
    Tours graph search (graph.tour roots search.colour) := by
  induction roots generalizing search with
  | nil =>
    have hsettle : search.settle = search := by
      obtain ⟨roots, stack, marks, found⟩ := search
      subst hroots hstack
      rfl
    refine ⟨0, search, ?_, hroots, hstack, rfl, (List.append_nil _).symm⟩
    rw [hsettle]
    exact .rest search
  | cons root roots ih =>
    rw [Graph.tour]
    split
    case isTrue hwhite =>
      have hmark : search.mark? root.id = none := mark?_of_colour rfl hwhite
      obtain ⟨m, last, hmakes, hroots', hstack', hcolour, hfound⟩ :=
        makes_explored graph root.id _ root.references (search.enter roots root) search.stack rfl
          (colour_enter search roots root)
      rw [hstack] at hstack'
      -- the root is done, and the rest of the tour is made from the next one
      have hblack :
          (last.finish root.id []).colour = (graph.visited search.colour root).colour := by
        rw [colour_finish, hcolour]
        rfl
      obtain ⟨n, final, hrest, hend, hempty, hcolour', hfound'⟩ :=
        ih (last.finish root.id []) hroots' rfl
      rw [hblack] at hcolour' hfound'
      refine ⟨m + (1 + n), final, ?_, hend, hempty, hcolour', ?_⟩
      · rw [settle_of_unmarked hroots hstack hmark]
        exact hmakes.trans ((Takes.single (step?_finish hstack')).trans hrest)
      · rw [hfound', finish, hfound, List.append_assoc]
        rfl
    case isFalse hcolour =>
      have hmark : search.mark? root.id ≠ none := fun hnone =>
        hcolour (congrArg Colour.ofMark hnone)
      obtain ⟨n, final, hrest, hend⟩ := ih { search with roots } rfl hstack
      refine ⟨n, final, ?_, hend⟩
      rw [settle_of_marked hroots hstack hmark]
      exact hrest

/-- A run of the search from its start to its end makes the tour of the recursion. -/
theorem tours_graph (graph : Graph) : Tours graph ⟨graph.blocks, [], [], []⟩ graph.depthFirst :=
  tours_of_roots graph graph.blocks ⟨graph.blocks, [], [], []⟩ rfl rfl

end Search

end BlockDiagram
