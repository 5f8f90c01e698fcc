/-
What a graph keeps of its history.

A graph is built by inserting blocks one after the other, and a block displaces the one that has the
same id. What is left in the end is the last block of each id, in the order of ids; nothing else of
the list that a graph was built of can be found out from it. So all that is done with a graph is the
same for two histories with the same last blocks.

Validation goes over sets of blocks on its way, and what order these are gone over in is not for the
graph to say. The only such order is the one in which reaching begins with the start blocks, and the
findings are the same for all of them.
-/
import BlockDiagram.Compilation
import BlockDiagram.Graph.Text
import BlockDiagram.Proofs.Graph.Building
import BlockDiagram.Proofs.Validation.Reachability

set_option autoImplicit false

namespace BlockDiagram

/-- The last block of a list that has an id. -/
def lastWith? (id : BlockId) (blocks : List Block) : Option Block :=
  (blocks.filter fun block => block.id == id).getLast?

namespace Graph

/-! ## Inserting blocks one by one -/

/-- Insert blocks one after the other. What each of them displaced comes back with the graph. -/
def exchangeAll (graph : Graph) : List Block → List (Option Block) × Graph
  | [] => ([], graph)
  | block :: rest =>
    let (displaced, graph) := graph.exchange block
    let (later, graph) := graph.exchangeAll rest
    (displaced :: later, graph)

/-- The graph is the one of all insertions, whatever comes back with it. -/
theorem exchangeAll_snd (graph : Graph) (blocks : List Block) :
    (graph.exchangeAll blocks).2 = blocks.foldl insert graph := by
  induction blocks generalizing graph with
  | nil => rfl
  | cons block rest ih => exact ih (graph.insert block)

/-- What an insertion displaces is what the insertions before it have left under its id. -/
theorem exchangeAll_fst_getElem? (graph : Graph) (before : List Block) (block : Block)
    (after : List Block) :
    (graph.exchangeAll (before ++ block :: after)).1[before.length]? =
      some ((before.foldl insert graph).get? block.id) := by
  induction before generalizing graph with
  | nil => rfl
  | cons first before ih => exact ih (graph.insert first)

open scoped List in
/-- What is displaced and what is left are together what was there and what was inserted. -/
theorem exchangeAll_perm (graph : Graph) (blocks : List Block) :
    ((graph.exchangeAll blocks).1.flatMap Option.toList ++
      (graph.exchangeAll blocks).2.blocks).Perm (blocks ++ graph.blocks) := by
  induction blocks generalizing graph with
  | nil => exact .refl _
  | cons block rest ih =>
    have hrest := ih (graph.insert block)
    have hblock := graph.exchange_perm block
    rw [exchangeAll, List.flatMap_cons, List.append_assoc]
    calc _ ~ (graph.exchange block).1.toList ++ (rest ++ (graph.insert block).blocks) :=
          hrest.append_left _
      _ ~ rest ++ ((graph.exchange block).1.toList ++ (graph.insert block).blocks) :=
          List.perm_append_comm_assoc _ _ _
      _ ~ rest ++ block :: graph.blocks := hblock.append_left _
      _ ~ block :: rest ++ graph.blocks := List.perm_middle

/-! ## The last blocks -/

theorem ofList_append_singleton (blocks : List Block) (block : Block) :
    ofList (blocks ++ [block]) = (ofList blocks).insert block := by
  rw [ofList, List.foldl_append]
  rfl

/-- Under an id, the graph of a list has the last block with this id. -/
theorem get?_ofList (blocks : List Block) (id : BlockId) :
    (ofList blocks).get? id = lastWith? id blocks := by
  -- from the front to the back, since it is the last block that counts
  induction blocks using List.reverseRecOn with
  | nil => rfl
  | append_singleton blocks block ih =>
    rw [ofList_append_singleton, lastWith?, List.filter_append]
    by_cases hid : block.id = id
    · subst hid
      simp
    · rw [get?_insert_of_ne _ hid, ih]
      simp [lastWith?, hid]

/-- A graph is told by the last blocks of the list that it was built of. -/
theorem ofList_eq_ofList_iff {blocks blocks' : List Block} :
    ofList blocks = ofList blocks' ↔ ∀ id, lastWith? id blocks = lastWith? id blocks' := by
  simp only [← get?_ofList]
  exact ⟨fun h id => by rw [h], ext_get?⟩

/-! ## Sets on the way -/

/-- The findings about references, if reaching begins with blocks in the given order. -/
def referenceViolationsFrom (graph : Graph) (ids : List BlockId) : List Violation :=
  let reachable := (drive (Reach.step? graph) graph.size (.start ids)).seen
  graph.edges.filterMap fun edge =>
    match graph.get? edge.target with
    | none => some (.at edge.source (.dangling edge.slot edge.target))
    | some found =>
      if found.isStart && reachable.contains edge.source then
        some (.at edge.source (.startReferenced edge.slot))
      else none

/-- All findings, if reaching begins with blocks in the given order. -/
def violationsFrom (graph : Graph) (ids : List BlockId) : List Violation :=
  graph.startViolations ++ graph.referenceViolationsFrom ids ++ graph.armViolations ++
    graph.attributeViolations ++ graph.cycleViolations

/-- The order of the start blocks does not matter to what is found. -/
theorem violationsFrom_eq {graph : Graph} {ids : List BlockId} (h : ids.Perm graph.starts) :
    graph.violationsFrom ids = graph.violations := by
  have hcontains (id : BlockId) :
      (drive (Reach.step? graph) graph.size (.start ids)).seen.contains id =
        graph.reachable.contains id := by
    rw [Bool.eq_iff_iff, List.contains_iff_mem, List.contains_iff_mem, mem_seen_iff h,
      mem_reachable_iff]
  have hreferences : graph.referenceViolationsFrom ids = graph.referenceViolations := by
    simp only [referenceViolationsFrom, hcontains]
    rfl
  rw [violationsFrom, hreferences]
  rfl

/-! ## Graphs and their histories -/

/-- Whether nothing tells two graphs apart: neither the graphs themselves, nor their violations and
the order of these, nor their texts, nor the programs. -/
structure Indistinguishable (graph graph' : Graph) : Prop where
  same : graph = graph'
  violations : graph.violations = graph'.violations
  /-- The violations are the same in whatever order reaching begins with the start blocks. -/
  anyOrder : ∀ ids, ids.Perm graph.starts → graph.violationsFrom ids = graph'.violations
  text : graph.text = graph'.text
  program : ∀ width, Program.ofGraph graph width = Program.ofGraph graph' width

/-- What a graph is that was built of a list of blocks. -/
structure BuiltOf (blocks : List Block) (graph : Graph) : Prop where
  /-- Building is inserting one block after the other into an empty graph. -/
  inserted : (empty.exchangeAll blocks).2 = graph
  /-- Each insertion gives back the last block before it with the same id. -/
  displaced : ∀ before block after, blocks = before ++ block :: after →
    (empty.exchangeAll blocks).1[before.length]? = some (lastWith? block.id before)
  /-- No block is lost: what is not in the graph has been given back, and nothing else has. -/
  kept : ((empty.exchangeAll blocks).1.flatMap Option.toList ++ graph.blocks).Perm blocks
  /-- Under an id lies the last block that has it. -/
  last : ∀ id, graph.get? id = lastWith? id blocks
  /-- Every block lies under its own id. -/
  own : ∀ id block, graph.get? id = some block → block.id = id
  /-- The ids ascend. -/
  ascending : graph.ids.Pairwise (· < ·)

/-- **History of a graph.** A graph that is built of a list of blocks has the last block of each id,
in the order of ids, and every insertion gives back what it displaces. Nothing tells the graphs of
two lists apart exactly if the lists have the same last blocks, whatever their order and however
many blocks were displaced. -/
theorem builtOf_ofList (blocks : List Block) :
    BuiltOf blocks (ofList blocks) ∧ ∀ blocks',
      (∀ id, lastWith? id blocks = lastWith? id blocks') ↔
        Indistinguishable (ofList blocks) (ofList blocks') := by
  refine ⟨?built, fun blocks' => ⟨fun h => ?indistinguishable, fun h => ?last⟩⟩
  case built =>
    constructor
    case inserted => exact exchangeAll_snd empty blocks
    case displaced =>
      rintro before block after rfl
      rw [exchangeAll_fst_getElem?, ← get?_ofList]
      rfl
    case kept =>
      have hperm := exchangeAll_perm empty blocks
      rw [exchangeAll_snd] at hperm
      exact hperm.trans (by rw [empty, List.append_nil])
    case last => exact get?_ofList blocks
    case own => exact fun id block hget => (get?_eq_some_iff.1 hget).2
    case ascending => exact List.pairwise_map.2 (ofList blocks).ascending
  case indistinguishable =>
    have hsame := ofList_eq_ofList_iff.2 h
    constructor
    case same => exact hsame
    case violations => rw [hsame]
    case anyOrder => exact fun ids hids => by rw [violationsFrom_eq hids, hsame]
    case text => rw [hsame]
    case program => exact fun width => by rw [hsame]
  case last => exact ofList_eq_ofList_iff.1 h.same

end Graph

end BlockDiagram
