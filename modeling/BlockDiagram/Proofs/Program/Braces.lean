/-
The braces of a program.

A loop and a conditional write a pair of braces around each of their bodies, the program two pairs
of its own, and whatever else there is in braces comes from the texts of the diagram. So the braces
of a program can be counted along the visits of its blocks, every text once for each visit.

That they are balanced is more than a matter of numbers: nowhere in a program may more braces have
been closed than were opened. The brace that closes a body is a fragment of its own and stands far
behind the one that opens it, and the bridge between two arms closes the one before it opens the
other. Seen from the tree, though, a pair of braces always stands around what one slot leads to, so
it is enough that balanced rows stay balanced when they are put in a row or into a pair of braces.

Neither the layout nor a number has a brace, so all that is looked at of a fragment is the row of
its braces. The width is gone from it.
-/
import BlockDiagram.Proofs.Program.Occurrence
import BlockDiagram.Proofs.Program.Unambiguity

set_option autoImplicit false

namespace BlockDiagram

open Relation

/-! ## The braces of a text -/

def isBrace (c : Char) : Bool :=
  c == '\x7b' || c == '\x7d'

/-- The braces of a text, in their order. -/
def bracesOf (text : String) : List Char :=
  text.toList.filter isBrace

theorem bracesOf_append (s t : String) : bracesOf (s ++ t) = bracesOf s ++ bracesOf t := by
  rw [bracesOf, String.toList_append, List.filter_append]
  rfl

theorem bracesOf_eq_nil {text : String} (h : ∀ c ∈ text.toList, isBrace c = false) :
    bracesOf text = [] := by
  rw [bracesOf, List.filter_eq_nil_iff]
  intro c hc
  rw [h c hc]
  decide

theorem bracesOf_indentation (width : UInt64) (level : Nat) :
    bracesOf (indentation width level) = [] := by
  apply bracesOf_eq_nil
  intro c hc
  rw [indentation, String.toList_ofList] at hc
  rw [List.eq_of_mem_replicate hc]
  decide

theorem bracesOf_decimal (n : Nat) : bracesOf (decimal n) = [] := by
  apply bracesOf_eq_nil
  intro c hc
  have hdigit := isDigit_of_mem_decimal hc
  rw [← Bool.not_eq_true, isBrace, Bool.or_eq_true, beq_iff_eq, beq_iff_eq]
  rintro (rfl | rfl) <;> exact absurd hdigit (by decide)

theorem count_bracesOf {brace : Char} (hbrace : isBrace brace = true) (text : String) :
    (bracesOf text).count brace = text.toList.count brace :=
  List.count_filter hbrace

/-! ## The braces of a fragment -/

/-- The braces of a fragment, in their order. -/
def Fragment.braces : Fragment → List Char
  | .programHead => ['\x7b', '\x7d', '\x7b']
  | .loopHead condition | .armsHead condition => bracesOf condition ++ ['\x7b']
  | .armsBridge => ['\x7d', '\x7b']
  | .programTail | .bodyTail => ['\x7d']
  | .readPin name _ | .integer name => bracesOf name
  | .verbatim text => bracesOf text
  | .lineBreak | .setPin .. | .wait _ => []

theorem Fragment.bracesOf_text {indent : String} (hindent : bracesOf indent = [])
    (fragment : Fragment) : bracesOf (fragment.text indent) = fragment.braces := by
  cases fragment with
  | programHead =>
    -- its wording is long, so its braces are left to evaluation
    simp only [Fragment.text, bracesOf_append, hindent, List.nil_append]
    rfl
  | _ =>
    simp only [Fragment.text, Fragment.braces, bracesOf_append, hindent, bracesOf_decimal,
      List.nil_append, List.append_nil]
    simp [bracesOf, isBrace]

/-- The braces of fragments in a row. -/
def bracesIn (placed : List Placed) : List Char :=
  placed.flatMap fun one => one.fragment.braces

@[simp] theorem bracesIn_nil : bracesIn [] = [] := rfl

@[simp] theorem bracesIn_cons (first : Placed) (placed : List Placed) :
    bracesIn (first :: placed) = first.fragment.braces ++ bracesIn placed := rfl

@[simp] theorem bracesIn_append (placed placed' : List Placed) :
    bracesIn (placed ++ placed') = bracesIn placed ++ bracesIn placed' :=
  List.flatMap_append

theorem bracesOf_rowText (width : UInt64) (placed : List Placed) :
    bracesOf (rowText width placed) = bracesIn placed := by
  induction placed with
  | nil => rfl
  | cons first placed ih =>
    rw [rowText_cons, bracesOf_append, ih, Placed.text,
      Fragment.bracesOf_text (bracesOf_indentation width first.level), bracesIn_cons]

theorem ValidGraph.bracesOf_program (valid : ValidGraph) (width : UInt64) :
    bracesOf (valid.program width) = bracesIn (valid.tree.placed 0) := by
  rw [program_eq, bracesOf_rowText]

/-! ## Counting them -/

namespace BlockKind

def isLoop : BlockKind → Bool
  | .loop .. => true
  | _ => false

def isConditional : BlockKind → Bool
  | .conditional .. => true
  | _ => false

/-- The pairs of braces that a kind writes of its own. -/
def pairs : BlockKind → Nat
  | .start => 2
  | .loop .. => 1
  | .conditional .. => 2
  | _ => 0

/-- How often a character occurs in the texts of a kind. -/
def textCount (c : Char) (kind : BlockKind) : Nat :=
  (kind.texts.map fun text => text.toList.count c).sum

end BlockKind

namespace ValidGraph

/-- The kind of the block that a visit is of. -/
def kindAt? (valid : ValidGraph) (visit : Visit) : Option BlockKind :=
  (valid.graph.get? visit.id).map Block.kind

/-- Whether a visit is of a block whose kind has a property. -/
def isOf (valid : ValidGraph) (p : BlockKind → Bool) (visit : Visit) : Bool :=
  (valid.kindAt? visit).any p

/-- The number of visits of blocks whose kind has a property. -/
def visitsOf (valid : ValidGraph) (p : BlockKind → Bool) : Nat :=
  valid.visits.countP (valid.isOf p)

/-- How often a character occurs in the texts of the block that a visit is of. -/
def textCount (valid : ValidGraph) (c : Char) (visit : Visit) : Nat :=
  (valid.kindAt? visit).elim 0 (BlockKind.textCount c)

/-- The braces of either sort that a visit contributes. -/
def braceCount (valid : ValidGraph) (brace : Char) (visit : Visit) : Nat :=
  (valid.kindAt? visit).elim 0 fun kind => kind.pairs + kind.textCount brace

end ValidGraph

/-- The braces that something still to come writes of its own, without those of a chain. -/
def Pending.count (brace : Char) : Pending → Nat
  | .chain _ _ => 0
  | .fragment placed => placed.fragment.braces.count brace

section Count

variable {valid : ValidGraph} {brace : Char}

/-- What a block turns into writes the pairs of its kind and the texts of the block. -/
theorem Block.count_pending (hbrace : isBrace brace = true) (block : Block) (level : Nat) :
    ((block.parts level ++ block.following level).map (Pending.count brace)).sum =
      block.kind.pairs + block.kind.textCount brace := by
  have hfollowing : ((block.following level).map (Pending.count brace)).sum = 0 := by
    unfold following
    split <;> rfl
  have htext := count_bracesOf hbrace
  rw [isBrace, Bool.or_eq_true, beq_iff_eq, beq_iff_eq] at hbrace
  rw [List.map_append, List.sum_append, hfollowing]
  unfold parts
  rcases hbrace with rfl | rfl <;> cases block.kind <;>
    simp [Pending.count, Fragment.braces, htext, BlockKind.pairs, BlockKind.textCount,
      BlockKind.texts]
  all_goals omega

/-- Where the braces of every chain in a list are counted by its visits, those of the whole list
are. -/
theorem count_bracesIn_pending {ofLink : Option BlockId → Nat → List Placed}
    {visitsOf : Option BlockId → Nat → List Visit} (weight : Visit → Nat)
    (pending : List Pending)
    (h : ∀ link level, .chain link level ∈ pending →
      (bracesIn (ofLink link level)).count brace = ((visitsOf link level).map weight).sum) :
    (bracesIn (pending.flatMap (Pending.placed ofLink))).count brace =
      (pending.map (Pending.count brace)).sum +
        ((pending.flatMap (Pending.visits visitsOf)).map weight).sum := by
  induction pending with
  | nil => rfl
  | cons first pending ih =>
    have hrest := ih fun link level hmem => h link level (List.mem_cons_of_mem first hmem)
    rw [List.flatMap_cons, bracesIn_append, List.count_append, hrest]
    cases first with
    | chain link level =>
      have hfirst := h link level List.mem_cons_self
      simp only [Pending.placed, hfirst, List.map_cons, Pending.count, List.sum_cons,
        List.flatMap_cons, Pending.visits, List.map_append, List.sum_append]
      omega
    | fragment placed =>
      simp only [Pending.placed, bracesIn_cons, bracesIn_nil, List.append_nil, List.map_cons,
        Pending.count, List.sum_cons, List.flatMap_cons, Pending.visits, List.nil_append]
      omega

/-- The braces of a link are those that its visits contribute. -/
theorem ValidGraph.count_unfold (hbrace : isBrace brace = true) (link : Option BlockId)
    (hlink : valid.graph.Resolves link) (level : Nat) :
    (bracesIn ((valid.unfold link).placed level)).count brace =
      (((valid.unfold link).visits level).map (valid.braceCount brace)).sum := by
  induction link, hlink using valid.link_induction generalizing level with
  | nothing =>
    rw [unfold_none]
    rfl
  | block id block hget ih =>
    have hown : valid.braceCount brace ⟨id, level⟩ =
        block.kind.pairs + block.kind.textCount brace := by
      simp [braceCount, kindAt?, hget]
    rw [placed_unfold hget, visits_unfold hget, List.map_cons, List.sum_cons, hown,
      ← Block.count_pending hbrace block level]
    -- what is left to count are the chains, and each of them is what a slot leads to
    apply count_bracesIn_pending
    intro link below hmem
    obtain ⟨slot, rfl, -⟩ := Block.exists_slot_of_mem hmem
    exact ih slot below

/-- What single visits contribute, counted sort by sort. -/
theorem ValidGraph.sum_braceCount (valid : ValidGraph) (brace : Char) (visits : List Visit) :
    (visits.map (valid.braceCount brace)).sum =
      2 * visits.countP (valid.isOf (· = .start)) +
        visits.countP (valid.isOf BlockKind.isLoop) +
        2 * visits.countP (valid.isOf BlockKind.isConditional) +
        (visits.map (valid.textCount brace)).sum := by
  induction visits with
  | nil => rfl
  | cons visit visits ih =>
    simp only [List.map_cons, List.sum_cons, List.countP_cons, ih, braceCount, textCount, isOf]
    obtain hnone | ⟨kind, hkind⟩ := Option.eq_none_or_eq_some (valid.kindAt? visit)
    · simp [hnone]
    · cases kind <;>
        simp [hkind, BlockKind.pairs, BlockKind.isLoop, BlockKind.isConditional]
      all_goals omega

/-- The start block is visited once. -/
theorem ValidGraph.visitsOf_start (valid : ValidGraph) : valid.visitsOf (· = .start) = 1 := by
  obtain ⟨entry, hget, hkind⟩ := valid.get?_entry
  -- no other block is a start block, so these visits are those of the entry
  have hsame (visit : Visit) :
      valid.isOf (· = .start) visit = decide (visit.id = valid.entry) := by
    rw [Bool.eq_iff_iff, decide_eq_true_iff, isOf, kindAt?]
    constructor
    · intro hstart
      rw [Option.any_map, Option.any_eq_true] at hstart
      obtain ⟨block, hblock, hstart⟩ := hstart
      obtain ⟨hmem, hid⟩ := Graph.get?_eq_some_iff.1 hblock
      rw [← hid]
      exact valid.beginsAt_entry.2 block hmem (of_decide_eq_true hstart)
    · intro hid
      rw [hid, hget]
      exact decide_eq_true hkind
  rw [visitsOf, List.countP_eq_length_filter, funext hsame, visits_entry, List.length_singleton]

end Count

/-! ## Balance -/

/-- Whether the braces in a row of characters match: nowhere are more closed than were opened, and
in the end all are. -/
structure Balanced (row : List Char) : Prop where
  ahead : ∀ front, front <+: row → front.count '\x7d' ≤ front.count '\x7b'
  settled : row.count '\x7d' = row.count '\x7b'

instance (row : List Char) : Decidable (Balanced row) :=
  decidable_of_iff
    ((∀ front ∈ row.inits, front.count '\x7d' ≤ front.count '\x7b') ∧
      row.count '\x7d' = row.count '\x7b')
    (by simp only [List.mem_inits]; exact ⟨fun h => ⟨h.1, h.2⟩, fun h => ⟨h.ahead, h.settled⟩⟩)

namespace Balanced

variable {row row' : List Char}

theorem nil : Balanced [] where
  ahead := by
    intro front hfront
    rw [List.prefix_nil.1 hfront]
    exact Nat.le_refl 0
  settled := rfl

theorem append (h : Balanced row) (h' : Balanced row') : Balanced (row ++ row') where
  ahead := by
    intro front hfront
    -- a beginning ends in the first row, or has all of it and a beginning of the second
    rcases List.prefix_or_prefix_of_prefix hfront (List.prefix_append row row') with hin | hover
    · exact h.ahead front hin
    · obtain ⟨front', rfl⟩ := hover
      have hcount := h'.ahead front' ((List.prefix_append_right_inj row).1 hfront)
      rw [List.count_append, List.count_append, h.settled]
      omega
  settled := by
    rw [List.count_append, List.count_append, h.settled, h'.settled]

/-- What is balanced stays so between braces. -/
theorem wrap (h : Balanced row) : Balanced ('\x7b' :: row ++ ['\x7d']) where
  ahead := by
    intro front hfront
    rw [List.cons_append, List.prefix_cons_iff] at hfront
    obtain rfl | ⟨rest, rfl, hrest⟩ := hfront
    · exact Nat.le_refl 0
    · -- the brace that was opened makes up for the one that may have been closed at the end
      rw [List.count_cons_of_ne (by decide), List.count_cons_self]
      rw [List.prefix_concat_iff] at hrest
      rcases hrest with rfl | hrest
      · rw [List.count_append, List.count_append, h.settled]
        exact Nat.le_refl _
      · exact Nat.le_succ_of_le (h.ahead rest hrest)
  settled := by
    rw [List.cons_append, List.count_cons_of_ne (by decide), List.count_cons_self,
      List.count_append, List.count_append, h.settled]
    rfl

end Balanced

/-- Only the braces of a text matter for its balance. -/
theorem balanced_bracesOf_iff (text : String) :
    Balanced (bracesOf text) ↔ Balanced text.toList := by
  have hopen (row : List Char) : (row.filter isBrace).count '\x7b' = row.count '\x7b' :=
    List.count_filter rfl
  have hclose (row : List Char) : (row.filter isBrace).count '\x7d' = row.count '\x7d' :=
    List.count_filter rfl
  constructor
  · -- a beginning of the text has the braces of a beginning of the row
    intro h
    constructor
    · intro front hfront
      have hcount := h.ahead (front.filter isBrace) (hfront.filter isBrace)
      rw [hopen, hclose] at hcount
      exact hcount
    · have hsettled := h.settled
      rw [bracesOf, hopen, hclose] at hsettled
      exact hsettled
  · -- and every beginning of the row comes from one of the text
    intro h
    constructor
    · intro front hfront
      obtain ⟨row, hrow, rfl⟩ := List.prefix_filter_iff.1 hfront
      rw [hopen, hclose]
      exact h.ahead row hrow
    · rw [bracesOf, hopen, hclose]
      exact h.settled

/-- Whether the texts of a kind are balanced. -/
def BlockKind.Balanced (kind : BlockKind) : Prop :=
  ∀ text ∈ kind.texts, BlockDiagram.Balanced text.toList

namespace Unfolding

theorem balanced_sequel (tree : Unfolding) {placed : List Placed}
    (h : Balanced (bracesIn placed)) (level : Nat) :
    Balanced (bracesIn (sequel level tree placed)) := by
  cases tree with
  | nothing => exact .nil
  | node block branch => exact h

/-- With balanced texts a tree is balanced: each of its fragments that opens a brace has the one
that closes it behind the body. -/
theorem balanced_placed {tree : Unfolding} (htexts : tree.All fun block => block.kind.Balanced)
    (level : Nat) : Balanced (bracesIn (tree.placed level)) := by
  induction tree generalizing level with
  | nothing => exact .nil
  | node block branch ih =>
    obtain ⟨hkind, hbranch⟩ := htexts
    have hbody (slot : Slot) := (ih slot (hbranch slot) (level + 1)).wrap
    have hsequel := balanced_sequel (branch .next) (ih .next (hbranch .next) level) level
    have htext (text : String) (hmem : text ∈ block.kind.texts) : Balanced (bracesOf text) :=
      (balanced_bracesOf_iff text).2 (hkind text hmem)
    rw [placed]
    -- each body stands between braces; the bridge closes those of one arm and opens the other's
    cases hblock : block.kind with
    | start => simpa [Fragment.braces] using Balanced.nil.wrap.append (hbody .next)
    | loop condition child =>
      have htext := htext condition (by simp [hblock, BlockKind.texts])
      simpa [Fragment.braces] using (htext.append (hbody .child)).append hsequel
    | conditional condition ifTrue ifFalse =>
      have htext := htext condition (by simp [hblock, BlockKind.texts])
      have harms := (hbody .ifTrue).append (hbody .ifFalse)
      simpa [Fragment.braces] using (htext.append harms).append hsequel
    | read text pin | code text | declare text =>
      exact (htext text (by simp [hblock, BlockKind.texts])).append hsequel
    | write pin value | sleep length => exact hsequel

end Unfolding

namespace ValidGraph

/-- Whether the texts are balanced in the blocks that the entry leads to. -/
def BalancedTexts (valid : ValidGraph) : Prop :=
  ∀ id block, ReflTransGen valid.graph.Refers valid.entry id →
    valid.graph.get? id = some block → block.kind.Balanced

/-- The braces of either sort in a program: two of its own, one for each visit of a loop, two for
each visit of a conditional, and those of the texts, again for each visit. -/
theorem count_program (valid : ValidGraph) (width : UInt64) {brace : Char}
    (hbrace : isBrace brace = true) :
    (valid.program width).toList.count brace =
      2 + valid.visitsOf BlockKind.isLoop + 2 * valid.visitsOf BlockKind.isConditional +
        (valid.visits.map (valid.textCount brace)).sum := by
  have hstart := valid.visitsOf_start
  rw [visitsOf] at hstart
  rw [← count_bracesOf hbrace, bracesOf_program, tree,
    count_unfold hbrace _ valid.resolves_entry, ← tree, ← visits_eq, sum_braceCount, hstart]
  rfl

theorem balanced_program {valid : ValidGraph} (htexts : valid.BalancedTexts) (width : UInt64) :
    Balanced (valid.program width).toList := by
  rw [← balanced_bracesOf_iff, bracesOf_program]
  apply Unfolding.balanced_placed
  apply valid.all_unfold _ valid.resolves_entry
  rintro _ ⟨⟩ id block hway hget
  exact htexts id block hway hget

/-- **Braces.** Of either brace a program has two of its own, one for each visit of a loop, two for
each visit of a conditional, and those of the texts of every visit. If the texts of the blocks that
its entry leads to are balanced, so is the program. -/
theorem program_braces (valid : ValidGraph) (width : UInt64) :
    (∀ brace ∈ ['\x7b', '\x7d'], (valid.program width).toList.count brace =
        2 + valid.visitsOf BlockKind.isLoop + 2 * valid.visitsOf BlockKind.isConditional +
          (valid.visits.map (valid.textCount brace)).sum) ∧
      (valid.BalancedTexts → Balanced (valid.program width).toList) := by
  refine ⟨fun brace hmem => ?_, fun htexts => balanced_program htexts width⟩
  apply valid.count_program width
  rw [List.mem_pair] at hmem
  rcases hmem with rfl | rfl <;> rfl

end ValidGraph

/-- A loop and what follows it share a block of code that has braces. -/
def embraced : ValidGraph where
  graph := .ofList
    [⟨0, some 1, .start, .nil⟩, ⟨1, some 2, .loop "x" (some 2), .nil⟩,
      ⟨2, none, .code "if (y) \x7b z(); \x7d", .nil⟩]
  entry := 0
  valid := by decide
  entry_eq := by decide

/-- Its program has two pairs of braces, one of the loop and one of each visit of the code. -/
theorem braces_embraced :
    embraced.BalancedTexts ∧ Balanced (embraced.program 2).toList ∧
      ∀ brace ∈ ['\x7b', '\x7d'],
        (embraced.program 2).toList.count brace = 2 + 1 + 2 * 0 + 2 := by
  have htexts : embraced.BalancedTexts := by
    intro id block _ hget
    have hall : ∀ block ∈ embraced.graph.blocks, ∀ text ∈ block.kind.texts,
        Balanced text.toList := by decide
    exact hall block (Graph.get?_eq_some_iff.1 hget).1
  obtain ⟨hcount, hbalanced⟩ := embraced.program_braces 2
  refine ⟨htexts, hbalanced htexts, fun brace hmem => ?_⟩
  have hvisits : embraced.visits = [⟨0, 0⟩, ⟨1, 1⟩, ⟨2, 2⟩, ⟨2, 1⟩] := by decide
  rw [hcount brace hmem, ValidGraph.visitsOf, ValidGraph.visitsOf, hvisits]
  rw [List.mem_pair] at hmem
  rcases hmem with rfl | rfl <;> decide

end BlockDiagram
