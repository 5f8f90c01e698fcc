/-
A graph is told by its text.

The text of a graph has its fields in a fixed order, so it is not the text of a value, whose members
would stand in the order of their names. It is the text of a tree that keeps the order of writing,
and such a tree is told by its text. What is left to see is that the tree tells the graph: the tag
says what fields follow and so where the fields of the kind end, an arm that is missing or empty is
a string where one that leads somewhere is an object, and extra attributes are left out only where
there are none.

Extra attributes are what a user may send, with any names and nested as deep as may be. Nothing in
them can be taken for a part of the block around them. Doubles among them are left out of account.
-/
import BlockDiagram.Proofs.Document.RoundTrip
import BlockDiagram.Proofs.Json.Compact

set_option autoImplicit false

namespace BlockDiagram

open Json (Value Written)

/-! ## Trees -/

/-- An arm as it is written. -/
def Arm.written : Arm → Written
  | .missing => .string "missing"
  | .empty => .string "empty"
  | .to target => .object [("to", (idValue target).written)]

/-- The fields of a kind as they are written. -/
def BlockKind.written : BlockKind → List (String × Written)
  | .start => []
  | .loop condition child =>
    [("condition", .string condition), ("child", (linkValue child).written)]
  | .conditional condition ifTrue ifFalse =>
    [("condition", .string condition), ("if_true", ifTrue.written), ("if_false", ifFalse.written)]
  | .read name pin => [("variable", .string name), ("pin", .number (.natural pin.toUInt64))]
  | .write pin level => [("pin", .number (.natural pin.toUInt64)), ("value", .string level.word)]
  | .sleep length => [("length", .number (.natural length))]
  | .code text => [("code", .string text)]
  | .declare name => [("name", .string name)]

/-- Extra attributes as they are written. -/
def writtenExtra (extra : Json.Object) : List (String × Written) :=
  if extra.isEmpty then [] else [("extra", (Value.object extra).written)]

/-- A block as it is written. -/
def Block.written (block : Block) : Written :=
  .object <|
    [("id", (idValue block.id).written), ("next", (linkValue block.next).written),
      ("type", .string block.kind.tag)] ++ block.kind.written ++ writtenExtra block.extra

/-- A graph as it is written. -/
def Graph.written (graph : Graph) : Written :=
  .object [("blocks", .object (graph.blocks.map fun b => (idText b.id, b.written)))]

/-! ## Their texts -/

theorem text_idValue (id : BlockId) : (idValue id).written.text = idText id := by
  change decimal id.toUInt64.toNat = decimal id.toNat
  rw [UInt32.toNat_toUInt64]

theorem text_linkValue (link : Option BlockId) :
    (linkValue link).written.text = optionalIdText link := by
  cases link with
  | none => rfl
  | some id => exact text_idValue id

theorem Arm.text_written (arm : Arm) : arm.written.text = arm.text := by
  match arm with
  | .missing => rfl
  | .empty => rfl
  | .to target =>
    rw [written, Written.text_object, List.map_cons, text_idValue]
    rfl

theorem BlockKind.map_text_written (kind : BlockKind) :
    (kind.written.map fun member => (member.1, member.2.text)) = kind.fields := by
  cases kind <;>
    simp [fields, written, Arm.text_written, text_linkValue, Written.text, Json.Number.text]

theorem map_text_writtenExtra (extra : Json.Object) :
    ((writtenExtra extra).map fun member => (member.1, member.2.text)) =
      if extra.isEmpty then [] else [("extra", (Value.object extra).text)] := by
  rw [writtenExtra]
  split
  · rfl
  · rw [List.map_cons, Value.text_written, List.map_nil]

theorem Block.text_written (block : Block) : block.written.text = block.text := by
  rw [written, Written.text_object, text, List.map_append, List.map_append,
    BlockKind.map_text_written, map_text_writtenExtra]
  simp only [List.map_cons, List.map_nil, text_idValue, text_linkValue, Written.text]

/-- The text of a graph is the text of its tree. -/
theorem Graph.text_written (graph : Graph) : graph.written.text = graph.text := by
  rw [written, Written.text_object, text]
  simp only [List.map_cons, List.map_nil, Written.text_object, List.map_map, Function.comp_def,
    Block.text_written]

/-! ## Graphs without doubles -/

/-- Whether all numbers among the extra attributes, at whatever depth, are integers. -/
def Graph.Exact (graph : Graph) : Prop :=
  ∀ block ∈ graph.blocks, (Value.object block.extra).Exact

theorem exact_idValue (id : BlockId) : (idValue id).written.Exact :=
  .number (.natural _)

theorem exact_linkValue (link : Option BlockId) : (linkValue link).written.Exact := by
  cases link with
  | none => exact .null
  | some id => exact exact_idValue id

theorem Arm.exact_written (arm : Arm) : arm.written.Exact := by
  match arm with
  | .missing => exact .string _
  | .empty => exact .string _
  | .to target => exact .object (List.forall_mem_singleton.2 (exact_idValue target))

theorem BlockKind.exact_written (kind : BlockKind) :
    ∀ member ∈ kind.written, member.2.Exact := by
  have hnumber (n : UInt64) : (Written.number (.natural n)).Exact := .number (.natural n)
  cases kind <;>
    simp [written, Written.Exact.string, exact_linkValue, Arm.exact_written, hnumber]

theorem Block.exact_written {block : Block} (h : (Value.object block.extra).Exact) :
    block.written.Exact := by
  apply Written.Exact.object
  intro member hmember
  rw [List.mem_append, List.mem_append] at hmember
  rcases hmember with (hcommon | hkind) | hextra
  · simp only [List.mem_cons, List.not_mem_nil, or_false] at hcommon
    rcases hcommon with rfl | rfl | rfl
    · exact exact_idValue block.id
    · exact exact_linkValue block.next
    · exact .string _
  · exact block.kind.exact_written member hkind
  · rw [writtenExtra] at hextra
    split at hextra
    · cases hextra
    · rw [List.mem_singleton] at hextra
      rw [hextra]
      exact h.written

theorem Graph.Exact.written {graph : Graph} (h : graph.Exact) : graph.written.Exact := by
  refine .object (List.forall_mem_singleton.2 (.object fun member hmember => ?_))
  obtain ⟨block, hblock, rfl⟩ := List.mem_map.1 hmember
  exact Block.exact_written (h block hblock)

/-! ## Graphs are told by their trees -/

theorem idValue_injective : Function.Injective idValue := by
  intro id id' h
  injection h with h
  injection h with h
  exact UInt32.toUInt64_inj.1 h

theorem linkValue_injective : Function.Injective linkValue := by
  intro link link' h
  cases link <;> cases link'
  case none.none => rfl
  case some.some => rw [idValue_injective h]
  all_goals cases h

theorem PinLevel.word_injective : Function.Injective PinLevel.word := by
  intro level level' h
  cases level <;> cases level' <;> simp [word] at h ⊢

theorem Arm.written_injective : Function.Injective Arm.written := by
  intro arm arm' h
  cases arm <;> cases arm' <;>
    simp [written, Value.written_injective.eq_iff, idValue_injective.eq_iff] at h ⊢
  exact h

/-- The tag says what fields a kind has, and these say the rest; what stands behind them is left. -/
theorem BlockKind.written_append_inj {kind kind' : BlockKind}
    {rest rest' : List (String × Written)} (htag : kind.tag = kind'.tag)
    (h : kind.written ++ rest = kind'.written ++ rest') : kind = kind' ∧ rest = rest' := by
  cases kind <;> cases kind' <;> simp [tag] at htag
  all_goals
    simpa [written, Value.written_injective.eq_iff, linkValue_injective.eq_iff,
      Arm.written_injective.eq_iff, PinLevel.word_injective.eq_iff, UInt32.toUInt64_inj,
      and_assoc] using h

theorem writtenExtra_injective : Function.Injective writtenExtra := by
  have hnil {extra : Json.Object} (h : extra.isEmpty = true) : extra = .nil := by
    cases extra with
    | nil => rfl
    | cons => cases h
  intro extra extra' h
  rw [writtenExtra, writtenExtra] at h
  split at h <;> split at h
  case isTrue.isTrue hempty hempty' => rw [hnil hempty, hnil hempty']
  case isFalse.isFalse =>
    simpa [Value.written_injective.eq_iff] using h
  all_goals cases h

theorem Block.written_injective : Function.Injective Block.written := by
  intro block block' h
  obtain ⟨id, next, kind, extra⟩ := block
  obtain ⟨id', next', kind', extra'⟩ := block'
  simp only [written, Written.object.injEq, List.cons_append, List.nil_append, List.cons.injEq,
    Prod.mk.injEq, Written.string.injEq, true_and, Value.written_injective.eq_iff,
    idValue_injective.eq_iff, linkValue_injective.eq_iff] at h
  obtain ⟨rfl, rfl, htag, hbehind⟩ := h
  obtain ⟨rfl, hextra⟩ := BlockKind.written_append_inj htag hbehind
  rw [writtenExtra_injective hextra]

/-- A graph is told by its tree. -/
theorem Graph.written_injective : Function.Injective Graph.written := by
  intro g h heq
  have hmember : Function.Injective fun b : Block => (idText b.id, b.written) := fun _ _ hsame =>
    Block.written_injective (Prod.mk.inj hsame).2
  simp only [written, Written.object.injEq, List.cons.injEq, Prod.mk.injEq, true_and, and_true,
    hmember.list_map.eq_iff] at heq
  obtain ⟨blocks, _⟩ := g
  obtain ⟨blocks', _⟩ := h
  cases heq
  rfl

/-! ## Graphs are told by their texts -/

/-- Graphs without doubles that have the same text are the same: the blocks, their links and kinds,
what each arm says, and the extra attributes. -/
theorem Graph.text_eq_iff {g h : Graph} (hg : g.Exact) (hh : h.Exact) :
    g.text = h.text ↔ g = h := by
  constructor
  · intro htext
    rw [← g.text_written, ← h.text_written] at htext
    exact Graph.written_injective (hg.written.eq_of_text hh.written htext)
  · rintro rfl
    rfl

/-- A start block with one extra attribute, and in its text what would stand between two. -/
def oneAttribute : Graph :=
  .ofList [⟨0, none, .start, .cons "a" trivial (.array [.string "1\"],\"b\":[\"2"]) .nil⟩]

/-- A start block with two extra attributes. -/
def twoAttributes : Graph :=
  .ofList [⟨0, none, .start,
    .cons "a" trivial (.array [.string "1"]) (.cons "b" (by decide) (.array [.string "2"]) .nil)⟩]

theorem text_oneAttribute_ne_text_twoAttributes :
    oneAttribute.Exact ∧ twoAttributes.Exact ∧ oneAttribute.text ≠ twoAttributes.text := by
  have hlisted (s : String) : (Value.array [.string s]).Exact :=
    .array (List.forall_mem_singleton.2 (.string s))
  have hone : oneAttribute.Exact :=
    List.forall_mem_singleton.2 (.object (List.forall_mem_singleton.2 (hlisted _)))
  have htwo : twoAttributes.Exact := by
    refine List.forall_mem_singleton.2 (.object ?_)
    exact List.forall_mem_cons.2 ⟨hlisted _, List.forall_mem_singleton.2 (hlisted _)⟩
  refine ⟨hone, htwo, fun htext => ?_⟩
  have hsame : oneAttribute = twoAttributes := (Graph.text_eq_iff hone htwo).1 htext
  have hsizes := congrArg (fun g => g.blocks.map fun b => b.extra.toList.length) hsame
  exact absurd hsizes (by decide)

end BlockDiagram
