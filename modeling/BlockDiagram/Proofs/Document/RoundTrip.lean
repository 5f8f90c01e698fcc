/-
A graph written as a document, and read back.

Every graph can be written as a document: a member for each block, under the decimal form of its id,
with the fields of its kind as attributes beside those that it keeps. Reading this document gives
the graph back, and so loading can lose nothing that a document is able to say. There are two
conditions. A block must not keep an attribute that its kind knows, since the document would then
say one thing twice; loading never makes such a block. And every reference must lead to a block; a
graph with one that does not is refused.

It is refused for the reference that validation reports first. Loading and validation look for
references into the void on their own, one in the graph that it has just made and the other in any
graph, and they agree on all graphs.

The members of the document are in the order of their keys, in which `10` comes before `9`, and the
blocks are in the order of their ids. Neither order shows below: a document that describes the
blocks of a graph is told by what is found in it, and what loading makes of such a document is
known.
-/
import BlockDiagram.Proofs.Document.Depiction
import BlockDiagram.Proofs.Graph.Building
import BlockDiagram.Proofs.Validation.Findings

set_option autoImplicit false

namespace BlockDiagram

open Json (Value)

/-! ## Writing -/

/-- An id as a value. -/
def idValue (id : BlockId) : Value :=
  .natural id.toUInt64

/-- A link as a value; null says that nothing follows. -/
def linkValue : Option BlockId → Value
  | none => .null
  | some id => idValue id

/-- The value of an arm. A missing arm has none, an empty one has null. -/
def Arm.value? : Arm → Option Value
  | .missing => none
  | .empty => some .null
  | .to target => some (idValue target)

/-- The members that give the arms of a conditional. -/
def armMembers (ifTrue ifFalse : Arm) : List (String × Value) :=
  (ifTrue.value?.map ("true", ·)).toList ++ (ifFalse.value?.map ("false", ·)).toList

/-- The fields of a kind as attributes. -/
def BlockKind.attributes : BlockKind → List (String × Value)
  | .start => []
  | .loop condition child => [("condition", .string condition), ("child", linkValue child)]
  | .conditional condition ifTrue ifFalse =>
    [("condition", .string condition), ("children", .ofMembers (armMembers ifTrue ifFalse))]
  | .read name pin => [("variable", .string name), ("pin", .natural pin.toUInt64)]
  | .write pin level => [("pin", .natural pin.toUInt64), ("value", .string level.word)]
  | .sleep length => [("length", .natural length)]
  | .code text => [("code", .string text)]
  | .declare name => [("name", .string name)]

/-- The object that describes a block. -/
def Block.members (block : Block) : Json.Object :=
  .ofList [("type", .string block.kind.tag), ("next", linkValue block.next),
    ("attributes", .ofMembers (block.kind.attributes ++ block.extra.toList))]

/-- The document of a graph. -/
def Graph.document (graph : Graph) : Value :=
  .ofMembers [("blocks", .ofMembers (graph.blocks.map fun block =>
    (idText block.id, .object block.members)))]

/-- Whether a block keeps only attributes that its kind does not know. -/
def Block.KeepsUnknown (block : Block) : Prop :=
  ∀ name, block.extra.get? name ≠ none → block.kind.form? name = none

/-! ## What the values denote -/

theorem denotes_natural (n : UInt32) : Denotes (.natural n.toUInt64) n.toNat := by
  rw [← UInt32.toNat_toUInt64]
  exact .number n.toUInt64

theorem given_linkValue (link : Option BlockId) :
    Given none DenotesLink (some (linkValue link)) link := by
  cases link with
  | none => exact .null
  | some id => exact .value (.link (denotes_natural id))

theorem denotesLevel_word (level : PinLevel) : DenotesLevel (.string level.word) level := by
  refine .word ?_ (.inl rfl)
  cases level <;> decide

theorem armGiven_value? (arm : Arm) : ArmGiven arm.value? arm := by
  rcases arm with _ | _ | target
  · exact .missing
  · exact .empty
  · exact .target (denotes_natural target)

theorem armsGiven_armMembers (ifTrue ifFalse : Arm) :
    ArmsGiven (some (.ofMembers (armMembers ifTrue ifFalse))) ifTrue ifFalse := by
  have hnodup : ((armMembers ifTrue ifFalse).map Prod.fst).Nodup := by
    cases ifTrue <;> cases ifFalse <;> simp [armMembers, Arm.value?]
  have htrue : (armMembers ifTrue ifFalse).lookup "true" = ifTrue.value? := by
    cases ifTrue <;> cases ifFalse <;> rfl
  have hfalse : (armMembers ifTrue ifFalse).lookup "false" = ifFalse.value? := by
    cases ifTrue <;> cases ifFalse <;> rfl
  refine .sent ?_ ?_
  · rw [Json.Members.get?_ofList hnodup, htrue]
    exact armGiven_value? ifTrue
  · rw [Json.Members.get?_ofList hnodup, hfalse]
    exact armGiven_value? ifFalse

/-! ## What the description of a block says -/

section Description

variable {block : Block}

theorem BlockKind.nodup_attributes (kind : BlockKind) : (kind.attributes.map Prod.fst).Nodup := by
  cases kind <;> simp [BlockKind.attributes]

/-- A kind knows the attributes that its fields are written as. -/
theorem BlockKind.form?_of_mem_attributes {kind : BlockKind} {name : String} {value : Value}
    (h : (name, value) ∈ kind.attributes) : kind.form? name ≠ none := by
  cases kind <;> simp only [BlockKind.attributes, List.mem_cons, Prod.mk.injEq, List.not_mem_nil,
    or_false] at h
  case loop => rcases h with ⟨rfl, -⟩ | ⟨rfl, -⟩ <;> simp [BlockKind.form?]
  case conditional => rcases h with ⟨rfl, -⟩ | ⟨rfl, -⟩ <;> simp [BlockKind.form?]
  case read => rcases h with ⟨rfl, -⟩ | ⟨rfl, -⟩ <;> simp [BlockKind.form?]
  case write => rcases h with ⟨rfl, -⟩ | ⟨rfl, -⟩ <;> simp [BlockKind.form?]
  all_goals simp [BlockKind.form?, h.1]

theorem BlockKind.lookup_attributes_eq_none {kind : BlockKind} {name : String}
    (h : kind.form? name = none) : kind.attributes.lookup name = none := by
  cases hlookup : kind.attributes.lookup name with
  | none => rfl
  | some value =>
    rw [Json.lookup_eq_some_iff_of_nodup kind.nodup_attributes] at hlookup
    exact absurd h (BlockKind.form?_of_mem_attributes hlookup)

/-- The attributes of a block are its fields and what it keeps, and no name is in both. -/
theorem Block.KeepsUnknown.nodup (h : block.KeepsUnknown) :
    ((block.kind.attributes ++ block.extra.toList).map Prod.fst).Nodup := by
  rw [List.map_append, List.nodup_append]
  refine ⟨block.kind.nodup_attributes, Json.nodup_of_ascending block.extra.toList_ascending, ?_⟩
  rintro name hname _ hkept rfl
  obtain ⟨⟨_, value⟩, hmem, rfl⟩ := List.mem_map.1 hname
  obtain ⟨⟨_, kept⟩, hmem', rfl⟩ := List.mem_map.1 hkept
  refine BlockKind.form?_of_mem_attributes hmem (h _ ?_)
  rw [Json.Members.mem_toList_iff.1 hmem']
  exact Option.some_ne_none kept

theorem Block.KeepsUnknown.attributeOf_members (h : block.KeepsUnknown) (name : String) :
    attributeOf block.members name =
      (block.kind.attributes.lookup name).or (block.extra.get? name) := by
  have hget : block.members.get? "attributes" =
      some (.ofMembers (block.kind.attributes ++ block.extra.toList)) := by
    rw [Block.members, Json.Members.get?_ofList (by simp)]
    rfl
  rw [attributeOf, hget, Value.ofMembers]
  dsimp only
  rw [Json.Members.get?_ofList h.nodup, List.lookup_append]
  rfl

theorem Block.KeepsUnknown.get?_extra_eq_none (h : block.KeepsUnknown) {name : String}
    (hknown : block.kind.form? name ≠ none) : block.extra.get? name = none :=
  by_contra fun hkept => hknown (h name hkept)

/-- The fields of a kind are given by the attributes that they are written as. -/
theorem Block.KeepsUnknown.kindGiven (h : block.KeepsUnknown) :
    KindGiven (attributeOf block.members) (attributeOf block.members "children") block.kind.tag
      block.kind := by
  have hsent := h.attributeOf_members
  have hunsent (name : String) (hknown : block.kind.form? name ≠ none) :
      block.extra.get? name = none := h.get?_extra_eq_none hknown
  cases hkind : block.kind with
  | start => exact .start
  | loop condition child =>
    simp only [hkind, BlockKind.attributes] at hsent
    refine .loop ?_ ?_
    · rw [hsent]; exact .value (.text condition)
    · rw [hsent]; exact given_linkValue child
  | conditional condition ifTrue ifFalse =>
    simp only [hkind, BlockKind.attributes] at hsent
    refine .conditional ?_ ?_
    · rw [hsent]; exact .value (.text condition)
    · rw [hsent]; exact armsGiven_armMembers ifTrue ifFalse
  | read name pin =>
    simp only [hkind, BlockKind.attributes] at hsent hunsent
    -- the shorter attribute for the name is not used, and not kept either
    have hshort : attributeOf block.members "var" = none := by
      rw [hsent, hunsent "var" (by simp [BlockKind.form?])]
      rfl
    refine .read (.inl rfl) (.long ?_ ?_ ?_) ?_
    · rw [hsent]; exact Option.some_ne_none _
    · rw [hsent]; exact .value (.text name)
    · rw [hshort]; exact ⟨"", .absent⟩
    · rw [hsent]; exact .value (denotes_natural pin)
  | write pin level =>
    simp only [hkind, BlockKind.attributes] at hsent
    refine .write (.inl rfl) ?_ ?_
    · rw [hsent]; exact .value (denotes_natural pin)
    · rw [hsent]; exact .value (denotesLevel_word level)
  | sleep length =>
    simp only [hkind, BlockKind.attributes] at hsent
    refine .sleep ?_
    rw [hsent]; exact .value (.number length)
  | code text =>
    simp only [hkind, BlockKind.attributes] at hsent
    refine .code ?_
    rw [hsent]; exact .value (.text text)
  | declare name =>
    simp only [hkind, BlockKind.attributes] at hsent
    refine .declare ?_
    rw [hsent]; exact .value (.text name)

theorem Block.KeepsUnknown.describes (h : block.KeepsUnknown) : Describes block.members block := by
  have hget : ∀ name, block.members.get? name =
      List.lookup name [("type", Value.string block.kind.tag), ("next", linkValue block.next),
        ("attributes", .ofMembers (block.kind.attributes ++ block.extra.toList))] :=
    Json.Members.get?_ofList (by simp)
  refine {
    next := ⟨linkValue block.next, hget "next", given_linkValue block.next⟩
    attributes := fun value hvalue => .inr ?attributes
    kind := ⟨block.kind.tag, hget "type", h.kindGiven⟩
    extra := ?extra }
  case attributes =>
    cases (hget "attributes").symm.trans hvalue
    exact ⟨_, rfl⟩
  case extra =>
    intro name
    split
    · rename_i hunknown
      rw [h.attributeOf_members, BlockKind.lookup_attributes_eq_none hunknown, Option.none_or]
    · rename_i hknown
      exact h.get?_extra_eq_none hknown

end Description

/-! ## What the document says -/

section Document

variable {graph : Graph}

theorem idText_injective {id id' : BlockId} (h : idText id = idText id') : id = id' := by
  have hnumeral : Numeral (idText id) id'.toNat := h ▸ numeral_decimal id'.toNat
  exact (numeral_decimal id.toNat).id_eq hnumeral

theorem Graph.hasMember_document_iff {key : String} {value : Value} :
    HasMember graph.document key value ↔
      ∃ block ∈ graph.blocks, key = idText block.id ∧ value = .object block.members := by
  have hblocks : blockObject graph.document = .ok (.ofList (graph.blocks.map fun block =>
      (idText block.id, .object block.members))) :=
    blockObject_eq_ok_iff.2 ⟨_, rfl, Json.Members.get?_ofList (by simp) "blocks"⟩
  have hnodup : ((graph.blocks.map fun block =>
      (idText block.id, Value.object block.members)).map Prod.fst).Nodup := by
    have hkeys : (graph.ids.map idText).Nodup := graph.nodup_ids.map fun _ _ h => idText_injective h
    rw [Graph.ids, List.map_map] at hkeys
    rwa [List.map_map]
  rw [hasMember_iff hblocks, Json.Members.get?_ofList hnodup,
    Json.lookup_eq_some_iff_of_nodup hnodup, List.mem_map]
  simp only [Prod.mk.injEq, eq_comm]

/-- The document of a graph describes the blocks of that graph. -/
theorem Graph.outlines_document (h : ∀ block ∈ graph.blocks, block.KeepsUnknown) :
    Outlines graph.document graph := by
  refine {
    table := ⟨_, _, rfl, Json.Members.get?_ofList (by simp) "blocks"⟩
    kept := ?kept, invented := ?invented, merged := ?merged }
  case kept =>
    intro key value hmember
    obtain ⟨block, hblock, rfl, rfl⟩ := hasMember_document_iff.1 hmember
    exact ⟨block, hblock, numeral_decimal _, _, rfl, (h block hblock).describes⟩
  case invented =>
    intro block hblock
    exact ⟨_, _, hasMember_document_iff.2 ⟨block, hblock, rfl, rfl⟩, numeral_decimal _,
      (h block hblock).describes⟩
  case merged =>
    intro key key' value value' n hmember hmember' hkey hkey'
    obtain ⟨block, -, rfl, -⟩ := hasMember_document_iff.1 hmember
    obtain ⟨block', -, rfl, -⟩ := hasMember_document_iff.1 hmember'
    have hid : block.id.toNat = block'.id.toNat :=
      ((numeral_decimal _).unique hkey).trans ((numeral_decimal _).unique hkey').symm
    rw [UInt32.toNat_inj.1 hid]

end Document

/-! ## References into the void -/

/-- Whether a violation is about a reference into the void. -/
def Violation.isDangling (violation : Violation) : Bool :=
  match violation.defect with
  | .dangling .. => true
  | _ => false

theorem check_of_isDangling {v : Violation} (h : v.isDangling = true) : v.defect.check = 1 := by
  unfold Violation.isDangling at h
  split at h
  · rename_i heq
    rw [heq]
    rfl
  · cases h

/-- The first of these violations is about the first of these references. -/
theorem find?_isDangling (graph : Graph) :
    graph.violations.find? Violation.isDangling =
      (graph.edges.find? fun edge => !graph.contains edge.target).map fun edge =>
        .at edge.source (.dangling edge.slot edge.target) := by
  have hnone (violations : List Violation) {n : Nat} (hn : n ≠ 1)
      (hcheck : ∀ v ∈ violations, v.defect.check = n) :
      violations.find? Violation.isDangling = none :=
    List.find?_eq_none.2 fun v hv hdangling =>
      hn ((hcheck v hv).symm.trans (check_of_isDangling hdangling))
  have hreferences : graph.referenceViolations.find? Violation.isDangling =
      (graph.edges.find? fun edge => !graph.contains edge.target).map fun edge =>
        .at edge.source (.dangling edge.slot edge.target) := by
    rw [Graph.referenceViolations]
    induction graph.edges with
    | nil => rfl
    | cons edge rest ih =>
      rw [List.find?_cons, Graph.contains, List.filterMap_cons]
      cases hget : graph.get? edge.target with
      | none => rfl
      | some found =>
        -- a reference to a block may be reported too, but not as one into the void
        dsimp only
        split
        · rename_i hnone
          exact ih
        · rename_i v hv
          split at hv <;> cases hv
          exact ih
  rw [Graph.violations, List.find?_append, List.find?_append, List.find?_append, List.find?_append,
    hnone _ (by decide) fun _ => Graph.check_of_mem_startViolations, Option.none_or, hreferences,
    hnone _ (by decide) fun _ => Graph.check_of_mem_armViolations, Option.or_none,
    hnone _ (by decide) fun _ => Graph.check_of_mem_attributeViolations, Option.or_none,
    hnone _ (by decide) fun _ => Graph.check_of_mem_cycleViolations, Option.or_none]

/-- **Saving and loading.** The last pass of loading and the validation of references agree on every
graph: it is passed if there is no violation about a reference into the void, and refused for the
first one otherwise. A graph written as a document has to get through this pass and no other, and
comes back as it was. -/
theorem Graph.ofDocument_document (graph : Graph) :
    (graph.violations.find? Violation.isDangling = none → resolved graph = .ok graph) ∧
      (∀ v, graph.violations.find? Violation.isDangling = some v → ∃ edge : Edge,
        v = .at edge.source (.dangling edge.slot edge.target) ∧
          resolved graph = .error (.dangling edge.source edge.slot edge.target)) ∧
      ((∀ block ∈ graph.blocks, block.KeepsUnknown) →
        ofDocument graph.document = resolved graph) := by
  rw [find?_isDangling, resolved]
  refine ⟨fun hnone => ?_, fun v hv => ?_, fun hkeeps => (outlines_document hkeeps).ofDocument_eq⟩
  · rw [Option.map_eq_none_iff.1 hnone]
  · obtain ⟨edge, hedge, rfl⟩ := Option.map_eq_some_iff.1 hv
    exact ⟨edge, rfl, by rw [hedge]⟩

/-- A conditional with an arm of each sort but one that leads somewhere, and a color that it has no
use for. -/
def signalGraph : Graph :=
  .ofList [⟨0, some 9, .start, .nil⟩,
    ⟨9, some 10, .conditional "x" .missing .empty, .ofList [("color", .string "red")]⟩,
    ⟨10, none, .read "x" 4, .nil⟩]

/-- The same with two references into the void in the first of its bodies. -/
def brokenGraph : Graph :=
  signalGraph.insert ⟨9, some 11, .loop "x" (some 12), .ofList [("color", .string "red")]⟩

theorem keepsUnknown_color {id : BlockId} {next : Option BlockId} {kind : BlockKind}
    (h : kind.form? "color" = none) :
    Block.KeepsUnknown ⟨id, next, kind, .ofList [("color", .string "red")]⟩ := by
  intro name hname
  rw [Json.Members.get?_ofList (by simp)] at hname
  by_cases heq : name = "color"
  · rwa [heq]
  · exact absurd (by simp [List.lookup_cons, beq_eq_false_iff_ne.2 heq]) hname

theorem keepsUnknown_nil {id : BlockId} {next : Option BlockId} {kind : BlockKind} :
    Block.KeepsUnknown ⟨id, next, kind, .nil⟩ :=
  fun _ hname => absurd rfl hname

theorem ofDocument_document_signalGraph :
    Graph.ofDocument signalGraph.document = .ok signalGraph ∧
      Graph.ofDocument brokenGraph.document = .error (.dangling 9 .next 11) := by
  have hsignal : ∀ block ∈ signalGraph.blocks, block.KeepsUnknown := by
    change ∀ block ∈ [_, _, _], _
    simp only [List.forall_mem_cons]
    exact ⟨keepsUnknown_nil, keepsUnknown_color rfl, keepsUnknown_nil, List.forall_mem_nil _⟩
  have hbroken : ∀ block ∈ brokenGraph.blocks, block.KeepsUnknown := by
    change ∀ block ∈ [_, _, _], _
    simp only [List.forall_mem_cons]
    exact ⟨keepsUnknown_nil, keepsUnknown_color rfl, keepsUnknown_nil, List.forall_mem_nil _⟩
  constructor
  · obtain ⟨hpass, -, hload⟩ := signalGraph.ofDocument_document
    rw [hload hsignal, hpass (by decide)]
  · obtain ⟨-, hrefuse, hload⟩ := brokenGraph.ofDocument_document
    obtain ⟨edge, hedge, herror⟩ := hrefuse (.at 9 (.dangling .next 11)) (by decide)
    cases edge
    cases hedge
    rw [hload hbroken, herror]
    rfl

end BlockDiagram
