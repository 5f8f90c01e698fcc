/-
Keys that a text has twice.

A text may describe a block more than once. It does so in one of two ways: the keys of two members
of its block object may be spelled differently and denote one id, or a key may be spelled the same
way again. Loading refuses the first. It never hears of the second, because the object that the text
denotes has one member for a name, and of several in the text this is the last.

A loaded graph has therefore one block for every different key of the text, and there are as many
blocks as descriptions only where no key comes twice.
-/
import BlockDiagram.Proofs.Document.Depiction
import BlockDiagram.Proofs.Graph.Building

set_option autoImplicit false

namespace BlockDiagram

open Json (Value Written)

/-! ## What is found in a text -/

namespace Json

theorem memberValues_eq_map (entries : List (String × Written)) :
    memberValues entries = entries.map fun entry => (entry.1, entry.2.value) := by
  induction entries with
  | nil => rfl
  | cons entry entries ih => rw [memberValues, List.map_cons, ih]

/-- The object that a text denotes has the different names of its members. -/
theorem names_ofList_memberValues_perm (entries : List (String × Written)) :
    ((Members.ofList (memberValues entries)).toList.map Prod.fst).Perm
      (entries.map Prod.fst).dedup := by
  have hnames : (memberValues entries).map Prod.fst = entries.map Prod.fst := by
    rw [memberValues_eq_map, List.map_map]
    rfl
  rw [← hnames]
  exact Members.map_fst_ofList_perm (memberValues entries)

/-- In the object that a text denotes the last member of a name is found. -/
theorem get?_ofList_memberValues (entries : List (String × Written)) (name : String) :
    (Members.ofList (memberValues entries)).get? name =
      (entries.reverse.lookup name).map Written.value := by
  rw [Members.get?_ofList_eq_lookup_reverse, memberValues_eq_map, ← List.map_reverse]
  induction entries.reverse with
  | nil => rfl
  | cons entry entries ih =>
    rw [List.map_cons, List.lookup_cons, List.lookup_cons, ih]
    cases name == entry.1 <;> rfl

/-- Members of other names do not matter for what is found. -/
theorem lookup_filter (members : List (String × Written)) (name : String) :
    (members.filter fun member => name == member.1).lookup name = members.lookup name := by
  induction members with
  | nil => rfl
  | cons member members ih =>
    rw [List.filter_cons]
    cases hname : name == member.1 with
    | false => rw [List.lookup_cons, hname, ← ih]; rfl
    | true => rw [if_pos rfl, List.lookup_cons, List.lookup_cons, hname]

end Json

/-- Whether a text is an object with one block object, and that one is written with these
members. -/
def WritesBlocks (text : String) (entries : List (String × Written)) : Prop :=
  ∃ members, Written.read? text = some (.object members) ∧
    members.filter (fun member => "blocks" == member.1) = [("blocks", .object entries)]

section WritesBlocks

variable {text : String} {entries : List (String × Written)} {document : Value} {graph : Graph}
  {blocks : Json.Object}

/-- The block object of such a text is the object of these members. -/
theorem WritesBlocks.exists_document (h : WritesBlocks text entries) :
    ∃ document, Value.read? text = some document ∧
      blockObject document = .ok (Json.Members.ofList (Json.memberValues entries)) := by
  obtain ⟨members, hread, hfilter⟩ := h
  -- the only member of the name is also the last one
  have hlookup : members.reverse.lookup "blocks" = some (.object entries) := by
    rw [← Json.lookup_filter, List.filter_reverse, hfilter]
    rfl
  refine ⟨_, by rw [Value.read?, hread]; rfl, blockObject_eq_ok_iff.2 ⟨_, rfl, ?_⟩⟩
  rw [Json.get?_ofList_memberValues, hlookup]
  rfl

/-! ## Keys and ids -/

/-- The keys of a block object denote the ids of the graph that the document depicts, one by
one. -/
theorem Depicts.keys_perm_ids (h : Depicts document graph)
    (hblocks : blockObject document = .ok blocks) :
    ((blocks.toList.map Prod.fst).map blockId?).Perm (graph.ids.map some) := by
  have hmember {key : String} : key ∈ blocks.toList.map Prod.fst ↔
      ∃ value, HasMember document key value := by
    simp only [hasMember_iff hblocks, ← Json.Members.mem_toList_iff, List.mem_map, Prod.exists,
      exists_and_right, exists_eq_right]
  have hkept {key : String} {value : Value} (hkey : HasMember document key value) :
      ∃ block ∈ graph.blocks, blockId? key = some block.id := by
    obtain ⟨block, hblock, hnumeral, -⟩ := h.kept key value hkey
    exact ⟨block, hblock, blockId?_eq_some_iff.2 hnumeral⟩
  -- neither list has a member twice: no two keys are merged, and no id has two blocks
  have hkeys : ((blocks.toList.map Prod.fst).map blockId?).Nodup := by
    apply (Json.nodup_of_ascending blocks.toList_ascending).map_on
    intro key hkey key' hkey' hid
    obtain ⟨value, hkey⟩ := hmember.1 hkey
    obtain ⟨value', hkey'⟩ := hmember.1 hkey'
    obtain ⟨block, -, hblock⟩ := hkept hkey
    exact h.merged key key' value value' block.id.toNat hkey hkey'
      (blockId?_eq_some_iff.1 hblock) (blockId?_eq_some_iff.1 (hid.symm.trans hblock))
  rw [List.perm_ext_iff_of_nodup hkeys (graph.nodup_ids.map (Option.some_injective _))]
  intro id?
  constructor
  · -- no member is lost
    intro hid
    obtain ⟨key, hkey, rfl⟩ := List.mem_map.1 hid
    obtain ⟨value, hkey⟩ := hmember.1 hkey
    obtain ⟨block, hblock, hid⟩ := hkept hkey
    rw [hid]
    exact List.mem_map_of_mem (List.mem_map_of_mem hblock)
  · -- no block is invented
    intro hid
    obtain ⟨id, hmem, rfl⟩ := List.mem_map.1 hid
    obtain ⟨block, hblock, rfl⟩ := List.mem_map.1 hmem
    obtain ⟨key, members, hkey, hnumeral, -⟩ := h.invented block hblock
    rw [← blockId?_eq_some_iff.2 hnumeral]
    exact List.mem_map_of_mem (hmember.2 ⟨_, hkey⟩)

theorem Depicts.size_eq (h : Depicts document graph)
    (hblocks : blockObject document = .ok blocks) : graph.size = blocks.toList.length := by
  have hlength := (h.keys_perm_ids hblocks).length_eq
  simp only [List.length_map, Graph.ids] at hlength
  exact hlength.symm

/-- A loaded graph has one block for every different key. -/
theorem WritesBlocks.size_eq (h : WritesBlocks text entries)
    (hload : Graph.ofText text = .ok graph) :
    graph.size = (entries.map Prod.fst).dedup.length := by
  obtain ⟨document, hread, hblocks⟩ := h.exists_document
  rw [Graph.ofText, hread] at hload
  rw [(depicts_of_ofDocument hload).size_eq hblocks,
    ← (Json.names_ofList_memberValues_perm entries).length_eq, List.length_map]

/-- Of several members with one key the last describes the block. -/
theorem WritesBlocks.exists_block (h : WritesBlocks text entries)
    (hload : Graph.ofText text = .ok graph) {key : String} {last : Written}
    (hlast : entries.reverse.lookup key = some last) :
    ∃ block ∈ graph.blocks, Numeral key block.id.toNat ∧
      ∃ members, last.value = .object members ∧ Describes members block := by
  obtain ⟨document, hread, hblocks⟩ := h.exists_document
  rw [Graph.ofText, hread] at hload
  apply (depicts_of_ofDocument hload).kept
  rw [hasMember_iff hblocks, Json.get?_ofList_memberValues, hlast]
  rfl

/-- No two different keys of a loaded text denote one number. -/
theorem WritesBlocks.key_unique (h : WritesBlocks text entries)
    (hload : Graph.ofText text = .ok graph) {key key' : String} (hkey : key ∈ entries.map Prod.fst)
    (hkey' : key' ∈ entries.map Prod.fst) {n : Nat} (hn : Numeral key n) (hn' : Numeral key' n) :
    key = key' := by
  obtain ⟨document, hread, hblocks⟩ := h.exists_document
  rw [Graph.ofText, hread] at hload
  have hmember {key : String} (hkey : key ∈ entries.map Prod.fst) :
      ∃ value, HasMember document key value := by
    have hname := (Json.names_ofList_memberValues_perm entries).mem_iff.2 (List.mem_dedup.2 hkey)
    obtain ⟨⟨_, value⟩, hmem, rfl⟩ := List.mem_map.1 hname
    exact ⟨value, (hasMember_iff hblocks).2 (Json.Members.mem_toList_iff.1 hmem)⟩
  obtain ⟨value, hkey⟩ := hmember hkey
  obtain ⟨value', hkey'⟩ := hmember hkey'
  exact (depicts_of_ofDocument hload).merged key key' value value' n hkey hkey' hn hn'

/-- **Repetition.** Let a text have one block object. If it can be loaded, the graph has one block
for every different key that is written in it, described by the last member with the key, so there
are as many blocks as members exactly if no key is written twice. If two different keys denote one
number, it cannot be loaded. -/
theorem Graph.size_of_ofText (h : WritesBlocks text entries) :
    (∀ graph, Graph.ofText text = .ok graph →
      graph.size = (entries.map Prod.fst).dedup.length ∧
        (graph.size = entries.length ↔ (entries.map Prod.fst).Nodup) ∧
        ∀ key last, entries.reverse.lookup key = some last →
          ∃ block ∈ graph.blocks, Numeral key block.id.toNat ∧
            ∃ members, last.value = .object members ∧ Describes members block) ∧
      ∀ key ∈ entries.map Prod.fst, ∀ key' ∈ entries.map Prod.fst, key ≠ key' →
        ∀ n, Numeral key n → Numeral key' n → ∃ e, Graph.ofText text = .error e := by
  constructor
  · intro graph hload
    have hsize := h.size_eq hload
    refine ⟨hsize, ?_, fun key last hlast => h.exists_block hload hlast⟩
    have hlength : entries.length = (entries.map Prod.fst).length := by
      rw [List.length_map]
    rw [hsize, hlength]
    constructor
    · -- a part of a list that is as long as the list is all of it
      intro hsame
      exact List.dedup_eq_self.1 ((List.dedup_sublist _).eq_of_length hsame)
    · intro hnodup
      rw [hnodup.dedup]
  · intro key hkey key' hkey' hne n hn hn'
    cases hload : Graph.ofText text with
    | error e => exact ⟨e, rfl⟩
    | ok graph => exact absurd (h.key_unique hload hkey hkey' hn hn') hne

end WritesBlocks

/-- A text that describes a start block and a sleep. -/
def startAndSleep (first second : String) : String :=
  "\x7b\"blocks\":\x7b\"" ++ first ++ "\":\x7b\"type\":\"start\",\"next\":null\x7d,\"" ++
    second ++ "\":\x7b\"type\":\"sleep\",\"next\":null\x7d\x7d\x7d"

/-- The members of its block object. -/
def startAndSleepEntries (first second : String) : List (String × Written) :=
  [(first, .object [("type", .string "start"), ("next", .null)]),
    (second, .object [("type", .string "sleep"), ("next", .null)])]

/-- As long as the keys do not break the tokens, this is what is written in it. -/
theorem read?_startAndSleep (first second : String)
    (h : Json.tokens (startAndSleep first second) = some
      [.openBrace, .string "blocks", .colon, .openBrace,
        .string first, .colon, .openBrace, .string "type", .colon, .string "start", .comma,
        .string "next", .colon, .null, .closeBrace, .comma,
        .string second, .colon, .openBrace, .string "type", .colon, .string "sleep", .comma,
        .string "next", .colon, .null, .closeBrace, .closeBrace, .closeBrace]) :
    Written.read? (startAndSleep first second) =
      some (.object [("blocks", .object (startAndSleepEntries first second))]) := by
  rw [Written.read?, h]
  rfl

theorem writesBlocks_startAndSleep {first second : String}
    (h : Written.read? (startAndSleep first second) =
      some (.object [("blocks", .object (startAndSleepEntries first second))])) :
    WritesBlocks (startAndSleep first second) (startAndSleepEntries first second) :=
  ⟨_, h, rfl⟩

theorem ofText_startAndSleep {first second : String}
    (h : Written.read? (startAndSleep first second) =
      some (.object [("blocks", .object (startAndSleepEntries first second))])) :
    Graph.ofText (startAndSleep first second) = Graph.ofDocument (.ofMembers
      [("blocks", .ofMembers (Json.memberValues (startAndSleepEntries first second)))]) := by
  rw [Graph.ofText, Value.read?, h]
  rfl

/-- Different ids make two blocks, and two spellings of one id are refused. -/
theorem size_of_ofText_startAndSleep :
    (WritesBlocks (startAndSleep "1" "2") (startAndSleepEntries "1" "2") ∧
        ∃ graph, Graph.ofText (startAndSleep "1" "2") = .ok graph ∧ graph.size = 2) ∧
      WritesBlocks (startAndSleep "1" "01") (startAndSleepEntries "1" "01") ∧
        ∃ e, Graph.ofText (startAndSleep "1" "01") = .error e := by
  have hapart := read?_startAndSleep "1" "2" (by decide +kernel)
  have hsame := read?_startAndSleep "1" "01" (by decide +kernel)
  have hload : Graph.ofText (startAndSleep "1" "2") =
      .ok (.ofList [⟨1, none, .start, .nil⟩, ⟨2, none, .sleep 0, .nil⟩]) := by
    rw [ofText_startAndSleep hapart]
    rfl
  have hwrites := writesBlocks_startAndSleep hapart
  have hwrites' := writesBlocks_startAndSleep hsame
  refine ⟨⟨hwrites, _, hload, ((Graph.size_of_ofText hwrites).1 _ hload).1⟩, hwrites', ?_⟩
  exact (Graph.size_of_ofText hwrites').2 "1" (by decide) "01" (by decide) (by decide) 1
    (numeral?_eq_some_iff.1 (by decide)) (numeral?_eq_some_iff.1 (by decide))

/-- Where one spelling is written twice, both members denote the id, and one block is left. -/
theorem repeated_key_accepted :
    WritesBlocks (startAndSleep "1" "1") (startAndSleepEntries "1" "1") ∧
      (∀ entry ∈ startAndSleepEntries "1" "1", Numeral entry.1 1) ∧
        ∃ graph, Graph.ofText (startAndSleep "1" "1") = .ok graph ∧
          graph.size ≠ (startAndSleepEntries "1" "1").length := by
  have hread := read?_startAndSleep "1" "1" (by decide +kernel)
  have hload : Graph.ofText (startAndSleep "1" "1") =
      .ok (.ofList [⟨1, none, .sleep 0, .nil⟩]) := by
    rw [ofText_startAndSleep hread]
    rfl
  have hnumeral : Numeral "1" 1 := numeral?_eq_some_iff.1 (by decide)
  refine ⟨writesBlocks_startAndSleep hread, ?_, _, hload, by decide⟩
  simp [startAndSleepEntries, hnumeral]

end BlockDiagram
