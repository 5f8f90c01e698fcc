/-
Compact texts are told apart.

A JSON text without blanks can be cut up in one way only. A string literal ends at its first quote
that no backslash stands before, a numeral at the first character that is no digit, a row at what
closes it, and the first character of a text says what kind of text it is. So a text determines what
it was written from, as long as no double is written in it. Whether the text of a double tells which
double it was is left open here.

What is written is taken with its members in the order of writing, since not everything that is
written has them in the order of their names.
-/
import BlockDiagram.Graph.Text
import BlockDiagram.Json.Written
import BlockDiagram.Proofs.Json.Members
import BlockDiagram.Proofs.Text.Segments

set_option autoImplicit false

namespace BlockDiagram.Json

/-! ## Strings -/

/-- A control character is read back from its two digits. -/
theorem scanString_hexPair {c : Char} (h : c.toNat < 0x20) (read rest : List Char) :
    scanString read (("\\u00" ++ hexPair c.toNat).toList ++ rest) =
      scanString (c :: read) rest := by
  have hdigits : ∀ n < 0x20,
      hexUnit? '0' '0' (Nat.digitChar (n / 16)) (Nat.digitChar (n % 16)) = some n := by
    decide
  have hlead : isLeadingUnit c.toNat = false := by simp [isLeadingUnit]; omega
  have htrail : isTrailingUnit c.toNat = false := by simp [isTrailingUnit]; omega
  have hescape : ("\\u00" ++ hexPair c.toNat).toList =
      ['\\', 'u', '0', '0', Nat.digitChar (c.toNat / 16), Nat.digitChar (c.toNat % 16)] := by
    simp [hexPair]
  rw [hescape]
  simp only [List.cons_append, List.nil_append, scanString, hdigits _ h, hlead, htrail,
    Bool.false_eq_true, if_false, Char.ofNat_toNat]

/-- Every character is read back from its escape. -/
theorem scanString_escapeChar (c : Char) (read rest : List Char) :
    scanString read ((escapeChar c).toList ++ rest) = scanString (c :: read) rest := by
  unfold escapeChar
  split
  all_goals try rfl
  -- what is left is a character that has no escape of its own
  have hquote : c ≠ '"' := by assumption
  have hbackslash : c ≠ '\\' := by assumption
  split
  case isTrue hcontrol => exact scanString_hexPair hcontrol read rest
  case isFalse hplain =>
    have hbare : (decide (c.toNat < 0x20) || decide (c = '\\')) = false := by
      simpa using ⟨Nat.le_of_not_lt hplain, hbackslash⟩
    rw [Char.toString_eq_singleton, String.toList_singleton, List.singleton_append, scanString]
    · simp [hbare]
    · exact hquote
    · exact fun a b c d tail hc _ => hbackslash hc
    · exact fun c tail hc _ => hbackslash hc

/-- The characters of a literal are read back up to its closing quote. -/
theorem scanString_map_escapeChar (cs read rest : List Char) :
    scanString read ((String.join (cs.map escapeChar)).toList ++ '"' :: rest) =
      some (String.ofList (read.reverse ++ cs), rest) := by
  induction cs generalizing read with
  | nil => simp [scanString]
  | cons c cs ih =>
    rw [List.map_cons, String.join_cons, String.toList_append, List.append_assoc,
      scanString_escapeChar, ih, List.reverse_cons, List.append_assoc, List.singleton_append]

/-- A string is read back from its literal, whatever stands behind. -/
theorem first?_stringText (s : String) (rest : List Char) :
    Token.first? ((stringText s).toList ++ rest) = some (.string s, rest) := by
  have htext : (stringText s).toList ++ rest =
      '"' :: ((String.join (s.toList.map escapeChar)).toList ++ '"' :: rest) := by
    simp [stringText]
  rw [htext, Token.first?, scanString_map_escapeChar]
  simp

theorem toldBy_stringText (s t : String) : ToldBy stringText s t := by
  intro rest rest' _ _ h
  have hread := first?_stringText s rest
  rw [h, first?_stringText] at hread
  cases hread
  exact ⟨rfl, rfl⟩

/-! ## Numbers -/

/-- Whether a number is an integer. -/
inductive Number.Exact : Number → Prop
  | natural (n : UInt64) : Exact (.natural n)
  | negative (n : Fin (Nat.pow 2 63)) : Exact (.negative n)

theorem Number.Exact.toldBy_text {m n : Number} (hm : m.Exact) (hn : n.Exact) :
    ToldBy Number.text m n := by
  -- no numeral begins with a sign
  have hsign (k : Nat) (cs rest : List Char) : (decimal k).toList ++ rest ≠ '-' :: cs := by
    obtain ⟨c, digits, hdigits, hdigit⟩ := exists_decimal_eq k
    rw [hdigits]
    rintro ⟨⟩
    cases hdigit
  intro rest rest' hrest hrest' h
  cases hm with
  | natural m =>
    cases hn with
    | natural n =>
      obtain ⟨hsame, hbehind⟩ := decimal_append_inj h hrest hrest'
      exact ⟨by rw [UInt64.toNat_inj.1 hsame], hbehind⟩
    | negative n =>
      simp only [Number.text, String.toList_append, List.append_assoc] at h
      exact absurd h (hsign _ _ _)
  | negative m =>
    cases hn with
    | natural n =>
      simp only [Number.text, String.toList_append, List.append_assoc] at h
      exact absurd h.symm (hsign _ _ _)
    | negative n =>
      simp only [Number.text, String.toList_append, List.append_assoc,
        List.append_cancel_left_eq] at h
      obtain ⟨hsame, hbehind⟩ := decimal_append_inj h hrest hrest'
      exact ⟨by rw [Fin.ext (Nat.succ.inj hsame)], hbehind⟩

/-! ## What is written -/

mutual

/-- The text of what is written, its members in the order of writing. -/
def Written.text : Written → String
  | .null => "null"
  | .bool true => "true"
  | .bool false => "false"
  | .number n => n.text
  | .string s => stringText s
  | .array items => "[" ++ ",".intercalate (itemTexts items) ++ "]"
  | .object members => objectText (memberTexts members)

/-- The texts of items. -/
def itemTexts : List Written → List String
  | [] => []
  | item :: items => item.text :: itemTexts items

/-- The names and texts of members. -/
def memberTexts : List (String × Written) → List (String × String)
  | [] => []
  | (name, written) :: members => (name, written.text) :: memberTexts members

end

theorem itemTexts_eq_map (items : List Written) : itemTexts items = items.map Written.text := by
  induction items with
  | nil => rfl
  | cons item items ih => rw [itemTexts, List.map_cons, ih]

theorem memberTexts_eq_map (members : List (String × Written)) :
    memberTexts members = members.map fun member => (member.1, member.2.text) := by
  induction members with
  | nil => rfl
  | cons member members ih => rw [memberTexts, List.map_cons, ih]

/-- Whether all numbers in what is written are integers. -/
inductive Written.Exact : Written → Prop
  | null : Exact .null
  | bool (b : Bool) : Exact (.bool b)
  | number {n : Number} (h : n.Exact) : Exact (.number n)
  | string (s : String) : Exact (.string s)
  | array {items : List Written} (h : ∀ item ∈ items, item.Exact) : Exact (.array items)
  | object {members : List (String × Written)} (h : ∀ member ∈ members, member.2.Exact) :
    Exact (.object members)

/-- What the first character of a text says: those that a text of one kind may begin with all say
the same. -/
def leadOf (c : Char) : Char :=
  if c.isDigit || c == '-' then '0' else if c == 'f' then 't' else c

/-- What the first character says of the texts of a kind. -/
def Written.lead : Written → Char
  | .null => 'n'
  | .bool _ => 't'
  | .number _ => '0'
  | .string _ => '"'
  | .array _ => '['
  | .object _ => '\x7b'

namespace Written

variable {a b w : Written}

/-- The first character says what kind of text it is. -/
theorem Exact.lead_eq (hw : w.Exact) : ∃ c cs, w.text.toList = c :: cs ∧ leadOf c = w.lead := by
  have hfront (front middle close : String) {c : Char} (h : front.toList = [c]) :
      (front ++ middle ++ close).toList = c :: (middle ++ close).toList := by
    rw [String.append_assoc, String.toList_append, h, List.singleton_append]
  cases hw with
  | null => exact ⟨_, _, rfl, rfl⟩
  | bool b => cases b <;> exact ⟨_, _, rfl, rfl⟩
  | number hn =>
    cases hn with
    | natural n =>
      obtain ⟨c, cs, hdigits, hdigit⟩ := exists_decimal_eq n.toNat
      exact ⟨c, cs, hdigits, by simp [leadOf, hdigit, lead]⟩
    | negative n => exact ⟨_, _, String.toList_append, rfl⟩
  | string s => exact ⟨_, _, hfront _ _ _ rfl, rfl⟩
  | array items => exact ⟨_, _, hfront _ _ _ rfl, rfl⟩
  | object members => exact ⟨_, _, hfront _ _ _ rfl, rfl⟩

theorem Exact.beginsApart (hw : w.Exact) : BeginsApart ']' w.text := by
  obtain ⟨c, cs, hc, hlead⟩ := hw.lead_eq
  refine ⟨c, cs, hc, ?_⟩
  rintro rfl
  cases hw <;> cases hlead

/-- Texts of different kinds are told by their first characters. -/
theorem toldBy_of_lead (ha : a.Exact) (hb : b.Exact) (h : a.lead = b.lead → ToldBy text a b) :
    ToldBy text a b := by
  intro rest rest' hrest hrest' heq
  obtain ⟨c, cs, hc, hlead⟩ := ha.lead_eq
  obtain ⟨d, ds, hd, hlead'⟩ := hb.lead_eq
  have hfirst : c = d := by
    rw [hc, hd] at heq
    exact (List.cons.inj heq).1
  have hsame : a.lead = b.lead := by rw [← hlead, ← hlead', hfirst]
  exact h hsame rest rest' hrest hrest' heq

/-- An array is told by its text, as soon as its items are. -/
theorem toldBy_array {items items' : List Written} (hitems : ∀ item ∈ items, item.Exact)
    (hitems' : ∀ item ∈ items', item.Exact)
    (htold : ∀ item ∈ items, ∀ item' ∈ items', ToldBy text item item') :
    ToldBy text (.array items) (.array items') := by
  have hdivides : Divides "," ']' := ⟨rfl, ',', [], rfl, rfl, by decide⟩
  intro rest rest' _ _ h
  simp only [text, itemTexts_eq_map, String.toList_append, List.append_assoc,
    List.append_cancel_left_eq] at h
  obtain ⟨rfl, hbehind⟩ := intercalate_append_inj hdivides
    (fun item hitem => (hitems item hitem).beginsApart)
    (fun item hitem => (hitems' item hitem).beginsApart) htold h
  exact ⟨rfl, hbehind⟩

/-- The text of a member. -/
def memberText (member : String × Written) : String :=
  fieldText (member.1, member.2.text)

/-- The text of an object is that of its members with their values already in text form. -/
theorem text_object (members : List (String × Written)) :
    (Written.object members).text =
      objectText (members.map fun member => (member.1, member.2.text)) := by
  rw [text, memberTexts_eq_map]

theorem objectText_map_text (members : List (String × Written)) :
    objectText (members.map fun member => (member.1, member.2.text)) =
      "\x7b" ++ ",".intercalate (members.map memberText) ++ "\x7d" := by
  rw [objectText, List.map_map]
  rfl

/-- A member is told by its text, as soon as its value is. -/
theorem toldBy_memberText {member member' : String × Written}
    (htold : ToldBy text member.2 member'.2) : ToldBy memberText member member' := by
  obtain ⟨name, value⟩ := member
  obtain ⟨name', value'⟩ := member'
  intro rest rest' hrest hrest' h
  simp only [memberText, fieldText, String.toList_append, List.append_assoc] at h
  obtain ⟨rfl, hvalue⟩ := toldBy_stringText name name' _ _ (by simp) (by simp) h
  obtain ⟨rfl, hbehind⟩ := htold _ _ hrest hrest' (List.cons.inj hvalue).2
  exact ⟨rfl, hbehind⟩

/-- An object is told by its text, as soon as the values of its members are. -/
theorem toldBy_object {members members' : List (String × Written)}
    (htold : ∀ member ∈ members, ∀ member' ∈ members', ToldBy text member.2 member'.2) :
    ToldBy text (.object members) (.object members') := by
  have hdivides : Divides "," '\x7d' := ⟨rfl, ',', [], rfl, rfl, by decide⟩
  have hquote (member : String × Written) : BeginsApart '\x7d' (memberText member) := by
    refine ⟨'"', (String.join (member.1.toList.map escapeChar) ++ "\":" ++ member.2.text).toList,
      ?_, by decide⟩
    simp [memberText, fieldText, stringText]
  intro rest rest' _ _ h
  simp only [text_object, objectText_map_text, String.toList_append, List.append_assoc,
    List.append_cancel_left_eq] at h
  obtain ⟨rfl, hbehind⟩ := intercalate_append_inj hdivides (fun member _ => hquote member)
    (fun member _ => hquote member)
    (fun member hmember member' hmember' =>
      toldBy_memberText (htold member hmember member' hmember')) h
  exact ⟨rfl, hbehind⟩

/-- What is written is told by its text. -/
theorem Exact.toldBy_text (ha : a.Exact) (hb : b.Exact) : ToldBy text a b := by
  -- in each case the lead leaves one kind for the other text, and the contents are told by theirs
  induction ha generalizing b with
  | null =>
    apply toldBy_of_lead .null hb
    intro hlead
    cases hb with
    | null => exact fun _ _ _ _ h => ⟨rfl, List.append_cancel_left h⟩
    | _ => cases hlead
  | bool c =>
    apply toldBy_of_lead (.bool c) hb
    intro hlead
    cases hb with
    | bool d =>
      intro rest rest' _ _ h
      cases c <;> cases d
      case false.false | true.true => exact ⟨rfl, List.append_cancel_left h⟩
      all_goals exact absurd (List.cons.inj h).1 (by decide)
    | _ => cases hlead
  | number hn =>
    apply toldBy_of_lead (.number hn) hb
    intro hlead
    cases hb with
    | number hn' =>
      intro rest rest' hrest hrest' h
      obtain ⟨rfl, hbehind⟩ := hn.toldBy_text hn' _ _ hrest hrest' h
      exact ⟨rfl, hbehind⟩
    | _ => cases hlead
  | string s =>
    apply toldBy_of_lead (.string s) hb
    intro hlead
    cases hb with
    | string t =>
      intro rest rest' hrest hrest' h
      obtain ⟨rfl, hbehind⟩ := toldBy_stringText s t _ _ hrest hrest' h
      exact ⟨rfl, hbehind⟩
    | _ => cases hlead
  | array hitems ih =>
    apply toldBy_of_lead (.array hitems) hb
    intro hlead
    cases hb with
    | array hitems' =>
      exact toldBy_array hitems hitems' fun item hitem item' hitem' =>
        ih item hitem (hitems' item' hitem')
    | _ => cases hlead
  | object hmembers ih =>
    apply toldBy_of_lead (.object hmembers) hb
    intro hlead
    cases hb with
    | object hmembers' =>
      exact toldBy_object fun member hmember member' hmember' =>
        ih member hmember (hmembers' member' hmember')
    | _ => cases hlead

/-- What is written is determined by its text. -/
theorem Exact.eq_of_text (ha : a.Exact) (hb : b.Exact) (h : a.text = b.text) : a = b :=
  (ha.toldBy_text hb [] [] (by simp) (by simp) (by rw [h])).1

end Written

/-! ## Values -/

mutual

/-- A value as it is written. -/
def Value.written : Value → Written
  | .null => .null
  | .bool b => .bool b
  | .number n => .number n
  | .string s => .string s
  | .array items => .array (writtenItems items)
  | .object members => .object members.written

/-- Items as they are written. -/
def writtenItems : List Value → List Written
  | [] => []
  | item :: items => item.written :: writtenItems items

/-- Members as they are written, in ascending order of name. -/
def Members.written {bound : Option String} : Members bound → List (String × Written)
  | .nil => []
  | .cons name _ value rest => (name, value.written) :: rest.written

end

theorem writtenItems_eq_map (items : List Value) :
    writtenItems items = items.map Value.written := by
  induction items with
  | nil => rfl
  | cons item items ih => rw [writtenItems, List.map_cons, ih]

theorem Members.written_eq_map {bound : Option String} (members : Members bound) :
    members.written = members.toList.map fun member => (member.1, member.2.written) := by
  match members with
  | .nil => rfl
  | .cons name _ value rest => rw [written, toList, List.map_cons, rest.written_eq_map]

/-- An object is built again from its members. -/
theorem Members.ofList_toList (members : Object) : ofList members.toList = members := by
  apply eq_of_get?
  intro name
  rw [get?_ofList (nodup_of_ascending members.toList_ascending), get?]

mutual

/-- What is written of a value denotes it. -/
theorem Value.value_written : ∀ value : Value, value.written.value = value
  | .null | .bool _ | .number _ | .string _ => rfl
  | .array items => by rw [Value.written, Written.value, itemValues_writtenItems]
  | .object members => by
    rw [Value.written, Written.value, members.memberValues_written, Value.ofMembers,
      Members.ofList_toList]

theorem itemValues_writtenItems : ∀ items : List Value, itemValues (writtenItems items) = items
  | [] => rfl
  | item :: items => by
    rw [writtenItems, itemValues, item.value_written, itemValues_writtenItems items]

theorem Members.memberValues_written {bound : Option String} :
    ∀ members : Members bound, memberValues members.written = members.toList
  | .nil => rfl
  | .cons name _ value rest => by
    rw [Members.written, memberValues, value.value_written, rest.memberValues_written,
      Members.toList]

end

mutual

/-- The text of a value is the text of what is written of it. -/
theorem Value.text_written : ∀ value : Value, value.written.text = value.text
  | .null | .bool true | .bool false | .number _ | .string _ => rfl
  | .array [] => rfl
  | .array (item :: items) => by
    rw [Value.written, writtenItems, Written.text, itemTexts_eq_map, intercalate_cons,
      item.text_written, rowBehind_writtenItems items, Value.text]
    simp only [String.append_assoc]
  | .object .nil => rfl
  | .object (.cons name _ value rest) => by
    rw [Value.written, Members.written, Written.text_object, Written.objectText_map_text,
      intercalate_cons, rest.rowBehind_written, Written.memberText, fieldText, value.text_written,
      Value.text]
    simp only [String.append_assoc]

theorem rowBehind_writtenItems : ∀ items : List Value,
    rowBehind "," Written.text (writtenItems items) = moreItems items
  | [] => rfl
  | item :: items => by
    rw [writtenItems, rowBehind_cons, item.text_written, rowBehind_writtenItems items, moreItems]

theorem Members.rowBehind_written {bound : Option String} : ∀ members : Members bound,
    rowBehind "," Written.memberText members.written = members.moreMembers
  | .nil => rfl
  | .cons name _ value rest => by
    rw [Members.written, rowBehind_cons, rest.rowBehind_written, Members.moreMembers,
      Written.memberText, fieldText, value.text_written]
    simp only [String.append_assoc]

end

/-- Whether all numbers in a value, at whatever depth, are integers. -/
inductive Value.Exact : Value → Prop
  | null : Exact .null
  | bool (b : Bool) : Exact (.bool b)
  | number {n : Number} (h : n.Exact) : Exact (.number n)
  | string (s : String) : Exact (.string s)
  | array {items : List Value} (h : ∀ item ∈ items, item.Exact) : Exact (.array items)
  | object {members : Object} (h : ∀ member ∈ members.toList, member.2.Exact) :
    Exact (.object members)

theorem Value.Exact.written {value : Value} (h : value.Exact) : value.written.Exact := by
  induction h with
  | null => exact .null
  | bool b => exact .bool b
  | number hn => exact .number hn
  | string s => exact .string s
  | array hitems ih =>
    rw [Value.written, writtenItems_eq_map]
    refine .array fun item hitem => ?_
    obtain ⟨value, hvalue, rfl⟩ := List.mem_map.1 hitem
    exact ih value hvalue
  | object hmembers ih =>
    rw [Value.written, Members.written_eq_map]
    refine .object fun member hmember => ?_
    obtain ⟨entry, hentry, rfl⟩ := List.mem_map.1 hmember
    exact ih entry hentry

theorem Value.written_injective : Function.Injective Value.written := by
  intro value value' h
  rw [← value.value_written, h, value'.value_written]

end BlockDiagram.Json
