/-
What the values of a document stand for.

Reading a value and saying what it stands for are two things. A reading tries one form after the
other and ends in a fault where none fits. Below it is said without trying what a key or a value
denotes, kind of value by kind of value, and which faults it has if it denotes nothing; each
reading is then shown to give exactly what its value denotes, and to fail with exactly its fault.

Null denotes nothing. An attribute that is null or was not sent stands for the default, which is
said once for all kinds of values: `Given` joins what a value denotes with the default of the
attribute. So no fault is ever about null.
-/
import BlockDiagram.Document.Load
import Mathlib.Data.Nat.Notation
import Mathlib.Order.Basic

set_option autoImplicit false

namespace BlockDiagram

open Json (Value)

/-! ## Results -/

section Result

variable {ε α β : Type} {f : α → β} {result : Except ε α}

theorem map_eq_ok_iff {b : β} : result.map f = .ok b ↔ ∃ a, result = .ok a ∧ f a = b := by
  cases result with
  | ok a => simp [Except.map]
  | error e => simp [Except.map]

theorem map_eq_error_iff {e : ε} : result.map f = .error e ↔ result = .error e := by
  cases result with
  | ok a => simp [Except.map]
  | error e => simp [Except.map]

theorem bind_eq_ok_iff {next : α → Except ε β} {b : β} :
    result >>= next = .ok b ↔ ∃ a, result = .ok a ∧ next a = .ok b := by
  cases result with
  | ok a => simp [bind, Except.bind]
  | error e => simp [bind, Except.bind]

end Result

/-! ## Numerals -/

/-- Whether a text is a numeral of a number: outer blanks aside it consists of digits, with at most
one `+` in front. -/
def Numeral (text : String) (n : Nat) : Prop :=
  ∃ sign digits : List Char, trimChars text.toList = sign ++ digits ∧ (sign = [] ∨ sign = ['+']) ∧
    digits ≠ [] ∧ (∀ c ∈ digits, c.isDigit = true) ∧ Nat.ofDigitChars 10 digits 0 = n

theorem digitsValue?_eq_some_iff {cs : List Char} {n : Nat} :
    digitsValue? cs = some n ↔
      cs ≠ [] ∧ (∀ c ∈ cs, c.isDigit = true) ∧ Nat.ofDigitChars 10 cs 0 = n := by
  unfold digitsValue?
  split
  · rename_i h
    rw [Bool.and_eq_true, List.all_eq_true] at h
    have hne : cs ≠ [] := by simpa using h.1
    rw [Option.some.injEq]
    exact ⟨fun hvalue => ⟨hne, h.2, hvalue⟩, fun hcs => hcs.2.2⟩
  · rename_i h
    rw [Bool.and_eq_true, List.all_eq_true] at h
    constructor
    · intro hnone
      cases hnone
    · rintro ⟨hne, hdigits, -⟩
      exact absurd ⟨by simpa using hne, hdigits⟩ h

theorem numeral?_eq_some_iff {text : String} {n : Nat} :
    numeral? text = some n ↔ Numeral text n := by
  unfold numeral? Numeral
  generalize trimChars text.toList = cs
  constructor
  · intro h
    unfold unsignedValue? at h
    split at h
    · rename_i digits
      exact ⟨['+'], digits, rfl, .inr rfl, digitsValue?_eq_some_iff.1 h⟩
    · exact ⟨[], _, rfl, .inl rfl, digitsValue?_eq_some_iff.1 h⟩
  · rintro ⟨sign, digits, rfl, rfl | rfl, hdigits⟩
    · have hvalue := digitsValue?_eq_some_iff.2 hdigits
      unfold unsignedValue?
      split
      · -- a sign is no digit
        rename_i rest heq
        rw [List.nil_append] at heq
        have hplus : '+' ∈ digits := by rw [heq]; exact List.mem_cons_self
        exact absurd (hdigits.2.1 '+' hplus) (by decide)
      · exact hvalue
    · exact digitsValue?_eq_some_iff.2 hdigits

theorem Numeral.unique {text : String} {m n : Nat} (hm : Numeral text m) (hn : Numeral text n) :
    m = n := by
  have hsome := numeral?_eq_some_iff.2 hm
  rw [numeral?_eq_some_iff.2 hn] at hsome
  exact (Option.some.inj hsome).symm

theorem isBlank_of_isDigit {c : Char} (h : c.isDigit = true) : isBlank c = false := by
  have hrange : 48 ≤ c.toNat ∧ c.toNat ≤ 57 := by
    simpa [Char.isDigit, UInt32.le_iff_toNat_le] using h
  simp only [isBlank, blankRanges, List.any_cons, List.any_nil, Bool.or_false, Bool.or_eq_false_iff,
    Bool.and_eq_false_iff, decide_eq_false_iff_not]
  omega

theorem trimChars_eq_self {cs : List Char} (h : ∀ c ∈ cs, isBlank c = false) :
    trimChars cs = cs := by
  have hdrop (cs : List Char) (h : ∀ c ∈ cs, isBlank c = false) : cs.dropWhile isBlank = cs := by
    cases cs with
    | nil => rfl
    | cons c rest => rw [List.dropWhile_cons_of_neg (by simp [h c List.mem_cons_self])]
  rw [trimChars, hdrop cs h, hdrop cs.reverse fun c hc => h c (List.mem_reverse.1 hc),
    List.reverse_reverse]

/-- The decimal form of a number is a numeral of that number. -/
theorem numeral_decimal (n : Nat) : Numeral (decimal n) n := by
  have hdigits := digitsValue?_eq_some_iff.1 (digitsValue?_toDigits n)
  refine ⟨[], Nat.toDigits 10 n, ?_, .inl rfl, hdigits⟩
  rw [decimal, String.toList_ofList, List.nil_append]
  exact trimChars_eq_self fun c hc => isBlank_of_isDigit (hdigits.2.1 c hc)

/-- A key gives the id whose numeral it is. -/
theorem blockId?_eq_some_iff {key : String} {id : BlockId} :
    blockId? key = some id ↔ Numeral key id.toNat := by
  unfold blockId?
  constructor
  · intro h
    split at h
    · rename_i n hn
      split at h
      · rename_i hlt
        cases h
        rw [UInt32.toNat_ofNat_of_lt' hlt]
        exact numeral?_eq_some_iff.1 hn
      · cases h
    · cases h
  · intro h
    have hlt : id.toNat < UInt32.size := id.toNat_lt
    rw [numeral?_eq_some_iff.2 h]
    simp [hlt]

theorem blockId?_eq_none_iff {key : String} :
    blockId? key = none ↔ ∀ n < UInt32.size, ¬ Numeral key n := by
  constructor
  · intro h n hn hkey
    rw [← UInt32.toNat_ofNat_of_lt' hn] at hkey
    rw [blockId?_eq_some_iff.2 hkey] at h
    cases h
  · intro h
    cases hid : blockId? key with
    | none => rfl
    | some id => exact absurd (blockId?_eq_some_iff.1 hid) (h id.toNat id.toNat_lt)

/-! ## Values -/

/-- Whether a value denotes a natural number, as a number or as a numeral. -/
inductive Denotes : Value → Nat → Prop
  | number (n : UInt64) : Denotes (.number (.natural n)) n.toNat
  | text {text : String} {n : Nat} (h : Numeral text n) (hn : n < UInt64.size) :
    Denotes (.string text) n

theorem Denotes.unique {value : Value} {m n : Nat} (hm : Denotes value m) (hn : Denotes value n) :
    m = n := by
  cases hm with
  | number k => cases hn; rfl
  | text h _ =>
    cases hn with
    | text h' _ => exact h.unique h'

/-- Whether a value denotes a link to a block. -/
inductive DenotesLink : Value → Option BlockId → Prop
  | link {value : Value} {id : BlockId} (h : Denotes value id.toNat) : DenotesLink value (some id)

/-- Whether a value denotes the level of a pin: a truth value, 0 or 1, or a word for the level or
its number as a text, in capitals or not. -/
inductive DenotesLevel : Value → PinLevel → Prop
  | low : DenotesLevel (.bool false) .low
  | high : DenotesLevel (.bool true) .high
  | number {n : UInt64} {level : PinLevel} (h : n.toNat = level.number) :
    DenotesLevel (.number (.natural n)) level
  | word {text word : String} {level : PinLevel}
    (htext : (trimChars text.toList).map Char.toLower = word.toList)
    (hword : word = level.word ∨ word = decimal level.number) : DenotesLevel (.string text) level

/-- Whether a value denotes a text, which is that text. -/
inductive DenotesText : Value → String → Prop
  | text (text : String) : DenotesText (.string text) text

/-- Whether a value denotes a condition: a text, or a number or truth value as it is written. -/
inductive DenotesCondition : Value → String → Prop
  | text (text : String) : DenotesCondition (.string text) text
  | number (n : Json.Number) : DenotesCondition (.number n) n.text
  | true : DenotesCondition (.bool .true) "true"
  | false : DenotesCondition (.bool .false) "false"

/-- What an attribute stands for: the default, if it was not sent or is null, and what its value
denotes otherwise. -/
inductive Given {α : Type} (default : α) (denotes : Value → α → Prop) : Option Value → α → Prop
  | absent : Given default denotes none default
  | null : Given default denotes (some .null) default
  | value {value : Value} {a : α} (h : denotes value a) : Given default denotes (some value) a

/-! ## Faults -/

/-- Why a value denotes no natural number. -/
inductive NaturalFault : Value → AttributeFault → Prop
  | number {n : Json.Number} (h : ∀ k, n ≠ .natural k) : NaturalFault (.number n) (.notNatural n)
  | text {text : String} (h : ∀ n < UInt64.size, ¬ Numeral text n) :
    NaturalFault (.string text) (.notNumeral text)
  | other {value : Value} (hnumber : ∀ n, value ≠ .number n) (htext : ∀ s, value ≠ .string s) :
    NaturalFault value (.noNumber value)

/-- Why a value denotes no id or pin, which are below 2^32. -/
inductive IndexFault (beyond : UInt64 → AttributeFault) : Value → AttributeFault → Prop
  | natural {value : Value} {fault : AttributeFault} (h : NaturalFault value fault) :
    IndexFault beyond value fault
  | large {value : Value} {n : UInt64} (h : Denotes value n.toNat) (hn : UInt32.size ≤ n.toNat) :
    IndexFault beyond value (beyond n)

/-- What an attribute may be asked to be. -/
inductive Form where
  | condition
  | text
  | link
  | pin
  | level
  | length
  | arms

/-- What is wrong with a value that is not null and not of the form asked for. The arms of a
conditional are two attributes in themselves and have faults elsewhere. -/
def Form.Fault (form : Form) (value : Value) (fault : AttributeFault) : Prop :=
  value ≠ .null ∧
    match form with
    | .condition => (∀ text, ¬ DenotesCondition value text) ∧ fault = .noText value
    | .text => (∀ text, ¬ DenotesText value text) ∧ fault = .noText value
    | .link => IndexFault .idOutOfRange value fault
    | .pin => IndexFault .pinOutOfRange value fault
    | .level => (∀ level, ¬ DenotesLevel value level) ∧ fault = .noLevel value
    | .length => NaturalFault value fault
    | .arms => False

/-! ## Reading numbers -/

theorem readNatural_eq_ok_iff {value : Value} {n : UInt64} :
    readNatural value = .ok n ↔ Denotes value n.toNat := by
  constructor
  · intro h
    unfold readNatural at h
    split at h
    · rename_i found
      cases found <;> cases h
      exact .number n
    · rename_i s
      split at h
      · rename_i k hk
        split at h
        · rename_i hlt
          cases h
          rw [UInt64.toNat_ofNat_of_lt' hlt]
          exact .text (numeral?_eq_some_iff.1 hk) hlt
        · cases h
      · cases h
    · cases h
  · intro h
    generalize hk : n.toNat = k at h
    cases h with
    | number m =>
      cases UInt64.toNat_inj.1 hk
      rfl
    | text hs hlt =>
      rw [readNatural, numeral?_eq_some_iff.2 hs]
      dsimp only
      rw [if_pos hlt, ← hk, UInt64.ofNat_toNat]

theorem readNatural_text {text : String} (h : ∀ n < UInt64.size, ¬ Numeral text n) :
    readNatural (.string text) = .error (.notNumeral text) := by
  unfold readNatural
  dsimp only
  split
  · rename_i n hn
    split
    · rename_i hlt
      exact absurd (numeral?_eq_some_iff.1 hn) (h n hlt)
    · rfl
  · rfl

theorem readNatural_eq_error_iff {value : Value} {fault : AttributeFault} :
    readNatural value = .error fault ↔ NaturalFault value fault := by
  constructor
  · intro h
    cases value with
    | number n =>
      cases n with
      | natural k => cases h
      | negative k => cases h; exact .number (by simp)
      | double x => cases h; exact .number (by simp)
    | string s =>
      by_cases hs : ∃ n < UInt64.size, Numeral s n
      · obtain ⟨n, hlt, hn⟩ := hs
        rw [← UInt64.toNat_ofNat_of_lt' hlt] at hn hlt
        rw [readNatural_eq_ok_iff.2 (.text hn hlt)] at h
        cases h
      · have hnone : ∀ n < UInt64.size, ¬ Numeral s n := fun n hlt hn => hs ⟨n, hlt, hn⟩
        rw [readNatural_text hnone] at h
        cases h
        exact .text hnone
    | _ => cases h; exact .other (by simp) (by simp)
  · intro h
    cases h with
    | @number n h =>
      cases n with
      | natural k => exact absurd rfl (h k)
      | negative k => rfl
      | double x => rfl
    | text h => exact readNatural_text h
    | other hnumber htext =>
      cases value with
      | number n => exact absurd rfl (hnumber n)
      | string s => exact absurd rfl (htext s)
      | _ => rfl

/-- A natural number below 2^32, which is how ids and pins are read. -/
def readIndex (beyond : UInt64 → AttributeFault) (value : Value) :
    Except AttributeFault UInt32 := do
  let n ← readNatural value
  if n.toNat < UInt32.size then .ok n.toUInt32 else .error (beyond n)

theorem readIndex_eq_ok_iff {beyond : UInt64 → AttributeFault} {value : Value} {index : UInt32} :
    readIndex beyond value = .ok index ↔ Denotes value index.toNat := by
  unfold readIndex
  cases hread : readNatural value with
  | error fault =>
    constructor
    · intro h
      cases h
    · intro h
      rw [← UInt32.toNat_toUInt64] at h
      rw [readNatural_eq_ok_iff.2 h] at hread
      cases hread
  | ok n =>
    have hn := readNatural_eq_ok_iff.1 hread
    change (if n.toNat < UInt32.size then Except.ok n.toUInt32 else .error (beyond n)) = _ ↔ _
    constructor
    · intro h
      split at h
      · rename_i hlt
        cases h
        rwa [UInt64.toNat_toUInt32, Nat.mod_eq_of_lt hlt]
      · cases h
    · intro h
      rw [← UInt32.toNat_toUInt64] at h
      -- a value denotes one number, which is then that of the index
      have hsame := readNatural_eq_ok_iff.2 h
      rw [hread] at hsame
      cases hsame
      rw [UInt32.toNat_toUInt64, if_pos index.toNat_lt, UInt32.toUInt32_toUInt64]

theorem readIndex_eq_error_iff {beyond : UInt64 → AttributeFault} {value : Value}
    {fault : AttributeFault} :
    readIndex beyond value = .error fault ↔ IndexFault beyond value fault := by
  unfold readIndex
  cases hread : readNatural value with
  | error found =>
    constructor
    · intro h
      cases h
      exact .natural (readNatural_eq_error_iff.1 hread)
    · intro h
      cases h with
      | natural h =>
        rw [readNatural_eq_error_iff.2 h] at hread
        cases hread
        rfl
      | large h hn =>
        rw [readNatural_eq_ok_iff.2 h] at hread
        cases hread
  | ok n =>
    change (if n.toNat < UInt32.size then Except.ok n.toUInt32 else .error (beyond n)) = _ ↔ _
    constructor
    · intro h
      split at h
      · cases h
      · rename_i hge
        cases h
        exact .large (readNatural_eq_ok_iff.1 hread) (Nat.not_lt.1 hge)
    · intro h
      cases h with
      | natural h =>
        rw [readNatural_eq_error_iff.2 h] at hread
        cases hread
      | @large k h hk =>
        rw [readNatural_eq_ok_iff.2 h] at hread
        cases hread
        rw [if_neg (Nat.not_lt.2 hk)]

/-! ## Reading attributes -/

section Attribute

variable {α : Type} {default : α} {denotes : Value → α → Prop} {value : Value} {a : α}

/-- A reading that gives the default for null and otherwise what the value denotes gives what the
attribute stands for. -/
theorem eq_ok_iff_given (read : Value → Except AttributeFault α)
    (hdefault : read .null = .ok default) (hnull : ∀ a, ¬ denotes .null a)
    (hread : ∀ a, value ≠ .null → (read value = .ok a ↔ denotes value a)) :
    read value = .ok a ↔ Given default denotes (some value) a := by
  constructor
  · intro h
    by_cases hvalue : value = .null
    · subst hvalue
      cases hdefault.symm.trans h
      exact .null
    · exact .value ((hread a hvalue).1 h)
  · intro h
    cases h with
    | null => exact hdefault
    | value h =>
      have hvalue : value ≠ .null := by
        rintro rfl
        exact hnull a h
      exact (hread a hvalue).2 h

/-- A reading that has one fault for all values has it where the attribute stands for nothing. -/
theorem eq_error_iff_given (read : Value → Except AttributeFault α) {fault found : AttributeFault}
    (hread : ∀ a, read value = .ok a ↔ Given default denotes (some value) a)
    (hfault : ∀ found, read value = .error found → found = fault) :
    read value = .error found ↔ value ≠ .null ∧ (∀ a, ¬ denotes value a) ∧ found = fault := by
  constructor
  · intro h
    have hnothing (a : α) : ¬ Given default denotes (some value) a := by
      intro hgiven
      rw [(hread a).2 hgiven] at h
      cases h
    refine ⟨?_, fun a ha => hnothing a (.value ha), hfault found h⟩
    rintro rfl
    exact hnothing default .null
  · rintro ⟨hnull, hnothing, rfl⟩
    cases hresult : read value with
    | ok a =>
      cases (hread a).1 hresult with
      | null => exact absurd rfl hnull
      | value h => exact absurd h (hnothing a)
    | error other => rw [hfault other hresult]

theorem readLink_eq_map (hvalue : value ≠ .null) :
    readLink value = (readIndex .idOutOfRange value).map some := by
  cases value <;> first | rfl | exact absurd rfl hvalue

theorem readLink_eq_ok_iff {link : Option BlockId} :
    readLink value = .ok link ↔ Given none DenotesLink (some value) link := by
  apply eq_ok_iff_given readLink rfl
  · rintro _ ⟨⟨⟩⟩
  · intro link hvalue
    rw [readLink_eq_map hvalue, map_eq_ok_iff]
    constructor
    · rintro ⟨id, hid, rfl⟩
      exact .link (readIndex_eq_ok_iff.1 hid)
    · rintro ⟨h⟩
      exact ⟨_, readIndex_eq_ok_iff.2 h, rfl⟩

theorem readPin_eq_readIndex (hvalue : value ≠ .null) :
    readPin value = readIndex .pinOutOfRange value := by
  cases value <;> first | rfl | exact absurd rfl hvalue

theorem readPin_eq_ok_iff {pin : Pin} :
    readPin value = .ok pin ↔
      Given defaultPin (fun value pin => Denotes value pin.toNat) (some value) pin := by
  apply eq_ok_iff_given readPin rfl
  · rintro pin ⟨⟩
  · intro pin hvalue
    rw [readPin_eq_readIndex hvalue, readIndex_eq_ok_iff]

theorem readLength_eq_readNatural (hvalue : value ≠ .null) :
    readLength value = readNatural value := by
  cases value <;> first | rfl | exact absurd rfl hvalue

theorem readLength_eq_ok_iff {length : UInt64} :
    readLength value = .ok length ↔
      Given defaultLength (fun value length => Denotes value length.toNat) (some value) length := by
  apply eq_ok_iff_given readLength rfl
  · rintro length ⟨⟩
  · intro length hvalue
    rw [readLength_eq_readNatural hvalue, readNatural_eq_ok_iff]

theorem readString_eq_ok_iff {text : String} :
    readString value = .ok text ↔ Given "" DenotesText (some value) text := by
  apply eq_ok_iff_given readString rfl
  · rintro text ⟨⟩
  · intro text hvalue
    constructor
    · intro h
      cases value with
      | string s => cases h; exact .text _
      | null => exact absurd rfl hvalue
      | _ => cases h
    · rintro ⟨⟩
      rfl

theorem readCondition_eq_ok_iff {text : String} :
    readCondition value = .ok text ↔ Given "" DenotesCondition (some value) text := by
  apply eq_ok_iff_given readCondition rfl
  · rintro text ⟨⟩
  · intro text hvalue
    constructor
    · intro h
      cases value with
      | string s => cases h; exact .text _
      | number n => cases h; exact .number n
      | bool b =>
        cases b with
        | true => cases h; exact .true
        | false => cases h; exact .false
      | null => exact absurd rfl hvalue
      | _ => cases h
    · rintro ⟨⟩ <;> rfl

/-- A text is a word for a level if it is one of the four that are known. -/
theorem levelOfWord?_eq_some_iff {text : String} {level : PinLevel} :
    levelOfWord? text = some level ↔ DenotesLevel (.string text) level := by
  have hwords {word : String} :
      (String.ofList ((trimChars text.toList).map Char.toLower) = word) ↔
        (trimChars text.toList).map Char.toLower = word.toList := by
    rw [← String.toList_inj, String.toList_ofList]
  unfold levelOfWord?
  constructor
  · intro h
    split at h
    · rename_i heq; cases h; exact .word (hwords.1 heq) (.inl rfl)
    · rename_i heq; cases h; exact .word (hwords.1 heq) (.inr rfl)
    · rename_i heq; cases h; exact .word (hwords.1 heq) (.inl rfl)
    · rename_i heq; cases h; exact .word (hwords.1 heq) (.inr rfl)
    · cases h
  · rintro ⟨⟩
    rename_i word htext hword
    rw [hwords.2 htext]
    cases level <;> rcases hword with rfl | rfl <;> rfl

theorem level?_eq_some_iff {level : PinLevel} (hvalue : value ≠ .null) :
    level? value = some level ↔ DenotesLevel value level := by
  constructor
  · intro h
    cases value with
    | null => exact absurd rfl hvalue
    | bool b =>
      cases b with
      | true => cases h; exact .high
      | false => cases h; exact .low
    | number n =>
      unfold level? at h
      cases n with
      | natural k =>
        dsimp only [Json.Number.natural?] at h
        split at h
        · rename_i hk
          cases h
          cases hk
          exact .number rfl
        · rename_i hk
          cases h
          cases hk
          exact .number rfl
        · cases h
      | _ => cases h
    | string s => exact levelOfWord?_eq_some_iff.1 h
    | _ => cases h
  · intro h
    cases h with
    | low => rfl
    | high => rfl
    | @number n level h =>
      have hn : n = UInt64.ofNat level.number := by
        rw [← h, UInt64.ofNat_toNat]
      subst hn
      cases level <;> rfl
    | word htext hword => exact levelOfWord?_eq_some_iff.2 (.word htext hword)

theorem readLevel_eq_ok_iff {level : PinLevel} :
    readLevel value = .ok level ↔ Given defaultLevel DenotesLevel (some value) level := by
  apply eq_ok_iff_given readLevel rfl
  · rintro level ⟨⟩
  · intro level hvalue
    rw [← level?_eq_some_iff hvalue, readLevel]
    cases level? value with
    | none => simp
    | some found => simp

/-! ### Faults -/

variable {fault : AttributeFault}

/-- A reading that gives the default for null has its faults where the value is something else. -/
theorem eq_error_iff_of_ne_null (read : Value → Except AttributeFault α) {faulty : Prop}
    (hdefault : read .null = .ok default)
    (hread : value ≠ .null → (read value = .error fault ↔ faulty)) :
    read value = .error fault ↔ value ≠ .null ∧ faulty := by
  constructor
  · intro h
    have hvalue : value ≠ .null := by
      rintro rfl
      cases hdefault.symm.trans h
    exact ⟨hvalue, (hread hvalue).1 h⟩
  · rintro ⟨hvalue, hfaulty⟩
    exact (hread hvalue).2 hfaulty

theorem readLink_eq_error_iff :
    readLink value = .error fault ↔ Form.link.Fault value fault := by
  apply eq_error_iff_of_ne_null readLink rfl
  intro hvalue
  rw [readLink_eq_map hvalue, map_eq_error_iff, readIndex_eq_error_iff]

theorem readPin_eq_error_iff : readPin value = .error fault ↔ Form.pin.Fault value fault := by
  apply eq_error_iff_of_ne_null readPin rfl
  intro hvalue
  rw [readPin_eq_readIndex hvalue, readIndex_eq_error_iff]

theorem readLength_eq_error_iff :
    readLength value = .error fault ↔ Form.length.Fault value fault := by
  apply eq_error_iff_of_ne_null readLength rfl
  intro hvalue
  rw [readLength_eq_readNatural hvalue, readNatural_eq_error_iff]

theorem readString_eq_error_iff :
    readString value = .error fault ↔ Form.text.Fault value fault := by
  apply eq_error_iff_given readString fun _ => readString_eq_ok_iff
  intro found h
  cases value <;> cases h <;> rfl

theorem readCondition_eq_error_iff :
    readCondition value = .error fault ↔ Form.condition.Fault value fault := by
  apply eq_error_iff_given readCondition fun _ => readCondition_eq_ok_iff
  intro found h
  cases value with
  | bool b => cases b <;> cases h
  | _ => cases h <;> rfl

theorem readLevel_eq_error_iff :
    readLevel value = .error fault ↔ Form.level.Fault value fault := by
  apply eq_error_iff_given readLevel fun _ => readLevel_eq_ok_iff
  intro found h
  unfold readLevel at h
  split at h <;> cases h
  rfl

end Attribute

end BlockDiagram
