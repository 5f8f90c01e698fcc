/-
What the attributes of a block say.

Attributes are applied one at a time, in ascending order of name, to a kind that begins with its
defaults. What comes of it can be said without an order: every field of the kind is given by the
attribute that it is named after, or is the default, and the attributes that the kind does not know
are kept. The relation below says this of the attributes looked up so far, and each attribute
applied extends what is looked up by one name.

There are two places where the order does matter. The arms of a conditional are read beforehand,
from all attributes, so they are kept apart from what is looked up. The name of a read has two
attributes; the longer one comes later in the order, and counts.
-/
import BlockDiagram.Proofs.Document.Denotation
import BlockDiagram.Proofs.Inspection
import BlockDiagram.Proofs.Json.Members

set_option autoImplicit false

namespace BlockDiagram

open Json (Value)

/-! ## Which attributes a kind knows -/

/-- What an attribute has to be, if the kind knows it. This depends on the attribute and on which
kind it is, and not on what has been set. -/
def BlockKind.form? : BlockKind → String → Option Form
  | .start, _ => none
  | .loop .., name =>
    match name with
    | "condition" => some .condition
    | "child" => some .link
    | _ => none
  | .conditional .., name =>
    match name with
    | "condition" => some .condition
    | "children" => some .arms
    | _ => none
  | .read .., name =>
    match name with
    | "variable" => some .text
    | "var" => some .text
    | "pin" => some .pin
    | _ => none
  | .write .., name =>
    match name with
    | "pin" => some .pin
    | "value" => some .level
    | _ => none
  | .sleep .., name => if name = "length" then some .length else none
  | .code .., name => if name = "code" then some .text else none
  | .declare .., name => if name = "name" then some .text else none

/-- How an attribute is set: the name that it has in a kind, its form, and what comes of setting
it. -/
inductive BlockKind.Sets (value : Value) :
    BlockKind → String → Form → Except AttributeFault BlockKind → Prop
  | loopCondition (condition : String) (child : Option BlockId) :
    Sets value (.loop condition child) "condition" .condition
      ((readCondition value).map (.loop · child))
  | loopChild (condition : String) (child : Option BlockId) :
    Sets value (.loop condition child) "child" .link ((readLink value).map (.loop condition ·))
  | conditionalCondition (condition : String) (ifTrue ifFalse : Arm) :
    Sets value (.conditional condition ifTrue ifFalse) "condition" .condition
      ((readCondition value).map (.conditional · ifTrue ifFalse))
  /-- The arms were read beforehand. -/
  | conditionalArms (condition : String) (ifTrue ifFalse : Arm) :
    Sets value (.conditional condition ifTrue ifFalse) "children" .arms
      (.ok (.conditional condition ifTrue ifFalse))
  | readVariable (name : String) (pin : Pin) :
    Sets value (.read name pin) "variable" .text ((readString value).map (.read · pin))
  | readVar (name : String) (pin : Pin) :
    Sets value (.read name pin) "var" .text ((readString value).map (.read · pin))
  | readPin (name : String) (pin : Pin) :
    Sets value (.read name pin) "pin" .pin ((BlockDiagram.readPin value).map (.read name ·))
  | writePin (pin : Pin) (level : PinLevel) :
    Sets value (.write pin level) "pin" .pin ((BlockDiagram.readPin value).map (.write · level))
  | writeLevel (pin : Pin) (level : PinLevel) :
    Sets value (.write pin level) "value" .level ((readLevel value).map (.write pin ·))
  | sleepLength (length : UInt64) :
    Sets value (.sleep length) "length" .length ((readLength value).map .sleep)
  | codeText (text : String) :
    Sets value (.code text) "code" .text ((readString value).map .code)
  | declareName (name : String) :
    Sets value (.declare name) "name" .text ((readString value).map .declare)

/-- A kind sets exactly the attributes that it knows. -/
theorem BlockKind.set?_cases (kind : BlockKind) (name : String) (value : Value) :
    (kind.form? name = none ∧ kind.set? name value = none) ∨
      ∃ form result, kind.form? name = some form ∧ kind.set? name value = some result ∧
        Sets value kind name form result := by
  unfold BlockKind.set?
  split
  all_goals first
    | exact .inr ⟨_, _, rfl, rfl, by constructor⟩
    | left
      cases kind <;> simp_all [BlockKind.form?]

/-- Setting an attribute fails with the fault of its value. -/
theorem BlockKind.Sets.error_iff {value : Value} {kind : BlockKind} {name : String} {form : Form}
    {result : Except AttributeFault BlockKind} (h : Sets value kind name form result)
    (fault : AttributeFault) : result = .error fault ↔ form.Fault value fault := by
  cases h with
  | conditionalArms => exact iff_of_false nofun fun hfault => hfault.2
  | _ =>
    simp only [map_eq_error_iff, readCondition_eq_error_iff, readLink_eq_error_iff,
      readString_eq_error_iff, readPin_eq_error_iff, readLevel_eq_error_iff,
      readLength_eq_error_iff]

/-- Setting an attribute does not change which attributes are known. -/
theorem BlockKind.Sets.form?_eq {value : Value} {kind kind' : BlockKind} {name : String}
    {form : Form} {result : Except AttributeFault BlockKind} (h : Sets value kind name form result)
    (hok : result = .ok kind') : kind'.form? = kind.form? := by
  cases h with
  | conditionalArms =>
    cases hok
    rfl
  | _ =>
    obtain ⟨a, -, rfl⟩ := map_eq_ok_iff.1 hok
    rfl

/-! ## Arms -/

/-- What an arm of a conditional stands for. -/
inductive ArmGiven : Option Value → Arm → Prop
  | missing : ArmGiven none .missing
  | empty : ArmGiven (some .null) .empty
  | target {value : Value} {id : BlockId} (h : Denotes value id.toNat) :
    ArmGiven (some value) (.to id)

/-- What the arms of a conditional stand for, given the attribute that holds both. -/
inductive ArmsGiven : Option Value → Arm → Arm → Prop
  | missing : ArmsGiven none .missing .missing
  | sent {arms : Json.Object} {ifTrue ifFalse : Arm} (htrue : ArmGiven (arms.get? "true") ifTrue)
    (hfalse : ArmGiven (arms.get? "false") ifFalse) :
    ArmsGiven (some (.object arms)) ifTrue ifFalse

theorem armGiven_of_readArm {sent : Option Value} {arm : Arm} (h : readArm sent = .ok arm) :
    ArmGiven sent arm := by
  cases sent with
  | none => cases h; exact .missing
  | some value =>
    rw [readArm, map_eq_ok_iff] at h
    obtain ⟨link, hlink, rfl⟩ := h
    rw [readLink_eq_ok_iff] at hlink
    cases hlink with
    | null => exact .empty
    | value h =>
      cases h with
      | link h => exact .target h

theorem readArm_eq_error_iff {sent : Option Value} {fault : AttributeFault} :
    readArm sent = .error fault ↔ ∃ value, sent = some value ∧ Form.link.Fault value fault := by
  cases sent with
  | none => simp [readArm]
  | some value => simp [readArm, map_eq_error_iff, readLink_eq_error_iff]

/-! ## Kinds -/

/-- What the name of a read stands for, given its longer and its shorter attribute. The shorter one
must be a text even where it does not count. -/
inductive NameGiven (long short : Option Value) (name : String) : Prop
  | long (hsent : long ≠ none) (hname : Given "" DenotesText long name)
    (hshort : ∃ other, Given "" DenotesText short other)
  | short (hnone : long = none) (hname : Given "" DenotesText short name)

/-- What the kind with a tag is, given its attributes and, apart from them, the arms. -/
inductive KindGiven (sent : String → Option Value) (arms : Option Value) :
    String → BlockKind → Prop
  | start : KindGiven sent arms "start" .start
  | loop {condition : String} {child : Option BlockId}
    (hcondition : Given "" DenotesCondition (sent "condition") condition)
    (hchild : Given none DenotesLink (sent "child") child) :
    KindGiven sent arms "loop" (.loop condition child)
  | conditional {condition : String} {ifTrue ifFalse : Arm}
    (hcondition : Given "" DenotesCondition (sent "condition") condition)
    (harms : ArmsGiven arms ifTrue ifFalse) :
    KindGiven sent arms "conditional" (.conditional condition ifTrue ifFalse)
  | read {tag name : String} {pin : Pin} (htag : tag = "read" ∨ tag = "pin_read")
    (hname : NameGiven (sent "variable") (sent "var") name)
    (hpin : Given defaultPin (fun value pin => Denotes value pin.toNat) (sent "pin") pin) :
    KindGiven sent arms tag (.read name pin)
  | write {tag : String} {pin : Pin} {level : PinLevel} (htag : tag = "write" ∨ tag = "pin_write")
    (hpin : Given defaultPin (fun value pin => Denotes value pin.toNat) (sent "pin") pin)
    (hlevel : Given defaultLevel DenotesLevel (sent "value") level) :
    KindGiven sent arms tag (.write pin level)
  | sleep {length : UInt64}
    (hlength : Given defaultLength (fun value length => Denotes value length.toNat)
      (sent "length") length) :
    KindGiven sent arms "sleep" (.sleep length)
  | code {text : String} (htext : Given "" DenotesText (sent "code") text) :
    KindGiven sent arms "code" (.code text)
  | declare {name : String} (hname : Given "" DenotesText (sent "name") name) :
    KindGiven sent arms "variable" (.declare name)

variable {sent : String → Option Value} {arms : Option Value} {tag name : String}
  {kind kind' : BlockKind} {value : Value}

theorem KindGiven.of_loop (h : KindGiven sent arms tag kind) (htag : tag = "loop") :
    ∃ condition child, kind = .loop condition child ∧
      Given none DenotesLink (sent "child") child := by
  cases h with
  | loop _ hchild => exact ⟨_, _, rfl, hchild⟩
  | read hread => simp [htag] at hread
  | write hwrite => simp [htag] at hwrite
  | _ => simp at htag

theorem KindGiven.of_conditional (h : KindGiven sent arms tag kind) (htag : tag = "conditional") :
    ∃ condition ifTrue ifFalse, kind = .conditional condition ifTrue ifFalse ∧
      ArmsGiven arms ifTrue ifFalse := by
  cases h with
  | conditional _ harms => exact ⟨_, _, _, rfl, harms⟩
  | read hread => simp [htag] at hread
  | write hwrite => simp [htag] at hwrite
  | _ => simp at htag

/-- Only the attributes that a kind knows matter to it. -/
theorem KindGiven.congr {sent' : String → Option Value} (h : KindGiven sent arms tag kind)
    (hsame : ∀ name, kind.form? name ≠ none → sent' name = sent name) :
    KindGiven sent' arms tag kind := by
  have hname (name : String) {form : Form} (hform : kind.form? name = some form) :
      sent name = sent' name :=
    (hsame name (by simp [hform])).symm
  cases h with
  | start => exact .start
  | loop hcondition hchild =>
    exact .loop (hname "condition" rfl ▸ hcondition) (hname "child" rfl ▸ hchild)
  | conditional hcondition harms =>
    exact .conditional (hname "condition" rfl ▸ hcondition) harms
  | read htag hread hpin =>
    exact .read htag (hname "variable" rfl ▸ hname "var" rfl ▸ hread) (hname "pin" rfl ▸ hpin)
  | write htag hpin hlevel =>
    exact .write htag (hname "pin" rfl ▸ hpin) (hname "value" rfl ▸ hlevel)
  | sleep hlength => exact .sleep (hname "length" rfl ▸ hlength)
  | code htext => exact .code (hname "code" rfl ▸ htext)
  | declare htext => exact .declare (hname "name" rfl ▸ htext)

/-- Setting an attribute extends what the kind is given by. -/
theorem KindGiven.set {form : Form} {result : Except AttributeFault BlockKind}
    (h : KindGiven sent arms tag kind) (hshort : name = "var" → sent "variable" = none)
    (hsets : BlockKind.Sets value kind name form result) (hok : result = .ok kind') :
    KindGiven (Function.update sent name (some value)) arms tag kind' := by
  -- the attribute set is given by its value, every other one by what it was given by before
  cases hsets with
  | loopCondition =>
    obtain ⟨_, hread, rfl⟩ := map_eq_ok_iff.1 hok
    have hnew := readCondition_eq_ok_iff.1 hread
    cases h with
    | loop hcondition hchild => exact .loop (by simpa using hnew) (by simpa using hchild)
  | loopChild =>
    obtain ⟨_, hread, rfl⟩ := map_eq_ok_iff.1 hok
    have hnew := readLink_eq_ok_iff.1 hread
    cases h with
    | loop hcondition hchild => exact .loop (by simpa using hcondition) (by simpa using hnew)
  | conditionalCondition =>
    obtain ⟨_, hread, rfl⟩ := map_eq_ok_iff.1 hok
    have hnew := readCondition_eq_ok_iff.1 hread
    cases h with
    | conditional hcondition harms => exact .conditional (by simpa using hnew) harms
  | conditionalArms =>
    -- these have been read before, and applying them changes nothing
    cases hok
    cases h with
    | conditional hcondition harms => exact .conditional (by simpa using hcondition) harms
  | readVariable =>
    -- this one counts from now on, whatever `var` has set
    obtain ⟨_, hread, rfl⟩ := map_eq_ok_iff.1 hok
    have hnew := readString_eq_ok_iff.1 hread
    cases h with
    | read htag hname hpin =>
      refine .read htag (.long (by simp) (by simpa using hnew) ?_) (by simpa using hpin)
      rw [Function.update_of_ne (by decide)]
      cases hname with
      | long hsent hname hother => exact hother
      | short hnone hname => exact ⟨_, hname⟩
  | readVar =>
    -- this one counts as long as there is no `variable`
    obtain ⟨_, hread, rfl⟩ := map_eq_ok_iff.1 hok
    have hnew := readString_eq_ok_iff.1 hread
    cases h with
    | read htag hname hpin =>
      refine .read htag (.short ?_ (by simpa using hnew)) (by simpa using hpin)
      rw [Function.update_of_ne (by decide)]
      exact hshort rfl
  | readPin =>
    obtain ⟨_, hread, rfl⟩ := map_eq_ok_iff.1 hok
    have hnew := readPin_eq_ok_iff.1 hread
    cases h with
    | read htag hname hpin => exact .read htag (by simpa using hname) (by simpa using hnew)
  | writePin =>
    obtain ⟨_, hread, rfl⟩ := map_eq_ok_iff.1 hok
    have hnew := readPin_eq_ok_iff.1 hread
    cases h with
    | write htag hpin hlevel => exact .write htag (by simpa using hnew) (by simpa using hlevel)
  | writeLevel =>
    obtain ⟨_, hread, rfl⟩ := map_eq_ok_iff.1 hok
    have hnew := readLevel_eq_ok_iff.1 hread
    cases h with
    | write htag hpin hlevel => exact .write htag (by simpa using hpin) (by simpa using hnew)
  | sleepLength =>
    obtain ⟨_, hread, rfl⟩ := map_eq_ok_iff.1 hok
    have hnew := readLength_eq_ok_iff.1 hread
    cases h with
    | sleep hlength => exact .sleep (by simpa using hnew)
  | codeText =>
    obtain ⟨_, hread, rfl⟩ := map_eq_ok_iff.1 hok
    have hnew := readString_eq_ok_iff.1 hread
    cases h with
    | code htext => exact .code (by simpa using hnew)
  | declareName =>
    obtain ⟨_, hread, rfl⟩ := map_eq_ok_iff.1 hok
    have hnew := readString_eq_ok_iff.1 hread
    cases h with
    | declare hname => exact .declare (by simpa using hnew)

/-! ## Applying attributes -/

theorem blame_eq_ok_iff {α : Type} {id : BlockId} {result : Except AttributeFault α} {a : α} :
    blame id name result = .ok a ↔ result = .ok a := by
  cases result with
  | ok b => simp [blame, Except.mapError]
  | error fault => simp [blame, Except.mapError]

theorem blame_eq_error_iff {α : Type} {id : BlockId} {result : Except AttributeFault α}
    {e : LoadError} :
    blame id name result = .error e ↔
      ∃ fault, result = .error fault ∧ e = .badAttribute id name fault := by
  cases result with
  | ok b => simp [blame, Except.mapError]
  | error fault => simp [blame, Except.mapError, eq_comm]

/-- The arms of a conditional are the ones that its attributes give. -/
theorem armsGiven_of_withArms {id : BlockId} {attributes : Json.Object} {condition : String}
    (h : withArms id attributes (.conditional condition .missing .missing) = .ok kind) :
    ∃ ifTrue ifFalse, kind = .conditional condition ifTrue ifFalse ∧
      ArmsGiven (attributes.get? "children") ifTrue ifFalse := by
  unfold withArms at h
  split at h
  · rename_i heq hget
    cases heq
    obtain ⟨ifTrue, htrue, h⟩ := bind_eq_ok_iff.1 h
    obtain ⟨ifFalse, hfalse, h⟩ := bind_eq_ok_iff.1 h
    cases h
    rw [blame_eq_ok_iff] at htrue hfalse
    rw [hget]
    exact ⟨ifTrue, ifFalse, rfl, .sent (armGiven_of_readArm htrue) (armGiven_of_readArm hfalse)⟩
  · cases h
  · rename_i hobject hother
    cases h
    -- no attribute holds arms, since any value would have been a case above
    have hnone : attributes.get? "children" = none := by
      cases hget : attributes.get? "children" with
      | none => rfl
      | some value => exact (hother condition .missing .missing value rfl hget).elim
    rw [hnone]
    exact ⟨.missing, .missing, rfl, .missing⟩

theorem withArms_of_ne {id : BlockId} {attributes : Json.Object}
    (hkind : ∀ condition ifTrue ifFalse, kind ≠ .conditional condition ifTrue ifFalse) :
    withArms id attributes kind = .ok kind := by
  unfold withArms
  split
  · exact absurd rfl (hkind _ _ _)
  · exact absurd rfl (hkind _ _ _)
  · rfl

/-- A kind that is known by its tag alone has its defaults. -/
theorem kindGiven_of_ofTag? (h : BlockKind.ofTag? tag = some kind) :
    KindGiven (fun _ => none) none tag kind := by
  unfold BlockKind.ofTag? at h
  split at h <;> cases h
  all_goals first
    | exact .start
    | exact .loop .absent .absent
    | exact .conditional .absent .missing
    | exact .read (.inl rfl) (.short rfl .absent) .absent
    | exact .read (.inr rfl) (.short rfl .absent) .absent
    | exact .write (.inl rfl) .absent .absent
    | exact .write (.inr rfl) .absent .absent
    | exact .sleep .absent
    | exact .code .absent
    | exact .declare .absent

/-- Before any attribute is applied, a kind has its defaults and its arms. -/
theorem kindGiven_of_withArms {id : BlockId} {attributes : Json.Object}
    (htag : BlockKind.ofTag? tag = some kind) (h : withArms id attributes kind = .ok kind') :
    KindGiven (fun _ => none) (attributes.get? "children") tag kind' ∧
      kind'.form? = kind.form? := by
  cases kindGiven_of_ofTag? htag with
  | conditional hcondition harms =>
    cases harms
    obtain ⟨ifTrue, ifFalse, rfl, harms⟩ := armsGiven_of_withArms h
    exact ⟨.conditional hcondition harms, rfl⟩
  | _ =>
    rw [withArms_of_ne (by simp)] at h
    cases h
    exact ⟨by constructor <;> assumption, rfl⟩

theorem applyAttribute_eq_error_iff {id : BlockId} {state : BlockKind × Json.Object}
    {e : LoadError} :
    applyAttribute id state (name, value) = .error e ↔
      ∃ form fault, state.1.form? name = some form ∧ form.Fault value fault ∧
        e = .badAttribute id name fault := by
  unfold applyAttribute
  rcases state.1.set?_cases name value with ⟨hform, hset⟩ | ⟨form, result, hform, hset, hsets⟩
  · simp [hset, hform]
  · simp [hset, hform, map_eq_error_iff, blame_eq_error_iff, hsets.error_iff]

theorem form?_of_applyAttribute {id : BlockId} {entry : String × Value}
    {state state' : BlockKind × Json.Object} (h : applyAttribute id state entry = .ok state') :
    state'.1.form? = state.1.form? := by
  unfold applyAttribute at h
  rcases state.1.set?_cases entry.1 entry.2 with ⟨hform, hset⟩ | ⟨form, result, -, hset, hsets⟩
  · rw [hset] at h
    cases h
    rfl
  · rw [hset] at h
    obtain ⟨kind', hresult, rfl⟩ := map_eq_ok_iff.1 h
    exact hsets.form?_eq (blame_eq_ok_iff.1 hresult)

/-- What holds of a kind and the attributes kept aside after some attributes were applied: the kind
is given by those it knows, and the others are kept. -/
structure Applied (arms : Option Value) (tag : String) (done : List (String × Value))
    (state : BlockKind × Json.Object) : Prop where
  kind : KindGiven (fun name => done.lookup name) arms tag state.1
  extra : ∀ name, state.2.get? name = if state.1.form? name = none then done.lookup name else none

theorem Applied.step {id : BlockId} {attributes : Json.Object} {done later : List (String × Value)}
    {entry : String × Value} {state state' : BlockKind × Json.Object}
    (h : Applied arms tag done state) (hlist : attributes.toList = done ++ entry :: later)
    (hstep : applyAttribute id state entry = .ok state') :
    Applied arms tag (done ++ [entry]) state' := by
  obtain ⟨kind, extra⟩ := state
  obtain ⟨name, value⟩ := entry
  have hlookup := Json.Members.lookup_append_singleton hlist
  have hlookup' (other : String) : (done ++ [(name, value)]).lookup other =
      if other = name then some value else done.lookup other := by
    rw [congrFun hlookup other, Function.update_apply]
  unfold applyAttribute at hstep
  rcases kind.set?_cases name value with ⟨hform, hset⟩ | ⟨form, result, hform, hset, hsets⟩
  · -- the kind does not know the attribute, which is kept
    rw [hset] at hstep
    cases hstep
    have hknown (other : String) (hother : kind.form? other ≠ none) : other ≠ name := by
      rintro rfl
      exact hother hform
    constructor
    · rw [hlookup]
      apply h.kind.congr
      intro other hother
      exact Function.update_of_ne (hknown other hother) _ _
    · intro other
      rw [Json.Members.get?_insert, hlookup', h.extra other]
      by_cases hother : other = name
      · simp [hother, hform]
      · simp [hother]
  · rw [hset] at hstep
    obtain ⟨kind', hresult, rfl⟩ := map_eq_ok_iff.1 hstep
    rw [blame_eq_ok_iff] at hresult
    constructor
    · rw [hlookup]
      refine h.kind.set ?_ hsets hresult
      -- the longer name of the two comes later
      rintro rfl
      exact Json.Members.lookup_eq_none_of_le hlist (by decide)
    · intro other
      dsimp only
      rw [hsets.form?_eq hresult, hlookup', h.extra other]
      by_cases hother : other = name
      · simp [hother, hform]
      · simp [hother]

/-- Applying all attributes of an object gives the kind that they describe, and keeps the others. -/
theorem applied_toList {id : BlockId} {attributes : Json.Object}
    {state : BlockKind × Json.Object} (hstart : KindGiven (fun _ => none) arms tag kind)
    (h : attributes.toList.foldlM (applyAttribute id) (kind, .nil) = .ok state) :
    Applied arms tag attributes.toList state := by
  have hbegin : Applied arms tag [] (kind, .nil) := ⟨hstart, fun name => by simp⟩
  exact foldlM_invariant (Applied arms tag) [] attributes.toList
    (fun earlier entry later state state' hlist hstate hstep => hstate.step hlist hstep) hbegin h

end BlockDiagram
