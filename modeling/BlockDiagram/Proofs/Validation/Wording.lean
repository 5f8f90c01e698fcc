/-
Reading a report.

A report is a text for people, and yet nothing of it is lost. Below its first line, which says how
many violations there are, each violation has one line of its own, as long as no name of an
attribute breaks a line. On such a line a number in front says at which block the violation is. What
is wrong shows in the first letter, up to three defects that begin with the slot they are about and
two about the start blocks; these are told by what comes next. Slots have no apostrophe in their
names, so the apostrophes around a name show where it ends, and ids end where the digits do.
-/
import BlockDiagram.Compilation
import BlockDiagram.Proofs.Text.Segments

set_option autoImplicit false

namespace BlockDiagram

/-! ## Ids and slots -/

/-- An id is told by its text. -/
theorem toldBy_idText (id id' : BlockId) : ToldBy idText id id' := by
  intro rest rest' hrest hrest' h
  obtain ⟨hid, hbehind⟩ := decimal_append_inj h hrest hrest'
  exact ⟨UInt32.toNat_inj.1 hid, hbehind⟩

theorem idList_append_inj {ids ids' : List BlockId} {rest rest' : List Char}
    (h : (idList ids).toList ++ ')' :: rest = (idList ids').toList ++ ')' :: rest') :
    ids = ids' ∧ rest = rest' := by
  have hdivides : Divides ", " ')' := ⟨rfl, ',', [' '], rfl, rfl, by decide⟩
  have hfirst (id : BlockId) : BeginsApart ')' (idText id) := by
    obtain ⟨c, cs, hdigits, hdigit⟩ := exists_decimal_eq id.toNat
    refine ⟨c, cs, hdigits, ?_⟩
    rintro rfl
    cases hdigit
  exact intercalate_append_inj hdivides (fun id _ => hfirst id) (fun id _ => hfirst id)
    (fun id _ id' _ => toldBy_idText id id') h

theorem Slot.name_injective : Function.Injective Slot.name := by
  intro slot slot' h
  cases slot <;> cases slot' <;> simp [Slot.name] at h ⊢

theorem Slot.name_append_inj {slot slot' : Slot} {rest rest' : List Char}
    (h : slot.name.toList ++ '\'' :: rest = slot'.name.toList ++ '\'' :: rest') :
    slot = slot' ∧ rest = rest' := by
  have hname (slot : Slot) : ∀ c ∈ slot.name.toList, (c != '\'') = true := by
    cases slot <;> simp [Slot.name]
  have hquote (rest : List Char) : ∀ c ∈ ('\'' :: rest).head?, (c != '\'') = false := by
    rintro _ ⟨⟩
    rfl
  obtain ⟨hsame, hbehind⟩ := class_append_inj h (hname slot) (hname slot') (hquote _) (hquote _)
  exact ⟨Slot.name_injective (String.toList_inj.1 hsame), (List.cons.inj hbehind).2⟩

/-! ## Violations -/

/-- The character that the wording of a defect begins with. -/
def Defect.initial : Defect → Char
  | .noStart | .multipleStarts _ => 'g'
  | .dangling .. | .cycle .. | .startReferenced _ => '\''
  | .missingArm _ => 'c'
  | .emptyAttribute _ => 'r'

theorem Defect.head?_message (defect : Defect) :
    defect.message.toList.head? = some defect.initial := by
  cases defect <;> unfold Defect.message <;> simp [Defect.initial, apostrophed]

/-- A slot between apostrophes is told, whatever stands behind it. -/
theorem apostrophed_append_inj {slot slot' : Slot} {rest rest' : List Char}
    (h : (apostrophed slot.name).toList ++ rest = (apostrophed slot'.name).toList ++ rest') :
    slot = slot' ∧ rest = rest' := by
  apply Slot.name_append_inj
  simpa [apostrophed] using h

/-- A number of start blocks is no word. -/
theorem Defect.message_noStart_ne (ids : List BlockId) :
    Defect.noStart.message ≠ (Defect.multipleStarts ids).message := by
  intro h
  obtain ⟨c, cs, hdigits, hdigit⟩ := exists_decimal_eq ids.length
  have hchars := congrArg String.toList h
  unfold Defect.message at hchars
  simp only [String.toList_append, hdigits] at hchars
  simp at hchars
  -- the word begins with a letter
  rw [← hchars.1] at hdigit
  cases hdigit

/-- What is said of a slot, in the wordings that begin with one. -/
inductive SaidOf (slot : Slot) : Defect → String → Prop
  | dangling (target : BlockId) :
    SaidOf slot (.dangling slot target) (" refers to missing block " ++ idText target)
  | cycle (target : BlockId) : SaidOf slot (.cycle slot target)
      (" to block " ++ (idText target ++ " closes a reference cycle"))
  | startReferenced : SaidOf slot (.startReferenced slot) " refers to the start block"

theorem SaidOf.message_eq {slot : Slot} {defect : Defect} {remark : String}
    (h : SaidOf slot defect remark) : defect.message = apostrophed slot.name ++ remark := by
  cases h <;> unfold Defect.message <;> simp only [String.append_assoc]

/-- What is wrong with a slot is told by what is said of it. -/
theorem SaidOf.defect_eq {slot : Slot} {defect defect' : Defect} {remark remark' : String}
    (h : SaidOf slot defect remark) (h' : SaidOf slot defect' remark') (heq : remark = remark') :
    defect = defect' := by
  have hchars : remark.toList ++ [] = remark'.toList ++ [] := by rw [heq]
  cases h with
  | dangling target =>
    cases h' with
    | dangling target' =>
      simp only [String.toList_append, List.append_assoc, List.append_cancel_left_eq] at hchars
      rw [(toldBy_idText target target' _ _ (by simp) (by simp) hchars).1]
    | cycle target' => simp at hchars
    | startReferenced => simp at hchars
  | cycle target =>
    cases h' with
    | dangling target' => simp at hchars
    | cycle target' =>
      simp only [String.toList_append, List.append_assoc, List.append_cancel_left_eq] at hchars
      rw [(toldBy_idText target target' _ _ (by simp) (by simp) hchars).1]
    | startReferenced => simp at hchars
  | startReferenced =>
    cases h' with
    | dangling target' => simp at hchars
    | cycle target' => simp at hchars
    | startReferenced => rfl

/-- A wording that begins with an apostrophe says something of a slot. -/
theorem Defect.exists_saidOf {defect : Defect} (h : defect.initial = '\'') :
    ∃ slot remark, SaidOf slot defect remark := by
  cases defect with
  | dangling slot target => exact ⟨slot, _, .dangling target⟩
  | cycle slot target => exact ⟨slot, _, .cycle target⟩
  | startReferenced slot => exact ⟨slot, _, .startReferenced⟩
  | _ => simp [Defect.initial] at h

/-- What is wrong is told by its wording. -/
theorem Defect.message_injective : Function.Injective Defect.message := by
  intro defect defect' h
  have hinitial : defect.initial = defect'.initial := by
    have hhead := congrArg (fun text : String => text.toList.head?) h
    simpa [Defect.head?_message] using hhead
  by_cases hslot : defect.initial = '\''
  · obtain ⟨slot, remark, hsaid⟩ := exists_saidOf hslot
    obtain ⟨slot', remark', hsaid'⟩ := exists_saidOf (hinitial ▸ hslot)
    rw [hsaid.message_eq, hsaid'.message_eq] at h
    have hchars := congrArg String.toList h
    rw [String.toList_append, String.toList_append] at hchars
    obtain ⟨rfl, hremark⟩ := apostrophed_append_inj hchars
    exact hsaid.defect_eq hsaid' (String.toList_inj.1 hremark)
  · cases defect with
    | noStart =>
      cases defect' with
      | noStart => rfl
      | multipleStarts ids' => exact absurd h (message_noStart_ne ids')
      | _ => simp [Defect.initial] at hinitial
    | multipleStarts ids =>
      cases defect' with
      | noStart => exact absurd h.symm (message_noStart_ne ids)
      | multipleStarts ids' =>
        have hchars := congrArg String.toList h
        unfold Defect.message at hchars
        simp only [String.toList_append, List.append_assoc, List.append_cancel_left_eq] at hchars
        obtain ⟨-, hrest⟩ := decimal_append_inj hchars (by simp) (by simp)
        rw [List.append_cancel_left_eq] at hrest
        rw [(idList_append_inj hrest).1]
      | _ => simp [Defect.initial] at hinitial
    | missingArm arm =>
      cases defect' with
      | missingArm arm' =>
        unfold Defect.message at h
        simp only [apostrophed, String.append_assoc, String.append_right_inj] at h
        simp only [← String.append_assoc, String.append_left_inj] at h
        rw [Slot.name_injective h]
      | _ => simp [Defect.initial] at hinitial
    | emptyAttribute name =>
      cases defect' with
      | emptyAttribute name' =>
        unfold Defect.message at h
        simpa [apostrophed] using h
      | _ => simp [Defect.initial] at hinitial
    | _ => exact absurd rfl hslot

/-- A violation is told by its wording: no wording of a defect begins like the number of a block. -/
theorem Violation.message_injective : Function.Injective Violation.message := by
  have hblock (id : BlockId) (defect defect' : Defect) :
      "block " ++ idText id ++ ": " ++ defect.message ≠ defect'.message := by
    intro h
    have hhead := congrArg (fun text : String => text.toList.head?) h
    rw [Defect.head?_message] at hhead
    cases defect' <;> simp [Defect.initial] at hhead
  rintro ⟨block, defect⟩ ⟨block', defect'⟩ h
  cases block with
  | none =>
    cases block' with
    | none =>
      obtain rfl : defect = defect' := Defect.message_injective h
      rfl
    | some id' => exact absurd h.symm (hblock id' defect' defect)
  | some id =>
    cases block' with
    | none => exact absurd h (hblock id defect defect')
    | some id' =>
      have hchars := congrArg String.toList h
      simp only [Violation.message, String.toList_append, List.append_assoc,
        List.append_cancel_left_eq] at hchars
      obtain ⟨rfl, hrest⟩ := toldBy_idText id id' _ _ (by simp) (by simp) hchars
      rw [List.append_cancel_left_eq, String.toList_inj] at hrest
      rw [Defect.message_injective hrest]

/-! ## Reports -/

/-- Whether a wording stays on one line: the name of an attribute in it has no line feed. -/
def Violation.SingleLined (violation : Violation) : Prop :=
  ∀ name, violation.defect = .emptyAttribute name → '\n' ∉ name.toList

theorem newline_notMem_idText (id : BlockId) : '\n' ∉ (idText id).toList :=
  newline_notMem_decimal id.toNat

theorem newline_notMem_idList (ids : List BlockId) : '\n' ∉ (idList ids).toList := by
  cases ids with
  | nil => exact List.not_mem_nil
  | cons id ids =>
    rw [idList, intercalate_cons]
    simp [rowBehind, newline_notMem_idText]

theorem Slot.newline_notMem_name (slot : Slot) : '\n' ∉ slot.name.toList := by
  cases slot <;> decide

theorem Violation.newline_notMem_message {violation : Violation} (h : violation.SingleLined) :
    '\n' ∉ violation.message.toList := by
  have hdefect : '\n' ∉ violation.defect.message.toList := by
    have hid := newline_notMem_idText
    have hslot := Slot.newline_notMem_name
    cases hkind : violation.defect <;> unfold Defect.message
    case emptyAttribute name => simp [apostrophed, h name hkind]
    all_goals simp [apostrophed, newline_notMem_decimal, newline_notMem_idList, hid, hslot]
  rw [Violation.message]
  cases violation.block with
  | none => exact hdefect
  | some id => simp [newline_notMem_idText, hdefect]

/-- The lines of a report: how many violations there are, and each of them. -/
def Report.lines (report : Report) : List String :=
  (decimal report.violations.length ++ " validation error(s)") ::
    report.violations.map fun violation => "  - " ++ violation.message

theorem Report.newline_notMem_lines {report : Report}
    (h : ∀ violation ∈ report.violations, violation.SingleLined) :
    ∀ line ∈ report.lines, '\n' ∉ line.toList := by
  rw [Report.lines, List.forall_mem_cons, List.forall_mem_map]
  constructor
  · simp [newline_notMem_decimal]
  · intro violation hviolation
    simp [Violation.newline_notMem_message (h violation hviolation)]

theorem Report.message_eq (report : Report) : report.message = "\n".intercalate report.lines := by
  have hline : Violation.reportLine = fun violation => "\n" ++ ("  - " ++ violation.message) := by
    funext violation
    rw [Violation.reportLine, ← String.append_assoc]
    rfl
  have hbehind : rowBehind "\n" id
        (report.violations.map fun violation => "  - " ++ violation.message) =
      String.join (report.violations.map Violation.reportLine) := by
    rw [rowBehind, List.map_map, hline]
    rfl
  have hrow := intercalate_cons "\n" id (decimal report.violations.length ++
    " validation error(s)") (report.violations.map fun violation => "  - " ++ violation.message)
  rw [List.map_id, hbehind] at hrow
  rw [Report.lines, hrow, Report.message, id_eq]

/-- A report is told by its lines. -/
theorem Report.lines_injective : Function.Injective Report.lines := by
  rintro ⟨violations⟩ ⟨violations'⟩ h
  have hrest : violations.map (fun violation => "  - " ++ violation.message) =
      violations'.map fun violation => "  - " ++ violation.message := (List.cons.inj h).2
  obtain rfl : violations = violations' := by
    refine List.map_injective_iff.2 (fun violation violation' hsame => ?_) hrest
    exact Violation.message_injective ((String.append_right_inj _).1 hsame)
  rfl

/-- **Reports as texts.** The wording of a report has one line with the number of violations and
below it one line for each violation, in order; and no other report has the same wording. So it is
with the failure of a compilation, where words stand in front. -/
theorem Report.message_faithful {report report' : Report}
    (h : ∀ violation ∈ report.violations, violation.SingleLined)
    (h' : ∀ violation ∈ report'.violations, violation.SingleLined) :
    (linesOf report.message = report.lines ∧
        (report.message = report'.message ↔ report = report')) ∧
      linesOf (CompileError.invalid report).message =
          report.lines.modifyHead ("invalid block graph: " ++ ·) ∧
        ((CompileError.invalid report).message = (CompileError.invalid report').message ↔
          report = report') := by
  have hlines {report : Report} (h : ∀ violation ∈ report.violations, violation.SingleLined) :
      linesOf report.message = report.lines := by
    rw [Report.message_eq]
    exact linesOf_intercalate (List.cons_ne_nil _ _) (Report.newline_notMem_lines h)
  have htold : report.message = report'.message ↔ report = report' := by
    refine ⟨fun hsame => Report.lines_injective ?_, fun hsame => by rw [hsame]⟩
    rw [← hlines h, ← hlines h', hsame]
  have hinvalid (report : Report) :
      (CompileError.invalid report).message = "invalid block graph: " ++ report.message := rfl
  refine ⟨⟨hlines h, htold⟩, ?_, ?_⟩
  · rw [hinvalid, linesOf_append (by decide), hlines h]
  · rw [hinvalid, hinvalid, String.append_right_inj]
    exact htold

/-- A report in which the name of an attribute reads like the end of its line. -/
def deceptive : Report :=
  ⟨[.ofGraph (.multipleStarts [0, 3]), .at 2 (.dangling .ifFalse 9), .at 2 (.startReferenced .next),
    .at 4 (.emptyAttribute "name' is empty")]⟩

/-- The report with the name that this one seems to have. -/
def plainspoken : Report :=
  ⟨[.ofGraph (.multipleStarts [0, 3]), .at 2 (.dangling .ifFalse 9), .at 2 (.startReferenced .next),
    .at 4 (.emptyAttribute "name")]⟩

/-- The two do not read alike. -/
theorem message_deceptive_ne_message_plainspoken :
    (∀ violation ∈ deceptive.violations, violation.SingleLined) ∧
      (∀ violation ∈ plainspoken.violations, violation.SingleLined) ∧
      linesOf deceptive.message = ["4 validation error(s)",
        "  - graph has 2 start blocks (0, 3), expected exactly one",
        "  - block 2: 'children.false' refers to missing block 9",
        "  - block 2: 'next' refers to the start block",
        "  - block 4: required attribute 'name' is empty' is empty"] ∧
      deceptive.message ≠ plainspoken.message := by
  have hdeceptive : ∀ violation ∈ deceptive.violations, violation.SingleLined := by
    simp [deceptive, Violation.SingleLined, Violation.ofGraph, Violation.at]
  have hplainspoken : ∀ violation ∈ plainspoken.violations, violation.SingleLined := by
    simp [plainspoken, Violation.SingleLined, Violation.ofGraph, Violation.at]
  have hfaithful := (Report.message_faithful hdeceptive hplainspoken).1
  refine ⟨hdeceptive, hplainspoken, hfaithful.1.trans ?_, fun hsame => ?_⟩
  · decide
  · exact absurd (hfaithful.2.1 hsame) (by decide)

end BlockDiagram
