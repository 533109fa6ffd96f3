import RoomScript.Proofs.Dispatch
import RoomScript.Proofs.Keeping
import RoomScript.Proofs.Meaning

/-!
# What the handlers make of nested code

Each instruction of nested code is written by a step, and its handler does what the step says: a
statement has the deed of its step, and the headers and ends of blocks do to the two stacks of the
thread what `Thread.openIf` and its like describe. Here are the equations, one for each way an
instruction comes out where the stacks are as they should be.

**Main statements.** `PlainStep.does`: a statement is read back from its bytes, and its handler asks
for the writes of its deed. The lemmas in `Handler.Does` are those of the control instructions.
-/

namespace RoomScript

open Code Layout Payload

/-! ### Reading statements back -/

section Payloads

variable (a b c : UInt8) (v w x : Int16) (word : UInt16)

/-- A signed word is read back from its two bytes. -/
theorem Layout.toInt16_signedBytes :
    (Layout.word (low v.toUInt16) (high v.toUInt16)).toInt16 = v := by
  rw [word_low_high, Int16.toInt16_toUInt16]

theorem decode_check : decode Check (Opcode.check.bytes [a, b, c]).toArray = .ok ⟨a, b, c⟩ := rfl

theorem decode_setBit : decode SetBit (Opcode.setBit.bytes [a, b, c]).toArray = .ok ⟨a, b, c⟩ := rfl

theorem decode_compare :
    decode Compare (Opcode.compare.bytes ([0, a, b] ++ signedBytes v)).toArray = .ok ⟨a, b, v⟩ := by
  have h : decode Compare (Opcode.compare.bytes ([0, a, b] ++ signedBytes v)).toArray =
    .ok ⟨a, b, (Layout.word (low v.toUInt16) (high v.toUInt16)).toInt16⟩ := rfl
  rw [h, toInt16_signedBytes]

theorem decode_save : decode Save (Opcode.save.bytes (a :: signedBytes v)).toArray =
    .ok ⟨a, v⟩ := by
  have h : decode Save (Opcode.save.bytes (a :: signedBytes v)).toArray =
    .ok ⟨a, (Layout.word (low v.toUInt16) (high v.toUInt16)).toInt16⟩ := rfl
  rw [h, toInt16_signedBytes]

theorem decode_copy : decode Copy (Opcode.copy.bytes [a, b]).toArray = .ok ⟨a, b⟩ := rfl

theorem decode_calculate :
    decode Calculate (Opcode.calculate.bytes ([0, a, b] ++ signedBytes v)).toArray =
      .ok ⟨a, b, v⟩ := by
  have h : decode Calculate (Opcode.calculate.bytes ([0, a, b] ++ signedBytes v)).toArray =
    .ok ⟨a, b, (Layout.word (low v.toUInt16) (high v.toUInt16)).toInt16⟩ := rfl
  rw [h, toInt16_signedBytes]

theorem decode_calculateFrom :
    decode CalculateFrom (Opcode.calculateFrom.bytes [a, b, c]).toArray = .ok ⟨a, b, c⟩ := rfl

theorem decode_cutChg : decode CutChange (Opcode.cutChg.bytes [a]).toArray = .ok ⟨a⟩ := rfl

theorem decode_workSet : decode WorkSelect (Opcode.workSet.bytes [a, b]).toArray = .ok ⟨a, b⟩ := rfl

theorem decode_posSet :
    decode PosSet (Opcode.posSet.bytes
      (0 :: signedBytes v ++ signedBytes w ++ signedBytes x)).toArray = .ok ⟨v, w, x⟩ := by
  have h : decode PosSet (Opcode.posSet.bytes
      (0 :: signedBytes v ++ signedBytes w ++ signedBytes x)).toArray =
    .ok ⟨(Layout.word (low v.toUInt16) (high v.toUInt16)).toInt16,
      (Layout.word (low w.toUInt16) (high w.toUInt16)).toInt16,
      (Layout.word (low x.toUInt16) (high x.toUInt16)).toInt16⟩ := rfl
  rw [h, toInt16_signedBytes, toInt16_signedBytes, toInt16_signedBytes]

theorem decode_memberSet : decode MemberSet (Opcode.memberSet.bytes (a :: signedBytes v)).toArray =
    .ok ⟨a, v⟩ := by
  have h : decode MemberSet (Opcode.memberSet.bytes (a :: signedBytes v)).toArray =
    .ok ⟨a, (Layout.word (low v.toUInt16) (high v.toUInt16)).toInt16⟩ := rfl
  rw [h, toInt16_signedBytes]

theorem decode_scaIdSet :
    decode CollisionSet (Opcode.scaIdSet.bytes (a :: wordBytes word)).toArray = .ok ⟨a, word⟩ := by
  have h : decode CollisionSet (Opcode.scaIdSet.bytes (a :: wordBytes word)).toArray =
    .ok ⟨a, Layout.word (low word) (high word)⟩ := rfl
  rw [h, word_low_high]

theorem decode_goto :
    decode Goto (Opcode.goto.bytes ([0xff, 0xff, 0] ++ signedBytes v)).toArray =
      .ok ⟨-1, -1, v⟩ := by
  have h : decode Goto (Opcode.goto.bytes ([0xff, 0xff, 0] ++ signedBytes v)).toArray =
    .ok ⟨-1, -1, (Layout.word (low v.toUInt16) (high v.toUInt16)).toInt16⟩ := rfl
  rw [h, toInt16_signedBytes]

end Payloads

/-! ### Statements -/

/-- The steps that only look at the game and change it. -/
def Step.isStatement : Step → Bool
  | .nop | .goto _ | .check .. | .setBit .. | .compare .. | .save .. | .copy .. | .calculate ..
  | .calculateFrom .. | .cutChg _ | .workSet .. | .posSet .. | .memberSet .. | .scaIdSet .. => true
  | _ => false

/-- The statements that ask whether something holds. -/
def Step.isCondition : Step → Bool
  | .check .. | .compare .. => true
  | _ => false

theorem Deed.ending_store (selected : WorkSet) (var : UInt8) (value : Except Fault Int32) :
    (store selected var value).ending = .done ∨
      ∃ f, (store selected var value).ending = .fault f := by
  cases value with
  | ok value => exact .inl rfl
  | error f => exact .inr ⟨f, rfl⟩

theorem Deed.ending_condition (selected : WorkSet) (holds : Bool) :
    (condition selected holds).ending = .done ∨ (condition selected holds).ending = .failed := by
  cases holds with
  | true => exact .inl rfl
  | false => exact .inr rfl

/-- **A statement is carried out or faults, and only a condition can fail.** -/
theorem Step.ending_deed {s : Step} (hs : s.isStatement = true) (view : Host.View)
    (selected : WorkSet) :
    (s.deed view selected).ending = .done ∨
      (∃ f, (s.deed view selected).ending = .fault f) ∨
      (s.deed view selected).ending = .failed ∧ s.isCondition = true := by
  -- conditions fail, what computes may fault, and everything else gets done
  cases s with
  | check array bit value =>
    exact (Deed.ending_condition selected _).imp id fun h => .inr ⟨h, rfl⟩
  | compare var operation value =>
    exact (Deed.ending_condition selected _).imp id fun h => .inr ⟨h, rfl⟩
  | setBit array bit operation =>
    simp only [deed]
    split
    · exact .inl rfl
    · exact .inl rfl
    · exact .inl rfl
    · exact .inr (.inl ⟨_, rfl⟩)
  | calculate operation var value => exact (Deed.ending_store selected var _).imp id .inl
  | calculateFrom operation var source => exact (Deed.ending_store selected var _).imp id .inl
  | posSet x y z =>
    simp only [deed]
    split <;> exact .inl rfl
  | memberSet member value =>
    simp only [deed]
    split
    · split <;> exact .inl rfl
    · exact .inl rfl
  | scaIdSet id flag =>
    simp only [deed]
    split <;> exact .inl rfl
  | nop | goto | save | copy | cutChg | workSet => exact .inl rfl
  | _ => exact nomatch hs

/-- How a thread goes on after a statement. -/
def Ending.flow : Ending → Except Fault Flow
  | .failed => .ok .unwind
  | .fault f => .error f
  | _ => .ok .next

theorem Deed.flow_condition (selected : WorkSet) (holds : Bool) :
    (condition selected holds).ending.flow = .ok (Flow.ofCondition holds) := by
  cases holds <;> rfl

namespace Handler.Does

variable {script : Script} {t t' : Thread} {view : Host.View} {op : Opcode} {raw : Bytes}
  {writes : List Write} {result : Except Fault Flow}

/-- A handler that reads a payload gets to see it. -/
theorem of_reading {α : Type} [Payload α] {run : {n : Nat} → Site n → Host.View → α → Reaction n}
    {p : α} (hop : standard op = reading α run) (hp : decode α raw = .ok p)
    (h : ∀ {n : Nat} (site : Site n), site.script = script → site.thread = t →
      (run site view p).pool = site.replace t' ∧ (run site view p).writes = writes ∧
        (run site view p).result = result) :
    Does script t view op raw t' writes result := by
  intro n site hscript hthread
  have hrun : (standard op).run site view raw = run site view p := by
    simp only [hop, reading, decodeAt_of_decode hp]
  rw [hrun]
  exact h site hscript hthread

/-- A handler that leaves every thread as it was. -/
theorem pool_same {n : Nat} {site : Site n} (h : site.thread = t) : site.pool = site.replace t := by
  rw [← h]
  exact (Pool.replace_thread _ _).symm

theorem store {n : Nat} {site : Site n} (h : site.thread = t) (var : UInt8)
    (value : Except Fault Int32) :
    (Memory.store site var value).pool = site.replace t ∧
      (Memory.store site var value).writes = (Deed.store t.workSet var value).writes ∧
      (Memory.store site var value).result = (Deed.store t.workSet var value).ending.flow ∧
      (Deed.store t.workSet var value).selected = t.workSet := by
  cases value with
  | ok value => exact ⟨pool_same h, rfl, rfl, rfl⟩
  | error f => exact ⟨pool_same h, rfl, rfl, rfl⟩

end Handler.Does

open Handler.Does in
/-- **The handler of a statement does what the statement says.** -/
theorem PlainStep.does {s : PlainStep} (hs : s.val.isStatement = true) (script : Script)
    (t : Thread) (view : Host.View) :
    Handler.Does script t view s.op s.bytes.toArray
      { t with workSet := (s.val.deed view t.workSet).selected }
      (s.val.deed view t.workSet).writes (s.val.deed view t.workSet).ending.flow := by
  obtain ⟨s, hplain⟩ := s
  -- the payload is read back from the bytes, and then the handler is the deed
  cases s with
  | nop => exact fun n site _ ht => ⟨pool_same ht, rfl, rfl⟩
  | goto offset =>
    exact of_reading rfl (decode_goto offset) fun site _ ht => ⟨pool_same ht, rfl, rfl⟩
  | check array bit value =>
    refine of_reading rfl (decode_check array bit value) fun site _ ht => ⟨pool_same ht, rfl, ?_⟩
    exact (Deed.flow_condition _ _).symm
  | compare var operation value =>
    refine of_reading rfl (decode_compare var operation value)
      fun site _ ht => ⟨pool_same ht, rfl, ?_⟩
    exact (Deed.flow_condition _ _).symm
  | setBit array bit operation =>
    refine of_reading rfl (decode_setBit array bit operation) fun site _ ht => ?_
    simp only [Memory.setBit, Step.deed]
    -- eight operations, most of which do nothing, and those beyond them
    generalize operation.toNat = m
    rcases m with _ | _ | _ | _ | _ | _ | _ | _ | m <;> exact ⟨pool_same ht, rfl, rfl⟩
  | save var value =>
    exact of_reading rfl (decode_save var value) fun site _ ht => ⟨pool_same ht, rfl, rfl⟩
  | copy dest source =>
    exact of_reading rfl (decode_copy dest source) fun site _ ht => ⟨pool_same ht, rfl, rfl⟩
  | calculate operation var value =>
    refine of_reading rfl (decode_calculate operation var value) fun site _ ht => ?_
    obtain ⟨hpool, hwrites, hresult, hselected⟩ := store ht var
      (Calculator.calculate operation (view.var var) value.toInt32)
    simp only [Step.deed, hselected]
    exact ⟨hpool, hwrites, hresult⟩
  | calculateFrom operation var source =>
    refine of_reading rfl (decode_calculateFrom operation var source) fun site _ ht => ?_
    obtain ⟨hpool, hwrites, hresult, hselected⟩ := store ht var
      (Calculator.calculate operation (view.var var) (view.var source))
    simp only [Step.deed, hselected]
    exact ⟨hpool, hwrites, hresult⟩
  | cutChg camera =>
    exact of_reading rfl (decode_cutChg camera) fun site _ ht => ⟨pool_same ht, rfl, rfl⟩
  | workSet component index =>
    refine of_reading rfl (decode_workSet component index) fun site _ ht => ?_
    subst ht
    exact ⟨rfl, rfl, rfl⟩
  | posSet x y z =>
    refine of_reading rfl (decode_posSet x y z) fun site _ ht => ?_
    simp only [Staging.posSet, Step.deed, ht]
    cases t.workSet.target <;> exact ⟨pool_same ht, rfl, rfl⟩
  | memberSet member value =>
    refine of_reading rfl (decode_memberSet member value) fun site _ ht => ?_
    simp only [Staging.memberSet, Step.deed, ht]
    by_cases hmember : member = MemberSet.rotation
    · simp only [if_pos hmember]
      cases t.workSet.target <;> exact ⟨pool_same ht, rfl, rfl⟩
    · simp only [if_neg hmember]
      exact ⟨pool_same ht, rfl, rfl⟩
  | scaIdSet id flag =>
    refine of_reading rfl (decode_scaIdSet id flag) fun site _ ht => ?_
    simp only [Staging.collisionSet, Step.deed]
    by_cases hflag : flag = 0
    · simp only [if_pos hflag]
      exact ⟨pool_same ht, rfl, rfl⟩
    · simp only [if_neg hflag]
      exact ⟨pool_same ht, rfl, rfl⟩
  | _ => exact absurd hs Bool.false_ne_true

/-! ### Control instructions -/

namespace Handler.Does

variable {script : Script} {t t' : Thread} {view : Host.View} {raw : Bytes}

/-- The end of a script on the outermost level. -/
theorem evtEnd (h : t.sub = 0) : Does script t view .evtEnd raw t.halt [] (.ok .halt) := by
  intro n site _ ht
  subst ht
  have hnone : site.thread.leaveSubroutine = none := by simp [Thread.leaveSubroutine, h]
  have hrun : (standard .evtEnd).run site view raw = Control.evtEnd site := rfl
  rw [hrun, Control.evtEnd, hnone]
  exact ⟨rfl, rfl, rfl⟩

theorem ifStart {p : Block} (hp : decode Block raw = .ok p)
    (h : t.pushBlock (t.pc + Opcode.ifStart.size + p.length.toNat) = .ok t') :
    Does script t view .ifStart raw t' [] (.ok .next) := by
  refine of_reading rfl hp fun site _ ht => ?_
  subst ht
  simp only [Control.ifStart, Site.pc, h]
  exact ⟨rfl, rfl, rfl⟩

theorem elseStart {p : Block} {resume : Nat} (hp : decode Block raw = .ok p)
    (h : t.popBlock = (t', .ok resume)) :
    Does script t view .elseStart raw (t'.jump (t'.pc + p.length.toNat)) [] (.ok .next) := by
  refine of_reading rfl hp fun site _ ht => ?_
  subst ht
  simp only [Control.elseStart, Control.leaveBlock, h]
  exact ⟨rfl, rfl, rfl⟩

theorem endIf {resume : Nat} (h : t.popBlock = (t', .ok resume)) :
    Does script t view .endIf raw t' [] (.ok .next) := by
  intro n site _ ht
  subst ht
  have hrun : (standard .endIf).run site view raw = Control.endIf site := rfl
  simp only [hrun, Control.endIf, Control.leaveBlock, h]
  exact ⟨rfl, rfl, rfl⟩

/-- A loop without rounds is skipped. -/
theorem skipLoop {p : ForLoop} (hp : decode ForLoop raw = .ok p) (hc : p.count = 0) :
    Does script t view .forLoop raw (t.jump (t.pc + Opcode.forLoop.size + p.length.toNat)) []
      (.ok .next) := by
  refine of_reading rfl hp fun site _ ht => ?_
  subst ht
  simp only [Control.forStart, if_pos hc]
  exact ⟨rfl, rfl, rfl⟩

theorem openLoop {p : ForLoop} (hp : decode ForLoop raw = .ok p) (hc : p.count ≠ 0)
    (h : t.pushLoop (p.frame t.pc t.level.ifCounter) = .ok t') :
    Does script t view .forLoop raw (t'.jump (t.pc + Opcode.forLoop.size)) [] (.ok .next) := by
  refine of_reading rfl hp fun site _ ht => ?_
  subst ht
  simp only [Control.forStart, if_neg hc]
  rw [← ForLoop.frame, h]
  exact ⟨rfl, rfl, rfl⟩

/-- A round of a loop ends, and there are more to come. -/
theorem loopOn {i : Fin loopDepth} (hi : t.level.openFrame? = some i)
    (hc : 1 < (t.level.frames.get i).counter) :
    Does script t view .forEnd raw ((t.countDown i).jump (t.level.frames.get i).body) []
      (.ok .next) := by
  intro n site _ ht
  subst ht
  have hrun : (standard .forEnd).run site view raw = Control.forEnd site := rfl
  rw [hrun, Control.forEnd]
  simp only [Thread.currentLoop_of_open hi, bind, Except.bind, Thread.setCounter_of_open hi]
  rw [if_pos (by omega)]
  exact ⟨rfl, rfl, rfl⟩

/-- The last round of a loop ends. -/
theorem leaveLoop {i : Fin loopDepth} (hi : t.level.openFrame? = some i)
    (hc : (t.level.frames.get i).counter ≤ 1) :
    Does script t view .forEnd raw
      ((t.countDown i).dropLoop.jump (t.pc + Opcode.forEnd.size)) [] (.ok .next) := by
  intro n site _ ht
  subst ht
  have hrun : (standard .forEnd).run site view raw = Control.forEnd site := rfl
  -- counted down to its end, the frame is still there to be closed
  have hi' : (site.thread.countDown i).level.openFrame? = some i := by
    rw [Thread.openFrame?_countDown, hi]
  rw [hrun, Control.forEnd]
  simp only [Thread.currentLoop_of_open hi, bind, Except.bind, Thread.setCounter_of_open hi]
  rw [if_neg (by omega)]
  simp only [Thread.popLoop_of_open hi']
  exact ⟨rfl, rfl, rfl⟩

/-- A switch goes to the arm that takes the value. -/
theorem takeArm {p : Switch} {address : Nat} (hp : decode Switch raw = .ok p)
    (h : t.pushLoop (p.frame t.pc t.level.ifCounter) = .ok t')
    (ha : Control.findArm script (view.var p.var) (t.pc + Opcode.switch.size) =
      .ok (.body address)) :
    Does script t view .switch raw (t'.jump address) [] (.ok .next) := by
  refine of_reading rfl hp fun site hs ht => ?_
  subst hs ht
  simp only [Control.switch]
  rw [← Switch.frame, h]
  simp only [ha]
  exact ⟨rfl, rfl, rfl⟩

/-- A switch without an arm for the value is left at once. -/
theorem takeNone {p : Switch} {address : Nat} (hp : decode Switch raw = .ok p)
    (h : t.pushLoop (p.frame t.pc t.level.ifCounter) = .ok t')
    (ha : Control.findArm script (view.var p.var) (t.pc + Opcode.switch.size) =
      .ok (.behind address)) :
    Does script t view .switch raw (t'.dropLoop.jump address) [] (.ok .next) := by
  refine of_reading rfl hp fun site hs ht => ?_
  subst hs ht
  obtain ⟨i, hi⟩ := Thread.openFrame?_of_pushLoop h
  simp only [Control.switch]
  rw [← Switch.frame, h]
  simp only [ha, Thread.popLoop_of_open hi]
  exact ⟨rfl, rfl, rfl⟩

theorem endSwitch {i : Fin loopDepth} (hi : t.level.openFrame? = some i) :
    Does script t view .endSwitch raw t.dropLoop [] (.ok .next) := by
  intro n site _ ht
  subst ht
  have hrun : (standard .endSwitch).run site view raw = Control.endSwitch site := rfl
  rw [hrun, Control.endSwitch, Thread.popLoop_of_open hi]
  exact ⟨rfl, rfl, rfl⟩

/-- The header of an arm is stepped over. -/
theorem arm (label : Option UInt16) :
    Does script t view (armOp label) raw t [] (.ok .next) := by
  intro n site _ ht
  cases label <;> exact ⟨pool_same ht, rfl, rfl⟩

theorem breakLoop {i : Fin loopDepth} (hi : t.level.openFrame? = some i) :
    Does script t view .breakLoop raw (t.breakOut (t.level.frames.get i)) [] (.ok .next) := by
  intro n site _ ht
  subst ht
  have hrun : (standard .breakLoop).run site view raw = Control.breakLoop site := rfl
  rw [hrun, Control.breakLoop]
  simp only [Thread.popLoop_of_open hi, bind, Except.bind]
  rw [Thread.breakOut_eq]
  exact ⟨rfl, rfl, rfl⟩

end Handler.Does

end RoomScript
