import RoomScript.Machine

/-!
# What an instruction can do to its thread

The handlers of the control instructions are compositions of a few operations on a thread: opening
and closing an if block, opening, counting and closing a loop frame, calling and returning, jumping.
`Effect` lists them, one rule for each way an instruction can come out, with everything the handler
has looked at. An invariant of threads is then a case analysis on the rules and never opens a
handler.

**Main statements.** `Handler.standard_effect`: every instruction that was fetched whole, other than
the one that starts an event, changes its own thread alone and has an `Effect` on it.
`Control.schedule_result`: starting an event changes the thread alone that takes it.
-/

namespace RoomScript

open Payload

/-! ### Instructions with all their bytes -/

/-- The bytes are those of one instruction of the opcode, and all of them. -/
structure Whole (op : Opcode) (raw : Bytes) : Prop where
  opcode : raw[0]? = some op.toByte
  size : raw.size = op.size

/-- A fetch gives whole instructions. -/
theorem Script.whole_of_fetch {s : Script} {pc : Nat} {op : Opcode} {raw : Bytes}
    (h : s.fetch pc = .ok (op, raw)) : Whole op raw := by
  obtain ⟨hbyte, hle, rfl⟩ := fetch_eq_ok_iff.mp h
  have hpos := op.size_pos
  refine ⟨?_, by rw [Array.size_extract]; omega⟩
  rw [Array.getElem?_extract, if_pos (by omega), Nat.add_zero, hbyte]

/-- Behind the code there is nothing to fetch. -/
theorem Script.fetch_of_le {s : Script} {pc : Nat} (h : s.data.size ≤ pc) :
    s.fetch pc = .error (.pcOutOfRange pc s.data.size) := by
  rw [fetch, Array.getElem?_eq_none h]

/-- A payload that fits its opcode can be read off a whole instruction. -/
theorem Whole.decode {α : Type} [Payload α] {op : Opcode} {raw : Bytes} (h : Whole op raw)
    (hwidth : 1 + (layout op : Layout α).width ≤ op.size) : ∃ p : α, decode α raw = .ok p := by
  cases hp : (layout op : Layout α).ofBytes raw with
  | none =>
    have := (Layout.ofBytes_eq_none_iff _ _).mp hp
    have := h.size
    omega
  | some p => exact ⟨p, by simp [Payload.decode, h.opcode, hp]⟩

theorem Payload.decodeAt_of_decode {α : Type} [Payload α] {raw : Bytes} {p : α}
    (h : decode α raw = .ok p) (pc : Nat) : decodeAt α raw pc = .ok p := by
  rw [decodeAt, h]

/-- The handler of a payload that fits its opcode gets to see the payload. -/
theorem Handler.reading_run {α : Type} [Payload α] {n : Nat}
    (run : {n : Nat} → Site n → Host.View → α → Reaction n) {op : Opcode} {raw : Bytes}
    (h : Whole op raw) (hwidth : 1 + (layout op : Layout α).width ≤ op.size) (site : Site n)
    (view : Host.View) :
    ∃ p : α, decode α raw = .ok p ∧ (reading α run).run site view raw = run site view p := by
  obtain ⟨p, hp⟩ := h.decode hwidth
  exact ⟨p, hp, by simp [reading, decodeAt_of_decode hp]⟩

/-! ### The rules -/

/-- The opcodes that touch the control state of a thread. -/
def Opcode.isControl : Opcode → Bool
  | .evtEnd | .evtExec | .ifStart | .elseStart | .endIf | .sleep | .sleeping | .forLoop | .forEnd
  | .switch | .endSwitch | .gosub | .breakLoop => true
  | _ => false

/-- The faults of a value an instruction computes with. -/
def Fault.isValue : Fault → Bool
  | .invalidBitOperation _ | .invalidCalcOperation _ | .divisionByZero _ => true
  | _ => false

/-- A slot looked up by its number. -/
theorem get_eq_getElem {α : Type} {n : Nat} (v : Vector α n) (k : Fin n) :
    v.get k = getElem v k.val k.isLt := rfl

namespace Thread

theorem levels_setLevel (t : Thread) (l : Level) (s : Fin levelCount) :
    (t.setLevel l).levels.get s = if s = t.sub then l else t.levels.get s := by
  simp only [setLevel, get_eq_getElem, Vector.getElem_set, Fin.ext_iff, eq_comm]

/-- Counts one round or tick off the frame in a slot. -/
def countDown (t : Thread) (k : Fin loopDepth) : Thread :=
  t.setLevel { t.level with
    frames := t.level.frames.set k
      { t.level.frames.get k with counter := (t.level.frames.get k).counter - 1 } k.isLt }

/-- Closes the innermost loop frame, whatever is in it. -/
def dropLoop (t : Thread) : Thread :=
  t.setLevel { t.level with loopLevel := t.level.loopLevel - 1 }

/-- Closes the innermost loop frame and the if blocks opened in it, and goes where it says. -/
def breakOut (t : Thread) (frame : Frame) : Thread :=
  (t.setLevel { t.level with
    loopLevel := t.level.loopLevel - 1
    ifCounter := frame.ifCounter }).syncStackIndex.jump frame.breakTo

theorem breakOut_eq (t : Thread) (frame : Frame) :
    (t.dropLoop.setLevel { t.dropLoop.level with ifCounter := frame.ifCounter }).syncStackIndex.jump
      frame.breakTo = t.breakOut frame := by
  simp [breakOut, dropLoop, setLevel, level]

end Thread

/-- The frame a loop header opens at an address. -/
def Payload.ForLoop.frame (p : ForLoop) (pc : Nat) (ifCounter : Int) : Frame :=
  { counter := p.count.toNat
    breakTo := pc + Opcode.forLoop.size + p.length.toNat
    body := pc + Opcode.forLoop.size
    ifCounter := ifCounter }

/-- The frame a switch header opens at an address. -/
def Payload.Switch.frame (p : Switch) (pc : Nat) (ifCounter : Int) : Frame :=
  { breakTo := pc + Opcode.switch.size + p.length.toNat
    body := pc + Opcode.switch.size
    ifCounter := ifCounter }

/-- **What an instruction does to the thread it is executed on**: the opcode, its bytes, the thread
afterwards, and how it comes out. -/
inductive Effect (script : Script) (view : Host.View) (t : Thread) :
    Opcode → Bytes → Thread → Except Fault Flow → Prop
  -- instructions on the game
  | passes {op raw} (hop : op.isControl = false) : Effect script view t op raw t (.ok .next)
  | fails {op raw} (hop : op = .check ∨ op = .compare) :
    Effect script view t op raw t (.ok .unwind)
  | balks {op raw f} (hop : op.isControl = false) (hf : f.isValue = true) :
    Effect script view t op raw t (.error f)
  | selects {raw} (w : WorkSet) :
    Effect script view t .workSet raw { t with workSet := w } (.ok .next)
  -- the end of a script
  | returns {raw t'} (h : t.leaveSubroutine = some t') :
    Effect script view t .evtEnd raw t' (.ok .next)
  | ends {raw} (h : t.leaveSubroutine = none) :
    Effect script view t .evtEnd raw t.halt (.ok .halt)
  -- if blocks
  | opensIf {raw t'} {p : Block} (hp : decode Block raw = .ok p)
      (h : t.pushBlock (t.pc + Opcode.ifStart.size + p.length.toNat) = .ok t') :
    Effect script view t .ifStart raw t' (.ok .next)
  | tooManyIfs {raw f} {p : Block}
      (h : t.pushBlock (t.pc + Opcode.ifStart.size + p.length.toNat) = .error f) :
    Effect script view t .ifStart raw t (.error f)
  | skipsElse {raw t' resume} {p : Block} (hp : decode Block raw = .ok p)
      (h : t.popBlock = (t', .ok resume)) :
    Effect script view t .elseStart raw (t'.jump (t'.pc + p.length.toNat)) (.ok .next)
  | closesIf {raw t' resume} (h : t.popBlock = (t', .ok resume)) :
    Effect script view t .endIf raw t' (.ok .next)
  | noIf {op raw t' f} (hop : op = .elseStart ∨ op = .endIf) (h : t.popBlock = (t', .error f)) :
    Effect script view t op raw t' (.error f)
  -- loop frames
  | sleeps {raw t'} {p : Sleep} (hp : decode Sleep raw = .ok p)
      (h : t.pushLoop { counter := p.count.toNat } = .ok t') :
    Effect script view t .sleep raw (t'.jump (t'.pc + 1)) (.ok .next)
  | dozes {raw} (k : Fin loopDepth) (hk : t.level.openFrame? = some k)
      (hc : 1 < (t.level.frames.get k).counter) :
    Effect script view t .sleeping raw ((t.countDown k).jump t.pc) (.ok .halt)
  | wakes {raw} (k : Fin loopDepth) (hk : t.level.openFrame? = some k)
      (hc : (t.level.frames.get k).counter ≤ 1) :
    Effect script view t .sleeping raw
      ((t.countDown k).dropLoop.jump (t.pc + Opcode.sleeping.size)) (.ok .halt)
  | skipsLoop {raw} {p : ForLoop} (hp : decode ForLoop raw = .ok p) (hc : p.count = 0) :
    Effect script view t .forLoop raw
      (t.jump (t.pc + Opcode.forLoop.size + p.length.toNat)) (.ok .next)
  | opensLoop {raw t'} {p : ForLoop} (hp : decode ForLoop raw = .ok p) (hc : p.count ≠ 0)
      (h : t.pushLoop (p.frame t.pc t.level.ifCounter) = .ok t') :
    Effect script view t .forLoop raw (t'.jump (t.pc + Opcode.forLoop.size)) (.ok .next)
  | loopsOn {raw} (k : Fin loopDepth) (hk : t.level.openFrame? = some k)
      (hc : 1 < (t.level.frames.get k).counter) :
    Effect script view t .forEnd raw ((t.countDown k).jump (t.level.frames.get k).body) (.ok .next)
  | leavesLoop {raw} (k : Fin loopDepth) (hk : t.level.openFrame? = some k)
      (hc : (t.level.frames.get k).counter ≤ 1) :
    Effect script view t .forEnd raw
      ((t.countDown k).dropLoop.jump (t.pc + Opcode.forEnd.size)) (.ok .next)
  | breaks {raw} (k : Fin loopDepth) (hk : t.level.openFrame? = some k) :
    Effect script view t .breakLoop raw (t.breakOut (t.level.frames.get k)) (.ok .next)
  | takesArm {raw t' address} {p : Switch} (hp : decode Switch raw = .ok p)
      (h : t.pushLoop (p.frame t.pc t.level.ifCounter) = .ok t')
      (ha : Control.findArm script (view.var p.var) (t.pc + Opcode.switch.size) =
        .ok (.body address)) :
    Effect script view t .switch raw (t'.jump address) (.ok .next)
  | takesNone {raw t' address} {p : Switch} (hp : decode Switch raw = .ok p)
      (h : t.pushLoop (p.frame t.pc t.level.ifCounter) = .ok t')
      (ha : Control.findArm script (view.var p.var) (t.pc + Opcode.switch.size) =
        .ok (.behind address)) :
    Effect script view t .switch raw (t'.dropLoop.jump address) (.ok .next)
  | losesArm {raw t' f} {p : Switch} (hp : decode Switch raw = .ok p)
      (h : t.pushLoop (p.frame t.pc t.level.ifCounter) = .ok t')
      (ha : Control.findArm script (view.var p.var) (t.pc + Opcode.switch.size) = .error f) :
    Effect script view t .switch raw t' (.error f)
  | closesSwitch {raw} (k : Fin loopDepth) (hk : t.level.openFrame? = some k) :
    Effect script view t .endSwitch raw t.dropLoop (.ok .next)
  | tooManyLoops {op raw f} {frame : Frame} (hop : op = .sleep ∨ op = .forLoop ∨ op = .switch)
      (h : t.pushLoop frame = .error f) : Effect script view t op raw t (.error f)
  | noLoop {op raw} (hop : op = .sleeping ∨ op = .forEnd ∨ op = .breakLoop ∨ op = .endSwitch)
      (hk : t.level.openFrame? = none) :
    Effect script view t op raw t (.error (.loopUnderflow t.pc))
  -- subroutines
  | calls {raw t' target} {p : Gosub} (he : script.entry p.event.toNat = .ok target)
      (h : t.enterSubroutine (t.pc + Opcode.gosub.size) target = .ok t') :
    Effect script view t .gosub raw t' (.ok .next)
  | noEntry {raw f} {p : Gosub} (he : script.entry p.event.toNat = .error f) :
    Effect script view t .gosub raw t (.error f)
  | tooDeep {raw target f}
      (h : t.enterSubroutine (t.pc + Opcode.gosub.size) target = .error f) :
    Effect script view t .gosub raw t (.error f)

/-! What the rules come to for one opcode. -/

section Opcodes

variable {script : Script} {view : Host.View} {t t' : Thread} {raw : Bytes}
  {res : Except Fault Flow}

/-- How the instruction that waits comes out: it counts a tick and stays, counts the last one and
goes on, or finds nothing to count. -/
theorem Effect.sleeping_cases (h : Effect script view t .sleeping raw t' res) :
    (∃ k, t.level.openFrame? = some k ∧ t' = (t.countDown k).jump t.pc ∧ res = .ok .halt) ∨
    (∃ k, t.level.openFrame? = some k ∧ res = .ok .halt ∧
      t' = (t.countDown k).dropLoop.jump (t.pc + Opcode.sleeping.size)) ∨
    (t.level.openFrame? = none ∧ t' = t ∧ ∃ f, res = .error f) := by
  cases h with
  | dozes k hk _ => exact .inl ⟨k, hk, rfl, rfl⟩
  | wakes k hk _ => exact .inr (.inl ⟨k, hk, rfl, rfl⟩)
  | noLoop _ hk => exact .inr (.inr ⟨hk, rfl, _, rfl⟩)
  | passes hop | balks hop _ => exact absurd hop (by decide)
  | fails hop | noIf hop _ | tooManyLoops hop _ => exact absurd hop (by decide)

/-- How the end of a script comes out. -/
theorem Effect.evtEnd_cases (h : Effect script view t .evtEnd raw t' res) :
    (t.leaveSubroutine = some t' ∧ res = .ok .next) ∨
      (t.leaveSubroutine = none ∧ res = .ok .halt) := by
  cases h with
  | returns ht => exact .inl ⟨ht, rfl⟩
  | ends ht => exact .inr ⟨ht, rfl⟩
  | passes hop | balks hop _ => exact absurd hop (by decide)
  | fails hop | noIf hop _ | tooManyLoops hop _ | noLoop hop _ => exact absurd hop (by decide)

/-- How a call comes out. -/
theorem Effect.gosub_cases (h : Effect script view t .gosub raw t' res) :
    (∃ target, t.enterSubroutine (t.pc + Opcode.gosub.size) target = .ok t' ∧ res = .ok .next) ∨
      ∃ f, res = .error f := by
  cases h with
  | calls _ ht => exact .inl ⟨_, ht, rfl⟩
  | noEntry _ | tooDeep _ => exact .inr ⟨_, rfl⟩
  | passes hop | balks hop _ => exact absurd hop (by decide)
  | fails hop | noIf hop _ | tooManyLoops hop _ | noLoop hop _ => exact absurd hop (by decide)

end Opcodes

/-! ### The handlers follow the rules -/

theorem Pool.replace_thread {n : Nat} (p : Pool n) (i : Fin n) : p.replace i (p.thread i) = p :=
  Pool.ext fun j => by
    by_cases h : j = i
    · subst h; rw [thread_replace]
    · rw [thread_replace_of_ne _ _ h]

section Handlers

variable {n : Nat} {site : Site n} {view : Host.View} {raw : Bytes} {op : Opcode}

/-- The reaction changes the current thread alone, and as one of the rules says. -/
def Reaction.Follows (r : Reaction n) (site : Site n) (view : Host.View) (op : Opcode)
    (raw : Bytes) : Prop :=
  ∃ t, r.pool = site.replace t ∧ Effect site.script view site.thread op raw t r.result

/-- A reaction that leaves every thread as it was. -/
theorem Reaction.follows_of_same {r : Reaction n} (hpool : r.pool = site.pool)
    (h : Effect site.script view site.thread op raw site.thread r.result) :
    r.Follows site view op raw :=
  ⟨site.thread, hpool.trans (Pool.replace_thread _ _).symm, h⟩

theorem Site.follows_become {t : Thread} {flow : Flow} {notices : List Notice}
    (h : Effect site.script view site.thread op raw t (.ok flow)) :
    (site.become t flow notices).Follows site view op raw := ⟨t, rfl, h⟩

theorem Site.follows_fault {f : Fault}
    (h : Effect site.script view site.thread op raw site.thread (.error f)) :
    (site.fault f).Follows site view op raw := Reaction.follows_of_same rfl h

theorem Control.evtEnd_follows : (evtEnd site).Follows site view .evtEnd raw := by
  unfold evtEnd
  cases h : site.thread.leaveSubroutine with
  | some t => exact Site.follows_become (.returns h)
  | none => exact Site.follows_become (.ends h)

theorem Control.ifStart_follows {p : Block} (hp : decode Block raw = .ok p) :
    (ifStart site p).Follows site view .ifStart raw := by
  unfold ifStart
  simp only [Site.pc]
  cases h : site.thread.pushBlock (site.thread.pc + Opcode.ifStart.size + p.length.toNat) with
  | ok t => exact Site.follows_become (.opensIf hp h)
  | error f => exact Site.follows_fault (.tooManyIfs h)

theorem Control.elseStart_follows {p : Block} (hp : decode Block raw = .ok p) :
    (elseStart site p).Follows site view .elseStart raw := by
  unfold elseStart leaveBlock
  rcases h : site.thread.popBlock with ⟨t, f | resume⟩
  · exact ⟨_, rfl, .noIf (.inl rfl) h⟩
  · exact Site.follows_become (.skipsElse hp h)

theorem Control.endIf_follows : (endIf site).Follows site view .endIf raw := by
  unfold endIf leaveBlock
  rcases h : site.thread.popBlock with ⟨t, f | resume⟩
  · exact ⟨_, rfl, .noIf (.inr rfl) h⟩
  · exact Site.follows_become (.closesIf h)

theorem Control.sleep_follows {p : Sleep} (hp : decode Sleep raw = .ok p) :
    (sleep site p).Follows site view .sleep raw := by
  unfold sleep
  cases h : site.thread.pushLoop { counter := p.count.toNat } with
  | ok t => exact Site.follows_become (.sleeps hp h)
  | error f => exact Site.follows_fault (.tooManyLoops (.inl rfl) h)

/-- The slot of the innermost frame is the one the loop level stands for. -/
theorem Level.openFrame?_eq_some {l : Level} {k : Fin loopDepth} (h : l.openFrame? = some k) :
    (k.val : Int) = l.loopLevel := by
  unfold openFrame? at h
  split at h
  · next hl =>
    cases h
    exact Int.toNat_of_nonneg hl.1
  · exact nomatch h

/-! Counting down and closing go through the innermost frame, so one look at its slot decides. -/

section Slots

variable {t : Thread} {k : Fin loopDepth}

theorem Thread.currentLoop_of_open (hk : t.level.openFrame? = some k) :
    t.currentLoop = .ok (t.level.frames.get k) := by
  simp [currentLoop, Level.currentLoop?, hk, get_eq_getElem]

theorem Thread.currentLoop_of_none (hk : t.level.openFrame? = none) :
    t.currentLoop = .error (.loopUnderflow t.pc) := by
  simp [currentLoop, Level.currentLoop?, hk]

theorem Thread.setCounter_of_open (hk : t.level.openFrame? = some k) :
    t.setCounter ((t.level.frames.get k).counter - 1) = .ok (t.countDown k) := by
  simp [setCounter, hk, countDown, get_eq_getElem]

theorem Thread.popLoop_of_open (hk : t.level.openFrame? = some k) :
    t.popLoop = .ok (t.level.frames.get k, t.dropLoop) := by
  simp [popLoop, Level.currentLoop?, hk, dropLoop, get_eq_getElem]

theorem Thread.popLoop_of_none (hk : t.level.openFrame? = none) :
    t.popLoop = .error (.loopUnderflow t.pc) := by
  simp [popLoop, Level.currentLoop?, hk]

theorem Thread.openFrame?_countDown (k' : Fin loopDepth) :
    (t.countDown k').level.openFrame? = t.level.openFrame? := by
  simp [countDown, Level.openFrame?]

end Slots

theorem Control.sleeping_follows : (sleeping site).Follows site view .sleeping raw := by
  unfold sleeping
  cases hk : site.thread.level.openFrame? with
  | none =>
    simp only [Thread.currentLoop_of_none hk]
    exact Site.follows_fault (.noLoop (.inl rfl) hk)
  | some k =>
    -- the counter is not what makes a frame open, so it can still be closed afterwards
    have hk' : (site.thread.countDown k).level.openFrame? = some k := by
      rw [Thread.openFrame?_countDown, hk]
    simp only [Thread.currentLoop_of_open hk, bind, Except.bind, Thread.setCounter_of_open hk]
    by_cases hc : (site.thread.level.frames.get k).counter - 1 ≤ 0
    · rw [if_pos hc]
      simp only [Thread.popLoop_of_open hk']
      exact Site.follows_become (.wakes k hk (by omega))
    · rw [if_neg hc]
      exact Site.follows_become (.dozes k hk (by omega))

theorem Control.forStart_follows {p : ForLoop} (hp : decode ForLoop raw = .ok p) :
    (forStart site p).Follows site view .forLoop raw := by
  unfold forStart
  by_cases hc : p.count = 0
  · simp only [if_pos hc]
    exact Site.follows_become (.skipsLoop hp hc)
  · simp only [if_neg hc]
    rw [← ForLoop.frame]
    cases h : site.thread.pushLoop (p.frame site.thread.pc site.thread.level.ifCounter) with
    | ok t => exact Site.follows_become (.opensLoop hp hc h)
    | error f => exact Site.follows_fault (.tooManyLoops (.inr (.inl rfl)) h)

theorem Control.forEnd_follows : (forEnd site).Follows site view .forEnd raw := by
  unfold forEnd
  cases hk : site.thread.level.openFrame? with
  | none =>
    simp only [Thread.currentLoop_of_none hk]
    exact Site.follows_fault (.noLoop (.inr (.inl rfl)) hk)
  | some k =>
    -- the count is written back before it is asked whether the loop goes on
    have hk' : (site.thread.countDown k).level.openFrame? = some k := by
      rw [Thread.openFrame?_countDown, hk]
    simp only [Thread.currentLoop_of_open hk, bind, Except.bind, Thread.setCounter_of_open hk]
    by_cases hc : 0 < (site.thread.level.frames.get k).counter - 1
    · rw [if_pos hc]
      exact Site.follows_become (.loopsOn k hk (by omega))
    · rw [if_neg hc]
      simp only [Thread.popLoop_of_open hk']
      exact Site.follows_become (.leavesLoop k hk (by omega))

theorem Control.breakLoop_follows : (breakLoop site).Follows site view .breakLoop raw := by
  unfold breakLoop
  cases hk : site.thread.level.openFrame? with
  | none =>
    simp only [Thread.popLoop_of_none hk]
    exact Site.follows_fault (.noLoop (.inr (.inr (.inl rfl))) hk)
  | some k =>
    simp only [Thread.popLoop_of_open hk, bind, Except.bind]
    rw [Thread.breakOut_eq]
    exact Site.follows_become (.breaks k hk)

/-! What the operations on a thread come to when they are not refused. Whatever else is to be known
of them follows from here. -/

/-- An if block is opened in the next slot of the block stack. -/
theorem Thread.pushBlock_eq_ok {t t' : Thread} {resume : Nat} (h : t.pushBlock resume = .ok t') :
    ∃ i : Fin blockDepth, i.val = t.stackIndex ∧
      t' = { t.setLevel { t.level with
          stack := t.level.stack.set i.val resume i.isLt
          ifCounter := t.level.ifCounter + 1 } with stackIndex := t.stackIndex + 1 } := by
  unfold pushBlock at h
  split at h
  · next hroom =>
    cases h
    exact ⟨⟨t.stackIndex, hroom⟩, rfl, rfl⟩
  · exact nomatch h

/-- Closing an if block counts it off, and gives what is in its slot; if none is open, nothing
changes. -/
theorem Thread.popBlock_cases {t t' : Thread} {res : Except Fault Nat}
    (h : t.popBlock = (t', res)) :
    (t.stackIndex = 0 ∧ t' = t ∧ res = .error (.emptyBlockStack t.pc)) ∨
    (t.stackIndex ≠ 0 ∧
      t' = { t.setLevel { t.level with ifCounter := t.level.ifCounter - 1 } with
        stackIndex := t.stackIndex - 1 } ∧
      ((∃ i : Fin blockDepth, i.val = t.stackIndex - 1 ∧ res = .ok (t.level.stack.get i)) ∨
        blockDepth < t.stackIndex ∧ res = .error (.emptyBlockStack t.pc))) := by
  unfold popBlock at h
  split at h
  · next hzero =>
    cases h
    exact .inl ⟨hzero, rfl, rfl⟩
  -- the block is closed before its slot is read
  · next hne =>
    obtain ⟨rfl, rfl⟩ := Prod.mk.inj h
    refine .inr ⟨hne, rfl, ?_⟩
    split
    · next hslot =>
      obtain ⟨hi, rfl⟩ := Vector.getElem?_eq_some_iff.mp hslot
      exact .inl ⟨⟨_, hi⟩, rfl, rfl⟩
    · next hslot =>
      have hle := Vector.getElem?_eq_none_iff.mp hslot
      exact .inr ⟨by omega, rfl⟩

/-- A loop frame is opened in the next slot of its level. -/
theorem Thread.pushLoop_eq_ok {t t' : Thread} {frame : Frame} (h : t.pushLoop frame = .ok t') :
    ∃ k : Fin loopDepth, (k.val : Int) = t.level.loopLevel + 1 ∧
      t' = t.setLevel { t.level with
        frames := t.level.frames.set k.val frame k.isLt, loopLevel := t.level.loopLevel + 1 } := by
  unfold pushLoop at h
  simp only at h
  split at h
  · exact nomatch h
  · split at h
    · next hlow hroom =>
      cases h
      exact ⟨⟨(t.level.loopLevel + 1).toNat, hroom⟩, by simp only; omega, rfl⟩
    · exact nomatch h

/-- The thread on a level it is about to enter, with the place to return to left below. -/
def Thread.climb (t : Thread) (returnTo : Nat) (s : Fin levelCount) : Thread :=
  { t.setLevel { t.level with returnTo := returnTo } with sub := s, stackIndex := 0 }

/-- A call goes one level up, and starts there with nothing open. -/
theorem Thread.enterSubroutine_eq_ok {t t' : Thread} {returnTo target : Nat}
    (h : t.enterSubroutine returnTo target = .ok t') :
    ∃ s : Fin levelCount, s.val = t.sub.val + 1 ∧
      t' = ((t.climb returnTo s).setLevel
        (t.climb returnTo s).level.resetCounters).jump target := by
  unfold enterSubroutine at h
  split at h
  · next hsub =>
    cases h
    exact ⟨⟨t.sub.val + 1, hsub⟩, rfl, rfl⟩
  · exact nomatch h

/-- A return goes one level down, to where that level says. -/
theorem Thread.leaveSubroutine_eq_some {t t' : Thread} (h : t.leaveSubroutine = some t') :
    ∃ s : Fin levelCount, s.val + 1 = t.sub.val ∧
      t' = Thread.jump (syncStackIndex { t with sub := s }) (t.levels.get s).returnTo := by
  unfold leaveSubroutine at h
  split at h
  · exact nomatch h
  · next hsub =>
    cases h
    exact ⟨⟨t.sub.val - 1, by omega⟩, Nat.succ_pred_eq_of_ne_zero hsub, rfl⟩

/-- The frame just opened is the innermost one. -/
theorem Thread.openFrame?_of_pushLoop {t t' : Thread} {frame : Frame}
    (h : t.pushLoop frame = .ok t') : ∃ k, t'.level.openFrame? = some k := by
  obtain ⟨k, hk, rfl⟩ := pushLoop_eq_ok h
  refine ⟨k, ?_⟩
  simp only [level_setLevel, Level.openFrame?, ← hk, Int.toNat_natCast]
  exact dif_pos ⟨Int.natCast_nonneg _, k.isLt⟩

/-! What the operations on a thread can be refused for. -/

theorem Thread.fault_of_pushBlock {t : Thread} {resume : Nat} {f : Fault}
    (h : t.pushBlock resume = .error f) : f = .blockStackOverflow t.pc := by
  unfold pushBlock at h
  split at h
  · exact nomatch h
  · cases h; rfl

theorem Thread.fault_of_popBlock {t t' : Thread} {f : Fault} (h : t.popBlock = (t', .error f)) :
    f = .emptyBlockStack t.pc := by
  obtain ⟨-, -, hres⟩ | ⟨-, -, ⟨_, -, hres⟩ | ⟨-, hres⟩⟩ := popBlock_cases h
  · cases hres; rfl
  · exact nomatch hres
  · cases hres; rfl

theorem Thread.fault_of_pushLoop {t : Thread} {frame : Frame} {f : Fault}
    (h : t.pushLoop frame = .error f) : f = .loopUnderflow t.pc ∨ f = .loopOverflow t.pc := by
  unfold pushLoop at h
  simp only at h
  split at h
  · cases h; exact .inl rfl
  · split at h
    · exact nomatch h
    · cases h; exact .inr rfl

theorem Thread.fault_of_enterSubroutine {t : Thread} {returnTo target : Nat} {f : Fault}
    (h : t.enterSubroutine returnTo target = .error f) : f = .subLevelOverflow t.pc := by
  unfold enterSubroutine at h
  split at h
  · exact nomatch h
  · cases h; rfl

/-- An entry point of a script is one of its addresses. -/
theorem Script.mem_of_entry {s : Script} {index address : Nat} (h : s.entry index = .ok address) :
    address ∈ s.entries := by
  unfold entry at h
  split at h
  · next haddress =>
    cases h
    exact List.mem_of_getElem? haddress
  · exact nomatch h

theorem Script.fault_of_entry {script : Script} {index : Nat} {f : Fault}
    (h : script.entry index = .error f) : f = .unknownEntry index := by
  unfold Script.entry at h
  split at h
  · exact nomatch h
  · cases h; rfl

/-- **The search for an arm faults on an instruction that cannot be fetched**, or on one that is no
arm; never on an arm that it has fetched. -/
theorem Control.fault_of_findArm {script : Script} {value : Int32} {scan : Nat} {f : Fault}
    (h : findArm script value scan = .error f) :
    (∃ a, script.fetch a = .error f) ∨ ∃ op a, f = .unexpectedSwitchOpcode op a := by
  -- along the arms that the search passes
  fun_induction findArm script value scan with
  | case1 scan g hf =>
    cases h
    exact .inl ⟨scan, hf⟩
  | case2 scan raw hf g hp =>
    obtain ⟨arm, harm⟩ := (Script.whole_of_fetch hf).decode (α := CaseArm) (by decide)
    rw [decodeAt_of_decode harm] at hp
    exact nomatch hp
  | case3 | case5 | case6 => exact nomatch h
  | case4 scan raw hf arm hp hvalue ih => exact ih h
  | case7 scan op raw hcase hdefault hend hf =>
    cases h
    exact .inr ⟨op, scan, rfl⟩

/-! Opening and closing does not move a thread. -/

theorem Thread.place_of_pushBlock {t t' : Thread} {resume : Nat}
    (h : t.pushBlock resume = .ok t') : t'.pc = t.pc ∧ t'.overridden = t.overridden := by
  obtain ⟨_, -, rfl⟩ := pushBlock_eq_ok h
  exact ⟨rfl, rfl⟩

theorem Thread.place_of_popBlock {t t' : Thread} {res : Except Fault Nat}
    (h : t.popBlock = (t', res)) : t'.pc = t.pc ∧ t'.overridden = t.overridden := by
  obtain ⟨-, rfl, -⟩ | ⟨-, rfl, -⟩ := popBlock_cases h <;> exact ⟨rfl, rfl⟩

theorem Thread.place_of_pushLoop {t t' : Thread} {frame : Frame}
    (h : t.pushLoop frame = .ok t') : t'.pc = t.pc ∧ t'.overridden = t.overridden := by
  obtain ⟨_, -, rfl⟩ := pushLoop_eq_ok h
  exact ⟨rfl, rfl⟩

theorem Thread.place_of_enterSubroutine {t t' : Thread} {returnTo target : Nat}
    (h : t.enterSubroutine returnTo target = .ok t') :
    t'.pc = target ∧ t'.overridden = true := by
  obtain ⟨_, -, rfl⟩ := enterSubroutine_eq_ok h
  exact ⟨rfl, rfl⟩

theorem Control.switch_follows {p : Switch} (hp : decode Switch raw = .ok p) :
    (switch site view p).Follows site view .switch raw := by
  unfold switch
  simp only
  rw [← Switch.frame]
  cases h : site.thread.pushLoop (p.frame site.thread.pc site.thread.level.ifCounter) with
  | error f => exact Site.follows_fault (.tooManyLoops (.inr (.inr rfl)) h)
  | ok t =>
    -- the frame is open before the search begins; only a search that runs into the end closes it
    obtain ⟨k, hk⟩ := Thread.openFrame?_of_pushLoop h
    simp only
    rcases ha : findArm site.script (view.var p.var)
      (site.thread.pc + Opcode.switch.size) with f | ⟨address⟩ | ⟨address⟩
    · exact ⟨_, rfl, .losesArm hp h ha⟩
    · exact Site.follows_become (.takesArm hp h ha)
    · simp only [Thread.popLoop_of_open hk]
      exact Site.follows_become (.takesNone hp h ha)

theorem Control.endSwitch_follows : (endSwitch site).Follows site view .endSwitch raw := by
  unfold endSwitch
  cases hk : site.thread.level.openFrame? with
  | none =>
    rw [Thread.popLoop_of_none hk]
    exact Site.follows_fault (.noLoop (.inr (.inr (.inr rfl))) hk)
  | some k =>
    rw [Thread.popLoop_of_open hk]
    exact Site.follows_become (.closesSwitch k hk)

theorem Control.gosub_follows {p : Gosub} : (gosub site p).Follows site view .gosub raw := by
  unfold gosub
  cases he : site.script.entry p.event.toNat with
  | error f => exact Site.follows_fault (.noEntry he)
  | ok target =>
    simp only [Site.pc]
    cases h : site.thread.enterSubroutine (site.thread.pc + Opcode.gosub.size) target with
    | ok t => exact Site.follows_become (.calls he h)
    | error f => exact Site.follows_fault (.tooDeep h)

/-! ### Instructions on the game -/

theorem Reaction.follows_of_next {r : Reaction n} (hop : op.isControl = false)
    (hpool : r.pool = site.pool) (hres : r.result = .ok .next) : r.Follows site view op raw :=
  follows_of_same hpool (hres ▸ .passes hop)

/-- A condition passes or unwinds, and does nothing else. -/
theorem Site.follows_condition (hop : op = .check ∨ op = .compare) (passed : Bool)
    (notices : List Notice) :
    (site.goOn (Flow.ofCondition passed) notices).Follows site view op raw := by
  refine Reaction.follows_of_same rfl ?_
  cases passed with
  | true => exact .passes (by rcases hop with rfl | rfl <;> rfl)
  | false => exact .fails hop

theorem Memory.setBit_follows {p : SetBit} :
    (setBit site view p).Follows site view .setBit raw := by
  unfold setBit
  simp only
  split
  · exact Reaction.follows_of_next rfl rfl rfl
  · exact Reaction.follows_of_next rfl rfl rfl
  · exact Reaction.follows_of_next rfl rfl rfl
  · exact Site.follows_fault (.balks rfl rfl)

/-- The calculator faults only on what it is given. -/
theorem Calculator.isValue_of_calculate {operation : UInt8} {lhs rhs : Int32} {f : Fault}
    (h : calculate operation lhs rhs = .error f) : f.isValue = true := by
  unfold calculate at h
  split at h <;> (try split at h) <;> cases h <;> rfl

theorem Memory.store_follows {var : UInt8} {operation : UInt8} {lhs rhs : Int32}
    (hop : op.isControl = false) :
    (store site var (Calculator.calculate operation lhs rhs)).Follows site view op raw := by
  unfold store
  cases h : Calculator.calculate operation lhs rhs with
  | ok value => exact Reaction.follows_of_next hop rfl rfl
  | error f => exact Site.follows_fault (.balks hop (Calculator.isValue_of_calculate h))

theorem Staging.posSet_follows {p : PosSet} : (posSet site p).Follows site view .posSet raw := by
  unfold posSet
  split <;> exact Reaction.follows_of_next rfl rfl rfl

theorem Staging.memberSet_follows {p : MemberSet} :
    (memberSet site p).Follows site view .memberSet raw := by
  unfold memberSet
  simp only
  split
  · split <;> exact Reaction.follows_of_next rfl rfl rfl
  · exact Reaction.follows_of_next rfl rfl rfl

theorem Staging.collisionSet_follows {p : CollisionSet} :
    (collisionSet site p).Follows site view .scaIdSet raw := by
  unfold collisionSet
  split <;> exact Reaction.follows_of_next rfl rfl rfl

/-! ### The whole table -/

theorem Handler.reading_follows {α : Type} [Payload α]
    {run : {n : Nat} → Site n → Host.View → α → Reaction n} (hw : Whole op raw)
    (hwidth : 1 + (layout op : Layout α).width ≤ op.size)
    (h : ∀ p, decode α raw = .ok p → (run site view p).Follows site view op raw) :
    ((reading α run).run site view raw).Follows site view op raw := by
  obtain ⟨p, hp, heq⟩ := reading_run run hw hwidth site view
  rw [heq]
  exact h p hp

/-- **Every instruction follows the rules.** The one that starts an event is the exception: it
changes whichever thread takes the event. -/
theorem Handler.standard_effect (site : Site n) (view : Host.View) (hw : Whole op raw)
    (hop : op ≠ .evtExec) :
    ((standard op).run site view raw).Follows site view op raw := by
  cases op
  case evtExec => exact absurd rfl hop
  case evtEnd => exact Control.evtEnd_follows
  case ifStart => exact reading_follows hw (by decide) fun p hp => Control.ifStart_follows hp
  case elseStart => exact reading_follows hw (by decide) fun p hp => Control.elseStart_follows hp
  case endIf => exact Control.endIf_follows
  case sleep => exact reading_follows hw (by decide) fun p hp => Control.sleep_follows hp
  case sleeping => exact Control.sleeping_follows
  case forLoop => exact reading_follows hw (by decide) fun p hp => Control.forStart_follows hp
  case forEnd => exact Control.forEnd_follows
  case switch => exact reading_follows hw (by decide) fun p hp => Control.switch_follows hp
  case endSwitch => exact Control.endSwitch_follows
  case gosub => exact reading_follows hw (by decide) fun p _ => Control.gosub_follows
  case breakLoop => exact Control.breakLoop_follows
  case check =>
    exact reading_follows hw (by decide) fun p _ => Site.follows_condition (.inl rfl) _ _
  case compare =>
    exact reading_follows hw (by decide) fun p _ => Site.follows_condition (.inr rfl) _ _
  case setBit => exact reading_follows hw (by decide) fun p _ => Memory.setBit_follows
  case calculate => exact reading_follows hw (by decide) fun p _ => Memory.store_follows rfl
  case calculateFrom => exact reading_follows hw (by decide) fun p _ => Memory.store_follows rfl
  case workSet =>
    exact reading_follows hw (by decide) fun p _ =>
      Site.follows_become (.selects ⟨p.component, p.index⟩)
  case posSet => exact reading_follows hw (by decide) fun p _ => Staging.posSet_follows
  case memberSet => exact reading_follows hw (by decide) fun p _ => Staging.memberSet_follows
  case scaIdSet => exact reading_follows hw (by decide) fun p _ => Staging.collisionSet_follows
  -- these read their payload and ask for writes at most
  case save | copy | goto | cutChg | aotSet | aotSet4p | objModelSet | sceEsprOn | doorAotSet |
      doorAotSet4p | memberCmp | plcMotion | plcDest | plcNeck | sceEmSet | aotReset |
      sceEsprKill | itemAotSet | itemAotSet4p | sceBgmControl =>
    exact reading_follows hw (by decide) fun p _ => Reaction.follows_of_next rfl rfl rfl
  -- and the rest has no handler of its own
  all_goals exact Reaction.follows_of_next rfl rfl rfl

/-! ### Starting events -/

namespace Control

/-- The thread that takes an event. -/
def taker? (pool : Pool n) (thread : UInt8) : Option (Fin n) :=
  if h : thread.toNat < n then some ⟨thread.toNat, h⟩
  else pool.firstIdle?.or (if h : 0 < n then some ⟨0, h⟩ else none)

/-- **What scheduling an event comes to**: the thread that takes it starts at the entry point. -/
theorem schedule_result (script : Script) (pool : Pool n) (p : EvtExec) :
    (schedule script pool p).result =
      match script.entry p.event.toNat with
      | .error f => .error f
      | .ok address =>
        match taker? pool p.thread with
        | some j => .ok (j, pool.modify j (·.activate address))
        | none => .error (.invalidThread 0) := by
  unfold schedule
  cases script.entry p.event.toNat with
  | error f => rfl
  | ok address =>
    -- the thread named, the first idle one or the first one: they differ in who takes the event
    simp only [taker?]
    split
    · rfl
    · cases pool.firstIdle? with
      | some j => rfl
      | none =>
        simp only [Option.none_or]
        split <;> rfl

/-- An event that is started changes the thread that takes it, and no other. -/
theorem schedule_ok {script : Script} {pool pool' : Pool n} {p : EvtExec} {i : Fin n}
    (h : (schedule script pool p).result = .ok (i, pool')) :
    ∃ address, script.entry p.event.toNat = .ok address ∧
      pool' = pool.modify i (·.activate address) := by
  rw [schedule_result] at h
  cases he : script.entry p.event.toNat with
  | error f =>
    rw [he] at h
    exact nomatch h
  | ok address =>
    rw [he] at h
    cases ht : taker? pool p.thread with
    | none =>
      rw [ht] at h
      exact nomatch h
    | some j =>
      rw [ht] at h
      cases h
      exact ⟨address, rfl, rfl⟩

/-- An event cannot be started if the script has no such entry point or the pool no thread. -/
theorem schedule_error {script : Script} {pool : Pool n} {p : EvtExec} {f : Fault}
    (h : (schedule script pool p).result = .error f) :
    f = .unknownEntry p.event.toNat ∨ f = .invalidThread 0 := by
  rw [schedule_result] at h
  cases he : script.entry p.event.toNat with
  | error g =>
    rw [he] at h
    cases h
    exact .inl (Script.fault_of_entry he)
  | ok address =>
    rw [he] at h
    cases ht : taker? pool p.thread with
    | none =>
      rw [ht] at h
      cases h
      exact .inr rfl
    | some j =>
      rw [ht] at h
      exact nomatch h

/-- The reaction to an event instruction, from what scheduling the event comes to. -/
theorem evtExec_eq (site : Site n) (p : EvtExec) :
    (evtExec site p).writes = [] ∧
      match (schedule site.script site.pool p).result with
      | .ok (_, pool) => (evtExec site p).pool = pool ∧ (evtExec site p).result = .ok .next
      | .error f => (evtExec site p).pool = site.pool ∧ (evtExec site p).result = .error f := by
  cases h : (schedule site.script site.pool p).result with
  | ok taken => simp only [evtExec, h, and_self]
  | error f => simp only [evtExec, h, and_self]

end Control

/-- How the instruction that starts an event comes out. -/
theorem Handler.evtExec_effect (site : Site n) (view : Host.View) (hw : Whole .evtExec raw) :
    let r := (standard .evtExec).run site view raw
    (∃ i event address, site.script.entry event = .ok address ∧
      r.pool = site.pool.modify i (·.activate address) ∧ r.result = .ok .next) ∨
    (∃ f, r.pool = site.pool ∧ r.result = .error f ∧
      ((∃ e, f = .unknownEntry e) ∨ f = .invalidThread 0)) := by
  intro r
  obtain ⟨p, hp, heq⟩ := reading_run (fun site _ p => Control.evtExec site p) hw
    (by decide) site view
  obtain ⟨-, hreaction⟩ := Control.evtExec_eq site p
  rw [← heq] at hreaction
  cases hs : (Control.schedule site.script site.pool p).result with
  | ok taken =>
    rw [hs] at hreaction
    obtain ⟨address, he, hpool⟩ := Control.schedule_ok hs
    exact .inl ⟨taken.1, _, address, he, hreaction.1.trans hpool, hreaction.2⟩
  | error f =>
    rw [hs] at hreaction
    exact .inr ⟨f, hreaction.1, hreaction.2,
      (Control.schedule_error hs).imp (fun h => ⟨_, h⟩) id⟩

end Handlers

end RoomScript
