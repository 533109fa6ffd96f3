import RoomScript.Proofs.Run
import RoomScript.Session

/-!
# The control state stays in range

A thread keeps the number of open if blocks twice, as the counter of its level and as an index into
the block stack, and every loop frame keeps a third copy to go back to. This file shows that the
copies never come apart and that every counter stays within its array, whatever bytes are executed.

Leaving a loop restores the depth its frame has saved, so the saved depths have to be in range as
well, of every open frame and on every level: on the levels below the current one because a
subroutine returns to them, and on those above it because nothing clears a level when it is left.
The counter of a frame is in range only while the frame is open. The last round counts it down to
zero, or below for a frame that was opened with zero, and closes the frame in the same instruction.

**Main statements.** `Thread.InRange` is the invariant, `Thread.inRange_invariant` says that every
instruction of every script keeps it, and `Engine.control_state_in_range` that it holds after every
run of an engine and before every instruction on the way.
-/

namespace RoomScript

/-! ### The invariant -/

/-- The counters of an open loop frame are in range. -/
structure Frame.InRange (f : Frame) : Prop where
  counter_nonneg : 0 ≤ f.counter
  counter_le : f.counter ≤ 65535
  ifCounter_ge : -1 ≤ f.ifCounter
  ifCounter_le : f.ifCounter ≤ 15

/-- The counters of a level and of its open frames are in range. -/
structure Level.InRange (l : Level) : Prop where
  ifCounter_ge : -1 ≤ l.ifCounter
  ifCounter_le : l.ifCounter ≤ 15
  loopLevel_ge : -1 ≤ l.loopLevel
  loopLevel_le : l.loopLevel ≤ 7
  frame : ∀ k : Fin loopDepth, (k.val : Int) ≤ l.loopLevel → (l.frames.get k).InRange

/-- **The control state of a thread is in range**: the counters of every level, and the index into
the block stack is the one the current level stands for. -/
structure Thread.InRange (t : Thread) : Prop where
  sub_lt : t.sub.val < levelCount
  level : ∀ s : Fin levelCount, (t.levels.get s).InRange
  stackIndex_eq : (t.stackIndex : Int) = t.level.ifCounter + 1

/-! ### Levels -/

namespace Level.InRange

variable {l : Level}

theorem initial : ({} : Level).InRange where
  ifCounter_ge := by decide
  ifCounter_le := by decide
  loopLevel_ge := by decide
  loopLevel_le := by decide
  frame := fun k hk => absurd hk (by simp; omega)

theorem resetCounters (l : Level) : l.resetCounters.InRange where
  ifCounter_ge := by simp [Level.resetCounters]
  ifCounter_le := by simp [Level.resetCounters]
  loopLevel_ge := by simp [Level.resetCounters]
  loopLevel_le := by simp [Level.resetCounters]
  frame := fun k hk => absurd hk (by simp [Level.resetCounters]; omega)

/-- Only the counters of a level and its open frames matter. -/
theorem of_eq {l' : Level} (h : l.InRange) (hif : l'.ifCounter = l.ifCounter)
    (hloop : l'.loopLevel = l.loopLevel) (hframes : l'.frames = l.frames) : l'.InRange where
  ifCounter_ge := hif ▸ h.ifCounter_ge
  ifCounter_le := hif ▸ h.ifCounter_le
  loopLevel_ge := hloop ▸ h.loopLevel_ge
  loopLevel_le := hloop ▸ h.loopLevel_le
  frame := fun k hk => by rw [hframes]; exact h.frame k (hloop ▸ hk)

/-- The number of open if blocks may be anything in range. -/
theorem withIf (h : l.InRange) {c : Int} (hge : -1 ≤ c) (hle : c ≤ 15) (stack : _) :
    ({ l with ifCounter := c, stack := stack } : Level).InRange :=
  { h with ifCounter_ge := hge, ifCounter_le := hle }

/-- A frame in range can be opened in the next slot. -/
theorem push (h : l.InRange) {frame : Frame} (hframe : frame.InRange) {k : Fin loopDepth}
    (hk : (k.val : Int) = l.loopLevel + 1) :
    ({ l with
      frames := l.frames.set k.val frame k.isLt
      loopLevel := l.loopLevel + 1 } : Level).InRange where
  ifCounter_ge := h.ifCounter_ge
  ifCounter_le := h.ifCounter_le
  loopLevel_ge := by have := h.loopLevel_ge; simp only; omega
  loopLevel_le := by
    have hroom := k.isLt
    have hdepth : loopDepth = 8 := rfl
    simp only
    omega
  frame := by
    -- the open frames are the new one and those that were open below it
    intro j hj
    simp only [get_eq_getElem, Vector.getElem_set] at hj ⊢
    split
    · exact hframe
    · exact h.frame j (by omega)

/-- The innermost frame can be closed, and what is then in its slot does not matter. -/
theorem pop (h : l.InRange) {k : Fin loopDepth} (hk : l.openFrame? = some k) (frame : Frame) :
    ({ l with
      frames := l.frames.set k frame k.isLt, loopLevel := l.loopLevel - 1 } : Level).InRange := by
  have hlevel : (k.val : Int) = l.loopLevel := Level.openFrame?_eq_some hk
  exact {
    ifCounter_ge := h.ifCounter_ge
    ifCounter_le := h.ifCounter_le
    loopLevel_ge := by simp only; omega
    loopLevel_le := by have := h.loopLevel_le; simp only; omega
    frame := by
      intro j hj
      simp only [get_eq_getElem, Vector.getElem_set] at hj ⊢
      -- what is still open lies below the slot that was written
      rw [if_neg (by omega)]
      exact h.frame j (by omega) }

end Level.InRange

/-! ### Threads -/

namespace Thread

namespace InRange

variable {t t' : Thread}

theorem idle (id : Nat) : (Thread.idle id).InRange where
  sub_lt := (Thread.idle id).sub.isLt
  level := fun s => by
    simp only [Thread.idle, get_eq_getElem, Vector.getElem_replicate]
    exact .initial
  stackIndex_eq := by simp [Thread.idle, Thread.level]

theorem congr (h : Same t t') (ht : t.InRange) : t'.InRange where
  sub_lt := t'.sub.isLt
  level := fun s => by rw [h.levels]; exact ht.level s
  stackIndex_eq := by
    simp only [Thread.level, h.levels, h.sub, h.stackIndex]
    exact ht.stackIndex_eq

theorem current (h : t.InRange) : t.level.InRange := h.level t.sub

theorem jump (h : t.InRange) (pc : Nat) : (t.jump pc).InRange :=
  { sub_lt := h.sub_lt, level := h.level, stackIndex_eq := h.stackIndex_eq }

theorem moveOn (h : t.InRange) (size : Nat) : (t.moveOn size).InRange :=
  { sub_lt := h.sub_lt, level := h.level, stackIndex_eq := h.stackIndex_eq }

/-- Replacing the current level and the index together. -/
theorem setLevel (h : t.InRange) {l : Level} (hl : l.InRange) {index : Nat}
    (hindex : (index : Int) = l.ifCounter + 1) :
    ({ t.setLevel l with stackIndex := index } : Thread).InRange where
  sub_lt := h.sub_lt
  level := fun s => by
    change ((t.setLevel l).levels.get s).InRange
    rw [levels_setLevel]
    split
    · exact hl
    · exact h.level s
  stackIndex_eq := by
    change (index : Int) = (t.setLevel l).level.ifCounter + 1
    rw [level_setLevel]
    exact hindex

/-- Replacing the current level by one with as many open if blocks. -/
theorem setLevel_same (h : t.InRange) {l : Level} (hl : l.InRange)
    (hif : l.ifCounter = t.level.ifCounter) : (t.setLevel l).InRange :=
  h.setLevel hl (hif ▸ h.stackIndex_eq)

theorem activate (h : t.InRange) (pc : Nat) : (t.activate pc).InRange := by
  refine jump { sub_lt := by simp, level := fun s => ?_, stackIndex_eq := ?_ } pc
  · simp only [get_eq_getElem, Vector.getElem_set]
    split
    · exact .resetCounters _
    · exact h.level s
  · simp [Thread.level, Level.resetCounters]

/-! ### The operations -/

theorem pushBlock (h : t.InRange) {resume : Nat} (ht : t.pushBlock resume = .ok t') :
    t'.InRange := by
  obtain ⟨i, hi, rfl⟩ := pushBlock_eq_ok ht
  have hindex := h.stackIndex_eq
  have hroom := i.isLt
  have hdepth : blockDepth = 16 := rfl
  exact h.setLevel (h.current.withIf (by omega) (by omega) _) (by simp only; omega)

theorem popBlock (h : t.InRange) {res : Except Fault Nat} (ht : t.popBlock = (t', res)) :
    t'.InRange := by
  obtain ⟨-, rfl, -⟩ | ⟨hne, rfl, -⟩ := popBlock_cases ht
  · exact h
  · have hindex := h.stackIndex_eq
    have hle := h.current.ifCounter_le
    exact h.setLevel (h.current.withIf (by omega) (by omega) _) (by simp only; omega)

theorem pushLoop (h : t.InRange) {frame : Frame} (hframe : frame.InRange)
    (ht : t.pushLoop frame = .ok t') : t'.InRange := by
  obtain ⟨k, hk, rfl⟩ := pushLoop_eq_ok ht
  exact h.setLevel_same (h.current.push hframe hk) rfl

/-- A frame with rounds to go can be counted down. -/
theorem countDown (h : t.InRange) {k : Fin loopDepth} (hk : t.level.openFrame? = some k)
    (hc : 1 < (t.level.frames.get k).counter) : (t.countDown k).InRange := by
  have hlevel := Level.openFrame?_eq_some hk
  have hframe := h.current.frame k (by omega)
  refine h.setLevel_same { h.current with frame := ?_ } rfl
  intro j hj
  rw [get_eq_getElem, Vector.getElem_set]
  split
  -- a frame that is counted down is one that goes on, so its counter stays positive
  · exact { hframe with
      counter_nonneg := by have := hframe.counter_nonneg; simp only; omega
      counter_le := by have := hframe.counter_le; simp only; omega }
  · exact h.current.frame j hj

theorem dropLoop (h : t.InRange) {k : Fin loopDepth} (hk : t.level.openFrame? = some k) :
    t.dropLoop.InRange := by
  have hpop := h.current.pop hk (t.level.frames.get k)
  rw [get_eq_getElem, Vector.set_getElem_self] at hpop
  exact h.setLevel_same hpop rfl

/-- A frame that is counted down to its end is closed with it. -/
theorem dropLoop_countDown (h : t.InRange) {k : Fin loopDepth}
    (hk : t.level.openFrame? = some k) : (t.countDown k).dropLoop.InRange := by
  -- the frame leaves with a counter that may be out of range, so both have to be done at once
  have hpop := h.current.pop hk
    { t.level.frames.get k with counter := (t.level.frames.get k).counter - 1 }
  have heq : (t.countDown k).dropLoop = t.setLevel { t.level with
      frames := t.level.frames.set k
        { t.level.frames.get k with counter := (t.level.frames.get k).counter - 1 } k.isLt
      loopLevel := t.level.loopLevel - 1 } := by
    simp [Thread.dropLoop, Thread.countDown, Thread.setLevel, Thread.level]
  rw [heq]
  exact h.setLevel_same hpop rfl

theorem breakOut (h : t.InRange) {k : Fin loopDepth} (hk : t.level.openFrame? = some k) :
    (t.breakOut (t.level.frames.get k)).InRange := by
  have hlevel := Level.openFrame?_eq_some hk
  have hframe := h.current.frame k (by omega)
  have hpop := h.current.pop hk (t.level.frames.get k)
  rw [get_eq_getElem, Vector.set_getElem_self] at hpop
  -- the depth to go back to is the one the frame has saved
  refine jump ?_ _
  refine h.setLevel (hpop.withIf hframe.ifCounter_ge hframe.ifCounter_le t.level.stack) ?_
  have := hframe.ifCounter_ge
  simp only [level_setLevel]
  omega

theorem enterSubroutine (h : t.InRange) {returnTo target : Nat}
    (ht : t.enterSubroutine returnTo target = .ok t') : t'.InRange := by
  obtain ⟨s, -, rfl⟩ := enterSubroutine_eq_ok ht
  have hcaller : (t.setLevel { t.level with returnTo := returnTo }).InRange :=
    h.setLevel_same (h.current.of_eq rfl rfl rfl) rfl
  -- the level that is entered begins with nothing open, whatever it was used for before
  refine jump ⟨s.isLt, fun s' => ?_, ?_⟩ target
  · rw [levels_setLevel]
    split
    · exact .resetCounters _
    · exact hcaller.level s'
  · rw [level_setLevel]
    rfl

theorem leaveSubroutine (h : t.InRange) (ht : t.leaveSubroutine = some t') : t'.InRange := by
  obtain ⟨s, -, rfl⟩ := leaveSubroutine_eq_some ht
  -- the index is made up from the counter of the level below, which has stayed in range
  have hge := (h.level s).ifCounter_ge
  refine jump (t := Thread.syncStackIndex { t with sub := s }) ⟨s.isLt, h.level, ?_⟩ _
  exact Int.toNat_of_nonneg (by change 0 ≤ (t.levels.get s).ifCounter + 1; omega)

/-! ### Instructions and turns -/

/-- The frame a loop header opens is in range. -/
theorem frame_forLoop (h : t.InRange) (p : Payload.ForLoop) :
    (p.frame t.pc t.level.ifCounter).InRange where
  counter_nonneg := Int.natCast_nonneg _
  counter_le := by have := p.count.toNat_lt; simp only [Payload.ForLoop.frame]; omega
  ifCounter_ge := h.current.ifCounter_ge
  ifCounter_le := h.current.ifCounter_le

/-- The frame a switch header opens is in range. -/
theorem frame_switch (h : t.InRange) (p : Payload.Switch) :
    (p.frame t.pc t.level.ifCounter).InRange where
  counter_nonneg := Int.le_refl 0
  counter_le := by simp [Payload.Switch.frame]
  ifCounter_ge := h.current.ifCounter_ge
  ifCounter_le := h.current.ifCounter_le

/-- The frame of a sleep is in range, with the depth it has by default. -/
theorem frame_sleep (p : Payload.Sleep) : ({ counter := p.count.toNat } : Frame).InRange where
  counter_nonneg := Int.natCast_nonneg _
  counter_le := by have := p.count.toNat_lt; simp only; omega
  ifCounter_ge := by simp
  ifCounter_le := by simp

/-- **Every instruction keeps the control state in range**, whatever its bytes and however it comes
out. -/
theorem effect (h : t.InRange) {script : Script} {view : Host.View} {op : Opcode} {raw : Bytes}
    {res : Except Fault Flow} (he : Effect script view t op raw t' res) : t'.InRange := by
  cases he with
  | passes _ | fails _ | balks _ _ => exact h
  | selects w => exact congr (t := t) ⟨rfl, rfl, rfl, rfl⟩ h
  | returns ht => exact h.leaveSubroutine ht
  | ends _ => exact congr (.halt t) h
  | opensIf _ ht => exact h.pushBlock ht
  | skipsElse _ ht => exact (h.popBlock ht).jump _
  | closesIf ht | noIf _ ht => exact h.popBlock ht
  | sleeps _ ht => exact (h.pushLoop (frame_sleep _) ht).jump _
  | dozes k hk hc => exact (h.countDown hk hc).jump _
  | wakes k hk _ => exact (h.dropLoop_countDown hk).jump _
  | skipsLoop _ _ => exact h.jump _
  | opensLoop _ _ ht => exact (h.pushLoop (h.frame_forLoop _) ht).jump _
  | loopsOn k hk hc => exact (h.countDown hk hc).jump _
  | leavesLoop k hk _ => exact (h.dropLoop_countDown hk).jump _
  | breaks k hk => exact h.breakOut hk
  | takesArm _ ht _ => exact (h.pushLoop (h.frame_switch _) ht).jump _
  | takesNone _ ht _ =>
    -- opened for the search, and closed because it has found no arm
    obtain ⟨k, hk⟩ := openFrame?_of_pushLoop ht
    exact ((h.pushLoop (h.frame_switch _) ht).dropLoop hk).jump _
  | losesArm _ ht _ => exact h.pushLoop (h.frame_switch _) ht
  | closesSwitch k hk => exact h.dropLoop hk
  | calls _ ht => exact h.enterSubroutine ht
  | tooManyIfs _ | tooManyLoops _ _ | noLoop _ _ | noEntry _ | tooDeep _ => exact h

theorem follow (h : t.InRange) (flow : Flow) : (t.follow flow).1.InRange := by
  obtain ⟨_, heq⟩ | ⟨-, ⟨_, _, hp, heq⟩ | ⟨_, _, hp, heq⟩⟩ := follow_cases t flow <;> rw [heq]
  · exact h
  · exact h.popBlock hp
  · have hpop := h.popBlock hp
    exact ⟨hpop.sub_lt, hpop.level, hpop.stackIndex_eq⟩

end InRange

/-- **Being in range is an invariant under every script.** -/
theorem inRange_invariant (script : Script) : Invariant script InRange where
  congr := InRange.congr
  activate := fun _ h => h.activate _
  event := fun _ h => ⟨h.sub_lt, h.level, h.stackIndex_eq⟩
  turn := by
    intro view t op raw t' res _ _ hturn h
    have hready : t.ready.InRange := InRange.congr (.ready t) h
    cases hturn with
    | fault he => exact hready.effect he
    | flow he => exact ((hready.effect he).moveOn _).follow _

/-! ### What being in range is good for -/

/-- A number that a signed word of 32 bits holds. -/
def FitsWord (x : Int) : Prop := -2147483648 ≤ x ∧ x ≤ 2147483647

/-- **Nothing the dispatcher does to a thread can go past an array or a counter**: the slots it
reads and writes exist, and a counter can be moved by one either way. -/
structure Safe (t : Thread) : Prop where
  /-- The block stack is as long as its index says. -/
  stackIndex_le : t.stackIndex ≤ blockDepth
  /-- A block that counts as open has an address to go on at. -/
  block : 0 ≤ t.level.ifCounter → ∃ resume, t.popBlock.2 = .ok resume
  /-- A loop that counts as open has a slot. -/
  frame : 0 ≤ t.level.loopLevel → ∃ k, t.level.openFrame? = some k
  /-- The slot for the next loop is not below the first. -/
  nextFrame : 0 ≤ t.level.loopLevel + 1
  ifCounter_fits : ∀ s : Fin levelCount,
    FitsWord ((t.levels.get s).ifCounter - 1) ∧ FitsWord ((t.levels.get s).ifCounter + 1)
  loopLevel_fits : ∀ s : Fin levelCount,
    FitsWord ((t.levels.get s).loopLevel - 1) ∧ FitsWord ((t.levels.get s).loopLevel + 1)
  /-- Also one down from zero, where a loop opened without rounds ends. -/
  counter_fits : ∀ (s : Fin levelCount) (k : Fin loopDepth),
    (k.val : Int) ≤ (t.levels.get s).loopLevel →
      FitsWord (((t.levels.get s).frames.get k).counter - 1)

namespace InRange

variable {t : Thread}

/-- An open if block has a slot to read its end from. -/
theorem popBlock_ok (h : t.InRange) (hopen : 0 ≤ t.level.ifCounter) :
    ∃ resume, t.popBlock.2 = .ok resume := by
  have hindex := h.stackIndex_eq
  have hle := h.current.ifCounter_le
  have hdepth : blockDepth = 16 := rfl
  -- the index is in step with the counter, which is no more than the slots there are
  obtain ⟨hzero, -⟩ | ⟨-, -, ⟨i, -, hres⟩ | ⟨hmany, -⟩⟩ := popBlock_cases (t := t) rfl
  · omega
  · exact ⟨_, hres⟩
  · omega

/-- A condition that fails under an open if block goes on where the block ends. -/
theorem follow_unwind (h : t.InRange) (hopen : 0 ≤ t.level.ifCounter) :
    (t.follow .unwind).2 = .ok .running := by
  obtain ⟨resume, hok⟩ := h.popBlock_ok hopen
  unfold Thread.follow
  rw [if_neg (by omega)]
  rcases hp : t.popBlock with ⟨u, f | r⟩
  · rw [hp] at hok
    exact nomatch hok
  · rfl

theorem openFrame (h : t.InRange) (hopen : 0 ≤ t.level.loopLevel) :
    ∃ k, t.level.openFrame? = some k := by
  have hle := h.current.loopLevel_le
  have hdepth : loopDepth = 8 := rfl
  exact ⟨_, dif_pos ⟨hopen, by omega⟩⟩

theorem safe (h : t.InRange) : t.Safe where
  stackIndex_le := by
    have hindex := h.stackIndex_eq
    have hle := h.current.ifCounter_le
    have hdepth : blockDepth = 16 := rfl
    omega
  block := h.popBlock_ok
  frame := h.openFrame
  nextFrame := by have := h.current.loopLevel_ge; omega
  ifCounter_fits := fun s => by
    have hge := (h.level s).ifCounter_ge
    have hle := (h.level s).ifCounter_le
    unfold FitsWord
    omega
  loopLevel_fits := fun s => by
    have hge := (h.level s).loopLevel_ge
    have hle := (h.level s).loopLevel_le
    unfold FitsWord
    omega
  counter_fits := fun s k hk => by
    have hge := ((h.level s).frame k hk).counter_nonneg
    have hle := ((h.level s).frame k hk).counter_le
    unfold FitsWord
    omega

end InRange

end Thread

/-- What an instruction leaves of its thread is in range, also when it starts an event. -/
theorem Machine.execute_inRange {n : Nat} {σ : Type} [Host σ] {rules : Rules}
    (hstd : rules.handlers = Handler.standard) {script : Script} {m m' : Machine n σ} {i : Fin n}
    {op : Opcode} {raw : Bytes} {flow : Flow} (h : ∀ j, (m.pool.thread j).InRange)
    (hf : script.fetch (m.pool.thread i).pc = .ok (op, raw))
    (he : m.execute rules script i op raw = (m', .ok flow)) : (m'.pool.thread i).InRange := by
  have hw := Script.whole_of_fetch hf
  have hready : ∀ j, ((m.pool.modify i Thread.ready).thread j).InRange :=
    Pool.forall_replace h (Thread.InRange.congr (.ready _) (h i))
  obtain ⟨m₁, hpool, -, hexec⟩ := m.execute_eq rules script i op raw
  rw [he] at hexec
  rw [reaction, hstd] at hpool
  have hthread : (m₁.pool.thread i).InRange := by
    rw [hpool]
    by_cases hop : op = .evtExec
    · -- the thread may have taken its own event
      subst hop
      rcases Handler.evtExec_effect (m.site script i) (Host.view m.host) hw with
        ⟨j, -, address, -, hp, -⟩ | ⟨-, hp, -⟩
      · rw [hp]
        exact Pool.forall_replace hready ((hready j).activate address) i
      · rw [hp]
        exact hready i
    · obtain ⟨t, hp, heff⟩ := Handler.standard_effect (m.site script i) (Host.view m.host) hw hop
      rw [thread_site] at heff
      rw [hp, replace_site, Pool.thread_replace]
      exact Thread.InRange.effect (Thread.InRange.congr (.ready _) (h i)) heff
  -- what is left of the execution is that the thread is moved on
  split at hexec
  · cases hexec
    rw [pool_modify, Pool.thread_modify]
    exact hthread.moveOn _
  · cases hexec

section Runs

variable {σ : Type} [Host σ] (config : Config) (traces : TraceSet) (host : σ)
  (calls : List (Call σ))

/-- Every thread is in range after every run of an engine. -/
theorem Engine.run_inRange (j : Fin config.threadCount) :
    (((ofConfig config traces host).run calls).machine.pool.thread j).InRange :=
  run_invariant rfl Thread.InRange.congr (fun _ _ s _ => Thread.inRange_invariant s)
    (ofConfig_invariant .idle config traces host) j

/-- Every thread is in range at every moment of an engine. -/
theorem Engine.visits_inRange (c : Call σ) :
    ∀ v ∈ ((ofConfig config traces host).run calls).visits c, ∀ j, (v.2.pool.thread j).InRange :=
  visits_invariant (handlers_run_ofConfig config traces host calls)
    (fun s _ => Thread.inRange_invariant s) (run_inRange config traces host calls)

end Runs

/-- **The control state of every thread stays in range.** Whatever scripts an engine is given, and
whatever is asked of it, every thread is in range afterwards and before every instruction on the
way. So no array is left and no counter runs over, and a condition that fails under an open if
block always finds where to go on. -/
theorem Engine.control_state_in_range {σ : Type} [Host σ] (config : Config) (traces : TraceSet)
    (host : σ) (calls : List (Call σ)) :
    let e := (Engine.ofConfig config traces host).run calls
    (∀ j, (e.machine.pool.thread j).InRange ∧ (e.machine.pool.thread j).Safe) ∧
      ∀ (c : Call σ), ∀ v ∈ e.visits c,
        (∀ j, (v.2.pool.thread j).InRange ∧ (v.2.pool.thread j).Safe) ∧
        ∀ (script : Script) (op : Opcode) (raw : Bytes) (m : Machine config.threadCount σ),
          script.fetch (v.2.pool.thread v.1).pc = .ok (op, raw) →
          v.2.execute e.rules script v.1 op raw = (m, .ok .unwind) →
          0 ≤ (m.pool.thread v.1).level.ifCounter →
          (∃ resume, (m.pool.thread v.1).popBlock.2 = .ok resume) ∧
            (m.follow e.rules v.1 .unwind).2 = .ok .running := by
  intro e
  have hrun : ∀ j, (e.machine.pool.thread j).InRange := run_inRange config traces host calls
  refine ⟨fun j => ⟨hrun j, (hrun j).safe⟩, fun c v hv => ?_⟩
  have hvisit := visits_inRange config traces host calls c v hv
  refine ⟨fun j => ⟨hvisit j, (hvisit j).safe⟩, fun script op raw m hf he hopen => ?_⟩
  have hthread :=
    Machine.execute_inRange (handlers_run_ofConfig config traces host calls) hvisit hf he
  refine ⟨hthread.popBlock_ok hopen, ?_⟩
  rw [(Machine.follow_eq m _ _ .unwind).2.1]
  exact hthread.follow_unwind hopen

/-- An if block with a condition that fails in an empty session. -/
def Script.failingCheck : Script where
  data := #[0x06, 0, 6, 0, 0x21, 0, 0, 1, 0x08, 0, 0x01, 0]
  entries := [0]
  entries_lt := by decide

/-- The condition is reached with its block open, and the thread goes on behind the block. -/
theorem Engine.control_state_in_range_failingCheck :
    let e := (Engine.ofConfig {} {} ({} : Stage)).run [.start .failingCheck 0 0]
    ∃ v ∈ e.visits (.pass .failingCheck 9), ∃ raw m,
      Script.failingCheck.fetch (v.2.pool.thread v.1).pc = .ok (.check, raw) ∧
      v.2.execute e.rules .failingCheck v.1 .check raw = (m, .ok .unwind) ∧
      0 ≤ (m.pool.thread v.1).level.ifCounter ∧
      (m.follow e.rules v.1 .unwind).2 = .ok .running := by
  intro e
  let v := (e.visits (.pass .failingCheck 9)).get ⟨1, by decide +kernel⟩
  let m := v.2.execute e.rules .failingCheck v.1 .check #[0x21, 0, 0, 1]
  have hv : v ∈ e.visits (.pass .failingCheck 9) := List.get_mem _ _
  have hf : Script.failingCheck.fetch (v.2.pool.thread v.1).pc =
    .ok (.check, #[0x21, 0, 0, 1]) := by decide +kernel
  have he : m = (m.1, .ok .unwind) := Prod.ext rfl (by decide +kernel)
  have hopen : 0 ≤ (m.1.pool.thread v.1).level.ifCounter := by decide +kernel
  exact ⟨v, hv, _, m.1, hf, he, hopen,
    ((control_state_in_range {} {} _ _).2 _ v hv).2 _ _ _ m.1 hf he hopen |>.2⟩

end RoomScript
