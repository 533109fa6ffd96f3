import RoomScript.Proofs.ControlState
import RoomScript.Proofs.Events

/-!
# Faults

A fault stops a thread and the pass with it, and an instruction that faults leaves nothing half
done. Its handler has looked at everything that could go wrong before it asks for a write, so the
host does not see it. It has reached no other thread. Its own thread stays where it is, for anyone
to look at; the one thing that may be found on it is the frame of a switch, which is opened before
the arms are searched.

Two operations could in principle fault in the middle: closing an if block takes the block off even
if there is no address to go on at, and a condition that fails does so after the instruction is done
with. Neither can happen, because the index into the block stack never leaves it.

**Main statements.** `Handler.writes_of_error`: an instruction that faults asks for no writes.
`Thread.Turned.of_fault`: what it leaves of its thread. `Engine.fault_is_atomic`: what a pass that
ends in a fault leaves of everything.
-/

namespace RoomScript

open Payload

/-! ### A faulting handler asks for nothing -/

/-- A reaction that faults asks for no writes. -/
def Reaction.Clean {n : Nat} (r : Reaction n) : Prop := ∀ f, r.result = .error f → r.writes = []

section Clean

variable {n : Nat} {site : Site n} {view : Host.View} {raw : Bytes}

theorem Reaction.Clean.of_writes {r : Reaction n} (h : r.writes = []) : r.Clean := fun _ _ => h

theorem Reaction.Clean.of_ok {r : Reaction n} {flow : Flow} (h : r.result = .ok flow) :
    r.Clean := fun f hf => by rw [h] at hf; exact nomatch hf

theorem Site.clean_attempt (x : Except Fault Thread) (flow : Flow) :
    (site.attempt x flow).Clean := by
  cases x with
  | ok t => exact .of_writes rfl
  | error f => exact .of_writes rfl

theorem Control.clean_leaveBlock (go : Thread → Thread) : (leaveBlock site go).Clean := by
  unfold leaveBlock
  rcases site.thread.popBlock with ⟨t, f | resume⟩ <;> exact .of_writes rfl

theorem Control.clean_switch (p : Switch) : (switch site view p).Clean := by
  unfold switch
  simp only
  split
  · exact .of_writes rfl
  · split
    · exact .of_writes rfl
    · exact .of_writes rfl
    · split <;> exact .of_writes rfl

theorem Control.clean_gosub (p : Gosub) : (gosub site p).Clean := by
  unfold gosub
  split
  · exact .of_writes rfl
  · split <;> exact .of_writes rfl

theorem Memory.clean_setBit (p : SetBit) : (setBit site view p).Clean := by
  unfold setBit
  simp only
  split
  · exact .of_ok rfl
  · exact .of_ok rfl
  · exact .of_ok rfl
  · exact .of_writes rfl

theorem Memory.clean_store (var : UInt8) (value : Except Fault Int32) :
    (store site var value).Clean := by
  cases value with
  | ok value => exact .of_ok rfl
  | error f => exact .of_writes rfl

theorem Handler.clean_reading {α : Type} [Payload α]
    {run : {n : Nat} → Site n → Host.View → α → Reaction n} (h : ∀ p, (run site view p).Clean) :
    ((reading α run).run site view raw).Clean := by
  simp only [reading]
  split
  · exact h _
  · exact .of_writes rfl

/-- **An instruction that faults asks for no writes.** -/
theorem Handler.writes_of_error (op : Opcode) (site : Site n) (view : Host.View) (raw : Bytes) :
    ((standard op).run site view raw).Clean := by
  cases op
  case evtEnd =>
    change (Control.evtEnd site).Clean
    unfold Control.evtEnd
    split <;> exact .of_writes rfl
  case evtExec => exact clean_reading fun p => .of_writes (Control.evtExec_eq site p).1
  case ifStart =>
    refine clean_reading fun p => ?_
    unfold Control.ifStart
    simp only
    split <;> exact .of_writes rfl
  case elseStart => exact clean_reading fun p => Control.clean_leaveBlock _
  case endIf => exact Control.clean_leaveBlock _
  case sleep => exact clean_reading fun p => Site.clean_attempt _ _
  case sleeping | forEnd | breakLoop | endSwitch => exact Site.clean_attempt _ _
  case forLoop =>
    refine clean_reading fun p => ?_
    unfold Control.forStart
    simp only
    split
    · exact .of_writes rfl
    · exact Site.clean_attempt _ _
  case switch => exact clean_reading fun p => Control.clean_switch p
  case gosub => exact clean_reading fun p => Control.clean_gosub p
  case setBit => exact clean_reading fun p => Memory.clean_setBit p
  case calculate | calculateFrom => exact clean_reading fun p => Memory.clean_store _ _
  case posSet =>
    refine clean_reading fun p => ?_
    unfold Staging.posSet
    split <;> exact .of_ok rfl
  case memberSet =>
    refine clean_reading fun p => ?_
    unfold Staging.memberSet
    simp only
    split
    · split <;> exact .of_ok rfl
    · exact .of_ok rfl
  case scaIdSet =>
    refine clean_reading fun p => ?_
    unfold Staging.collisionSet
    split <;> exact .of_ok rfl
  -- the rest does not fault on a payload that can be read
  case goto | check | compare | save | copy | cutChg | aotSet | aotSet4p | objModelSet | workSet |
      sceEsprOn | doorAotSet | doorAotSet4p | memberCmp | plcMotion | plcDest | plcNeck |
      sceEmSet | aotReset | sceEsprKill | itemAotSet | itemAotSet4p | sceBgmControl =>
    exact clean_reading fun p => .of_ok rfl
  all_goals exact .of_ok rfl

end Clean

/-! ### What a faulting instruction leaves of its thread -/

/-- **A thread that was stopped at an instruction**, next to what it was before: it is idle where it
stood, with the control state it had, but for the frame that a switch has opened. -/
structure Thread.StoppedAt (script : Script) (before after : Thread) : Prop where
  running : after.running = false
  pc : after.pc = before.pc
  sub : after.sub = before.sub
  stackIndex : after.stackIndex = before.stackIndex
  workSet : after.workSet = before.workSet
  levels : after.levels = before.levels ∨
    ∃ raw p, ∃ k : Fin loopDepth, script.fetch before.pc = .ok (.switch, raw) ∧
      decode Switch raw = .ok p ∧ (k.val : Int) = before.level.loopLevel + 1 ∧
      after.levels = before.levels.set before.sub { before.level with
        frames := before.level.frames.set k (p.frame before.pc before.level.ifCounter)
        loopLevel := before.level.loopLevel + 1 }

namespace Thread

variable {t t' : Thread}

/-- In range, closing an if block faults only if none is open, and then changes nothing. -/
theorem InRange.popBlock_error (h : t.InRange) {f : Fault} (hp : t.popBlock = (t', .error f)) :
    t' = t := by
  have hindex := h.stackIndex_eq
  -- an open block has a slot; without one the index is zero, and nothing is taken off
  by_cases hopen : 0 ≤ t.level.ifCounter
  · obtain ⟨resume, hok⟩ := h.popBlock_ok hopen
    rw [hp] at hok
    exact nomatch hok
  · obtain ⟨-, rfl, -⟩ | ⟨hne, -⟩ := popBlock_cases hp
    · rfl
    · omega

/-- In range, a condition that fails always finds where to go on. -/
theorem InRange.follow_ok (h : t.InRange) (flow : Flow) :
    ∃ pulse, (t.follow flow).2 = .ok pulse := by
  obtain ⟨pulse, heq⟩ | ⟨hopen, ⟨_, _, hp, -⟩ | ⟨_, _, -, heq⟩⟩ := follow_cases t flow
  · exact ⟨pulse, by rw [heq]⟩
  · obtain ⟨resume, hok⟩ := h.popBlock_ok hopen
    rw [hp] at hok
    exact nomatch hok
  · exact ⟨.running, by rw [heq]⟩

/-- **What an instruction that faults does to its thread**: nothing, or it opens the frame of a
switch. -/
theorem effect_of_fault {script : Script} {view : Host.View} {op : Opcode} {raw : Bytes} {f : Fault}
    (hrange : t.InRange) (h : Effect script view t op raw t' (.error f)) :
    t' = t ∨ op = .switch ∧ ∃ p, decode Switch raw = .ok p ∧
      t.pushLoop (p.frame t.pc t.level.ifCounter) = .ok t' := by
  cases h with
  | noIf _ hp => exact .inl (hrange.popBlock_error hp)
  | losesArm hp ht _ => exact .inr ⟨rfl, _, hp, ht⟩
  | balks _ _ | tooManyIfs _ | tooManyLoops _ _ | noLoop _ _ | noEntry _ | tooDeep _ =>
    exact .inl rfl

/-- A turn that faults leaves a thread that is stopped at its instruction, once it is made idle. -/
theorem Turned.of_fault {script : Script} {view : Host.View} {op : Opcode} {raw : Bytes} {f : Fault}
    (hrange : t.InRange) (hf : script.fetch t.pc = .ok (op, raw))
    (h : Turned script view t op raw t' (.error f)) : t.StoppedAt script t'.halt := by
  have hready : t.ready.InRange := InRange.congr (.ready t) hrange
  generalize hres : (Except.error f : Except Fault Machine.Pulse) = res at h
  cases h with
  | fault he =>
    rcases effect_of_fault hready he with rfl | ⟨rfl, p, hp, hpush⟩
    · exact ⟨rfl, rfl, rfl, rfl, rfl, .inl rfl⟩
    · obtain ⟨k, hk, rfl⟩ := pushLoop_eq_ok hpush
      exact ⟨rfl, rfl, rfl, rfl, rfl, .inr ⟨raw, p, k, hf, hp, hk, rfl⟩⟩
  | flow he =>
    -- the instruction was done with, so the fault would have to come from following the flow
    obtain ⟨pulse, hok⟩ := ((hready.effect he).moveOn op.size).follow_ok _
    rw [hok] at hres
    exact nomatch hres

end Thread

/-! ### What a pass that ends in a fault leaves -/

namespace Machine

variable {n : Nat} {σ : Type} [Host σ] {rules : Rules} {script : Script} {fuel : Nat} {i : Fin n}
  {m m' : Machine n σ} {f : Fault}

/-- **It is the handler that faults**, and it asks for no writes: following the flow always finds
where to go on. -/
theorem reaction_of_fault (hstd : rules.handlers = Handler.standard)
    (hrange : ∀ j, (m.pool.thread j).InRange) {op : Opcode} {raw : Bytes}
    (hf : script.fetch (m.pool.thread i).pc = .ok (op, raw))
    (ht : (m.turn rules script i op raw).2 = .error f) :
    (m.reaction rules script i op raw).result = .error f ∧
      (m.reaction rules script i op raw).writes = [] := by
  have hclean : (m.reaction rules script i op raw).Clean := by
    rw [reaction, hstd]
    exact Handler.writes_of_error op _ _ raw
  obtain ⟨-, herr, hok⟩ := m.turn_eq rules script i op raw rfl
  cases hres : (m.reaction rules script i op raw).result with
  | error g =>
    rw [(herr g hres).2] at ht
    cases ht
    exact ⟨rfl, hclean f hres⟩
  -- a condition that fails in range has a block to go back to, so only the handler can fault
  | ok flow =>
    obtain ⟨m₁, hpool, -, hexec⟩ := m.execute_eq rules script i op raw
    rw [hres] at hexec
    have hthread := execute_inRange hstd hrange hf hexec
    rw [pool_modify, Pool.thread_modify, hpool] at hthread
    obtain ⟨pulse, hpulse⟩ := hthread.follow_ok flow
    rw [(hok flow hres).2, hpulse] at ht
    cases ht

/-- **A turn that faults is as if it had not been**, but for the frame of a switch. -/
theorem turn_of_fault (hstd : rules.handlers = Handler.standard)
    (hrange : ∀ j, (m.pool.thread j).InRange) {op : Opcode} {raw : Bytes}
    (hf : script.fetch (m.pool.thread i).pc = .ok (op, raw))
    (ht : m.turn rules script i op raw = (m', .error f)) :
    m'.host = m.host ∧ (∀ j ≠ i, m'.pool.thread j = m.pool.thread j) ∧
      (m.pool.thread i).StoppedAt script (m'.pool.thread i).halt := by
  have hw := Script.whole_of_fetch hf
  have hresult : (m.turn rules script i op raw).2 = .error f := by rw [ht]
  have hhost : m'.host = m.host := by
    have hwrites := (m.turn_eq rules script i op raw rfl).1
    rw [(reaction_of_fault hstd hrange hf hresult).2, ht] at hwrites
    exact hwrites
  refine ⟨hhost, ?_⟩
  by_cases hop : op = .evtExec
  · subst hop
    rcases m.turn_event script i hstd hw with ⟨_, _, _, -, -, hok⟩ | ⟨g, hpool, -⟩
    · rw [hok] at hresult
      exact nomatch hresult
    · rw [ht] at hpool
      refine ⟨fun j hj => ?_, ?_⟩
      · rw [hpool, Pool.thread_modify_of_ne _ _ hj]
      · rw [hpool, Pool.thread_modify]
        exact ⟨rfl, rfl, rfl, rfl, rfl, .inl rfl⟩
  · obtain ⟨t, hpool, hturned⟩ := m.turn_local script i hstd hw hop
    rw [ht] at hpool hturned
    refine ⟨fun j hj => ?_, ?_⟩
    · rw [hpool, Pool.thread_replace_of_ne _ _ hj]
    · rw [hpool, Pool.thread_replace]
      exact hturned.of_fault (hrange i) hf

/-- **What a dispatch that ends in a fault leaves**, next to its last moment. -/
theorem runThread_of_fault (hstd : rules.handlers = Handler.standard)
    (hrange : ∀ v ∈ dispatchVisits rules script i (fuelFor rules fuel) 0 m,
      ∀ j, (v.pool.thread j).InRange)
    (hr : m.runThread rules script fuel i = (m', .error (.fault f))) :
    ∃ front v, dispatchVisits rules script i (fuelFor rules fuel) 0 m = front ++ [v] ∧
      v.StoppedBy rules script i f ∧ m'.host = v.host ∧
      (∀ j ≠ i, m'.pool.thread j = v.pool.thread j) ∧
      (v.pool.thread i).StoppedAt script (m'.pool.thread i) := by
  obtain ⟨hresult, hhost, hpool⟩ := m.runThread_eq rules script fuel i
  rw [hr] at hresult hhost hpool
  have hdispatched := dispatch_dispatched rules script i (fuelFor rules fuel) 0 m
  rw [← hresult] at hpool
  obtain ⟨front, v, hvisits, hstopped, hend⟩ := hdispatched.of_fault hresult.symm
  refine ⟨front, v, hvisits, hstopped, ?_⟩
  -- the thread is made idle after the dispatch, and that is all
  have hlast : (dispatch rules script i (fuelFor rules fuel) 0 m).1.host = v.host ∧
      (∀ j ≠ i, (dispatch rules script i (fuelFor rules fuel) 0 m).1.pool.thread j =
        v.pool.thread j) ∧
      (v.pool.thread i).StoppedAt script
        ((dispatch rules script i (fuelFor rules fuel) 0 m).1.pool.thread i).halt := by
    rcases hend with hv | ⟨op, raw, hf, ht⟩
    · rw [hv]
      exact ⟨rfl, fun _ _ => rfl, rfl, rfl, rfl, rfl, rfl, .inl rfl⟩
    · exact turn_of_fault hstd (hrange v (by rw [hvisits]; simp)) hf ht
  obtain ⟨hlastHost, hothers, hthread⟩ := hlast
  refine ⟨hhost.trans hlastHost, fun j hj => ?_, ?_⟩
  · rw [hpool, Pool.thread_modify_of_ne _ _ hj, hothers j hj]
  · rw [hpool, Pool.thread_modify]
    exact hthread

end Machine

/-- **A fault is atomic.** If a pass of an engine ends in a fault, whatever the engine has done
before, take the last moment of the pass and the thread whose turn it is. There the thread was
stopped: it finds no instruction, is over its budget, or executes an instruction that faults and
asks for no writes. The host and every other thread are as at that moment. The thread is idle where
it stood, with the control state it had, but for the frame that a switch has opened. And no later
thread was dispatched in the pass. -/
theorem Engine.fault_is_atomic {σ : Type} [Host σ] {config : Config} {traces : TraceSet} {host : σ}
    {calls : List (Call σ)} {e : Engine config.threadCount σ}
    (he : e = (Engine.ofConfig config traces host).run calls) {script : Script} {fuel : Nat}
    {after : Machine config.threadCount σ} {f : Fault}
    (hfault : e.machine.pass e.rules script fuel = (after, .error (.fault f))) :
    ∃ front i v, e.machine.visits e.rules script fuel = front ++ [(i, v)] ∧
      v.StoppedBy e.rules script i f ∧
      (∀ op raw, script.fetch (v.pool.thread i).pc = .ok (op, raw) →
        (v.turn e.rules script i op raw).2 = .error f →
        (v.reaction e.rules script i op raw).writes = []) ∧
      after.host = v.host ∧
      (∀ j ≠ i, after.pool.thread j = v.pool.thread j) ∧
      (v.pool.thread i).StoppedAt script (after.pool.thread i) ∧
      ∀ d ∈ e.machine.dispatches e.rules script fuel, d.1 ≤ i := by
  have hstd : e.rules.handlers = Handler.standard := by rw [he, rules_run]; rfl
  have hrange : ∀ v ∈ e.machine.visits e.rules script fuel, ∀ j, (v.2.pool.thread j).InRange := by
    rw [he]
    exact visits_inRange config traces host calls (.pass script fuel)
  have hpassed := e.machine.pass_passed e.rules script fuel
  rw [hfault] at hpassed
  -- the pass stops at its last dispatch, and that one at its last moment
  obtain ⟨ds, i, m, hds, hr⟩ := hpassed.of_error rfl
  have hvisits := e.machine.visits_eq_flatMap e.rules script fuel
  rw [hds, List.flatMap_append, List.flatMap_singleton] at hvisits
  rw [hvisits] at hrange ⊢
  rw [List.forall_mem_append, List.forall_mem_map] at hrange
  obtain ⟨front, v, hlast, hstopped, hhost, hothers, hthread⟩ :=
    Machine.runThread_of_fault hstd hrange.2 hr
  have hv : ∀ j, (v.pool.thread j).InRange := hrange.2 v (by rw [hlast]; simp)
  refine ⟨_, i, v, by rw [hlast, List.map_append, ← List.append_assoc]; rfl, hstopped, ?_, hhost,
    hothers, hthread, ?_⟩
  · intro op raw hf ht
    exact (Machine.reaction_of_fault hstd hv hf ht).2
  · have hsorted := e.machine.pairwise_dispatches e.rules script fuel
    rw [hds, List.map_append, List.pairwise_append] at hsorted
    rw [hds, List.forall_mem_append]
    refine ⟨fun d hd => ?_, fun d hd => ?_⟩
    · exact Nat.le_of_lt (hsorted.2.2 _ (List.mem_map_of_mem hd) i (by simp))
    · obtain rfl := List.mem_singleton.mp hd
      exact Nat.le_refl _

/-- Stores a number and then looks for an arm where there is none. -/
def Script.armless : Script where
  data := #[0x24, 3, 7, 0, 0x13, 3, 0, 0, 0x00, 0x01, 0]
  entries := [0]
  entries_lt := by decide

/-- The switch is stopped behind the instruction that has stored its number: the number is kept, and
nothing but the frame of the switch is found on the thread. -/
theorem Engine.fault_is_atomic_armless :
    let e := (Engine.ofConfig {} {} ({} : Stage)).run [.start .armless 0 0]
    ∃ after, e.machine.pass e.rules .armless 9 =
        (after, .error (.fault (.unexpectedSwitchOpcode .nop 8))) ∧
      Host.var after.host 3 = 7 ∧
      ∃ v ∈ e.machine.visits e.rules .armless 9, after.host = v.2.host ∧
        (v.2.pool.thread v.1).StoppedAt .armless (after.pool.thread v.1) := by
  intro e
  have hresult : (e.machine.pass e.rules .armless 9).2 =
    .error (.fault (.unexpectedSwitchOpcode .nop 8)) := by decide +kernel
  have hvar : Host.var (e.machine.pass e.rules .armless 9).1.host 3 = 7 := by decide +kernel
  rcases hfault : e.machine.pass e.rules .armless 9 with ⟨after, result⟩
  rw [hfault] at hresult hvar
  obtain rfl : result = _ := hresult
  obtain ⟨front, i, v, hvisits, -, -, hhost, -, hthread, -⟩ := fault_is_atomic (e := e) rfl hfault
  have hmem : (i, v) ∈ e.machine.visits e.rules .armless 9 := by
    rw [hvisits]
    exact List.mem_append_right _ List.mem_cons_self
  exact ⟨after, rfl, hvar, (i, v), hmem, hhost, hthread⟩

end RoomScript
