import RoomScript.Proofs.Events
import RoomScript.Proofs.Moved
import RoomScript.Session

/-!
# Running moved code

A script that was moved runs as it did before. This file takes the relation on threads of
`RoomScript.Proofs.Moved` through the handlers, the turns of a thread, whole passes and the calls
from outside.

Handlers are compared at two sites, one in each script. What they do to the current thread is made
of the operations on threads, and what they do besides depends on the bytes of the instruction, the
host and the selection of the thread, which are the same. Only an event reaches another thread, and
what it finds there does not matter, except for who is idle.

Addresses outside of the script do not move. An instruction that is injected is read at address
zero, in moved code as in the code as it was, so its faults are the same.

**Main statements.** `Handler.standard_moved`: one instruction. `Machine.turn_moved` and
`Machine.pass_moved`: a turn and a pass. `Engine.answers_moved`: requests from outside, one after
another. `Engine.relocation`: a new engine runs a script and the moved one alike.
-/

namespace RoomScript

open Payload

/-! ### Threads of a pool -/

/-- Threads that are related everywhere else can be put at the same place of two pools. -/
theorem Pool.rel_replace {n : Nat} {R : Thread → Thread → Prop} {p p' : Pool n} {i : Fin n}
    {t t' : Thread} (h : ∀ j, j ≠ i → R (p.thread j) (p'.thread j)) (ht : R t t') (j : Fin n) :
    R ((p.replace i t).thread j) ((p'.replace i t').thread j) := by
  by_cases hj : j = i
  · subst hj
    rw [thread_replace, thread_replace]
    exact ht
  · rw [thread_replace_of_ne _ _ hj, thread_replace_of_ne _ _ hj]
    exact h j hj

namespace Thread

/-- Two threads, the second in moved code, between two instructions: a thread that sleeps stands on
the sleeping instruction. -/
def Linked (s : Script) (d : Nat) (t t' : Thread) : Prop :=
  Awake d t t' ∨ s.data[t.pc]? = some Opcode.sleeping.toByte ∧ Dozing d t t'

/-- Two threads at the same place of two pools: linked, or never started. -/
def Alike (s : Script) (d : Nat) (t t' : Thread) : Prop :=
  Linked s d t t' ∨ t' = t ∧ t.running = false

/-- How an instruction comes out for two threads. A condition cannot fail in a thread that sleeps,
and a thread that goes to sleep has placed its address. -/
inductive Ends (s : Script) (d : Nat) (t t' : Thread) : Except Fault Flow → Except Fault Flow → Prop
  | awake {flow} (h : Awake d t t') : Ends s d t t' (.ok flow) (.ok flow)
  | asleep {flow} (hflow : flow ≠ .unwind) (hplaced : t.overridden = true)
      (hbyte : s.data[t.pc]? = some Opcode.sleeping.toByte) (h : Dozing d t t') :
    Ends s d t t' (.ok flow) (.ok flow)
  | fault (f : Fault) (h : Linked s d t t') : Ends s d t t' (.error f) (.error (f.moved d))

namespace Linked

variable {s : Script} {d : Nat} {t t' : Thread}

theorem paired (h : Linked s d t t') : Paired d t t' := h.imp_right And.right

theorem pc (h : Linked s d t t') : t'.pc = t.pc + d := h.paired.pc

theorem id (h : Linked s d t t') : t'.id = t.id := h.elim (·.id) (·.2.id)

theorem running (h : Linked s d t t') : t'.running = t.running := h.elim (·.running) (·.2.running)

theorem workSet (h : Linked s d t t') : t'.workSet = t.workSet := h.elim (·.workSet) (·.2.workSet)

theorem ready (h : Linked s d t t') : Linked s d t.ready t'.ready :=
  h.imp (·.ready) (And.imp_right (·.ready))

theorem halt (h : Linked s d t t') : Linked s d t.halt t'.halt :=
  h.imp (·.halt) (And.imp_right (·.halt))

/-- Only the sleeping instruction finds a thread asleep. -/
theorem awake (h : Linked s d t t') {op : Opcode} {raw : Bytes} (hf : s.fetch t.pc = .ok (op, raw))
    (hop : op ≠ .sleeping) : Awake d t t' := by
  rcases h with h | ⟨hbyte, -⟩
  · exact h
  -- a thread that sleeps stands on another opcode byte
  · have hfetched := (Script.fetch_eq_ok_iff.mp hf).1
    have heq : Opcode.sleeping.toByte = op.toByte := Option.some.inj (hbyte.symm.trans hfetched)
    have hsame : some Opcode.sleeping = some op := by
      rw [← Opcode.ofByte?_toByte, ← Opcode.ofByte?_toByte, heq]
    exact absurd (Option.some.inj hsame).symm hop

end Linked

namespace Alike

variable {s : Script} {d : Nat} {t t' : Thread}

theorem id (h : Alike s d t t') : t'.id = t.id := by
  rcases h with h | ⟨rfl, -⟩
  · exact h.id
  · rfl

theorem running (h : Alike s d t t') : t'.running = t.running := by
  rcases h with h | ⟨rfl, -⟩
  · exact h.running
  · rfl

theorem workSet (h : Alike s d t t') : t'.workSet = t.workSet := by
  rcases h with h | ⟨rfl, -⟩
  · exact h.workSet
  · rfl

theorem ready (h : Alike s d t t') : Alike s d t.ready t'.ready :=
  h.imp (·.ready) fun ⟨heq, hidle⟩ => ⟨by rw [heq], hidle⟩

theorem halt (h : Alike s d t t') : Alike s d t.halt t'.halt :=
  h.imp (·.halt) fun ⟨heq, _⟩ => ⟨by rw [heq], rfl⟩

/-- Whatever a thread was before, it is awake once it is started. -/
theorem activate (h : Alike s d t t') {pc pc' : Nat} (hpc : pc' = pc + d) :
    Awake d (t.activate pc) (t'.activate pc') := .inl (.activate h.id h.workSet hpc)

theorem linked (h : Alike s d t t') (hrunning : t.running = true) : Linked s d t t' := by
  rcases h with h | ⟨-, hidle⟩
  · exact h
  · rw [hidle] at hrunning
    exact nomatch hrunning

end Alike

theorem Ends.inv {s : Script} {d : Nat} {t t' : Thread} {x x' : Except Fault Flow}
    (h : Ends s d t t' x x') :
    (∃ f, x = .error f ∧ x' = .error (f.moved d) ∧ Linked s d t t') ∨
      ∃ flow, x = .ok flow ∧ x' = .ok flow ∧ Ends s d t t' (.ok flow) (.ok flow) := by
  cases h with
  | awake h => exact .inr ⟨_, rfl, rfl, .awake h⟩
  | asleep hflow hplaced hbyte h => exact .inr ⟨_, rfl, rfl, .asleep hflow hplaced hbyte h⟩
  | fault f h => exact .inl ⟨f, rfl, rfl, h⟩

/-- After the instruction the thread moves on and follows the flow. -/
theorem Ends.follow {s : Script} {d : Nat} {t t' : Thread} {flow : Flow}
    (h : Ends s d t t' (.ok flow) (.ok flow)) (size : Nat) :
    Linked s d ((t.moveOn size).follow flow).1 ((t'.moveOn size).follow flow).1 ∧
      Outcome d Eq ((t.moveOn size).follow flow).2 ((t'.moveOn size).follow flow).2 := by
  cases h with
  | awake h => exact ⟨.inl ((h.moveOn size).follow flow).1, ((h.moveOn size).follow flow).2⟩
  | asleep hflow hplaced hbyte h =>
    have hstays : Linked s d (t.moveOn size) (t'.moveOn size) :=
      .inr ⟨by rw [Thread.moveOn, hplaced]; exact hbyte, h.moveOn size⟩
    cases flow with
    | next => exact ⟨hstays, .ok rfl⟩
    | halt => exact ⟨hstays, .ok rfl⟩
    | unwind => exact absurd rfl hflow

end Thread

/-! ### Sites and reactions -/

section Handlers

variable {n d : Nat} {site site' : Site n}

/-- Two sites of the same instruction, the second in moved code. -/
structure Site.Moved (d : Nat) (site site' : Site n) : Prop where
  script : site.script.Moved d site'.script
  sleeps : site.script.SleepsInPlace
  current : site'.current = site.current
  pool : ∀ j, Thread.Alike site.script d (site.pool.thread j) (site'.pool.thread j)

/-- Two reactions that come out alike for thread `i`, and leave the other threads alike. -/
structure Reaction.Moved (s : Script) (d : Nat) (i : Fin n) (r r' : Reaction n) : Prop where
  writes : r'.writes = r.writes
  others : ∀ j, j ≠ i → Thread.Alike s d (r.pool.thread j) (r'.pool.thread j)
  current : Thread.Ends s d (r.pool.thread i) (r'.pool.thread i) r.result r'.result

namespace Site.Moved

variable (h : site.Moved d site')

include h

/-- Reactions that replace the current thread. -/
theorem of_replace {r r' : Reaction n} {t t' : Thread} (hr : r.pool = site.replace t)
    (hr' : r'.pool = site'.replace t') (hwrites : r'.writes = r.writes)
    (hends : Thread.Ends site.script d t t' r.result r'.result) :
    r.Moved site.script d site.current r' where
  writes := hwrites
  others := by
    intro j hj
    rw [hr, hr', Site.replace, Site.replace, Pool.thread_replace_of_ne _ _ hj,
      Pool.thread_replace_of_ne _ _ (h.current ▸ hj)]
    exact h.pool j
  current := by
    rw [hr, hr', Site.replace, Site.replace, h.current, Pool.thread_replace, Pool.thread_replace]
    exact hends

/-- Reactions that leave every thread as it was. -/
theorem of_same {r r' : Reaction n} (hr : r.pool = site.pool) (hr' : r'.pool = site'.pool)
    (hwrites : r'.writes = r.writes)
    (hends : Thread.Ends site.script d site.thread site'.thread r.result r'.result) :
    r.Moved site.script d site.current r' :=
  h.of_replace (hr.trans (Pool.replace_thread _ _).symm) (hr'.trans (Pool.replace_thread _ _).symm)
    hwrites hends

theorem become {t t' : Thread} (ht : Thread.Awake d t t') (flow : Flow)
    (notices notices' : List Notice) :
    (site.become t flow notices).Moved site.script d site.current
      (site'.become t' flow notices') :=
  h.of_replace rfl rfl rfl (.awake ht)

theorem fault (ht : Thread.Linked site.script d site.thread site'.thread) (f : Fault) :
    (site.fault f).Moved site.script d site.current (site'.fault (f.moved d)) :=
  h.of_same rfl rfl rfl (.fault f ht)

theorem attempt (ht : Thread.Linked site.script d site.thread site'.thread) {flow : Flow}
    {x x' : Except Fault Thread}
    (hx : Outcome d (fun t t' => Thread.Ends site.script d t t' (.ok flow) (.ok flow)) x x') :
    (site.attempt x flow).Moved site.script d site.current (site'.attempt x' flow) := by
  cases hx with
  | ok hends => exact h.of_replace rfl rfl rfl hends
  | error f => exact h.fault ht f

variable (ht : Thread.Awake d site.thread site'.thread)

include ht

theorem goOn (flow : Flow) (notices notices' : List Notice) :
    (site.goOn flow notices).Moved site.script d site.current (site'.goOn flow notices') :=
  h.of_same rfl rfl rfl (.awake ht)

theorem ask (writes : List Write) (notices notices' : List Notice) :
    (site.ask writes notices).Moved site.script d site.current (site'.ask writes notices') :=
  h.of_same rfl rfl rfl (.awake ht)

theorem balk {f : Fault} (hf : f.isValue = true) :
    (site.fault f).Moved site.script d site.current (site'.fault f) := by
  have hfault := h.fault (.inl ht) f
  rwa [Fault.moved_of_isValue hf] at hfault

end Site.Moved

/-! ### Control instructions -/

/-- The frame of a loop header in moved code is the moved frame. -/
theorem Payload.ForLoop.frame_moved (p : ForLoop) (pc d : Nat) (ifCounter : Int) :
    p.frame (pc + d) ifCounter = (p.frame pc ifCounter).moved d := by
  simp only [ForLoop.frame, Frame.moved, Frame.mk.injEq, true_and, and_true]
  omega

/-- The frame of a switch header in moved code is the moved frame. -/
theorem Payload.Switch.frame_moved (p : Switch) (pc d : Nat) (ifCounter : Int) :
    p.frame (pc + d) ifCounter = (p.frame pc ifCounter).moved d := by
  simp only [Switch.frame, Frame.moved, Frame.mk.injEq, true_and, and_true]
  omega

namespace Control

section

variable (h : site.Moved d site') (ht : Thread.Awake d site.thread site'.thread)

include h ht

theorem evtEnd_moved : (evtEnd site).Moved site.script d site.current (evtEnd site') := by
  unfold evtEnd
  rcases ht.leaveSubroutine with ⟨hnone, hnone'⟩ | ⟨t, t', hsome, hsome', hawake⟩
  · rw [hnone, hnone']
    exact h.become ht.halt _ _ _
  · rw [hsome, hsome']
    exact h.become hawake _ _ _

theorem ifStart_moved (p : Block) :
    (ifStart site p).Moved site.script d site.current (ifStart site' p) := by
  have hpush := ht.pushBlock (site.thread.pc + Opcode.ifStart.size + p.length.toNat)
  -- the length of a block counts from its instruction, so where it ends is moved with it
  have hresume : site'.thread.pc + Opcode.ifStart.size + p.length.toNat =
      site.thread.pc + Opcode.ifStart.size + p.length.toNat + d := by
    rw [ht.pc]
    omega
  rw [← hresume] at hpush
  unfold ifStart
  rcases hpush.inv with ⟨f, hx, hx'⟩ | ⟨t, t', hx, hx', hopened⟩ <;>
    simp only [Site.pc, hx, hx']
  · exact h.fault (.inl ht) f
  · exact h.become hopened _ _ _

theorem leaveBlock_moved {go go' : Thread → Thread}
    (hgo : ∀ t t', Thread.Awake d t t' → Thread.Awake d (go t) (go' t')) :
    (leaveBlock site go).Moved site.script d site.current (leaveBlock site' go') := by
  obtain ⟨hthread, hresume⟩ := ht.popBlock
  unfold leaveBlock
  rcases hp : site.thread.popBlock with ⟨t, x⟩
  rcases hp' : site'.thread.popBlock with ⟨t', x'⟩
  rw [hp, hp'] at hthread hresume
  cases hresume with
  | ok hresume => exact h.become (hgo t t' hthread) _ _ _
  | error f => exact h.of_replace rfl rfl rfl (.fault f (.inl hthread))

theorem elseStart_moved (p : Block) :
    (elseStart site p).Moved site.script d site.current (elseStart site' p) :=
  leaveBlock_moved h ht fun t t' hawake =>
    hawake.jump (by rw [hawake.pc]; exact Nat.add_right_comm t.pc d _)

theorem endIf_moved : (endIf site).Moved site.script d site.current (endIf site') :=
  leaveBlock_moved h ht fun _ _ => id

theorem forStart_moved (p : ForLoop) :
    (forStart site p).Moved site.script d site.current (forStart site' p) := by
  unfold forStart
  by_cases hc : p.count = 0
  · simp only [if_pos hc]
    exact h.become (ht.jump (by rw [ht.pc]; omega)) _ _ _
  · simp only [if_neg hc]
    rw [← ForLoop.frame, ← ForLoop.frame, ht.pc, ht.ifCounter, ForLoop.frame_moved]
    refine h.attempt (.inl ht) (Outcome.map (ht.pushLoop (Nat.add_pos_right _ (by decide)) rfl) ?_)
    exact fun t t' hawake => .awake (hawake.jump (Nat.add_right_comm _ d _))

theorem forEnd_moved : (forEnd site).Moved site.script d site.current (forEnd site') := by
  unfold forEnd
  -- the frame is read, counted down and, after the last round, closed
  refine h.attempt (.inl ht) (ht.currentLoop.bind ?_)
  rintro frame - rfl
  refine (ht.setCounter _).bind fun t t' hcounted => ?_
  change Outcome d _ (if 0 < frame.counter - 1 then _ else _)
    (if 0 < frame.counter - 1 then _ else _)
  split
  · exact .ok (.awake (hcounted.jump rfl))
  · refine hcounted.popLoop.bind fun x x' hdone => .ok (.awake (hdone.jump ?_))
    rw [ht.pc]
    exact Nat.add_right_comm _ d _

theorem breakLoop_moved : (breakLoop site).Moved site.script d site.current (breakLoop site') := by
  unfold breakLoop
  cases hk : site.thread.level.openFrame? with
  | none =>
    have hk' := ht.openFrame?.trans hk
    simp only [Thread.popLoop_of_none hk, Thread.popLoop_of_none hk', ht.pc]
    exact h.fault (.inl ht) (.loopUnderflow site.thread.pc)
  | some k =>
    have hk' := ht.openFrame?.trans hk
    simp only [Thread.popLoop_of_open hk, Thread.popLoop_of_open hk', bind, Except.bind]
    rw [Thread.breakOut_eq, Thread.breakOut_eq]
    exact h.become (ht.breakOut hk) _ _ _

theorem endSwitch_moved : (endSwitch site).Moved site.script d site.current (endSwitch site') :=
  h.attempt (.inl ht) (ht.popLoop.map fun _ _ => .awake)

theorem switch_moved (view : Host.View) (p : Switch) :
    (switch site view p).Moved site.script d site.current (switch site' view p) := by
  have hpush := ht.pushLoop (f := p.frame site.thread.pc site.thread.level.ifCounter)
    (Nat.add_pos_right _ (by decide)) rfl
  have harm := h.script.findArm (view.var p.var) (site.thread.pc + Opcode.switch.size)
  rw [Nat.add_right_comm] at harm
  unfold switch
  simp only
  rw [← Switch.frame, ← Switch.frame, ht.pc, ht.ifCounter, Switch.frame_moved]
  rcases hpush.inv with ⟨f, hx, hx'⟩ | ⟨t, t', hx, hx', hopened⟩ <;> simp only [hx, hx']
  · exact h.fault (.inl ht) f
  -- from here on the frame is open, also if the search faults
  rcases harm.inv with ⟨f, hx, hx'⟩ | ⟨arm, -, hx, hx', rfl⟩ <;> simp only [hx, hx']
  · exact h.of_replace rfl rfl rfl (.fault f (.inl hopened))
  cases arm with
  | body address => exact h.become (hopened.jump rfl) _ _ _
  | behind address =>
    rcases hopened.popLoop.inv with ⟨f, hx, hx'⟩ | ⟨closed, closed', hx, hx', hclosed⟩ <;>
      simp only [Arm.moved, hx, hx']
    · exact h.of_replace rfl rfl rfl (.fault f (.inl hopened))
    · exact h.become (hclosed.jump rfl) _ _ _

theorem gosub_moved (p : Gosub) :
    (gosub site p).Moved site.script d site.current (gosub site' p) := by
  unfold gosub
  rcases (h.script.entry p.event.toNat).inv with
    ⟨f, hx, hx'⟩ | ⟨target, target', hx, hx', htarget⟩ <;> simp only [hx, hx']
  · exact h.fault (.inl ht) f
  have hcall := ht.enterSubroutine (site.thread.pc + Opcode.gosub.size) htarget
  rw [Nat.add_right_comm, ← ht.pc] at hcall
  rcases hcall.inv with ⟨f, hx, hx'⟩ | ⟨t, t', hx, hx', hcalled⟩ <;>
    simp only [Site.pc, hx, hx']
  · exact h.fault (.inl ht) f
  · exact h.become hcalled _ _ _

theorem sleep_moved {raw : Bytes} (hf : site.script.fetch site.thread.pc = .ok (.sleep, raw))
    (p : Sleep) : (sleep site p).Moved site.script d site.current (sleep site' p) := by
  -- the byte behind the opcode is there because the instruction was fetched whole
  have hbyte : site.script.data[site.thread.pc + 1]? = some Opcode.sleeping.toByte := by
    obtain ⟨hop, hsize, -⟩ := Script.fetch_eq_ok_iff.mp hf
    have hsleep : 1 < Opcode.sleep.size := by decide
    exact h.sleeps site.thread.pc (by omega) hop
  refine h.attempt (.inl ht) ?_
  rcases (ht.pushSleep p.count.toNat).inv with ⟨f, hx, hx'⟩ | ⟨t, t', hx, hx', hpaired⟩ <;>
    rw [hx, hx']
  · exact .error f
  · have hbyte : site.script.data[t.pc + 1]? = some Opcode.sleeping.toByte := by
      rw [(Thread.place_of_pushLoop hx).1]
      exact hbyte
    have hnext : t'.pc + 1 = t.pc + 1 + d := by
      rw [hpaired.pc]
      exact Nat.add_right_comm t.pc d 1
    rcases hpaired with hawake | hdozing
    · exact .ok (.awake (hawake.jump hnext))
    · exact .ok (.asleep (by decide) rfl hbyte (hdozing.jump hnext))

end

/-- The sleeping instruction stays where it is until it is over. -/
theorem sleeping_moved (h : site.Moved d site')
    (ht : Thread.Linked site.script d site.thread site'.thread) :
    (sleeping site).Moved site.script d site.current (sleeping site') := by
  -- the tick is counted on a thread that stands where it stood
  have hcount : ∀ counter, Outcome d (fun t t' => Thread.Awake d t t' ∨
      site.script.data[site.thread.pc]? = some Opcode.sleeping.toByte ∧ Thread.Dozing d t t')
      (site.thread.setCounter counter) (site'.thread.setCounter counter) := by
    intro counter
    rcases ht with hawake | ⟨hbyte, hdozing⟩
    · exact (hawake.setCounter counter).mono fun _ _ => .inl
    · exact (hdozing.setCounter counter).mono fun _ _ h => .inr ⟨hbyte, h⟩
  unfold sleeping
  refine h.attempt ht (ht.paired.currentLoop.bind fun frame frame' hcounter => ?_)
  simp only [hcounter]
  refine (hcount _).bind fun t t' hcounted => ?_
  split
  · have hpaired : Thread.Paired d t t' := hcounted.imp_right And.right
    refine hpaired.popLoop.bind fun x x' hdone => .ok (.awake (hdone.jump ?_))
    rw [ht.pc]
    exact Nat.add_right_comm _ d _
  · rcases hcounted with hawake | ⟨hbyte, hdozing⟩
    · exact .ok (.awake (hawake.jump ht.pc))
    · exact .ok (.asleep (by decide) rfl hbyte (hdozing.jump ht.pc))

end Control

/-! ### Instructions on the game -/

section

variable (h : site.Moved d site') (ht : Thread.Awake d site.thread site'.thread)

include h ht

theorem Memory.setBit_moved (view : Host.View) (p : SetBit) :
    (setBit site view p).Moved site.script d site.current (setBit site' view p) := by
  unfold setBit
  simp only
  split
  · exact h.ask ht _ _ _
  · exact h.ask ht _ _ _
  · exact h.ask ht _ _ _
  · exact h.balk ht rfl

theorem Memory.store_moved (var operation : UInt8) (lhs rhs : Int32) :
    (store site var (Calculator.calculate operation lhs rhs)).Moved site.script d site.current
      (store site' var (Calculator.calculate operation lhs rhs)) := by
  unfold store
  cases hvalue : Calculator.calculate operation lhs rhs with
  | ok value => exact h.ask ht _ _ _
  | error f => exact h.balk ht (Calculator.isValue_of_calculate hvalue)

theorem Staging.posSet_moved (p : PosSet) :
    (posSet site p).Moved site.script d site.current (posSet site' p) := by
  unfold posSet
  rw [ht.workSet]
  split
  · exact h.ask ht _ _ _
  · exact h.goOn ht _ _ _

theorem Staging.memberSet_moved (p : MemberSet) :
    (memberSet site p).Moved site.script d site.current (memberSet site' p) := by
  unfold memberSet
  simp only [ht.workSet]
  split
  · split
    · exact h.ask ht _ _ _
    · exact h.ask ht _ _ _
    · exact h.goOn ht _ _ _
  · exact h.goOn ht _ _ _

theorem Staging.collisionSet_moved (p : CollisionSet) :
    (collisionSet site p).Moved site.script d site.current (collisionSet site' p) := by
  unfold collisionSet
  split
  · exact h.ask ht _ _ _
  · exact h.goOn ht _ _ _

end

/-! ### Events -/

/-- **An event is taken by the same thread**, which starts at the moved entry point. -/
theorem Control.schedule_moved {s s' : Script} (hs : s.Moved d s') {pool pool' : Pool n}
    (h : ∀ j, Thread.Alike s d (pool.thread j) (pool'.thread j)) (p : EvtExec) :
    (∃ f : Fault, f.moved d = f ∧ (schedule s pool p).result = .error f ∧
      (schedule s' pool' p).result = .error f) ∨
    ∃ k address address', address' = address + d ∧
      (schedule s pool p).result = .ok (k, pool.modify k (·.activate address)) ∧
      (schedule s' pool' p).result = .ok (k, pool'.modify k (·.activate address')) := by
  have htaker : taker? pool' p.thread = taker? pool p.thread :=
    taker?_congr (fun j => (h j).running) p.thread
  rw [schedule_result, schedule_result, htaker]
  rcases (hs.entry p.event.toNat).inv with
    ⟨f, hx, hx'⟩ | ⟨address, address', hx, hx', haddress⟩ <;> rw [hx, hx']
  -- neither of the two faults has an address
  · obtain rfl : f = .unknownEntry p.event.toNat := Script.fault_of_entry hx
    exact .inl ⟨_, rfl, rfl, rfl⟩
  · cases taker? pool p.thread with
    | none => exact .inl ⟨.invalidThread 0, rfl, rfl, rfl⟩
    | some k => exact .inr ⟨k, address, address', haddress, rfl, rfl⟩

/-- The thread that takes an event may be the one that has started it. -/
theorem Control.evtExec_moved (h : site.Moved d site')
    (ht : Thread.Awake d site.thread site'.thread) (p : EvtExec) :
    (evtExec site p).Moved site.script d site.current (evtExec site' p) := by
  obtain ⟨hwrites, hres⟩ := evtExec_eq site p
  obtain ⟨hwrites', hres'⟩ := evtExec_eq site' p
  have hsame : (evtExec site' p).writes = (evtExec site p).writes := hwrites'.trans hwrites.symm
  rcases schedule_moved h.script h.pool p with
    ⟨f, hf, hx, hx'⟩ | ⟨k, address, address', haddress, hx, hx'⟩ <;>
    simp only [hx] at hres <;> simp only [hx'] at hres'
  -- a fault that does not name an address is its own moved one
  · refine h.of_same hres.1 hres'.1 hsame ?_
    have hfault := Thread.Ends.fault f (.inl ht : Thread.Linked site.script d _ _)
    rw [hf] at hfault
    rw [hres.2, hres'.2]
    exact hfault
  · have hstarted := (h.pool k).activate haddress
    refine ⟨hsame, ?_, ?_⟩
    · intro j _
      rw [hres.1, hres'.1]
      exact Pool.rel_replace (fun j _ => h.pool j) (.inl (.inl hstarted)) j
    · rw [hres.1, hres.2, hres'.1, hres'.2]
      -- the event may be taken by the thread that started it
      by_cases hcurrent : site.current = k
      · rw [hcurrent, Pool.thread_modify, Pool.thread_modify]
        exact .awake hstarted
      · rw [Pool.thread_modify_of_ne _ _ hcurrent, Pool.thread_modify_of_ne _ _ hcurrent]
        rw [Site.thread, Site.thread, h.current] at ht
        exact .awake ht

/-! ### The whole table -/

namespace Handler

theorem reading_moved {α : Type} [Payload α]
    {run : {n : Nat} → Site n → Host.View → α → Reaction n} {op : Opcode} {raw : Bytes}
    {view : Host.View} (hw : Whole op raw) (hwidth : 1 + (layout op : Layout α).width ≤ op.size)
    (h : ∀ p, (run site view p).Moved site.script d site.current (run site' view p)) :
    ((reading α run).run site view raw).Moved site.script d site.current
      ((reading α run).run site' view raw) := by
  obtain ⟨p, hp, heq⟩ := reading_run run hw hwidth site view
  obtain ⟨p', hp', heq'⟩ := reading_run run hw hwidth site' view
  have hsame : p' = p := Except.ok.inj (hp'.symm.trans hp)
  rw [heq, heq', hsame]
  exact h p

/-- **An instruction comes out alike in moved code.** -/
theorem standard_moved (h : site.Moved d site')
    (ht : Thread.Linked site.script d site.thread site'.thread) (view : Host.View) {op : Opcode}
    {raw : Bytes} (hf : site.script.fetch site.thread.pc = .ok (op, raw)) :
    ((standard op).run site view raw).Moved site.script d site.current
      ((standard op).run site' view raw) := by
  have hw := Script.whole_of_fetch hf
  by_cases hop : op = .sleeping
  · subst hop
    exact Control.sleeping_moved h ht
  have ht := ht.awake hf hop
  cases op
  case sleeping => exact absurd rfl hop
  case evtEnd => exact Control.evtEnd_moved h ht
  case evtExec => exact reading_moved hw (by decide) (Control.evtExec_moved h ht)
  case ifStart => exact reading_moved hw (by decide) (Control.ifStart_moved h ht)
  case elseStart => exact reading_moved hw (by decide) (Control.elseStart_moved h ht)
  case endIf => exact Control.endIf_moved h ht
  case sleep => exact reading_moved hw (by decide) (Control.sleep_moved h ht hf)
  case forLoop => exact reading_moved hw (by decide) (Control.forStart_moved h ht)
  case forEnd => exact Control.forEnd_moved h ht
  case switch => exact reading_moved hw (by decide) (Control.switch_moved h ht view)
  case endSwitch => exact Control.endSwitch_moved h ht
  case gosub => exact reading_moved hw (by decide) (Control.gosub_moved h ht)
  case breakLoop => exact Control.breakLoop_moved h ht
  case setBit => exact reading_moved hw (by decide) (Memory.setBit_moved h ht view)
  case calculate | calculateFrom =>
    exact reading_moved hw (by decide) fun p => Memory.store_moved h ht _ _ _ _
  case workSet => exact reading_moved hw (by decide) fun p => h.become (ht.select _) _ _ _
  case posSet => exact reading_moved hw (by decide) (Staging.posSet_moved h ht)
  case memberSet => exact reading_moved hw (by decide) (Staging.memberSet_moved h ht)
  case scaIdSet => exact reading_moved hw (by decide) (Staging.collisionSet_moved h ht)
  -- conditions, and what is read and not looked at
  case check | compare | goto | memberCmp =>
    exact reading_moved hw (by decide) fun p => h.goOn ht _ _ _
  -- these read their payload and ask for writes
  case save | copy | cutChg | aotSet | aotSet4p | objModelSet | sceEsprOn | doorAotSet |
      doorAotSet4p | plcMotion | plcDest | plcNeck | sceEmSet | aotReset | sceEsprKill |
      itemAotSet | itemAotSet4p | sceBgmControl =>
    exact reading_moved hw (by decide) fun p => h.ask ht _ _ _
  -- and the rest has no handler of its own
  all_goals exact h.goOn ht _ _ _

end Handler

end Handlers

/-! ### Turns and passes -/

/-- The same stop in moved code. -/
def Stop.moved (d : Nat) : Stop → Stop
  | .fault cause => .fault (cause.moved d)
  | .outOfFuel => .outOfFuel

namespace Machine

variable {n d : Nat} {σ : Type} {s s' : Script} {m m' : Machine n σ}

/-- Two machines in the same host, the threads of the second in moved code. -/
structure Moved (s : Script) (d : Nat) (m m' : Machine n σ) : Prop where
  host : m'.host = m.host
  pool : ∀ j, Thread.Alike s d (m.pool.thread j) (m'.pool.thread j)

/-- Changing the threads at one place keeps the machines alike if it keeps the threads so. -/
theorem Moved.modify (h : Moved s d m m') (i : Fin n) {f f' : Thread → Thread}
    (hi : Thread.Alike s d (f (m.pool.thread i)) (f' (m'.pool.thread i))) :
    Moved s d (m.modify i f) (m'.modify i f') :=
  ⟨h.host, Pool.rel_replace (fun j _ => h.pool j) hi⟩

/-- What is said does not matter. -/
theorem Moved.say (h : Moved s d m m') (traces : TraceSet) (notices notices' : List Notice) :
    Moved s d (m.say traces notices) (m'.say traces notices') := ⟨h.host, h.pool⟩

section

variable (hs : s.Moved d s') (hsleeps : s.SleepsInPlace)

include hs hsleeps

theorem Moved.site (h : Moved s d m m') (i : Fin n) : (m.site s i).Moved d (m'.site s' i) where
  script := hs
  sleeps := hsleeps
  current := rfl
  pool := (h.modify i (h.pool i).ready).pool

variable [Host σ] {rules : Rules} (hstd : rules.handlers = Handler.standard)

include hstd

/-- **A turn comes out alike in moved code.** -/
theorem turn_moved (h : Moved s d m m') {i : Fin n}
    (hi : Thread.Linked s d (m.pool.thread i) (m'.pool.thread i)) {op : Opcode} {raw : Bytes}
    (hf : s.fetch (m.pool.thread i).pc = .ok (op, raw)) :
    Moved s d (m.turn rules s i op raw).1 (m'.turn rules s' i op raw).1 ∧
      Thread.Linked s d ((m.turn rules s i op raw).1.pool.thread i)
        ((m'.turn rules s' i op raw).1.pool.thread i) ∧
      Outcome d Eq (m.turn rules s i op raw).2 (m'.turn rules s' i op raw).2 := by
  have hsite : Thread.Linked s d (m.site s i).thread (m'.site s' i).thread := by
    rw [thread_site, thread_site]
    exact hi.ready
  have hfetch : s.fetch (m.site s i).thread.pc = .ok (op, raw) := by rw [thread_site]; exact hf
  have hreaction : (m.reaction rules s i op raw).Moved s d i (m'.reaction rules s' i op raw) := by
    rw [reaction, reaction, hstd, h.host]
    exact Handler.standard_moved (h.site hs hsleeps i) hsite _ hfetch
  -- what the turns make of the two reactions
  obtain ⟨hhost, herr, hok⟩ := m.turn_eq rules s i op raw rfl
  obtain ⟨hhost', herr', hok'⟩ := m'.turn_eq rules s' i op raw rfl
  have hhosts : (m'.turn rules s' i op raw).1.host = (m.turn rules s i op raw).1.host := by
    rw [hhost, hhost', h.host, hreaction.writes]
  rcases hreaction.current.inv with ⟨f, hx, hx', hlinked⟩ | ⟨flow, hx, hx', hends⟩
  · obtain ⟨hpool, hres⟩ := herr f hx
    obtain ⟨hpool', hres'⟩ := herr' _ hx'
    rw [hpool, hpool', hres, hres']
    refine ⟨⟨hhosts, fun j => ?_⟩, hlinked, .error f⟩
    rw [hpool, hpool']
    by_cases hj : j = i
    · rw [hj]
      exact .inl hlinked
    · exact hreaction.others j hj
  · obtain ⟨hpool, hres⟩ := hok flow hx
    obtain ⟨hpool', hres'⟩ := hok' flow hx'
    obtain ⟨hlinked, hpulse⟩ := hends.follow op.size
    rw [hpool, hpool', hres, hres', Pool.thread_replace, Pool.thread_replace]
    refine ⟨⟨hhosts, fun j => ?_⟩, hlinked, hpulse⟩
    rw [hpool, hpool']
    exact Pool.rel_replace hreaction.others (.inl hlinked) j

/-- Dispatching a thread comes out alike in moved code: the threads stay linked from turn to turn,
so the next instruction is fetched from the same place. -/
theorem dispatch_moved {i : Fin n} (fuel executed : Nat) {m m' : Machine n σ}
    (h : Moved s d m m') (hi : Thread.Linked s d (m.pool.thread i) (m'.pool.thread i)) :
    Moved s d (dispatch rules s i fuel executed m).1 (dispatch rules s' i fuel executed m').1 ∧
      (dispatch rules s' i fuel executed m').2 =
        (dispatch rules s i fuel executed m).2.mapError (Stop.moved d) := by
  induction fuel generalizing executed m m' with
  | zero => exact ⟨h, rfl⟩
  | succ fuel ih =>
    simp only [dispatch]
    rw [hi.pc]
    cases hf : s.fetch (m.pool.thread i).pc with
    | error f =>
      rw [hs.fetch_error hf]
      exact ⟨h, rfl⟩
    | ok fetched =>
      rw [hs.fetch_ok hf]
      simp only
      cases hb : overBudget? rules i executed with
      | some f =>
        -- this fault names a thread and a budget, and no address
        obtain ⟨budget, hfault⟩ := fault_of_overBudget hb
        subst hfault
        exact ⟨h, rfl⟩
      | none =>
        obtain ⟨hturned, hlinked, hpulse⟩ := turn_moved hs hsleeps hstd h hi hf
        rcases ht : m.turn rules s i fetched.1 fetched.2 with ⟨m₁, x⟩
        rcases ht' : m'.turn rules s' i fetched.1 fetched.2 with ⟨m₁', x'⟩
        rw [ht, ht'] at hturned hlinked hpulse
        rcases hpulse.inv with ⟨f, rfl, rfl⟩ | ⟨pulse, pulse', rfl, rfl, hsame⟩
        · exact ⟨hturned, rfl⟩
        · cases hsame
          cases pulse with
          | yielded => exact ⟨hturned, rfl⟩
          | running => exact ih (executed + 1) hturned hlinked

theorem runThread_moved {i : Fin n} (fuel : Nat) (h : Moved s d m m')
    (hi : Thread.Linked s d (m.pool.thread i) (m'.pool.thread i)) :
    Moved s d (m.runThread rules s fuel i).1 (m'.runThread rules s' fuel i).1 ∧
      (m'.runThread rules s' fuel i).2 =
        (m.runThread rules s fuel i).2.mapError (Stop.moved d) := by
  obtain ⟨hmoved, hres⟩ := dispatch_moved hs hsleeps hstd (fuelFor rules fuel) 0 h hi
  unfold runThread
  rcases hd : dispatch rules s i (fuelFor rules fuel) 0 m with ⟨m₁, x⟩
  rcases hd' : dispatch rules s' i (fuelFor rules fuel) 0 m' with ⟨m₁', x'⟩
  rw [hd, hd'] at hmoved hres
  simp only at hmoved hres
  subst hres
  rcases x with (f | _) | ⟨⟩
  -- a fault makes the thread idle in both
  · exact ⟨(hmoved.modify i (hmoved.pool i).halt).say _ _ _, rfl⟩
  · exact ⟨hmoved, rfl⟩
  · exact ⟨hmoved, rfl⟩

theorem runThreads_moved (fuel : Nat) (is : List (Fin n)) {m m' : Machine n σ}
    (h : Moved s d m m') :
    Moved s d (runThreads rules s fuel is m).1 (runThreads rules s' fuel is m').1 ∧
      (runThreads rules s' fuel is m').2 =
        (runThreads rules s fuel is m).2.mapError (Stop.moved d) := by
  induction is generalizing m m' with
  | nil => exact ⟨h, rfl⟩
  | cons i is ih =>
    simp only [runThreads, (h.pool i).running]
    -- a thread that was never started is passed over in both
    by_cases hrun : (m.pool.thread i).running = true
    · rw [if_pos hrun, if_pos hrun]
      obtain ⟨hmoved, hres⟩ := runThread_moved hs hsleeps hstd fuel h ((h.pool i).linked hrun)
      rcases hr : m.runThread rules s fuel i with ⟨m₁, x⟩
      rcases hr' : m'.runThread rules s' fuel i with ⟨m₁', x'⟩
      rw [hr, hr'] at hmoved hres
      simp only at hmoved hres
      subst hres
      rcases x with stop | ⟨⟩
      · exact ⟨hmoved, rfl⟩
      · exact ih hmoved
    · rw [if_neg hrun, if_neg hrun]
      exact ih h

/-- **A pass comes out alike in moved code.** -/
theorem pass_moved (fuel : Nat) (h : Moved s d m m') :
    Moved s d (m.pass rules s fuel).1 (m'.pass rules s' fuel).1 ∧
      (m'.pass rules s' fuel).2 = (m.pass rules s fuel).2.mapError (Stop.moved d) :=
  runThreads_moved hs hsleeps hstd fuel _ h

end

/-! ### Starting threads -/

variable (hs : s.Moved d s') (rules : Rules)

include hs

theorem start_moved (thread entry : Nat) (h : Moved s d m m') :
    Moved s d (m.start rules s thread entry).1 (m'.start rules s' thread entry).1 ∧
      (m'.start rules s' thread entry).2 = (m.start rules s thread entry).2 := by
  unfold start
  rcases (hs.entry entry).inv with ⟨f, hx, hx'⟩ | ⟨address, address', hx, hx', haddress⟩
  · obtain rfl : f = .unknownEntry entry := Script.fault_of_entry hx
    rw [hx, hx']
    exact ⟨h, rfl⟩
  · rw [hx, hx']
    simp only
    split
    · next hlt =>
      have hstarted := (h.pool ⟨thread, hlt⟩).activate haddress
      exact ⟨(h.modify _ (.inl (.inl hstarted))).say _ _ _, rfl⟩
    · exact ⟨h, rfl⟩

theorem startEvent_moved (raw : Bytes) (h : Moved s d m m') :
    Moved s d (inject.startEvent m rules s raw).1 (inject.startEvent m' rules s' raw).1 ∧
      (inject.startEvent m' rules s' raw).2 = (inject.startEvent m rules s raw).2 := by
  unfold inject.startEvent
  cases decodeAt EvtExec raw 0 with
  | error f => exact ⟨h, rfl⟩
  | ok p =>
    rcases Control.schedule_moved hs h.pool p with
      ⟨f, -, hx, hx'⟩ | ⟨k, address, address', haddress, hx, hx'⟩ <;> simp only [hx, hx', and_true]
    · exact h.say _ _ _
    · have hstarted := (h.pool k).activate haddress
      exact (h.modify k (.inl (.inl hstarted))).say _ _ _

/-- An instruction that is injected comes out alike, and its faults are the same. -/
theorem inject_moved (raw : Bytes) (h : Moved s d m m') :
    Moved s d (m.inject rules s raw).1 (m'.inject rules s' raw).1 ∧
      (m'.inject rules s' raw).2 = (m.inject rules s raw).2 := by
  unfold inject
  split
  · split
    · exact startEvent_moved hs rules raw h
    · exact ⟨h, rfl⟩
  · exact startEvent_moved hs rules raw h

end Machine

/-! ### Requests -/

/-- What can be asked of an engine that runs one script. -/
inductive Request
  /-- Starts a thread at an entry point. -/
  | start (thread entry : Nat)
  /-- Carries out an event instruction on behalf of the game. -/
  | inject (raw : Bytes)
  /-- Makes one pass. -/
  | pass (fuel : Nat)

/-- The request as a call. -/
def Request.call {σ : Type} (script : Script) : Request → Call σ
  | .start thread entry => .start script thread entry
  | .inject raw => .inject script raw
  | .pass fuel => .pass script fuel

/-- The answer to a request in moved code. Only a pass reads the script, so only its faults have
addresses of the script. -/
def Request.moved {α : Type} (d : Nat) : Request → Except Stop α → Except Stop α
  | .pass _, answer => answer.mapError (Stop.moved d)
  | .start _ _, answer | .inject _, answer => answer

namespace Engine

variable {n d : Nat} {σ : Type} [Host σ]

/-- The answer to a request; an event that is taken is answered by the thread that has taken it. -/
def answer (e : Engine n σ) (script : Script) : Request → Except Stop (Option (Fin n))
  | .start thread entry =>
    ((e.machine.start e.rules script thread entry).2.mapError .fault).map fun _ => none
  | .inject raw => ((e.machine.inject e.rules script raw).2.mapError .fault).map some
  | .pass fuel => (e.machine.pass e.rules script fuel).2.map fun _ => none

/-- The engine after some requests. -/
def serve (e : Engine n σ) (script : Script) (requests : List Request) : Engine n σ :=
  e.run (requests.map (·.call script))

/-- The answers to requests, one after another. -/
def answers (e : Engine n σ) (script : Script) :
    List Request → List (Except Stop (Option (Fin n)))
  | [] => []
  | r :: rs => e.answer script r :: (e.call (r.call script)).answers script rs

variable {s s' : Script} (hs : s.Moved d s') (hsleeps : s.SleepsInPlace)

include hs hsleeps

/-- **A request is answered alike in moved code.** -/
theorem answer_moved {e e' : Engine n σ} (hrules : e'.rules = e.rules)
    (hstd : e.rules.handlers = Handler.standard) (h : e.machine.Moved s d e'.machine)
    (r : Request) :
    (e.call (r.call s)).machine.Moved s d (e'.call (r.call s')).machine ∧
      e'.answer s' r = r.moved d (e.answer s r) := by
  cases r with
  | start thread entry =>
    obtain ⟨hmoved, hres⟩ := Machine.start_moved hs e.rules thread entry h
    simp only [Request.call, call, answer, hrules, hres]
    exact ⟨hmoved, rfl⟩
  | inject raw =>
    obtain ⟨hmoved, hres⟩ := Machine.inject_moved hs e.rules raw h
    simp only [Request.call, call, answer, hrules, hres]
    exact ⟨hmoved, rfl⟩
  | pass fuel =>
    obtain ⟨hmoved, hres⟩ := Machine.pass_moved hs hsleeps hstd fuel h
    simp only [Request.call, call, answer, hrules, hres]
    refine ⟨hmoved, ?_⟩
    cases (e.machine.pass e.rules s fuel).2 <;> rfl

/-- **Requests are answered alike in moved code**, one after another. -/
theorem answers_moved {e e' : Engine n σ} (hrules : e'.rules = e.rules)
    (hstd : e.rules.handlers = Handler.standard) (h : e.machine.Moved s d e'.machine)
    (requests : List Request) :
    (e.serve s requests).machine.Moved s d (e'.serve s' requests).machine ∧
      e'.answers s' requests = requests.zipWith (Request.moved d) (e.answers s requests) := by
  induction requests generalizing e e' with
  | nil => exact ⟨h, rfl⟩
  | cons r rs ih =>
    obtain ⟨hmoved, hanswer⟩ := answer_moved hs hsleeps hrules hstd h r
    have hrules' : (e'.call (r.call s')).rules = (e.call (r.call s)).rules := by
      rw [rules_call, rules_call, hrules]
    obtain ⟨hserved, hanswers⟩ := ih hrules' (by rw [rules_call]; exact hstd) hmoved
    refine ⟨hserved, ?_⟩
    simp only [answers, List.zipWith_cons_cons, hanswer, hanswers]

end Engine

/-! ### Relocation -/

/-- Two frames of which the second is in moved code. The frame of a sleep has no addresses and is
the same; the body of a loop or a switch is behind its header, so never at zero. -/
inductive Frame.Relocated (d : Nat) (f : Frame) : Frame → Prop
  | sleep (h : f.body = 0) : Relocated d f f
  | loop (h : f.body ≠ 0) : Relocated d f (f.moved d)

/-- The live state of two levels: the counters are the same, and what is in use is moved. -/
structure Level.Relocated (d : Nat) (l l' : Level) : Prop where
  ifCounter : l'.ifCounter = l.ifCounter
  loopLevel : l'.loopLevel = l.loopLevel
  block : ∀ k : Fin blockDepth, (k.val : Int) ≤ l.ifCounter → l'.stack.get k = l.stack.get k + d
  frame : ∀ k : Fin loopDepth, (k.val : Int) ≤ l.loopLevel →
    (l.frames.get k).Relocated d (l'.frames.get k)

/-- **The live state of two threads of which the second is in moved code.** -/
structure Thread.Relocated (d : Nat) (t t' : Thread) : Prop where
  pc : t'.pc = t.pc + d
  sub : t'.sub = t.sub
  stackIndex : t'.stackIndex = t.stackIndex
  workSet : t'.workSet = t.workSet
  level : ∀ s ≤ t.sub, (t.levels.get s).Relocated d (t'.levels.get s)
  returnTo : ∀ s < t.sub, (t'.levels.get s).returnTo = (t.levels.get s).returnTo + d

theorem Frame.Relocated.refl (f : Frame) : f.Relocated 0 f := by
  by_cases h : f.body = 0
  · exact .sleep h
  · exact .loop h

theorem Level.Relocated.refl (l : Level) : l.Relocated 0 l :=
  ⟨rfl, rfl, fun _ _ => rfl, fun _ _ => .refl _⟩

theorem Level.Moved.relocated {d : Nat} {l l' : Level} (h : Level.Moved d l l') :
    l.Relocated d l' where
  ifCounter := h.ifCounter
  loopLevel := h.loopLevel
  block := h.blocks
  frame := fun k hk => by
    obtain ⟨heq, hbody, -, -⟩ := h.frame k hk
    exact heq ▸ .loop (Nat.ne_of_gt hbody)

theorem Level.Dozing.relocated {d : Nat} {l l' : Level} (h : Level.Dozing d l l') :
    l.Relocated d l' where
  ifCounter := h.closed.ifCounter
  loopLevel := h.loopLevel
  block := h.closed.blocks
  frame := by
    intro k hk
    by_cases hinner : (k.val : Int) = l.loopLevel
    · obtain ⟨heq, hbody⟩ := h.frame k hinner
      rw [heq]
      exact .sleep hbody
    · exact h.closed.relocated.frame k (by simp only; omega)

theorem Thread.MovedWith.relocated {d : Nat} {t t' : Thread} {L : Level → Level → Prop}
    (h : MovedWith L d t t') (hL : ∀ l l', L l l' → l.Relocated d l') : t.Relocated d t' where
  pc := h.pc
  sub := h.sub
  stackIndex := h.stackIndex
  workSet := h.workSet
  level := by
    intro s hs
    by_cases hsub : s = t.sub
    -- the relation on the current levels may be weaker than that on the ones to return to
    · have hlevel' : t'.level = t'.levels.get t.sub := by
        rw [← h.sub]
        rfl
      rw [hsub, ← hlevel']
      exact hL _ _ h.level
    · exact (h.caller s (by omega)).1.relocated
  returnTo := fun s hs => (h.caller s hs).2

theorem Thread.Linked.relocated {s : Script} {d : Nat} {t t' : Thread} (h : Linked s d t t') :
    t.Relocated d t' := by
  rcases h with (h | ⟨rfl, rfl⟩) | ⟨-, h⟩
  · exact h.relocated fun _ _ => (·.relocated)
  · exact ⟨rfl, rfl, rfl, rfl, fun _ _ => .refl _, fun _ _ => rfl⟩
  · exact h.relocated fun _ _ => (·.relocated)

theorem Machine.Moved.idle {n d : Nat} {σ : Type} (s : Script) (host : σ) :
    (Machine.idle n host).Moved s d (Machine.idle n host) where
  host := rfl
  pool := fun j => .inr ⟨rfl, by rw [Machine.idle, Pool.thread_idle]; rfl⟩

/-- **Code can be moved.** Put any bytes in front of a script whose sleeps are followed by sleeping
instructions, and add their number to its entry points. Whatever is asked of two new engines of the
same configuration, one with the script and one with the moved script, they give the same answers,
the faults of a pass with their addresses moved; the host is written the same in the same order and
ends up the same; and the same threads are running, in the same live state but for addresses of the
script, which are moved. -/
theorem Engine.relocation {σ : Type} [Host σ] {code : Bytes} {entries : List Nat} {script : Script}
    (hparts : Script.ofParts code entries = .ok script) (hsleeps : script.SleepsInPlace)
    (front : Bytes) :
    ∃ moved, Script.ofParts (front ++ code) (entries.map (· + front.size)) = .ok moved ∧
      ∀ (config : Config) (traces : TraceSet) (host : σ) (requests : List Request),
        let e := Engine.ofConfig config traces ({ host := host } : Journal σ)
        let one := (e.serve script requests).machine
        let two := (e.serve moved requests).machine
        e.answers moved requests =
            requests.zipWith (Request.moved front.size) (e.answers script requests) ∧
          two.host = one.host ∧
          ∀ j, (two.pool.thread j).running = (one.pool.thread j).running ∧
            ((one.pool.thread j).running = true →
              (one.pool.thread j).Relocated front.size (two.pool.thread j)) := by
  obtain ⟨moved, hmoved, hs⟩ := Script.ofParts_moved hparts front
  refine ⟨moved, hmoved, ?_⟩
  intro config traces host requests e one two
  -- new engines have nothing but idle threads, which are alike whatever script is to come
  have hidle : e.machine.Moved script front.size e.machine := .idle script _
  obtain ⟨hmachine, hanswers⟩ :=
    answers_moved hs hsleeps (rfl : e.rules = e.rules) rfl hidle requests
  refine ⟨hanswers, hmachine.host, fun j => ⟨(hmachine.pool j).running, fun hrun => ?_⟩⟩
  exact ((hmachine.pool j).linked hrun).relocated

/-- A sleep of two ticks, and no end. -/
def Script.nap : Script where
  data := #[0x09, 0x0a, 2, 0]
  entries := [0]
  entries_lt := by decide

/-- The same sleep behind an instruction that is not executed. -/
def Script.movedNap : Script where
  data := #[0x01, 0] ++ Script.nap.data
  entries := [2]
  entries_lt := by decide

/-- Two ticks are slept through, and then there is no instruction any more. -/
theorem Engine.relocation_nap :
    let e := Engine.ofConfig {} {} ({ host := {} } : Journal Stage)
    let requests := [.start 0 0, .pass 9, .pass 9, .pass 9]
    e.answers .nap requests =
        [.ok none, .ok none, .ok none, .error (.fault (.pcOutOfRange 4 4))] ∧
      e.answers .movedNap requests =
        [.ok none, .ok none, .ok none, .error (.fault (.pcOutOfRange 6 6))] := by
  intro e requests
  have hnap : e.answers .nap requests =
      [.ok none, .ok none, .ok none, .error (.fault (.pcOutOfRange 4 4))] := by decide +kernel
  have hparts : Script.ofParts Script.nap.data [0] = .ok .nap :=
    Script.ofParts_eq_ok_iff.mpr ⟨rfl, rfl⟩
  have hparts' : Script.ofParts (#[0x01, 0] ++ Script.nap.data) [2] = .ok .movedNap :=
    Script.ofParts_eq_ok_iff.mpr ⟨rfl, rfl⟩
  obtain ⟨moved, hmoved, hruns⟩ := relocation (σ := Stage) hparts (by decide) #[0x01, 0]
  obtain rfl : Script.movedNap = moved := Except.ok.inj (hparts'.symm.trans hmoved)
  have hanswers : e.answers .movedNap requests =
      requests.zipWith (Request.moved 2) (e.answers .nap requests) :=
    (hruns {} {} {} requests).1
  rw [hnap] at hanswers
  exact ⟨hnap, hanswers⟩

/-- **The fault of an injected instruction is not moved.** The instruction is not in the script, and
its address is zero in both runs. -/
theorem Engine.injected_fault_not_moved :
    let e := Engine.ofConfig {} {} ({ host := {} } : Journal Stage)
    Script.ofParts Script.nap.data [0] = .ok .nap ∧ Script.nap.SleepsInPlace ∧
      Script.ofParts (#[0x01, 0] ++ Script.nap.data) [0 + 2] = .ok .movedNap ∧
      e.answer .nap (.inject #[0x00]) = .error (.fault (.unknownOpcode 0 0)) ∧
      e.answer .movedNap (.inject #[0x00]) = .error (.fault (.unknownOpcode 0 0)) ∧
      e.answer .movedNap (.inject #[0x00]) ≠
        (e.answer .nap (.inject #[0x00])).mapError (Stop.moved 2) := by
  intro e
  have hfault : e.answer .nap (.inject #[0x00]) = .error (.fault (.unknownOpcode 0 0)) := rfl
  have hfault' : e.answer .movedNap (.inject #[0x00]) = .error (.fault (.unknownOpcode 0 0)) := rfl
  refine ⟨Script.ofParts_eq_ok_iff.mpr ⟨rfl, rfl⟩, by decide,
    Script.ofParts_eq_ok_iff.mpr ⟨rfl, rfl⟩, hfault, hfault', ?_⟩
  rw [hfault, hfault']
  exact fun h => nomatch h

end RoomScript
