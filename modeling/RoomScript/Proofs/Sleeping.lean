import RoomScript.Proofs.Statements
import RoomScript.Proofs.Trail

/-!
# A sleep stalls its thread

A sleep is two instructions in one. Its opcode opens a loop frame with the count and steps onto the
byte behind it, which is an opcode as well: it counts the frame down by one, stays where it is for
as long as there is something left, and yields either way. So the dispatch that executes the sleep
is the first one it costs, the last one it costs closes the frame, and a count of zero costs as much
as a count of one.

A thread that sleeps is known in full: it is the thread that came to the sleep, with one frame more
and some ticks to go (`Thread.asleep`), and afterwards the same thread behind the instruction, with
nothing but a closed frame to show for it (`Thread.awake`). Its own dispatches take it from one of
these states to the next, and nobody else touches it.

**Main statements.** `Machine.turn_sleep` and `Machine.turn_sleeping`: what the two instructions do
to the machine. `Machine.dispatch_after`: the fuel that a dispatch has left behind an instruction,
so that one more turn ends the first dispatch of a sleep. `Machine.Tour.stalled`: a thread that
sleeps is counted down by its own dispatches and by nothing else. `Engine.sleep_stalls`: for how
long a sleep stalls its thread, in every run of an engine.
-/

namespace RoomScript

open Payload

/-! ### Threads that sleep -/

namespace Thread

variable {t : Thread} {k : Fin loopDepth} {ticks : Int}

/-- **The thread while it sleeps**, with ticks to go in the frame on top of its open ones. -/
def asleep (t : Thread) (k : Fin loopDepth) (ticks : Int) : Thread :=
  { t.setLevel { t.level with
      frames := t.level.frames.set k { counter := ticks } k.isLt, loopLevel := k } with
    pc := t.pc + 1, overridden := false }

/-- **The thread when it has slept**: the frame is closed, and what is left in its slot does not
matter. -/
def awake (t : Thread) (k : Fin loopDepth) (ticks : Int) : Thread :=
  { t.setLevel { t.level with frames := t.level.frames.set k { counter := ticks } k.isLt } with
    pc := t.pc + Opcode.sleep.size, overridden := false }

theorem level_asleep (t : Thread) (k : Fin loopDepth) (ticks : Int) : (t.asleep k ticks).level =
    { t.level with frames := t.level.frames.set k { counter := ticks } k.isLt, loopLevel := k } :=
  level_setLevel t _

theorem level_awake (t : Thread) (k : Fin loopDepth) (ticks : Int) : (t.awake k ticks).level =
    { t.level with frames := t.level.frames.set k { counter := ticks } k.isLt } :=
  level_setLevel t _

theorem openFrame?_asleep (t : Thread) (k : Fin loopDepth) (ticks : Int) :
    (t.asleep k ticks).level.openFrame? = some k := by
  rw [level_asleep]
  exact openFrame?_eq rfl k.isLt

theorem frame_asleep (t : Thread) (k : Fin loopDepth) (ticks : Int) :
    (t.asleep k ticks).level.frames.get k = { counter := ticks } := by
  rw [level_asleep, get_eq_getElem]
  exact Vector.getElem_set_self k.isLt

/-- With less than eight frames open there is a slot for one more. -/
theorem InRange.exists_slot (h : t.InRange) (hroom : t.level.loopLevel < 7) :
    ∃ k : Fin loopDepth, (k.val : Int) = t.level.loopLevel + 1 := by
  have hge := h.current.loopLevel_ge
  have hdepth : loopDepth = 8 := rfl
  exact ⟨⟨(t.level.loopLevel + 1).toNat, by omega⟩, by simp only; omega⟩

/-- The frame of a sleep is opened where there is room for it. -/
theorem pushLoop_ready (hk : (k.val : Int) = t.level.loopLevel + 1) (ticks : Int) :
    ∃ t', t.ready.pushLoop { counter := ticks } = .ok t' ∧
      (t'.jump (t'.pc + 1)).moveOn Opcode.sleep.size = t.asleep k ticks := by
  have hlevel : t.ready.level = t.level := rfl
  have hlow : ¬ (k.val : Int) < 0 := by omega
  -- the instruction steps by one byte itself, so its size does not count
  refine ⟨t.ready.setLevel { t.level with
    frames := t.level.frames.set k { counter := ticks } k.isLt, loopLevel := k }, ?_, rfl⟩
  simp only [pushLoop, hlevel, ← hk, Int.toNat_natCast, if_neg hlow, dif_pos k.isLt]

theorem countDown_asleep : (t.asleep k ticks).countDown k = t.asleep k (ticks - 1) := by
  rw [countDown, frame_asleep, level_asleep]
  simp [asleep, setLevel]

/-- The frame is closed, and the thread steps behind the sleep. -/
theorem dropLoop_asleep (hk : (k.val : Int) = t.level.loopLevel + 1) :
    ((t.asleep k ticks).dropLoop.jump (t.pc + Opcode.sleep.size)).moveOn Opcode.sleeping.size =
      t.awake k ticks := by
  have hlevel : (k.val : Int) - 1 = t.level.loopLevel := by omega
  rw [dropLoop, level_asleep, hlevel]
  simp [asleep, awake, setLevel, jump, moveOn]

/-! ### Counting passes -/

/-- For how many dispatches a sleep stalls its thread: one at least. -/
def stallOf (count : UInt16) : Nat := max count.toNat 1

/-- The thread that came to a sleep when it has been dispatched a number of times. -/
def stalled (t : Thread) (k : Fin loopDepth) (count : UInt16) (passes : Nat) : Thread :=
  if passes < stallOf count then t.asleep k (count.toNat - passes)
  else t.awake k (count.toNat - passes)

theorem stallOf_pos (count : UInt16) : 0 < stallOf count :=
  Nat.lt_of_lt_of_le Nat.zero_lt_one (Nat.le_max_right _ _)

/-- Before it is dispatched at all, nothing is counted. -/
theorem stalled_zero (t : Thread) (k : Fin loopDepth) (count : UInt16) :
    t.stalled k count 0 = t.asleep k count.toNat := by
  rw [stalled, if_pos (stallOf_pos count)]
  exact congrArg _ (Int.sub_zero _)

end Thread

namespace Handler.Does

variable {script : Script} {t t' : Thread} {view : Host.View} {raw : Bytes}

theorem sleep {p : Sleep} (hp : decode Sleep raw = .ok p)
    (h : t.pushLoop { counter := p.count.toNat } = .ok t') :
    Does script t view .sleep raw (t'.jump (t'.pc + 1)) [] (.ok .next) := by
  refine of_reading rfl hp fun site _ ht => ?_
  subst ht
  simp only [Control.sleep, h]
  exact ⟨rfl, rfl, rfl⟩

/-- There are more ticks to go. -/
theorem doze {i : Fin loopDepth} (hi : t.level.openFrame? = some i)
    (hc : 1 < (t.level.frames.get i).counter) :
    Does script t view .sleeping raw ((t.countDown i).jump t.pc) [] (.ok .halt) := by
  intro n site _ ht
  subst ht
  have hrun : (standard .sleeping).run site view raw = Control.sleeping site := rfl
  rw [hrun, Control.sleeping]
  simp only [Thread.currentLoop_of_open hi, bind, Except.bind, Thread.setCounter_of_open hi]
  rw [if_neg (by omega)]
  exact ⟨rfl, rfl, rfl⟩

/-- The last tick. -/
theorem wake {i : Fin loopDepth} (hi : t.level.openFrame? = some i)
    (hc : (t.level.frames.get i).counter ≤ 1) :
    Does script t view .sleeping raw
      ((t.countDown i).dropLoop.jump (t.pc + Opcode.sleeping.size)) [] (.ok .halt) := by
  intro n site _ ht
  subst ht
  have hrun : (standard .sleeping).run site view raw = Control.sleeping site := rfl
  have hi' : (site.thread.countDown i).level.openFrame? = some i := by
    rw [Thread.openFrame?_countDown, hi]
  rw [hrun, Control.sleeping]
  simp only [Thread.currentLoop_of_open hi, bind, Except.bind, Thread.setCounter_of_open hi]
  rw [if_pos (by omega)]
  simp only [Thread.popLoop_of_open hi']
  exact ⟨rfl, rfl, rfl⟩

/-- **One dispatch of a sleep is counted.** -/
theorem tick (script : Script) (view : Host.View) (raw : Bytes) {k : Fin loopDepth}
    (hk : (k.val : Int) = t.level.loopLevel + 1) {count : UInt16} {passes : Nat}
    (hlt : passes < Thread.stallOf count) :
    ∃ t', Does script (t.stalled k count passes).ready view .sleeping raw t' [] (.ok .halt) ∧
      t'.moveOn Opcode.sleeping.size = t.stalled k count (passes + 1) := by
  have hasleep : t.stalled k count passes = t.asleep k (count.toNat - passes) := if_pos hlt
  have hleft : (count.toNat : Int) - passes - 1 = count.toNat - (passes + 1 : Nat) := by omega
  have hopen := t.openFrame?_asleep k (count.toNat - passes)
  have hcounter := congrArg Frame.counter (t.frame_asleep k (count.toNat - passes))
  simp only at hcounter
  have hready : (t.asleep k (count.toNat - passes)).ready = t.asleep k (count.toNat - passes) := rfl
  rw [hasleep, hready]
  by_cases hmore : passes + 1 < Thread.stallOf count
  · -- the count has not run out, so it is what the sleep is for
    have hdoze : 1 < (count.toNat : Int) - passes := by
      unfold Thread.stallOf at hmore
      omega
    refine ⟨_, doze hopen (by rw [hcounter]; exact hdoze), ?_⟩
    rw [Thread.stalled, if_pos hmore, ← hleft]
    exact congrArg (fun u : Thread => (u.jump (t.pc + 1)).moveOn _) t.countDown_asleep
  · -- nothing is left of the count, or a count of zero had nothing to begin with
    have hwake : (count.toNat : Int) - passes ≤ 1 := by
      unfold Thread.stallOf at hmore
      omega
    refine ⟨_, wake hopen (by rw [hcounter]; exact hwake), ?_⟩
    rw [Thread.stalled, if_neg hmore, ← hleft, ← Thread.dropLoop_asleep hk]
    exact congrArg (fun u : Thread => (u.dropLoop.jump (t.pc + 4)).moveOn _) t.countDown_asleep

end Handler.Does

/-! ### The turns of a sleep -/

/-- The byte behind the opcode of a sleep is an instruction as well. -/
theorem Script.fetch_sleeping {script : Script} {a : Nat} {raw : Bytes}
    (hf : script.fetch a = .ok (.sleep, raw)) (hbyte : raw[1]? = some Opcode.sleeping.toByte) :
    ∃ raw', script.fetch (a + 1) = .ok (.sleeping, raw') := by
  obtain ⟨-, hle, rfl⟩ := fetch_eq_ok_iff.mp hf
  have hsleep : Opcode.sleep.size = 4 := rfl
  have hsleeping : Opcode.sleeping.size = 3 := rfl
  refine ⟨_, fetch_eq_ok_iff.mpr ⟨?_, by omega, rfl⟩⟩
  rw [← hbyte, Array.getElem?_extract, if_pos (by omega)]

namespace Machine

variable {n : Nat} {σ : Type} [Host σ] {rules : Rules} {script : Script} {i : Fin n}
  {m : Machine n σ} {raw : Bytes} {k : Fin loopDepth}

omit [Host σ] in
/-- The machine as it shows a thread of its own. -/
theorem shows_thread (m : Machine n σ) (i : Fin n) : m.Shows m.pool i (m.pool.thread i) m.host :=
  ⟨(Pool.replace_thread _ _).symm, rfl⟩

/-- **A sleep puts its thread to sleep** and does nothing else. -/
theorem turn_sleep (hstd : rules.handlers = Handler.standard) (script : Script) {p : Sleep}
    (hp : decode Sleep raw = .ok p) (hk : (k.val : Int) = (m.pool.thread i).level.loopLevel + 1) :
    ∃ m', m.turn rules script i .sleep raw = (m', .ok .running) ∧ m'.host = m.host ∧
      m'.pool = m.pool.replace i ((m.pool.thread i).stalled k p.count 0) := by
  obtain ⟨t', hpush, ht'⟩ := Thread.pushLoop_ready hk p.count.toNat
  have hdoes : Handler.Does script (m.pool.thread i).ready (Host.view m.host) .sleep raw
    (t'.jump (t'.pc + 1)) [] (.ok .next) := .sleep hp hpush
  obtain ⟨hhost, -, hok⟩ := turn_of_does hstd (m.shows_thread i) hdoes
  obtain ⟨hpool, hresult⟩ := hok .next rfl
  rw [ht'] at hpool
  rw [Thread.stalled_zero]
  exact ⟨_, Prod.ext rfl hresult, hhost, hpool⟩

/-- **The sleeping instruction counts one dispatch** and yields. -/
theorem turn_sleeping (hstd : rules.handlers = Handler.standard) (script : Script) (raw : Bytes)
    {t : Thread} (hk : (k.val : Int) = t.level.loopLevel + 1) {count : UInt16} {passes : Nat}
    (ht : m.pool.thread i = t.stalled k count passes) (hlt : passes < Thread.stallOf count) :
    ∃ m', m.turn rules script i .sleeping raw = (m', .ok .yielded) ∧ m'.host = m.host ∧
      m'.pool = m.pool.replace i (t.stalled k count (passes + 1)) := by
  obtain ⟨t', hdoes, ht'⟩ := Handler.Does.tick script (Host.view m.host) raw hk hlt
  rw [← ht] at hdoes
  obtain ⟨hhost, -, hok⟩ := turn_of_does hstd (m.shows_thread i) hdoes
  obtain ⟨hpool, hresult⟩ := hok .halt rfl
  rw [ht'] at hpool
  exact ⟨_, Prod.ext rfl hresult, hhost, hpool⟩

/-! ### Dispatches and the instructions they come to -/

section Dispatching

variable {m₁ : Machine n σ} {op : Opcode} (hbudget : rules.budget = none)

/-- **The first instruction of a dispatch.** If the thread goes on from it, the dispatch is that of
the machine it leaves, with the fuel less by one; if not, nothing else is executed. -/
theorem dispatch_cons {fuel executed : Nat} {t : Turn n σ} {more : List (Turn n σ)}
    (h : dispatchTurns rules script i fuel executed m = t :: more) :
    ∃ left, fuel = left + 1 ∧
      ((∃ m', t.outcome rules = (m', .ok .running) ∧
          dispatchTurns rules script i left (executed + 1) m' = more ∧
          dispatch rules script i fuel executed m =
            dispatch rules script i left (executed + 1) m') ∨
        (more = [] ∧ ∀ m', t.outcome rules ≠ (m', .ok .running))) := by
  cases fuel with
  | zero => cases h
  | succ left =>
    simp only [dispatchTurns, dispatch] at h ⊢
    cases hf : script.fetch (m.pool.thread i).pc with
    | error f =>
      rw [hf] at h
      cases h
    | ok fetched =>
      cases hb : overBudget? rules i executed with
      | some f =>
        simp only [hf, hb] at h
        cases h
      | none =>
        simp only [hf, hb] at h
        obtain ⟨rfl, rfl⟩ := List.cons.inj h
        refine ⟨left, rfl, ?_⟩
        simp only [Turn.outcome]
        rcases m.turn rules script i fetched.1 fetched.2 with ⟨m', f | _ | _⟩
        · exact .inr ⟨rfl, fun _ h => by cases h⟩
        · exact .inl ⟨m', rfl, rfl, rfl⟩
        · exact .inr ⟨rfl, fun _ h => by cases h⟩

/-- **What a dispatch does behind an instruction that it has gone on from**: it has spent one unit of
fuel on each instruction up to there, and has the rest for the others. -/
theorem dispatch_after {fuel executed : Nat} {front back : List (Turn n σ)} {t : Turn n σ}
    (hturns : dispatchTurns rules script i fuel executed m = front ++ t :: back)
    (ht : t.outcome rules = (m₁, .ok .running)) :
    ∃ left executed', fuel = left + (front.length + 1) ∧
      dispatchTurns rules script i left executed' m₁ = back ∧
      dispatch rules script i fuel executed m = dispatch rules script i left executed' m₁ := by
  induction front generalizing fuel executed m with
  | nil =>
    obtain ⟨left, hfuel, ⟨m', hout, hmore, hdispatch⟩ | ⟨-, hends⟩⟩ := dispatch_cons hturns
    · cases ht.symm.trans hout
      exact ⟨left, executed + 1, hfuel, hmore, hdispatch⟩
    · exact absurd ht (hends m₁)
  | cons x front ih =>
    obtain ⟨left, rfl, ⟨m', -, hmore, hdispatch⟩ | ⟨hnone, -⟩⟩ := dispatch_cons hturns
    · obtain ⟨left', executed', rfl, hback, hrest⟩ := ih hmore
      exact ⟨left', executed', rfl, hback, hdispatch.trans hrest⟩
    · exact absurd hnone (by simp)

include hbudget

/-- A dispatch executes no more behind an instruction that yields. -/
theorem dispatchTurns_yielded (hf : script.fetch (m.pool.thread i).pc = .ok (op, raw))
    (fuel executed : Nat) (h : m.turn rules script i op raw = (m₁, .ok .yielded)) :
    dispatchTurns rules script i (fuel + 1) executed m = [⟨script, i, m, op, raw⟩] := by
  simp only [dispatchTurns, hf, overBudget?, hbudget, h]

variable {d : Dispatch n σ} (hfuel : 0 < d.fuel)
  (hf : d.script.fetch (d.machine.pool.thread d.thread).pc = .ok (op, raw))

include hfuel hf

/-- A dispatch with fuel executes the instruction it finds. -/
theorem Dispatch.turns_eq_cons :
    ∃ more, d.turns rules = ⟨d.script, d.thread, d.machine, op, raw⟩ :: more := by
  obtain ⟨fuel, hsucc⟩ : ∃ fuel, d.fuel = fuel + 1 := ⟨d.fuel - 1, by omega⟩
  simp only [turns, Machine.turns, fuelFor, hbudget, hsucc, dispatchTurns, hf, overBudget?]
  exact ⟨_, rfl⟩

/-- A dispatch with fuel is over with an instruction that yields. -/
theorem Dispatch.of_yield
    (ht : d.machine.turn rules d.script d.thread op raw = (m₁, .ok .yielded)) :
    d.turns rules = [⟨d.script, d.thread, d.machine, op, raw⟩] ∧
      d.outcome rules = (m₁, .ok ()) := by
  obtain ⟨fuel, hsucc⟩ : ∃ fuel, d.fuel = fuel + 1 := ⟨d.fuel - 1, by omega⟩
  have hfuelFor : fuelFor rules d.fuel = fuel + 1 := by rw [fuelFor, hbudget, hsucc]
  constructor
  · rw [turns, Machine.turns, hfuelFor, dispatchTurns_yielded hbudget hf fuel 0 ht]
  · rw [outcome, runThread, hfuelFor, dispatch_yielded hbudget hf fuel 0 ht]

end Dispatching

end Machine

/-! ### The dispatches of a sleep -/

/-- A thread is dispatched on an occasion. -/
def Occasion.isDispatchOf {n : Nat} {σ : Type} (i : Fin n) : Occasion n σ → Bool
  | .starts _ => false
  | .dispatches d => d.thread = i

namespace Machine

variable {n : Nat} {σ : Type} [Host σ] {rules : Rules} {script : Script} {i : Fin n}
  {k : Fin loopDepth}

/-- **A dispatch of a thread that sleeps**: it executes one instruction, which counts. -/
theorem Dispatch.sleeps (hstd : rules.handlers = Handler.standard) (hbudget : rules.budget = none)
    {d : Dispatch n σ} (hfuel : 0 < d.fuel) {t : Thread}
    (hk : (k.val : Int) = t.level.loopLevel + 1) {count : UInt16} {passes : Nat} {raw : Bytes}
    (hf : d.script.fetch (t.pc + 1) = .ok (.sleeping, raw))
    (ht : d.machine.pool.thread d.thread = t.stalled k count passes)
    (hlt : passes < Thread.stallOf count) :
    d.turns rules = [⟨d.script, d.thread, d.machine, .sleeping, raw⟩] ∧
      (d.outcome rules).2 = .ok () ∧ (d.outcome rules).1.host = d.machine.host ∧
      (d.outcome rules).1.pool.thread d.thread = t.stalled k count (passes + 1) := by
  have hpc : (d.machine.pool.thread d.thread).pc = t.pc + 1 := by
    rw [ht, Thread.stalled, if_pos hlt]
    rfl
  obtain ⟨m₁, hturn, hhost, hpool⟩ := turn_sleeping hstd d.script raw hk ht hlt
  obtain ⟨hturns, hout⟩ := of_yield hbudget hfuel (by rw [hpc]; exact hf) hturn
  rw [hout]
  refine ⟨hturns, rfl, hhost, ?_⟩
  rw [hpool, Pool.thread_replace]

/-- **The dispatch that comes to a sleep**: with fuel for one turn more, the sleep and the sleeping
instruction behind it are the last that it executes. -/
theorem Dispatch.fallsAsleep (hstd : rules.handlers = Handler.standard)
    (hbudget : rules.budget = none) {d : Dispatch n σ} {front back : List (Turn n σ)} {t : Turn n σ}
    (hturns : d.turns rules = front ++ t :: back) (hfuel : front.length + 2 ≤ d.fuel)
    (hop : t.op = .sleep) {p : Sleep} (hp : decode Sleep t.raw = .ok p) {raw : Bytes}
    (hf : d.script.fetch ((t.machine.pool.thread d.thread).pc + 1) = .ok (.sleeping, raw))
    (hk : (k.val : Int) = (t.machine.pool.thread d.thread).level.loopLevel + 1) :
    (∃ u, back = [u] ∧ u.op = .sleeping ∧
        (u.machine.pool.thread d.thread).pc = (t.machine.pool.thread d.thread).pc + 1) ∧
      (d.outcome rules).2 = .ok () ∧ (d.outcome rules).1.host = t.machine.host ∧
      (d.outcome rules).1.pool.thread d.thread =
        (t.machine.pool.thread d.thread).stalled k p.count 1 := by
  have hdispatched :=
    dispatch_dispatched rules d.script d.thread (fuelFor rules d.fuel) 0 d.machine
  have hmem : t ∈ d.turns rules := by rw [hturns]; exact List.mem_append_right _ List.mem_cons_self
  obtain ⟨hscript, hthread, -, -⟩ := hdispatched.of_mem hmem
  -- the sleep is executed, and the dispatch goes on to the byte behind its opcode
  obtain ⟨m₁, hsleep, hhost₁, hpool₁⟩ := turn_sleep hstd d.script hp hk
  have hout : t.outcome rules = (m₁, .ok .running) := by
    rw [Turn.outcome, hscript, hthread, hop, hsleep]
  obtain ⟨left, executed, hspent, hback, hdispatch⟩ := dispatch_after hturns hout
  have hthread₁ : m₁.pool.thread d.thread =
      (t.machine.pool.thread d.thread).stalled k p.count 0 := by
    rw [hpool₁, Pool.thread_replace]
  have hpc₁ : (m₁.pool.thread d.thread).pc = (t.machine.pool.thread d.thread).pc + 1 := by
    rw [hthread₁, Thread.stalled_zero]
    rfl
  -- there it has fuel left, and yields
  obtain ⟨fuel, rfl⟩ : ∃ fuel, left = fuel + 1 := by
    simp only [fuelFor, hbudget] at hspent
    exact ⟨left - 1, by omega⟩
  obtain ⟨m₂, hsleeping, hhost₂, hpool₂⟩ :=
    turn_sleeping hstd d.script raw hk hthread₁ (Thread.stallOf_pos p.count)
  rw [← hpc₁] at hf
  rw [dispatchTurns_yielded hbudget hf fuel executed hsleeping] at hback
  rw [dispatch_yielded hbudget hf fuel executed hsleeping] at hdispatch
  rw [outcome, runThread, hdispatch]
  refine ⟨⟨_, hback.symm, rfl, hpc₁⟩, rfl, hhost₂.trans hhost₁, ?_⟩
  rw [hpool₂, Pool.thread_replace]

/-- **A thread that sleeps is counted down by its own dispatches**, and nothing else is done to it
as long as it runs and is not activated. -/
theorem Tour.stalled (hstd : rules.handlers = Handler.standard) (hbudget : rules.budget = none)
    {t : Thread} (hk : (k.val : Int) = t.level.loopLevel + 1) {count : UInt16} {raw : Bytes}
    (hf : script.fetch (t.pc + 1) = .ok (.sleeping, raw)) {m m' : Machine n σ}
    {os : List (Occasion n σ)} (h : Tour rules m os m')
    (hquiet : ∀ o ∈ os, ¬ o.Activates rules i)
    (hown : ∀ d, .dispatches d ∈ os → d.thread = i → d.script = script ∧ 0 < d.fuel)
    {passes : Nat} (hle : passes + os.countP (Occasion.isDispatchOf i) ≤ Thread.stallOf count)
    (hm : (m.pool.thread i).running = true → m.pool.thread i = t.stalled k count passes) :
    (m'.pool.thread i).running = true →
      m'.pool.thread i = t.stalled k count (passes + os.countP (Occasion.isDispatchOf i)) := by
  induction h generalizing passes with
  | done => exact hm
  | quiet h _ ih =>
    -- threads are at most halted, and one that is halted is not running in the end
    refine ih hquiet hown hle fun hrun => ?_
    rcases h i with hsame | hhalt
    · rw [hsame] at hrun ⊢
      exact hm hrun
    · rw [hhalt] at hrun
      exact nomatch hrun
  | starts j address h _ ih =>
    obtain ⟨hnot, hlater⟩ := List.forall_mem_cons.mp hquiet
    have hj : i ≠ j := fun hij => hnot ⟨.starts j, List.mem_singleton_self _, hij.symm⟩
    have hown' := fun d hd => hown d (List.mem_cons_of_mem _ hd)
    rw [List.countP_cons_of_neg (by exact Bool.false_ne_true)] at hle ⊢
    refine ih hlater hown' hle fun hrun => ?_
    rw [h, Pool.thread_modify_of_ne _ _ hj] at hrun ⊢
    exact hm hrun
  | @dispatches d _ os hrun _ ih =>
    obtain ⟨hnot, hlater⟩ := List.forall_mem_cons.mp hquiet
    have hown' := fun d hd => hown d (List.mem_cons_of_mem _ hd)
    by_cases hi : d.thread = i
    · -- its own dispatch counts
      subst hi
      obtain ⟨rfl, hfuel⟩ := hown d List.mem_cons_self rfl
      rw [List.countP_cons_of_pos (by exact decide_eq_true rfl), ← Nat.add_assoc,
        Nat.add_right_comm] at hle ⊢
      have hlt : passes < Thread.stallOf count := by omega
      obtain ⟨-, -, -, hthread⟩ := Dispatch.sleeps hstd hbudget hfuel hk hf (hm hrun) hlt
      exact ih hlater hown' hle fun _ => hthread
    · -- another thread is dispatched, and could only start this one
      rw [List.countP_cons_of_neg (by exact fun h => hi (of_decide_eq_true h))] at hle ⊢
      refine ih hlater hown' hle fun hrun => ?_
      rcases runThread_other hstd d.machine (Ne.symm hi) with hsame | ⟨u, hu, address, hs, -⟩
      · rw [Dispatch.outcome, hsame] at hrun ⊢
        exact hm hrun
      · exact absurd ⟨.executes u, List.mem_map_of_mem hu, address, hs⟩ hnot

end Machine

/-! ### How long a sleep takes -/

/-- **A thread that has slept**: it stands behind the sleep it came to, and everything is as it was,
but for the slot of a loop frame that was not open. -/
structure Thread.Slept (before after : Thread) : Prop where
  pc : after.pc = before.pc + 4
  sub : after.sub = before.sub
  stackIndex : after.stackIndex = before.stackIndex
  ifCounter : after.level.ifCounter = before.level.ifCounter
  loopLevel : after.level.loopLevel = before.level.loopLevel
  /-- The slots of the block stacks, of every level. -/
  stack : ∀ s, (after.levels.get s).stack = (before.levels.get s).stack
  /-- The loop frames that are open. -/
  frame : ∀ j : Fin loopDepth, (j.val : Int) ≤ before.level.loopLevel →
    after.level.frames.get j = before.level.frames.get j
  others : ∀ s ≠ before.sub, after.levels.get s = before.levels.get s

theorem Thread.Slept.awake {t : Thread} {k : Fin loopDepth}
    (hk : (k.val : Int) = t.level.loopLevel + 1) (ticks : Int) : t.Slept (t.awake k ticks) := by
  -- all that a sleep leaves behind is in the slot of its frame, on the current level
  have hlevels : ∀ s, (t.awake k ticks).levels.get s =
      if s = t.sub then (t.awake k ticks).level else t.levels.get s := by
    intro s
    rw [level_awake]
    exact levels_setLevel t _ s
  refine ⟨rfl, rfl, rfl, ?_, ?_, ?_, ?_, ?_⟩
  · rw [level_awake]
  · rw [level_awake]
  · intro s
    rw [hlevels]
    split
    · next hs =>
      subst hs
      rw [level_awake]
      rfl
    · rfl
  · intro j hj
    have hne : k.val ≠ j.val := by omega
    rw [level_awake, get_eq_getElem, get_eq_getElem]
    exact Vector.getElem_set_ne k.isLt j.isLt hne
  · intro s hs
    rw [hlevels, if_neg hs]

/-- **A dispatch that does nothing but sleep from some point on**: it yields, the host is still the
one it was at that point, and the thread is still running. It stands in its sleep, or if this is the
last dispatch that the sleep takes, behind it. -/
structure Machine.Dispatch.Stalls {n : Nat} {σ : Type} [Host σ] (d : Dispatch n σ) (rules : Rules)
    (before : Thread) (host : σ) (last : Prop) : Prop where
  yields : (d.outcome rules).2 = .ok ()
  host : (d.outcome rules).1.host = host
  running : ((d.outcome rules).1.pool.thread d.thread).running = true
  waits : ¬ last → ((d.outcome rules).1.pool.thread d.thread).pc = before.pc + 1
  wakes : last → before.Slept ((d.outcome rules).1.pool.thread d.thread)

theorem Machine.Dispatch.Stalls.of_stalled {n : Nat} {σ : Type} [Host σ] {d : Dispatch n σ}
    {rules : Rules} {before : Thread} {host : σ} {k : Fin loopDepth} {count : UInt16}
    {passes : Nat} (hk : (k.val : Int) = before.level.loopLevel + 1)
    (hrun : before.running = true) (hle : passes ≤ Thread.stallOf count)
    (hyields : (d.outcome rules).2 = .ok ()) (hhost : (d.outcome rules).1.host = host)
    (hthread : (d.outcome rules).1.pool.thread d.thread = before.stalled k count passes) :
    d.Stalls rules before host (passes = Thread.stallOf count) := by
  refine ⟨hyields, hhost, ?_, ?_, ?_⟩
  · rw [hthread, Thread.stalled]
    split <;> exact hrun
  · intro hmore
    rw [hthread, Thread.stalled, if_pos (Nat.lt_of_le_of_ne hle hmore)]
    rfl
  · intro hlast
    rw [hthread, Thread.stalled, if_neg (Nat.not_lt.mpr (Nat.le_of_eq hlast.symm))]
    exact .awake hk _

/-- **A sleep stalls its thread for as many dispatches as it counts, and for one at least.**
Somewhere in a run of an engine without a budget, a thread comes to a sleep that has the sleeping
instruction inside, on a level with room for one more loop frame. That dispatch, with fuel for one
turn behind the sleep, ends with it. As long as the thread is dispatched with the same script and
not activated, the dispatches that are still to be counted execute the sleeping instruction and
nothing else. None of them makes a call on the host from the sleep on, and the thread stays running.
It stays in the sleep after each of them but the last, and is behind it after the last one, with
everything as before; the next dispatch starts with the instruction there. -/
theorem Engine.sleep_stalls {σ : Type} [Host σ] {config : Config} {traces : TraceSet} {host : σ}
    {e : Engine config.threadCount σ} (he : e = Engine.ofConfig config traces host)
    (hbudget : config.budget = none) {calls : List (Call σ)}
    {past future : List (Occasion config.threadCount σ)}
    {d : Machine.Dispatch config.threadCount σ}
    (hsplit : e.occasions calls = past ++ .dispatches d :: future)
    {front back : List (Machine.Turn config.threadCount σ)}
    {t : Machine.Turn config.threadCount σ} (hturns : d.turns e.rules = front ++ t :: back)
    (hop : t.op = .sleep) {p : Sleep} (hp : decode Sleep t.raw = .ok p)
    (hbyte : t.raw[1]? = some 0x0A)
    (hroom : (t.machine.pool.thread d.thread).level.loopLevel < 7)
    (hfuel : front.length + 2 ≤ d.fuel) :
    let before := t.machine.pool.thread d.thread
    let stall := max p.count.toNat 1
    (∃ u, back = [u] ∧ u.op = .sleeping ∧
        (u.machine.pool.thread d.thread).pc = before.pc + 1) ∧
      d.Stalls e.rules before t.machine.host (1 = stall) ∧
      ∀ during d' later, future = during ++ .dispatches d' :: later → d'.thread = d.thread →
        (∀ o ∈ during, ¬ o.Activates e.rules d.thread) →
        (∀ c, .dispatches c ∈ during ++ [.dispatches d'] → c.thread = d.thread →
          c.script = d.script ∧ 0 < c.fuel) →
        -- the dispatches so far, the one of the sleep included
        let passes := 1 + during.countP (Occasion.isDispatchOf d.thread)
        (passes < stall →
          (∃ u, d'.turns e.rules = [u] ∧ u.op = .sleeping) ∧
            d'.Stalls e.rules before d'.machine.host (passes + 1 = stall)) ∧
        (passes = stall →
          before.Slept (d'.machine.pool.thread d.thread) ∧
            ∀ op raw, d.script.fetch (before.pc + 4) = .ok (op, raw) →
              ∃ more, d'.turns e.rules = ⟨d.script, d.thread, d'.machine, op, raw⟩ :: more) := by
  intro before stall
  have hstd : e.rules.handlers = Handler.standard := by rw [he]; rfl
  have hnone : e.rules.budget = none := by rw [he]; exact hbudget
  -- the thread is running and in range, and the sleep is what it has found at its address
  obtain ⟨hrunning, hrange, hfetch⟩ := found_of_occasion he hsplit hturns
  obtain ⟨k, hk⟩ := hrange.exists_slot hroom
  rw [hop] at hfetch
  obtain ⟨raw, hsleeping⟩ := Script.fetch_sleeping hfetch hbyte
  obtain ⟨hback, hyields, hhost, hone⟩ :=
    Machine.Dispatch.fallsAsleep hstd hnone hturns hfuel hop hp hsleeping hk
  refine ⟨hback, .of_stalled hk hrunning (Nat.le_max_right _ _) hyields hhost hone, ?_⟩
  intro during d' later hfuture hsame hquiet hown passes
  have htour := ((e.tour_occasions calls).split hsplit).2.2
  obtain ⟨hduring, hrun', -⟩ := htour.split hfuture
  rw [hsame] at hrun'
  obtain ⟨hscript', hfuel'⟩ := hown d' (by simp) hsame
  -- what the dispatches in between have made of the thread
  have hstalled : passes ≤ stall →
      d'.machine.pool.thread d.thread = before.stalled k p.count passes := by
    intro hle
    refine hduring.stalled hstd hnone hk hsleeping hquiet ?_ hle (fun _ => hone) hrun'
    exact fun c hc => hown c (List.mem_append_left _ hc)
  constructor
  · -- there is something left to count
    intro hlt
    have hthread' := hstalled (Nat.le_of_lt hlt)
    rw [← hsame] at hthread'
    rw [← hscript'] at hsleeping
    obtain ⟨hturns', hyields', hhost', hnext⟩ :=
      Machine.Dispatch.sleeps hstd hnone hfuel' hk hsleeping hthread' hlt
    exact ⟨⟨_, hturns', rfl⟩, .of_stalled hk hrunning hlt hyields' hhost' hnext⟩
  · -- the count is over, so this is the first dispatch behind the sleep
    intro heq
    have hawake : d'.machine.pool.thread d.thread = before.awake k (p.count.toNat - passes) :=
      (hstalled (Nat.le_of_eq heq)).trans (if_neg (Nat.not_lt.mpr (Nat.le_of_eq heq.symm)))
    rw [hawake]
    refine ⟨.awake hk _, fun op raw hf => ?_⟩
    have hf' : d'.script.fetch (d'.machine.pool.thread d'.thread).pc = .ok (op, raw) := by
      rw [hsame, hawake, hscript']
      exact hf
    obtain ⟨more, hmore⟩ := Machine.Dispatch.turns_eq_cons hnone hfuel' hf'
    rw [hscript', hsame] at hmore
    exact ⟨more, hmore⟩

/-- Sleeps for two ticks inside an if block. -/
def Script.dozing : Script where
  data := #[0x06, 0, 5, 0, 0x09, 0x0A, 2, 0, 0x08, 0x01, 0]
  entries := [0]
  entries_lt := by decide

/-- Runs it on the first thread, for three passes. -/
def Script.dozing.calls : List (Call Stage) :=
  [.start .dozing 0 0, .pass .dozing 9, .pass .dozing 9, .pass .dozing 9]

/-- A dispatch with a script, in which no event is started. -/
def Machine.Dispatch.isPlain {n : Nat} {σ : Type} [Host σ] (d : Dispatch n σ) (rules : Rules)
    (script : Script) : Bool :=
  d.script = script ∧ 0 < d.fuel ∧ (d.turns rules).all (·.op ≠ .evtExec)

/-- A plain dispatch activates no thread. -/
theorem Machine.Dispatch.not_activates {n : Nat} {σ : Type} [Host σ] {d : Dispatch n σ}
    {rules : Rules} {script : Script} (h : d.isPlain rules script = true) (i : Fin n) :
    ¬ (Occasion.dispatches d).Activates rules i := by
  rintro ⟨x, hx, hactivates⟩
  obtain ⟨u, hu, rfl⟩ := List.mem_map.mp hx
  obtain ⟨address, hstarts⟩ := hactivates
  have hops := (of_decide_eq_true h).2.2
  rw [List.all_eq_true] at hops
  exact of_decide_eq_true (hops u hu) hstarts.1

/-- Three dispatches of one thread. The first comes to a sleep of two ticks as its second
instruction, at address 4 and with a block open. -/
def Script.dozing.sleeps {n : Nat} {σ : Type} [Host σ] (rules : Rules) :
    List (Occasion n σ) → Bool
  | [_, .dispatches d, .dispatches d', .dispatches d''] =>
    match d.turns rules with
    | [_, t, _] =>
      let before := t.machine.pool.thread d.thread
      t.op = .sleep ∧ Payload.decode Sleep t.raw = .ok ⟨2⟩ ∧ t.raw[1]? = some 0x0A ∧
        before.level.loopLevel < 7 ∧ before.pc = 4 ∧ before.stackIndex = 1 ∧
        3 ≤ d.fuel ∧ d.script = .dozing ∧
        d'.thread = d.thread ∧ d'.isPlain rules d.script ∧
        d''.thread = d.thread ∧ d''.isPlain rules d.script
    | _ => false
  | _ => false

/-- The first dispatch leaves the thread in the sleep and the second one behind it, with the block
open as before, and the third starts with the instruction there. -/
theorem Engine.sleep_stalls_dozing :
    let e := Engine.ofConfig {} {} ({} : Stage)
    ∃ start d d' d'', e.occasions Script.dozing.calls =
        [start, .dispatches d, .dispatches d', .dispatches d''] ∧
      ((d.outcome e.rules).1.pool.thread d.thread).pc = 5 ∧
      ((d'.outcome e.rules).1.pool.thread d'.thread).pc = 8 ∧
      ((d'.outcome e.rules).1.pool.thread d'.thread).stackIndex = 1 ∧
      ∃ more, d''.turns e.rules =
        ⟨.dozing, d.thread, d''.machine, .endIf, #[0x08]⟩ :: more := by
  intro e
  have hsleeps : Script.dozing.sleeps e.rules (e.occasions Script.dozing.calls) = true := by
    decide +kernel
  generalize hocc : e.occasions Script.dozing.calls = os at hsleeps ⊢
  unfold Script.dozing.sleeps at hsleeps
  split at hsleeps
  · next start d d' d'' =>
    split at hsleeps
    · next x t u hturns =>
      obtain ⟨hop, hp, hbyte, hroom, hpc, hindex, hfuel, hscript, hthread', hplain', hthread'',
        hplain''⟩ := of_decide_eq_true hsleeps
      have hsplit : e.occasions Script.dozing.calls =
        [start] ++ .dispatches d :: [.dispatches d', .dispatches d''] := hocc
      have hsleep : d.turns e.rules = [x] ++ t :: [u] := hturns
      obtain ⟨-, hfirst, hlater⟩ :=
        sleep_stalls (e := e) rfl rfl hsplit hsleep hop hp hbyte hroom hfuel
      -- both of the later dispatches are with the script, and have fuel
      have hown : ∀ c, .dispatches c ∈ [Occasion.dispatches d', .dispatches d''] →
          c.thread = d.thread → c.script = d.script ∧ 0 < c.fuel := by
        intro c hc _
        rcases List.mem_cons.mp hc with heq | hc
        · cases heq
          exact (of_decide_eq_true hplain').imp_right And.left
        · cases List.mem_singleton.mp hc
          exact (of_decide_eq_true hplain'').imp_right And.left
      have hsecond := ((hlater [] d' [.dispatches d''] rfl hthread' nofun
        fun c hc => hown c (List.mem_cons.mpr (.inl (List.mem_singleton.mp hc)))).1
          (Nat.lt_succ_self 1)).2
      have hcount : [Occasion.dispatches d'].countP (Occasion.isDispatchOf d.thread) = 1 :=
        List.countP_cons_of_pos (decide_eq_true hthread')
      have hthird := (hlater [.dispatches d'] d'' [] rfl hthread''
        (List.forall_mem_singleton.mpr (Machine.Dispatch.not_activates hplain' _)) hown).2
          (by rw [hcount]; rfl)
      have hslept := hsecond.wakes rfl
      have hendIf : d.script.fetch ((t.machine.pool.thread d.thread).pc + 4) =
          .ok (.endIf, #[0x08]) := by
        rw [hscript, hpc]
        decide
      obtain ⟨more, hmore⟩ := hthird.2 _ _ hendIf
      refine ⟨start, d, d', d'', rfl, ?_, ?_, ?_, more, ?_⟩
      · rw [hfirst.waits (by decide), hpc]
      · rw [hslept.pc, hpc]
      · rw [hslept.stackIndex, hindex]
      · rw [hmore, hscript]
    · exact nomatch hsleeps
  · exact nomatch hsleeps

end RoomScript
