import RoomScript.Proofs.Events
import RoomScript.Session

/-!
# Threads are dispatched one by one

A pass goes through the pool once, so it dispatches a thread at most once and in the order of the
places. While a thread has its turns, it reaches another thread in one way only: by starting an
event on it. Whatever the other thread was doing then, it is put to the entry point of the event
with nothing open on its outermost level, and everything else about it is as it was.

An event does not wait for the next pass if the thread that takes it comes later in the pool than
the one that starts it: nobody makes a thread idle but the thread itself, so it is found running
when its turn comes.

**Main statements.** `Machine.runThread_other`: what a dispatch does to another thread.
`Machine.Passed.dispatched_or_stopped`: a running thread is dispatched, unless the pass stops
before. `Engine.pass_isolates_threads`: both, and what becomes of a thread that is started during a
pass, after any run of an engine.
-/

namespace RoomScript

open Payload

/-- Starting a thread twice is starting it the second time. -/
theorem Thread.activate_activate (t : Thread) (a b : Nat) :
    (t.activate a).activate b = t.activate b := by
  simp [activate, jump, Level.resetCounters]

namespace Machine

variable {n : Nat} {σ : Type}

/-- **The instruction starts an event on a thread**, at an entry point of its script. -/
def Turn.Starts (t : Turn n σ) (j : Fin n) (address : Nat) : Prop :=
  t.op = .evtExec ∧ ∃ p, decode EvtExec t.raw = .ok p ∧
    Control.taker? t.machine.pool p.thread = some j ∧
    t.script.entry p.event.toNat = .ok address

variable [Host σ] {rules : Rules} {script : Script} {fuel : Nat} {i j : Fin n}

/-! ### What a dispatch does to the other threads -/

/-- What a turn does to another thread, in terms of the instruction. -/
theorem turn_starts_or_leaves (hstd : rules.handlers = Handler.standard) {m : Machine n σ}
    {op : Opcode} {raw : Bytes} (hf : script.fetch (m.pool.thread i).pc = .ok (op, raw))
    (hj : j ≠ i) :
    (m.turn rules script i op raw).1.pool.thread j = m.pool.thread j ∨
      ∃ address, Turn.Starts ⟨script, i, m, op, raw⟩ j address ∧
        (m.turn rules script i op raw).1.pool.thread j = (m.pool.thread j).activate address := by
  refine (turn_other hstd hf hj).imp_right ?_
  rintro ⟨p, address, hop, hp, ht, he, hthread⟩
  exact ⟨address, ⟨hop, p, hp, ht, he⟩, hthread⟩

/-- **The turns of a thread leave another thread alone or start it**, and what the last start has
made of it is all that they make of it. -/
theorem Dispatched.other (hstd : rules.handlers = Handler.standard) (hj : j ≠ i)
    {m m' : Machine n σ} {visits : List (Machine n σ)} {turns : List (Turn n σ)}
    {result : Except Stop Unit} (h : Dispatched rules script i m visits turns m' result) :
    m'.pool.thread j = m.pool.thread j ∨
      ∃ t ∈ turns, ∃ address, t.Starts j address ∧
        m'.pool.thread j = (m.pool.thread j).activate address := by
  induction h with
  | outOfFuel | unread | overBudget => exact .inl rfl
  | faults hf ht | yields hf ht =>
    have hturn := turn_starts_or_leaves hstd hf hj
    rw [ht] at hturn
    exact hturn.imp_right fun ⟨address, hs, h⟩ => ⟨_, List.mem_cons_self, address, hs, h⟩
  | goesOn hf ht _ ih =>
    have hturn := turn_starts_or_leaves hstd hf hj
    rw [ht] at hturn
    rcases ih with hlater | ⟨t, htmem, address, hs, hlater⟩
    · rw [hlater]
      exact hturn.imp_right fun ⟨address, hs, h⟩ => ⟨_, List.mem_cons_self, address, hs, h⟩
    -- started twice, a thread is as the later turn has started it
    · refine .inr ⟨t, List.mem_cons_of_mem _ htmem, address, hs, hlater.trans ?_⟩
      rcases hturn with hsame | ⟨_, -, hstarted⟩
      · rw [hsame]
      · rw [hstarted, Thread.activate_activate]

/-- **What a dispatch does to another thread**: nothing, or it starts it. -/
theorem runThread_other (hstd : rules.handlers = Handler.standard) (m : Machine n σ) (hj : j ≠ i) :
    (m.runThread rules script fuel i).1.pool.thread j = m.pool.thread j ∨
      ∃ t ∈ m.turns rules script fuel i, ∃ address, t.Starts j address ∧
        (m.runThread rules script fuel i).1.pool.thread j =
          (m.pool.thread j).activate address := by
  rw [thread_runThread_of_ne _ _ _ _ hj]
  exact (dispatch_dispatched rules script i (fuelFor rules fuel) 0 m).other hstd hj

/-! ### Who is running -/

/-- A thread is not made idle by the turns of another one. -/
theorem Dispatched.running (hstd : rules.handlers = Handler.standard) (hj : j ≠ i)
    {m m' : Machine n σ} {visits : List (Machine n σ)} {turns : List (Turn n σ)}
    {result : Except Stop Unit} (h : Dispatched rules script i m visits turns m' result)
    (hrun : (m.pool.thread j).running = true) : (m'.pool.thread j).running = true := by
  rcases h.other hstd hj with hsame | ⟨_, _, _, -, hstarted⟩
  · rw [hsame]; exact hrun
  · rw [hstarted]; rfl

/-- **A thread that was started is running when the dispatch is over.** -/
theorem Dispatched.running_of_starts (hstd : rules.handlers = Handler.standard) (hj : j ≠ i)
    {m m' : Machine n σ} {visits : List (Machine n σ)} {turns : List (Turn n σ)}
    {result : Except Stop Unit} (h : Dispatched rules script i m visits turns m' result)
    {t : Turn n σ} (hmem : t ∈ turns) {address : Nat} (hs : t.Starts j address) :
    (m'.pool.thread j).running = true := by
  -- the turn that starts the thread
  have hhere : ∀ {m : Machine n σ} {op raw},
      Turn.Starts ⟨script, i, m, op, raw⟩ j address →
      ((m.turn rules script i op raw).1.pool.thread j).running = true := by
    rintro m op raw ⟨rfl, p, hp, htaker, he⟩
    rw [(turn_starts hstd hp he htaker).1, Pool.thread_modify_of_ne _ _ hj, Pool.thread_modify]
    rfl
  induction h with
  | outOfFuel | unread | overBudget => exact nomatch hmem
  | faults _ ht | yields _ ht =>
    obtain rfl := List.mem_singleton.mp hmem
    have hrun := hhere hs
    rwa [ht] at hrun
  | goesOn _ ht h ih =>
    rcases List.mem_cons.mp hmem with rfl | hmem
    · have hrun := hhere hs
      rw [ht] at hrun
      exact h.running hstd hj hrun
    · exact ih hmem

theorem runThread_running (hstd : rules.handlers = Handler.standard) (script : Script) (fuel : Nat)
    {m : Machine n σ} (hj : j ≠ i) (hrun : (m.pool.thread j).running = true) :
    ((m.runThread rules script fuel i).1.pool.thread j).running = true := by
  rw [thread_runThread_of_ne _ _ _ _ hj]
  exact (dispatch_dispatched rules script i (fuelFor rules fuel) 0 m).running hstd hj hrun

theorem runThread_running_of_starts (hstd : rules.handlers = Handler.standard) (m : Machine n σ)
    (hj : j ≠ i) {t : Turn n σ} (hmem : t ∈ m.turns rules script fuel i) {address : Nat}
    (hs : t.Starts j address) :
    ((m.runThread rules script fuel i).1.pool.thread j).running = true := by
  rw [thread_runThread_of_ne _ _ _ _ hj]
  exact (dispatch_dispatched rules script i (fuelFor rules fuel) 0 m).running_of_starts hstd hj
    hmem hs

namespace Passed

variable {is : List (Fin n)} {m m' : Machine n σ} {ds : List (Fin n × Machine n σ)}
  {result : Except Stop Unit}

/-- A running thread that is not come by is running afterwards. -/
theorem running (hstd : rules.handlers = Handler.standard)
    (h : Passed rules script fuel is m ds m' result) (hj : j ∉ is)
    (hrun : (m.pool.thread j).running = true) : (m'.pool.thread j).running = true := by
  induction h with
  | done => exact hrun
  | skips _ _ ih => exact ih (List.not_mem_of_not_mem_cons hj) hrun
  | stops _ hr =>
    have hstill := runThread_running hstd script fuel (List.ne_of_not_mem_cons hj) hrun
    rwa [hr] at hstill
  | goesOn _ hr _ ih =>
    have hstill := runThread_running hstd script fuel (List.ne_of_not_mem_cons hj) hrun
    rw [hr] at hstill
    exact ih (List.not_mem_of_not_mem_cons hj) hstill

/-- **A running thread is dispatched**, unless an earlier one stops the pass. -/
theorem dispatched_or_stopped (hstd : rules.handlers = Handler.standard)
    (h : Passed rules script fuel is m ds m' result) (hsorted : is.Pairwise (· < ·)) (hj : j ∈ is)
    (hrun : (m.pool.thread j).running = true) :
    (∃ d ∈ ds, d.1 = j) ∨ ∃ d ∈ ds, d.1 < j ∧ ∃ stop,
      (d.2.runThread rules script fuel d.1).2 = .error stop ∧ result = .error stop := by
  induction h with
  | done => exact nomatch hj
  | skips hidle _ ih =>
    rcases List.mem_cons.mp hj with rfl | hj
    · rw [hidle] at hrun
      exact nomatch hrun
    · exact ih (List.pairwise_cons.mp hsorted).2 hj hrun
  | stops _ hr =>
    rcases List.mem_cons.mp hj with rfl | hj
    · exact .inl ⟨_, List.mem_cons_self, rfl⟩
    · exact .inr ⟨_, List.mem_cons_self, (List.pairwise_cons.mp hsorted).1 _ hj, _, by rw [hr], rfl⟩
  | goesOn _ hr _ ih =>
    obtain ⟨hfirst, hrest⟩ := List.pairwise_cons.mp hsorted
    rcases List.mem_cons.mp hj with rfl | hj
    · exact .inl ⟨_, List.mem_cons_self, rfl⟩
    -- no other thread can make this one idle before its turn comes
    · have hstill := runThread_running hstd script fuel (Fin.ne_of_gt (hfirst _ hj)) hrun
      rw [hr] at hstill
      rcases ih hrest hj hstill with ⟨d, hd, hdj⟩ | ⟨d, hd, hstop⟩
      · exact .inl ⟨d, List.mem_cons_of_mem _ hd, hdj⟩
      · exact .inr ⟨d, List.mem_cons_of_mem _ hd, hstop⟩

/-- What comes after one of the dispatches: the pass stops there, or goes on with the threads that
stand behind. -/
theorem split {front back : List (Fin n × Machine n σ)} {v : Machine n σ}
    (h : Passed rules script fuel is m ds m' result) (hds : ds = front ++ (i, v) :: back) :
    (v.pool.thread i).running = true ∧ ∃ before after, is = before ++ i :: after ∧
      ((back = [] ∧ ∃ stop, v.runThread rules script fuel i = (m', .error stop) ∧
          result = .error stop) ∨
        ∃ v', v.runThread rules script fuel i = (v', .ok ()) ∧
          Passed rules script fuel after v' back m' result) := by
  induction h generalizing front with
  | done => exact absurd hds.symm (by simp)
  | skips _ _ ih =>
    obtain ⟨hrun, before, after, rfl, hout⟩ := ih hds
    exact ⟨hrun, _ :: before, after, rfl, hout⟩
  | stops hrun hr =>
    cases front with
    | nil =>
      cases hds
      exact ⟨hrun, [], _, rfl, .inl ⟨rfl, _, hr, rfl⟩⟩
    | cons d front => exact absurd hds (by simp)
  | goesOn hrun hr h ih =>
    cases front with
    | nil =>
      cases hds
      exact ⟨hrun, [], _, rfl, .inr ⟨_, hr, h⟩⟩
    | cons d front =>
      obtain ⟨hrun, before, after, rfl, hout⟩ := ih (List.cons.inj hds).2
      exact ⟨hrun, _ :: before, after, rfl, hout⟩

/-- **What becomes of a thread that another one starts**: a later one is dispatched as well, unless
the pass stops before; an earlier one is not, and is running in the end. -/
theorem of_starts (hstd : rules.handlers = Handler.standard)
    (h : Passed rules script fuel is m ds m' result) (hsorted : is.Pairwise (· < ·))
    {front back : List (Fin n × Machine n σ)} {v : Machine n σ} (hds : ds = front ++ (i, v) :: back)
    {t : Turn n σ} (ht : t ∈ v.turns rules script fuel i) {address : Nat}
    (hs : t.Starts j address) :
    (i < j → j ∈ is → (∃ d ∈ back, d.1 = j) ∨ ∃ d ∈ (i, v) :: back, d.1 < j ∧ ∃ stop,
        (d.2.runThread rules script fuel d.1).2 = .error stop ∧ result = .error stop) ∧
      (j < i → (∀ d ∈ back, d.1 ≠ j) ∧ (m'.pool.thread j).running = true) := by
  obtain ⟨-, before, after, rfl, hout⟩ := h.split hds
  obtain ⟨-, hsorted', hbefore⟩ := List.pairwise_append.mp hsorted
  obtain ⟨hfirst, hafter⟩ := List.pairwise_cons.mp hsorted'
  refine ⟨fun hij hmem => ?_, fun hji => ?_⟩
  · have hstarted := runThread_running_of_starts hstd v (Fin.ne_of_gt hij) ht hs
    -- a later thread stands behind the one that starts it
    have hj : j ∈ after := by
      rcases List.mem_append.mp hmem with hj | hj
      · exact absurd (hbefore j hj i List.mem_cons_self) (Nat.lt_asymm hij)
      · exact (List.mem_cons.mp hj).resolve_left (Fin.ne_of_gt hij)
    rcases hout with ⟨rfl, stop, hr, hresult⟩ | ⟨v', hr, hrest⟩
    · exact .inr ⟨_, List.mem_cons_self, hij, stop, by rw [hr], hresult⟩
    · rw [hr] at hstarted
      rcases hrest.dispatched_or_stopped hstd hafter hj hstarted with hd | ⟨d, hd, hstop⟩
      · exact .inl hd
      · exact .inr ⟨d, List.mem_cons_of_mem _ hd, hstop⟩
  · have hstarted := runThread_running_of_starts hstd v (Fin.ne_of_lt hji) ht hs
    have hj : j ∉ after := fun hj => Nat.lt_asymm (hfirst j hj) hji
    rcases hout with ⟨rfl, stop, hr, -⟩ | ⟨v', hr, hrest⟩
    · rw [hr] at hstarted
      exact ⟨List.forall_mem_nil _, hstarted⟩
    · rw [hr] at hstarted
      refine ⟨?_, hrest.running hstd hj hstarted⟩
      rintro d hd rfl
      exact hj (hrest.sublist.subset (List.mem_map_of_mem hd))

end Passed

end Machine

/-- **Threads are isolated from each other and dispatched in order.** A pass of an engine is made of
dispatches one after another, of the threads that are running when it comes by them. Each thread is
dispatched at most once, in the order of the pool. While a thread is dispatched, another
one stays as it is in every respect, or the thread has executed an instruction that starts an event
on it: then it runs from an entry point of the script, on its outermost level with nothing open
there, and the rest of it is as it was. A thread that is started by an earlier one is dispatched in
the same pass, unless the pass stops before; one that is started by a later one is not dispatched
any more, and still running when the pass is over. -/
theorem Engine.pass_isolates_threads {n : Nat} {σ : Type} [Host σ] {e : Engine n σ}
    (hstd : e.rules.handlers = Handler.standard) (script : Script) (fuel : Nat) :
    let ds := e.machine.dispatches e.rules script fuel
    let out := e.machine.pass e.rules script fuel
    Machine.Passed e.rules script fuel (List.finRange n) e.machine ds out.1 out.2 ∧
      (ds.map Prod.fst).Pairwise (· < ·) ∧
      (∀ d ∈ ds, ∀ j ≠ d.1,
        let old := d.2.pool.thread j
        let new := (d.2.runThread e.rules script fuel d.1).1.pool.thread j
        new = old ∨
          ∃ t ∈ d.2.turns e.rules script fuel d.1, ∃ address ∈ script.entries, t.Starts j address ∧
            new = { old with
              running := true
              pc := address
              sub := 0
              stackIndex := 0
              levels := old.levels.set 0 { old.levels[0] with ifCounter := -1, loopLevel := -1 }
              overridden := true }) ∧
      ∀ front i v back, ds = front ++ (i, v) :: back →
        ∀ t ∈ v.turns e.rules script fuel i, ∀ j address, t.Starts j address →
          (i < j → (∃ d ∈ back, d.1 = j) ∨ ∃ d ∈ (i, v) :: back, d.1 < j ∧ ∃ stop,
            (d.2.runThread e.rules script fuel d.1).2 = .error stop ∧ out.2 = .error stop) ∧
          (j < i → (∀ d ∈ back, d.1 ≠ j) ∧ (out.1.pool.thread j).running = true) := by
  intro ds out
  have hpassed := e.machine.pass_passed e.rules script fuel
  refine ⟨hpassed, Machine.pairwise_dispatches _ _ _ _, ?_, ?_⟩
  · rintro ⟨i, v⟩ - j hj old new
    refine (Machine.runThread_other hstd v hj).imp_right ?_
    rintro ⟨t, ht, address, hs, hnew⟩
    have hscript : t.script = script :=
      ((Machine.dispatch_dispatched e.rules script i _ 0 v).of_mem ht).1
    obtain ⟨p, -, -, hentry⟩ := hs.2
    exact ⟨t, ht, address, Script.mem_of_entry (hscript ▸ hentry), hs, hnew⟩
  · intro front i v back hds t ht j address hs
    have hstarts := hpassed.of_starts hstd (List.pairwise_lt_finRange n) hds ht hs
    exact ⟨fun hij => hstarts.1 hij (List.mem_finRange j), hstarts.2⟩

/-- Starts an event on the third thread and on the first one. -/
def Script.calling : Script where
  data := #[0x04, 2, 0x18, 1, 0x04, 0, 0x18, 1, 0x01, 0, 0x01, 0]
  entries := [0, 10]
  entries_lt := by decide

/-- Of the threads that the second one starts, the third is dispatched in the same pass, and the
first is left running. -/
theorem Engine.pass_isolates_threads_calling :
    let e := (Engine.ofConfig {} {} ({} : Stage)).run [.start .calling 1 0]
    (∃ d ∈ e.machine.dispatches e.rules .calling 9, d.1.val = 2) ∧
      ((e.machine.pass e.rules .calling 9).1.pool.thread ⟨0, by decide⟩).running = true := by
  intro e
  let ds := e.machine.dispatches e.rules .calling 9
  let d := ds.get ⟨0, by decide +kernel⟩
  let turns := d.2.turns e.rules .calling 9 d.1
  have hok : (e.machine.pass e.rules .calling 9).2 = .ok () := by decide +kernel
  -- its first instruction reaches the third thread, its second one the first thread
  have hlater : (turns.get ⟨0, by decide +kernel⟩).Starts ⟨2, by decide⟩ 10 :=
    ⟨by decide +kernel, ⟨2, 0x18, 1⟩, by decide +kernel, by decide +kernel, by decide +kernel⟩
  have hearlier : (turns.get ⟨1, by decide +kernel⟩).Starts ⟨0, by decide⟩ 10 :=
    ⟨by decide +kernel, ⟨0, 0x18, 1⟩, by decide +kernel, by decide +kernel, by decide +kernel⟩
  obtain ⟨front, back, hds⟩ := List.append_of_mem (List.get_mem ds ⟨0, by decide +kernel⟩)
  have hpass := (pass_isolates_threads (e := e) rfl .calling 9).2.2.2 front _ _ back hds
  obtain ⟨hthird, -⟩ := hpass _ (List.get_mem turns _) _ _ hlater
  obtain ⟨-, hfirst⟩ := hpass _ (List.get_mem turns _) _ _ hearlier
  refine ⟨?_, (hfirst (by decide +kernel)).2⟩
  rcases hthird (by decide +kernel) with ⟨d', hd', h⟩ | ⟨d', -, -, stop, -, hstop⟩
  · have hmem : d' ∈ ds := hds ▸ List.mem_append_right _ (List.mem_cons_of_mem _ hd')
    exact ⟨d', hmem, congrArg Fin.val h⟩
  · rw [hok] at hstop
    exact nomatch hstop

end RoomScript
