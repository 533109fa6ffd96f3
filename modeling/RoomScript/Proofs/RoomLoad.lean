import RoomScript.Proofs.Events
import RoomScript.Session

/-!
# Entering a room

A room is entered by giving its initial script one pass on an idle pool and then starting the
threads of the room itself, the first one and, if the room has a second entry point, the second one.
Nothing is made idle in between. So the threads of the room are where they belong, whatever came
before, but they need not be alone: a thread that the initial script has started by an event, and
that has not come to its end in the one pass, keeps running at an address of the initial script.

**Main statements.** `Machine.loadRoom_eq_ok`: what entering a room does to the pool.
`Engine.loadRoom_runsRoom_iff`: just the threads of the room are running if the initial script
leaves no other one running, and it can only leave one running that an event was started on.
-/

namespace RoomScript

/-! ### The threads of a room -/

/-- A thread that runs from an address on, on its outermost level with nothing open. -/
structure Thread.Started (t : Thread) (address : Nat) : Prop where
  running : t.running = true
  pc : t.pc = address
  sub : t.sub = 0
  stackIndex : t.stackIndex = 0
  ifCounter : t.level.ifCounter = -1
  loopLevel : t.level.loopLevel = -1

theorem Thread.Started.activate (t : Thread) (address : Nat) :
    (t.activate address).Started address where
  running := rfl
  pc := rfl
  sub := rfl
  stackIndex := rfl
  ifCounter := by simp [Thread.activate, Thread.jump, Thread.level, Level.resetCounters]
  loopLevel := by simp [Thread.activate, Thread.jump, Thread.level, Level.resetCounters]

/-- The places of the threads that a room starts. -/
def Script.Starts (room : Script) (i : Nat) : Prop := i = 0 ∨ i = 1 ∧ 1 < room.entries.length

instance (room : Script) (i : Nat) : Decidable (room.Starts i) :=
  inferInstanceAs (Decidable (_ ∨ _))

/-- **Just the threads of a room are running**, each from its entry point on. -/
structure Machine.RunsRoom {n : Nat} {σ : Type} (m : Machine n σ) (room : Script) : Prop where
  running_iff : ∀ i : Fin n, (m.pool.thread i).running = true ↔ room.Starts i
  started : ∀ i, room.Starts i → ∃ (h : i < n) (address : Nat),
    room.entry i = .ok address ∧ (m.pool.thread ⟨i, h⟩).Started address

namespace Machine

variable {n : Nat} {σ : Type}

/-! ### Starting threads -/

/-- A thread that is started is started at its entry point, and no other one is touched. -/
theorem start_eq_ok {m m' : Machine n σ} {rules : Rules} {script : Script} {thread entry : Nat}
    (h : m.start rules script thread entry = (m', .ok ())) :
    (∃ (hlt : thread < n) (address : Nat), script.entry entry = .ok address ∧
      (m'.pool.thread ⟨thread, hlt⟩).Started address) ∧
    ∀ j : Fin n, j.val ≠ thread → m'.pool.thread j = m.pool.thread j := by
  obtain ⟨f, hs⟩ | ⟨m₁, hlt, address, hs, hentry, hpool⟩ :=
    m.start_cases rules script thread entry <;> cases hs.symm.trans h
  rw [hpool]
  refine ⟨⟨hlt, address, hentry, ?_⟩, fun j hj => ?_⟩
  · rw [Pool.thread_modify]
    exact .activate _ _
  · exact Pool.thread_modify_of_ne _ _ fun heq => hj (congrArg Fin.val heq)

/-- Starting the threads of a room starts these threads and touches no other. -/
theorem startRoom_eq_ok {m m' : Machine n σ} {rules : Rules} {room : Script}
    {whenSingle : List Notice} (h : m.startRoom rules room whenSingle = (m', .ok ())) :
    (∀ i, room.Starts i → ∃ (hlt : i < n) (address : Nat),
      room.entry i = .ok address ∧ (m'.pool.thread ⟨i, hlt⟩).Started address) ∧
    ∀ i : Fin n, ¬ room.Starts i → m'.pool.thread i = m.pool.thread i := by
  unfold startRoom at h
  rcases hfirst : m.start rules room 0 0 with ⟨m₁, f | ⟨⟩⟩ <;> rw [hfirst] at h
  · cases h
  obtain ⟨⟨hlt, address, hentry, hstarted⟩, hothers⟩ := start_eq_ok hfirst
  simp only at h
  split at h
  · next hmore =>
    obtain ⟨hsecond, hothers'⟩ := start_eq_ok h
    refine ⟨?_, fun i hi => ?_⟩
    · rintro i (rfl | ⟨rfl, -⟩)
      -- the second start comes after the first one, and leaves it as it is
      · exact ⟨hlt, address, hentry, by rwa [hothers' ⟨0, hlt⟩ Nat.zero_ne_one]⟩
      · exact hsecond
    · rw [hothers' i fun heq => hi (.inr ⟨heq, hmore⟩), hothers i fun heq => hi (.inl heq)]
  · next hsingle =>
    cases h
    refine ⟨?_, fun i hi => hothers i fun heq => hi (.inl heq)⟩
    rintro i (rfl | ⟨-, hmore⟩)
    · exact ⟨hlt, address, hentry, hstarted⟩
    · exact absurd hmore hsingle

/-! ### The initial script -/

variable [Host σ]

/-- The machine as the initial script of a room leaves it. -/
def afterInit (m : Machine n σ) (rules : Rules) (init : Script) (fuel : Nat) : Machine n σ :=
  ((m.reset.start rules init 0 0).1.pass rules init fuel).1

/-- **What entering a room does to the pool**: the threads of the room are started, and the others
are as the initial script leaves them. -/
theorem loadRoom_eq_ok {m : Machine n σ} {rules : Rules} {init room : Script} {fuel : Nat}
    (h : (m.loadRoom rules init room fuel).2 = .ok ()) :
    (∀ i, room.Starts i → ∃ (hlt : i < n) (address : Nat), room.entry i = .ok address ∧
      ((m.loadRoom rules init room fuel).1.pool.thread ⟨i, hlt⟩).Started address) ∧
    ∀ i : Fin n, ¬ room.Starts i → (m.loadRoom rules init room fuel).1.pool.thread i =
      (m.afterInit rules init fuel).pool.thread i := by
  unfold loadRoom at h ⊢
  unfold afterInit
  rcases hinit : m.reset.start rules init 0 0 with ⟨m₁, f | ⟨⟩⟩ <;> rw [hinit] at h
  · cases h
  simp only at h ⊢
  rcases hpass : m₁.pass rules init fuel with ⟨m₂, stop | ⟨⟩⟩ <;> rw [hpass] at h
  · cases h
  simp only at h ⊢
  rcases hroom : m₂.startRoom rules room [.singleEntry] with ⟨m₃, f | ⟨⟩⟩ <;> rw [hroom] at h
  · cases h
  exact startRoom_eq_ok hroom

/-- **The initial script leaves no other thread running than the first one and those that it has
started events on.** -/
theorem afterInit_running (m : Machine n σ) {rules : Rules}
    (hstd : rules.handlers = Handler.standard) {init : Script} {fuel : Nat} {i : Fin n}
    (hi : i.val ≠ 0)
    (hquiet : ∀ v ∈ (m.reset.start rules init 0 0).1.visits rules init fuel,
      ¬ v.2.Summons init v.1 i) :
    ((m.afterInit rules init fuel).pool.thread i).running = false := by
  have hidle : ((m.reset.start rules init 0 0).1.pool.thread i).running = false := by
    have hhalted : (m.reset.pool.thread i).running = false := by
      rw [reset, Pool.thread_halt]
      rfl
    obtain ⟨f, hs⟩ | ⟨m', hlt, address, hs, -, hpool⟩ := m.reset.start_cases rules init 0 0
    · rw [hs]
      exact hhalted
    · rw [hs, hpool, Pool.thread_modify_of_ne _ _ (by rintro rfl; exact hi rfl)]
      exact hhalted
  -- the reset has made the thread idle, and the initial script does not summon it
  rw [afterInit, pass_frame hstd hidle hquiet]
  exact hidle

end Machine

/-- **A room is entered with just its own threads running if its initial script leaves no other one
running.** Whatever an engine has done before, a room that it enters without a fault has its threads
started at their entry points, and every other thread is as the initial script leaves it. So just
the threads of the room are running if and only if the initial script leaves no other one running,
and besides the first thread it can only leave one running that it has started an event on. -/
theorem Engine.loadRoom_runsRoom_iff {n : Nat} {σ : Type} [Host σ] {e : Engine n σ}
    (hstd : e.rules.handlers = Handler.standard) {init room : Script} {fuel : Nat}
    (hok : (e.machine.loadRoom e.rules init room fuel).2 = .ok ()) :
    let after := (e.call (.loadRoom init room fuel)).machine
    let left := e.machine.afterInit e.rules init fuel
    (after.RunsRoom room ↔ ∀ i : Fin n, (left.pool.thread i).running = true → room.Starts i) ∧
      (∀ i, room.Starts i → ∃ (h : i < n) (address : Nat),
        room.entry i = .ok address ∧ (after.pool.thread ⟨i, h⟩).Started address) ∧
      (∀ i : Fin n, ¬ room.Starts i → after.pool.thread i = left.pool.thread i) ∧
      ∀ i : Fin n, (left.pool.thread i).running = true → i.val = 0 ∨
        ∃ v ∈ e.visits (.loadRoom init room fuel), v.2.Summons init v.1 i := by
  intro after left
  obtain ⟨hstarted, hothers⟩ := Machine.loadRoom_eq_ok hok
  refine ⟨⟨fun hroom i hi => ?_, fun hleft => ⟨fun i => ⟨fun hi => ?_, fun hi => ?_⟩, hstarted⟩⟩,
    hstarted, hothers, fun i hi => ?_⟩
  · by_cases hstarts : room.Starts i
    · exact hstarts
    · have hsame : after.pool.thread i = left.pool.thread i := hothers i hstarts
      exact (hroom.running_iff i).mp (hsame ▸ hi)
  · by_cases hstarts : room.Starts i
    · exact hstarts
    · have hsame : after.pool.thread i = left.pool.thread i := hothers i hstarts
      exact hleft i (hsame ▸ hi)
  · obtain ⟨_, address, _, hthread⟩ := hstarted i hi
    exact hthread.running
  · rcases Nat.eq_zero_or_pos i.val with hzero | hpos
    · exact .inl hzero
    -- A thread that no event was started on is idle as before.
    · refine .inr (Classical.byContradiction fun hquiet => ?_)
      rw [Machine.afterInit_running e.machine hstd (by omega)] at hi
      · exact nomatch hi
      · intro v hv hsummons
        refine hquiet ⟨v, ?_, hsummons⟩
        unfold Engine.visits
        rcases hinit : e.machine.reset.start e.rules init 0 0 with ⟨m, f | ⟨⟩⟩
        · simp only [Machine.loadRoom, hinit] at hok
          exact nomatch hok
        · simpa only [hinit] using hv

/-- An end, and nothing else. -/
def Script.single : Script where
  data := #[0x01, 0]
  entries := [0]
  entries_lt := by decide

/-- Two ends, each with an entry point. -/
def Script.pair : Script where
  data := #[0x01, 0, 0x01, 0]
  entries := [0, 2]
  entries_lt := by decide

/-- Starts an event on the second thread that then sleeps for ten ticks. -/
def Script.summoning : Script where
  data := #[0x04, 1, 0x18, 1, 0x01, 0, 0x09, 0x0a, 10, 0, 0x01, 0]
  entries := [0, 6]
  entries_lt := by decide

/-- A room with two entry points takes the second thread over, so the event does no harm. -/
theorem Engine.loadRoom_runsRoom_iff_pair :
    let e := Engine.ofConfig {} {} ({} : Stage)
    let after := (e.call (.loadRoom .summoning .pair 9)).machine
    (e.machine.loadRoom e.rules .summoning .pair 9).2 = .ok () ∧ after.RunsRoom .pair := by
  intro e after
  have hok : (e.machine.loadRoom e.rules .summoning .pair 9).2 = .ok () := by decide +kernel
  refine ⟨hok, (loadRoom_runsRoom_iff rfl hok).1.mpr ?_⟩
  decide +kernel

/-- **A thread of the initial script runs on in a room with one entry point.** It sleeps at the
seventh byte of the initial script, of which the room knows nothing: the next pass finds no
instruction for it. -/
theorem Engine.loadRoom_leaves_summoned :
    let e := Engine.ofConfig {} {} ({} : Stage)
    let after := (e.call (.loadRoom .summoning .single 9)).machine
    (e.machine.loadRoom e.rules .summoning .single 9).2 = .ok () ∧
      Script.single.entries.length = 1 ∧
      (after.pool.thread ⟨1, by decide⟩).running = true ∧
      (after.pool.thread ⟨1, by decide⟩).pc = 7 ∧ ¬ after.RunsRoom .single ∧
      (after.pass e.rules .single 9).2 = .error (.fault (.pcOutOfRange 7 2)) := by
  intro e after
  have hrunning : (after.pool.thread ⟨1, by decide⟩).running = true := by decide +kernel
  refine ⟨by decide +kernel, rfl, hrunning, by decide +kernel, fun hroom => ?_, by decide +kernel⟩
  exact absurd ((hroom.running_iff _).mp hrunning) (by decide)

end RoomScript
