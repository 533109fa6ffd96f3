import RoomScript.Proofs.RoomLoad

/-!
# Injected events

The game can start an event by itself, when the player walks into a trigger for example: it hands
over the bytes of an event instruction, whatever they are. Bytes that are no such instruction, a
script without the entry point and a pool without threads are refused, and then every thread is left
as it is. Otherwise just one thread is started over, and which one is settled by the pool alone: the
one the instruction names, or else the first idle one, or else the first of all. So a thread is
taken away from what it is doing only if it is named, or if there is no idle one to be had.

The instruction that a trigger fires always has its opcode and its four bytes. So it is never
refused for its own sake: only the script or the pool can be the reason.

**Main statements.** `Control.taker?_takes`: who takes an event. `Machine.inject_injected`: all that
handing over bytes can come to. `Announces.of_eventTrigger`: what a trigger fires can be read.
`Machine.inject_disturbs_one`: no thread but the one that takes the event is touched, and that one
only for a reason.
-/

namespace RoomScript

open Payload

/-! ### Event instructions -/

/-- **The bytes of an event instruction**, and what it says. Bytes behind it do not matter. -/
structure Announces (raw : Bytes) (p : EvtExec) : Prop where
  opcode : raw[0]? = some Opcode.evtExec.toByte
  thread : raw[1]? = some p.thread
  exOpcode : raw[2]? = some p.exOpcode
  event : raw[3]? = some p.event

namespace Announces

variable {raw : Bytes} {p : EvtExec}

/-- An opcode and three more bytes are an event instruction. -/
theorem exists_iff : (∃ p, Announces raw p) ↔
    raw[0]? = some Opcode.evtExec.toByte ∧ 4 ≤ raw.size := by
  constructor
  · rintro ⟨p, h⟩
    obtain ⟨hsize, -⟩ := Array.getElem?_eq_some_iff.mp h.event
    exact ⟨h.opcode, hsize⟩
  · rintro ⟨hopcode, hsize⟩
    refine ⟨⟨raw[1], raw[2], raw[3]⟩, hopcode, ?_, ?_, ?_⟩ <;> exact Array.getElem?_eq_getElem _

theorem ofBytes (h : Announces raw p) (op : Opcode) :
    (layout op : Layout EvtExec).ofBytes raw = some p := by
  obtain ⟨_, hthread⟩ := Array.getElem?_eq_some_iff.mp h.thread
  obtain ⟨_, hexOpcode⟩ := Array.getElem?_eq_some_iff.mp h.exOpcode
  obtain ⟨hsize, hevent⟩ := Array.getElem?_eq_some_iff.mp h.event
  rw [Layout.ofBytes, dif_pos (show 1 + (layout op : Layout EvtExec).width ≤ raw.size from hsize)]
  show some (EvtExec.mk raw[1] raw[2] raw[3]) = some p
  rw [hthread, hexOpcode, hevent]

/-- What can be read as an event has four bytes, though it need not have the opcode of one. -/
theorem size_of_decodeAt {pc : Nat} (h : decodeAt EvtExec raw pc = .ok p) :
    (∃ byte, raw[0]? = some byte) ∧ 4 ≤ raw.size := by
  unfold decodeAt decode at h
  cases hfirst : raw[0]? with
  | none => simp [hfirst] at h
  | some byte =>
    refine ⟨⟨byte, rfl⟩, Nat.le_of_not_lt fun hshort => ?_⟩
    -- Any opcode is accepted here, and an event is laid out the same behind all of them.
    have hnone (op : Opcode) : (layout op : Layout EvtExec).ofBytes raw = none :=
      (Layout.ofBytes_eq_none_iff _ _).mpr hshort
    cases hop : Opcode.ofByte? byte <;> simp [hfirst, hop, hnone] at h

/-- **What a trigger fires is an event instruction**, in every session. -/
theorem of_eventTrigger {session : Session} {id : UInt8} (h : session.eventTrigger id = some raw) :
    ∃ p, Announces raw p := by
  obtain ⟨zone, -, hzone⟩ := Option.bind_eq_some_iff.mp h
  unfold AotSet.eventTrigger at hzone
  split at hzone
  · cases hzone
    exact exists_iff.mpr ⟨rfl, Nat.le_refl 4⟩
  · cases hzone

end Announces

/-! ### Who takes an event -/

section Taker

variable {n : Nat} {pool : Pool n} {i : Fin n}

/-- **A thread takes an event** that is meant for some place of the pool. -/
inductive Pool.Takes (pool : Pool n) (place : Nat) (i : Fin n) : Prop
  /-- It is the one that is meant. -/
  | named (h : i.val = place)
  /-- There is no such place, and it is the first idle one. -/
  | idle (hplace : n ≤ place) (hidle : (pool.thread i).running = false)
      (hfirst : ∀ j < i, (pool.thread j).running = true)
  /-- There is no such place and no idle thread, and it is the first of all. -/
  | preempted (hplace : n ≤ place) (hbusy : ∀ j, (pool.thread j).running = true) (h : i.val = 0)

/-- The first idle thread is idle, and the ones before it run. -/
theorem Pool.firstIdle?_eq_some (h : pool.firstIdle? = some i) :
    (pool.thread i).running = false ∧ ∀ j < i, (pool.thread j).running = true := by
  obtain ⟨hidle, k, hk, hi, hbefore⟩ := List.find?_eq_some_iff_getElem.mp h
  rw [List.getElem_finRange] at hi
  subst hi
  refine ⟨by simpa using hidle, fun j hj => ?_⟩
  have hrunning := hbefore j hj
  rw [List.getElem_finRange] at hrunning
  simpa using hrunning

theorem Pool.firstIdle?_eq_none (h : pool.firstIdle? = none) (j : Fin n) :
    (pool.thread j).running = true := by
  simpa using List.find?_eq_none.mp h j (List.mem_finRange j)

/-- **Who takes an event**: only an empty pool has nobody who does. -/
theorem Control.taker?_takes (pool : Pool n) (thread : UInt8) :
    match taker? pool thread with
    | some i => pool.Takes thread.toNat i
    | none => n = 0 := by
  unfold taker?
  by_cases hthread : thread.toNat < n
  · rw [dif_pos hthread]
    exact .named rfl
  · rw [dif_neg hthread]
    have hplace : n ≤ thread.toNat := Nat.le_of_not_lt hthread
    -- Nobody is meant, so it goes by who is idle.
    cases hfirst : pool.firstIdle? with
    | some i =>
      obtain ⟨hidle, hbefore⟩ := Pool.firstIdle?_eq_some hfirst
      exact .idle hplace hidle hbefore
    | none =>
      rw [Option.none_or]
      by_cases hempty : 0 < n
      · rw [dif_pos hempty]
        exact .preempted hplace (Pool.firstIdle?_eq_none hfirst) rfl
      · rw [dif_neg hempty]
        exact Nat.eq_zero_of_not_pos hempty

/-- A running thread takes an event only if it is meant, or if all are running. -/
theorem Pool.Takes.of_running {place : Nat} (h : pool.Takes place i)
    (hrunning : (pool.thread i).running = true) :
    i.val = place ∨ ∀ j, (pool.thread j).running = true := by
  cases h with
  | named h => exact .inl h
  | idle _ hidle _ => exact absurd hrunning (by simp [hidle])
  | preempted _ hbusy _ => exact .inr hbusy

end Taker

/-! ### Handing over bytes -/

/-- **All that handing over bytes can come to**: the pool afterwards, and who took the event. -/
inductive Injected {n : Nat} (script : Script) (raw : Bytes) (pool : Pool n) :
    Pool n → Except Fault (Fin n) → Prop
  /-- The bytes are no event instruction. -/
  | unreadable (h : ¬ ∃ p, Announces raw p) (f : Fault) : Injected script raw pool pool (.error f)
  /-- The script has no such event. -/
  | unknownEntry {p : EvtExec} (h : Announces raw p)
    (hlen : script.entries.length ≤ p.event.toNat) :
    Injected script raw pool pool (.error (.unknownEntry p.event.toNat))
  /-- There is no thread that could take the event. -/
  | noThread {p : EvtExec} (h : Announces raw p) (hlen : p.event.toNat < script.entries.length)
    (hn : n = 0) : Injected script raw pool pool (.error (.invalidThread 0))
  /-- The event is started. -/
  | starts {p : EvtExec} (h : Announces raw p) {address : Nat}
    (he : script.entry p.event.toNat = .ok address) {i : Fin n}
    (ht : pool.Takes p.thread.toNat i) :
    Injected script raw pool (pool.modify i (·.activate address)) (.ok i)

/-- A script has the entry points it lists. -/
theorem Script.exists_entry_iff {script : Script} {index : Nat} :
    (∃ address, script.entry index = .ok address) ↔ index < script.entries.length := by
  unfold entry
  by_cases h : index < script.entries.length
  · simp [h]
  · simp [h]

namespace Injected

variable {n : Nat} {script : Script} {raw : Bytes} {pool pool' : Pool n}
  {result : Except Fault (Fin n)}

/-- **When an event is started**: the bytes are an event instruction, the script has the event, and
the pool has a thread. -/
theorem exists_taken_iff (h : Injected script raw pool pool' result) :
    (∃ i, result = .ok i) ↔ raw[0]? = some Opcode.evtExec.toByte ∧ 0 < n ∧
      ∃ event, raw[3]? = some event ∧ event.toNat < script.entries.length := by
  constructor
  · rintro ⟨i, rfl⟩
    cases h with
    | starts hp he _ =>
      exact ⟨hp.opcode, Nat.zero_lt_of_lt i.isLt, _, hp.event, Script.exists_entry_iff.mp ⟨_, he⟩⟩
  · rintro ⟨hopcode, hn, event, hevent, hlt⟩
    -- Each way to be refused goes against one of the three conditions.
    cases h with
    | unreadable hraw f =>
      obtain ⟨hsize, -⟩ := Array.getElem?_eq_some_iff.mp hevent
      exact absurd (Announces.exists_iff.mpr ⟨hopcode, hsize⟩) hraw
    | unknownEntry hp hlen =>
      cases hevent.symm.trans hp.event
      exact absurd hlt (Nat.not_lt.mpr hlen)
    | noThread _ _ hempty => exact absurd hn (Nat.not_lt.mpr (Nat.le_of_eq hempty))
    | starts => exact ⟨_, rfl⟩

/-- **An event that is refused leaves the pool as it is.** -/
theorem pool_of_error {f : Fault} (h : Injected script raw pool pool' (.error f)) :
    pool' = pool := by
  cases h <;> rfl

/-- **An event that is started leaves all threads alone but the one that takes it.** -/
theorem thread_of_ne {i j : Fin n} (h : Injected script raw pool pool' (.ok i)) (hj : j ≠ i) :
    pool'.thread j = pool.thread j := by
  cases h with
  | starts => exact Pool.thread_modify_of_ne _ _ hj

/-- **The thread that takes an event starts at its entry point.** -/
theorem started {i : Fin n} (h : Injected script raw pool pool' (.ok i)) :
    ∃ event address, raw[3]? = some event ∧ script.entry event.toNat = .ok address ∧
      (pool'.thread i).Started address := by
  cases h with
  | starts hp he _ =>
    refine ⟨_, _, hp.event, he, ?_⟩
    rw [Pool.thread_modify]
    exact .activate _ _

/-- **Only the thread that the pool settles on takes an event**, away from something else only for a
reason. -/
theorem takes {i : Fin n} (h : Injected script raw pool pool' (.ok i)) :
    ∃ thread, raw[1]? = some thread ∧ pool.Takes thread.toNat i ∧
      ((pool.thread i).running = true →
        i.val = thread.toNat ∨ ∀ j, (pool.thread j).running = true) := by
  cases h with
  | starts hp _ ht => exact ⟨_, hp.thread, ht, ht.of_running⟩

/-- **Why an event instruction is refused**: for the entry point, or for want of a thread. -/
theorem error_iff {p : EvtExec} (h : Injected script raw pool pool' result) (hp : Announces raw p)
    (f : Fault) : result = .error f ↔
      f = .unknownEntry p.event.toNat ∧ script.entries.length ≤ p.event.toNat ∨
      f = .invalidThread 0 ∧ n = 0 ∧ p.event.toNat < script.entries.length := by
  -- Bytes announce one event only.
  have hsame {p' : EvtExec} (hp' : Announces raw p') : p'.event = p.event :=
    Option.some.inj (hp'.event.symm.trans hp.event)
  cases h with
  | unreadable hraw _ => exact absurd ⟨p, hp⟩ hraw
  | unknownEntry hp' hlen =>
    rw [hsame hp'] at hlen ⊢
    constructor
    · rintro ⟨⟩
      exact .inl ⟨rfl, hlen⟩
    · rintro (⟨rfl, -⟩ | ⟨-, -, hlt⟩)
      · rfl
      · exact absurd hlt (Nat.not_lt.mpr hlen)
  | noThread hp' hlt hn =>
    rw [hsame hp'] at hlt
    constructor
    · rintro ⟨⟩
      exact .inr ⟨rfl, hn, hlt⟩
    · rintro (⟨-, hlen⟩ | ⟨rfl, -⟩)
      · exact absurd hlt (Nat.not_lt.mpr hlen)
      · rfl
  | @starts p' hp' address he i ht =>
    have hlt : p.event.toNat < script.entries.length :=
      hsame hp' ▸ Script.exists_entry_iff.mp ⟨address, he⟩
    constructor
    · rintro ⟨⟩
    · rintro (⟨-, hlen⟩ | ⟨-, hn, -⟩)
      · exact absurd hlt (Nat.not_lt.mpr hlen)
      · exact absurd i.isLt (by omega)

end Injected

namespace Machine

variable {n : Nat} {σ : Type}

/-- Handing over bytes comes to nothing else. -/
theorem inject_injected (m : Machine n σ) (rules : Rules) (script : Script) (raw : Bytes) :
    Injected script raw m.pool (m.inject rules script raw).1.pool
      (m.inject rules script raw).2 := by
  by_cases hraw : ∃ p, Announces raw p
  · obtain ⟨p, hp⟩ := hraw
    have hdecode : decodeAt EvtExec raw 0 = .ok p := decodeAt_of_ofBytes 0 hp.opcode (hp.ofBytes _)
    have hresult := Control.schedule_result script m.pool p
    simp only [inject, hp.opcode, inject.startEvent, hdecode, if_true]
    cases he : script.entry p.event.toNat with
    | error f =>
      rw [he] at hresult
      simp only [hresult]
      have hlen : ¬ p.event.toNat < script.entries.length := fun hlt => by
        obtain ⟨address, hok⟩ := Script.exists_entry_iff.mpr hlt
        cases he.symm.trans hok
      rw [Script.fault_of_entry he]
      exact .unknownEntry hp (Nat.le_of_not_lt hlen)
    | ok address =>
      have htaker := Control.taker?_takes m.pool p.thread
      rw [he] at hresult
      cases ht : Control.taker? m.pool p.thread with
      | some i =>
        rw [ht] at hresult htaker
        simp only [hresult]
        exact .starts hp he htaker
      | none =>
        rw [ht] at hresult htaker
        simp only [hresult]
        exact .noThread hp (Script.exists_entry_iff.mp ⟨address, he⟩) htaker
  · suffices hrefused : ∃ f, m.inject rules script raw = (m, .error f) by
      obtain ⟨f, hf⟩ := hrefused
      rw [hf]
      exact .unreadable hraw f
    unfold inject inject.startEvent
    cases hdecode : decodeAt EvtExec raw 0 with
    | error f =>
      split
      · split <;> exact ⟨_, rfl⟩
      · exact ⟨_, rfl⟩
    | ok p =>
      -- The bytes can be read, so they are refused for their opcode.
      obtain ⟨⟨byte, hbyte⟩, hsize⟩ := Announces.size_of_decodeAt hdecode
      have hother : byte ≠ Opcode.evtExec.toByte := by
        rintro rfl
        exact hraw (Announces.exists_iff.mpr ⟨hbyte, hsize⟩)
      simp only [hbyte, if_neg hother]
      exact ⟨_, rfl⟩

/-- **An injected event disturbs at most one thread, and only with cause.** For every pool, script
and bytes: the event is started if and only if the bytes are an event instruction, the script has
the event and the pool has a thread. If it is not started, no thread changes. If it is, the thread
that takes it starts at the entry point with nothing open, and all others stay as they are. The
thread is the one that the second byte names if there is one, else the first idle one, else the
first of all. So a running thread is taken away only if it is named or if all are running. What a
trigger of any session fires is refused for its entry point only, or by an empty pool. -/
theorem inject_disturbs_one (m : Machine n σ) (rules : Rules) (script : Script) (raw : Bytes) :
    let after := m.inject rules script raw
    ((∃ i, after.2 = .ok i) ↔ raw[0]? = some Opcode.evtExec.toByte ∧ 0 < n ∧
      ∃ event, raw[3]? = some event ∧ event.toNat < script.entries.length) ∧
    (∀ f, after.2 = .error f → ∀ j, after.1.pool.thread j = m.pool.thread j) ∧
    (∀ i, after.2 = .ok i →
      (∀ j, j ≠ i → after.1.pool.thread j = m.pool.thread j) ∧
      (∃ event address, raw[3]? = some event ∧ script.entry event.toNat = .ok address ∧
        (after.1.pool.thread i).Started address) ∧
      ∃ thread, raw[1]? = some thread ∧ m.pool.Takes thread.toNat i ∧
        ((m.pool.thread i).running = true →
          i.val = thread.toNat ∨ ∀ j, (m.pool.thread j).running = true)) ∧
    ∀ (session : Session) (id : UInt8), session.eventTrigger id = some raw →
      ∃ event, raw[3]? = some event ∧ ∀ f, after.2 = .error f ↔
        f = .unknownEntry event.toNat ∧ script.entries.length ≤ event.toNat ∨
        f = .invalidThread 0 ∧ n = 0 ∧ event.toNat < script.entries.length := by
  intro after
  have h : Injected script raw m.pool after.1.pool after.2 := m.inject_injected rules script raw
  refine ⟨h.exists_taken_iff, fun f hf j => ?_, fun i hi => ?_, fun session id hfires => ?_⟩
  · rw [hf] at h
    rw [h.pool_of_error]
  · rw [hi] at h
    exact ⟨fun j hj => h.thread_of_ne hj, h.started, h.takes⟩
  · obtain ⟨p, hp⟩ := Announces.of_eventTrigger hfires
    exact ⟨p.event, hp.event, h.error_iff hp⟩

/-- With both threads busy, an event for a tenth one takes over the first. The trigger that fires it
is of no use in a script without the entry point. -/
theorem inject_disturbs_one_full :
    let m := ((Machine.idle 2 ({} : Stage)).startRoom {} .pair []).1
    let session : Session :=
      { zones := #[⟨⟨7, 5, 0, 0, 0⟩, .rect 0 0 0 0, #v[9, 0, 0, 1, 0, 0]⟩] }
    (∀ j, (m.pool.thread j).running = true) ∧
      (m.inject {} .pair #[0x04, 9, 0, 1]).2 = .ok 0 ∧
      ((m.inject {} .pair #[0x04, 9, 0, 1]).1.pool.thread 1 = m.pool.thread 1) ∧
      session.eventTrigger 7 = some #[0x04, 9, 0, 1] ∧
      (m.inject {} .single #[0x04, 9, 0, 1]).2 = .error (.unknownEntry 1) := by
  intro m session
  have htaken : (m.inject {} .pair #[0x04, 9, 0, 1]).2 = .ok 0 := by decide +kernel
  have hfires : session.eventTrigger 7 = some #[0x04, 9, 0, 1] := by decide +kernel
  have hframe := ((inject_disturbs_one m {} .pair #[0x04, 9, 0, 1]).2.2.1 0 htaken).1
  obtain ⟨event, hevent, hfails⟩ :=
    (inject_disturbs_one m {} .single #[0x04, 9, 0, 1]).2.2.2 session 7 hfires
  cases hevent
  exact ⟨by decide +kernel, htaken, hframe 1 (by decide), hfires,
    (hfails _).mpr (.inl ⟨rfl, by decide⟩)⟩

end Machine

end RoomScript
