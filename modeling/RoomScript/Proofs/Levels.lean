import RoomScript.Proofs.Isolation

/-!
# The levels of a thread

A thread works on its current subroutine level and does not look at the others. It changes its level
in two ways only: it calls a subroutine and goes one level up, or a subroutine ends and it goes one
level down. This file says so once and for all, for every instruction, and not for the calls alone:
what is below the current level is safe from everything that runs above it.

**Main statements.** `Thread.Stepped` lists what a turn can do to the levels of its thread.
`Machine.turn_stepped`: every turn does one of these, unless it starts an event on its own thread.
`Machine.running_of_turn`: a thread that has another turn to come is not made idle.
-/

namespace RoomScript

open Payload

namespace Thread

/-! ### Staying on a level -/

/-- **Two threads that are on the same level and agree on all the others.** -/
structure Near (t t' : Thread) : Prop where
  running : t'.running = t.running
  sub : t'.sub = t.sub
  levels : ∀ s ≠ t.sub, t'.levels.get s = t.levels.get s

namespace Near

variable {t t' t'' : Thread}

theorem refl (t : Thread) : t.Near t := ⟨rfl, rfl, fun _ _ => rfl⟩

theorem trans (h : t.Near t') (h' : t'.Near t'') : t.Near t'' where
  running := h'.running.trans h.running
  sub := h'.sub.trans h.sub
  levels := fun s hs => (h'.levels s (h.sub ▸ hs)).trans (h.levels s hs)

theorem jump (h : t.Near t') (pc : Nat) : t.Near (t'.jump pc) := ⟨h.running, h.sub, h.levels⟩

theorem moveOn (h : t.Near t') (size : Nat) : t.Near (t'.moveOn size) :=
  ⟨h.running, h.sub, h.levels⟩

/-- The current level can be replaced, and the index into its block stack with it. -/
theorem setLevel (t : Thread) (l : Level) (index : Nat) :
    t.Near { t.setLevel l with stackIndex := index } where
  running := rfl
  sub := rfl
  levels := fun s hs => by
    change (t.setLevel l).levels.get s = _
    rw [levels_setLevel, if_neg hs]

theorem pushBlock {resume : Nat} (h : t.pushBlock resume = .ok t') : t.Near t' := by
  obtain ⟨_, -, rfl⟩ := pushBlock_eq_ok h
  exact setLevel t _ _

theorem popBlock {result : Except Fault Nat} (h : t.popBlock = (t', result)) : t.Near t' := by
  obtain ⟨-, rfl, -⟩ | ⟨-, rfl, -⟩ := popBlock_cases h
  · exact refl t'
  · exact setLevel t _ _

theorem pushLoop {frame : Frame} (h : t.pushLoop frame = .ok t') : t.Near t' := by
  obtain ⟨_, -, rfl⟩ := pushLoop_eq_ok h
  exact setLevel t _ _

theorem countDown (t : Thread) (k : Fin loopDepth) : t.Near (t.countDown k) := setLevel t _ _

theorem dropLoop (t : Thread) : t.Near t.dropLoop := setLevel t _ _

theorem breakOut (t : Thread) (frame : Frame) : t.Near (t.breakOut frame) :=
  (setLevel t _ _).jump _

/-- A condition that fails closes a block of the current level. -/
theorem follow (h : t.Near t') (flow : Flow) : t.Near (t'.follow flow).1 := by
  obtain ⟨_, heq⟩ | ⟨-, ⟨_, _, hp, heq⟩ | ⟨_, _, hp, heq⟩⟩ := follow_cases t' flow <;> rw [heq]
  · exact h
  · exact h.trans (popBlock hp)
  · have hpop := h.trans (popBlock hp)
    exact ⟨hpop.running, hpop.sub, hpop.levels⟩

end Near

/-! ### Changing the level -/

section Changing

variable {t t' : Thread}

/-- **What a call does**: the thread goes one level up, and below it nothing is written but where
the calling level is to be returned to. -/
theorem of_enterSubroutine {returnTo target : Nat}
    (h : t.enterSubroutine returnTo target = .ok t') :
    t'.running = t.running ∧ t'.sub.val = t.sub.val + 1 ∧
      ∀ s ≤ t.sub, t'.levels.get s =
        (t.setLevel { t.level with returnTo := returnTo }).levels.get s := by
  obtain ⟨up, hup, rfl⟩ := enterSubroutine_eq_ok h
  refine ⟨rfl, hup, fun s hs => ?_⟩
  -- the level that is entered stands above
  have hne : s ≠ up := Fin.ne_of_lt (by rw [Fin.lt_def, hup]; exact Nat.lt_succ_of_le hs)
  exact (levels_setLevel _ _ s).trans (if_neg hne)

/-- **What a return does**: the thread goes one level down and finds it as it is, with the index
into the block stack made up from its counter. -/
theorem of_leaveSubroutine (h : t.leaveSubroutine = some t') :
    t'.running = t.running ∧ t'.sub.val + 1 = t.sub.val ∧ t'.levels = t.levels ∧
      t'.pc = t'.level.returnTo ∧ t'.stackIndex = (t'.level.ifCounter + 1).toNat ∧
      t'.overridden = true := by
  obtain ⟨down, hdown, rfl⟩ := leaveSubroutine_eq_some h
  exact ⟨rfl, hdown, rfl, rfl, rfl, rfl⟩

theorem leaveSubroutine_eq_none (h : t.leaveSubroutine = none) : t.sub.val = 0 := by
  unfold leaveSubroutine at h
  split at h
  · next hsub => exact hsub
  · exact nomatch h

end Changing

/-! ### What a turn does to the levels -/

/-- **What a turn can do to the levels of its thread**: the thread stays on its level, calls a
subroutine, returns from one, or is done. -/
inductive Stepped (t : Thread) : Opcode → Thread → Except Fault Machine.Pulse → Prop
  | stays {op t' result} (h : t.Near t') (hend : op ≠ .evtEnd)
      (hcall : op = .gosub → ∃ f, result = .error f) : Stepped t op t' result
  | calls {t' target} (h : t.enterSubroutine (t.pc + Opcode.gosub.size) target = .ok t') :
    Stepped t .gosub { t' with overridden := false } (.ok .running)
  | returns {t'} (h : t.leaveSubroutine = some t') :
    Stepped t .evtEnd { t' with overridden := false } (.ok .running)
  | ends {t'} (h : t.sub.val = 0) : Stepped t .evtEnd t' (.ok .yielded)

/-- **An instruction that does not change the level** leaves all the other levels alone. -/
theorem Near.of_effect {script : Script} {view : Host.View} {t t' : Thread} {op : Opcode}
    {raw : Bytes} {result : Except Fault Flow} (h : Effect script view t op raw t' result)
    (hend : op ≠ .evtEnd) (hcall : op = .gosub → ∃ f, result = .error f) : t.Near t' := by
  -- only a call that succeeds and a return leave the level
  cases h with
  | returns _ | ends _ => exact absurd rfl hend
  | calls _ _ => exact (hcall rfl).elim nofun
  | passes _ | fails _ | balks _ _ => exact .refl t
  | tooManyIfs _ | tooManyLoops _ _ | noLoop _ _ | noEntry _ | tooDeep _ => exact .refl t
  | selects w => exact ⟨rfl, rfl, fun _ _ => rfl⟩
  | opensIf _ ht => exact .pushBlock ht
  | skipsElse _ ht => exact (Near.popBlock ht).jump _
  | closesIf ht | noIf _ ht => exact .popBlock ht
  | sleeps _ ht | opensLoop _ _ ht | takesArm _ ht _ => exact (Near.pushLoop ht).jump _
  | takesNone _ ht _ => exact ((Near.pushLoop ht).trans (.dropLoop _)).jump _
  | losesArm _ ht _ => exact .pushLoop ht
  | dozes k _ _ | loopsOn k _ _ => exact (Near.countDown t k).jump _
  | wakes k _ _ | leavesLoop k _ _ =>
    exact ((Near.countDown t k).trans (.dropLoop _)).jump _
  | skipsLoop _ _ => exact (Near.refl t).jump _
  | breaks k _ => exact .breakOut t _
  | closesSwitch k _ => exact .dropLoop t

section Effects

variable {script : Script} {view : Host.View} {t t' : Thread} {op : Opcode} {raw : Bytes}

/-- Both ways of changing the level place the thread, so it is not stepped on. -/
theorem moveOn_of_overridden (h : t.overridden = true) (size : Nat) :
    t.moveOn size = { t with overridden := false } := by
  simp only [moveOn, h, if_true]

/-- A turn of an instruction on the thread itself. -/
theorem Turned.stepped {result : Except Fault Machine.Pulse}
    (h : Turned script view t op raw t' result) : t.Stepped op t' result := by
  have hready : t.Near t.ready := ⟨rfl, rfl, fun _ _ => rfl⟩
  cases h with
  | fault he =>
    have hend : op ≠ .evtEnd := by
      rintro rfl
      rcases he.evtEnd_cases with ⟨-, hresult⟩ | ⟨-, hresult⟩ <;> exact nomatch hresult
    exact .stays (hready.trans (.of_effect he hend fun _ => ⟨_, rfl⟩)) hend fun _ => ⟨_, rfl⟩
  | @flow u flow he =>
    by_cases hend : op = .evtEnd
    · subst hend
      rcases he.evtEnd_cases with ⟨ht, hflow⟩ | ⟨ht, hflow⟩
      · cases hflow
        rw [moveOn_of_overridden (of_leaveSubroutine ht).2.2.2.2.2]
        exact .returns (t := t) ht
      · cases hflow
        exact .ends (leaveSubroutine_eq_none (t := t.ready) ht)
    · by_cases hcall : op = .gosub
      · subst hcall
        rcases he.gosub_cases with ⟨target, ht, hflow⟩ | ⟨f, hflow⟩
        · cases hflow
          rw [moveOn_of_overridden (place_of_enterSubroutine ht).2]
          exact .calls (t := t) ht
        · exact nomatch hflow
      · have hnear := Near.of_effect he hend fun h => absurd h hcall
        exact .stays (((hready.trans hnear).moveOn _).follow _) hend fun h => absurd h hcall

/-- Whoever has another turn to come is not done. -/
theorem Stepped.running {result : Except Fault Machine.Pulse} (h : t.Stepped op t' result)
    (hon : result = .ok .running) : t'.running = t.running := by
  cases h with
  | stays h _ _ => exact h.running
  | calls h => exact (of_enterSubroutine h).1
  | returns h => exact (of_leaveSubroutine h).1
  | ends _ => exact nomatch hon

end Effects

end Thread

/-! ### Turns of a machine -/

namespace Machine

variable {n : Nat} {σ : Type} [Host σ] {rules : Rules} {script : Script} {i : Fin n} {op : Opcode}
  {raw : Bytes}

/-- **What a turn does to the levels of its thread**, unless it starts an event on it. -/
theorem turn_stepped (hstd : rules.handlers = Handler.standard) {m : Machine n σ}
    (hf : script.fetch (m.pool.thread i).pc = .ok (op, raw))
    (hquiet : ∀ address, ¬ Turn.Starts ⟨script, i, m, op, raw⟩ i address) :
    (m.pool.thread i).Stepped op ((m.turn rules script i op raw).1.pool.thread i)
      (m.turn rules script i op raw).2 := by
  have hw := Script.whole_of_fetch hf
  by_cases hop : op = .evtExec
  · subst hop
    -- the event goes to another thread, or nowhere, and this one steps over the instruction
    refine .stays ?_ nofun nofun
    obtain ⟨p, hp⟩ := hw.decode (α := EvtExec) (by decide)
    have hready : (m.pool.thread i).Near ((m.pool.modify i Thread.ready).thread i) := by
      rw [Pool.thread_modify]
      exact ⟨rfl, rfl, fun _ _ => rfl⟩
    rcases turn_evtExec_cases hstd m script i hp with ⟨j, address, ht, he, hpool⟩ | hpool
    · have hj : i ≠ j := by
        rintro rfl
        exact hquiet address ⟨rfl, p, hp, ht, he⟩
      rw [hpool, Pool.thread_modify, Pool.thread_modify_of_ne _ _ hj]
      exact hready.moveOn _
    · rwa [hpool]
  · obtain ⟨t, hpool, hturned⟩ := m.turn_local script i hstd hw hop
    rw [hpool, Pool.thread_replace]
    exact hturned.stepped

/-- **A thread that has another turn to come is still running.** -/
theorem running_of_turn (hstd : rules.handlers = Handler.standard) {m : Machine n σ}
    (hf : script.fetch (m.pool.thread i).pc = .ok (op, raw))
    (hrun : (m.pool.thread i).running = true)
    (hon : (m.turn rules script i op raw).2 = .ok .running) :
    ((m.turn rules script i op raw).1.pool.thread i).running = true := by
  by_cases hself : ∃ address, Turn.Starts ⟨script, i, m, op, raw⟩ i address
  · obtain ⟨address, rfl, p, hp, htaker, he⟩ := hself
    rw [(turn_starts hstd hp he htaker).1, Pool.thread_modify, Pool.thread_modify]
    rfl
  · have hstepped := turn_stepped hstd hf fun address h => hself ⟨address, h⟩
    exact (hstepped.running hon).trans hrun

end Machine

end RoomScript
