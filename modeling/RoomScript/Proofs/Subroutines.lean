import RoomScript.Proofs.Trail

/-!
# Subroutines restore their caller

A call writes one thing on the calling level, where to return to, and then works on the levels
above. Nothing of the caller is saved: its counters and slots are found again because nobody has
touched them, and the index into the block stack is made up from the counter of the level. So what
is to be shown is a frame, `Thread.Inside`: as long as a thread is deeper than its caller, the
levels up to the caller are as the call has left them.

The callee may do what it likes. It may sleep over many passes, fail conditions, leave loops, and
call further subroutines, and other threads may run in between. It is only when the thread is
started anew that the caller is forgotten.

**Main statements.** `Thread.Inside.stepped`: no turn changes the caller, except for the return to
it. `Engine.subroutine_restores_caller`: what the caller finds when the subroutine has ended, in
every run of an engine.
-/

namespace RoomScript

namespace Thread

/-- The thread as its callee finds it below: the current level knows where to return to. -/
def waiting (t : Thread) : Thread :=
  t.setLevel { t.level with returnTo := t.pc + Opcode.gosub.size }

/-- **A thread that is inside a subroutine**: it is deeper than the caller was, and the levels up to
the caller are as the call has left them. -/
structure Inside (caller t : Thread) : Prop where
  deeper : caller.sub < t.sub
  kept : ∀ s ≤ caller.sub, t.levels.get s = caller.waiting.levels.get s

namespace Inside

variable {caller t t' : Thread} {op : Opcode} {result : Except Fault Machine.Pulse}

/-- Only the level and the levels below count. -/
theorem congr (h : caller.Inside t) (hsub : t'.sub = t.sub) (hlevels : t'.levels = t.levels) :
    caller.Inside t' :=
  ⟨hsub ▸ h.deeper, fun s hs => by rw [hlevels]; exact h.kept s hs⟩

/-- A call that does not fault goes inside. -/
theorem of_call (h : caller.Stepped op t result) (hop : op = .gosub)
    (hok : ∀ f, result ≠ .error f) : caller.Inside t := by
  cases h with
  | stays _ _ hcall =>
    obtain ⟨f, hf⟩ := hcall hop
    exact absurd hf (hok f)
  | @calls u _ h =>
    obtain ⟨-, hsub, hkept⟩ := of_enterSubroutine h
    exact congr (t := u) ⟨show caller.sub.val < _ by omega, hkept⟩ rfl rfl
  | returns _ | ends _ => exact nomatch hop

/-- **No turn inside a subroutine touches the caller**, unless it returns to it. -/
theorem stepped (h : caller.Inside t) (hturn : t.Stepped op t' result)
    (hend : op = .evtEnd → t.sub.val ≠ caller.sub.val + 1) : caller.Inside t' := by
  have hdeeper : caller.sub.val < t.sub.val := h.deeper
  cases hturn with
  | stays hnear _ _ =>
    refine ⟨hnear.sub ▸ h.deeper, fun s hs => ?_⟩
    -- the level that is worked on is above
    rw [hnear.levels s (Fin.ne_of_lt (Nat.lt_of_le_of_lt hs hdeeper))]
    exact h.kept s hs
  | @calls u _ hcall =>
    obtain ⟨-, hsub, hkept⟩ := of_enterSubroutine hcall
    refine congr (t := u) ⟨show caller.sub.val < _ by omega, fun s hs => ?_⟩ rfl rfl
    -- a further call writes on its own level and above
    have hlt : s.val < t.sub.val := Nat.lt_of_le_of_lt hs hdeeper
    rw [hkept s (Nat.le_of_lt hlt), levels_setLevel, if_neg (Fin.ne_of_lt hlt)]
    exact h.kept s hs
  | @returns u hreturn =>
    obtain ⟨-, hsub, hlevels, -⟩ := of_leaveSubroutine hreturn
    have hne := hend rfl
    refine congr (t := u) ⟨show caller.sub.val < _ by omega, fun s hs => ?_⟩ rfl rfl
    rw [hlevels]
    exact h.kept s hs
  | ends hsub => omega

/-- **The return to the caller**: everything is as it was, but for the address to return to. -/
theorem returned (h : caller.Inside t) (hrange : caller.InRange) (hturn : t.Stepped op t' result)
    (hop : op = .evtEnd) (hdepth : t.sub.val = caller.sub.val + 1) :
    t'.pc = caller.pc + Opcode.gosub.size ∧ t'.sub = caller.sub ∧
      t'.stackIndex = caller.stackIndex ∧
      (∀ s < caller.sub, t'.levels.get s = caller.levels.get s) ∧
      t'.level = { caller.level with returnTo := caller.pc + Opcode.gosub.size } := by
  cases hturn with
  | stays _ hend _ => exact absurd hop hend
  | calls _ => exact nomatch hop
  | ends hsub => omega
  | @returns u hreturn =>
    obtain ⟨-, hsub, hlevels, hpc, hindex, -⟩ := of_leaveSubroutine hreturn
    obtain hsub : u.sub = caller.sub := Fin.ext (by omega)
    have hlevel : u.level = { caller.level with returnTo := caller.pc + Opcode.gosub.size } := by
      change u.levels.get u.sub = _
      rw [hlevels, hsub, h.kept _ (Nat.le_refl _), waiting, levels_setLevel, if_pos rfl]
    refine ⟨?_, hsub, ?_, fun s hs => ?_, hlevel⟩
    · change u.pc = _
      rw [hpc, hlevel]
    · -- the counter of the level has not changed, and the index was in step with it
      change u.stackIndex = _
      rw [hindex, hlevel, ← hrange.stackIndex_eq]
      exact Int.toNat_natCast _
    · change u.levels.get s = _
      rw [hlevels, h.kept s (Nat.le_of_lt hs), waiting, levels_setLevel, if_neg (Fin.ne_of_lt hs)]

end Inside

end Thread

/-- **A subroutine restores its caller.** Somewhere in a run of an engine, a thread executes a call,
and later comes to the first end of a script on the level above the calling one. If it has not been
activated in between, then whatever it has executed on the way, over however many passes, and
whatever the other threads have done, it goes on behind the call, on the level it has called from
and with the block stack as high as it was. That level and the ones below it are as they were in all
their counters and slots, except that the calling level still has the address it was to be returned
to. -/
theorem Engine.subroutine_restores_caller {σ : Type} [Host σ] {config : Config}
    {traces : TraceSet} {host : σ} {e : Engine config.threadCount σ}
    (he : e = Engine.ofConfig config traces host) {calls : List (Call σ)}
    {past during future : List (Happening config.threadCount σ)}
    {call ret : Machine.Turn config.threadCount σ}
    (hsplit : e.history calls = past ++ .executes call :: (during ++ .executes ret :: future))
    (hcall : call.op = .gosub) (hret : ret.op = .evtEnd) (hthread : ret.thread = call.thread) :
    let before := call.machine.pool.thread call.thread
    let after := (ret.outcome e.rules).1.pool.thread call.thread
    (ret.machine.pool.thread call.thread).sub.val = before.sub.val + 1 →
    (∀ u, .executes u ∈ during → u.thread = call.thread → u.op = .evtEnd →
      (u.machine.pool.thread call.thread).sub.val ≠ before.sub.val + 1) →
    (∀ h ∈ during, ¬ h.Activates call.thread) →
    after.pc = before.pc + 2 ∧ after.sub = before.sub ∧ after.stackIndex = before.stackIndex ∧
      (∀ s < before.sub, after.levels.get s = before.levels.get s) ∧
      after.level = { before.level with returnTo := before.pc + 2 } := by
  intro before after hdepth hfirst hquiet
  have hstd : e.rules.handlers = Handler.standard := by rw [he]; rfl
  have htrail := trail_history hstd calls
  rw [hsplit] at htrail
  -- the call did not fault: the thread would have been idle ever since
  have hok := htrail.not_fault hstd hthread hquiet
  obtain ⟨-, m₁, hcalled, hrest⟩ := htrail.split rfl
  obtain ⟨hduring, m₂, hreturned, -⟩ := hrest.split rfl
  -- the call goes inside, and there the thread is when it comes to the end
  have hinside : before.Inside ((call.outcome e.rules).1.pool.thread call.thread) :=
    .of_call (hcalled.stepped hstd (by rw [hcall]; exact nofun)) hcall hok
  have hbegins : before.Inside (m₁.pool.thread call.thread) :=
    Thread.holds_of_idled (fun _ h => h.congr rfl rfl) (hcalled.thread _) hinside
  have hends : before.Inside (ret.machine.pool.thread call.thread) := by
    refine hduring.keeps hstd (fun _ h => h.congr rfl rfl) ?_ hquiet hbegins
    intro u hu hthread _ hstepped h
    exact h.stepped hstepped (hfirst u hu hthread)
  have hturn := hreturned.stepped hstd (by rw [hret]; exact nofun)
  rw [hthread] at hturn
  exact hends.returned (inRange_history he hsplit _) hturn hret hdepth

/-- Calls a subroutine from inside an if block; the subroutine sleeps for two ticks. -/
def Script.napping : Script where
  data := #[0x06, 0, 4, 0, 0x18, 1, 0x08, 0, 0x01, 0, 0x09, 0x0A, 2, 0, 0x01, 0]
  entries := [0, 10]
  entries_lt := by decide

/-- Runs it on the first thread, until the subroutine has ended in the third pass. -/
def Script.napping.calls : List (Call Stage) :=
  [.start .napping 0 0, .pass .napping 9, .pass .napping 9, .pass .napping 9]

/-- An instruction that neither starts an event nor ends a script. -/
def Happening.isPlain {n : Nat} {σ : Type} : Happening n σ → Bool
  | .starts _ => false
  | .executes t => t.op ≠ .evtExec ∧ t.op ≠ .evtEnd

/-- A call as the third thing that happens, from a level with a block open, and its return as the
seventh. -/
def Script.napping.returns {n : Nat} {σ : Type} : List (Happening n σ) → Bool
  | _ :: _ :: .executes call :: x :: y :: z :: .executes ret :: _ =>
    (call.machine.pool.thread call.thread).stackIndex = 1 ∧ call.op = .gosub ∧ ret.op = .evtEnd ∧
      ret.thread = call.thread ∧ (ret.machine.pool.thread call.thread).sub.val =
        (call.machine.pool.thread call.thread).sub.val + 1 ∧ [x, y, z].all Happening.isPlain
  | _ => false

/-- The block that was open at the call is open again when the subroutine has slept its two ticks
and ended. -/
theorem Engine.subroutine_restores_caller_napping :
    let e := Engine.ofConfig {} {} ({} : Stage)
    ∃ call ret, .executes call ∈ e.history Script.napping.calls ∧
      .executes ret ∈ e.history Script.napping.calls ∧
      ((ret.outcome e.rules).1.pool.thread call.thread).pc =
        (call.machine.pool.thread call.thread).pc + 2 ∧
      ((ret.outcome e.rules).1.pool.thread call.thread).stackIndex = 1 := by
  intro e
  have hreturns : Script.napping.returns (e.history Script.napping.calls) = true := by
    decide +kernel
  generalize hhist : e.history Script.napping.calls = hist at hreturns ⊢
  unfold Script.napping.returns at hreturns
  split at hreturns
  · next a b call x y z ret future =>
    have hsplit : e.history Script.napping.calls =
      [a, b] ++ .executes call :: ([x, y, z] ++ .executes ret :: future) := hhist
    obtain ⟨hindex, hcall, hret, hthread, hdepth, hplain⟩ := of_decide_eq_true hreturns
    rw [List.all_eq_true] at hplain
    -- the instructions in between are plain ones
    have hops : ∀ u, .executes u ∈ [x, y, z] → u.op ≠ .evtExec ∧ u.op ≠ .evtEnd :=
      fun u hu => of_decide_eq_true (hplain _ hu)
    have hquiet : ∀ h ∈ [x, y, z], ¬ h.Activates call.thread := by
      intro h hh hactivates
      cases h with
      | starts _ => exact nomatch hplain _ hh
      | executes u =>
        obtain ⟨address, hstarts⟩ := hactivates
        exact (hops u hh).1 hstarts.1
    obtain ⟨hpc, -, hstack, -⟩ := subroutine_restores_caller (e := e) rfl hsplit hcall hret hthread
      hdepth (fun u hu _ hop => absurd hop (hops u hu).2) hquiet
    exact ⟨call, ret, by simp, by simp, hpc, hstack.trans hindex⟩
  · exact nomatch hreturns

end RoomScript
