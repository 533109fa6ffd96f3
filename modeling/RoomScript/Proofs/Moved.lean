import RoomScript.Proofs.Run

/-!
# Moved scripts and threads

Code can be moved: put bytes in front of it and add their number to the entry points. This file says
what it means that a thread stands in moved code just as another one stands in the code as it was,
and that every operation on threads keeps it so.

Two such threads agree in their counters, and addresses differ by the distance. That cannot be asked
of all the slots of a thread, since those not in use hold what they held before. It is not enough to
ask it of those in use either: leaving a loop restores the number of if blocks that were open when
the loop was entered, and if more of them were closed inside the loop than opened, slots come back
into use that nobody has written in between. So a pair of open frames brings along that the blocks
up to its saved depth are moved too (`FrameMoved`). Blocks are opened at moved addresses only, so
once a slot is moved it stays so.

The frame of a sleep is the exception. It is opened with zeros for addresses in both threads, and
with zero for the saved depth, whatever the depth was. All of this is harmless because the thread
stands on the sleeping instruction until the frame is closed (`Thread.Dozing`), provided that there
is a sleeping instruction behind every opcode byte of a sleep (`Script.SleepsInPlace`).

**Main statements.** `Script.Moved.fetch`, `Script.Moved.findArm`: moved code is read as it was.
`Thread.Awake` relates threads in code and moved code, and the lemmas in its namespace follow the
operations of `RoomScript.Thread` one by one.
-/

namespace RoomScript

open Payload

/-! ### Faults and outcomes -/

/-- The same fault, of an instruction `d` bytes further on in code that is `d` bytes longer. -/
def Fault.moved (d : Nat) : Fault → Fault
  | .unknownOpcode opcode pc => .unknownOpcode opcode (pc + d)
  | .truncated opcode pc len => .truncated opcode (pc + d) (len + d)
  | .pcOutOfRange pc len => .pcOutOfRange (pc + d) (len + d)
  | .emptyBlockStack pc => .emptyBlockStack (pc + d)
  | .blockStackOverflow pc => .blockStackOverflow (pc + d)
  | .subLevelOverflow pc => .subLevelOverflow (pc + d)
  | .loopUnderflow pc => .loopUnderflow (pc + d)
  | .loopOverflow pc => .loopOverflow (pc + d)
  | .unexpectedSwitchOpcode opcode pc => .unexpectedSwitchOpcode opcode (pc + d)
  | f => f

@[simp] theorem Fault.moved_zero (f : Fault) : f.moved 0 = f := by cases f <;> rfl

/-- The faults of a value have no address. -/
theorem Fault.moved_of_isValue {f : Fault} (h : f.isValue = true) (d : Nat) : f.moved d = f := by
  cases f <;> first | rfl | exact nomatch h

/-- Two computations come out alike: with related values, or with a fault and the moved one. -/
inductive Outcome (d : Nat) {α β : Type} (R : α → β → Prop) : Except Fault α → Except Fault β → Prop
  | ok {a b} (h : R a b) : Outcome d R (.ok a) (.ok b)
  | error (f : Fault) : Outcome d R (.error f) (.error (f.moved d))

namespace Outcome

variable {d : Nat} {α β γ δ : Type} {R : α → β → Prop} {S : γ → δ → Prop} {x : Except Fault α}
  {x' : Except Fault β}

theorem bind {f : α → Except Fault γ} {f' : β → Except Fault δ} (h : Outcome d R x x')
    (hf : ∀ a b, R a b → Outcome d S (f a) (f' b)) : Outcome d S (x >>= f) (x' >>= f') := by
  cases h with
  | ok h => exact hf _ _ h
  | error f => exact .error f

theorem map {f : α → γ} {f' : β → δ} (h : Outcome d R x x')
    (hf : ∀ a b, R a b → S (f a) (f' b)) : Outcome d S (x.map f) (x'.map f') := by
  cases h with
  | ok h => exact .ok (hf _ _ h)
  | error f => exact .error f

theorem mono {R' : α → β → Prop} (h : Outcome d R x x') (hR : ∀ a b, R a b → R' a b) :
    Outcome d R' x x' := by
  cases h with
  | ok h => exact .ok (hR _ _ h)
  | error f => exact .error f

/-- The two ways to come out alike. -/
theorem inv (h : Outcome d R x x') :
    (∃ f, x = .error f ∧ x' = .error (f.moved d)) ∨ ∃ a b, x = .ok a ∧ x' = .ok b ∧ R a b := by
  cases h with
  | ok h => exact .inr ⟨_, _, rfl, rfl, h⟩
  | error f => exact .inl ⟨f, rfl, rfl⟩

/-- What is not moved comes out alike. -/
theorem refl {R : α → α → Prop} (hR : ∀ a, R a a) (x : Except Fault α) : Outcome 0 R x x := by
  cases x with
  | ok a => exact .ok (hR a)
  | error f =>
    have h : Outcome 0 R (.error f) (.error (f.moved 0)) := .error f
    rwa [Fault.moved_zero] at h

end Outcome

/-! ### Scripts -/

namespace Script

/-- **The same script behind `d` more bytes.** -/
structure Moved (d : Nat) (s s' : Script) : Prop where
  data : ∃ front : Bytes, front.size = d ∧ s'.data = front ++ s.data
  entries : s'.entries = s.entries.map (· + d)

/-- Every byte that is the opcode of a sleep and not the last one is followed by the opcode of the
sleeping instruction. -/
def SleepsInPlace (s : Script) : Prop :=
  ∀ pc < s.data.size - 1, s.data[pc]? = some Opcode.sleep.toByte →
    s.data[pc + 1]? = some Opcode.sleeping.toByte

instance (s : Script) : Decidable s.SleepsInPlace := Nat.decidableBallLT _ _

theorem Moved.refl (s : Script) : s.Moved 0 s := ⟨⟨#[], rfl, by simp⟩, by simp⟩

/-- Bytes can be put in front of any script. -/
theorem ofParts_moved {code : Bytes} {entries : List Nat} {s : Script}
    (h : ofParts code entries = .ok s) (front : Bytes) :
    ∃ s', ofParts (front ++ code) (entries.map (· + front.size)) = .ok s' ∧
      s.Moved front.size s' := by
  obtain ⟨rfl, rfl⟩ := ofParts_eq_ok_iff.mp h
  have hlt : ∀ e ∈ s.entries.map (· + front.size), e < (front ++ s.data).size := by
    intro e he
    obtain ⟨e, hmem, rfl⟩ := List.mem_map.mp he
    have := s.entries_lt e hmem
    rw [Array.size_append]
    omega
  exact ⟨⟨_, _, hlt⟩, ofParts_eq_ok_iff.mpr ⟨rfl, rfl⟩, ⟨front, rfl, rfl⟩, rfl⟩

namespace Moved

variable {d : Nat} {s s' : Script} (hs : s.Moved d s')

include hs

theorem size : s'.data.size = s.data.size + d := by
  obtain ⟨front, hsize, hdata⟩ := hs.data
  rw [hdata, Array.size_append, hsize, Nat.add_comm]

theorem byte (pc : Nat) : s'.data[pc + d]? = s.data[pc]? := by
  obtain ⟨front, rfl, hdata⟩ := hs.data
  rw [hdata, Array.getElem?_append_right (by omega), Nat.add_sub_cancel]

theorem extract (pc size : Nat) :
    s'.data.extract (pc + d) (pc + d + size) = s.data.extract pc (pc + size) := by
  obtain ⟨front, rfl, hdata⟩ := hs.data
  rw [hdata, Array.extract_append, Array.extract_empty_of_size_le_start (by omega),
    Array.empty_append, Nat.add_sub_cancel, Nat.add_right_comm, Nat.add_sub_cancel]

/-- **Moved code is read as it was.** -/
theorem fetch (pc : Nat) : Outcome d Eq (s.fetch pc) (s'.fetch (pc + d)) := by
  unfold Script.fetch
  -- the bytes agree from here on, and so does how many of them are left
  rw [hs.byte pc, hs.size]
  cases s.data[pc]? with
  | none => exact .error (.pcOutOfRange pc s.data.size)
  | some byte =>
    simp only
    cases Opcode.ofByte? byte with
    | none => exact .error (.unknownOpcode byte pc)
    | some op =>
      simp only
      by_cases hle : pc + op.size ≤ s.data.size
      · rw [if_pos hle, if_pos (by omega), hs.extract]
        exact .ok rfl
      · rw [if_neg hle, if_neg (by omega)]
        exact .error (.truncated op pc s.data.size)

theorem fetch_ok {pc : Nat} {op : Opcode} {raw : Bytes} (h : s.fetch pc = .ok (op, raw)) :
    s'.fetch (pc + d) = .ok (op, raw) := by
  rcases (hs.fetch pc).inv with ⟨f, hx, -⟩ | ⟨x, x', hx, hx', rfl⟩
  · exact nomatch h.symm.trans hx
  · exact hx'.trans (hx.symm.trans h)

theorem fetch_error {pc : Nat} {f : Fault} (h : s.fetch pc = .error f) :
    s'.fetch (pc + d) = .error (f.moved d) := by
  rcases (hs.fetch pc).inv with ⟨g, hx, hx'⟩ | ⟨x, x', hx, -, -⟩
  · cases h.symm.trans hx
    exact hx'
  · exact nomatch h.symm.trans hx

theorem entry (index : Nat) :
    Outcome d (fun a a' => a' = a + d) (s.entry index) (s'.entry index) := by
  unfold Script.entry
  rw [hs.entries, List.getElem?_map]
  cases s.entries[index]? with
  | none => exact .error (.unknownEntry index)
  | some address => exact .ok rfl

end Moved

end Script

theorem Payload.decode_of_decodeAt {α : Type} [Payload α] {raw : Bytes} {pc : Nat} {p : α}
    (h : decodeAt α raw pc = .ok p) : decode α raw = .ok p := by
  unfold decodeAt at h
  cases hp : decode α raw with
  | error e => rw [hp] at h; exact nomatch h
  | ok q => rw [hp] at h; cases h; rfl

/-- The same place in moved code. -/
def Control.Arm.moved (d : Nat) : Arm → Arm
  | .body address => .body (address + d)
  | .behind address => .behind (address + d)

/-- **A switch finds the same arm in moved code.** -/
theorem Script.Moved.findArm {d : Nat} {s s' : Script} (hs : s.Moved d s') (value : Int32)
    (scan : Nat) :
    Outcome d (fun arm arm' => arm' = arm.moved d) (Control.findArm s value scan)
      (Control.findArm s' value (scan + d)) := by
  -- along the arms of the search in the code as it was
  fun_induction Control.findArm s value scan with
  | case1 scan f hf =>
    rw [Control.findArm, hs.fetch_error hf]
    exact .error f
  | case2 scan raw hf f hp =>
    obtain ⟨arm, harm⟩ := (whole_of_fetch hf).decode (α := CaseArm) (by decide)
    rw [decodeAt_of_decode harm] at hp
    cases hp
  | case3 scan raw hf arm hp hvalue =>
    rw [Control.findArm, hs.fetch_ok hf]
    simp only [decodeAt_of_decode (decode_of_decodeAt hp), if_pos hvalue]
    exact .ok (congrArg Control.Arm.body (Nat.add_right_comm scan d _))
  | case4 scan raw hf arm hp hvalue ih =>
    rw [Control.findArm.eq_def s' value, hs.fetch_ok hf]
    simp only [decodeAt_of_decode (decode_of_decodeAt hp), if_neg hvalue]
    rwa [show scan + d + Opcode.caseArm.size + arm.length.toNat =
      scan + Opcode.caseArm.size + arm.length.toNat + d by omega]
  | case5 scan raw hf =>
    rw [Control.findArm, hs.fetch_ok hf]
    exact .ok (congrArg Control.Arm.body (Nat.add_right_comm scan d _))
  | case6 scan raw hf =>
    rw [Control.findArm, hs.fetch_ok hf]
    exact .ok (congrArg Control.Arm.behind (Nat.add_right_comm scan d _))
  | case7 scan op raw hcase hdefault hend hf =>
    rw [Control.findArm, hs.fetch_ok hf]
    split
    · next h => cases h
    · next h => exact (hcase (Prod.mk.inj (Except.ok.inj h)).1).elim
    · next h => exact (hdefault (Prod.mk.inj (Except.ok.inj h)).1).elim
    · next h => exact (hend (Prod.mk.inj (Except.ok.inj h)).1).elim
    · next h =>
      cases h
      exact .error (.unexpectedSwitchOpcode op scan)

/-! ### Levels -/

/-- The same frame in moved code. -/
def Frame.moved (d : Nat) (f : Frame) : Frame :=
  { f with breakTo := f.breakTo + d, body := f.body + d }

/-- Up to a depth, the if blocks on two stacks end at the same place. -/
def BlocksMoved (d : Nat) (stack stack' : Vector Nat blockDepth) (depth : Int) : Prop :=
  ∀ k : Fin blockDepth, (k.val : Int) ≤ depth → stack'.get k = stack.get k + d

/-- Two frames of a loop or switch, on levels with the given block stacks. -/
structure FrameMoved (d : Nat) (stack stack' : Vector Nat blockDepth) (f f' : Frame) : Prop where
  eq : f' = f.moved d
  /-- The body of a loop is behind its header; a sleep has none. -/
  body_pos : 0 < f.body
  ifCounter_ge : -1 ≤ f.ifCounter
  /-- Leaving the loop brings these blocks back into use. -/
  blocks : BlocksMoved d stack stack' f.ifCounter

/-- **Two levels of which one is in moved code.** -/
structure Level.Moved (d : Nat) (l l' : Level) : Prop where
  ifCounter : l'.ifCounter = l.ifCounter
  loopLevel : l'.loopLevel = l.loopLevel
  ifCounter_ge : -1 ≤ l.ifCounter
  blocks : BlocksMoved d l.stack l'.stack l.ifCounter
  frame : ∀ k : Fin loopDepth, (k.val : Int) ≤ l.loopLevel →
    FrameMoved d l.stack l'.stack (l.frames.get k) (l'.frames.get k)

/-- Two levels on which the innermost frame is that of a sleep. -/
structure Level.Dozing (d : Nat) (l l' : Level) : Prop where
  loopLevel : l'.loopLevel = l.loopLevel
  /-- The frame has no addresses that could be moved. -/
  frame : ∀ k : Fin loopDepth, (k.val : Int) = l.loopLevel →
    l'.frames.get k = l.frames.get k ∧ (l.frames.get k).body = 0
  /-- The levels are as they should be once the frame is closed. -/
  closed : Level.Moved d { l with loopLevel := l.loopLevel - 1 }
    { l' with loopLevel := l'.loopLevel - 1 }

theorem BlocksMoved.set {d : Nat} {stack stack' : Vector Nat blockDepth} {depth : Int}
    (h : BlocksMoved d stack stack' depth) {i : Nat} (hi : i < blockDepth) (resume : Nat) :
    BlocksMoved d (stack.set i resume) (stack'.set i (resume + d)) depth := by
  intro k hk
  simp only [get_eq_getElem, Vector.getElem_set]
  split
  · rfl
  · exact h k hk

theorem FrameMoved.set {d : Nat} {stack stack' : Vector Nat blockDepth} {f f' : Frame}
    (h : FrameMoved d stack stack' f f') {i : Nat} (hi : i < blockDepth) (resume : Nat) :
    FrameMoved d (stack.set i resume) (stack'.set i (resume + d)) f f' :=
  { h with blocks := h.blocks.set hi resume }

namespace Level.Moved

variable {d : Nat} {l l' : Level}

theorem resetCounters (l l' : Level) : Level.Moved d l.resetCounters l'.resetCounters where
  ifCounter := rfl
  loopLevel := rfl
  ifCounter_ge := Int.le_refl _
  blocks := fun k hk => absurd hk (by simp [Level.resetCounters]; omega)
  frame := fun k hk => absurd hk (by simp [Level.resetCounters]; omega)

theorem openFrame? (h : Level.Moved d l l') : l'.openFrame? = l.openFrame? := by
  unfold Level.openFrame?
  simp only [h.loopLevel]

/-- Frames can be closed, and the slots they leave can hold anything. -/
theorem shrink (h : Level.Moved d l l') {frames frames' : Vector Frame loopDepth} {c c' : Int}
    (hc : c' = c) (hle : c ≤ l.loopLevel)
    (hkept : ∀ k : Fin loopDepth, (k.val : Int) ≤ c →
      frames.get k = l.frames.get k ∧ frames'.get k = l'.frames.get k) :
    Level.Moved d { l with loopLevel := c, frames := frames }
      { l' with loopLevel := c', frames := frames' } where
  ifCounter := h.ifCounter
  loopLevel := hc
  ifCounter_ge := h.ifCounter_ge
  blocks := h.blocks
  frame := by
    intro k hk
    obtain ⟨hget, hget'⟩ := hkept k hk
    simp only [hget, hget']
    exact h.frame k (Int.le_trans hk hle)

/-- The innermost frame can be closed. -/
theorem pop (h : Level.Moved d l l') :
    Level.Moved d { l with loopLevel := l.loopLevel - 1 }
      { l' with loopLevel := l'.loopLevel - 1 } :=
  h.shrink (by rw [h.loopLevel]) (Int.sub_le_self _ (by decide)) fun _ _ => ⟨rfl, rfl⟩

theorem openBlock (h : Level.Moved d l l') {i : Nat} (hi : i < blockDepth)
    (hidx : (i : Int) = l.ifCounter + 1) (resume : Nat) :
    Level.Moved d { l with stack := l.stack.set i resume, ifCounter := l.ifCounter + 1 }
      { l' with stack := l'.stack.set i (resume + d), ifCounter := l'.ifCounter + 1 } where
  ifCounter := by simp only [h.ifCounter]
  loopLevel := h.loopLevel
  ifCounter_ge := by simp only; omega
  blocks := by
    intro k hk
    simp only [get_eq_getElem, Vector.getElem_set]
    split
    · rfl
    -- any other block was in use before
    · exact h.blocks k (by simp only at hk; omega)
  frame := fun k hk => (h.frame k hk).set hi resume

theorem closeBlock (h : Level.Moved d l l') (hopen : 0 ≤ l.ifCounter) :
    Level.Moved d { l with ifCounter := l.ifCounter - 1 }
      { l' with ifCounter := l'.ifCounter - 1 } where
  ifCounter := by simp only [h.ifCounter]
  loopLevel := h.loopLevel
  ifCounter_ge := by simp only; omega
  blocks := fun k hk => h.blocks k (by simp only at hk; omega)
  frame := h.frame

/-- A frame in moved code can be opened where there is room for it. -/
theorem push (h : Level.Moved d l l') {f : Frame} {i : Nat} (hi : i < loopDepth)
    (hidx : (i : Int) = l.loopLevel + 1) (hbody : 0 < f.body) (hif : f.ifCounter = l.ifCounter) :
    Level.Moved d { l with frames := l.frames.set i f, loopLevel := l.loopLevel + 1 }
      { l' with frames := l'.frames.set i (f.moved d), loopLevel := l'.loopLevel + 1 } where
  ifCounter := h.ifCounter
  loopLevel := by simp only [h.loopLevel]
  ifCounter_ge := h.ifCounter_ge
  blocks := h.blocks
  frame := by
    intro k hk
    simp only [get_eq_getElem, Vector.getElem_set]
    split
    · exact ⟨rfl, hbody, hif ▸ h.ifCounter_ge, hif ▸ h.blocks⟩
    · exact h.frame k (by simp only at hk; omega)

theorem pushSleep (h : Level.Moved d l l') {i : Nat} (hi : i < loopDepth)
    (hidx : (i : Int) = l.loopLevel + 1) (counter : Int) :
    Level.Dozing d
      { l with frames := l.frames.set i { counter := counter }, loopLevel := l.loopLevel + 1 }
      { l' with
        frames := l'.frames.set i { counter := counter }, loopLevel := l'.loopLevel + 1 } where
  loopLevel := by simp only [h.loopLevel]
  frame := by
    intro k hk
    have hik : i = k.val := by simp only at hk; omega
    subst hik
    simp only [get_eq_getElem, Vector.getElem_set_self, and_self]
  closed := by
    refine h.shrink (by simp only [h.loopLevel]) (by simp only; omega) fun k hk => ?_
    -- the slots below are not the one that is written
    have hne : i ≠ k.val := by simp only at hk; omega
    simp only [get_eq_getElem, Vector.getElem_set_ne _ _ hne, and_self]

/-- With the innermost frame, the if blocks opened in it can be closed, and those closed in it come
back into use. -/
theorem leave (h : Level.Moved d l l') {k : Fin loopDepth} (hk : l.openFrame? = some k) :
    Level.Moved d
      { l with loopLevel := l.loopLevel - 1, ifCounter := (l.frames.get k).ifCounter }
      { l' with loopLevel := l'.loopLevel - 1, ifCounter := (l'.frames.get k).ifCounter } := by
  have hframe := h.frame k (Int.le_of_eq (Level.openFrame?_eq_some hk))
  -- the saved depth may be more than what is open now, and `hframe.blocks` is what there is to say
  -- about the blocks in between
  exact
    { ifCounter := by rw [hframe.eq]; rfl
      loopLevel := h.pop.loopLevel
      ifCounter_ge := hframe.ifCounter_ge
      blocks := hframe.blocks
      frame := h.pop.frame }

/-- The counter of the innermost frame can be set. -/
theorem count (h : Level.Moved d l l') {k : Fin loopDepth} (hk : l.openFrame? = some k)
    (counter : Int) :
    Level.Moved d
      { l with frames := l.frames.set k { l.frames.get k with counter := counter } k.isLt }
      { l' with frames := l'.frames.set k { l'.frames.get k with counter := counter } k.isLt } where
  ifCounter := h.ifCounter
  loopLevel := h.loopLevel
  ifCounter_ge := h.ifCounter_ge
  blocks := h.blocks
  frame := by
    intro j hj
    -- the slot that is counted in stands for the frame of a loop before and after
    have hframe := h.frame k (Int.le_of_eq (Level.openFrame?_eq_some hk))
    simp only [get_eq_getElem, Vector.getElem_set]
    split
    · refine ⟨?_, hframe.body_pos, hframe.ifCounter_ge, hframe.blocks⟩
      rw [show l'.frames[k.val] = _ from hframe.eq]
      rfl
    · exact h.frame j hj

end Level.Moved

namespace Level.Dozing

variable {d : Nat} {l l' : Level}

theorem openFrame? (h : Level.Dozing d l l') : l'.openFrame? = l.openFrame? := by
  unfold Level.openFrame?
  simp only [h.loopLevel]

theorem count (h : Level.Dozing d l l') {k : Fin loopDepth} (hk : l.openFrame? = some k)
    (counter : Int) :
    Level.Dozing d
      { l with frames := l.frames.set k { l.frames.get k with counter := counter } k.isLt }
      { l' with frames := l'.frames.set k { l'.frames.get k with counter := counter } k.isLt } where
  loopLevel := h.loopLevel
  frame := by
    intro j hj
    have hlevel := Level.openFrame?_eq_some hk
    have hjk : j = k := Fin.ext (by simp only at hj; omega)
    subst hjk
    have hframe := h.frame j hj
    simp only [get_eq_getElem, Vector.getElem_set_self] at hframe ⊢
    exact ⟨by rw [hframe.1], hframe.2⟩
  closed := by
    have hlevel := Level.openFrame?_eq_some hk
    refine h.closed.shrink h.closed.loopLevel (Int.le_refl _) fun j hj => ?_
    -- below the sleep there are only frames that it does not count in
    have hne : k.val ≠ j.val := by simp only at hj; omega
    simp only [get_eq_getElem, Vector.getElem_set_ne _ _ hne, and_self]

end Level.Dozing

/-! ### Threads -/

namespace Thread

/-- Two threads of which one is in moved code, apart from their current levels. -/
structure Aside (d : Nat) (t t' : Thread) : Prop where
  id : t'.id = t.id
  running : t'.running = t.running
  pc : t'.pc = t.pc + d
  sub : t'.sub = t.sub
  stackIndex : t'.stackIndex = t.stackIndex
  workSet : t'.workSet = t.workSet
  overridden : t'.overridden = t.overridden
  /-- The levels that are to be returned to. -/
  caller : ∀ s : Fin levelCount, s < t.sub → (t.levels.get s).Moved d (t'.levels.get s) ∧
    (t'.levels.get s).returnTo = (t.levels.get s).returnTo + d

/-- Two threads of which one is in moved code, with a relation on their current levels. -/
structure MovedWith (L : Level → Level → Prop) (d : Nat) (t t' : Thread) : Prop
    extends Aside d t t' where
  /-- The index into the block stack is the one that the current level stands for. -/
  index : (t.stackIndex : Int) = t.level.ifCounter + 1
  level : L t.level t'.level

/-- **The second thread stands in moved code just as the first one in the code as it was.** In code
that is not moved, a thread stands as it does itself, whatever there is in its slots. -/
def Awake (d : Nat) (t t' : Thread) : Prop := MovedWith (Level.Moved d) d t t' ∨ d = 0 ∧ t' = t

/-- The same of two threads that sleep. -/
abbrev Dozing (d : Nat) (t t' : Thread) : Prop := MovedWith (Level.Dozing d) d t t'

theorem Awake.refl (t : Thread) : Awake 0 t t := .inr ⟨rfl, rfl⟩

namespace Aside

variable {d : Nat} {t t' : Thread} {L : Level → Level → Prop}

/-- What is asked of the current levels can be asked of any that are put in their place. -/
theorem withLevel (h : Aside d t t') {l l' : Level} (hl : L l l') {i i' : Nat} (hi' : i' = i)
    (hidx : (i : Int) = l.ifCounter + 1) :
    MovedWith L d { t.setLevel l with stackIndex := i }
      { t'.setLevel l' with stackIndex := i' } where
  id := h.id
  running := h.running
  pc := h.pc
  sub := h.sub
  stackIndex := hi'
  workSet := h.workSet
  overridden := h.overridden
  caller := by
    intro s hs
    -- a level to return to is not the current one, which is all that is written
    have hne : s ≠ t.sub := Fin.ne_of_lt hs
    have hne' : s ≠ t'.sub := by rw [h.sub]; exact hne
    have hget : (t.setLevel l).levels.get s = t.levels.get s := by
      rw [levels_setLevel, if_neg hne]
    have hget' : (t'.setLevel l').levels.get s = t'.levels.get s := by
      rw [levels_setLevel, if_neg hne']
    simp only [hget, hget']
    exact h.caller s hs
  index := by
    change (i : Int) = (t.setLevel l).level.ifCounter + 1
    rw [level_setLevel, hidx]
  level := by
    change L (t.setLevel l).level (t'.setLevel l').level
    rw [level_setLevel, level_setLevel]
    exact hl

theorem jump (h : Aside d t t') {pc pc' : Nat} (hpc : pc' = pc + d) :
    Aside d (t.jump pc) (t'.jump pc') :=
  { h with pc := hpc, overridden := rfl }

end Aside

namespace MovedWith

variable {d : Nat} {t t' : Thread} {L L₂ : Level → Level → Prop}

theorem setLevel (h : MovedWith L d t t') {l l' : Level} (hl : L₂ l l')
    (hif : l.ifCounter = t.level.ifCounter) :
    MovedWith L₂ d (t.setLevel l) (t'.setLevel l') :=
  h.toAside.withLevel hl h.stackIndex (by rw [h.index, hif])

theorem jump (h : MovedWith L d t t') {pc pc' : Nat} (hpc : pc' = pc + d) :
    MovedWith L d (t.jump pc) (t'.jump pc') :=
  { h.toAside.jump hpc with index := h.index, level := h.level }

theorem ready (h : MovedWith L d t t') : MovedWith L d t.ready t'.ready :=
  { h with overridden := rfl }

theorem halt (h : MovedWith L d t t') : MovedWith L d t.halt t'.halt := { h with running := rfl }

theorem moveOn (h : MovedWith L d t t') (size : Nat) :
    MovedWith L d (t.moveOn size) (t'.moveOn size) :=
  { h with
    overridden := rfl
    pc := by
      simp only [Thread.moveOn, h.overridden, h.pc]
      split
      · rfl
      · exact Nat.add_right_comm t.pc d size }

/-! Opening, counting and closing change one slot of the levels. What this makes of a pair of levels
is asked for, so that it can be a pair of loops, of sleeps, or one that has just woken up. -/

theorem pushLoop {f f' : Frame} (h : MovedWith (Level.Moved d) d t t')
    (hpush : ∀ {i : Nat} (hi : i < loopDepth), (i : Int) = t.level.loopLevel + 1 →
      L { t.level with
          frames := t.level.frames.set i f hi, loopLevel := t.level.loopLevel + 1 }
        { t'.level with
          frames := t'.level.frames.set i f' hi, loopLevel := t'.level.loopLevel + 1 }) :
    Outcome d (MovedWith L d) (t.pushLoop f) (t'.pushLoop f') := by
  have hlevels := h.level.loopLevel
  unfold Thread.pushLoop
  simp only [h.pc, hlevels] at hpush ⊢
  by_cases hlow : t.level.loopLevel + 1 < 0
  · rw [if_pos hlow, if_pos hlow]
    exact .error (.loopUnderflow t.pc)
  · rw [if_neg hlow, if_neg hlow]
    split
    · next hroom =>
      exact .ok (h.setLevel (hpush hroom (Int.toNat_of_nonneg (Int.not_lt.mp hlow))) rfl)
    · exact .error (.loopOverflow t.pc)

theorem setCounter (h : MovedWith L d t t') (hopen : t'.level.openFrame? = t.level.openFrame?)
    (counter : Int)
    (hcount : ∀ k, t.level.openFrame? = some k →
      L { t.level with
          frames := t.level.frames.set k { t.level.frames.get k with counter := counter } k.isLt }
        { t'.level with
          frames := t'.level.frames.set k { t'.level.frames.get k with counter := counter }
            k.isLt }) :
    Outcome d (MovedWith L d) (t.setCounter counter) (t'.setCounter counter) := by
  unfold Thread.setCounter
  simp only [hopen, h.pc]
  cases hk : t.level.openFrame? with
  | none => exact .error (.loopUnderflow t.pc)
  | some k => exact .ok (h.setLevel (hcount k hk) rfl)

theorem currentLoop {R : Frame → Frame → Prop} (h : MovedWith L d t t')
    (hopen : t'.level.openFrame? = t.level.openFrame?)
    (hframe : ∀ k, t.level.openFrame? = some k → R (t.level.frames.get k) (t'.level.frames.get k)) :
    Outcome d R t.currentLoop t'.currentLoop := by
  cases hk : t.level.openFrame? with
  | none =>
    rw [currentLoop_of_none hk, currentLoop_of_none (hopen.trans hk), h.pc]
    exact .error (.loopUnderflow t.pc)
  | some k =>
    rw [currentLoop_of_open hk, currentLoop_of_open (hopen.trans hk)]
    exact .ok (hframe k hk)

theorem popLoop (h : MovedWith L d t t') (hopen : t'.level.openFrame? = t.level.openFrame?)
    (hclose : L₂ { t.level with loopLevel := t.level.loopLevel - 1 }
      { t'.level with loopLevel := t'.level.loopLevel - 1 }) :
    Outcome d (fun x x' => MovedWith L₂ d x.2 x'.2) t.popLoop t'.popLoop := by
  unfold Thread.popLoop Level.currentLoop?
  simp only [hopen, h.pc]
  cases t.level.openFrame? with
  | none => exact .error (.loopUnderflow t.pc)
  | some k => exact .ok (h.setLevel hclose rfl)

end MovedWith

/-- On the level of a subroutine, the calling level is one more of those to return to. -/
theorem MovedWith.call {d : Nat} {t t' : Thread} (h : MovedWith (Level.Moved d) d t t')
    (hlt : t.sub.val + 1 < levelCount) (hlt' : t'.sub.val + 1 < levelCount) (returnTo : Nat) :
    Aside d
      { t.setLevel { t.level with returnTo := returnTo } with
        sub := ⟨t.sub.val + 1, hlt⟩, stackIndex := 0 }
      { t'.setLevel { t'.level with returnTo := returnTo + d } with
        sub := ⟨t'.sub.val + 1, hlt'⟩, stackIndex := 0 } where
  id := h.id
  running := h.running
  pc := h.pc
  sub := by simp only [h.sub]
  stackIndex := rfl
  workSet := h.workSet
  overridden := h.overridden
  caller := by
    intro s hs
    have hle : s.val ≤ t.sub.val := Nat.le_of_lt_succ hs
    simp only [levels_setLevel, h.sub]
    by_cases hsub : s = t.sub
    -- a level does not know where it returns to while it is the current one
    · rw [if_pos hsub, if_pos hsub]
      exact ⟨⟨h.level.ifCounter, h.level.loopLevel, h.level.ifCounter_ge, h.level.blocks,
        h.level.frame⟩, rfl⟩
    · rw [if_neg hsub, if_neg hsub]
      exact h.caller s (Fin.lt_def.mpr (by omega))

/-- Back on a calling level, the thread is where that level says. -/
theorem Aside.resume {d : Nat} {t t' : Thread} (h : Aside d t t') {s s' : Fin levelCount}
    (hs : s < t.sub) (hs' : s' = s) :
    MovedWith (Level.Moved d) d
      (({ t with sub := s } : Thread).syncStackIndex.jump (t.levels.get s).returnTo)
      (({ t' with sub := s' } : Thread).syncStackIndex.jump (t'.levels.get s').returnTo) := by
  subst hs'
  obtain ⟨hlevel, hreturn⟩ := h.caller s' hs
  have hge := hlevel.ifCounter_ge
  exact
    { id := h.id
      running := h.running
      pc := hreturn
      sub := rfl
      stackIndex := congrArg (fun c : Int => (c + 1).toNat) hlevel.ifCounter
      workSet := h.workSet
      overridden := rfl
      caller := fun r hr => h.caller r (Fin.lt_trans hr hs)
      index := Int.toNat_of_nonneg (by change 0 ≤ (t.levels.get s').ifCounter + 1; omega)
      level := hlevel }

theorem level_activate (t : Thread) (pc : Nat) :
    (t.activate pc).level = (t.levels.get 0).resetCounters := by
  simp [Thread.activate, Thread.jump, Thread.level, get_eq_getElem]

/-- A thread that is started forgets everything but its id and its selection. -/
theorem MovedWith.activate {d : Nat} {t t' : Thread} (hid : t'.id = t.id)
    (hwork : t'.workSet = t.workSet) {pc pc' : Nat} (hpc : pc' = pc + d) :
    MovedWith (Level.Moved d) d (t.activate pc) (t'.activate pc') where
  id := hid
  running := rfl
  pc := hpc
  sub := rfl
  stackIndex := rfl
  workSet := hwork
  overridden := rfl
  caller := fun s hs => absurd hs (Fin.not_lt_zero s)
  index := by rw [level_activate]; rfl
  level := by
    rw [level_activate, level_activate]
    exact .resetCounters _ _

namespace Awake

variable {d : Nat} {t t' : Thread}

theorem pc (h : Awake d t t') : t'.pc = t.pc + d := by
  rcases h with h | ⟨rfl, rfl⟩
  · exact h.pc
  · rfl

theorem id (h : Awake d t t') : t'.id = t.id := by
  rcases h with h | ⟨-, rfl⟩
  · exact h.id
  · rfl

theorem workSet (h : Awake d t t') : t'.workSet = t.workSet := by
  rcases h with h | ⟨-, rfl⟩
  · exact h.workSet
  · rfl

theorem running (h : Awake d t t') : t'.running = t.running := by
  rcases h with h | ⟨-, rfl⟩
  · exact h.running
  · rfl

theorem ifCounter (h : Awake d t t') : t'.level.ifCounter = t.level.ifCounter := by
  rcases h with h | ⟨-, rfl⟩
  · exact h.level.ifCounter
  · rfl

theorem openFrame? (h : Awake d t t') : t'.level.openFrame? = t.level.openFrame? := by
  rcases h with h | ⟨-, rfl⟩
  · exact h.level.openFrame?
  · rfl

/-! ### Scheduling -/

theorem ready (h : Awake d t t') : Awake d t.ready t'.ready :=
  h.imp (·.ready) fun ⟨hd, heq⟩ => ⟨hd, by rw [heq]⟩

theorem halt (h : Awake d t t') : Awake d t.halt t'.halt :=
  h.imp (·.halt) fun ⟨hd, heq⟩ => ⟨hd, by rw [heq]⟩

theorem moveOn (h : Awake d t t') (size : Nat) : Awake d (t.moveOn size) (t'.moveOn size) :=
  h.imp (·.moveOn size) fun ⟨hd, heq⟩ => ⟨hd, by rw [heq]⟩

theorem jump (h : Awake d t t') {pc pc' : Nat} (hpc : pc' = pc + d) :
    Awake d (t.jump pc) (t'.jump pc') :=
  h.imp (·.jump hpc) fun ⟨hd, heq⟩ => ⟨hd, by rw [heq, hpc, hd, Nat.add_zero]⟩

theorem place (h : Awake d t t') {pc pc' : Nat} (hpc : pc' = pc + d) :
    Awake d { t with pc := pc } { t' with pc := pc' } :=
  h.imp (fun h => { h with pc := hpc }) fun ⟨hd, heq⟩ => ⟨hd, by rw [heq, hpc, hd, Nat.add_zero]⟩

theorem select (h : Awake d t t') (w : WorkSet) :
    Awake d { t with workSet := w } { t' with workSet := w } :=
  h.imp (fun h => { h with workSet := rfl }) fun ⟨hd, heq⟩ => ⟨hd, by rw [heq]⟩

/-! ### If blocks -/

theorem pushBlock (h : Awake d t t') (resume : Nat) :
    Outcome d (Awake d) (t.pushBlock resume) (t'.pushBlock (resume + d)) := by
  rcases h with h | ⟨rfl, rfl⟩
  · unfold Thread.pushBlock
    by_cases hlt : t.stackIndex < blockDepth
    · have hlt' : t'.stackIndex < blockDepth := h.stackIndex ▸ hlt
      rw [dif_pos hlt, dif_pos hlt']
      simp only [h.stackIndex]
      exact .ok (.inl (h.toAside.withLevel (h.level.openBlock hlt h.index resume) rfl
        (by have := h.index; push_cast; omega)))
    · rw [dif_neg hlt, dif_neg (h.stackIndex ▸ hlt), h.pc]
      exact .error (.blockStackOverflow t.pc)
  · exact .refl .refl _

theorem popBlock (h : Awake d t t') :
    Awake d t.popBlock.1 t'.popBlock.1 ∧
      Outcome d (fun a a' => a' = a + d) t.popBlock.2 t'.popBlock.2 := by
  rcases h with h | ⟨rfl, rfl⟩
  · unfold Thread.popBlock
    rw [h.stackIndex, h.pc]
    by_cases hzero : t.stackIndex = 0
    · rw [if_pos hzero, if_pos hzero]
      exact ⟨.inl h, .error (.emptyBlockStack t.pc)⟩
    · rw [if_neg hzero, if_neg hzero]
      have hopen : 0 ≤ t.level.ifCounter := by have := h.index; omega
      refine ⟨.inl (h.toAside.withLevel (h.level.closeBlock hopen) rfl
        (by have := h.index; simp only; omega)), ?_⟩
      simp only
      by_cases hlt : t.stackIndex - 1 < blockDepth
      -- the innermost block is in use, so it ends at a moved address
      · have hslot := h.level.blocks ⟨t.stackIndex - 1, hlt⟩ (by have := h.index; simp only; omega)
        rw [Vector.getElem?_eq_getElem hlt, Vector.getElem?_eq_getElem hlt]
        exact .ok hslot
      · rw [Vector.getElem?_eq_none (by omega), Vector.getElem?_eq_none (by omega)]
        exact .error (.emptyBlockStack t.pc)
  · exact ⟨.refl _, .refl (fun _ => by rfl) _⟩

/-! ### Loop frames -/

theorem pushLoop (h : Awake d t t') {f : Frame} (hbody : 0 < f.body)
    (hif : f.ifCounter = t.level.ifCounter) :
    Outcome d (Awake d) (t.pushLoop f) (t'.pushLoop (f.moved d)) := by
  rcases h with h | ⟨rfl, rfl⟩
  · exact (MovedWith.pushLoop h fun hi hidx => h.level.push hi hidx hbody hif).mono
      fun _ _ => .inl
  · exact .refl .refl _

theorem currentLoop (h : Awake d t t') :
    Outcome d (fun f f' => f' = f.moved d) t.currentLoop t'.currentLoop := by
  rcases h with h | ⟨rfl, rfl⟩
  · exact MovedWith.currentLoop h h.level.openFrame? fun k hk =>
      (h.level.frame k (Int.le_of_eq (Level.openFrame?_eq_some hk))).eq
  · exact .refl (fun _ => by rfl) _

theorem setCounter (h : Awake d t t') (counter : Int) :
    Outcome d (Awake d) (t.setCounter counter) (t'.setCounter counter) := by
  rcases h with h | ⟨rfl, rfl⟩
  · exact (MovedWith.setCounter h h.level.openFrame? counter fun k hk =>
      h.level.count hk counter).mono fun _ _ => .inl
  · exact .refl .refl _

theorem popLoop (h : Awake d t t') :
    Outcome d (fun x x' => Awake d x.2 x'.2) t.popLoop t'.popLoop := by
  rcases h with h | ⟨rfl, rfl⟩
  · exact (MovedWith.popLoop h h.level.openFrame? h.level.pop).mono fun _ _ => .inl
  · exact .refl (fun _ => .refl _) _

theorem breakOut (h : Awake d t t') {k : Fin loopDepth} (hk : t.level.openFrame? = some k) :
    Awake d (t.breakOut (t.level.frames.get k)) (t'.breakOut (t'.level.frames.get k)) := by
  rcases h with h | ⟨rfl, rfl⟩
  · have hframe := h.level.frame k (Int.le_of_eq (Level.openFrame?_eq_some hk))
    have hge := hframe.ifCounter_ge
    have hleave := h.level.leave hk
    refine .inl (MovedWith.jump ?_ (by rw [hframe.eq]; rfl))
    refine h.toAside.withLevel hleave ?_ ?_
    · rw [level_setLevel, level_setLevel, hleave.ifCounter]
    · rw [level_setLevel]
      exact Int.toNat_of_nonneg (by simp only; omega)
  · exact .refl _

/-! ### Subroutines -/

theorem enterSubroutine (h : Awake d t t') (returnTo : Nat) {target target' : Nat}
    (htarget : target' = target + d) :
    Outcome d (Awake d) (t.enterSubroutine returnTo target)
      (t'.enterSubroutine (returnTo + d) target') := by
  subst htarget
  rcases h with h | ⟨rfl, rfl⟩
  · unfold Thread.enterSubroutine
    by_cases hlt : t.sub.val + 1 < levelCount
    · rw [dif_pos hlt, dif_pos (h.sub ▸ hlt)]
      refine .ok (.inl (MovedWith.jump ?_ rfl))
      exact (h.call hlt (h.sub ▸ hlt) returnTo).withLevel (Level.Moved.resetCounters _ _) rfl rfl
    · rw [dif_neg hlt, dif_neg (h.sub ▸ hlt), h.pc]
      exact .error (.subLevelOverflow t.pc)
  · exact .refl .refl _

theorem leaveSubroutine (h : Awake d t t') :
    (t.leaveSubroutine = none ∧ t'.leaveSubroutine = none) ∨
      ∃ u u', t.leaveSubroutine = some u ∧ t'.leaveSubroutine = some u' ∧ Awake d u u' := by
  rcases h with h | ⟨rfl, rfl⟩
  · unfold Thread.leaveSubroutine
    by_cases hzero : t.sub.val = 0
    · exact .inl ⟨by rw [if_pos hzero], by rw [if_pos (h.sub ▸ hzero)]⟩
    · rw [if_neg hzero, if_neg (h.sub ▸ hzero)]
      refine .inr ⟨_, _, rfl, rfl, .inl (h.toAside.resume ?_ ?_)⟩
      · exact Fin.lt_def.mpr (by simp only; omega)
      · simp only [h.sub]
  · cases t'.leaveSubroutine with
    | none => exact .inl ⟨rfl, rfl⟩
    | some u => exact .inr ⟨u, u, rfl, rfl, .refl u⟩

/-! ### Following the flow -/

theorem follow (h : Awake d t t') (flow : Flow) :
    Awake d (t.follow flow).1 (t'.follow flow).1 ∧
      Outcome d Eq (t.follow flow).2 (t'.follow flow).2 := by
  cases flow with
  | next => exact ⟨h, .ok rfl⟩
  | halt => exact ⟨h, .ok rfl⟩
  | unwind =>
    unfold Thread.follow
    -- both have a block to go back to, or neither has
    simp only [h.ifCounter]
    split
    · exact ⟨h, .ok rfl⟩
    · obtain ⟨hthread, hresume⟩ := h.popBlock
      rcases hp : t.popBlock with ⟨u, x⟩
      rcases hp' : t'.popBlock with ⟨u', x'⟩
      rw [hp, hp'] at hthread hresume
      cases hresume with
      | error f => exact ⟨hthread, .error f⟩
      | ok hresume => exact ⟨hthread.place hresume, .ok rfl⟩

end Awake

/-! ### Sleeping -/

/-- Two threads that may sleep, one of them in moved code. -/
def Paired (d : Nat) (t t' : Thread) : Prop := Awake d t t' ∨ Dozing d t t'

theorem Awake.pushSleep {d : Nat} {t t' : Thread} (h : Awake d t t') (counter : Int) :
    Outcome d (Paired d) (t.pushLoop { counter := counter })
      (t'.pushLoop { counter := counter }) := by
  rcases h with h | ⟨rfl, rfl⟩
  · exact (MovedWith.pushLoop h fun hi hidx => h.level.pushSleep hi hidx counter).mono
      fun _ _ => .inr
  · exact .refl (fun _ => .inl (.refl _)) _

/-- Counting a tick does not end a sleep. -/
theorem Dozing.setCounter {d : Nat} {t t' : Thread} (h : Dozing d t t') (counter : Int) :
    Outcome d (Dozing d) (t.setCounter counter) (t'.setCounter counter) :=
  MovedWith.setCounter h h.level.openFrame? counter fun _ hk => h.level.count hk counter

namespace Paired

variable {d : Nat} {t t' : Thread}

theorem pc (h : Paired d t t') : t'.pc = t.pc + d := h.elim (·.pc) (·.pc)

theorem currentLoop (h : Paired d t t') :
    Outcome d (fun f f' => f'.counter = f.counter) t.currentLoop t'.currentLoop := by
  rcases h with h | h
  · exact h.currentLoop.mono fun _ _ heq => by rw [heq]; rfl
  -- the frame of a sleep knows no address: only its count is to agree
  · refine MovedWith.currentLoop h h.level.openFrame? fun k hk => ?_
    rw [(h.level.frame k (Level.openFrame?_eq_some hk)).1]

/-- Closing the innermost frame ends a sleep. -/
theorem popLoop (h : Paired d t t') :
    Outcome d (fun x x' => Awake d x.2 x'.2) t.popLoop t'.popLoop := by
  rcases h with h | h
  · exact h.popLoop
  · exact (MovedWith.popLoop h h.level.openFrame? h.level.closed).mono fun _ _ => .inl

end Paired

end Thread

end RoomScript
