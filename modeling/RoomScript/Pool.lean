import RoomScript.Thread

/-!
# Thread pools

The threads that run side by side, each at its own place. Nothing else is known of a pool than which
thread stands where.

**Main statements.** `Pool.thread_replace` and `Pool.thread_replace_of_ne`: replacing a thread
changes its own place and no other. `Pool.ext`: a pool is what stands at its places.
-/

namespace RoomScript

/-- A pool of `n` threads. -/
abbrev Pool (n : Nat) := Vector Thread n

namespace Pool

variable {n : Nat}

/-- Idle threads, each with its place as its id. -/
def idle (n : Nat) : Pool n := Vector.ofFn fun i => .idle i

/-- The thread at a place. -/
def thread (p : Pool n) (i : Fin n) : Thread := p[i]

/-- Puts a thread at a place. -/
def replace (p : Pool n) (i : Fin n) (t : Thread) : Pool n := p.set i t

/-- Changes the thread at a place. -/
def modify (p : Pool n) (i : Fin n) (f : Thread → Thread) : Pool n := p.replace i (f (p.thread i))

/-- Makes every thread idle. -/
def halt (p : Pool n) : Pool n := p.map Thread.halt

/-- The first place with an idle thread. -/
def firstIdle? (p : Pool n) : Option (Fin n) :=
  (List.finRange n).find? fun i => !(p.thread i).running

/-- The threads that run, in the order of their places. -/
def running (p : Pool n) : List Thread := p.toList.filter (·.running)

@[simp] theorem thread_idle (i : Fin n) : (idle n).thread i = .idle i := by
  simp [idle, thread]

@[simp] theorem thread_replace (p : Pool n) (i : Fin n) (t : Thread) :
    (p.replace i t).thread i = t := by
  simp [thread, replace]

theorem thread_replace_of_ne (p : Pool n) {i j : Fin n} (t : Thread) (h : j ≠ i) :
    (p.replace i t).thread j = p.thread j := by
  have hne : i.val ≠ j.val := fun e => h (Fin.ext e.symm)
  simp [thread, replace, Vector.getElem_set_ne, hne]

@[simp] theorem thread_modify (p : Pool n) (i : Fin n) (f : Thread → Thread) :
    (p.modify i f).thread i = f (p.thread i) := thread_replace p i _

@[simp] theorem thread_halt (p : Pool n) (i : Fin n) : p.halt.thread i = (p.thread i).halt := by
  simp [halt, thread]

protected theorem ext {p q : Pool n} (h : ∀ i, p.thread i = q.thread i) : p = q :=
  Vector.ext fun i hi => h ⟨i, hi⟩

end Pool

end RoomScript
