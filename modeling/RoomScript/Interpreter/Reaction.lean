import RoomScript.Host
import RoomScript.Pool
import RoomScript.Script

/-!
# Reactions

Executing an instruction is a function from where it stands to what comes of it. A `Site` is the
former: the script, the pool of threads and the thread whose turn it is. A `Reaction` is the latter:
the pool afterwards, the writes asked of the host, notices, and either a fault or how to go on. The
host itself can only be read while an instruction is executed; its writes are carried out
afterwards.
-/

namespace RoomScript

/-- How a thread goes on after an instruction. -/
inductive Flow
  /-- With the next instruction. -/
  | next
  /-- At the end of the innermost if block: a condition failed. -/
  | unwind
  /-- Not before the next pass. -/
  | halt
  deriving DecidableEq, Repr

/-- A condition that fails leaves the block it stands in. -/
def Flow.ofCondition (passed : Bool) : Flow := if passed then .next else .unwind

/-- Where an instruction is executed, in a pool of `n` threads. -/
structure Site (n : Nat) where
  script : Script
  pool : Pool n
  current : Fin n

/-- What an instruction does. -/
structure Reaction (n : Nat) where
  /-- The threads afterwards, also when the instruction faults. -/
  pool : Pool n
  /-- The writes asked of the host, in order. -/
  writes : List Write := []
  /-- What there is to say, before the host has its say about the writes. -/
  notices : List Notice := []
  result : Except Fault Flow

namespace Site

variable {n : Nat}

/-- The thread whose turn it is. -/
def thread (site : Site n) : Thread := site.pool.thread site.current

/-- The address of the instruction. -/
def pc (site : Site n) : Nat := site.thread.pc

/-- The pool with the current thread replaced. -/
def replace (site : Site n) (t : Thread) : Pool n := site.pool.replace site.current t

/-- A fault that leaves every thread as it was. -/
def fault (site : Site n) (f : Fault) : Reaction n := { pool := site.pool, result := .error f }

/-- Leaves every thread as it is, and asks for writes. -/
def ask (site : Site n) (writes : List Write) (notices : List Notice := []) : Reaction n :=
  { pool := site.pool, writes := writes, notices := notices, result := .ok .next }

/-- Goes on as told, with nothing else done. -/
def goOn (site : Site n) (flow : Flow) (notices : List Notice := []) : Reaction n :=
  { pool := site.pool, notices := notices, result := .ok flow }

/-- Replaces the current thread and goes on as told. -/
def become (site : Site n) (t : Thread) (flow : Flow) (notices : List Notice := []) : Reaction n :=
  { pool := site.replace t, notices := notices, result := .ok flow }

/-- Replaces the current thread, or faults and leaves it. -/
def attempt (site : Site n) (t : Except Fault Thread) (flow : Flow) : Reaction n :=
  match t with
  | .ok t => site.become t flow
  | .error f => site.fault f

end Site

/-- What executes the instructions of an opcode, given all their bytes. -/
structure Handler where
  run : {n : Nat} → Site n → Host.View → Bytes → Reaction n

namespace Handler

/-- Goes on as told, and does nothing. -/
def always (flow : Flow) : Handler := ⟨fun site _ _ => site.goOn flow⟩

/-- Does not look at the payload. -/
def bare (run : {n : Nat} → Site n → Reaction n) : Handler := ⟨fun site _ _ => run site⟩

/-- Reads the payload first, and faults if it cannot be read. -/
def reading (α : Type) [Payload α] (run : {n : Nat} → Site n → Host.View → α → Reaction n) :
    Handler :=
  ⟨fun site view raw =>
    match Payload.decodeAt α raw site.pc with
    | .ok payload => run site view payload
    | .error f => site.fault f⟩

end Handler

end RoomScript
