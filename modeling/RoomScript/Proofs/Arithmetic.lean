import Mathlib.Data.Int.Bitwise
import Mathlib.Data.Int.ModEq
import RoomScript.Proofs.Run
import RoomScript.Session

/-!
# The arithmetic of variables

Variables are 32-bit words, and what a script wants calculated is said in whole numbers: a sum, a
quotient, a shift. `Calculator.Exact` is the whole number that an operation stands for. It is told
without words and without wrapping: quotients are rounded toward zero, remainders have the sign of
the dividend, bits are those of two's complement without end, and a shift goes by a number of places
that counts modulo 32 and is never negative.

The calculator gives the one word that is congruent to that number. It refuses an operation that
does not exist, and a division by zero, and nothing else; the quotient that is too large for a word
is no exception.

An instruction takes its first operand from the variable it changes, and the second one from its own
bytes or from another variable, which may be the same. Both are read before anything is written.

**Main statements.** `Calculator.calculate_eq_ok_iff` and `Calculator.calculate_eq_error_iff`: what
the calculator answers. `Machine.turn_calculation`: what an instruction makes of the calculator's
answer. `Calculator.calculates_exactly` puts them together.
-/

namespace RoomScript

open Payload

namespace Calculator

/-! ### Operations on whole numbers -/

/-- How many places a shift goes: it counts modulo 32, also if it is negative. -/
def places (y : Int) : Nat := (y % 32).toNat

/-- **The whole number that an operation stands for.** -/
inductive Exact (x y : Int) : (operation : Nat) → Int → Prop
  | sum : Exact x y 0 (x + y)
  | difference : Exact x y 1 (x - y)
  | product : Exact x y 2 (x * y)
  /-- The quotient is rounded toward zero. -/
  | quotient (hy : y ≠ 0) : Exact x y 3 (x.tdiv y)
  /-- The remainder is what that quotient leaves. -/
  | remainder {r : Int} (hr : x = y * x.tdiv y + r) (hlt : r.natAbs < y.natAbs)
      (hpos : 0 ≤ x → 0 ≤ r) (hneg : x ≤ 0 → r ≤ 0) : Exact x y 4 r
  | or {z : Int} (h : ∀ k, z.testBit k = (x.testBit k || y.testBit k)) : Exact x y 5 z
  | and {z : Int} (h : ∀ k, z.testBit k = (x.testBit k && y.testBit k)) : Exact x y 6 z
  | xor {z : Int} (h : ∀ k, z.testBit k = (x.testBit k ^^ y.testBit k)) : Exact x y 7 z
  | complement : Exact x y 8 (-x - 1)
  | leftShift : Exact x y 9 (x * 2 ^ places y)
  /-- A shift to the right rounds down. -/
  | rightShift : Exact x y 10 (x.fdiv (2 ^ places y))
  | signedShift : Exact x y 11 (x.fdiv (2 ^ places y))

/-- **The faults of an operation**, given its second operand. -/
inductive Refuses (operation : UInt8) (y : Int) : Fault → Prop
  | unknown (h : 12 ≤ operation.toNat) : Refuses operation y (.invalidCalcOperation operation)
  | zero (h : operation.toNat = 3 ∨ operation.toNat = 4) (hy : y = 0) :
    Refuses operation y (.divisionByZero operation)

/-- An operation is refused for one reason only. -/
theorem Refuses.unique {operation : UInt8} {y : Int} {f f' : Fault} (h : Refuses operation y f)
    (h' : Refuses operation y f') : f = f' := by
  cases h with
  | unknown hlarge =>
    cases h' with
    | unknown => rfl
    | zero hdivides => omega
  | zero hdivides =>
    cases h' with
    | unknown hlarge => omega
    | zero => rfl

/-- Far enough to the left there is nothing but the sign. -/
theorem exists_testBit_ne (a b : Nat) :
    ∃ k, (Int.ofNat a).testBit k ≠ (Int.negSucc b).testBit k := by
  have hfar (c : Nat) (hc : c ≤ max a b) : c.testBit (max a b) = false :=
    Nat.testBit_lt_two_pow (Nat.lt_of_lt_of_le Nat.lt_two_pow_self
      (Nat.pow_le_pow_right (by decide) hc))
  refine ⟨max a b, ?_⟩
  simp [Int.testBit, hfar a (Nat.le_max_left a b), hfar b (Nat.le_max_right a b)]

/-- A whole number is told by its binary digits. -/
theorem eq_of_testBit {x y : Int} (h : ∀ k, x.testBit k = y.testBit k) : x = y := by
  cases x with
  | ofNat a =>
    cases y with
    | ofNat b => rw [Nat.eq_of_testBit_eq h]
    | negSucc b =>
      obtain ⟨k, hk⟩ := exists_testBit_ne a b
      exact absurd (h k) hk
  | negSucc a =>
    cases y with
    | ofNat b =>
      obtain ⟨k, hk⟩ := exists_testBit_ne b a
      exact absurd (h k).symm hk
    | negSucc b => rw [Nat.eq_of_testBit_eq fun k => Bool.not_inj (h k)]

namespace Exact

variable {x y z z' : Int} {operation : Nat}

/-- **An operation stands for one number only.** -/
theorem unique (h : Exact x y operation z) (h' : Exact x y operation z') : z = z' := by
  -- most results are given as a term; the others are told by what divides them, or by their digits
  cases h with
  | sum | difference | product | quotient | complement | leftShift | rightShift | signedShift =>
    cases h'
    rfl
  | remainder hr =>
    cases h' with
    | remainder hr' => omega
  | or h =>
    cases h' with
    | or h' => exact eq_of_testBit fun k => (h k).trans (h' k).symm
  | and h =>
    cases h' with
    | and h' => exact eq_of_testBit fun k => (h k).trans (h' k).symm
  | xor h =>
    cases h' with
    | xor h' => exact eq_of_testBit fun k => (h k).trans (h' k).symm

/-- What is refused stands for no number. -/
theorem not_refuses {operation : UInt8} {f : Fault} (h : Exact x y operation.toNat z) :
    ¬ Refuses operation y f := by
  intro hf
  generalize hop : operation.toNat = op at h
  cases hf with
  | unknown hlarge => cases h <;> omega
  | zero hdivides hy =>
    cases h with
    | quotient hne => exact hne hy
    | remainder _ hlt => omega
    | _ => omega

end Exact

/-! ### Operations on words -/

/-- Beyond its own digits a word goes on with its sign. -/
theorem testBit_toInt (a : Int32) (k : Nat) :
    a.toInt.testBit k = a.toBitVec.getLsbD (min k 31) := by
  rw [← Int32.toInt_toBitVec]
  generalize a.toBitVec = w
  have hmsb : w.msb = w.getLsbD 31 := BitVec.msb_eq_getLsbD_last w
  rw [BitVec.toInt_eq_msb_cond]
  cases hsign : w.msb with
  | false =>
    show w.toNat.testBit k = w.getLsbD (min k 31)
    by_cases hk : k ≤ 31
    · rw [Nat.min_eq_left hk, BitVec.testBit_toNat]
    · have hpow : 2 ^ 32 ≤ 2 ^ k := Nat.pow_le_pow_right (by decide) (by omega)
      rw [Nat.min_eq_right (by omega), ← hmsb, hsign]
      exact Nat.testBit_lt_two_pow (Nat.lt_of_lt_of_le w.isLt hpow)
  | true =>
    have hlt := w.isLt
    have hneg : (w.toNat : Int) - (2 ^ 32 : Nat) = Int.negSucc (2 ^ 32 - (w.toNat + 1)) := by
      omega
    rw [if_pos rfl, hneg]
    show (!(2 ^ 32 - (w.toNat + 1)).testBit k) = w.getLsbD (min k 31)
    -- the digits of a negative number are those of its complement, turned over
    rw [Nat.testBit_two_pow_sub_succ hlt]
    by_cases hk : k ≤ 31
    · rw [Nat.min_eq_left hk, decide_eq_true (by omega), Bool.true_and, Bool.not_not,
        BitVec.testBit_toNat]
    · rw [Nat.min_eq_right (by omega), ← hmsb, hsign, decide_eq_false (by omega)]
      rfl

theorem testBit_or (a b : Int32) (k : Nat) :
    (a ||| b).toInt.testBit k = (a.toInt.testBit k || b.toInt.testBit k) := by
  simp only [testBit_toInt, Int32.toBitVec_or, BitVec.getLsbD_or]

theorem testBit_and (a b : Int32) (k : Nat) :
    (a &&& b).toInt.testBit k = (a.toInt.testBit k && b.toInt.testBit k) := by
  simp only [testBit_toInt, Int32.toBitVec_and, BitVec.getLsbD_and]

theorem testBit_xor (a b : Int32) (k : Nat) :
    (a ^^^ b).toInt.testBit k = (a.toInt.testBit k ^^ b.toInt.testBit k) := by
  simp only [testBit_toInt, Int32.toBitVec_xor, BitVec.getLsbD_xor]

/-- The places of a shift, as a word counts them. -/
theorem toNat_smod (b : Int32) : (b.toBitVec.smod 32).toNat = places b.toInt := by
  have hmod : (b.toBitVec.smod 32).toInt = b.toInt % 32 := by
    rw [BitVec.toInt_smod, Int.fmod_eq_emod_of_nonneg _ (by decide)]
    rfl
  have hlow := Int.emod_nonneg b.toInt (show (32 : Int) ≠ 0 by decide)
  have hword := BitVec.toInt_eq_toNat_cond (b.toBitVec.smod 32)
  rw [places, ← hmod]
  -- what is not negative as a signed word is the same as an unsigned one
  split at hword <;> omega

theorem toInt_shiftLeft (a b : Int32) :
    (a <<< b).toInt = (a.toInt * 2 ^ places b.toInt).bmod (2 ^ 32) := by
  rw [← Int32.toInt_toBitVec, Int32.toBitVec_shiftLeft, BitVec.shiftLeft_eq', toNat_smod,
    BitVec.toInt_shiftLeft, Nat.shiftLeft_eq, ← Int32.toInt_toBitVec a,
    BitVec.toInt_eq_toNat_bmod a.toBitVec, Int.bmod_mul_bmod]
  norm_cast

theorem toInt_shiftRight (a b : Int32) :
    (a >>> b).toInt = a.toInt.fdiv (2 ^ places b.toInt) := by
  rw [← Int32.toInt_toBitVec, Int32.toBitVec_shiftRight, BitVec.sshiftRight_eq', toNat_smod,
    BitVec.toInt_sshiftRight, Int.shiftRight_eq_div_pow,
    Int.fdiv_eq_ediv_of_nonneg _ (Int.le_of_lt (Int.pow_pos (by decide)))]
  norm_cast

/-- The remainder of two words is the remainder of the numbers they stand for. -/
theorem exact_mod (a : Int32) {b : Int32} (hb : b.toInt ≠ 0) :
    Exact a.toInt b.toInt 4 (a % b).toInt := by
  rw [Int32.toInt_mod]
  refine .remainder (Int.mul_tdiv_add_tmod _ _).symm ?_ (Int.tmod_nonneg _) fun hneg => ?_
  · rw [Int.natAbs_tmod]
    exact Nat.mod_lt _ (Int.natAbs_pos.mpr hb)
  · -- of the opposite dividend the remainder is the opposite one
    have hpos := Int.tmod_nonneg b.toInt (Int.neg_nonneg_of_nonpos hneg)
    rw [Int.neg_tmod] at hpos
    omega

/-! ### The answers of the calculator -/

/-- **A number has one word only.** -/
theorem eq_of_modEq {v v' : Int32} (h : v.toInt ≡ v'.toInt [ZMOD 2 ^ 32]) : v = v' := by
  refine Int32.toInt_inj.mp ?_
  calc v.toInt = v.toInt.bmod (2 ^ 32) := (Int32.toInt_bmod v).symm
    _ = (v.toInt % (2 ^ 32 : Nat)).bmod (2 ^ 32) := (Int.emod_bmod _ _).symm
    _ = (v'.toInt % (2 ^ 32 : Nat)).bmod (2 ^ 32) := congrArg (Int.bmod · (2 ^ 32)) h
    _ = v'.toInt.bmod (2 ^ 32) := Int.emod_bmod _ _
    _ = v'.toInt := Int32.toInt_bmod v'

/-- **A right answer to an operation**: the word of the number it stands for, or why there is none.
-/
inductive Answers (operation : UInt8) (x y : Int) : Except Fault Int32 → Prop
  | ok {z : Int} {v : Int32} (h : Exact x y operation.toNat z) (hv : v.toInt ≡ z [ZMOD 2 ^ 32]) :
    Answers operation x y (.ok v)
  | error {f : Fault} (h : Refuses operation y f) : Answers operation x y (.error f)

namespace Answers

variable {operation : UInt8} {x y : Int} {result : Except Fault Int32}

/-- An answer that is the number itself. -/
theorem of_exact {v : Int32} (h : Exact x y operation.toNat v.toInt) :
    Answers operation x y (.ok v) := .ok h rfl

/-- An answer that has been wrapped around. -/
theorem of_bmod {v : Int32} {z : Int} (h : Exact x y operation.toNat z)
    (hv : v.toInt = z.bmod (2 ^ 32)) : Answers operation x y (.ok v) :=
  .ok h (hv ▸ Int.bmod_emod)

/-- A division by zero is refused, and all others are answered. -/
theorem of_divisor {b v : Int32} (h : operation.toNat = 3 ∨ operation.toNat = 4)
    (hv : b.toInt ≠ 0 → Answers operation x b.toInt (.ok v)) :
    Answers operation x b.toInt (if b = 0 then .error (.divisionByZero operation) else .ok v) := by
  by_cases hb : b = 0
  · rw [if_pos hb]
    exact .error (.zero h (by rw [hb]; rfl))
  · rw [if_neg hb]
    exact hv fun hzero => hb (Int32.toInt_inj.mp hzero)

/-- **There is one answer only.** -/
theorem unique {result' : Except Fault Int32} (h : Answers operation x y result)
    (h' : Answers operation x y result') : result = result' := by
  cases h with
  | ok h hv =>
    cases h' with
    | ok h' hv' =>
      cases h.unique h'
      rw [eq_of_modEq (hv.trans hv'.symm)]
    | error h' => exact absurd h' h.not_refuses
  | error h =>
    cases h' with
    | ok h' hv' => exact absurd h h'.not_refuses
    | error h' => rw [h.unique h']

end Answers

/-- **The calculator answers right**, whatever it is asked. -/
theorem calculate_answers (operation : UInt8) (lhs rhs : Int32) :
    Answers operation lhs.toInt rhs.toInt (calculate operation lhs rhs) := by
  unfold calculate
  -- Bits, remainders and right shifts are numbers that fit a word; the rest comes wrapped around.
  split
  case h_1 hop => exact .of_bmod (hop ▸ .sum) (Int32.toInt_add lhs rhs)
  case h_2 hop => exact .of_bmod (hop ▸ .difference) (Int32.toInt_sub lhs rhs)
  case h_3 hop => exact .of_bmod (hop ▸ .product) (Int32.toInt_mul lhs rhs)
  case h_4 hop =>
    exact .of_divisor (.inl hop) fun hne =>
      .of_bmod (hop ▸ .quotient hne) (Int32.toInt_div lhs rhs)
  case h_5 hop => exact .of_divisor (.inr hop) fun hne => .of_exact (hop ▸ exact_mod lhs hne)
  case h_6 hop => exact .of_exact (hop ▸ .or (testBit_or lhs rhs))
  case h_7 hop => exact .of_exact (hop ▸ .and (testBit_and lhs rhs))
  case h_8 hop => exact .of_exact (hop ▸ .xor (testBit_xor lhs rhs))
  case h_9 hop => exact .of_bmod (hop ▸ .complement) (Int32.toInt_not lhs)
  case h_10 hop => exact .of_bmod (hop ▸ .leftShift) (toInt_shiftLeft lhs rhs)
  case h_11 hop => exact .of_exact (hop ▸ toInt_shiftRight lhs rhs ▸ .rightShift)
  case h_12 hop => exact .of_exact (hop ▸ toInt_shiftRight lhs rhs ▸ .signedShift)
  case h_13 =>
    refine .error (.unknown ?_)
    simp only [imp_false] at *
    omega

/-- **The calculator answers with a word** just if it is that of the number asked for. -/
theorem calculate_eq_ok_iff {operation : UInt8} {lhs rhs v : Int32} :
    calculate operation lhs rhs = .ok v ↔
      ∃ z, Exact lhs.toInt rhs.toInt operation.toNat z ∧ v.toInt ≡ z [ZMOD 2 ^ 32] := by
  have hanswers := calculate_answers operation lhs rhs
  constructor
  · intro h
    rw [h] at hanswers
    cases hanswers with
    | ok h hv => exact ⟨_, h, hv⟩
  · rintro ⟨z, h, hv⟩
    exact hanswers.unique (.ok h hv)

/-- **The calculator faults** just if the operation is to be refused. -/
theorem calculate_eq_error_iff {operation : UInt8} {lhs rhs : Int32} {f : Fault} :
    calculate operation lhs rhs = .error f ↔ Refuses operation rhs.toInt f := by
  have hanswers := calculate_answers operation lhs rhs
  constructor
  · intro h
    rw [h] at hanswers
    cases hanswers with
    | error h => exact h
  · intro h
    exact hanswers.unique (.error h)

end Calculator

/-! ### Instructions that calculate -/

/-- **Just one variable is set**, and all else of a stage stays as it was. -/
structure Stage.VarSet (before after : Stage) (id : UInt8) (value : Int32) : Prop where
  var_eq : ∀ id', after.session.var id' = if id' = id then value else before.session.var id'
  session_eq : { after.session with vars := before.session.vars } = before.session
  scene_eq : after.scene = before.scene

/-- The write of a variable sets that variable. -/
theorem Stage.varSet_performAll (stage : Stage) (id : UInt8) (value : Int32) :
    stage.VarSet (Host.performAll stage [.setVariable id value]) id value := by
  refine ⟨fun id' => ?_, rfl, rfl⟩
  show ((stage.session.vars.insert id value).get? id').getD 0 = _
  rw [Table.get?_insert]
  by_cases h : id' = id
  · rw [if_pos h, if_pos h, Option.getD_some]
  · rw [if_neg h, if_neg h]
    rfl

/-- **The calculation that an instruction stands for**: the operation, the variable it is done on,
and the second operand, which is a literal or the value of a variable. -/
inductive Calculation (session : Session) (raw : Bytes) :
    Opcode → (operation var : UInt8) → (y : Int) → Prop
  | withLiteral {p : Calculate} (h : decode Calculate raw = .ok p) :
    Calculation session raw .calculate p.operation p.var p.value.toInt
  | withVariable {p : CalculateFrom} (h : decode CalculateFrom raw = .ok p) :
    Calculation session raw .calculateFrom p.operation p.var (session.var p.source).toInt

/-- **What comes of a calculation**: a fault and no change, or one variable with a new value. -/
inductive Calculated (operation var : UInt8) (y : Int) (before after : Stage) :
    Except Fault Machine.Pulse → Prop
  | refused {f : Fault} (h : Calculator.Refuses operation y f) (hstage : after = before) :
    Calculated operation var y before after (.error f)
  | stored {z : Int} {v : Int32}
      (h : Calculator.Exact (before.session.var var).toInt y operation.toNat z)
      (hv : v.toInt ≡ z [ZMOD 2 ^ 32]) (hstage : before.VarSet after var v) :
    Calculated operation var y before after (.ok .running)

namespace Machine

variable {n : Nat} (m : Machine n Stage) {rules : Rules} {script : Script} {i : Fin n}
  {op : Opcode} {raw : Bytes}

/-- An instruction reads its operands, asks the calculator and stores what it answers. -/
theorem reaction_calculation (hstd : rules.handlers = Handler.standard)
    (hf : script.fetch (m.pool.thread i).pc = .ok (op, raw))
    (hop : op = .calculate ∨ op = .calculateFrom) :
    ∃ operation var rhs, Calculation m.host.session raw op operation var rhs.toInt ∧
      m.reaction rules script i op raw = Memory.store (m.site script i) var
        (Calculator.calculate operation (m.host.session.var var) rhs) := by
  rcases hop with rfl | rfl
  · obtain ⟨p, hp, hreaction⟩ :=
      m.reaction_reading script i (congrFun hstd .calculate) hf (by decide)
    refine ⟨p.operation, p.var, p.value.toInt32, ?_, hreaction⟩
    rw [Int16.toInt_toInt32]
    exact .withLiteral hp
  · obtain ⟨p, hp, hreaction⟩ :=
      m.reaction_reading script i (congrFun hstd .calculateFrom) hf (by decide)
    exact ⟨p.operation, p.var, m.host.session.var p.source, .withVariable hp, hreaction⟩

/-- **An instruction that calculates sets its variable to the result, or changes nothing.** -/
theorem turn_calculation (hstd : rules.handlers = Handler.standard)
    (hf : script.fetch (m.pool.thread i).pc = .ok (op, raw))
    (hop : op = .calculate ∨ op = .calculateFrom) :
    ∃ operation var y, Calculation m.host.session raw op operation var y ∧
      Calculated operation var y m.host (m.turn rules script i op raw).1.host
        (m.turn rules script i op raw).2 := by
  obtain ⟨operation, var, rhs, hcalculation, hreaction⟩ := m.reaction_calculation hstd hf hop
  refine ⟨operation, var, rhs.toInt, hcalculation, ?_⟩
  cases hvalue : Calculator.calculate operation (m.host.session.var var) rhs with
  | error f =>
    rw [hvalue] at hreaction
    obtain ⟨hhost, hresult⟩ := m.turn_refuse script i hreaction
    rw [hresult]
    exact .refused (Calculator.calculate_eq_error_iff.mp hvalue) hhost
  | ok v =>
    rw [hvalue] at hreaction
    obtain ⟨hhost, hresult⟩ := m.turn_ask script i hreaction
    obtain ⟨z, hexact, hv⟩ := Calculator.calculate_eq_ok_iff.mp hvalue
    rw [hresult, hhost]
    exact .stored hexact hv (m.host.varSet_performAll var v)

end Machine

/-- **The calculator is total and exact, and so are the instructions that use it.** For every
operation and all words: the calculator refuses just the operations that do not exist and the
divisions by zero, each for its own reason, and it answers with a word just if the word is congruent
to the whole number that the operation stands for. One of the two is always so.

An instruction that calculates either faults, for one of these reasons, and leaves the game as it
is; or it sets its variable, and nothing else, to the word of the number that its operation stands
for with the values from before the instruction. -/
theorem Calculator.calculates_exactly :
    (∀ (operation : UInt8) (lhs rhs : Int32),
      (∀ f, calculate operation lhs rhs = .error f ↔ Refuses operation rhs.toInt f) ∧
      (∀ v, calculate operation lhs rhs = .ok v ↔
        ∃ z, Exact lhs.toInt rhs.toInt operation.toNat z ∧ v.toInt ≡ z [ZMOD 2 ^ 32])) ∧
    ∀ {n : Nat} (m : Machine n Stage) (rules : Rules) (script : Script) (i : Fin n) (op : Opcode)
      (raw : Bytes), rules.handlers = Handler.standard →
      script.fetch (m.pool.thread i).pc = .ok (op, raw) → op = .calculate ∨ op = .calculateFrom →
      ∃ operation var y, Calculation m.host.session raw op operation var y ∧
        Calculated operation var y m.host (m.turn rules script i op raw).1.host
          (m.turn rules script i op raw).2 := by
  refine ⟨fun operation lhs rhs => ⟨fun f => calculate_eq_error_iff, fun v => ?_⟩, ?_⟩
  · exact calculate_eq_ok_iff
  · intro n m rules script i op raw hstd hf hop
    exact m.turn_calculation hstd hf hop

/-- The least word divided by minus one is itself again. A variable that is multiplied by itself is
set to the word of its square, and no other variable changes. -/
theorem Calculator.calculates_exactly_square :
    let script : Script := ⟨#[0x27, 2, 0, 0], [0], by decide⟩
    let m : Machine 1 Stage :=
      { pool := .idle 1, host := { session := { vars := .ofList [(0, 65537), (1, 7)] } } }
    let after := (m.turn {} script 0 .calculateFrom #[0x27, 2, 0, 0]).1.host.session
    calculate 3 Int32.minValue (-1) = .ok Int32.minValue ∧
      (after.var 0).toInt ≡ 65537 * 65537 [ZMOD 2 ^ 32] ∧ after.var 1 = 7 := by
  intro script m after
  obtain ⟨hanswers, hturns⟩ := calculates_exactly
  have hf : script.fetch (m.pool.thread 0).pc = .ok (.calculateFrom, #[0x27, 2, 0, 0]) := by
    decide +kernel
  have hp : decode CalculateFrom #[0x27, 2, 0, 0] = .ok ⟨2, 0, 0⟩ := rfl
  refine ⟨((hanswers 3 Int32.minValue (-1)).2 Int32.minValue).mpr
    ⟨_, .quotient (by decide), by decide⟩, ?_⟩
  obtain ⟨operation, var, y, hcalculation, hdone⟩ := hturns m {} script 0 _ _ rfl hf (.inr rfl)
  cases hcalculation with
  | withVariable hp' =>
    cases hp.symm.trans hp'
    generalize (m.turn {} script 0 .calculateFrom #[0x27, 2, 0, 0]).2 = result at hdone
    cases hdone with
    | refused h =>
      cases h with
      | unknown h => exact absurd h (by decide)
      | zero h => exact absurd h (by decide)
    | stored hexact hv hstage =>
      cases hexact with
      | product =>
        show (after.var 0).toInt ≡ _ [ZMOD 2 ^ 32] ∧ after.var 1 = 7
        rw [hstage.var_eq 0, hstage.var_eq 1]
        exact ⟨hv, rfl⟩

end RoomScript
