import RoomScript.Payload.Operands
import RoomScript.Proofs.Effect

/-!
# The decoders agree

What an instruction carries is said in four places: the table of sizes, the layouts that operands
are listed by, the handlers, and the search for the arm of a switch. They are written down
independently, and they look at different bytes: a listing is told the opcode and skips the first
byte, a handler goes by the first byte and is told nothing.

This file shows that they say the same. A payload fills its instruction, so whether it can be read
is a matter of the size alone, and what is read one of the bytes behind the first up to the size.
On an instruction that was fetched whole, the first byte is the opcode and all bytes are there, so a
handler always gets its payload, and a listing shows that payload.

**Main statements.** `Opcode.operands?_eq`: what comes of listing the operands of any bytes.
`Handler.standard_reads`: which handlers read a payload at all, and which one.
`Opcode.DecodedAs.decodeAt`: on a fetched instruction the payload is read, and listed as it is.
`Handler.unread_of_standard`: no handler faults on its own bytes. `Handler.decoders_agree` puts them
together.
-/

namespace RoomScript

open Payload

/-! ### Operands of any bytes -/

/-- A value is read off the bytes behind the first, up to its width. -/
theorem Layout.ofBytes_congr {α : Type} {l : Layout α} {raw raw' : Bytes}
    (h : 1 + l.width ≤ raw.size) (h' : 1 + l.width ≤ raw'.size)
    (hsame : raw'.extract 1 (1 + l.width) = raw.extract 1 (1 + l.width)) :
    l.ofBytes raw' = l.ofBytes raw := by
  unfold ofBytes
  rw [dif_pos h, dif_pos h']
  refine congrArg (fun b => some (l.read b)) (funext fun i => ?_)
  -- the byte at the same place of the two extracts
  have hbyte := congrArg (fun bytes : Bytes => bytes[i.val]?) hsame
  have hi := i.isLt
  simp only [Array.getElem?_extract] at hbyte
  rw [if_pos (by omega), if_pos (by omega), Array.getElem?_eq_getElem (by omega),
    Array.getElem?_eq_getElem (by omega)] at hbyte
  exact Option.some.inj hbyte

namespace Opcode

/-- **What comes of listing operands**: they are read if the bytes of the instruction are there, and
take up all of them; else bytes are missing. -/
theorem operands?_eq {op : Opcode} {l : Layout (List String)} (h : op.operandLayout? = some l)
    (raw : Bytes) :
    (op.size ≤ raw.size ∧ ∃ operands, l.ofBytes raw = some operands ∧
        op.operands? raw = some (.ok (operands, op.size))) ∨
      (raw.size < op.size ∧ op.operands? raw = some (.error .tooShort)) := by
  have hwidth := width_operandLayout? h
  rw [operands?, h, Option.map_some]
  cases hread : l.ofBytes raw with
  | some operands =>
    have hsize : ¬ raw.size < 1 + l.width := fun hlt => by
      rw [(l.ofBytes_eq_none_iff raw).mpr hlt] at hread
      cases hread
    exact .inl ⟨by omega, operands, rfl, by rw [hwidth]⟩
  | none =>
    have hsize := (l.ofBytes_eq_none_iff raw).mp hread
    exact .inr ⟨by omega, rfl⟩

/-- An opcode has operands to list, or has none, whatever the bytes. -/
theorem isSome_operands? (op : Opcode) (raw : Bytes) :
    (op.operands? raw).isSome = op.operandLayout?.isSome := by
  rw [operands?, Option.isSome_map]

/-- **Operands depend on the bytes behind the first, up to the size.** -/
theorem operands?_congr {op : Opcode} {raw raw' : Bytes} (h : op.size ≤ raw.size)
    (h' : op.size ≤ raw'.size) (hsame : raw'.extract 1 op.size = raw.extract 1 op.size) :
    op.operands? raw' = op.operands? raw := by
  unfold operands?
  cases hl : op.operandLayout? with
  | none => rfl
  | some l =>
    rw [← width_operandLayout? hl] at h h' hsame
    rw [Option.map_some, Option.map_some, Layout.ofBytes_congr h h' hsame]

end Opcode

/-! ### Who decodes what -/

/-- A payload type. -/
structure Payload.Carrier where
  type : Type
  payload : Payload type

/-- The values of a payload type are payloads. -/
instance (k : Payload.Carrier) : Payload k.type := k.payload

/-- A payload type by itself. -/
def Payload.Carrier.of (α : Type) [Payload α] : Payload.Carrier := ⟨α, inferInstance⟩

/-- **What the handler of an opcode reads**, if it looks at its bytes at all. -/
def Handler.reads? : Opcode → Option Payload.Carrier
  | .evtExec => some (.of EvtExec)
  | .ifStart | .elseStart => some (.of Block)
  | .sleep => some (.of Sleep)
  | .forLoop => some (.of ForLoop)
  | .switch => some (.of Switch)
  | .goto => some (.of Goto)
  | .gosub => some (.of Gosub)
  | .check => some (.of Check)
  | .setBit => some (.of SetBit)
  | .compare => some (.of Compare)
  | .save => some (.of Save)
  | .copy => some (.of Copy)
  | .calculate => some (.of Calculate)
  | .calculateFrom => some (.of CalculateFrom)
  | .cutChg => some (.of CutChange)
  | .aotSet | .aotSet4p => some (.of AotSet)
  | .objModelSet => some (.of ObjModelSet)
  | .workSet => some (.of WorkSelect)
  | .posSet => some (.of PosSet)
  | .memberSet => some (.of MemberSet)
  | .scaIdSet => some (.of CollisionSet)
  | .sceEsprOn => some (.of SpriteOn)
  | .doorAotSet | .doorAotSet4p => some (.of DoorSet)
  | .memberCmp => some (.of MemberCmp)
  | .plcMotion => some (.of PlayerMotion)
  | .plcDest => some (.of PlayerDest)
  | .plcNeck => some (.of PlayerNeck)
  | .sceEmSet => some (.of EnemySet)
  | .aotReset => some (.of AotReset)
  | .sceEsprKill => some (.of SpriteKill)
  | .itemAotSet | .itemAotSet4p => some (.of ItemSet)
  | .sceBgmControl => some (.of BgmControl)
  | _ => none

/-- **The handlers read what the table says**: a payload of that type before anything else, or no
byte at all. -/
theorem Handler.standard_reads (op : Opcode) :
    match reads? op with
    | some k => ∃ run : {n : Nat} → Site n → Host.View → k.type → Reaction n,
        standard op = reading k.type run
    | none => ∀ {n : Nat} (site : Site n) (view : Host.View) (raw raw' : Bytes),
        (standard op).run site view raw' = (standard op).run site view raw := by
  cases op
  case evtExec | ifStart | elseStart | sleep | forLoop | switch | goto | gosub | check | setBit |
      compare | save | copy | calculate | calculateFrom | cutChg | aotSet | aotSet4p |
      objModelSet | workSet | posSet | memberSet | scaIdSet | sceEsprOn | doorAotSet |
      doorAotSet4p | memberCmp | plcMotion | plcDest | plcNeck | sceEmSet | aotReset |
      sceEsprKill | itemAotSet | itemAotSet4p | sceBgmControl => exact ⟨_, rfl⟩
  all_goals exact fun _ _ _ _ => rfl

/-- **A payload type that an opcode is decoded as**: by its handler, or by the search for the arm of
a switch. -/
def Opcode.DecodedAs (op : Opcode) (k : Payload.Carrier) : Prop :=
  Handler.reads? op = some k ∨ (op = .caseArm ∧ k = .of CaseArm)

namespace Opcode.DecodedAs

variable {op : Opcode} {k : Payload.Carrier} {raw : Bytes}

/-- What is decoded is also listed. -/
theorem operandLayout? (h : op.DecodedAs k) :
    op.operandLayout? = some (operands <$> (layout op : Layout k.type)) := by
  rcases h with h | ⟨rfl, rfl⟩
  · cases op <;> cases h <;> rfl
  · rfl

/-- **On a whole instruction the payload is read, and listed as it is.** -/
theorem decodeAt (h : op.DecodedAs k) (hw : Whole op raw) (pc : Nat) :
    ∃ p : k.type, Payload.decodeAt k.type raw pc = .ok p ∧
      op.operands? raw = some (.ok (operands p, op.size)) := by
  have hlayout := h.operandLayout?
  rcases operands?_eq hlayout raw with ⟨-, shown, hread, hlisted⟩ | ⟨hmissing, -⟩
  · rw [Layout.ofBytes_map] at hread
    obtain ⟨p, hp, rfl⟩ := Option.map_eq_some_iff.mp hread
    exact ⟨p, decodeAt_of_ofBytes pc hw.opcode hp, hlisted⟩
  · exact absurd hw.size (Nat.ne_of_lt hmissing)

end Opcode.DecodedAs

/-! ### Faults about bytes -/

/-- The faults of bytes that cannot be read as an instruction. -/
def Fault.isUnread : Fault → Bool
  | .unknownOpcode .. | .truncated .. => true
  | _ => false

/-- A value that an instruction computes with is not about its bytes. -/
theorem Fault.isUnread_of_isValue {f : Fault} (h : f.isValue = true) : f.isUnread = false := by
  cases f with
  | invalidBitOperation | invalidCalcOperation | divisionByZero => rfl
  | _ => exact nomatch h

/-- **No handler faults on the bytes of its own instruction.** If bytes cannot be read, it is a
switch that has come upon something else where an arm should be. -/
theorem Handler.unread_of_standard {n : Nat} {op : Opcode} {raw : Bytes} (hw : Whole op raw)
    (site : Site n) (view : Host.View) {f : Fault}
    (h : ((standard op).run site view raw).result = .error f) (hf : f.isUnread = true) :
    op = .switch ∧ ∃ a, site.script.fetch a = .error f := by
  by_cases hop : op = .evtExec
  · subst hop
    -- an event is refused for its entry point or for an empty pool
    rcases evtExec_effect site view hw with ⟨_, _, _, -, -, hok⟩ | ⟨g, -, herr, hg⟩
    · rw [hok] at h
      exact nomatch h
    · rw [herr] at h
      cases h
      rcases hg with ⟨_, rfl⟩ | rfl <;> exact nomatch hf
  · obtain ⟨t, -, heffect⟩ := standard_effect site view hw hop
    rw [h] at heffect
    cases heffect with
    | balks _ hvalue =>
      rw [Fault.isUnread_of_isValue hvalue] at hf
      exact nomatch hf
    | tooManyIfs ht =>
      rw [Thread.fault_of_pushBlock ht] at hf
      exact nomatch hf
    | noIf _ ht =>
      rw [Thread.fault_of_popBlock ht] at hf
      exact nomatch hf
    | losesArm _ _ ha =>
      rcases Control.fault_of_findArm ha with hfetch | ⟨_, _, rfl⟩
      · exact ⟨rfl, hfetch⟩
      · exact nomatch hf
    | tooManyLoops _ ht =>
      rcases Thread.fault_of_pushLoop ht with rfl | rfl <;> exact nomatch hf
    | noLoop => exact nomatch hf
    | noEntry he =>
      rw [Script.fault_of_entry he] at hf
      exact nomatch hf
    | tooDeep ht =>
      rw [Thread.fault_of_enterSubroutine ht] at hf
      exact nomatch hf

/-- **Decoders, sizes, handlers and listings agree.** For an opcode with operands to list, and any
bytes: the operands are read exactly if the bytes are as many as the size says, they take up just
these, and they depend on those behind the first alone; with fewer bytes, bytes are missing. Whether
an opcode has operands to list does not depend on the bytes.

Every handler reads the payload that the table says, or no byte at all. On an instruction that was
fetched, whoever decodes it gets a payload; its operands are what the bytes are listed as, the last
one included, and what a listing shows. So no handler faults because it cannot read its own
instruction: bytes that cannot be read are a fault of a switch alone, and are then found where an
arm should be. -/
theorem Handler.decoders_agree :
    (∀ (op : Opcode) (raw : Bytes) (listed : Except ReadError (List String × Nat)),
      op.operands? raw = some listed →
        ((∃ shown, listed = .ok shown) ↔ op.size ≤ raw.size) ∧
        (∀ operands used, listed = .ok (operands, used) → used = op.size) ∧
        (raw.size < op.size → listed = .error .tooShort) ∧
        ∀ raw' : Bytes, op.size ≤ raw.size → op.size ≤ raw'.size →
          raw'.extract 1 op.size = raw.extract 1 op.size → op.operands? raw' = some listed) ∧
    (∀ (op : Opcode) (raw raw' : Bytes), (op.operands? raw').isSome = (op.operands? raw).isSome) ∧
    (∀ op : Opcode, match reads? op with
      | some k => ∃ run : {n : Nat} → Site n → Host.View → k.type → Reaction n,
          standard op = reading k.type run
      | none => ∀ {n : Nat} (site : Site n) (view : Host.View) (raw raw' : Bytes),
          (standard op).run site view raw' = (standard op).run site view raw) ∧
    ∀ (script : Script) (pc : Nat) (op : Opcode) (raw : Bytes), script.fetch pc = .ok (op, raw) →
      (∀ k, op.DecodedAs k → ∃ p : k.type,
        decodeAt k.type raw pc = .ok p ∧
          op.operands? raw = some (.ok (Payload.operands p, op.size)) ∧
          op.describe raw = some (Payload.operands p)) ∧
      ∀ {n : Nat} (site : Site n) (view : Host.View) (f : Fault),
        ((standard op).run site view raw).result = .error f → f.isUnread = true →
          op = .switch ∧ ∃ a, site.script.fetch a = .error f := by
  refine ⟨?_, ?_, standard_reads, ?_⟩
  · intro op raw listed hlisted
    obtain ⟨l, hl⟩ : ∃ l, op.operandLayout? = some l := by
      rw [← Option.isSome_iff_exists, ← op.isSome_operands? raw, hlisted]
      rfl
    have hsame : ∀ raw' : Bytes, op.size ≤ raw.size → op.size ≤ raw'.size →
        raw'.extract 1 op.size = raw.extract 1 op.size → op.operands? raw' = some listed :=
      fun _ h h' hbytes => (Opcode.operands?_congr h h' hbytes).trans hlisted
    rcases Opcode.operands?_eq hl raw with ⟨hsize, operands, -, hread⟩ | ⟨hsize, hread⟩
    -- all bytes are there
    · obtain rfl := Option.some.inj (hlisted.symm.trans hread)
      refine ⟨⟨fun _ => hsize, fun _ => ⟨_, rfl⟩⟩, ?_, fun hlt => ?_, hsame⟩
      · intro _ used h
        exact (Prod.mk.inj (Except.ok.inj h)).2.symm
      · exact absurd hsize (Nat.not_le_of_lt hlt)
    -- some are missing
    · obtain rfl := Option.some.inj (hlisted.symm.trans hread)
      refine ⟨⟨?_, fun hle => ?_⟩, nofun, fun _ => rfl, hsame⟩
      · rintro ⟨shown, h⟩
        exact nomatch h
      · exact absurd hle (Nat.not_le_of_lt hsize)
  · intro op raw raw'
    rw [op.isSome_operands? raw', op.isSome_operands? raw]
  · intro script pc op raw hfetch
    have hw := Script.whole_of_fetch hfetch
    constructor
    · intro k hk
      obtain ⟨p, hp, hlisted⟩ := hk.decodeAt hw pc
      exact ⟨p, hp, hlisted, Opcode.describe_of_operands? hlisted⟩
    · intro n site view f h hf
      exact unread_of_standard hw site view h hf

/-- A comparison that is fetched is decoded and listed alike, and takes up six bytes; of the first two
of them alone nothing is listed, since bytes are missing. -/
theorem Handler.decoders_agree_compare :
    let script : Script := ⟨#[0x23, 0, 5, 3, 0xfe, 0xff], [0], by decide⟩
    (∃ raw, script.fetch 0 = .ok (.compare, raw) ∧ ∃ p : Compare,
      decodeAt Compare raw 0 = .ok p ∧ Payload.operands p = ["var=5", "op=<", "value=-2"] ∧
        Opcode.compare.operands? raw = some (.ok (Payload.operands p, 6)) ∧
        Opcode.compare.describe raw = some (Payload.operands p)) ∧
      Opcode.compare.operands? #[0x23, 0] = some (.error .tooShort) := by
  intro script
  have hfetch : script.fetch 0 = .ok (.compare, #[0x23, 0, 5, 3, 0xfe, 0xff]) := rfl
  have hagree := decoders_agree
  obtain ⟨p, hp, hlisted, hshown⟩ :=
    (hagree.2.2.2 script 0 .compare _ hfetch).1 (.of Compare) (.inl rfl)
  have htexts : Opcode.compare.describe #[0x23, 0, 5, 3, 0xfe, 0xff] =
      some ["var=5", "op=<", "value=-2"] := by decide +kernel
  refine ⟨⟨_, hfetch, p, hp, Option.some.inj (hshown.symm.trans htexts), hlisted, hshown⟩, ?_⟩
  obtain ⟨listed, hmissing⟩ : ∃ listed, Opcode.compare.operands? #[0x23, 0] = some listed :=
    ⟨_, rfl⟩
  rw [hmissing, (hagree.1 .compare _ listed hmissing).2.2.1 (by decide)]

end RoomScript
