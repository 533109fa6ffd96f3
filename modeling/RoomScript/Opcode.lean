/-!
# The instruction set

Every room script is a sequence of instructions, each an opcode byte followed by a payload whose
length the opcode fixes. This file is the table of the 143 opcodes: constructors in byte order, and
for each its encoded size, its mnemonic and the name it carries in serialised records.

**Main statements.** `Opcode.ofByte?_toByte` and `Opcode.toByte_of_ofByte?`: bytes below
`Opcode.count` and opcodes correspond one to one. `Opcode.size_pos`: no instruction is empty, so a
walk over the code always moves on.
-/

namespace RoomScript

/-- The opcodes, in the order of their bytes. -/
inductive Opcode
  | nop | evtEnd | evtNext | evtChain | evtExec | evtKill | ifStart | elseStart | endIf | sleep
  | sleeping | wsleep | wsleeping | forLoop | forEnd | whileLoop | whileEnd | doLoop | doEnd
  | switch | caseArm | defaultCase | endSwitch | goto | gosub | gosubReturn | breakLoop | for2
  | breakPoint | workCopy | nop1E | nop1F | nop20 | check | setBit | compare | save | copy
  | calculate | calculateFrom | sceRnd | cutChg | cutOld | messageOn | aotSet | objModelSet
  | workSet | speedSet | addSpeed | addAspeed | posSet | dirSet | memberSet | memberSet2 | seOn
  | scaIdSet | flrSet | dirCk | sceEsprOn | doorAotSet | cutAuto | memberCopy | memberCmp
  | plcMotion | plcDest | plcNeck | plcRet | plcFlg | sceEmSet | colChgSet | aotReset | aotOn
  | superSet | superReset | plcGun | cutReplace | sceEsprKill | doorModelSet | itemAotSet
  | sceKeyCk | sceTrgCk | sceBgmControl | sceEsprControl | sceFadeSet | sceEspr3dOn | memberCalc
  | memberCalc2 | sceBgmtblSet | plcRot | xaOn | weaponChg | plcCnt | sceShakeOn | mizuDivSet
  | keepItemCk | xaVol | kageSet | cutBeSet | sceItemLost | plcGunEff | sceEsprOn2 | sceEsprKill2
  | plcStop | aotSet4p | doorAotSet4p | itemAotSet4p | lightPosSet | lightKidoSet | rbjReset
  | sceScrMove | partsSet | movieOn | splcRet | splcSce | superOn | mirrorSet | sceFadeAdjust
  | sceEspr3dOn2 | sceItemGet | sceLineStart | sceLineMain | sceLineEnd | scePartsBomb
  | scePartsDown | lightColorSet | lightPosSet2 | lightKidoSet2 | lightColorSet2 | seVol
  | sceItemCmp | sceEsprTask | plcHeal | stMapHint | sceEmPosCk | poisonCk | poisonClr
  | sceItemLost2 | evtNext2 | vloopSet | otaBeSet | lineBegin | lineMain | lineEnd
  deriving DecidableEq, Repr, Inhabited

namespace Opcode

/-- **What the table says of one opcode**: the name used in serialised records, the mnemonic used in
listings and messages, and the encoded size in bytes with the opcode byte included. -/
structure Info where
  name : String
  mnemonic : String
  size : Nat

/-- The instruction table. -/
def info : Opcode → Info
  | .nop => ⟨"Nop", "nop", 1⟩
  | .evtEnd => ⟨"EvtEnd", "evt_end", 2⟩
  | .evtNext => ⟨"EvtNext", "evt_next", 1⟩
  | .evtChain => ⟨"EvtChain", "evt_chain", 4⟩
  | .evtExec => ⟨"EvtExec", "evt_exec", 4⟩
  | .evtKill => ⟨"EvtKill", "evt_kill", 2⟩
  | .ifStart => ⟨"IfStart", "if_start", 4⟩
  | .elseStart => ⟨"ElseStart", "else_start", 4⟩
  | .endIf => ⟨"EndIf", "end_if", 1⟩
  | .sleep => ⟨"Sleep", "sleep", 4⟩
  | .sleeping => ⟨"Sleeping", "sleeping", 3⟩
  | .wsleep => ⟨"Wsleep", "wsleep", 1⟩
  | .wsleeping => ⟨"Wsleeping", "wsleeping", 1⟩
  | .forLoop => ⟨"For", "for", 6⟩
  | .forEnd => ⟨"ForEnd", "for_end", 2⟩
  | .whileLoop => ⟨"While", "while", 4⟩
  | .whileEnd => ⟨"WhileEnd", "while_end", 2⟩
  | .doLoop => ⟨"Do", "do", 4⟩
  | .doEnd => ⟨"DoEnd", "do_end", 2⟩
  | .switch => ⟨"Switch", "switch", 4⟩
  | .caseArm => ⟨"Case", "case", 6⟩
  | .defaultCase => ⟨"Default", "default", 2⟩
  | .endSwitch => ⟨"EndSwitch", "end_switch", 2⟩
  | .goto => ⟨"Goto", "goto", 6⟩
  | .gosub => ⟨"Gosub", "gosub", 2⟩
  | .gosubReturn => ⟨"GosubReturn", "gosub_return", 2⟩
  | .breakLoop => ⟨"Break", "break", 2⟩
  | .for2 => ⟨"For2", "for2", 6⟩
  | .breakPoint => ⟨"BreakPoint", "break_point", 1⟩
  | .workCopy => ⟨"WorkCopy", "work_copy", 4⟩
  | .nop1E => ⟨"Nop1E", "nop_1e", 1⟩
  | .nop1F => ⟨"Nop1F", "nop_1f", 1⟩
  | .nop20 => ⟨"Nop20", "nop_20", 1⟩
  | .check => ⟨"Check", "check", 4⟩
  | .setBit => ⟨"SetBit", "set_bit", 4⟩
  | .compare => ⟨"Compare", "compare", 6⟩
  | .save => ⟨"Save", "save", 4⟩
  | .copy => ⟨"Copy", "copy", 3⟩
  | .calculate => ⟨"Calc", "calc", 6⟩
  | .calculateFrom => ⟨"Calc2", "calc2", 4⟩
  | .sceRnd => ⟨"SceRnd", "sce_rnd", 1⟩
  | .cutChg => ⟨"CutChg", "cut_chg", 2⟩
  | .cutOld => ⟨"CutOld", "cut_old", 1⟩
  | .messageOn => ⟨"MessageOn", "message_on", 6⟩
  | .aotSet => ⟨"AotSet", "aot_set", 20⟩
  | .objModelSet => ⟨"ObjModelSet", "obj_model_set", 38⟩
  | .workSet => ⟨"WorkSet", "work_set", 3⟩
  | .speedSet => ⟨"SpeedSet", "speed_set", 4⟩
  | .addSpeed => ⟨"AddSpeed", "add_speed", 1⟩
  | .addAspeed => ⟨"AddAspeed", "add_aspeed", 1⟩
  | .posSet => ⟨"PosSet", "pos_set", 8⟩
  | .dirSet => ⟨"DirSet", "dir_set", 8⟩
  | .memberSet => ⟨"MemberSet", "member_set", 4⟩
  | .memberSet2 => ⟨"MemberSet2", "member_set2", 3⟩
  | .seOn => ⟨"SeOn", "se_on", 12⟩
  | .scaIdSet => ⟨"ScaIdSet", "sca_id_set", 4⟩
  | .flrSet => ⟨"FlrSet", "flr_set", 3⟩
  | .dirCk => ⟨"DirCk", "dir_ck", 8⟩
  | .sceEsprOn => ⟨"SceEsprOn", "sce_espr_on", 16⟩
  | .doorAotSet => ⟨"DoorAotSet", "door_aot_set", 32⟩
  | .cutAuto => ⟨"CutAuto", "cut_auto", 2⟩
  | .memberCopy => ⟨"MemberCopy", "member_copy", 3⟩
  | .memberCmp => ⟨"MemberCmp", "member_cmp", 6⟩
  | .plcMotion => ⟨"PlcMotion", "plc_motion", 4⟩
  | .plcDest => ⟨"PlcDest", "plc_dest", 8⟩
  | .plcNeck => ⟨"PlcNeck", "plc_neck", 10⟩
  | .plcRet => ⟨"PlcRet", "plc_ret", 1⟩
  | .plcFlg => ⟨"PlcFlg", "plc_flg", 4⟩
  | .sceEmSet => ⟨"SceEmSet", "sce_em_set", 22⟩
  | .colChgSet => ⟨"ColChgSet", "col_chg_set", 5⟩
  | .aotReset => ⟨"AotReset", "aot_reset", 10⟩
  | .aotOn => ⟨"AotOn", "aot_on", 2⟩
  | .superSet => ⟨"SuperSet", "super_set", 16⟩
  | .superReset => ⟨"SuperReset", "super_reset", 8⟩
  | .plcGun => ⟨"PlcGun", "plc_gun", 2⟩
  | .cutReplace => ⟨"CutReplace", "cut_replace", 3⟩
  | .sceEsprKill => ⟨"SceEsprKill", "sce_espr_kill", 5⟩
  | .doorModelSet => ⟨"DoorModelSet", "door_model_set", 22⟩
  | .itemAotSet => ⟨"ItemAotSet", "item_aot_set", 22⟩
  | .sceKeyCk => ⟨"SceKeyCk", "sce_key_ck", 4⟩
  | .sceTrgCk => ⟨"SceTrgCk", "sce_trg_ck", 4⟩
  | .sceBgmControl => ⟨"SceBgmControl", "sce_bgm_control", 6⟩
  | .sceEsprControl => ⟨"SceEsprControl", "sce_espr_control", 6⟩
  | .sceFadeSet => ⟨"SceFadeSet", "sce_fade_set", 6⟩
  | .sceEspr3dOn => ⟨"SceEspr3dOn", "sce_espr3d_on", 22⟩
  | .memberCalc => ⟨"MemberCalc", "member_calc", 6⟩
  | .memberCalc2 => ⟨"MemberCalc2", "member_calc2", 4⟩
  | .sceBgmtblSet => ⟨"SceBgmtblSet", "sce_bgmtbl_set", 8⟩
  | .plcRot => ⟨"PlcRot", "plc_rot", 4⟩
  | .xaOn => ⟨"XaOn", "xa_on", 4⟩
  | .weaponChg => ⟨"WeaponChg", "weapon_chg", 2⟩
  | .plcCnt => ⟨"PlcCnt", "plc_cnt", 2⟩
  | .sceShakeOn => ⟨"SceShakeOn", "sce_shake_on", 3⟩
  | .mizuDivSet => ⟨"MizuDivSet", "mizu_div_set", 2⟩
  | .keepItemCk => ⟨"KeepItemCk", "keep_item_ck", 2⟩
  | .xaVol => ⟨"XaVol", "xa_vol", 2⟩
  | .kageSet => ⟨"KageSet", "kage_set", 14⟩
  | .cutBeSet => ⟨"CutBeSet", "cut_be_set", 4⟩
  | .sceItemLost => ⟨"SceItemLost", "sce_item_lost", 2⟩
  | .plcGunEff => ⟨"PlcGunEff", "plc_gun_eff", 1⟩
  | .sceEsprOn2 => ⟨"SceEsprOn2", "sce_espr_on2", 16⟩
  | .sceEsprKill2 => ⟨"SceEsprKill2", "sce_espr_kill2", 2⟩
  | .plcStop => ⟨"PlcStop", "plc_stop", 1⟩
  | .aotSet4p => ⟨"AotSet4p", "aot_set_4p", 28⟩
  | .doorAotSet4p => ⟨"DoorAotSet4p", "door_aot_set_4p", 40⟩
  | .itemAotSet4p => ⟨"ItemAotSet4p", "item_aot_set_4p", 30⟩
  | .lightPosSet => ⟨"LightPosSet", "light_pos_set", 6⟩
  | .lightKidoSet => ⟨"LightKidoSet", "light_kido_set", 4⟩
  | .rbjReset => ⟨"RbjReset", "rbj_reset", 1⟩
  | .sceScrMove => ⟨"SceScrMove", "sce_scr_move", 4⟩
  | .partsSet => ⟨"PartsSet", "parts_set", 6⟩
  | .movieOn => ⟨"MovieOn", "movie_on", 2⟩
  | .splcRet => ⟨"SplcRet", "splc_ret", 1⟩
  | .splcSce => ⟨"SplcSce", "splc_sce", 1⟩
  | .superOn => ⟨"SuperOn", "super_on", 16⟩
  | .mirrorSet => ⟨"MirrorSet", "mirror_set", 8⟩
  | .sceFadeAdjust => ⟨"SceFadeAdjust", "sce_fade_adjust", 4⟩
  | .sceEspr3dOn2 => ⟨"SceEspr3dOn2", "sce_espr3d_on2", 22⟩
  | .sceItemGet => ⟨"SceItemGet", "sce_item_get", 3⟩
  | .sceLineStart => ⟨"SceLineStart", "sce_line_start", 4⟩
  | .sceLineMain => ⟨"SceLineMain", "sce_line_main", 6⟩
  | .sceLineEnd => ⟨"SceLineEnd", "sce_line_end", 1⟩
  | .scePartsBomb => ⟨"ScePartsBomb", "sce_parts_bomb", 16⟩
  | .scePartsDown => ⟨"ScePartsDown", "sce_parts_down", 16⟩
  | .lightColorSet => ⟨"LightColorSet", "light_color_set", 6⟩
  | .lightPosSet2 => ⟨"LightPosSet2", "light_pos_set2", 6⟩
  | .lightKidoSet2 => ⟨"LightKidoSet2", "light_kido_set2", 6⟩
  | .lightColorSet2 => ⟨"LightColorSet2", "light_color_set2", 6⟩
  | .seVol => ⟨"SeVol", "se_vol", 2⟩
  | .sceItemCmp => ⟨"SceItemCmp", "sce_item_cmp", 3⟩
  | .sceEsprTask => ⟨"SceEsprTask", "sce_espr_task", 3⟩
  | .plcHeal => ⟨"PlcHeal", "plc_heal", 1⟩
  | .stMapHint => ⟨"StMapHint", "st_map_hint", 2⟩
  | .sceEmPosCk => ⟨"SceEmPosCk", "sce_em_pos_ck", 6⟩
  | .poisonCk => ⟨"PoisonCk", "poison_ck", 1⟩
  | .poisonClr => ⟨"PoisonClr", "poison_clr", 1⟩
  | .sceItemLost2 => ⟨"SceItemLost2", "sce_item_lost2", 3⟩
  | .evtNext2 => ⟨"EvtNext2", "evt_next2", 1⟩
  | .vloopSet => ⟨"VloopSet", "vloop_set", 6⟩
  | .otaBeSet => ⟨"OtaBeSet", "ota_be_set", 6⟩
  | .lineBegin => ⟨"LineBegin", "line_begin", 8⟩
  | .lineMain => ⟨"LineMain", "line_main", 24⟩
  | .lineEnd => ⟨"LineEnd", "line_end", 24⟩

/-- The name of an opcode in serialised records. -/
def name (op : Opcode) : String := op.info.name

/-- The name of an opcode in listings and messages. -/
def mnemonic (op : Opcode) : String := op.info.mnemonic

/-- The number of bytes an instruction takes, its opcode byte included. -/
def size (op : Opcode) : Nat := op.info.size

/-- The number of opcodes; the bytes in use are those below it. -/
def count : Nat := 143

/-- The opcodes in the order of their bytes. -/
def all : Array Opcode := #[
  .nop, .evtEnd, .evtNext, .evtChain, .evtExec, .evtKill, .ifStart, .elseStart, .endIf, .sleep,
  .sleeping, .wsleep, .wsleeping, .forLoop, .forEnd, .whileLoop, .whileEnd, .doLoop, .doEnd,
  .switch, .caseArm, .defaultCase, .endSwitch, .goto, .gosub, .gosubReturn, .breakLoop, .for2,
  .breakPoint, .workCopy, .nop1E, .nop1F, .nop20, .check, .setBit, .compare, .save, .copy,
  .calculate, .calculateFrom, .sceRnd, .cutChg, .cutOld, .messageOn, .aotSet, .objModelSet,
  .workSet, .speedSet, .addSpeed, .addAspeed, .posSet, .dirSet, .memberSet, .memberSet2, .seOn,
  .scaIdSet, .flrSet, .dirCk, .sceEsprOn, .doorAotSet, .cutAuto, .memberCopy, .memberCmp,
  .plcMotion, .plcDest, .plcNeck, .plcRet, .plcFlg, .sceEmSet, .colChgSet, .aotReset, .aotOn,
  .superSet, .superReset, .plcGun, .cutReplace, .sceEsprKill, .doorModelSet, .itemAotSet,
  .sceKeyCk, .sceTrgCk, .sceBgmControl, .sceEsprControl, .sceFadeSet, .sceEspr3dOn, .memberCalc,
  .memberCalc2, .sceBgmtblSet, .plcRot, .xaOn, .weaponChg, .plcCnt, .sceShakeOn, .mizuDivSet,
  .keepItemCk, .xaVol, .kageSet, .cutBeSet, .sceItemLost, .plcGunEff, .sceEsprOn2, .sceEsprKill2,
  .plcStop, .aotSet4p, .doorAotSet4p, .itemAotSet4p, .lightPosSet, .lightKidoSet, .rbjReset,
  .sceScrMove, .partsSet, .movieOn, .splcRet, .splcSce, .superOn, .mirrorSet, .sceFadeAdjust,
  .sceEspr3dOn2, .sceItemGet, .sceLineStart, .sceLineMain, .sceLineEnd, .scePartsBomb,
  .scePartsDown, .lightColorSet, .lightPosSet2, .lightKidoSet2, .lightColorSet2, .seVol,
  .sceItemCmp, .sceEsprTask, .plcHeal, .stMapHint, .sceEmPosCk, .poisonCk, .poisonClr,
  .sceItemLost2, .evtNext2, .vloopSet, .otaBeSet, .lineBegin, .lineMain, .lineEnd]

/-- The byte that encodes an opcode. -/
def toByte (op : Opcode) : UInt8 := UInt8.ofNat op.ctorIdx

/-- The opcode a byte encodes, if it is in use. -/
def ofByte? (b : UInt8) : Option Opcode :=
  if b.toNat < count then some (.ofNat b.toNat) else none

/-- The opcode of a given serialised name. -/
def ofName? (s : String) : Option Opcode := all.find? (·.name == s)

theorem size_pos (op : Opcode) : 0 < op.size := by
  cases op <;> decide

theorem ctorIdx_ofNat : ∀ n < count, (Opcode.ofNat n).ctorIdx = n := by
  decide +kernel

@[simp] theorem ofByte?_toByte (op : Opcode) : ofByte? op.toByte = some op := by
  cases op <;> rfl

theorem toByte_of_ofByte? {b : UInt8} {op : Opcode} (h : ofByte? b = some op) : op.toByte = b := by
  unfold ofByte? at h
  split at h
  · next hb =>
    obtain rfl := Option.some.inj h
    rw [toByte, ctorIdx_ofNat _ hb, UInt8.ofNat_toNat]
  · exact nomatch h

end Opcode

end RoomScript
