import Mathlib.Logic.Function.Basic
import RoomScript.Session

/-!
# The registry of triggers

A session never looks for the trigger it should replace. It keeps every trigger that the room has
registered, the latest one last, and looks from the back; a reset changes all triggers of an id, the
ones that were registered over as well. So the list may hold any number of triggers that are no
longer meant.

Seen from outside there is one slot for each id, and what is registered last is in it. An older
trigger could only show through if the one behind it went away or changed its id. But triggers leave
the list all at once, when the room is left, and a reset changes neither the id of a trigger nor its
place. Therefore the trigger that is found after a reset is the one that was found before it, with
the change made to it.

**Main statements.** `Session.zone?_change`: whatever is done to a session, to its slots it is what
`Slots.change` says. `Session.zone?_changeAll`: so for any number of changes.
`Session.registry_is_map`: from a new session on, triggers and what they fire are those of the
slots.
-/

namespace RoomScript

open Payload

/-! ### Slots -/

/-- What can be done to a session: a write is carried out, or the room is left. -/
inductive Session.Change
  | write (w : Write)
  | leaveRoom

/-- A trigger for each id that has one. -/
abbrev Slots := UInt8 → Option AotSet

namespace Slots

/-- No triggers at all. -/
def empty : Slots := fun _ => none

/-- A trigger with the `sce`, `sat` and data that a reset gives it. -/
def overwrite (reset : AotReset) (zone : AotSet) : AotSet :=
  { zone with
    header := { zone.header with sce := reset.sce, sat := reset.sat }
    data := reset.data }

/-- **What is done to the slots**: a registration replaces the slot of its id, a reset changes the
trigger in the slot if there is one, and leaving the room empties all slots. Nothing else has a part
in them. -/
def change (slots : Slots) : Session.Change → Slots
  | .write (.registerZone zone) => Function.update slots zone.header.aot (some zone)
  | .write (.resetZone reset) =>
    Function.update slots reset.aot ((slots reset.aot).map (overwrite reset))
  | .write _ => slots
  | .leaveRoom => empty

/-- **What the trigger in a slot fires**: an event instruction, if it is of that kind. -/
def fires (slots : Slots) (id : UInt8) : Option Bytes :=
  match slots id with
  | some zone =>
    if zone.header.sce = 5 then some #[0x04, zone.data.get 0, 0x00, zone.data.get 3] else none
  | none => none

end Slots

/-! ### What changes do to the triggers of a session -/

namespace Session

/-- Carries out a change. -/
def change (s : Session) : Change → Session
  | .write w => s.perform w
  | .leaveRoom => s.leaveRoom

/-- Carries out changes one after the other. -/
def changeAll (s : Session) (changes : List Change) : Session := changes.foldl change s

/-- A trigger is found under its own id. -/
theorem aot_of_zone? {s : Session} {id : UInt8} {zone : AotSet} (h : s.zone? id = some zone) :
    zone.header.aot = id := by
  simpa using List.find?_some h

variable (s : Session)

/-- A registration is found before everything else under its id. -/
theorem zone?_registerZone (zone : AotSet) :
    (s.perform (.registerZone zone)).zone? =
      Function.update s.zone? zone.header.aot (some zone) := by
  funext id
  show (s.zones.push zone).toList.reverse.find? (·.header.aot = id) = _
  rw [Array.toList_push, List.reverse_concat, List.find?_cons]
  -- the new trigger is looked at first
  by_cases h : zone.header.aot = id
  · subst h
    simp
  · rw [Function.update_of_ne (Ne.symm h), decide_eq_false h]
    rfl

/-- A reset leaves every trigger its id. -/
theorem aot_resetOne (reset : AotReset) (zone : AotSet) :
    (resetOne reset zone).header.aot = zone.header.aot := by
  unfold resetOne
  split <;> rfl

/-- **A reset changes the triggers that are found, and not which ones.** -/
theorem zone?_resetZone_apply (reset : AotReset) (id : UInt8) :
    (s.perform (.resetZone reset)).zone? id = (s.zone? id).map (resetOne reset) := by
  show (s.zones.map (resetOne reset)).toList.reverse.find? (·.header.aot = id) = _
  rw [Array.toList_map, ← List.map_reverse, List.find?_map]
  simp only [Function.comp_def, aot_resetOne]
  rfl

/-- So a reset is a change of one slot. -/
theorem zone?_resetZone (reset : AotReset) :
    (s.perform (.resetZone reset)).zone? =
      Function.update s.zone? reset.aot ((s.zone? reset.aot).map (Slots.overwrite reset)) := by
  funext id
  rw [zone?_resetZone_apply]
  by_cases h : id = reset.aot
  · subst h
    rw [Function.update_self]
    refine Option.map_congr fun zone hzone => ?_
    rw [resetOne, if_pos (aot_of_zone? hzone)]
    rfl
  -- a zone that is found under an id has this id, so a reset of another one passes it by
  · rw [Function.update_of_ne h]
    cases hzone : s.zone? id with
    | none => rfl
    | some zone =>
      have hother : zone.header.aot ≠ reset.aot := aot_of_zone? hzone ▸ h
      rw [Option.map_some, resetOne, if_neg hother]

/-- **Whatever is done to a session, its triggers are those of the slots.** -/
theorem zone?_change (c : Change) : (s.change c).zone? = Slots.change s.zone? c := by
  cases c with
  | leaveRoom => rfl
  | write w =>
    cases w with
    | registerZone zone => exact s.zone?_registerZone zone
    | resetZone reset => exact s.zone?_resetZone reset
    -- the one other write that looks at the session before it changes it
    | removeCollision id =>
      show (if s.removedCollisions.contains id then s
        else { s with removedCollisions := s.removedCollisions.push id }).zone? = s.zone?
      split <;> rfl
    | _ => rfl

/-- **So for any number of changes**, in any order. -/
theorem zone?_changeAll (changes : List Change) :
    (s.changeAll changes).zone? = changes.foldl Slots.change s.zone? := by
  induction changes generalizing s with
  | nil => rfl
  | cons c changes ih =>
    rw [List.foldl_cons, ← zone?_change]
    exact ih (s.change c)

/-- What a trigger fires is what its slot fires. -/
theorem eventTrigger_eq (id : UInt8) : s.eventTrigger id = Slots.fires s.zone? id := by
  unfold eventTrigger Slots.fires
  cases s.zone? id with
  | none => rfl
  | some zone => rfl

/-- **The registry is a map in which the last writer wins.** For all changes to a new session, in
any order and with any ids as often as one likes, and for every id: the trigger of the id, and what
it fires, are those of the slot of that id. A registration replaces the slot, a reset overwrites the
`sce`, `sat` and data of the trigger in it and ignores an empty slot, and leaving the room empties
all slots; no other write has a part in them. -/
theorem registry_is_map (changes : List Change) (id : UInt8) :
    let session := ({} : Session).changeAll changes
    let slots := changes.foldl Slots.change Slots.empty
    session.zone? id = slots id ∧ session.eventTrigger id = slots.fires id := by
  intro session slots
  have hslots : session.zone? = slots := zone?_changeAll {} changes
  exact ⟨congrFun hslots id, by rw [eventTrigger_eq, hslots]⟩

end Session

end RoomScript
