import RoomScript.Proofs.History

/-!
# What a script has selected

Position and member writes go to the entity that a thread has selected. The selection belongs to the
thread and not to the script: starting a thread gives it a fresh outermost level and leaves the
selection as the script before has left it. So a script that writes without selecting anything
reaches whatever an earlier script on the same thread was about.

This can be said exactly. At every moment of a run the selection of a thread is the one that it has
executed last in the whole run, whoever has started it since; a thread that has executed none has
selected nothing. A script can be sure to move only what it has selected itself just when no thread
is activated that still has the player or an object selected.

**Main statements.** `Machine.Path.tracked`: the selection of a thread is the last one of its
history. `Engine.moves_last_selection`: what is moved in a run was selected in it, and when it was
selected since the thread was last activated. `Engine.selection_outlives_script`: a script that
selects nothing moves the player.
-/

namespace RoomScript

open Payload

/-! ### The last selection of a history -/

/-- The selection that a thread makes. -/
def Happening.selection? {n : Nat} {σ : Type} (i : Fin n) : Happening n σ → Option WorkSet
  | .starts _ => none
  | .executes t =>
    if t.thread = i ∧ t.op = .workSet then
      match decode WorkSelect t.raw with
      | .ok p => some ⟨p.component, p.index⟩
      | .error _ => none
    else none

/-- **What a thread has selected last**; nothing if it has selected nothing at all. -/
def lastSelection {n : Nat} {σ : Type} (past : List (Happening n σ)) (i : Fin n) : WorkSet :=
  (past.reverse.findSome? (Happening.selection? i)).getD {}

section History

variable {n : Nat} {σ : Type} {past : List (Happening n σ)} {i : Fin n}

theorem lastSelection_snoc (past : List (Happening n σ)) (h : Happening n σ) (i : Fin n) :
    lastSelection (past ++ [h]) i = (h.selection? i).getD (lastSelection past i) := by
  unfold lastSelection
  rw [List.reverse_append, List.reverse_singleton, List.singleton_append, List.findSome?_cons]
  cases h.selection? i <;> rfl

/-- A selection is the last one if none comes behind it. -/
theorem lastSelection_of_split {front back : List (Happening n σ)} {h : Happening n σ} {w : WorkSet}
    (hsel : h.selection? i = some w) (hback : ∀ h ∈ back, h.selection? i = none) :
    lastSelection (front ++ h :: back) i = w := by
  have hnone : back.reverse.findSome? (Happening.selection? i) = none :=
    List.findSome?_eq_none_iff.mpr fun h hh => hback h (List.mem_reverse.mp hh)
  unfold lastSelection
  rw [List.reverse_append, List.reverse_cons, List.append_assoc, List.findSome?_append, hnone,
    List.singleton_append, List.findSome?_cons, hsel]
  rfl

/-- **A thread that has something selected has selected it**, and nothing since. -/
theorem exists_selection (h : lastSelection past i ≠ {}) :
    ∃ front s back, past = front ++ .executes s :: back ∧ s.thread = i ∧ s.op = .workSet ∧
      (Happening.executes s).selection? i = some (lastSelection past i) ∧
      ∀ h ∈ back, h.selection? i = none := by
  cases hfound : past.reverse.findSome? (Happening.selection? i) with
  | none => exact absurd (by rw [lastSelection, hfound]; rfl) h
  | some w =>
    -- the search runs backwards, so the parts it leaves are the wrong way round
    obtain ⟨back, a, front, hpast, ha, hback⟩ := List.findSome?_eq_some_iff.mp hfound
    have hlast : lastSelection past i = w := by rw [lastSelection, hfound]; rfl
    have hsplit : past = front.reverse ++ a :: back.reverse := by
      rw [← List.reverse_reverse past, hpast]
      simp
    cases a with
    | starts j => exact nomatch ha
    | executes s =>
      have hs : s.thread = i ∧ s.op = .workSet := by
        refine Decidable.byContradiction fun hne => ?_
        rw [Happening.selection?, if_neg hne] at ha
        exact nomatch ha
      exact ⟨front.reverse, s, back.reverse, hsplit, hs.1, hs.2, hlast ▸ ha,
        fun h hh => hback h (List.mem_reverse.mp hh)⟩

end History

/-! ### Selections stay -/

namespace Thread

variable {t t' : Thread}

theorem workSet_of_pushBlock {resume : Nat} (h : t.pushBlock resume = .ok t') :
    t'.workSet = t.workSet := by
  obtain ⟨_, -, rfl⟩ := pushBlock_eq_ok h
  rfl

theorem workSet_of_popBlock {result : Except Fault Nat} (h : t.popBlock = (t', result)) :
    t'.workSet = t.workSet := by
  obtain ⟨-, rfl, -⟩ | ⟨-, rfl, -⟩ := popBlock_cases h <;> rfl

theorem workSet_of_pushLoop {frame : Frame} (h : t.pushLoop frame = .ok t') :
    t'.workSet = t.workSet := by
  obtain ⟨_, -, rfl⟩ := pushLoop_eq_ok h
  rfl

theorem workSet_of_enterSubroutine {returnTo target : Nat}
    (h : t.enterSubroutine returnTo target = .ok t') : t'.workSet = t.workSet := by
  obtain ⟨_, -, rfl⟩ := enterSubroutine_eq_ok h
  rfl

theorem workSet_of_leaveSubroutine (h : t.leaveSubroutine = some t') :
    t'.workSet = t.workSet := by
  obtain ⟨_, -, rfl⟩ := leaveSubroutine_eq_some h
  rfl

/-- **No other instruction changes the selection** than the one that is there for it. -/
theorem workSet_of_effect {script : Script} {view : Host.View} {op : Opcode} {raw : Bytes}
    {result : Except Fault Flow} (h : Effect script view t op raw t' result)
    (hop : op ≠ .workSet) : t'.workSet = t.workSet := by
  cases h with
  | selects w => exact absurd rfl hop
  | returns ht => exact workSet_of_leaveSubroutine ht
  | opensIf _ ht => exact workSet_of_pushBlock ht
  | skipsElse _ ht | closesIf ht | noIf _ ht => exact (workSet_of_popBlock ht :)
  | sleeps _ ht | opensLoop _ _ ht | takesArm _ ht _ | takesNone _ ht _ | losesArm _ ht _ =>
    exact (workSet_of_pushLoop ht :)
  | calls _ ht => exact workSet_of_enterSubroutine ht
  | _ => rfl

theorem workSet_follow (t : Thread) (flow : Flow) : (t.follow flow).1.workSet = t.workSet := by
  obtain ⟨_, heq⟩ | ⟨-, ⟨_, _, hp, heq⟩ | ⟨_, _, hp, heq⟩⟩ := follow_cases t flow <;> rw [heq]
  · exact workSet_of_popBlock hp
  · exact (workSet_of_popBlock hp :)

theorem workSet_of_turned {script : Script} {view : Host.View} {op : Opcode} {raw : Bytes}
    {result : Except Fault Machine.Pulse} (h : Turned script view t op raw t' result)
    (hop : op ≠ .workSet) : t'.workSet = t.workSet := by
  cases h with
  | fault he => exact (workSet_of_effect he hop :)
  | flow he =>
    rw [workSet_follow]
    exact (workSet_of_effect he hop :)

end Thread

namespace Machine

variable {n : Nat} {σ : Type} [Host σ] {rules : Rules} {script : Script} {i : Fin n} {op : Opcode}
  {raw : Bytes}

/-- What a change of one thread does to the selections, if it leaves that of the thread alone. -/
theorem workSet_modify {pool : Pool n} {f : Thread → Thread} (hf : ∀ t, (f t).workSet = t.workSet)
    (i j : Fin n) : ((pool.modify i f).thread j).workSet = (pool.thread j).workSet := by
  by_cases hj : j = i
  · subst hj
    rw [Pool.thread_modify, hf]
  · rw [Pool.thread_modify_of_ne _ _ hj]

/-- The instruction that is there for it selects for its own thread. -/
theorem workSet_turn_select (hstd : rules.handlers = Handler.standard) (m : Machine n σ)
    (script : Script) (i j : Fin n) {p : WorkSelect} (hp : decode WorkSelect raw = .ok p) :
    ((m.turn rules script i .workSet raw).1.pool.thread j).workSet =
      if i = j then ⟨p.component, p.index⟩ else (m.pool.thread j).workSet := by
  have hrun : m.reaction rules script i .workSet raw =
      Staging.workSelect (m.site script i) p :=
    m.reaction_of_decode script i (congrFun hstd .workSet) hp
  obtain ⟨-, -, hok⟩ := m.turn_eq rules script i .workSet raw hrun
  rw [(hok .next rfl).1]
  by_cases hj : j = i
  · subst hj
    rw [Pool.thread_replace, if_pos rfl]
    simp [Staging.workSelect, Site.become, Site.replace, site, Thread.follow, Thread.moveOn]
  · simp only [Staging.workSelect, Site.become, replace_site]
    rw [Pool.thread_replace_of_ne _ _ hj, Pool.thread_replace_of_ne _ _ hj, if_neg (Ne.symm hj)]

/-- No other turn changes a selection. -/
theorem workSet_turn_of_ne (hstd : rules.handlers = Handler.standard) {m : Machine n σ}
    (hf : script.fetch (m.pool.thread i).pc = .ok (op, raw)) (hsel : op ≠ .workSet) (j : Fin n) :
    ((m.turn rules script i op raw).1.pool.thread j).workSet = (m.pool.thread j).workSet := by
  have hw := Script.whole_of_fetch hf
  by_cases hevent : op = .evtExec
  · -- a thread that is started keeps its selection
    subst hevent
    have hready : ((m.pool.modify i Thread.ready).thread j).workSet = (m.pool.thread j).workSet :=
      workSet_modify (f := Thread.ready) (fun _ => rfl) i j
    rcases m.turn_event script i hstd hw with ⟨k, event, address, -, hpool, -⟩ | ⟨f, hpool, -⟩
    · rw [hpool, workSet_modify (f := (·.moveOn _)) (fun _ => rfl),
        workSet_modify (f := (·.activate _)) (fun _ => rfl), hready]
    · rw [hpool, hready]
  · obtain ⟨t, hpool, hturned⟩ := m.turn_local script i hstd hw hevent
    rw [hpool]
    by_cases hj : j = i
    · subst hj
      rw [Pool.thread_replace, Thread.workSet_of_turned hturned hsel]
    · rw [Pool.thread_replace_of_ne _ _ hj]

/-- **What a turn does to the selections.** -/
theorem workSet_turn (hstd : rules.handlers = Handler.standard) {m : Machine n σ}
    (hf : script.fetch (m.pool.thread i).pc = .ok (op, raw)) (j : Fin n) :
    ((m.turn rules script i op raw).1.pool.thread j).workSet =
      ((Happening.executes ⟨script, i, m, op, raw⟩).selection? j).getD
        (m.pool.thread j).workSet := by
  by_cases hsel : op = .workSet
  · subst hsel
    obtain ⟨p, hp⟩ := (Script.whole_of_fetch hf).decode (α := WorkSelect) (by decide)
    rw [workSet_turn_select hstd m script i j hp]
    by_cases hi : i = j <;> simp [Happening.selection?, hp, hi]
  · have hnone : (Happening.executes ⟨script, i, m, op, raw⟩ : Happening n σ).selection? j = none :=
      if_neg fun h => hsel h.2
    rw [hnone, Option.getD_none, workSet_turn_of_ne hstd hf hsel]

/-- The selection of every thread is the last one of a history. -/
def Tracks (m : Machine n σ) (past : List (Happening n σ)) : Prop :=
  ∀ i, (m.pool.thread i).workSet = lastSelection past i

/-- **The selections of the threads are the last ones of the history**, after whatever happens and
before every instruction on the way. -/
theorem Path.tracked (hstd : rules.handlers = Handler.standard) {m m' : Machine n σ}
    {hs : List (Happening n σ)} (h : Path rules m hs m') {past : List (Happening n σ)}
    (hpast : m.Tracks past) :
    m'.Tracks (past ++ hs) ∧ ∀ front t back, hs = front ++ .executes t :: back →
      t.machine.Tracks (past ++ front) := by
  induction h generalizing past with
  | quiet hsame =>
    refine ⟨fun i => ?_, fun front t back h => absurd h (by simp)⟩
    rw [List.append_nil, ← hpast i]
    rcases hsame i with hi | hi <;> rw [hi]
    rfl
  | starts j address hpool =>
    refine ⟨fun i => ?_, fun front t back h => ?_⟩
    · rw [hpool, workSet_modify (f := (·.activate address)) (fun _ => rfl), hpast i,
        lastSelection_snoc]
      rfl
    · cases front with
      | nil => exact absurd (List.cons.inj h).1 nofun
      | cons x front => exact absurd (List.cons.inj h).2 (by simp)
  | executes hf =>
    refine ⟨fun i => ?_, fun front t back h => ?_⟩
    · rw [workSet_turn hstd hf, hpast i, lastSelection_snoc]
    · cases front with
      | nil =>
        cases h
        rwa [List.append_nil]
      | cons x front => exact absurd (List.cons.inj h).2 (by simp)
  | trans _ _ ih ih' =>
    obtain ⟨hmid, hfirst⟩ := ih hpast
    obtain ⟨hend, hsecond⟩ := ih' hmid
    refine ⟨by rw [← List.append_assoc]; exact hend, fun front t back h => ?_⟩
    -- the instruction is in the first part, or behind all of it
    rcases List.append_eq_append_iff.mp h with ⟨as, rfl, has⟩ | ⟨bs, rfl, hbs⟩
    · rw [← List.append_assoc]
      exact hsecond as t back has
    · cases bs with
      | nil =>
        rw [List.append_nil] at hsecond
        have hthere := hsecond [] t back hbs.symm
        rwa [List.append_nil] at hthere
      | cons x bs =>
        obtain ⟨rfl, rfl⟩ := List.cons.inj hbs
        exact hfirst front t bs rfl

/-- What is executed was fetched. -/
theorem Path.fetched {m m' : Machine n σ} {hs : List (Happening n σ)} (h : Path rules m hs m')
    {t : Turn n σ} (ht : .executes t ∈ hs) :
    t.script.fetch (t.machine.pool.thread t.thread).pc = .ok (t.op, t.raw) := by
  induction h with
  | quiet => exact nomatch ht
  | starts => exact nomatch List.mem_singleton.mp ht
  | executes hf =>
    cases List.mem_singleton.mp ht
    exact hf
  | trans _ _ ih ih' => exact (List.mem_append.mp ht).elim ih ih'

end Machine

/-! ### Moving what is selected -/

/-- The writes that go to what is selected. -/
def Write.moves : Write → Bool
  | .setPlayerPosition .. | .setPlayerRotation _ | .rotateModel .. => true
  | _ => false

/-- The player or an object is selected; nothing else can be moved. -/
def WorkSet.reaches (w : WorkSet) : Bool :=
  match w.target with
  | .player | .object _ => true
  | _ => false

/-- **The instruction moves or turns what its thread has selected.** -/
def Machine.Turn.Moves {n : Nat} {σ : Type} [Host σ] (t : Machine.Turn n σ) (rules : Rules) :
    Prop :=
  (t.op = .posSet ∨ t.op = .memberSet) ∧
    ∃ w ∈ (t.machine.reaction rules t.script t.thread t.op t.raw).writes, w.moves = true

/-- **The thread has selected something since it was last activated.** -/
def SelectedSinceStart {n : Nat} {σ : Type} (past : List (Happening n σ)) (i : Fin n) : Prop :=
  ∃ front t back, past = front ++ .executes t :: back ∧ t.thread = i ∧ t.op = .workSet ∧
    ∀ h ∈ back, ¬ h.Activates i

section Moving

variable {n : Nat} {σ : Type}

theorem Staging.reaches_of_posSet {site : Site n} {p : PosSet} {w : Write}
    (hw : w ∈ (posSet site p).writes) : site.thread.workSet.reaches = true := by
  unfold posSet at hw
  split at hw
  · next htarget => simp only [WorkSet.reaches, htarget]
  · exact nomatch hw

theorem Staging.reaches_of_memberSet {site : Site n} {p : MemberSet} {w : Write}
    (hw : w ∈ (memberSet site p).writes) : site.thread.workSet.reaches = true := by
  unfold memberSet at hw
  simp only at hw
  split at hw
  · split at hw
    · next htarget => simp only [WorkSet.reaches, htarget]
    · next htarget => simp only [WorkSet.reaches, htarget]
    · exact nomatch hw
  · exact nomatch hw

/-- Only a thread that has the player or an object selected moves anything. -/
theorem Machine.Turn.Moves.reaches [Host σ] {t : Machine.Turn n σ} {rules : Rules}
    (h : t.Moves rules) (hstd : rules.handlers = Handler.standard) :
    (t.machine.pool.thread t.thread).workSet.reaches = true := by
  obtain ⟨script, i, m, op, raw⟩ := t
  obtain ⟨hop, w, hw, -⟩ := h
  have hsite : (m.site script i).thread.workSet = (m.pool.thread i).workSet := by
    rw [thread_site]
    rfl
  change (m.pool.thread i).workSet.reaches = true
  rw [← hsite]
  simp only [reaction, hstd] at hw
  rcases hop with rfl | rfl
  · simp only [Handler.standard, Handler.reading] at hw
    split at hw
    · exact Staging.reaches_of_posSet hw
    · exact absurd hw List.not_mem_nil
  · simp only [Handler.standard, Handler.reading] at hw
    split at hw
    · exact Staging.reaches_of_memberSet hw
    · exact absurd hw List.not_mem_nil

/-- A thread that was activated last has selected nothing since. -/
theorem not_selectedSinceStart {past : List (Happening n σ)} {h : Happening n σ} {i : Fin n}
    (hact : h.Activates i) : ¬ SelectedSinceStart (past ++ [h]) i := by
  rintro ⟨front, t, back, hsplit, -, hop, hquiet⟩
  -- what starts the thread is the last happening: it is no selection, and one before it is too old
  rcases List.eq_nil_or_concat back with rfl | ⟨back, x, rfl⟩
  · obtain ⟨-, hx⟩ := List.append_inj' hsplit rfl
    cases hx
    obtain ⟨address, hevent, -⟩ := hact
    rw [hop] at hevent
    exact nomatch hevent
  · rw [List.concat_eq_append, ← List.cons_append, ← List.append_assoc] at hsplit
    obtain ⟨-, hx⟩ := List.append_inj' hsplit rfl
    cases hx
    exact hquiet h (by simp) hact

/-- **Whether a thread has selected something since it was activated** is a matter of what happened
since its last selection. -/
theorem selectedSinceStart_iff {past front back : List (Happening n σ)} {s : Machine.Turn n σ}
    {i : Fin n} (hpast : past = front ++ .executes s :: back) (hthread : s.thread = i)
    (hop : s.op = .workSet) (hback : ∀ h ∈ back, h.selection? i = none)
    (hselects : ∀ t, .executes t ∈ past → t.thread = i → t.op = .workSet →
      (Happening.executes t).selection? i ≠ none) :
    SelectedSinceStart past i ↔ ∀ h ∈ back, ¬ h.Activates i := by
  constructor
  · rintro ⟨front', t, back', hpast', hthread', hop', hquiet⟩ h hh
    have ht : .executes t ∈ past := by rw [hpast']; simp
    have hnot : .executes t ∉ back := fun hmem => hselects t ht hthread' hop' (hback _ hmem)
    -- the other selection is this one or an earlier one
    rcases List.append_eq_append_iff.mp (hpast.symm.trans hpast') with
      ⟨as, -, has⟩ | ⟨bs, -, hbs⟩
    · cases as with
      | nil =>
        cases has
        exact hquiet h hh
      | cons x as =>
        cases has
        exact absurd (List.mem_append_right _ List.mem_cons_self) hnot
    · cases bs with
      | nil =>
        cases hbs
        exact hquiet h hh
      | cons x bs =>
        cases hbs
        exact hquiet h (List.mem_append_right _ (List.mem_cons_of_mem _ hh))
  · exact fun hquiet => ⟨front, s, back, hpast, hthread, hop, hquiet⟩

end Moving

namespace Engine

variable {σ : Type} [Host σ] {config : Config} {traces : TraceSet} {host : σ}
  {e : Engine config.threadCount σ} {calls : List (Call σ)}
  {past future : List (Happening config.threadCount σ)} {t : Machine.Turn config.threadCount σ}

/-- At every instruction of a run, the selection of each thread is its last one. -/
theorem tracks_history (he : e = Engine.ofConfig config traces host)
    (hsplit : e.history calls = past ++ .executes t :: future) : t.machine.Tracks past := by
  have hstd : e.rules.handlers = Handler.standard := by rw [he]; rfl
  have hidle : e.machine.Tracks [] := by
    subst he
    exact ofConfig_invariant (T := fun t => t.workSet = {}) (fun _ => rfl) config traces host
  exact ((e.path_history calls).tracked hstd hidle).2 past t future hsplit

/-- A selection that is executed is one. -/
theorem selection?_of_history (hmem : .executes t ∈ e.history calls) (hop : t.op = .workSet) :
    (Happening.executes t).selection? t.thread ≠ none := by
  have hfetch := (e.path_history calls).fetched hmem
  rw [hop] at hfetch
  obtain ⟨p, hp⟩ := (Script.whole_of_fetch hfetch).decode (α := WorkSelect) (by decide)
  simp [Happening.selection?, hop, hp]

/-- What is moved was selected, and it shows whether this was before the thread was activated. -/
theorem exists_selection_of_moves (he : e = Engine.ofConfig config traces host)
    (hsplit : e.history calls = past ++ .executes t :: future) (hmoves : t.Moves e.rules) :
    ∃ front s back, past = front ++ .executes s :: back ∧ s.thread = t.thread ∧
      s.op = .workSet ∧ (∀ h ∈ back, h.selection? t.thread = none) ∧
      (∃ w, (Happening.executes s).selection? t.thread = some w ∧ w.reaches = true) ∧
      (SelectedSinceStart past t.thread ↔ ∀ h ∈ back, ¬ h.Activates t.thread) := by
  have hreaches := hmoves.reaches (by rw [he]; rfl)
  rw [tracks_history he hsplit] at hreaches
  -- a thread that has selected nothing reaches nothing
  have hne : lastSelection past t.thread ≠ {} := by
    intro hnothing
    rw [hnothing] at hreaches
    exact nomatch hreaches
  obtain ⟨front, s, back, hpast, hthread, hop, hsel, hback⟩ := exists_selection hne
  refine ⟨front, s, back, hpast, hthread, hop, hback, ⟨_, hsel, hreaches⟩, ?_⟩
  refine selectedSinceStart_iff hpast hthread hop hback fun u hu huthread huop => ?_
  rw [← huthread]
  exact selection?_of_history (by rw [hsplit]; exact List.mem_append_left _ hu) huop

end Engine

/-- **What is moved in a run is what its thread has selected last**, be it before or after the
thread was last activated. If an instruction of a run moves or turns something, its thread has
executed a selection before, of the player or of an object, and none since. This selection was made
since the thread was last activated if and only if the thread was not activated in between. So if no
thread is ever activated that still has the player or an object selected, everything that is moved
was selected since. -/
theorem Engine.moves_last_selection {σ : Type} [Host σ] {config : Config} {traces : TraceSet}
    {host : σ} {e : Engine config.threadCount σ} (he : e = Engine.ofConfig config traces host)
    (calls : List (Call σ)) :
    (∀ past t future, e.history calls = past ++ .executes t :: future → t.Moves e.rules →
      ∃ front s back, past = front ++ .executes s :: back ∧ s.thread = t.thread ∧
        s.op = .workSet ∧ (∀ h ∈ back, h.selection? t.thread = none) ∧
        (∃ w, (Happening.executes s).selection? t.thread = some w ∧ w.reaches = true) ∧
        (SelectedSinceStart past t.thread ↔ ∀ h ∈ back, ¬ h.Activates t.thread)) ∧
    ((∀ past h future, e.history calls = past ++ h :: future → ∀ i, h.Activates i →
        (lastSelection past i).reaches = false) →
      ∀ past t future, e.history calls = past ++ .executes t :: future → t.Moves e.rules →
        SelectedSinceStart past t.thread) := by
  refine ⟨fun _ _ _ => exists_selection_of_moves he, fun hfresh past t future hsplit hmoves => ?_⟩
  obtain ⟨front, s, back, hpast, -, -, hback, ⟨w, hsel, hreaches⟩, hiff⟩ :=
    exists_selection_of_moves he hsplit hmoves
  refine hiff.mpr fun h hh hact => ?_
  -- the thread would have been activated with this selection
  obtain ⟨before, behind, rfl⟩ := List.append_of_mem hh
  have hlast : lastSelection (front ++ .executes s :: before) t.thread = w :=
    lastSelection_of_split hsel fun x hx => hback x (List.mem_append_left _ hx)
  have hnot := hfresh (front ++ .executes s :: before) h (behind ++ .executes t :: future)
    (by rw [hsplit, hpast]; simp) t.thread hact
  rw [hlast, hreaches] at hnot
  exact nomatch hnot

/-! ### Two scripts on one thread -/

/-- The thread that is started from outside. -/
def Happening.started? {n : Nat} {σ : Type} : Happening n σ → Option (Fin n)
  | .starts i => some i
  | .executes _ => none

/-- The instruction that is executed. -/
def Happening.turn? {n : Nat} {σ : Type} : Happening n σ → Option (Machine.Turn n σ)
  | .starts _ => none
  | .executes t => some t

/-- Two entry points: one selects the player, the other one moves what is selected. -/
def Script.selecting : Script where
  data := #[0x2e, 1, 0, 0x01, 0, 0x32, 0, 0x10, 0, 0, 0, 0xf0, 0xff, 0x01, 0]
  entries := [0, 5]
  entries_lt := by decide

/-- Runs the two of them on the first thread, one after the other. -/
def Script.selecting.calls : List (Call Stage) :=
  [.start .selecting 0 0, .pass .selecting 9, .start .selecting 0 1, .pass .selecting 9]

/-- The thread is started again, and the next thing it does is to move the player. -/
theorem Script.selecting.history :
    let e := Engine.ofConfig {} {} ({} : Stage)
    ∃ past i t future, e.history calls = (past ++ [.starts i]) ++ .executes t :: future ∧
      t.thread = i ∧ t.Moves e.rules := by
  intro e
  have hthird : (e.history calls)[3]?.bind Happening.started? = some ⟨0, by decide⟩ := by
    decide +kernel
  have hfourth : ((e.history calls)[4]?.bind Happening.turn?).map (fun t =>
      (t.thread.val, t.op, (t.machine.reaction e.rules t.script t.thread t.op t.raw).writes.any
        Write.moves)) = some (0, .posSet, true) := by
    decide +kernel
  generalize e.history calls = hist at hthird hfourth ⊢
  obtain ⟨x, hx, hstarted⟩ := Option.bind_eq_some_iff.mp hthird
  obtain ⟨t, hturn, hdata⟩ := Option.map_eq_some_iff.mp hfourth
  obtain ⟨y, hy, hexecuted⟩ := Option.bind_eq_some_iff.mp hturn
  cases x with
  | executes _ => exact nomatch hstarted
  | starts i =>
    cases y with
    | starts _ => exact nomatch hexecuted
    | executes t' =>
      cases hstarted
      cases hexecuted
      simp only [Prod.mk.injEq] at hdata
      obtain ⟨hthread, hop, hmoves⟩ := hdata
      obtain ⟨hlt, hget⟩ := List.getElem?_eq_some_iff.mp hy
      refine ⟨hist.take 3, ⟨0, by decide⟩, t, hist.drop 5, ?_, Fin.ext hthread, .inl hop,
        List.any_eq_true.mp hmoves⟩
      have htake : hist.take 4 = hist.take 3 ++ [.starts ⟨0, by decide⟩] := by
        rw [List.take_add_one, hx, Option.toList_some]
      have hdrop : hist.drop 4 = .executes t :: hist.drop 5 := by
        rw [List.drop_eq_getElem_cons hlt, hget]
      rw [← htake, ← hdrop, List.take_append_drop]

/-- What the second script moves was selected by the first one. -/
theorem Engine.moves_last_selection_selecting :
    let e := Engine.ofConfig {} {} ({} : Stage)
    ∃ past t future, e.history Script.selecting.calls = past ++ .executes t :: future ∧
      t.Moves e.rules ∧ ∃ s, .executes s ∈ past ∧ s.thread = t.thread ∧ s.op = .workSet := by
  intro e
  obtain ⟨past, i, t, future, hsplit, -, hmoves⟩ := Script.selecting.history
  obtain ⟨front, s, back, hpast, hthread, hop, -⟩ :=
    (moves_last_selection (e := e) rfl Script.selecting.calls).1 _ t future hsplit hmoves
  exact ⟨_, t, future, hsplit, hmoves, s, by rw [hpast]; simp, hthread, hop⟩

/-- **A selection outlives the script that has made it.** The second script selects nothing, and
moves the player. -/
theorem Engine.selection_outlives_script :
    let e := Engine.ofConfig {} {} ({} : Stage)
    ∃ past t future, e.history Script.selecting.calls = past ++ .executes t :: future ∧
      t.Moves e.rules ∧ ¬ SelectedSinceStart past t.thread := by
  intro e
  obtain ⟨past, i, t, future, hsplit, hthread, hmoves⟩ := Script.selecting.history
  exact ⟨_, t, future, hsplit, hmoves, not_selectedSinceStart hthread.symm⟩

end RoomScript
