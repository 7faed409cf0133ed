import Mathlib.Logic.Function.Basic

/-! # Starting a checkpoint

`start_CP`, `lock_running`, `unlock_running` and the end of `do_CP` each run under the writer
lock, as one atomic step of an interleaving of lock holders and the checkpoint thread.
-/

namespace KosmosFs

/-- The fields of `Checkpoint` guarded by its writer lock. -/
structure Checkpoint where
  running : Bool
  mutations : Nat
  nostart : Bool
  startblocked : Bool
  cpcount : Nat
  deriving DecidableEq, Repr

namespace Checkpoint

/-- `Checkpoint::isCPNeeded`. -/
def isCPNeeded (c : Checkpoint) : Bool := !c.running && c.mutations != 0

/-- `Checkpoint::start_CP`. -/
def startCP (c : Checkpoint) : Checkpoint :=
  if !c.running && c.mutations != 0 then
    if c.nostart then { c with startblocked := true }
    else { c with running := true, mutations := 0 }
  else c

/-- The locked section of `Checkpoint::lock_running`. The source returns `running`,
read just after the lock is released; no caller of the model uses it. -/
@[simps] def lockRunning (c : Checkpoint) : Checkpoint := { c with nostart := true }

/-- The locked section of `Checkpoint::unlock_running`, with the `startit` it reads. -/
@[simps] def unlockRunning (c : Checkpoint) : Checkpoint × Bool :=
  ({ c with nostart := false, startblocked := false }, c.startblocked)

/-- A mutation noted for the next checkpoint. -/
@[simps] def noteMutation (c : Checkpoint) : Checkpoint := { c with mutations := c.mutations + 1 }

/-- The locked section that ends `Checkpoint::do_CP`. -/
@[simps] def finishCP (c : Checkpoint) : Checkpoint :=
  { c with running := false, cpcount := c.cpcount + 1 }

/-- Whether `start_CP` sets `running`. -/
def Starts (c : Checkpoint) : Prop := c.running = false ∧ c.mutations ≠ 0 ∧ c.nostart = false

/-- Whether `start_CP` defers the start to `unlock_running`. -/
def Defers (c : Checkpoint) : Prop := c.running = false ∧ c.mutations ≠ 0 ∧ c.nostart = true

instance (c : Checkpoint) : Decidable c.Starts := inferInstanceAs (Decidable (_ ∧ _))
instance (c : Checkpoint) : Decidable c.Defers := inferInstanceAs (Decidable (_ ∧ _))

variable {c : Checkpoint}

theorem startCP_of_starts (h : c.Starts) :
    c.startCP = { c with running := true, mutations := 0 } := by
  obtain ⟨h₁, h₂, h₃⟩ := h
  simp [startCP, h₁, h₂, h₃]

theorem startCP_of_defers (h : c.Defers) : c.startCP = { c with startblocked := true } := by
  obtain ⟨h₁, h₂, h₃⟩ := h
  simp [startCP, h₁, h₂, h₃]

@[simp] theorem startCP_nostart : c.startCP.nostart = c.nostart := by
  unfold startCP; split_ifs <;> rfl

@[simp] theorem startCP_cpcount : c.startCP.cpcount = c.cpcount := by
  unfold startCP; split_ifs <;> rfl

end Checkpoint

/-- Where a thread that calls `lock_running` and `unlock_running` is. -/
inductive Holder
  /-- no section open -/
  | outside
  /-- between `lock_running` and `unlock_running` -/
  | inside
  /-- `unlock_running` has released the lock with `startit` set; `start_CP` is next -/
  | restarting
  deriving DecidableEq, Repr

/-- Where the checkpoint thread is in `do_CP`. -/
inductive Writer
  /-- waiting for `running` -/
  | waiting
  /-- writing the checkpoint file -/
  | writing
  deriving DecidableEq, Repr

/-- The shared checkpoint state, the holders, the checkpoint thread, and two ghost fields:
the number of checkpoint starts and whether a deferred start is owed. -/
structure Sys where
  cp : Checkpoint
  holder : Nat → Holder
  writer : Writer
  starts : Nat
  owed : Bool

/-- One step of some thread. -/
inductive Act
  /-- a mutation is noted -/
  | mutate
  /-- some thread calls `start_CP` -/
  | start
  /-- holder `h` calls `lock_running` -/
  | lock (h : Nat)
  /-- holder `h` runs the locked section of `unlock_running` -/
  | unlock (h : Nat)
  /-- holder `h` makes the deferred `start_CP` call of `unlock_running` -/
  | restart (h : Nat)
  /-- the checkpoint thread finds `running` set and starts writing -/
  | wake
  /-- the checkpoint thread ends `do_CP` -/
  | finish
  deriving DecidableEq, Repr

namespace Sys

/-- Nothing running, nothing counted, no section open. -/
def init : Sys :=
  ⟨⟨false, 0, false, false, 0⟩, fun _ => .outside, .waiting, 0, false⟩

/-- A call of `start_CP`, with its effect on the ghost fields. -/
def callStart (s : Sys) : Sys :=
  if s.cp.Starts then { s with cp := s.cp.startCP, starts := s.starts + 1, owed := false }
  else if s.cp.Defers then { s with cp := s.cp.startCP, owed := true }
  else s

/-- Holder `h` runs `lock_running`. -/
@[simps] def lockBy (s : Sys) (h : Nat) : Sys :=
  { s with cp := s.cp.lockRunning, holder := Function.update s.holder h .inside }

/-- Holder `h` runs the locked section of `unlock_running`. -/
@[simps] def unlockBy (s : Sys) (h : Nat) : Sys :=
  { s with
    cp := s.cp.unlockRunning.1
    holder := Function.update s.holder h (if s.cp.unlockRunning.2 then .restarting else .outside) }

/-- Holder `h` makes the `start_CP` call that `unlock_running` deferred. -/
@[simps] def restartBy (s : Sys) (h : Nat) : Sys :=
  { s.callStart with holder := Function.update s.holder h .outside }

/-- The step function of the interleaving; `none` when the thread cannot take the step. -/
def step (s : Sys) : Act → Option Sys
  | .mutate => some { s with cp := s.cp.noteMutation }
  | .start => some s.callStart
  | .lock h => if s.holder h = .outside then some (s.lockBy h) else none
  | .unlock h => if s.holder h = .inside then some (s.unlockBy h) else none
  | .restart h => if s.holder h = .restarting then some (s.restartBy h) else none
  | .wake => if s.writer = .waiting ∧ s.cp.running then some { s with writer := .writing } else none
  | .finish =>
    if s.writer = .writing then some { s with cp := s.cp.finishCP, writer := .waiting } else none

/-- The states some interleaving reaches from `init`. -/
inductive Reachable : Sys → Prop
  | init : Reachable init
  | step {s s' : Sys} {a : Act} : Reachable s → s.step a = some s' → Reachable s'

/-- Run a schedule of steps in order. -/
def run : Sys → List Act → Option Sys
  | s, [] => some s
  | s, a :: as => (s.step a).bind (run · as)

theorem Reachable.run {s s' : Sys} {as : List Act} (h : Reachable s) (hr : s.run as = some s') :
    Reachable s' := by
  induction as generalizing s with
  | nil => exact Option.some.inj hr ▸ h
  | cons a as ih =>
    simp only [Sys.run, Option.bind_eq_some] at hr
    obtain ⟨t, ht, hr⟩ := hr
    exact ih (h.step ht) hr

theorem reach_of_run (as : List Act) (p : Sys → Bool) (h : (init.run as).map p = some true) :
    ∃ s, Reachable s ∧ p s = true := by
  cases hr : init.run as with
  | none => simp [hr] at h
  | some s => exact ⟨s, Reachable.init.run hr, by simpa [hr] using h⟩

variable {s s' : Sys} {a : Act}

@[simp] theorem callStart_holder : s.callStart.holder = s.holder := by
  unfold callStart; split_ifs <;> rfl

@[simp] theorem callStart_writer : s.callStart.writer = s.writer := by
  unfold callStart; split_ifs <;> rfl

theorem callStart_cases (s : Sys) :
    (s.cp.Starts ∧ s.callStart =
      { s with cp := { s.cp with running := true, mutations := 0 }, starts := s.starts + 1,
               owed := false }) ∨
    (s.cp.Defers ∧
      s.callStart = { s with cp := { s.cp with startblocked := true }, owed := true }) ∨
    (¬ s.cp.Starts ∧ ¬ s.cp.Defers ∧ s.callStart = s) := by
  by_cases h : s.cp.Starts
  · exact .inl ⟨h, by simp [callStart, h, Checkpoint.startCP_of_starts h]⟩
  · by_cases h' : s.cp.Defers
    · exact .inr (.inl ⟨h', by simp [callStart, h, h', Checkpoint.startCP_of_defers h']⟩)
    · exact .inr (.inr ⟨h, h', by simp [callStart, h, h']⟩)

/-- What holds of every reachable state. `owed` is set by a `start_CP` that defers and cleared
by one that starts. -/
structure Inv (s : Sys) : Prop where
  writing_running : s.writer = .writing → s.cp.running = true
  count : s.cp.cpcount + (if s.cp.running then 1 else 0) = s.starts
  blocked_nostart : s.cp.startblocked = true → s.cp.nostart = true
  nostart_inside : s.cp.nostart = true → ∃ h, s.holder h = .inside
  owed_idle : s.owed = true → s.cp.running = false ∧ s.cp.mutations ≠ 0
  owed_carried : s.owed = true → s.cp.startblocked = true ∨ ∃ h, s.holder h = .restarting

theorem inv_init : Inv init where
  writing_running := by simp [init]
  count := rfl
  blocked_nostart := by simp [init]
  nostart_inside := by simp [init]
  owed_idle := by simp [init]
  owed_carried := by simp [init]

theorem Inv.idle_of_owed (hi : Inv s) (h : ¬ s.cp.Starts) (h' : ¬ s.cp.Defers) :
    s.owed = false := by
  cases ho : s.owed
  · rfl
  · obtain ⟨h₁, h₂⟩ := hi.owed_idle ho
    cases hn : s.cp.nostart
    · exact absurd ⟨h₁, h₂, hn⟩ h
    · exact absurd ⟨h₁, h₂, hn⟩ h'

theorem Inv.callStart (hi : Inv s) : Inv s.callStart := by
  rcases callStart_cases s with ⟨hs, he⟩ | ⟨hd, he⟩ | ⟨-, -, he⟩
  · have hb : s.cp.startblocked = false := by
      cases hb : s.cp.startblocked
      · rfl
      · simpa [hs.2.2] using hi.blocked_nostart hb
    rw [he]
    refine ⟨fun _ => rfl, ?_, ?_, ?_, ?_, ?_⟩ <;> simp [hs.1, hs.2.2, hb, ← hi.count]
  · rw [he]
    exact ⟨fun hw => absurd (hi.writing_running hw) (by simp [hd.1]), hi.count, fun _ => hd.2.2,
      fun _ => hi.nostart_inside hd.2.2, fun _ => ⟨hd.1, hd.2.1⟩, fun _ => .inl rfl⟩
  · rwa [he]

theorem Inv.restart {h : Nat} (hi : Inv s) (hh : s.holder h = .restarting) :
    Inv (s.restartBy h) := by
  have hc := hi.callStart
  have hh' : s.callStart.holder = s.holder := by
    rcases callStart_cases s with ⟨-, he⟩ | ⟨-, he⟩ | ⟨-, -, he⟩ <;> rw [he]
  refine ⟨hc.writing_running, hc.count, hc.blocked_nostart, ?_, hc.owed_idle, ?_⟩
  · intro hn
    obtain ⟨g, hg⟩ := hc.nostart_inside hn
    have hgh : g ≠ h := by rintro rfl; simp [hh', hh] at hg
    exact ⟨g, by simpa [Function.update_noteq hgh, hh'] using hg⟩
  · intro ho
    rcases callStart_cases s with ⟨-, he⟩ | ⟨-, he⟩ | ⟨h₀, h₀', he⟩
    · simp [he] at ho
    · simp [he]
    · simp [he, hi.idle_of_owed h₀ h₀'] at ho

theorem Inv.lock {h : Nat} (hi : Inv s) (hh : s.holder h = .outside) : Inv (s.lockBy h) where
  writing_running := hi.writing_running
  count := hi.count
  blocked_nostart _ := rfl
  nostart_inside _ := ⟨h, by simp⟩
  owed_idle := hi.owed_idle
  owed_carried ho := by
    rcases hi.owed_carried ho with hb | ⟨g, hg⟩
    · exact .inl hb
    · have hgh : g ≠ h := by rintro rfl; simp [hh] at hg
      exact .inr ⟨g, by simpa [Function.update_noteq hgh] using hg⟩

theorem Inv.unlock {h : Nat} (hi : Inv s) (hh : s.holder h = .inside) : Inv (s.unlockBy h) where
  writing_running := hi.writing_running
  count := hi.count
  blocked_nostart := by simp [Checkpoint.unlockRunning]
  nostart_inside := by simp [Checkpoint.unlockRunning]
  owed_idle := hi.owed_idle
  owed_carried ho := by
    cases hb : s.cp.startblocked
    · obtain hb' | ⟨g, hg⟩ := hi.owed_carried ho
      · simp [hb] at hb'
      · have hgh : g ≠ h := by rintro rfl; simp [hh] at hg
        exact .inr ⟨g, by simpa [Function.update_noteq hgh] using hg⟩
    · exact .inr ⟨h, by simp [Checkpoint.unlockRunning, hb]⟩

theorem Inv.step (hi : Inv s) (h : s.step a = some s') : Inv s' := by
  cases a with
  | mutate =>
    cases h
    exact { hi with
      owed_idle := fun ho => ⟨(hi.owed_idle ho).1, by simp [Checkpoint.noteMutation]⟩ }
  | start => cases h; exact hi.callStart
  | lock g =>
    obtain ⟨hg, ⟨⟩⟩ := Option.ite_none_right_eq_some.mp h
    exact hi.lock hg
  | unlock g =>
    obtain ⟨hg, ⟨⟩⟩ := Option.ite_none_right_eq_some.mp h
    exact hi.unlock hg
  | restart g =>
    obtain ⟨hg, ⟨⟩⟩ := Option.ite_none_right_eq_some.mp h
    exact hi.restart hg
  | wake =>
    obtain ⟨hw, ⟨⟩⟩ := Option.ite_none_right_eq_some.mp h
    exact { hi with writing_running := fun _ => hw.2 }
  | finish =>
    obtain ⟨hw, ⟨⟩⟩ := Option.ite_none_right_eq_some.mp h
    have hr := hi.writing_running hw
    refine { hi with writing_running := by simp, count := ?_, owed_idle := ?_ }
    · simpa [Checkpoint.finishCP, hr, Nat.add_comm] using hi.count
    · exact fun ho => ⟨rfl, (hi.owed_idle ho).2⟩

theorem Reachable.inv (h : Reachable s) : Inv s := by
  induction h with
  | init => exact inv_init
  | step _ hs ih => exact ih.step hs

theorem callStart_running_set (h₀ : s.cp.running = false) (h₁ : s.callStart.cp.running = true) :
    s.cp.Starts ∧ s.callStart.starts = s.starts + 1 := by
  rcases callStart_cases s with ⟨hs, he⟩ | ⟨-, he⟩ | ⟨-, -, he⟩
  · exact ⟨hs, by rw [he]⟩
  · simp [he, h₀] at h₁
  · simp [he, h₀] at h₁

theorem running_set (hi : Inv s) (h : s.step a = some s') (h₀ : s.cp.running = false)
    (h₁ : s'.cp.running = true) :
    (a = .start ∨ ∃ g, a = .restart g) ∧ s.cp.Starts ∧ s.writer = .waiting ∧
      s'.starts = s.starts + 1 := by
  have hw : s.writer = .waiting := by
    cases hw : s.writer
    · rfl
    · simp [hi.writing_running hw] at h₀
  cases a with
  | start =>
    cases h
    exact ⟨.inl rfl, (callStart_running_set h₀ h₁).1, hw, (callStart_running_set h₀ h₁).2⟩
  | restart g =>
    obtain ⟨-, ⟨⟩⟩ := Option.ite_none_right_eq_some.mp h
    obtain ⟨hs, hc⟩ := callStart_running_set h₀ (by simpa using h₁)
    exact ⟨.inr ⟨g, rfl⟩, hs, hw, by simpa using hc⟩
  | mutate => cases h; simp [h₀] at h₁
  | lock g => obtain ⟨-, ⟨⟩⟩ := Option.ite_none_right_eq_some.mp h; simp [h₀] at h₁
  | unlock g => obtain ⟨-, ⟨⟩⟩ := Option.ite_none_right_eq_some.mp h; simp [h₀] at h₁
  | wake => obtain ⟨-, ⟨⟩⟩ := Option.ite_none_right_eq_some.mp h; simp [h₀] at h₁
  | finish => obtain ⟨-, ⟨⟩⟩ := Option.ite_none_right_eq_some.mp h; simp at h₁

theorem callStart_owed (ho : s.owed = true) :
    s.callStart.owed = true ∨ s.callStart.starts = s.starts + 1 := by
  rcases callStart_cases s with ⟨-, he⟩ | ⟨-, he⟩ | ⟨-, -, he⟩ <;> simp [he, ho]

theorem owed_kept (h : s.step a = some s') (ho : s.owed = true) :
    s'.owed = true ∨ s'.starts = s.starts + 1 := by
  cases a with
  | start => cases h; exact callStart_owed ho
  | restart g =>
    obtain ⟨-, ⟨⟩⟩ := Option.ite_none_right_eq_some.mp h
    simpa using callStart_owed ho
  | mutate => cases h; exact .inl ho
  | lock g => obtain ⟨-, ⟨⟩⟩ := Option.ite_none_right_eq_some.mp h; exact .inl ho
  | unlock g => obtain ⟨-, ⟨⟩⟩ := Option.ite_none_right_eq_some.mp h; exact .inl ho
  | wake => obtain ⟨-, ⟨⟩⟩ := Option.ite_none_right_eq_some.mp h; exact .inl ho
  | finish => obtain ⟨-, ⟨⟩⟩ := Option.ite_none_right_eq_some.mp h; exact .inl ho

/-- A checkpoint starts while the second of two overlapping sections is still open. -/
theorem start_inside_open_section :
    ∃ s, Reachable s ∧ s.holder 1 = .inside ∧ s.cp.running = false ∧
      ∃ s', s.step .start = some s' ∧ s'.cp.running = true := by
  obtain ⟨s, hs, hp⟩ := reach_of_run [.lock 0, .lock 1, .unlock 0, .mutate]
    (fun s => s.holder 1 == .inside && !s.cp.running && (s.step .start).any (·.cp.running))
    (by decide)
  simp only [Bool.and_eq_true, beq_iff_eq, Bool.not_eq_true'] at hp
  cases h : s.step .start with
  | none => simp [h] at hp
  | some s' => exact ⟨s, hs, hp.1.1, hp.1.2, s', h, by simpa [h] using hp.2⟩

/-- The start control of every reachable state. -/
structure StartControl (s : Sys) : Prop where
  count : s.cp.cpcount + (if s.cp.running then 1 else 0) = s.starts
  running_set : ∀ a s', s.step a = some s' → s.cp.running = false → s'.cp.running = true →
    (a = .start ∨ ∃ h, a = .restart h) ∧ s.cp.mutations ≠ 0 ∧ s.cp.nostart = false ∧
      s.writer = .waiting
  owed_carried : s.owed = true →
    (s.cp.startblocked = true ∧ ∃ h, s.holder h = .inside) ∨ ∃ h, s.holder h = .restarting
  owed_kept : ∀ a s', s.step a = some s' → s.owed = true →
    s'.owed = true ∨ s'.starts = s.starts + 1

theorem start_control (hr : Reachable s) : StartControl s := by
  have hi := hr.inv
  refine ⟨hi.count, fun a s' h h₀ h₁ => ?_, fun ho => ?_, fun a s' h => owed_kept h⟩
  · obtain ⟨ha, hs, hw, -⟩ := running_set hi h h₀ h₁
    exact ⟨ha, hs.2.1, hs.2.2, hw⟩
  · rcases hi.owed_carried ho with hb | hg
    · exact .inl ⟨hb, hi.nostart_inside (hi.blocked_nostart hb)⟩
    · exact .inr hg

theorem start_control_deferred :
    let s := (init.run [.lock 0, .mutate, .start]).getD init
    let s' := (s.run [.unlock 0, .restart 0]).getD s
    s.owed = true ∧ s'.cp.running = true ∧ s'.starts = 1 ∧ StartControl s ∧ StartControl s' := by
  intro s s'
  have hr : init.run [.lock 0, .mutate, .start] = some s := rfl
  have hr' : s.run [.unlock 0, .restart 0] = some s' := rfl
  have hs := Reachable.init.run hr
  exact ⟨rfl, rfl, rfl, start_control hs, start_control (hs.run hr')⟩

end Sys

end KosmosFs
