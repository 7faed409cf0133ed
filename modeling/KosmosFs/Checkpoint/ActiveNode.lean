import Mathlib.Data.List.Basic

/-! # The active-node handshake

`write_leaves` publishes the node it holds with `save_active`; the dispatcher calls
`wait_if_active(n)` before it modifies node `n`. Each locked section and each unlocked statement
of `write_leaves` is one atomic step of the interleaving.
-/

namespace KosmosFs.ActiveNode

/-- Modelled from the spec: `LeafIter` (declared in `kfstree.h`, not in src/), the restartable
iterator over the leaves. The leaf level is given by the number of entries of each leaf
node, in order; the iterator is at a node and a position in it. -/
structure LeafIter where
  node : Nat
  pos : Nat
  deriving DecidableEq, Repr

namespace LeafIter

variable (leaves : List Nat) (li : LeafIter)

/-- `LeafIter::parent`: the node the iterator is in, `none` past the last leaf. -/
def parent : Option Nat := if li.node < leaves.length then some li.node else none

/-- Whether `LeafIter::current` is an entry (not `NULL`). -/
def current : Bool := decide (li.pos < leaves.getD li.node 0)

/-- `LeafIter::next`: the next position, moving to the next leaf at the end of a node. -/
def next : LeafIter :=
  if li.pos + 1 < leaves.getD li.node 0 then ⟨li.node, li.pos + 1⟩ else ⟨li.node + 1, 0⟩

end LeafIter

/-- What the trace records. -/
inductive Ev
  /-- the checkpoint thread reads node `n` -/
  | read (n : Nat)
  /-- the iterator moves to another node -/
  | move
  /-- `save_active` publishes a node -/
  | publish (n : Option Nat)
  /-- `wait_if_active(n)` returns -/
  | pass (n : Nat)
  /-- the dispatcher modifies node `n` -/
  | modify (n : Nat)
  deriving DecidableEq, Repr

/-- Where the checkpoint thread is in `write_leaves`. -/
inductive Pc
  /-- `LeafIter li(metatree.firstLeaf(), 0); p = li.parent(); m = li.current();` -/
  | begin
  /-- the first `save_active(p)` -/
  | save
  /-- `while (status == 0 && m != NULL)` -/
  | test
  /-- `m->checkpoint(file)`, or `m->clearskip()` -/
  | visit
  /-- `li.next()` -/
  | next
  /-- `p = li.parent(); m = (p == NULL) ? NULL : li.current();` -/
  | current
  /-- `if (p != activeNode) save_active(p);` -/
  | publish
  /-- `save_active(NULL)` -/
  | finish
  | done
  deriving DecidableEq, Repr

/-- The checkpoint thread's locals, `activeNode`, the node the dispatcher has been admitted to
modify, the trace, and (ghost) the events since the last `save_active`. -/
structure Sys where
  leaves : List Nat
  pc : Pc
  li : LeafIter
  p : Option Nat
  m : Bool
  ok : Bool
  active : Option Nat
  disp : Option Nat
  events : List Ev
  since : List Ev

/-- One step of a thread. -/
inductive Act
  /-- the checkpoint thread's next statement; `ok` is whether a `checkpoint` write succeeds -/
  | cp (ok : Bool)
  /-- the dispatcher's `wait_if_active(n)` returns -/
  | wait (n : Nat)
  /-- the dispatcher modifies the node it was admitted to -/
  | modify
  deriving DecidableEq, Repr

namespace Sys

/-- The checkpoint thread about to start `write_leaves` over `leaves`. -/
def init (leaves : List Nat) : Sys :=
  ⟨leaves, .begin, ⟨0, 0⟩, none, false, true, none, none, [], []⟩

/-- Record events. -/
@[simps] def emit (s : Sys) (es : List Ev) : Sys :=
  { s with events := s.events ++ es, since := s.since ++ es }

/-- `save_active(n)`. -/
@[simps] def saveActive (s : Sys) (n : Option Nat) : Sys :=
  { s with active := n, events := s.events ++ [.publish n], since := [] }

/-- The read of node `p`, if there is one. -/
def reads : Option Nat → List Ev
  | some n => [.read n]
  | none => []

/-- The checkpoint thread's next statement. -/
def cpStep (s : Sys) (ok : Bool) : Option Sys :=
  match s.pc with
  | .begin =>
    let li : LeafIter := ⟨0, 0⟩
    let p := li.parent s.leaves
    some { s.emit (reads p) with
      pc := .save
      li := li
      p := p
      m := p.isSome && li.current s.leaves }
  | .save => some { s.saveActive s.p with pc := .test }
  | .test => some { s with pc := if s.ok && s.m then .visit else .finish }
  | .visit => some { s.emit (reads s.p) with pc := .next, ok := ok }
  | .next =>
    -- `li.next()` reads the node it leaves
    let li := s.li.next s.leaves
    some { s.emit (.read s.li.node :: if li.node = s.li.node then [] else [.move]) with
      pc := .current
      li := li }
  | .current =>
    let p := s.li.parent s.leaves
    some { s.emit (reads p) with
      pc := .publish
      p := p
      m := p.isSome && s.li.current s.leaves }
  | .publish =>
    if s.p ≠ s.active then some { s.saveActive s.p with pc := .test }
    else some { s with pc := .test }
  | .finish => some { s.saveActive none with pc := .done }
  | .done => none

/-- The step function of the interleaving; `none` when the thread cannot take the step. -/
def step (s : Sys) : Act → Option Sys
  | .cp ok => s.cpStep ok
  | .wait n =>
    if s.disp = none ∧ s.active ≠ some n then some { (s.emit [.pass n]) with disp := some n }
    else none
  | .modify =>
    match s.disp with
    | some n => some { (s.emit [.modify n]) with disp := none }
    | none => none

/-- The states an interleaving reaches from `init leaves`. -/
inductive Reachable (leaves : List Nat) : Sys → Prop
  | init : Reachable leaves (init leaves)
  | step {s s' : Sys} {a : Act} : Reachable leaves s → s.step a = some s' → Reachable leaves s'

/-- Run a schedule of steps in order. -/
def run : Sys → List Act → Option Sys
  | s, [] => some s
  | s, a :: as => (s.step a).bind (run · as)

theorem Reachable.run {l : List Nat} {s s' : Sys} {as : List Act} (h : Reachable l s)
    (hr : s.run as = some s') : Reachable l s' := by
  induction as generalizing s with
  | nil => exact Option.some.inj hr ▸ h
  | cons a as ih =>
    simp only [Sys.run, Option.bind_eq_some] at hr
    obtain ⟨t, ht, hr⟩ := hr
    exact ih (h.step ht) hr

/-- What holds of every reachable state: `since` is what happened after the last
`save_active`, which published `active`; no `wait_if_active(active)` has returned since, and
the dispatcher has modified `active`, or holds an admission to modify it, at most once. -/
structure Inv (s : Sys) : Prop where
  since_tail : ∃ A, s.events = A ++ s.since ∧
    (A = [] ∧ s.active = none ∨ ∃ A', A = A' ++ [.publish s.active])
  since_free : ∀ q, Ev.publish q ∉ s.since
  no_pass : ∀ n, s.active = some n → Ev.pass n ∉ s.since
  one_modify : ∀ n, s.active = some n →
    s.since.count (.modify n) + (if s.disp = some n then 1 else 0) ≤ 1

theorem inv_init (l : List Nat) : Inv (init l) where
  since_tail := ⟨[], by simp [init]⟩
  since_free := by simp [init]
  no_pass := by simp [init]
  one_modify := by simp [init]

/-- Reads and moves, which the invariant does not look at. -/
def Quiet : Ev → Prop
  | .read _ | .move => True
  | _ => False

theorem quiet_reads (p : Option Nat) : ∀ e ∈ reads p, Quiet e := by
  cases p <;> simp [reads, Quiet]

theorem Inv.quiet {s t : Sys} (es : List Ev) (hi : Inv s) (hq : ∀ e ∈ es, Quiet e)
    (he : t.events = s.events ++ es) (hs : t.since = s.since ++ es) (ha : t.active = s.active)
    (hd : t.disp = s.disp) : Inv t where
  since_tail := by
    obtain ⟨A, hA, h⟩ := hi.since_tail
    exact ⟨A, by rw [he, hs, hA, List.append_assoc], by rwa [ha]⟩
  since_free q h := by
    rw [hs, List.mem_append] at h
    exact h.elim (hi.since_free q) (fun h => hq _ h)
  no_pass n h h' := by
    rw [hs, List.mem_append] at h'
    exact h'.elim (hi.no_pass n (ha ▸ h)) (fun h => hq _ h)
  one_modify n h := by
    have hc : es.count (.modify n) = 0 := List.count_eq_zero.mpr fun h => hq _ h
    simpa [hs, hd, List.count_append, hc] using hi.one_modify n (ha ▸ h)

theorem Inv.of_eq {s t : Sys} (hi : Inv s) (he : t.events = s.events) (hs : t.since = s.since)
    (ha : t.active = s.active) (hd : t.disp = s.disp) : Inv t :=
  hi.quiet [] (by simp) (by simp [he]) (by simp [hs]) ha hd

theorem Inv.saveActive {s : Sys} (n : Option Nat) : Inv (s.saveActive n) where
  since_tail := ⟨s.events ++ [.publish n], by simp⟩
  since_free := by simp
  no_pass := by simp
  one_modify m _ := by simp; split_ifs <;> simp

theorem Inv.cpStep {s t : Sys} {ok : Bool} (hi : Inv s) (h : s.cpStep ok = some t) : Inv t := by
  unfold Sys.cpStep at h
  split at h
  · cases h; exact hi.quiet _ (quiet_reads _) rfl rfl rfl rfl
  · cases h; exact (Inv.saveActive _).of_eq rfl rfl rfl rfl
  · cases h; exact hi.of_eq rfl rfl rfl rfl
  · cases h; exact hi.quiet _ (quiet_reads _) rfl rfl rfl rfl
  · cases h; exact hi.quiet _ (by split_ifs <;> simp [Quiet]) rfl rfl rfl rfl
  · cases h; exact hi.quiet _ (quiet_reads _) rfl rfl rfl rfl
  · split at h <;> cases h
    · exact (Inv.saveActive _).of_eq rfl rfl rfl rfl
    · exact hi.of_eq rfl rfl rfl rfl
  · cases h; exact (Inv.saveActive _).of_eq rfl rfl rfl rfl
  · cases h

theorem Inv.wait {s : Sys} {n : Nat} (hi : Inv s) (hw : s.disp = none ∧ s.active ≠ some n) :
    Inv { s.emit [.pass n] with disp := some n } := by
  obtain ⟨A, hA, hp⟩ := hi.since_tail
  refine ⟨⟨A, by simp [hA], by simpa using hp⟩, by simpa using hi.since_free, ?_, ?_⟩
  · intro m hm
    simp only [emit_since, emit_active, List.mem_append, List.mem_singleton, Ev.pass.injEq,
      not_or] at hm ⊢
    exact ⟨hi.no_pass m hm, fun he => hw.2 (he ▸ hm)⟩
  · intro m hm
    have := hi.one_modify m (by simpa using hm)
    have hmn : n ≠ m := fun he => hw.2 (he ▸ by simpa using hm)
    simp [hw.1] at this
    simp [List.count_append, hmn, this]

theorem Inv.modify {s : Sys} {n : Nat} (hi : Inv s) (hn : s.disp = some n) :
    Inv { s.emit [.modify n] with disp := none } := by
  obtain ⟨A, hA, hp⟩ := hi.since_tail
  refine ⟨⟨A, by simp [hA], by simpa using hp⟩, by simpa using hi.since_free, ?_, ?_⟩
  · intro m hm
    simpa using hi.no_pass m (by simpa using hm)
  · intro m hm
    have := hi.one_modify m (by simpa using hm)
    by_cases hmn : n = m
    · subst hmn; simpa [List.count_append, hn] using this
    · simpa [List.count_append, hn, hmn, Ne.symm hmn] using this

theorem Inv.step {s t : Sys} {a : Act} (hi : Inv s) (h : s.step a = some t) : Inv t := by
  cases a with
  | cp ok => exact hi.cpStep h
  | wait n =>
    obtain ⟨hw, ⟨⟩⟩ := Option.ite_none_right_eq_some.mp h
    exact hi.wait hw
  | modify =>
    simp only [Sys.step] at h
    split at h <;> cases h
    exact hi.modify ‹_›

theorem Reachable.inv {l : List Nat} {s : Sys} (h : Reachable l s) : Inv s := by
  induction h with
  | init => exact inv_init l
  | step _ hs ih => exact ih.step hs

end Sys

/-- A modification of node `n` between two reads of `n` that the checkpoint thread makes
while its iterator stays on `n`. -/
def Interferes (es : List Ev) : Prop :=
  ∃ n A B C D, es = A ++ .read n :: (B ++ .modify n :: (C ++ .read n :: D)) ∧
    .move ∉ B ∧ .move ∉ C

/-- The dispatcher modifies node 1 between the iterator's read of it and its publication. -/
theorem modify_between_reads :
    ∃ s, Sys.Reachable [1, 1] s ∧ Interferes s.events := by
  have h : ((Sys.init [1, 1]).run [.cp true, .cp true, .cp true, .cp true, .cp true, .cp true,
      .wait 1, .modify, .cp true, .cp true, .cp true]).map Sys.events =
      some [.read 0, .publish (some 0), .read 0, .read 0, .move, .read 1, .pass 1, .modify 1,
        .publish (some 1), .read 1] := by decide
  cases hr : (Sys.init [1, 1]).run [.cp true, .cp true, .cp true, .cp true, .cp true, .cp true,
      .wait 1, .modify, .cp true, .cp true, .cp true] with
  | none => simp [hr] at h
  | some s =>
    simp only [hr, Option.map_some', Option.some.injEq] at h
    exact ⟨s, Sys.Reachable.init.run hr, 1, [.read 0, .publish (some 0), .read 0, .read 0, .move],
      [.pass 1], [.publish (some 1)], [], by rw [h]; rfl, by simp, by simp⟩

theorem publish_tail_unique {A A' B B' : List Ev} {p p' : Option Nat}
    (h : A ++ .publish p :: B = A' ++ .publish p' :: B') (hB : ∀ q, .publish q ∉ B)
    (hB' : ∀ q, .publish q ∉ B') : p = p' ∧ B = B' := by
  rcases List.append_eq_append_iff.mp h with ⟨c, -, h⟩ | ⟨c, -, h⟩
  · cases c with
    | nil => simpa using h
    | cons x c =>
      simp only [List.cons_append, List.cons.injEq] at h
      exact absurd (h.2 ▸ by simp) (hB p')
  · cases c with
    | nil => simpa [eq_comm] using h
    | cons x c =>
      simp only [List.cons_append, List.cons.injEq] at h
      exact absurd (h.2 ▸ by simp) (hB' p)

/-- After `save_active` publishes node `n`, the dispatcher modifies it at most once. -/
theorem handshake {l : List Nat} {s : Sys} (hr : Sys.Reachable l s) {n : Nat} {A B : List Ev}
    (he : s.events = A ++ .publish (some n) :: B) (hB : ∀ q, .publish q ∉ B) :
    .pass n ∉ B ∧ B.count (.modify n) ≤ 1 := by
  have hi := hr.inv
  obtain ⟨A₀, hA, hc⟩ := hi.since_tail
  rcases hc with ⟨rfl, -⟩ | ⟨A', rfl⟩
  · rw [List.nil_append] at hA
    exact absurd (show Ev.publish (some n) ∈ s.since by simp [← hA, he]) (hi.since_free _)
  · rw [hA, List.append_assoc, List.singleton_append] at he
    obtain ⟨hp, rfl⟩ := publish_tail_unique he hi.since_free hB
    exact ⟨hi.no_pass n hp, (Nat.le_add_right _ _).trans (hi.one_modify n hp)⟩

/-- The state after the schedule of `modify_between_reads` up to the publication of node 1,
followed by the modification admitted before it. -/
def slipState : Sys :=
  ⟨[1, 1], .test, ⟨1, 0⟩, some 1, true, true, some 1, none,
    [.read 0, .publish (some 0), .read 0, .read 0, .move, .read 1, .pass 1, .publish (some 1),
      .modify 1], [.modify 1]⟩

theorem handshake_slip :
    Sys.Reachable [1, 1] slipState ∧
      (Ev.pass 1 ∉ [Ev.modify 1] ∧ [Ev.modify 1].count (.modify 1) ≤ 1) := by
  have hr : Sys.Reachable [1, 1] slipState := Sys.Reachable.init.run
    (show (Sys.init [1, 1]).run [.cp true, .cp true, .cp true, .cp true, .cp true, .cp true,
      .wait 1, .cp true, .modify] = some slipState from rfl)
  exact ⟨hr, handshake hr (show slipState.events = [.read 0, .publish (some 0), .read 0, .read 0,
    .move, .read 1, .pass 1] ++ .publish (some 1) :: [.modify 1] from rfl) (by simp)⟩

end KosmosFs.ActiveNode
