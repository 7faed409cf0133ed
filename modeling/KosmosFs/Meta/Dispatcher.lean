import KosmosFs.Meta.Allocate

/-! # The request dispatcher

`process_request` runs the handler of the request at the head of `requestList` and retires it
unless it is suspended. The layout manager's replies and the log's completions resume requests
as §4.7 of the spec describes.
-/

namespace KosmosFs.Request

/-- After the handler, a request that is not suspended is counted and retired:
`oplog.add_pending(r)`. -/
def St.retire (s : St) (id : Nat) : St :=
  if !(s.reqs id).suspended then { s with pending := s.pending ++ [id] }.emit (.retired id) else s

/-- `process_request`; with the queue empty, `dequeue` blocks and there is no step. -/
def processRequest (env : Env) (s : St) : Option St :=
  match s.queue with
  | [] => none
  | id :: rest =>
    some ((handler env (s.reqs id).op id ({ s with queue := rest }.emit (.handled id))).retire id)

/-- Modelled from the spec: resume request `id` at the front of the queue. -/
@[simps]
def St.resume (s : St) (id : Nat) : St :=
  { s with
    reqs := Function.update s.reqs id { s.reqs id with suspended := false }
    queue := id :: s.queue }

/-- What can happen next: a client's `ALLOCATE` or `TRUNCATE` arrives, the dispatcher runs
`process_request`, the layout manager's RPC or fan-out for a request completes with a status,
or the log makes its oldest pending record durable. -/
inductive Act
  | submit (op : MetaOp) (fid offset : Int)
  | process
  | reply (id : Nat) (status : Int)
  | flush
  deriving DecidableEq, Repr

/-- One step of the dispatcher and the components around it. -/
def St.step (env : Env) (s : St) : Act → Option St
  | .submit op fid offset =>
    if op = .changeChunkVersionInc then none
    else some (s.submit { op := op, fid := fid, offset := offset })
  | .process => processRequest env s
  | .reply id status =>
    if id ∈ s.rpcs then
      some ({ s.setReq id { s.reqs id with layoutDone := true, status := status } with
        rpcs := s.rpcs.erase id }.resume id)
    else none
  | .flush =>
    match s.pending with
    | [] => none
    | p :: rest =>
      match (s.reqs p).req with
      | some q => some ({ s with pending := rest }.resume q)
      | none => some { s with pending := rest }

/-- The dispatcher at start-up, with an empty queue. -/
def St.init : St := ⟨fun _ => { op := .allocate }, 0, [], 0, [], [], []⟩

/-- Run a schedule of steps; `none` if one of them is not enabled. -/
def St.run (env : Env) (s : St) : List Act → Option St
  | [] => some s
  | a :: as => (s.step env a).bind fun s' => s'.run env as

/-- The states the dispatcher reaches from start-up. -/
inductive Reachable (env : Env) : St → Prop
  | init : Reachable env St.init
  | step {s s' : St} (a : Act) : Reachable env s → s.step env a = some s' → Reachable env s'

theorem Reachable.run {env : Env} {s s' : St} {as : List Act} (hr : Reachable env s)
    (h : s.run env as = some s') : Reachable env s' := by
  induction as generalizing s with
  | nil => cases h; exact hr
  | cons a as ih =>
    simp only [St.run, Option.bind_eq_some] at h
    obtain ⟨s₁, h₁, h₂⟩ := h
    exact ih (hr.step a h₁) h₂

/-! ## One `process_request` -/

section Process

variable {env : Env} {s s' : St} {id : Nat} {rest : List Nat} {P : Nat → Prop}

theorem processRequest_eq (hq : s.queue = id :: rest) :
    processRequest env s =
      some ((handler env (s.reqs id).op id
        ({ s with queue := rest }.emit (.handled id))).retire id) := by
  simp [processRequest, hq]

theorem frame_dequeue (hq : s.queue = id :: rest) (hP : P id) :
    Frame P s { s with queue := rest } :=
  ⟨le_rfl, fun _ _ => rfl, fun _ _ => rfl, fun _ h h' => absurd h' (not_lt.mpr h), fun _ _ => rfl,
    fun j hj => by
      have : j ≠ id := fun h => hj (h ▸ hP)
      simp [hq, List.count_cons, this],
    fun _ _ => rfl, ⟨[], by simp, by simp⟩⟩

theorem frame_retire (hP : P id) : Frame P s (s.retire id) := by
  unfold St.retire
  split
  · refine ⟨le_rfl, fun _ _ => rfl, fun _ _ => rfl, fun _ h h' => absurd h' (not_lt.mpr h),
      fun _ _ => rfl, fun _ _ => rfl, fun j hj => ?_, ⟨[.retired id], rfl, ?_⟩⟩
    · have : id ≠ j := fun h => hj (h ▸ hP)
      simp [List.count_append, List.count_singleton', this]
    · simpa [Event.about] using hP
  · exact Frame.refl P s

theorem frame_processRequest (hq : s.queue = id :: rest) (h : processRequest env s = some s') :
    Frame (Own s id) s s' := by
  rw [processRequest_eq hq, Option.some.injEq] at h
  subst h
  refine (((frame_dequeue hq own_self).trans (frame_emit ?_) fun _ h => h).trans
    (frame_handler _) fun _ h => h).trans (frame_retire own_self) fun _ h => h
  simp [Event.about, Own]

theorem retire_of_suspended (h : (s.reqs id).suspended = true) : s.retire id = s := by
  simp [St.retire, h]

theorem frame_resume {q : Nat} (hP : P q) : Frame P s (s.resume q) where
  next_le := le_rfl
  reqs i hi := Function.update_noteq (fun h => hi (by rw [h]; exact hP)) _ _
  req_old i _ := by
    by_cases h : i = q
    · subst h; simp
    · simp [h]
  req_new _ h h' := absurd h' (not_lt.mpr h)
  rpcs _ _ := rfl
  queue j hj := by
    have : q ≠ j := fun h => hj (h ▸ hP)
    simp [List.count_cons, this.symm]
  pending _ _ := rfl
  events := ⟨[], by simp, by simp⟩

theorem frame_step_submit {op : MetaOp} {fid offset : Int}
    (h : s.step env (.submit op fid offset) = some s') : Frame (· = s.next) s s' := by
  simp only [St.step] at h
  split at h
  · cases h
  · cases h
    exact frame_submit rfl (by simp)

theorem frame_step_reply {status : Int} (h : s.step env (.reply id status) = some s') :
    Frame (· = id) s s' := by
  obtain ⟨-, ⟨⟩⟩ := Option.ite_none_right_eq_some.mp h
  set s₁ := s.setReq id { s.reqs id with layoutDone := true, status := status }
  have h₁ : Frame (· = id) s s₁ := frame_setReq rfl (by rfl)
  have h₂ : Frame (· = id) s₁ { s₁ with rpcs := s.rpcs.erase id } :=
    ⟨le_rfl, fun _ _ => rfl, fun _ _ => rfl, fun _ h h' => absurd h' (not_lt.mpr h),
      fun j hj => List.count_erase_of_ne hj _, fun _ _ => rfl, fun _ _ => rfl,
      ⟨[], by simp, by simp⟩⟩
  have h₃ : Frame (· = id) _ ({ s₁ with rpcs := s.rpcs.erase id }.resume id) := frame_resume rfl
  exact (h₁.trans h₂ fun _ h => h).trans h₃ fun _ h => h

theorem frame_step_flush {p : Nat} (hp : s.pending = p :: rest) (h : s.step env .flush = some s') :
    Frame (fun j => j = p ∨ (s.reqs p).req = some j) s s' := by
  have hdrop : Frame (fun j => j = p ∨ (s.reqs p).req = some j) s { s with pending := rest } :=
    ⟨le_rfl, fun _ _ => rfl, fun _ _ => rfl, fun _ h h' => absurd h' (not_lt.mpr h),
      fun _ _ => rfl, fun _ _ => rfl,
      fun j hj => by
        have : p ≠ j := fun h => hj (.inl h.symm)
        simp [hp, List.count_cons, this],
      ⟨[], by simp, by simp⟩⟩
  simp only [St.step, hp] at h
  split at h <;> cases h
  · exact hdrop.trans (frame_resume (.inr ‹_›)) fun _ h => h
  · exact hdrop

theorem frame_step {act : Act} (h : s.step env act = some s') : Frame (fun _ => True) s s' := by
  cases act with
  | submit op fid offset => exact (frame_step_submit h).mono fun _ _ => trivial
  | process =>
    cases hq : s.queue with
    | nil => simp [St.step, processRequest, hq] at h
    | cons id rest => exact (frame_processRequest hq h).mono fun _ _ => trivial
  | reply id status => exact (frame_step_reply h).mono fun _ _ => trivial
  | flush =>
    cases hp : s.pending with
    | nil => simp [St.step, hp] at h
    | cons p rest => exact (frame_step_flush hp h).mono fun _ _ => trivial

theorem frame_run {acts : List Act} (h : s.run env acts = some s') :
    Frame (fun _ => True) s s' := by
  induction acts generalizing s with
  | nil => cases h; exact Frame.refl _ _
  | cons act acts ih =>
    simp only [St.run, Option.bind_eq_some] at h
    obtain ⟨s₁, h₁, h₂⟩ := h
    exact (frame_step h₁).trans (ih h₂) fun _ h => h

end Process

/-! ## A failed allocation is never retired -/

/-- A `MetaAllocate` whose layout step has completed with a nonzero status; the layout manager
holds nothing more for it. -/
structure Failed (s : St) (a : Nat) : Prop where
  lt_next : a < s.next
  op : (s.reqs a).op = .allocate
  layoutDone : (s.reqs a).layoutDone = true
  status : (s.reqs a).status ≠ 0
  not_await : a ∉ s.rpcs

/-- New events in which request `a` is neither retired nor bound in the tree, and in which each
run of its handler calls `ChangeIncarnationNumber` on its behalf exactly once. -/
def Quiet (a : Nat) (E : List Event) : Prop :=
  Event.retired a ∉ E ∧ (∀ f o c v, Event.assign a f o c v ∉ E) ∧
    E.count (.incarnation a) = E.count (.handled a)

theorem quiet_of_about {a : Nat} {E : List Event} (h : ∀ e ∈ E, e.about ≠ some a) : Quiet a E := by
  have h₁ : Event.incarnation a ∉ E := fun he => h _ he rfl
  have h₂ : Event.handled a ∉ E := fun he => h _ he rfl
  exact ⟨fun he => h _ he rfl, fun f o c v he => h _ he rfl,
    by rw [List.count_eq_zero.mpr h₁, List.count_eq_zero.mpr h₂]⟩

theorem Quiet.append {a : Nat} {E E' : List Event} (h : Quiet a E) (h' : Quiet a E') :
    Quiet a (E ++ E') := by
  refine ⟨?_, fun f o c v he => ?_, by simp [List.count_append, h.2.2, h'.2.2]⟩
  · rw [List.mem_append]; exact fun he => he.elim h.1 h'.1
  · rcases List.mem_append.mp he with he | he
    · exact h.2.1 f o c v he
    · exact h'.2.1 f o c v he

section Failed

variable {env : Env} {s s' : St} {a : Nat}

theorem quiet_of_frame {P : Nat → Prop} (hf : Frame P s s') (ha : ¬ P a) :
    ∃ E, s'.events = s.events ++ E ∧ Quiet a E :=
  let ⟨E, hE, hE'⟩ := hf.events
  ⟨E, hE, quiet_of_about fun e he h => ha (hE' e he a h)⟩

theorem Failed.of_frame {P : Nat → Prop} (hf : Failed s a) (h : Frame P s s') (ha : ¬ P a) :
    Failed s' a := by
  have hr := h.reqs a ha
  exact ⟨lt_of_lt_of_le hf.lt_next h.next_le, hr ▸ hf.op, hr ▸ hf.layoutDone, hr ▸ hf.status,
    fun hm => hf.not_await (List.count_pos_iff.mp ((h.rpcs a ha) ▸ List.count_pos_iff.mpr hm))⟩

theorem Failed.process_self (hf : Failed s a) (hq : s.queue = a :: rest)
    (h : processRequest env s = some s') :
    Failed s' a ∧ ∃ E, s'.events = s.events ++ E ∧ Quiet a E := by
  rw [processRequest_eq hq, Option.some.injEq, hf.op] at h
  set s₁ := { s with queue := rest }.emit (.handled a) with hs₁
  have hlt : a < s₁.next := hf.lt_next
  have hreq : (allocateFailed env a s₁).reqs a = _ := allocateFailed_reqs_self hlt
  obtain ⟨e, he, hev⟩ : ∃ e : Event, e.about = none ∧
      (allocateFailed env a s₁).events = s₁.events ++ [e, .incarnation a] := allocateFailed_events
  rw [show handler env .allocate a s₁ = allocateFailed env a s₁ from
    handleAllocate_of_failed hf.layoutDone hf.status, retire_of_suspended (by rw [hreq])] at h
  subst h
  refine ⟨⟨lt_of_lt_of_le hlt frame_allocateFailed.next_le, by rw [hreq]; exact hf.op,
    by rw [hreq]; exact hf.layoutDone, by rw [hreq]; simp [EALLOCFAILED],
    by rw [allocateFailed_rpcs]; exact hf.not_await⟩, [.handled a, e, .incarnation a],
    by rw [hev]; simp [s₁], ?_⟩
  cases e <;> simp [Event.about] at he <;> simp [Quiet]

theorem Failed.resume (hf : Failed s a) (q : Nat) : Failed (s.resume q) a := by
  by_cases h : a = q
  · subst h
    exact ⟨hf.lt_next, by simpa using hf.op, by simpa using hf.layoutDone, by simpa using hf.status,
      hf.not_await⟩
  · exact hf.of_frame (frame_resume rfl) (Ne.symm h)

theorem Failed.step {act : Act} (hf : Failed s a) (h : s.step env act = some s') :
    Failed s' a ∧ ∃ E, s'.events = s.events ++ E ∧ Quiet a E := by
  cases act with
  | submit op fid offset =>
    have ha : ¬ a = s.next := Nat.ne_of_lt hf.lt_next
    exact ⟨hf.of_frame (frame_step_submit h) ha, quiet_of_frame (frame_step_submit h) ha⟩
  | process =>
    cases hq : s.queue with
    | nil => simp [St.step, processRequest, hq] at h
    | cons id rest =>
      by_cases hid : id = a
      · subst hid
        exact hf.process_self hq h
      · have hfr := frame_processRequest hq h
        have ha : ¬ Own s id a := by simp [Own, Ne.symm hid, hf.lt_next]
        exact ⟨hf.of_frame hfr ha, quiet_of_frame hfr ha⟩
  | reply id status =>
    have hfr := frame_step_reply h
    have ha : ¬ a = id := fun hid => hf.not_await (hid ▸ (Option.ite_none_right_eq_some.mp h).1)
    exact ⟨hf.of_frame hfr ha, quiet_of_frame hfr ha⟩
  | flush =>
    cases hp : s.pending with
    | nil => simp [St.step, hp] at h
    | cons p rest =>
      simp only [St.step, hp] at h
      have hd : Failed { s with pending := rest } a :=
        ⟨hf.lt_next, hf.op, hf.layoutDone, hf.status, hf.not_await⟩
      split at h <;> cases h
      · exact ⟨hd.resume _, [], by simp, quiet_of_about (by simp)⟩
      · exact ⟨hd, [], by simp, quiet_of_about (by simp)⟩

/-- A `MetaAllocate` whose layout step failed is never retired, whatever happens next. -/
theorem failed_allocate_never_retires {acts : List Act} (hf : Failed s a)
    (h : s.run env acts = some s') :
    Failed s' a ∧ ∃ E, s'.events = s.events ++ E ∧ Quiet a E := by
  induction acts generalizing s with
  | nil => cases h; exact ⟨hf, [], by simp, quiet_of_about (by simp)⟩
  | cons act acts ih =>
    simp only [St.run, Option.bind_eq_some] at h
    obtain ⟨s₁, h₁, h₂⟩ := h
    obtain ⟨hf₁, E₁, hE₁, hq₁⟩ := hf.step h₁
    obtain ⟨hf₂, E₂, hE₂, hq₂⟩ := ih hf₁ h₂
    exact ⟨hf₂, E₁ ++ E₂, by rw [hE₂, hE₁, List.append_assoc], hq₁.append hq₂⟩

end Failed

/-- A new chunk is placed, and its primary fails the `ALLOCATE` RPC. -/
def serverDown : Env where
  allocateChunkId _ _ := ⟨0, 100, 1, 3⟩
  getChunkWriteLease _ _ := (0, false)
  allocateChunk _ _ := 0
  getChunkVersion _ _ := 0
  assignChunkId _ _ := 0
  truncate _ _ := (0, 0)

/-- A client's `ALLOCATE` of file 5 whose layout step has failed with `-EIO`. -/
def failedState : St :=
  (St.init.run serverDown [.submit .allocate 5 0, .process, .reply 0 (-5)]).getD St.init

/-- Two re-entries: the failure branch, the `MetaChangeChunkVersionInc` it submits, the log
resuming the allocation, the failure branch again. -/
def reentries : List Act := [.process, .process, .flush, .process]

theorem failed_allocate_reentered :
    Failed failedState 0 ∧
      failedState.run serverDown reentries =
        some ((failedState.run serverDown reentries).getD failedState) ∧
      Failed ((failedState.run serverDown reentries).getD failedState) 0 ∧
      (∃ E, ((failedState.run serverDown reentries).getD failedState).events =
        failedState.events ++ E ∧ Quiet 0 E) ∧
      ((failedState.run serverDown reentries).getD failedState).events.count
        (.incarnation 0) = 2 := by
  have hf : Failed failedState 0 := ⟨by decide, by decide, by decide, by decide, by decide⟩
  have hr : failedState.run serverDown reentries =
      some ((failedState.run serverDown reentries).getD failedState) := rfl
  obtain ⟨h₁, h₂⟩ := failed_allocate_never_retires hf hr
  exact ⟨hf, hr, h₁, h₂, by decide⟩

/-! ## A truncation left without a resumer -/

/-- What can resume request `r`: the layout manager's RPCs for it, the queued or pending
`MetaChangeChunkVersionInc` requests whose `req` is `r`, and the suspended `MetaAllocate`
requests whose `req` is `r`. -/
def sources (s : St) (r : Nat) : Nat :=
  s.rpcs.count r +
    ((List.range s.next).filter fun i => (s.reqs i).op = .changeChunkVersionInc ∧
      (s.reqs i).req = some r ∧ (i ∈ s.queue ∨ i ∈ s.pending)).length +
    ((List.range s.next).filter fun i => (s.reqs i).op = .allocate ∧ (s.reqs i).req = some r ∧
      (s.reqs i).suspended = true).length

/-- Request `t` is suspended and nothing can resume it: it is neither queued, awaited nor
pending, the only request tied to it is `c`, which is in none of these either, and no request
is tied to `c`. -/
structure Stuck (s : St) (t c : Nat) : Prop where
  t_lt : t < s.next
  c_lt : c < s.next
  suspended : (s.reqs t).suspended = true
  t_idle : t ∉ s.queue ∧ t ∉ s.rpcs ∧ t ∉ s.pending
  c_idle : c ∉ s.queue ∧ c ∉ s.rpcs ∧ c ∉ s.pending
  tied : ∀ i, (s.reqs i).req = some t → i = c
  untied : ∀ i, (s.reqs i).req ≠ some c

section Stuck

variable {env : Env} {s s' : St} {t c : Nat}

theorem not_mem_of_frame {P : Nat → Prop} {l l' : List Nat} {j : Nat}
    (hc : ¬ P j → l'.count j = l.count j) (hj : ¬ P j) (h : j ∉ l) : j ∉ l' := by
  rw [← List.count_eq_zero] at h ⊢
  exact (hc hj).trans h

theorem Stuck.of_frame {P : Nat → Prop} (hs : Stuck s t c) (h : Frame P s s') (ht : ¬ P t)
    (hc : ¬ P c) : Stuck s' t c ∧ ∃ E, s'.events = s.events ++ E ∧ Event.handled t ∉ E := by
  have hreq : ∀ i j, ¬ P j → (s'.reqs i).req = some j → (s.reqs i).req = some j := by
    intro i j hj hi
    by_cases hn : s.next ≤ i ∧ i < s'.next
    · exact absurd (h.req_new i hn.1 hn.2 j hi) hj
    · rw [← h.req_old i (by omega)]; exact hi
  obtain ⟨E, hE, hE'⟩ := h.events
  refine ⟨⟨lt_of_lt_of_le hs.t_lt h.next_le, lt_of_lt_of_le hs.c_lt h.next_le,
    h.reqs t ht ▸ hs.suspended, ?_, ?_, fun i hi => hs.tied i (hreq i t ht hi),
    fun i hi => hs.untied i (hreq i c hc hi)⟩, E, hE, fun he => ht (hE' _ he t rfl)⟩
  · exact ⟨not_mem_of_frame (h.queue t) ht hs.t_idle.1,
      not_mem_of_frame (h.rpcs t) ht hs.t_idle.2.1,
      not_mem_of_frame (h.pending t) ht hs.t_idle.2.2⟩
  · exact ⟨not_mem_of_frame (h.queue c) hc hs.c_idle.1,
      not_mem_of_frame (h.rpcs c) hc hs.c_idle.2.1,
      not_mem_of_frame (h.pending c) hc hs.c_idle.2.2⟩

theorem Stuck.step {act : Act} (hs : Stuck s t c) (h : s.step env act = some s') :
    Stuck s' t c ∧ ∃ E, s'.events = s.events ++ E ∧ Event.handled t ∉ E := by
  cases act with
  | submit op fid offset =>
    exact hs.of_frame (frame_step_submit h) (Nat.ne_of_lt hs.t_lt) (Nat.ne_of_lt hs.c_lt)
  | process =>
    cases hq : s.queue with
    | nil => simp [St.step, processRequest, hq] at h
    | cons id rest =>
      have hid : ∀ j, j ∉ s.queue → j < s.next → ¬ Own s id j := fun j hj hn ho => by
        rcases ho with rfl | ho
        · exact hj (hq ▸ List.mem_cons_self _ _)
        · omega
      exact hs.of_frame (frame_processRequest hq h) (hid t hs.t_idle.1 hs.t_lt)
        (hid c hs.c_idle.1 hs.c_lt)
  | reply id status =>
    have hid : id ∈ s.rpcs := (Option.ite_none_right_eq_some.mp h).1
    exact hs.of_frame (frame_step_reply h) (fun e => hs.t_idle.2.1 (e ▸ hid))
      (fun e => hs.c_idle.2.1 (e ▸ hid))
  | flush =>
    cases hp : s.pending with
    | nil => simp [St.step, hp] at h
    | cons p rest =>
      have hpm : p ∈ s.pending := hp ▸ List.mem_cons_self _ _
      refine hs.of_frame (frame_step_flush hp h) ?_ ?_
      · rintro (rfl | ht)
        · exact hs.t_idle.2.2 hpm
        · exact hs.c_idle.2.2 (hs.tied p ht ▸ hpm)
      · rintro (rfl | hc)
        · exact hs.c_idle.2.2 hpm
        · exact hs.untied p hc

theorem Stuck.run {acts : List Act} (hs : Stuck s t c) (h : s.run env acts = some s') :
    (s'.reqs t).suspended = true ∧ ∃ E, s'.events = s.events ++ E ∧ Event.handled t ∉ E := by
  induction acts generalizing s with
  | nil => cases h; exact ⟨hs.suspended, [], by simp, List.not_mem_nil _⟩
  | cons act acts ih =>
    simp only [St.run, Option.bind_eq_some] at h
    obtain ⟨s₁, h₁, h₂⟩ := h
    obtain ⟨hs₁, E₁, hE₁, ht₁⟩ := hs.step h₁
    obtain ⟨hs₂, E₂, hE₂, ht₂⟩ := ih hs₁ h₂
    exact ⟨hs₂, E₁ ++ E₂, by rw [hE₂, hE₁, List.append_assoc],
      by rw [List.mem_append]; exact fun h => h.elim ht₁ ht₂⟩

end Stuck

/-- `metatree.truncate` asks for a chunk past the end of the file, and no chunkserver can take
it: `AllocateChunk` fails. -/
def noPlacement : Env where
  allocateChunkId _ _ := ⟨0, 100, 1, 3⟩
  getChunkWriteLease _ _ := (0, false)
  allocateChunk _ _ := -1
  getChunkVersion _ _ := 0
  assignChunkId _ _ := 0
  truncate _ _ := (1, 67108864)

/-- A client's `TRUNCATE` that extends file 5, once `process_request` has run it. -/
def truncatedState : St :=
  (St.init.run noPlacement [.submit .truncate 5 100000000, .process]).getD St.init

/-- A truncation whose child allocation failed without suspending is never resumed. -/
theorem truncate_never_resumed :
    St.init.run noPlacement [.submit .truncate 5 100000000, .process] = some truncatedState ∧
      (truncatedState.reqs 0).suspended = true ∧ sources truncatedState 0 = 0 ∧
      ∀ env acts s', truncatedState.run env acts = some s' →
        (s'.reqs 0).suspended = true ∧
          ∃ E, s'.events = truncatedState.events ++ E ∧ Event.handled 0 ∉ E := by
  have hr : St.init.run noPlacement [.submit .truncate 5 100000000, .process] =
      some truncatedState := rfl
  have hn : truncatedState.next = 2 := by decide
  have hhigh : ∀ i, 2 ≤ i → (truncatedState.reqs i).req = none := fun i hi =>
    (frame_run hr).req_old i (.inr (by omega)) |>.trans rfl
  have hs : Stuck truncatedState 0 1 := by
    refine ⟨by decide, by decide, by decide, by decide, by decide, fun i hi => ?_, fun i hi => ?_⟩
    · by_cases h : i < 2
      · have : ∀ i < 2, (truncatedState.reqs i).req = some 0 → i = 1 := by decide
        exact this i h hi
      · rw [hhigh i (by omega)] at hi; cases hi
    · by_cases h : i < 2
      · have : ∀ i < 2, (truncatedState.reqs i).req ≠ some 1 := by decide
        exact this i h hi
      · rw [hhigh i (by omega)] at hi; cases hi
  exact ⟨hr, hs.suspended, by decide, fun _ _ _ h => hs.run h⟩

end KosmosFs.Request
