import Mathlib.Logic.Function.Basic
import Mathlib.Data.List.Basic

/-! # The allocation handlers

`handle_allocate`, `handle_truncate`, `handle_change_chunkVersionInc` and
`ChangeIncarnationNumber` over the dispatcher's state. The metadata tree and the layout manager
are oracles; `Frame` says what a handler may touch.
-/

namespace KosmosFs.Request

/-- `EEXIST` on Linux. -/
def EEXIST : Int := 17

/-- `ENOSPC` on Linux. -/
def ENOSPC : Int := 28

/-- `KFS::EALLOCFAILED`. -/
def EALLOCFAILED : Int := 1005

/-- The operations whose handlers are modelled. -/
inductive MetaOp
  | allocate
  | truncate
  | changeChunkVersionInc
  deriving DecidableEq, Repr

/-- The fields of `MetaAllocate`, `MetaTruncate` and `MetaChangeChunkVersionInc` the handlers
read and write, in one record; the defaults are those of their constructors. -/
structure Req where
  op : MetaOp
  fid : Int := 0
  offset : Int := 0
  chunkId : Int := 0
  chunkVersion : Int := 0
  numReplicas : Int := 0
  layoutDone : Bool := false
  status : Int := 0
  suspended : Bool := false
  req : Option Nat := none
  cvi : Int := 0
  deriving DecidableEq, Repr

/-- What the dispatcher does that the model keeps a trace of: a handler run, a retirement
(`oplog.add_pending`), a `ChangeIncarnationNumber` call on a request's behalf, and the calls
into the tree and the layout manager that change them. -/
inductive Event
  | handled (id : Nat)
  | retired (id : Nat)
  | incarnation (id : Nat)
  | assign (id : Nat) (fid offset chunkId chunkVersion : Int)
  | versionChange (fid chunkId chunkVersion : Int)
  | removeMapping (chunkId : Int)
  deriving DecidableEq, Repr

/-- The request an event is about. -/
def Event.about : Event → Option Nat
  | .handled id | .retired id | .incarnation id | .assign id _ _ _ _ => some id
  | .versionChange _ _ _ | .removeMapping _ => none

/-- The dispatcher's state: requests by id below `next`, `requestList`, `chunkVersionInc`, the
requests the layout manager holds an RPC or a fan-out for, the retired requests the log has
still to make durable, and the trace. -/
structure St where
  reqs : Nat → Req
  next : Nat
  queue : List Nat
  chunkVersionInc : Int
  rpcs : List Nat
  pending : List Nat
  events : List Event

/-- What `metatree.allocateChunkId` returns and writes through its pointers. -/
structure ChunkAlloc where
  status : Int
  chunkId : Int
  chunkVersion : Int
  numReplicas : Int

/-- The answers of the tree and the layout manager: `metatree.allocateChunkId`,
`GetChunkWriteLease` (status, new lease), `AllocateChunk`, `metatree.getChunkVersion`,
`metatree.assignChunkId` and `metatree.truncate` (status, offset to allocate). -/
structure Env where
  allocateChunkId : St → Req → ChunkAlloc
  getChunkWriteLease : St → Req → Int × Bool
  allocateChunk : St → Req → Int
  getChunkVersion : St → Req → Int
  assignChunkId : St → Req → Int
  truncate : St → Req → Int × Int

/-- Write back request `id`. -/
@[simps]
def St.setReq (s : St) (id : Nat) (r : Req) : St :=
  { s with reqs := Function.update s.reqs id r }

/-- Record an event. -/
@[simps]
def St.emit (s : St) (e : Event) : St :=
  { s with events := s.events ++ [e] }

/-- The layout manager has sent an RPC or a fan-out whose completion resumes request `id`. -/
@[simps]
def St.await (s : St) (id : Nat) : St :=
  { s with rpcs := s.rpcs ++ [id] }

/-- `new` a request, with id `next`. -/
@[simps]
def St.add (s : St) (r : Req) : St :=
  { s with reqs := Function.update s.reqs s.next r, next := s.next + 1 }

/-- `submit_request`: a new request joins the back of the queue. -/
@[simps]
def St.submit (s : St) (r : Req) : St :=
  { s.add r with queue := s.queue ++ [s.next] }

/-- `ChangeIncarnationNumber(r)`: bump `chunkVersionInc` and submit a
`MetaChangeChunkVersionInc` tied to `r`. -/
def changeIncarnationNumber (id : Nat) (s : St) : St :=
  ({ s with chunkVersionInc := s.chunkVersionInc + 1 }.submit
    { op := .changeChunkVersionInc, cvi := s.chunkVersionInc + 1, req := some id }).emit
    (.incarnation id)

/-- The first entry of `handle_allocate` (`!req->layoutDone`): get a chunk id from the tree,
then a lease from the layout manager if the chunk exists, or a placement if it is new, and
suspend while the layout manager's RPCs are out. -/
def allocateStart (env : Env) (id : Nat) (s : St) : St :=
  let a := env.allocateChunkId s { s.reqs id with chunkId := 0 }
  let r := { s.reqs id with
    chunkId := a.chunkId
    chunkVersion := a.chunkVersion
    numReplicas := a.numReplicas
    status := a.status }
  if a.status ≠ 0 ∧ a.status ≠ - EEXIST then s.setReq id r
  else if a.status = - EEXIST then
    let lease := env.getChunkWriteLease s r
    let r := { r with status := lease.1 }
    if lease.1 ≠ 0 then s.setReq id r
    else if !lease.2 then s.setReq id r
    else (s.setReq id { r with suspended := true }).await id
  else if env.allocateChunk s r ≠ 0 then s.setReq id { r with status := - ENOSPC }
  else (s.setReq id { r with suspended := true }).await id

/-- The entry after a failed layout step: report `-EALLOCFAILED`, reset the chunk's versions at
its servers or, for a first allocation, drop its mapping, stay suspended and bump the
incarnation number. -/
def allocateFailed (env : Env) (id : Nat) (s : St) : St :=
  let chunkVersion := env.getChunkVersion s (s.reqs id)
  let r := { s.reqs id with status := - EALLOCFAILED, chunkVersion := chunkVersion }
  let e := if chunkVersion > 0 then Event.versionChange r.fid r.chunkId chunkVersion
    else .removeMapping r.chunkId
  changeIncarnationNumber id ((s.emit e).setReq id { r with suspended := true })

/-- The entry after a successful layout step: bind the chunk in the tree. -/
def allocateDone (env : Env) (id : Nat) (s : St) : St :=
  let r := { s.reqs id with suspended := false }
  (s.setReq id { r with status := env.assignChunkId s r }).emit
    (.assign id r.fid r.offset r.chunkId r.chunkVersion)

/-- `handle_allocate`. -/
def handleAllocate (env : Env) (id : Nat) (s : St) : St :=
  if !(s.reqs id).layoutDone then allocateStart env id s
  else if (s.reqs id).status ≠ 0 then allocateFailed env id s
  else allocateDone env id s

/-- `handle_truncate`: when the tree asks for an allocation past the end, a `MetaAllocate` tied
to the truncation is created, the truncation is suspended, and `handle_allocate` runs on the
new request at once. -/
def handleTruncate (env : Env) (id : Nat) (s : St) : St :=
  let r := s.reqs id
  let t := env.truncate s r
  let s := s.setReq id { r with status := t.1 }
  if t.1 > 0 then
    let a := s.next
    let s := s.add { op := .allocate, fid := r.fid, offset := t.2, req := some id }
    handleAllocate env a (s.setReq id { s.reqs id with suspended := true })
  else s

/-- `handle_change_chunkVersionInc`. -/
def handleChangeChunkVersionInc (id : Nat) (s : St) : St :=
  s.setReq id { s.reqs id with status := 0 }

/-- `handler[r->op]`. -/
def handler (env : Env) : MetaOp → Nat → St → St
  | .allocate => handleAllocate env
  | .truncate => handleTruncate env
  | .changeChunkVersionInc => handleChangeChunkVersionInc

/-! ## What a handler touches -/

/-- The ids a handler running on `id` from state `s` may touch: `id` and the ones it
creates. -/
def Own (s : St) (id j : Nat) : Prop := j = id ∨ s.next ≤ j

/-- From `s` to `s'` only requests satisfying `P` change: the others keep their record, their
place in the RPC list, the queue and the log, and are named by no new event; only the requests
created have a new `req`, and it is one satisfying `P`. -/
structure Frame (P : Nat → Prop) (s s' : St) : Prop where
  next_le : s.next ≤ s'.next
  reqs : ∀ i, ¬ P i → s'.reqs i = s.reqs i
  req_old : ∀ i, i < s.next ∨ s'.next ≤ i → (s'.reqs i).req = (s.reqs i).req
  req_new : ∀ i, s.next ≤ i → i < s'.next → ∀ j, (s'.reqs i).req = some j → P j
  rpcs : ∀ j, ¬ P j → s'.rpcs.count j = s.rpcs.count j
  queue : ∀ j, ¬ P j → s'.queue.count j = s.queue.count j
  pending : ∀ j, ¬ P j → s'.pending.count j = s.pending.count j
  events : ∃ E, s'.events = s.events ++ E ∧ ∀ e ∈ E, ∀ j, e.about = some j → P j

section Frame

variable {P Q : Nat → Prop} {s s₁ s₂ s₃ : St}

theorem Frame.refl (P : Nat → Prop) (s : St) : Frame P s s :=
  ⟨le_rfl, fun _ _ => rfl, fun _ _ => rfl, fun _ h h' => absurd h' (not_lt.mpr h),
    fun _ _ => rfl, fun _ _ => rfl, fun _ _ => rfl, ⟨[], by simp, by simp⟩⟩

theorem Frame.trans (h₁ : Frame P s₁ s₂) (h₂ : Frame Q s₂ s₃) (hQ : ∀ j, Q j → P j) :
    Frame P s₁ s₃ where
  next_le := h₁.next_le.trans h₂.next_le
  reqs i hi := (h₂.reqs i fun h => hi (hQ i h)).trans (h₁.reqs i hi)
  req_old i hi := by
    rcases hi with hi | hi
    · exact (h₂.req_old i (.inl (lt_of_lt_of_le hi h₁.next_le))).trans (h₁.req_old i (.inl hi))
    · exact (h₂.req_old i (.inr hi)).trans (h₁.req_old i (.inr (h₂.next_le.trans hi)))
  req_new i hi hi' j hj := by
    by_cases h : i < s₂.next
    · exact h₁.req_new i hi h j ((h₂.req_old i (.inl h)).symm.trans hj)
    · exact hQ j (h₂.req_new i (not_lt.mp h) hi' j hj)
  rpcs j hj := (h₂.rpcs j fun h => hj (hQ j h)).trans (h₁.rpcs j hj)
  queue j hj := (h₂.queue j fun h => hj (hQ j h)).trans (h₁.queue j hj)
  pending j hj := (h₂.pending j fun h => hj (hQ j h)).trans (h₁.pending j hj)
  events := by
    obtain ⟨E₁, h₁e, hE₁⟩ := h₁.events
    obtain ⟨E₂, h₂e, hE₂⟩ := h₂.events
    refine ⟨E₁ ++ E₂, by rw [h₂e, h₁e, List.append_assoc], fun e he j hj => ?_⟩
    rcases List.mem_append.mp he with he | he
    · exact hE₁ e he j hj
    · exact hQ j (hE₂ e he j hj)

theorem Frame.mono (h : Frame P s₁ s₂) (hQ : ∀ j, P j → Q j) : Frame Q s₁ s₂ :=
  (Frame.refl Q s₁).trans h hQ

theorem frame_setReq {id : Nat} {r : Req} (hP : P id) (hr : r.req = (s.reqs id).req) :
    Frame P s (s.setReq id r) where
  next_le := le_rfl
  reqs i hi := Function.update_noteq (fun h => hi (by rw [h]; exact hP)) _ _
  req_old i _ := by
    by_cases h : i = id
    · subst h; simpa using hr
    · simp [h]
  req_new _ h h' := absurd h' (not_lt.mpr h)
  rpcs _ _ := rfl
  queue _ _ := rfl
  pending _ _ := rfl
  events := ⟨[], by simp, by simp⟩

theorem frame_emit {e : Event} (he : ∀ j, e.about = some j → P j) : Frame P s (s.emit e) :=
  ⟨le_rfl, fun _ _ => rfl, fun _ _ => rfl, fun _ h h' => absurd h' (not_lt.mpr h),
    fun _ _ => rfl, fun _ _ => rfl, fun _ _ => rfl, ⟨[e], rfl, by simpa using he⟩⟩

theorem frame_await {id : Nat} (hP : P id) : Frame P s (s.await id) :=
  ⟨le_rfl, fun _ _ => rfl, fun _ _ => rfl, fun _ h h' => absurd h' (not_lt.mpr h),
    fun j hj => by
      have : id ≠ j := fun h => hj (h ▸ hP)
      simp [List.count_append, List.count_singleton', this],
    fun _ _ => rfl, fun _ _ => rfl, ⟨[], by simp, by simp⟩⟩

theorem frame_add {r : Req} (hP : P s.next) (hr : ∀ j, r.req = some j → P j) :
    Frame P s (s.add r) where
  next_le := Nat.le_succ _
  reqs i hi := Function.update_noteq (fun h => hi (by rw [h]; exact hP)) _ _
  req_old i hi := by
    have : i ≠ s.next := by simp at hi; omega
    simp [Function.update_noteq this]
  req_new i h h' j hj := by
    obtain rfl : i = s.next := by simp at h'; omega
    exact hr j (by simpa using hj)
  rpcs _ _ := rfl
  queue _ _ := rfl
  pending _ _ := rfl
  events := ⟨[], by simp, by simp⟩

theorem frame_submit {r : Req} (hP : P s.next) (hr : ∀ j, r.req = some j → P j) :
    Frame P s (s.submit r) :=
  have h := frame_add hP hr
  ⟨h.next_le, h.reqs, h.req_old, h.req_new, h.rpcs,
    fun j hj => by
      have : s.next ≠ j := fun h => hj (h ▸ hP)
      simp [List.count_append, List.count_singleton', this],
    fun _ _ => rfl, h.events⟩

theorem frame_bump (c : Int) : Frame P s { s with chunkVersionInc := c } :=
  ⟨le_rfl, fun _ _ => rfl, fun _ _ => rfl, fun _ h h' => absurd h' (not_lt.mpr h),
    fun _ _ => rfl, fun _ _ => rfl, fun _ _ => rfl, ⟨[], by simp, by simp⟩⟩

theorem frame_changeIncarnationNumber {id : Nat} (hP : P id) (hn : P s.next) :
    Frame P s (changeIncarnationNumber id s) := by
  unfold changeIncarnationNumber
  refine ((frame_bump _).trans (frame_submit ?_ ?_) fun _ h => h).trans (frame_emit ?_) fun _ h => h
  · exact hn
  · simpa using hP
  · simpa [Event.about] using hP

end Frame

section Handlers

variable {env : Env} {s : St} {id : Nat}

theorem own_self : Own s id id := .inl rfl

theorem own_next : Own s id s.next := .inr le_rfl

theorem frame_allocateStart : Frame (Own s id) s (allocateStart env id s) := by
  unfold allocateStart
  dsimp only
  have hset : ∀ r : Req, r.req = (s.reqs id).req → Frame (Own s id) s (s.setReq id r) :=
    fun _ hr => frame_setReq own_self hr
  have hwait : ∀ r : Req, r.req = (s.reqs id).req →
      Frame (Own s id) s ((s.setReq id r).await id) :=
    fun _ hr => (frame_setReq own_self hr).trans (frame_await own_self) fun _ h => h
  split_ifs <;> first | exact hset _ rfl | exact hwait _ rfl

theorem frame_allocateFailed : Frame (Own s id) s (allocateFailed env id s) := by
  unfold allocateFailed
  refine ((frame_emit ?_).trans (frame_setReq own_self (by rfl)) fun _ h => h).trans
    (frame_changeIncarnationNumber own_self own_next) fun _ h => h
  split <;> simp [Event.about]

theorem frame_allocateDone : Frame (Own s id) s (allocateDone env id s) :=
  (frame_setReq own_self (by rfl)).trans (frame_emit (by simp [Event.about, Own])) fun _ h => h

theorem frame_handleAllocate : Frame (Own s id) s (handleAllocate env id s) := by
  unfold handleAllocate
  split_ifs
  · exact frame_allocateStart
  · exact frame_allocateFailed
  · exact frame_allocateDone

theorem frame_handleTruncate : Frame (Own s id) s (handleTruncate env id s) := by
  unfold handleTruncate
  dsimp only
  split_ifs
  · exact (((frame_setReq own_self (by rfl)).trans (frame_add own_next (by simp [Own]))
      fun _ h => h).trans (frame_setReq own_self (by rfl)) fun _ h => h).trans
      frame_handleAllocate fun j hj => by simp [Own] at hj ⊢; omega
  · exact frame_setReq own_self (by rfl)

theorem frame_handler (op : MetaOp) : Frame (Own s id) s (handler env op id s) := by
  cases op with
  | allocate => exact frame_handleAllocate
  | truncate => exact frame_handleTruncate
  | changeChunkVersionInc => exact frame_setReq own_self (by rfl)

theorem allocateFailed_reqs_self (hid : id < s.next) :
    (allocateFailed env id s).reqs id = { s.reqs id with
      status := - EALLOCFAILED
      chunkVersion := env.getChunkVersion s (s.reqs id)
      suspended := true } := by
  simp [allocateFailed, changeIncarnationNumber, Function.update_noteq (Nat.ne_of_lt hid)]

theorem allocateFailed_rpcs : (allocateFailed env id s).rpcs = s.rpcs := by
  simp [allocateFailed, changeIncarnationNumber]

theorem allocateFailed_events : ∃ e : Event, e.about = none ∧
    (allocateFailed env id s).events = s.events ++ [e, .incarnation id] := by
  refine ⟨_, ?_, by simp [allocateFailed, changeIncarnationNumber]; rfl⟩
  split <;> rfl

theorem handleAllocate_of_failed (hl : (s.reqs id).layoutDone = true)
    (hs : (s.reqs id).status ≠ 0) : handleAllocate env id s = allocateFailed env id s := by
  simp [handleAllocate, hl, hs]

end Handlers

end KosmosFs.Request
