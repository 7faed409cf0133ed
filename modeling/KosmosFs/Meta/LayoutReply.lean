import KosmosFs.Meta.Incarnation

/-! # The layout manager's reply

A completed layout RPC resumes its request with the chunkservers' status, and `process_request`
runs `handle_allocate` on it again. Only allocations wait on the layout manager (`AllocRpcs`).
-/

namespace KosmosFs.Request

/-- Every request waiting on the layout manager is an allocation. -/
def AllocRpcs (s : St) : Prop := ∀ x ∈ s.rpcs, (s.reqs x).op = .allocate

section Invariant

variable {env : Env} {s s₁ s' : St} {id : Nat}

theorem AllocRpcs.of_keeps (h : AllocRpcs s) (hk : Keeps s s₁) (hlt : ∀ x ∈ s.rpcs, x < s.next)
    (hnew : ∀ x ∈ s₁.rpcs, x ∈ s.rpcs ∨ (s₁.reqs x).op = .allocate) : AllocRpcs s₁ :=
  fun x hx => (hnew x hx).elim (fun h' => (hk.op x (hlt x h')).trans (h x h')) id

theorem handleAllocate_rpcs {x : Nat} (hx : x ∈ (handleAllocate env id s).rpcs) :
    x ∈ s.rpcs ∨ x = id := by
  unfold handleAllocate at hx
  split_ifs at hx
  · obtain ⟨-, -, -, ⟨hr, -⟩ | ⟨hr, -⟩⟩ := @allocateStart_cases env s id <;> rw [hr] at hx
    · exact .inl hx
    · simpa using hx
  · exact .inl (by rwa [allocateFailed_rpcs] at hx)
  · exact .inl hx

theorem handleAllocate_allocRpcs (h : AllocRpcs s) (hlt : ∀ x ∈ s.rpcs, x < s.next)
    (hid : id < s.next) (hop : (s.reqs id).op = .allocate) :
    AllocRpcs (handleAllocate env id s) :=
  h.of_keeps handleAllocate_keeps hlt fun _ hx => (handleAllocate_rpcs hx).imp_right
    fun hx => by rw [hx, handleAllocate_keeps.op id hid, hop]

theorem handleTruncate_allocRpcs (h : AllocRpcs s) (hlt : ∀ x ∈ s.rpcs, x < s.next)
    (hid : id < s.next) : AllocRpcs (handleTruncate env id s) := by
  unfold handleTruncate
  dsimp only
  split_ifs
  · refine handleAllocate_allocRpcs ?_ (fun x hx => Nat.lt_succ_of_lt (hlt x hx))
      (Nat.lt_succ_self _) (by simp [Nat.ne_of_gt hid])
    exact h.of_keeps ((keeps_setReq (by rfl) (by rfl)).trans
      ((keeps_add _).trans (keeps_setReq (by rfl) (by rfl)))) hlt fun x hx => .inl hx
  · exact h.of_keeps (keeps_setReq (by rfl) (by rfl)) hlt fun x hx => .inl hx

theorem handler_allocRpcs (op : MetaOp) (h : AllocRpcs s) (hlt : ∀ x ∈ s.rpcs, x < s.next)
    (hid : id < s.next) (hop : (s.reqs id).op = op) : AllocRpcs (handler env op id s) := by
  cases op with
  | allocate => exact handleAllocate_allocRpcs h hlt hid hop
  | truncate => exact handleTruncate_allocRpcs h hlt hid
  | changeChunkVersionInc =>
    exact h.of_keeps (keeps_setReq (by rfl) (by rfl)) hlt fun x hx => .inl hx

theorem Lifecycle.step_allocRpcs {act : Act} (hi : Lifecycle s) (h : AllocRpcs s)
    (hs : s.step env act = some s') : AllocRpcs s' := by
  have hlt : ∀ x ∈ s.rpcs, x < s.next := fun x hx => hi.live_lt x (by simp [St.live, hx])
  cases act with
  | submit op fid offset =>
    obtain ⟨-, hs⟩ := Option.ite_none_left_eq_some.mp hs
    cases hs
    exact h.of_keeps (keeps_submit _) hlt fun x hx => .inl hx
  | process =>
    cases hq : s.queue with
    | nil => simp [St.step, processRequest, hq] at hs
    | cons id rest =>
      rw [St.step, processRequest_eq hq, Option.some.injEq] at hs
      subst hs
      have h₁ := @handler_allocRpcs env ({ s with queue := rest }.emit (.handled id)) id
        (s.reqs id).op h hlt (hi.live_lt id (by simp [St.live, hq])) rfl
      unfold St.retire
      split <;> exact h₁
  | reply id status =>
    obtain ⟨-, hs⟩ := Option.ite_none_right_eq_some.mp hs
    cases hs
    intro x hx
    by_cases hxi : x = id <;> simpa [hxi] using h x (List.mem_of_mem_erase hx)
  | flush =>
    cases hp : s.pending with
    | nil => simp [St.step, hp] at hs
    | cons p rest =>
      simp only [St.step, hp] at hs
      have hk : Keeps s { s with pending := rest } := keeps_of_reqs rfl rfl
      split at hs <;> cases hs
      · exact h.of_keeps (hk.trans (keeps_resume _)) hlt fun x hx => .inl hx
      · exact h

theorem Reachable.allocRpcs (hr : Reachable env s) : AllocRpcs s := by
  induction hr with
  | init => exact fun x hx => absurd hx (List.not_mem_nil x)
  | step _ hr h ih => exact hr.lifecycle.step_allocRpcs ih h

end Invariant

/-- A layout reply retires its request exactly when its status is `0`. -/
theorem layoutReply_retires {env : Env} {s : St} {a : Nat} (st : Int) (hr : Reachable env s)
    (ha : a ∈ s.rpcs) :
    ∃ s', s.run env [.reply a st, .process] = some s' ∧
      (Event.retired a ∈ s'.events ↔ st = 0) ∧
      (st = 0 → a ∈ s'.pending ∧ Event.assign a (s.reqs a).fid (s.reqs a).offset
        (s.reqs a).chunkId (s.reqs a).chunkVersion ∈ s'.events) ∧
      (st ≠ 0 → (s'.reqs a).status = - EALLOCFAILED ∧ (s'.reqs a).suspended = true) := by
  have hi := hr.lifecycle
  have hlt : a < s.next := hi.live_lt a (by simp [St.live, ha])
  have hold : Event.retired a ∉ s.events := fun h => (hi.retired_gone a h).2.2.1 ha
  set s₁ := { s.setReq a { s.reqs a with layoutDone := true, status := st } with
    rpcs := s.rpcs.erase a }.resume a
  set s₂ := { s₁ with queue := s.queue }.emit (.handled a)
  have hr₂ : s₂.reqs a = { s.reqs a with layoutDone := true, status := st, suspended := false } :=
    by simp [s₂, s₁]
  have hrun : s.run env [.reply a st, .process] = some ((handleAllocate env a s₂).retire a) := by
    have hop : (s₁.reqs a).op = .allocate := by simpa [s₁] using hr.allocRpcs a ha
    rw [St.run, show s.step env (.reply a st) = some s₁ from if_pos ha, Option.some_bind, St.run]
    show (processRequest env s₁).bind _ = _
    rw [@processRequest_eq env s₁ a s.queue rfl, hop]
    rfl
  refine ⟨_, hrun, ?_⟩
  by_cases hst : st = 0
  · -- the layout step succeeded: `metatree.assignChunkId`, then `oplog.add_pending`
    rw [show handleAllocate env a s₂ = allocateDone env a s₂ by simp [handleAllocate, hr₂, hst]]
    simp [St.retire, hr₂, hst, allocateDone, s₂, s₁]
  · -- the layout step failed: `-EALLOCFAILED`, and the request stays suspended
    rw [handleAllocate_of_failed (by simp [hr₂]) (by simp [hr₂, hst])]
    have hs := @allocateFailed_reqs_self env s₂ a hlt
    obtain ⟨e, he, hev⟩ := @allocateFailed_events env s₂ a
    have he' : e ≠ .retired a := by rintro rfl; simp [Event.about] at he
    rw [retire_of_suspended (by simp [hs]), hev, hs]
    simp [hst, hold, s₂, s₁, Ne.symm he']

theorem layoutReply_retires_placed :
    let s := (St.init.run serverDown [.submit .allocate 5 0, .process]).getD St.init
    0 ∈ s.rpcs ∧ ∃ s', s.run serverDown [.reply 0 0, .process] = some s' ∧
      (Event.retired 0 ∈ s'.events ↔ (0 : Int) = 0) ∧
      ((0 : Int) = 0 → 0 ∈ s'.pending ∧ Event.assign 0 (s.reqs 0).fid (s.reqs 0).offset
        (s.reqs 0).chunkId (s.reqs 0).chunkVersion ∈ s'.events) ∧
      ((0 : Int) ≠ 0 → (s'.reqs 0).status = - EALLOCFAILED ∧ (s'.reqs 0).suspended = true) := by
  intro s
  have hr : St.init.run serverDown [.submit .allocate 5 0, .process] = some s := rfl
  have ha : 0 ∈ s.rpcs := by decide
  exact ⟨ha, layoutReply_retires 0 (Reachable.init.run hr) ha⟩

end KosmosFs.Request
