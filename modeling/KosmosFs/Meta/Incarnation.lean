import KosmosFs.Meta.Lifecycle

/-! # Chunk version increments are never reused

`ChangeIncarnationNumber` bumps `chunkVersionInc` and submits a `MetaChangeChunkVersionInc` with
the new value; `Bumps` says once what every action can do to the values issued.
-/

namespace KosmosFs.Request

/-- The `cvi` of every `MetaChangeChunkVersionInc` request, in the order they were created. -/
def St.cvis (s : St) : List Int :=
  ((List.range s.next).filter fun i => (s.reqs i).op = .changeChunkVersionInc).map
    fun i => (s.reqs i).cvi

/-- From `s` to `s'` no request changes its operation or its `cvi`. -/
structure Keeps (s s' : St) : Prop where
  next_le : s.next ≤ s'.next
  op : ∀ i < s.next, (s'.reqs i).op = (s.reqs i).op
  cvi : ∀ i < s.next, (s'.reqs i).cvi = (s.reqs i).cvi

/-- What a step does to the increments: nothing, or what one `ChangeIncarnationNumber` does. -/
def Bumps (s s' : St) : Prop :=
  s'.cvis = s.cvis ∧ s'.chunkVersionInc = s.chunkVersionInc ∨
    s'.cvis = s.cvis ++ [s.chunkVersionInc + 1] ∧ s'.chunkVersionInc = s.chunkVersionInc + 1

section Keeps

variable {s s₁ s₂ : St}

theorem Keeps.refl (s : St) : Keeps s s := ⟨le_rfl, fun _ _ => rfl, fun _ _ => rfl⟩

theorem Keeps.trans (h₁ : Keeps s s₁) (h₂ : Keeps s₁ s₂) : Keeps s s₂ :=
  ⟨h₁.next_le.trans h₂.next_le,
    fun i hi => (h₂.op i (lt_of_lt_of_le hi h₁.next_le)).trans (h₁.op i hi),
    fun i hi => (h₂.cvi i (lt_of_lt_of_le hi h₁.next_le)).trans (h₁.cvi i hi)⟩

theorem keeps_of_reqs (hr : s₁.reqs = s.reqs) (hn : s₁.next = s.next) : Keeps s s₁ :=
  ⟨hn.ge, fun i _ => by rw [hr], fun i _ => by rw [hr]⟩

theorem keeps_setReq {id : Nat} {r : Req} (hop : r.op = (s.reqs id).op)
    (hcvi : r.cvi = (s.reqs id).cvi) : Keeps s (s.setReq id r) :=
  ⟨le_rfl, fun i _ => by by_cases h : i = id <;> simp [h, hop],
    fun i _ => by by_cases h : i = id <;> simp [h, hcvi]⟩

theorem keeps_emit (e : Event) : Keeps s (s.emit e) := keeps_of_reqs rfl rfl

theorem keeps_await (id : Nat) : Keeps s (s.await id) := keeps_of_reqs rfl rfl

theorem keeps_bump (c : Int) : Keeps s { s with chunkVersionInc := c } := keeps_of_reqs rfl rfl

theorem keeps_add (r : Req) : Keeps s (s.add r) :=
  ⟨Nat.le_succ _, fun i hi => by simp [Nat.ne_of_lt hi], fun i hi => by simp [Nat.ne_of_lt hi]⟩

theorem keeps_submit (r : Req) : Keeps s (s.submit r) :=
  ⟨Nat.le_succ _, fun i hi => by simp [Nat.ne_of_lt hi], fun i hi => by simp [Nat.ne_of_lt hi]⟩

theorem keeps_resume (q : Nat) : Keeps s (s.resume q) :=
  ⟨le_rfl, fun i _ => by by_cases h : i = q <;> simp [h],
    fun i _ => by by_cases h : i = q <;> simp [h]⟩

theorem cvis_of_keeps (h : Keeps s s₁) (hn : s₁.next = s.next) : s₁.cvis = s.cvis := by
  unfold St.cvis
  rw [hn, List.filter_congr fun i hi => by rw [h.op i (List.mem_range.mp hi)]]
  exact List.map_congr_left fun i hi =>
    h.cvi i (List.mem_range.mp (List.mem_of_mem_filter hi))

theorem cvis_of_keeps_succ (h : Keeps s s₁) (hn : s₁.next = s.next + 1) :
    s₁.cvis = s.cvis ++
      if (s₁.reqs s.next).op = .changeChunkVersionInc then [(s₁.reqs s.next).cvi] else [] := by
  have hs : Keeps s { s₁ with next := s.next } :=
    ⟨le_rfl, h.op, h.cvi⟩
  rw [← cvis_of_keeps hs rfl]
  unfold St.cvis
  rw [hn, List.range_succ, List.filter_append, List.map_append]
  split <;> simp [*]

theorem Bumps.of_keeps (h : Keeps s s₁) (hn : s₁.next = s.next)
    (hc : s₁.chunkVersionInc = s.chunkVersionInc) : Bumps s s₁ :=
  .inl ⟨cvis_of_keeps h hn, hc⟩

end Keeps

section Handlers

variable {env : Env} {s : St} {id : Nat}

theorem allocateStart_keeps :
    Keeps s (allocateStart env id s) ∧ (allocateStart env id s).next = s.next ∧
      (allocateStart env id s).chunkVersionInc = s.chunkVersionInc := by
  unfold allocateStart
  dsimp only
  split_ifs <;>
    first
    | exact ⟨keeps_setReq (by rfl) (by rfl), rfl, rfl⟩
    | exact ⟨(keeps_setReq (by rfl) (by rfl)).trans (keeps_await id), rfl, rfl⟩

theorem allocateFailed_keeps : Keeps s (allocateFailed env id s) := by
  unfold allocateFailed changeIncarnationNumber
  exact ((keeps_emit _).trans (keeps_setReq (by rfl) (by rfl))).trans
    (((keeps_bump _).trans (keeps_submit _)).trans (keeps_emit _))

theorem allocateDone_keeps : Keeps s (allocateDone env id s) := by
  unfold allocateDone
  exact (keeps_setReq (by rfl) (by rfl)).trans (keeps_emit _)

theorem handleAllocate_keeps : Keeps s (handleAllocate env id s) := by
  unfold handleAllocate
  split_ifs
  exacts [allocateStart_keeps.1, allocateFailed_keeps, allocateDone_keeps]

theorem handleAllocate_bumps : Bumps s (handleAllocate env id s) := by
  unfold handleAllocate
  split_ifs
  · obtain ⟨hk, hn, hc⟩ := @allocateStart_keeps env s id
    exact .of_keeps hk hn hc
  · -- the failure branch: `ChangeIncarnationNumber` creates request `s.next`
    refine .inr ⟨?_, rfl⟩
    rw [cvis_of_keeps_succ allocateFailed_keeps rfl]
    simp [allocateFailed, changeIncarnationNumber]
  · exact .of_keeps allocateDone_keeps rfl rfl

theorem handleAllocate_child_bumps {s₂ : St} (hk : Keeps s s₂) (h₂ : s₂.next = s.next + 1)
    (hc : s₂.chunkVersionInc = s.chunkVersionInc) (hl : (s₂.reqs s.next).layoutDone = false)
    (hop : (s₂.reqs s.next).op = .allocate) : Bumps s (handleAllocate env s.next s₂) := by
  rw [handleAllocate, if_pos (by simp [hl])]
  obtain ⟨hk', hn, hc'⟩ := @allocateStart_keeps env s₂ s.next
  refine .inl ⟨?_, hc'.trans hc⟩
  rw [cvis_of_keeps_succ (hk.trans hk') (hn.trans h₂), hk'.op _ (by omega), hop]
  simp

theorem handleTruncate_bumps (hid : id < s.next) : Bumps s (handleTruncate env id s) := by
  unfold handleTruncate
  dsimp only
  split_ifs
  · exact handleAllocate_child_bumps ((keeps_setReq (by rfl) (by rfl)).trans
      ((keeps_add _).trans (keeps_setReq (by rfl) (by rfl)))) rfl rfl
      (by simp [Nat.ne_of_gt hid]) (by simp [Nat.ne_of_gt hid])
  · exact .of_keeps (keeps_setReq (by rfl) (by rfl)) rfl rfl

theorem handler_bumps (op : MetaOp) (hid : id < s.next) : Bumps s (handler env op id s) := by
  cases op with
  | allocate => exact handleAllocate_bumps
  | truncate => exact handleTruncate_bumps hid
  | changeChunkVersionInc => exact .of_keeps (keeps_setReq (by rfl) (by rfl)) rfl rfl

end Handlers

/-! ## Every step, and every run -/

section Steps

variable {env : Env} {s s' : St}

theorem Bumps.le (h : Bumps s s') : s.chunkVersionInc ≤ s'.chunkVersionInc := by
  rcases h with ⟨-, h⟩ | ⟨-, h⟩ <;> omega

theorem Bumps.prefix (h : Bumps s s') : s.cvis <+: s'.cvis := by
  rcases h with ⟨h, -⟩ | ⟨h, -⟩
  exacts [⟨[], by rw [h, List.append_nil]⟩, ⟨_, h.symm⟩]

theorem Bumps.increasing (h : Bumps s s')
    (hi : s.cvis.Pairwise (· < ·) ∧ ∀ c ∈ s.cvis, c ≤ s.chunkVersionInc) :
    s'.cvis.Pairwise (· < ·) ∧ ∀ c ∈ s'.cvis, c ≤ s'.chunkVersionInc := by
  rcases h with ⟨h, hc⟩ | ⟨h, hc⟩ <;> rw [h, hc]
  · exact hi
  · refine ⟨List.pairwise_append.mpr ⟨hi.1, List.pairwise_singleton _ _, ?_⟩, ?_⟩
    · intro a ha b hb
      rw [List.mem_singleton.mp hb]
      have := hi.2 a ha; omega
    · intro c hc'
      rcases List.mem_append.mp hc' with hc' | hc'
      · have := hi.2 c hc'; omega
      · rw [List.mem_singleton.mp hc']

theorem Lifecycle.step_bumps {act : Act} (hi : Lifecycle s) (h : s.step env act = some s') :
    Bumps s s' := by
  cases act with
  | submit op fid offset =>
    obtain ⟨hop, h⟩ := Option.ite_none_left_eq_some.mp h
    cases h
    refine .inl ⟨?_, rfl⟩
    rw [cvis_of_keeps_succ (keeps_submit _) rfl]
    simp [hop]
  | process =>
    cases hq : s.queue with
    | nil => simp [St.step, processRequest, hq] at h
    | cons id rest =>
      have hid : id < s.next := hi.live_lt id (by simp [St.live, hq])
      rw [St.step, processRequest_eq hq, Option.some.injEq] at h
      subst h
      have hb := @handler_bumps env ({ s with queue := rest }.emit (.handled id)) id
        (s.reqs id).op hid
      set s₁ := handler env (s.reqs id).op id ({ s with queue := rest }.emit (.handled id))
      have hr : (s₁.retire id).cvis = s₁.cvis ∧
          (s₁.retire id).chunkVersionInc = s₁.chunkVersionInc := by
        unfold St.retire
        split
        · exact ⟨cvis_of_keeps (keeps_of_reqs rfl rfl) rfl, rfl⟩
        · exact ⟨rfl, rfl⟩
      unfold Bumps at hb ⊢
      rw [hr.1, hr.2]
      exact hb
  | reply id status =>
    obtain ⟨-, h⟩ := Option.ite_none_right_eq_some.mp h
    cases h
    refine .of_keeps ⟨le_rfl, fun i _ => ?_, fun i _ => ?_⟩ rfl rfl <;>
      by_cases hi : i = id <;> simp [hi]
  | flush =>
    cases hp : s.pending with
    | nil => simp [St.step, hp] at h
    | cons p rest =>
      simp only [St.step, hp] at h
      have hk : Keeps s { s with pending := rest } := keeps_of_reqs rfl rfl
      split at h <;> cases h
      · exact .of_keeps (hk.trans (keeps_resume _)) rfl rfl
      · exact .of_keeps hk rfl rfl

theorem Reachable.increasing (hr : Reachable env s) :
    s.cvis.Pairwise (· < ·) ∧ ∀ c ∈ s.cvis, c ≤ s.chunkVersionInc := by
  induction hr with
  | init => simp [St.cvis, St.init]
  | step _ hr h ih => exact (hr.lifecycle.step_bumps h).increasing ih

theorem Reachable.run_bumps {acts : List Act} (hr : Reachable env s)
    (h : s.run env acts = some s') :
    s.chunkVersionInc ≤ s'.chunkVersionInc ∧ s.cvis <+: s'.cvis := by
  induction acts generalizing s with
  | nil => cases h; exact ⟨le_rfl, List.prefix_refl _⟩
  | cons act acts ih =>
    obtain ⟨s₁, h₁, h₂⟩ := Option.bind_eq_some.mp h
    have hb := hr.lifecycle.step_bumps h₁
    obtain ⟨hle, hpre⟩ := ih (hr.step act h₁) h₂
    exact ⟨hb.le.trans hle, hb.prefix.trans hpre⟩

end Steps

/-- `chunkVersionInc` never decreases and the values issued to requests increase. -/
theorem reachable_cvis {env : Env} {s s' : St} {acts : List Act} (hr : Reachable env s)
    (h : s.run env acts = some s') :
    s'.cvis.Pairwise (· < ·) ∧ (∀ c ∈ s'.cvis, c ≤ s'.chunkVersionInc) ∧
      s.chunkVersionInc ≤ s'.chunkVersionInc ∧ s.cvis <+: s'.cvis :=
  ⟨(hr.run h).increasing.1, (hr.run h).increasing.2, hr.run_bumps h⟩

theorem reachable_cvis_twoFailures :
    let s' := (St.init.run serverDown [.submit .allocate 5 0, .process, .reply 0 (-5), .process,
      .process, .flush, .process]).getD St.init
    s'.cvis = [1, 2] ∧ s'.cvis.Pairwise (· < ·) ∧ (∀ c ∈ s'.cvis, c ≤ s'.chunkVersionInc) ∧
      St.init.chunkVersionInc ≤ s'.chunkVersionInc ∧ St.init.cvis <+: s'.cvis := by
  intro s'
  have h : St.init.run serverDown [.submit .allocate 5 0, .process, .reply 0 (-5), .process,
      .process, .flush, .process] = some s' := rfl
  exact ⟨by decide, reachable_cvis .init h⟩

end KosmosFs.Request
