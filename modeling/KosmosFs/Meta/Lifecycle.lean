import KosmosFs.Meta.Dispatcher
import Mathlib.Data.List.Nodup

/-! # The life of a request

A request is in at most one of `requestList`, the layout manager's RPCs and the log's pending
list, and there once. The invariant `Lifecycle` is followed through the actions of `St.step`.
-/

namespace KosmosFs.Request

/-- The requests the dispatcher still has work for: queued, waiting on the layout manager, or
handed to the log and not yet durable. -/
def St.live (s : St) : List Nat := s.queue ++ s.rpcs ++ s.pending

/-- A request suspended with no RPC out: only the request tied to it can resume it. -/
def Parked (s : St) (q : Nat) : Prop :=
  q < s.next ∧ (s.reqs q).suspended = true ∧ q ∉ s.rpcs

/-- Request `x` will resume `q` once the log has made it durable: `x->req` is `q`, and `x` is
live, or parked behind a request that will resume it in turn. -/
def Holds (s : St) (x q : Nat) : Prop :=
  (s.reqs x).req = some q ∧ (x ∈ s.live ∨ Parked s x)

/-- What every state the dispatcher reaches satisfies. -/
structure Lifecycle (s : St) : Prop where
  nodup : s.live.Nodup
  live_lt : ∀ x ∈ s.live, x < s.next
  queue_running : ∀ x ∈ s.queue, (s.reqs x).suspended = false
  pending_running : ∀ x ∈ s.pending, (s.reqs x).suspended = false
  held_parked : ∀ {x q}, Holds s x q → Parked s q
  holder_unique : ∀ {x y q}, Holds s x q → Holds s y q → x = y
  retired_gone : ∀ x, Event.retired x ∈ s.events →
    x < s.next ∧ x ∉ s.queue ∧ x ∉ s.rpcs ∧ (s.reqs x).suspended = false
  retired_once : ∀ x, s.events.count (.retired x) ≤ 1

theorem lifecycle_init : Lifecycle St.init where
  nodup := List.nodup_nil
  live_lt _ h := absurd h (List.not_mem_nil _)
  queue_running _ h := absurd h (List.not_mem_nil _)
  pending_running _ h := absurd h (List.not_mem_nil _)
  held_parked h := absurd h.1 (by simp [St.init])
  holder_unique h := absurd h.1 (by simp [St.init])
  retired_gone _ h := absurd h (List.not_mem_nil _)
  retired_once _ := Nat.zero_le 1

/-! ## Requests a step does not touch -/

section Transfer

variable {P : Nat → Prop} {s s' : St} {x q : Nat}

theorem Frame.mem_queue (h : Frame P s s') (hx : ¬ P x) : x ∈ s'.queue ↔ x ∈ s.queue := by
  rw [← List.count_pos_iff, ← List.count_pos_iff, h.queue x hx]

theorem Frame.mem_rpcs (h : Frame P s s') (hx : ¬ P x) : x ∈ s'.rpcs ↔ x ∈ s.rpcs := by
  rw [← List.count_pos_iff, ← List.count_pos_iff, h.rpcs x hx]

theorem Frame.mem_pending (h : Frame P s s') (hx : ¬ P x) :
    x ∈ s'.pending ↔ x ∈ s.pending := by
  rw [← List.count_pos_iff, ← List.count_pos_iff, h.pending x hx]

theorem Frame.mem_live (h : Frame P s s') (hx : ¬ P x) : x ∈ s'.live ↔ x ∈ s.live := by
  simp only [St.live, List.mem_append, h.mem_queue hx, h.mem_rpcs hx, h.mem_pending hx]

theorem Frame.parked_iff (h : Frame P s s') (hx : ¬ P x) (hlt : x < s.next) :
    Parked s' x ↔ Parked s x := by
  simp only [Parked, h.reqs x hx, h.mem_rpcs hx, hlt, lt_of_lt_of_le hlt h.next_le]

theorem Frame.holds_iff (h : Frame P s s') (hx : ¬ P x) (hlt : x < s.next) :
    Holds s' x q ↔ Holds s x q := by
  simp only [Holds, h.reqs x hx, h.mem_live hx, h.parked_iff hx hlt]

end Transfer

section Basic

variable {s : St} {x q : Nat}

theorem Lifecycle.not_held_of_queue (hi : Lifecycle s) (hq : q ∈ s.queue) : ¬ Holds s x q :=
  fun h => by simpa [hi.queue_running q hq] using (hi.held_parked h).2.1

end Basic

/-! ## What a handler does with the request it runs on -/

/-- What a handler run on request `id` does with it: finishes it, leaves it waiting on an RPC,
or parks it behind one new request, `s.next`, tied to it, which it queues (`cq`), leaves
waiting on an RPC (`cr`), or drops. -/
inductive Outcome (id : Nat) (s s₁ : St) : Prop
  | done : s₁.next = s.next → s₁.queue = s.queue → s₁.rpcs = s.rpcs →
      (s₁.reqs id).suspended = false → Outcome id s s₁
  | waits : s₁.next = s.next → s₁.queue = s.queue → s₁.rpcs = s.rpcs ++ [id] →
      (s₁.reqs id).suspended = true → Outcome id s s₁
  | parks (cq cr : List Nat) : s₁.next = s.next + 1 → s₁.queue = s.queue ++ cq →
      s₁.rpcs = s.rpcs ++ cr → (cq ++ cr).Sublist [s.next] →
      (∀ x ∈ cq, (s₁.reqs x).suspended = false) → (s₁.reqs id).suspended = true →
      (s₁.reqs s.next).req = some id → Outcome id s s₁

/-- A handler leaves the log's pending list alone and retires nothing; `process_request` does
both after it. -/
def Unlogged (s s₁ : St) : Prop :=
  s₁.pending = s.pending ∧ ∀ x, s₁.events.count (.retired x) = s.events.count (.retired x)

section Outcome

variable {env : Env} {s : St} {id : Nat}

theorem allocateStart_cases :
    (allocateStart env id s).next = s.next ∧ (allocateStart env id s).queue = s.queue ∧
      Unlogged s (allocateStart env id s) ∧
      ((allocateStart env id s).rpcs = s.rpcs ∧
          ((allocateStart env id s).reqs id).suspended = (s.reqs id).suspended ∨
        (allocateStart env id s).rpcs = s.rpcs ++ [id] ∧
          ((allocateStart env id s).reqs id).suspended = true) := by
  unfold allocateStart Unlogged
  dsimp only
  split_ifs <;> simp

theorem allocateStart_outcome (hs : (s.reqs id).suspended = false) :
    Outcome id s (allocateStart env id s) := by
  obtain ⟨hn, hq, -, ⟨hr, hsus⟩ | ⟨hr, hsus⟩⟩ := @allocateStart_cases env s id
  · exact .done hn hq hr (hsus.trans hs)
  · exact .waits hn hq hr hsus

theorem allocateFailed_outcome (hid : id < s.next) : Outcome id s (allocateFailed env id s) :=
  .parks [s.next] [] rfl rfl (by simp [allocateFailed_rpcs]) (by simp)
    (by simp [allocateFailed, changeIncarnationNumber])
    (by simp [allocateFailed_reqs_self hid])
    (by simp [allocateFailed, changeIncarnationNumber])

theorem handleAllocate_outcome (hid : id < s.next) (hs : (s.reqs id).suspended = false) :
    Outcome id s (handleAllocate env id s) := by
  unfold handleAllocate
  split_ifs
  · exact allocateStart_outcome hs
  · exact allocateFailed_outcome hid
  · exact .done rfl rfl rfl (by simp [allocateDone])

theorem handleAllocate_child {s₂ : St} (hid : id < s.next) (h₂ : s₂.next = s.next + 1)
    (hq : s₂.queue = s.queue) (hr : s₂.rpcs = s.rpcs) (hsus : (s₂.reqs id).suspended = true)
    (hl : (s₂.reqs s.next).layoutDone = false) (hreq : (s₂.reqs s.next).req = some id) :
    Outcome id s (handleAllocate env s.next s₂) := by
  have hf : Frame (Own s₂ s.next) s₂ (allocateStart env s.next s₂) := frame_allocateStart
  have hown : ¬ Own s₂ s.next id := by simp only [Own, h₂]; omega
  rw [handleAllocate, if_pos (by simp [hl])]
  obtain ⟨hn, hq', -, ⟨hr', -⟩ | ⟨hr', -⟩⟩ :=
    @allocateStart_cases env s₂ s.next
  · exact .parks [] [] (hn.trans h₂) (by simp [hq', hq]) (by simp [hr', hr]) (by simp) (by simp)
      (by rw [hf.reqs id hown, hsus]) (by rw [hf.req_old _ (.inl (by omega)), hreq])
  · exact .parks [] [s.next] (hn.trans h₂) (by simp [hq', hq]) (by rw [hr', hr]) (by simp)
      (by simp) (by rw [hf.reqs id hown, hsus]) (by rw [hf.req_old _ (.inl (by omega)), hreq])

theorem handleTruncate_outcome (hid : id < s.next) (hs : (s.reqs id).suspended = false) :
    Outcome id s (handleTruncate env id s) := by
  have hne : id ≠ s.next := Nat.ne_of_lt hid
  unfold handleTruncate
  dsimp only
  split_ifs
  · exact handleAllocate_child hid rfl rfl rfl (by simp) (by simp [hne.symm])
      (by simp [hne.symm])
  · exact .done rfl rfl rfl (by simpa using hs)

theorem handler_outcome (op : MetaOp) (hid : id < s.next) (hs : (s.reqs id).suspended = false) :
    Outcome id s (handler env op id s) := by
  cases op with
  | allocate => exact handleAllocate_outcome hid hs
  | truncate => exact handleTruncate_outcome hid hs
  | changeChunkVersionInc =>
    exact .done rfl rfl rfl (by simpa [handler, handleChangeChunkVersionInc] using hs)

theorem Unlogged.trans {s₁ s₂ : St} (h₁ : Unlogged s s₁) (h₂ : Unlogged s₁ s₂) :
    Unlogged s s₂ :=
  ⟨h₂.1.trans h₁.1, fun x => (h₂.2 x).trans (h₁.2 x)⟩

theorem handleAllocate_unlogged : Unlogged s (handleAllocate env id s) := by
  unfold handleAllocate
  split_ifs
  · exact allocateStart_cases.2.2.1
  · obtain ⟨e, he, hev⟩ := @allocateFailed_events env s id
    refine ⟨rfl, fun x => ?_⟩
    have : e ≠ .retired x := by rintro rfl; simp [Event.about] at he
    simp [hev, List.count_cons, this]
  · exact ⟨rfl, fun x => by simp [allocateDone, List.count_cons]⟩

theorem handler_unlogged (op : MetaOp) : Unlogged s (handler env op id s) := by
  cases op with
  | allocate => exact handleAllocate_unlogged
  | truncate =>
    unfold handler handleTruncate
    dsimp only
    split_ifs
    · exact Unlogged.trans ⟨rfl, fun _ => rfl⟩ handleAllocate_unlogged
    · exact ⟨rfl, fun _ => rfl⟩
  | changeChunkVersionInc => exact ⟨rfl, fun _ => rfl⟩

end Outcome

/-! ## `process_request` -/

/-- What `process_request` does when `id` heads the queue and `rest` follows it: every other
request it leaves alone, `id` ends up live again at most once, or it is parked behind one new
request that is live, or dropped, and only `id` can be retired. -/
structure Processed (id : Nat) (rest : List Nat) (s s' : St) : Prop where
  frame : Frame (Own s id) s s'
  next_le : s'.next ≤ s.next + 1
  live : ∃ L, s'.live.Perm (L ++ (rest ++ s.rpcs ++ s.pending)) ∧
    (L.Sublist [id] ∨ L.Sublist [s.next] ∧ s'.next = s.next + 1)
  queue_own : ∀ x ∈ s'.queue, Own s id x → (s'.reqs x).suspended = false
  pending_own : ∀ x ∈ s'.pending, Own s id x → x = id ∧ (s'.reqs x).suspended = false
  child : s.next < s'.next → (s'.reqs s.next).req = some id ∧ Parked s' id
  retired_count : ∀ x, s'.events.count (.retired x) ≤
    s.events.count (.retired x) + if x = id then 1 else 0
  retired_mem : ∀ x, Event.retired x ∈ s'.events → Event.retired x ∈ s.events ∨ x ∈ s'.pending

section Process

variable {env : Env} {s s' : St} {id : Nat} {rest : List Nat}

theorem Lifecycle.live_eq (hq : s.queue = id :: rest) :
    s.live = id :: (rest ++ s.rpcs ++ s.pending) := by
  simp [St.live, hq]

theorem Lifecycle.not_own (hi : Lifecycle s) (hq : s.queue = id :: rest) {x : Nat}
    (hx : x ∈ rest ++ s.rpcs ++ s.pending) : ¬ Own s id x := by
  have hnd := hi.nodup
  rw [Lifecycle.live_eq hq, List.nodup_cons] at hnd
  have hlt := hi.live_lt x (by rw [Lifecycle.live_eq hq]; exact List.mem_cons_of_mem _ hx)
  rintro (rfl | h)
  · exact hnd.1 hx
  · omega

theorem Lifecycle.processed (hi : Lifecycle s) (hq : s.queue = id :: rest)
    (h : processRequest env s = some s') : Processed id rest s s' := by
  have hf := frame_processRequest hq h
  have hlive := Lifecycle.live_eq hq
  have hid : id < s.next := hi.live_lt id (by simp [hlive])
  have hnd := hi.nodup
  rw [hlive, List.nodup_cons] at hnd
  have hnot : ∀ x ∈ rest ++ s.rpcs ++ s.pending, ¬ Own s id x := fun _ => hi.not_own hq
  have hrest : ∀ x ∈ rest, ¬ Own s id x := fun x hx => hnot x (by simp [hx])
  have hpend : ∀ x ∈ s.pending, ¬ Own s id x := fun x hx => hnot x (by simp [hx])
  have hrpc : id ∉ s.rpcs := fun h' => hnd.1 (by simp [h'])
  rw [processRequest_eq hq, Option.some.injEq] at h
  subst h
  have hout := @handler_outcome env ({ s with queue := rest }.emit (.handled id)) id
    (s.reqs id).op hid (hi.queue_running id (by simp [hq]))
  obtain ⟨hup, hret⟩ :=
    @handler_unlogged env ({ s with queue := rest }.emit (.handled id)) id (s.reqs id).op
  set s₁ := handler env (s.reqs id).op id ({ s with queue := rest }.emit (.handled id))
  have hcount : ∀ x, s₁.events.count (.retired x) = s.events.count (.retired x) := fun x => by
    rw [hret x]; simp [List.count_cons]
  have hmem : ∀ x, Event.retired x ∈ s₁.events → Event.retired x ∈ s.events := fun x h' => by
    rw [← List.count_pos_iff, hcount] at h'; exact List.count_pos_iff.mp h'
  have hperm : ∀ a b c d e f : List Nat,
      ((a ++ b) ++ (c ++ d) ++ (e ++ f)).Perm ((b ++ d ++ f) ++ (a ++ c ++ e)) := fun _ _ _ _ _ _ =>
    List.perm_iff_count.mpr fun _ => by simp only [List.count_append]; omega
  cases hout with
  | done hn hq₁ hr₁ hs₁ =>
    have hs' : s₁.retire id = { s₁ with pending := s.pending ++ [id] }.emit (.retired id) := by
      simp [St.retire, hs₁, hup]
    rw [hs']
    refine ⟨hs' ▸ hf, by simp [hn], ⟨[id], ?_, .inl (.refl _)⟩, ?_, ?_, ?_, ?_, ?_⟩
    · simpa [St.live, hq₁, hr₁] using hperm rest [] s.rpcs [] s.pending [id]
    · intro x hx hown
      exact absurd hown (hrest x (by simpa [hq₁] using hx))
    · intro x hx hown
      rcases List.mem_append.mp hx with hx | hx
      · exact absurd hown (hpend x hx)
      · obtain rfl := List.mem_singleton.mp hx; exact ⟨rfl, hs₁⟩
    · intro hlt; simp [hn] at hlt
    · intro x
      by_cases hx : x = id <;> simp [List.count_append, hcount, hx, List.count_cons]
    · intro x hx
      rcases List.mem_append.mp hx with hx | hx
      · exact .inl (hmem x hx)
      · obtain rfl : x = id := by simpa using hx
        exact .inr (by simp)
  | waits hn hq₁ hr₁ hs₁ =>
    have hs' : s₁.retire id = s₁ := retire_of_suspended hs₁
    rw [hs']
    refine ⟨hs' ▸ hf, by simp [hn], ⟨[id], ?_, .inl (.refl _)⟩, ?_, ?_, ?_, ?_, ?_⟩
    · simpa [St.live, hq₁, hr₁, hup] using hperm rest [] s.rpcs [id] s.pending []
    · intro x hx hown
      exact absurd hown (hrest x (by simpa [hq₁] using hx))
    · intro x hx hown
      exact absurd hown (hpend x (by simpa [hup] using hx))
    · intro hlt; simp [hn] at hlt
    · intro x; rw [hcount]; omega
    · exact fun x hx => .inl (hmem x hx)
  | parks cq cr hn hq₁ hr₁ hsub hcq hs₁ hreq =>
    have hs' : s₁.retire id = s₁ := retire_of_suspended hs₁
    rw [hs']
    have hcr : ∀ x ∈ cr, x = s.next := fun x hx =>
      List.mem_singleton.mp (hsub.subset (List.mem_append_right _ hx))
    refine ⟨hs' ▸ hf, by simp [hn], ⟨cq ++ cr, ?_, .inr ⟨hsub, hn⟩⟩, ?_, ?_, ?_, ?_, ?_⟩
    · simpa [St.live, hq₁, hr₁, hup, List.append_assoc] using
        hperm rest cq s.rpcs cr s.pending []
    · intro x hx hown
      rcases List.mem_append.mp (hq₁ ▸ hx) with hx | hx
      · exact absurd hown (hrest x hx)
      · exact hcq x hx
    · intro x hx hown
      exact absurd hown (hpend x (by simpa [hup] using hx))
    · intro _
      refine ⟨hreq, by rw [hn]; exact Nat.lt_succ_of_lt hid, hs₁, fun h' => ?_⟩
      rcases List.mem_append.mp (hr₁ ▸ h') with h' | h'
      · exact hrpc h'
      · exact absurd (hcr id h') (Nat.ne_of_lt hid)
    · intro x; rw [hcount]; omega
    · exact fun x hx => .inl (hmem x hx)

end Process

/-! ## Every step keeps the invariant -/

section Step

variable {env : Env} {s s' : St} {x q : Nat}

theorem St.live_nodup_pending (hnd : s.live.Nodup) (hx : x ∈ s.pending) :
    x ∉ s.queue ∧ x ∉ s.rpcs := by
  have hd := (List.nodup_append.mp hnd).2.2
  exact ⟨fun h => hd (List.mem_append_left _ h) hx, fun h => hd (List.mem_append_right _ h) hx⟩

theorem St.live_nodup_rpcs (hnd : s.live.Nodup) (hx : x ∈ s.rpcs) : x ∉ s.queue := by
  have := (List.nodup_append.mp (List.nodup_append.mp hnd).1).2.2
  exact fun h => this h hx

theorem Lifecycle.holders (hi : Lifecycle s) (hh : ∀ {x q}, Holds s' x q → Holds s x q)
    (hp : ∀ {x q}, Holds s' x q → Parked s q → Parked s' q) :
    (∀ {x q}, Holds s' x q → Parked s' q) ∧ (∀ {x y q}, Holds s' x q → Holds s' y q → x = y) :=
  ⟨fun h => hp h (hi.held_parked (hh h)), fun hx hy => hi.holder_unique (hh hx) (hh hy)⟩

theorem Lifecycle.submit {op : MetaOp} {fid offset : Int} (hi : Lifecycle s)
    (h : s.step env (.submit op fid offset) = some s') : Lifecycle s' := by
  have hf := frame_step_submit h
  obtain ⟨-, h⟩ := Option.ite_none_left_eq_some.mp h
  cases h
  have hlt := hi.live_lt
  have hne : ∀ {x}, x < s.next → x ≠ s.next := Nat.ne_of_lt
  have hlive : (s.submit { op := op, fid := fid, offset := offset }).live.Perm
      (s.next :: s.live) := by
    simp [St.live]
  have hlt' : ∀ x ∈ (s.submit { op := op, fid := fid, offset := offset }).live,
      x < s.next + 1 := fun x hx => by
    rcases List.mem_cons.mp (hlive.mem_iff.mp hx) with rfl | hx
    · exact Nat.lt_succ_self _
    · exact Nat.lt_succ_of_lt (hlt x hx)
  have hh : ∀ {x q}, Holds (s.submit { op := op, fid := fid, offset := offset }) x q →
      Holds s x q := fun {x q} h' => by
    have hx : x < s.next + 1 := h'.2.elim (hlt' x) (·.1)
    by_cases hxn : x = s.next
    · subst hxn; simp [Holds] at h'
    · exact (hf.holds_iff hxn (by omega)).mp h'
  obtain ⟨held, uniq⟩ := hi.holders hh fun _ hq =>
    (hf.parked_iff (hne hq.1) hq.1).mpr hq
  refine ⟨hlive.nodup_iff.mpr (List.nodup_cons.mpr ⟨fun h' => hne (hlt _ h') rfl, hi.nodup⟩),
    hlt', fun x hx => ?_, fun x hx => ?_, held, uniq, fun x hx => ?_, hi.retired_once⟩
  · rcases List.mem_append.mp hx with hx | hx
    · rw [hf.reqs x (hne (hlt x (List.mem_append_left _ (List.mem_append_left _ hx))))]
      exact hi.queue_running x hx
    · obtain rfl := List.mem_singleton.mp hx; simp
  · have hx' := hne (hlt x (List.mem_append_right _ hx))
    rw [hf.reqs x hx']; exact hi.pending_running x hx
  · obtain ⟨hlt₁, hq₁, hr₁, hs₁⟩ := hi.retired_gone x hx
    refine ⟨Nat.lt_succ_of_lt hlt₁, ?_, ?_, ?_⟩
    · rw [hf.mem_queue (hne hlt₁)]; exact hq₁
    · rw [hf.mem_rpcs (hne hlt₁)]; exact hr₁
    · rw [hf.reqs x (hne hlt₁)]; exact hs₁

theorem Lifecycle.reply {id : Nat} {status : Int} (hi : Lifecycle s)
    (h : s.step env (.reply id status) = some s') : Lifecycle s' := by
  have hf := frame_step_reply h
  obtain ⟨hin, h⟩ := Option.ite_none_right_eq_some.mp h
  cases h
  set s' := { s.setReq id { s.reqs id with layoutDone := true, status := status } with
    rpcs := s.rpcs.erase id }.resume id
  have hlive : s.live.Perm s'.live :=
    (((List.perm_cons_erase hin).append_left s.queue).trans List.perm_middle).append_right _
  have hq : id ∉ s.queue := St.live_nodup_rpcs hi.nodup hin
  have hnp : id ∉ s.pending := fun h' => (St.live_nodup_pending hi.nodup h').2 hin
  have hreq : (s'.reqs id).req = (s.reqs id).req := by simp [s']
  have hh : ∀ {x q}, Holds s' x q → Holds s x q := fun {x q} h' => by
    by_cases hx : x = id
    · subst hx; exact ⟨hreq ▸ h'.1, .inl (by simp [St.live, hin])⟩
    · have hlt : x < s.next :=
        h'.2.elim (fun hl => hi.live_lt x (hlive.mem_iff.mpr hl)) (·.1)
      exact (hf.holds_iff hx hlt).mp h'
  obtain ⟨held, uniq⟩ := hi.holders hh fun _ hq' =>
    (hf.parked_iff (by rintro rfl; exact hq'.2.2 hin) hq'.1).mpr hq'
  refine ⟨hlive.nodup_iff.mp hi.nodup, fun x hx => hi.live_lt x (hlive.mem_iff.mpr hx),
    fun x hx => ?_, fun x hx => ?_, held, uniq, fun x hx => ?_, hi.retired_once⟩
  · rcases List.mem_cons.mp hx with rfl | hx
    · simp [s']
    · rw [hf.reqs x (fun e => hq (e ▸ hx))]; exact hi.queue_running x hx
  · rw [hf.reqs x (fun e => hnp (e ▸ hx))]; exact hi.pending_running x hx
  · obtain ⟨hlt₁, hq₁, hr₁, hs₁⟩ := hi.retired_gone x hx
    have hx' : x ≠ id := fun e => hr₁ (e ▸ hin)
    exact ⟨hlt₁, (hf.mem_queue hx').not.mpr hq₁, (hf.mem_rpcs hx').not.mpr hr₁,
      (congrArg Req.suspended (hf.reqs x hx')).trans hs₁⟩

theorem Lifecycle.flush (hi : Lifecycle s) (h : s.step env .flush = some s') : Lifecycle s' := by
  cases hp : s.pending with
  | nil => simp [St.step, hp] at h
  | cons p rest =>
  have hpl : p ∈ s.live := by simp [St.live, hp]
  have hps : (s.reqs p).suspended = false := hi.pending_running p (by simp [hp])
  have hsub : (s.queue ++ s.rpcs ++ rest).Sublist s.live := by
    rw [St.live, hp]; exact (List.sublist_cons_self p rest).append_left _
  have hpn : p ∉ s.queue ++ s.rpcs ++ rest := by
    have := hi.nodup
    rw [St.live, hp, List.nodup_middle, List.nodup_cons] at this
    exact this.1
  simp only [St.step, hp] at h
  cases hr : (s.reqs p).req with
  | none =>
    rw [hr] at h
    cases h
    have hh : ∀ {x q}, Holds { s with pending := rest } x q → Holds s x q := fun h' =>
      ⟨h'.1, h'.2.imp_left (hsub.subset ·)⟩
    obtain ⟨held, uniq⟩ := hi.holders hh fun _ hq => hq
    exact ⟨hi.nodup.sublist hsub, fun x hx => hi.live_lt x (hsub.subset hx), hi.queue_running,
      fun x hx => hi.pending_running x (by rw [hp]; exact List.mem_cons_of_mem _ hx), held, uniq,
      hi.retired_gone,
      hi.retired_once⟩
  | some q =>
    rw [hr] at h
    cases h
    have hpq : Parked s q := hi.held_parked ⟨hr, .inl hpl⟩
    have hnq : ∀ {x}, (s.reqs x).suspended = false → x ≠ q := by
      rintro x hx rfl; exact absurd (hx.symm.trans hpq.2.1) Bool.false_ne_true
    have hqn : q ∉ s.queue ++ s.rpcs ++ rest := by
      simp only [List.mem_append, not_or]
      exact ⟨⟨fun h' => hnq (hi.queue_running q h') rfl, hpq.2.2⟩,
        fun h' => hnq (hi.pending_running q (by rw [hp]; exact List.mem_cons_of_mem _ h')) rfl⟩
    set s' := { s with pending := rest }.resume q
    have hreqs : ∀ {x}, x ≠ q → s'.reqs x = s.reqs x := fun hx => by simp [s', hx]
    have hparked : ∀ {x}, x ≠ q → (Parked s' x ↔ Parked s x) := fun hx => by
      simp only [Parked, hreqs hx]; rfl
    have hh : ∀ {x r}, Holds s' x r → Holds s x r ∧ x ≠ p := fun {x r} h' => by
      have hreq : (s.reqs x).req = some r := by
        by_cases hx : x = q
        · subst hx; simpa [s'] using h'.1
        · simpa [hreqs hx] using h'.1
      have hxp : x ≠ p := by
        rintro rfl
        rcases h'.2 with hl | hl
        · rcases List.mem_cons.mp hl with e | hl
          · exact hnq hps e
          · exact hpn hl
        · exact absurd ((hparked (hnq hps)).mp hl).2.1 (by simp [hps])
      refine ⟨⟨hreq, ?_⟩, hxp⟩
      rcases h'.2 with hl | hl
      · rcases List.mem_cons.mp hl with rfl | hl
        · exact .inr hpq
        · exact .inl (hsub.subset hl)
      · by_cases hx : x = q
        · subst hx; simp [s', Parked] at hl
        · exact .inr ((hparked hx).mp hl)
    obtain ⟨held, uniq⟩ := hi.holders (fun h' => (hh h').1) fun {x r} h' hr' => by
      have hrq : r ≠ q := by
        rintro rfl
        exact (hh h').2 (hi.holder_unique (hh h').1 ⟨hr, .inl hpl⟩)
      exact (hparked hrq).mpr hr'
    refine ⟨List.nodup_cons.mpr ⟨hqn, hi.nodup.sublist hsub⟩, fun x hx => ?_, fun x hx => ?_,
      fun x hx => ?_, held, uniq, fun x hx => ?_, hi.retired_once⟩
    · rcases List.mem_cons.mp hx with rfl | hx
      · exact hpq.1
      · exact hi.live_lt x (hsub.subset hx)
    · rcases List.mem_cons.mp hx with rfl | hx
      · simp [s']
      · rw [hreqs (hnq (hi.queue_running x hx))]; exact hi.queue_running x hx
    · have hx' : x ∈ s.pending := by rw [hp]; exact List.mem_cons_of_mem _ hx
      rw [hreqs (hnq (hi.pending_running x hx'))]; exact hi.pending_running x hx'
    · obtain ⟨hlt₁, hq₁, hr₁, hs₁⟩ := hi.retired_gone x hx
      refine ⟨hlt₁, ?_, hr₁, by rw [hreqs (hnq hs₁)]; exact hs₁⟩
      rintro (_ | ⟨_, hx'⟩)
      · exact hnq hs₁ rfl
      · exact hq₁ hx'

theorem Lifecycle.process (hi : Lifecycle s) (h : processRequest env s = some s') :
    Lifecycle s' := by
  obtain ⟨id, rest, hq⟩ : ∃ id rest, s.queue = id :: rest := by
    cases hq : s.queue with
    | nil => simp [processRequest, hq] at h
    | cons id rest => exact ⟨id, rest, rfl⟩
  have hp := hi.processed hq h
  have hf := hp.frame
  have hlive := Lifecycle.live_eq hq
  have hid : id < s.next := hi.live_lt id (by simp [hlive])
  have hnd := hi.nodup
  rw [hlive, List.nodup_cons] at hnd
  have hT : ∀ x ∈ rest ++ s.rpcs ++ s.pending, x < s.next := fun x hx =>
    hi.live_lt x (by rw [hlive]; exact List.mem_cons_of_mem _ hx)
  have hown : ∀ {x}, ¬ Own s id x ↔ x ≠ id ∧ x < s.next := by
    intro x; simp only [Own, not_or, not_le]
  have hidq : id ∈ s.queue := by simp [hq]
  have hnid : ∀ {x}, ¬ Holds s x id := hi.not_held_of_queue hidq
  obtain ⟨L, hperm, hL⟩ := hp.live
  have hnd' : s'.live.Nodup := by
    refine hperm.nodup_iff.mpr ?_
    rcases hL with hL | ⟨hL, -⟩
    · exact (List.nodup_cons.mpr hnd).sublist (hL.append (.refl _))
    · exact (List.nodup_cons.mpr ⟨fun h' => Nat.lt_irrefl _ (hT _ h'), hnd.2⟩).sublist
        (hL.append (.refl _))
  have hlt' : ∀ x ∈ s'.live, x < s'.next := fun x hx => by
    rcases List.mem_append.mp (hperm.mem_iff.mp hx) with hx | hx
    · rcases hL with hL | ⟨hL, hn⟩
      · obtain rfl := List.mem_singleton.mp (hL.subset hx)
        exact lt_of_lt_of_le hid hf.next_le
      · obtain rfl := List.mem_singleton.mp (hL.subset hx)
        omega
    · exact lt_of_lt_of_le (hT x hx) hf.next_le
  have hholds : ∀ {x q}, Holds s' x q → Holds s x q ∨ (x = s.next ∧ q = id ∧ Parked s' id) :=
    fun {x q} h' => by
      by_cases hx : Own s id x
      · rcases hx with rfl | hx
        · exact .inl ⟨(hf.req_old x (.inl hid)).symm.trans h'.1, .inl (by simp [hlive])⟩
        · have hlt : x < s'.next := h'.2.elim (hlt' x) (·.1)
          obtain rfl : x = s.next := by have := hp.next_le; omega
          obtain ⟨hreq, hpk⟩ := hp.child hlt
          exact .inr ⟨rfl, Option.some.inj (h'.1.symm.trans hreq), hpk⟩
      · exact .inl ((hf.holds_iff hx (hown.mp hx).2).mp h')
  have hpark : ∀ {x q}, Holds s x q → Parked s' q := fun {x q} h' => by
    have hq' := hi.held_parked h'
    have hqi : q ≠ id := by rintro rfl; exact hnid h'
    exact (hf.parked_iff (hown.mpr ⟨hqi, hq'.1⟩) hq'.1).mpr hq'
  refine ⟨hnd', hlt', fun x hx => ?_, fun x hx => ?_, fun h' => ?_, fun hx hy => ?_,
    fun x hx => ?_, fun x => ?_⟩
  · by_cases ho : Own s id x
    · exact hp.queue_own x hx ho
    · rw [hf.reqs x ho]; exact hi.queue_running x ((hf.mem_queue ho).mp hx)
  · by_cases ho : Own s id x
    · exact (hp.pending_own x hx ho).2
    · rw [hf.reqs x ho]; exact hi.pending_running x ((hf.mem_pending ho).mp hx)
  · rcases hholds h' with h' | ⟨-, rfl, hpk⟩
    · exact hpark h'
    · exact hpk
  · rcases hholds hx with hx | ⟨rfl, rfl, -⟩ <;> rcases hholds hy with hy | ⟨rfl, hq, -⟩
    · exact hi.holder_unique hx hy
    · exact absurd (hq ▸ hx) hnid
    · exact absurd hy hnid
    · rfl
  · rcases hp.retired_mem x hx with hx | hx
    · obtain ⟨hlt₁, hq₁, hr₁, hs₁⟩ := hi.retired_gone x hx
      have ho : ¬ Own s id x := hown.mpr ⟨by rintro rfl; exact hq₁ hidq, hlt₁⟩
      exact ⟨lt_of_lt_of_le hlt₁ hf.next_le, (hf.mem_queue ho).not.mpr hq₁,
        (hf.mem_rpcs ho).not.mpr hr₁, by rw [hf.reqs x ho]; exact hs₁⟩
    · obtain ⟨hq₁, hr₁⟩ := St.live_nodup_pending hnd' hx
      refine ⟨hlt' x (List.mem_append_right _ hx), hq₁, hr₁, ?_⟩
      by_cases ho : Own s id x
      · exact (hp.pending_own x hx ho).2
      · rw [hf.reqs x ho]; exact hi.pending_running x ((hf.mem_pending ho).mp hx)
  · have h₁ := hp.retired_count x
    split_ifs at h₁ with hx
    · subst hx
      have : s.events.count (.retired x) = 0 :=
        List.count_eq_zero.mpr fun h' => (hi.retired_gone x h').2.1 hidq
      omega
    · exact h₁.trans (hi.retired_once x)

theorem Lifecycle.step {act : Act} (hi : Lifecycle s) (h : s.step env act = some s') :
    Lifecycle s' := by
  cases act with
  | submit op fid offset => exact hi.submit h
  | process => exact hi.process h
  | reply id status => exact hi.reply h
  | flush => exact hi.flush h

theorem Reachable.lifecycle (hr : Reachable env s) : Lifecycle s := by
  induction hr with
  | init => exact lifecycle_init
  | step _ _ h ih => exact ih.step h

end Step

/-- No request is queued, waited on or pending twice, and none is retired twice. -/
theorem reachable_noDuplicate {env : Env} {s : St} (hr : Reachable env s) :
    s.live.Nodup ∧
      (∀ x ∈ s.live, ∀ q, (s.reqs x).req = some q →
        q ∉ s.live ∧ ∀ y ∈ s.live, (s.reqs y).req = some q → y = x) ∧
      ∀ x, s.events.count (.retired x) ≤ 1 := by
  have hi := hr.lifecycle
  refine ⟨hi.nodup, fun x hx q hq => ⟨fun hql => ?_, fun y hy hyq =>
    hi.holder_unique ⟨hyq, .inl hy⟩ ⟨hq, .inl hx⟩⟩, hi.retired_once⟩
  have ⟨_, hs, hnr⟩ := hi.held_parked ⟨hq, .inl hx⟩
  rcases List.mem_append.mp hql with hql | hql
  · rcases List.mem_append.mp hql with hql | hql
    · simp [hi.queue_running q hql] at hs
    · exact hnr hql
  · simp [hi.pending_running q hql] at hs

theorem reachable_noDuplicate_failedAllocate :
    let s := (St.init.run serverDown
      [.submit .allocate 5 0, .process, .reply 0 (-5), .process, .process]).getD St.init
    s.live = [1] ∧ (s.reqs 1).req = some 0 ∧ s.live.Nodup ∧
      (∀ x ∈ s.live, ∀ q, (s.reqs x).req = some q →
        q ∉ s.live ∧ ∀ y ∈ s.live, (s.reqs y).req = some q → y = x) ∧
      ∀ x, s.events.count (.retired x) ≤ 1 := by
  intro s
  have hr : St.init.run serverDown
      [.submit .allocate 5 0, .process, .reply 0 (-5), .process, .process] = some s := rfl
  exact ⟨rfl, rfl, reachable_noDuplicate (Reachable.init.run hr)⟩

end KosmosFs.Request
