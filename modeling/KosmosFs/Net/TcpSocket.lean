import Mathlib.Order.Basic
import Mathlib.Data.Int.Order.Basic

/-! # Synchronous send, receive, discard and peek

`TcpSocket::DoSynchRecv`, `DoSynchSend`, `DoSynchDiscard` and `DoSynchPeek` over a stream of
outcomes, one per iteration of their loops; a loop that never returns is `none` for every fuel.
-/

namespace KosmosFs.TcpSocket

/-- `ETIMEDOUT` on Linux. -/
def ETIMEDOUT : Int := 110

/-- What `recv` does: hand over some of the `n` bytes the peer has sent (`n = 0` is the end
of the stream), fail with `EAGAIN`, or fail with another error. -/
inductive Recv
  | bytes (n : Nat)
  | again
  | error
  deriving DecidableEq, Repr

/-- One iteration of the receive loop: `select` returns `0` with the timeout spent, or it
returns and `recv` does as given. -/
inductive Outcome
  | timeout
  | recv (r : Recv)
  deriving DecidableEq, Repr

/-- The value `recv(buf, len)` returns. -/
def Recv.result : Recv → Int → Int
  | .bytes n, len => min n len
  | .again, _ | .error, _ => -1

/-- What an iteration of the receive loop does: return, or go on with a byte count. -/
inductive Iter
  | ret (r : Int)
  | next (numRecd : Int)
  deriving DecidableEq, Repr

/-- The body of the `while (numRecd < bufLen)` loop of `DoSynchRecv`, at outcome `o`. -/
def recvBody (o : Outcome) (bufLen numRecd : Int) : Iter :=
  match o with
  | .timeout => .ret (if numRecd > 0 then numRecd else - ETIMEDOUT)
  | .recv r =>
    let res := r.result (bufLen - numRecd)
    if res = 0 then .ret 0
    else if res < 0 ∧ r = .again then .next numRecd
    else if res < 0 then .ret numRecd
    else .next (numRecd + res)

/-- The `while (numRecd < bufLen)` loop of `DoSynchRecv`, from outcome `i` with `numRecd`
bytes received; the result and the index of the next outcome. -/
def recvLoop (env : Nat → Outcome) (bufLen : Int) : Nat → Nat → Int → Option (Int × Nat)
  | 0, _, _ => none
  | fuel + 1, i, numRecd =>
    if numRecd < bufLen then
      match recvBody (env i) bufLen numRecd with
      | .ret r => some (r, i + 1)
      | .next n => recvLoop env bufLen fuel (i + 1) n
    else some (numRecd, i)

/-- `TcpSocket::DoSynchRecv(buf, bufLen, timeout)`. -/
def doSynchRecv (env : Nat → Outcome) (bufLen : Int) (fuel i : Nat) : Option (Int × Nat) :=
  recvLoop env bufLen fuel i 0

/-- `TcpSocket::DoSynchSend(buf, bufLen)`. A `send` does what a `recv` does (takes some of the
`n` bytes the socket has room for, returns `0`, fails with `EAGAIN` or fails otherwise), and
the loop is that of `DoSynchRecv` with `select` always ready. -/
def doSynchSend (env : Nat → Recv) (bufLen : Int) (fuel i : Nat) : Option (Int × Nat) :=
  recvLoop (fun j => .recv (env j)) bufLen fuel i 0

/-- The `while (numRecd < nbytes)` loop of `DoSynchDiscard`. Each iteration's call of
`DoSynchRecv` gets the fuel the loop has left. -/
def discardLoop (env : Nat → Outcome) (nbytes : Int) : Nat → Nat → Int → Option (Int × Nat)
  | 0, _, _ => none
  | fuel + 1, i, numRecd =>
    if numRecd < nbytes then
      match doSynchRecv env (min (nbytes - numRecd) 4096) fuel i with
      | none => none
      | some (res, j) =>
        if res = - ETIMEDOUT then some (numRecd, j)
        else if numRecd < 0 then some (numRecd, j)
        else discardLoop env nbytes fuel j (numRecd + res)
    else some (numRecd, i)

/-- `TcpSocket::DoSynchDiscard(nbytes, timeout)`. -/
def doSynchDiscard (env : Nat → Outcome) (nbytes : Int) (fuel i : Nat) : Option (Int × Nat) :=
  discardLoop env nbytes fuel i 0

/-- The `while (1)` loop of `DoSynchPeek`, from outcome `i` with `numRecd` bytes seen. -/
def peekLoop (env : Nat → Outcome) (bufLen : Int) : Nat → Nat → Int → Option (Int × Nat)
  | 0, _, _ => none
  | fuel + 1, i, numRecd =>
    match env i with
    | .timeout => some (- ETIMEDOUT, i + 1)
    | .recv r =>
      let res := r.result (bufLen - numRecd)
      if res = 0 then some (0, i + 1)
      else if res < 0 ∧ r = .again then peekLoop env bufLen fuel (i + 1) numRecd
      else if res < 0 then some (numRecd, i + 1)
      else if numRecd + res > 0 then some (numRecd + res, i + 1)
      else peekLoop env bufLen fuel (i + 1) (numRecd + res)

/-- `TcpSocket::DoSynchPeek(buf, bufLen, timeout)`. -/
def doSynchPeek (env : Nat → Outcome) (bufLen : Int) (fuel i : Nat) : Option (Int × Nat) :=
  peekLoop env bufLen fuel i 0

section Steps

variable {env : Nat → Outcome} {o : Outcome} {bufLen numRecd : Int} {fuel i : Nat}

theorem recvBody_ret {r : Int} (hn : numRecd < bufLen) (h : recvBody o bufLen numRecd = .ret r) :
    (o = .timeout ∧ (r = - ETIMEDOUT ∨ 0 < r ∧ r = numRecd)) ∨
      (o = .recv (.bytes 0) ∧ r = 0) ∨ (o = .recv .error ∧ r = numRecd) := by
  cases o with
  | timeout => cases h; split_ifs <;> simp_all
  | recv q =>
    simp only [recvBody] at h
    split_ifs at h <;> cases h
    · cases q <;> simp_all [Recv.result]
      omega
    · cases q <;> simp_all [Recv.result]
      omega

theorem recvBody_next {n : Int} (hn : numRecd < bufLen) (h : recvBody o bufLen numRecd = .next n) :
    (o = .recv .again ∧ n = numRecd) ∨ (numRecd < n ∧ n ≤ bufLen) := by
  cases o with
  | timeout => cases h
  | recv q =>
    simp only [recvBody] at h
    split_ifs at h <;> cases h
    · rename_i h₁
      exact .inl ⟨by rw [h₁.2], rfl⟩
    · rename_i h₀ _ h₂
      cases q <;> simp_all [Recv.result]
      omega

theorem recvLoop_done (h : ¬ numRecd < bufLen) :
    recvLoop env bufLen (fuel + 1) i numRecd = some (numRecd, i) := by
  simp [recvLoop, h]

theorem recvLoop_ret {r : Int} (hn : numRecd < bufLen)
    (h : recvBody (env i) bufLen numRecd = .ret r) :
    recvLoop env bufLen (fuel + 1) i numRecd = some (r, i + 1) := by
  simp [recvLoop, hn, h]

theorem recvLoop_next {n : Int} (hn : numRecd < bufLen)
    (h : recvBody (env i) bufLen numRecd = .next n) :
    recvLoop env bufLen (fuel + 1) i numRecd = recvLoop env bufLen fuel (i + 1) n := by
  simp [recvLoop, hn, h]

theorem recvBody_eof (hn : numRecd < bufLen) :
    recvBody (.recv (.bytes 0)) bufLen numRecd = .ret 0 := by
  simp [recvBody, Recv.result, min_eq_left (show (0 : Int) ≤ bufLen - numRecd by omega)]

theorem recvBody_bytes (n : Nat) (hn : numRecd < bufLen) :
    recvBody (.recv (.bytes (n + 1))) bufLen numRecd =
      .next (numRecd + min ((n + 1 : Nat) : Int) (bufLen - numRecd)) := by
  have hp : 0 < min ((n + 1 : Nat) : Int) (bufLen - numRecd) := lt_min (by omega) (by omega)
  simp only [recvBody, Recv.result]
  rw [if_neg hp.ne', if_neg (by omega), if_neg (by omega)]

theorem recvLoop_mono {r : Int × Nat} (h : recvLoop env bufLen fuel i numRecd = some r) (k : Nat) :
    recvLoop env bufLen (fuel + k) i numRecd = some r := by
  induction fuel generalizing i numRecd with
  | zero => simp [recvLoop] at h
  | succ fuel ih =>
    rw [Nat.add_right_comm]
    by_cases hn : numRecd < bufLen
    · cases hb : recvBody (env i) bufLen numRecd with
      | ret v => rwa [recvLoop_ret hn hb] at h ⊢
      | next n => rw [recvLoop_next hn hb] at h ⊢; exact ih h
    · rwa [recvLoop_done hn] at h ⊢

theorem recvLoop_result {r : Int} {j : Nat} (h₀ : 0 ≤ numRecd) (h₁ : numRecd ≤ bufLen)
    (h : recvLoop env bufLen fuel i numRecd = some (r, j)) :
    r = - ETIMEDOUT ∨ 0 ≤ r ∧ r ≤ bufLen := by
  induction fuel generalizing i numRecd with
  | zero => simp [recvLoop] at h
  | succ fuel ih =>
    by_cases hn : numRecd < bufLen
    · cases hb : recvBody (env i) bufLen numRecd with
      | ret v =>
        rw [recvLoop_ret hn hb] at h
        cases h
        rcases recvBody_ret hn hb with ⟨-, h' | h'⟩ | ⟨-, h'⟩ | ⟨-, h'⟩ <;> omega
      | next n =>
        rw [recvLoop_next hn hb] at h
        rcases recvBody_next hn hb with ⟨-, rfl⟩ | h' <;> exact ih (by omega) (by omega) h
    · rw [recvLoop_done hn] at h
      cases h
      omega

theorem recvLoop_pos {r : Int} {j : Nat}
    (hok : ∀ k, env k ≠ .recv (.bytes 0) ∧ env k ≠ .recv .error)
    (h₀ : 0 ≤ numRecd) (hb : 0 < bufLen) (h : recvLoop env bufLen fuel i numRecd = some (r, j)) :
    r = - ETIMEDOUT ∨ 0 < r := by
  induction fuel generalizing i numRecd with
  | zero => simp [recvLoop] at h
  | succ fuel ih =>
    by_cases hn : numRecd < bufLen
    · cases hb : recvBody (env i) bufLen numRecd with
      | ret v =>
        rw [recvLoop_ret hn hb] at h
        cases h
        rcases recvBody_ret hn hb with ⟨-, h' | h'⟩ | ⟨he, -⟩ | ⟨he, -⟩
        · exact .inl h'
        · exact .inr h'.1
        · exact absurd he (hok i).1
        · exact absurd he (hok i).2
      | next n =>
        rw [recvLoop_next hn hb] at h
        rcases recvBody_next hn hb with ⟨-, rfl⟩ | h' <;> exact ih (by omega) h
    · rw [recvLoop_done hn] at h
      cases h
      omega

theorem recvLoop_nonneg {r : Int} {j : Nat} (hno : ∀ k, env k ≠ .timeout) (h₀ : 0 ≤ numRecd)
    (h : recvLoop env bufLen fuel i numRecd = some (r, j)) : 0 ≤ r := by
  induction fuel generalizing i numRecd with
  | zero => simp [recvLoop] at h
  | succ fuel ih =>
    by_cases hn : numRecd < bufLen
    · cases hb : recvBody (env i) bufLen numRecd with
      | ret v =>
        rw [recvLoop_ret hn hb] at h
        cases h
        rcases recvBody_ret hn hb with ⟨he, -⟩ | ⟨-, rfl⟩ | ⟨-, rfl⟩
        · exact absurd he (hno i)
        · exact le_rfl
        · exact h₀
      | next n =>
        rw [recvLoop_next hn hb] at h
        rcases recvBody_next hn hb with ⟨-, rfl⟩ | h' <;> exact ih (by omega) h
    · rw [recvLoop_done hn] at h
      cases h
      exact h₀

theorem recvLoop_full {r : Int} {j : Nat}
    (hok : ∀ k, env k ≠ .timeout ∧ env k ≠ .recv (.bytes 0) ∧ env k ≠ .recv .error)
    (h₁ : numRecd ≤ bufLen) (h : recvLoop env bufLen fuel i numRecd = some (r, j)) :
    r = bufLen := by
  induction fuel generalizing i numRecd with
  | zero => simp [recvLoop] at h
  | succ fuel ih =>
    by_cases hn : numRecd < bufLen
    · cases hb : recvBody (env i) bufLen numRecd with
      | ret v =>
        rcases recvBody_ret hn hb with ⟨he, -⟩ | ⟨he, -⟩ | ⟨he, -⟩
        · exact absurd he (hok i).1
        · exact absurd he (hok i).2.1
        · exact absurd he (hok i).2.2
      | next n =>
        rw [recvLoop_next hn hb] at h
        rcases recvBody_next hn hb with ⟨-, rfl⟩ | h' <;> exact ih (by omega) h
    · rw [recvLoop_done hn] at h
      cases h
      omega

end Steps

theorem recvLoop_returns {env : Nat → Outcome} {bufLen : Int}
    (hlive : ∀ j, ∃ k, j ≤ k ∧ env k ≠ .recv .again) (i k : Nat) (numRecd : Int)
    (hik : i ≤ k) (hk : env k ≠ .recv .again) :
    ∃ fuel r, recvLoop env bufLen fuel i numRecd = some r := by
  by_cases hn : numRecd < bufLen
  · cases hb : recvBody (env i) bufLen numRecd with
    | ret v => exact ⟨1, _, recvLoop_ret hn hb⟩
    | next n =>
      rcases recvBody_next hn hb with ⟨ha, rfl⟩ | ⟨h₁, h₂⟩
      · have hi : i ≠ k := fun h => hk (h ▸ ha)
        obtain ⟨fuel, r, h⟩ := recvLoop_returns hlive (i + 1) k n (by omega) hk
        exact ⟨fuel + 1, r, (recvLoop_next hn hb).trans h⟩
      · obtain ⟨k', hk'⟩ := hlive (i + 1)
        obtain ⟨fuel, r, h⟩ := recvLoop_returns hlive (i + 1) k' n hk'.1 hk'.2
        exact ⟨fuel + 1, r, (recvLoop_next hn hb).trans h⟩
  · exact ⟨1, _, recvLoop_done hn⟩
termination_by ((bufLen - numRecd).toNat, k - i)
decreasing_by all_goals (rw [Prod.lex_def]; omega)

/-- A peer that always has a full buffer of bytes ready. -/
def steady : Nat → Outcome := fun _ => .recv (.bytes 4096)

theorem steady_live : ∀ j, ∃ k, j ≤ k ∧ steady k ≠ .recv .again :=
  fun j => ⟨j, Nat.le_refl j, by simp [steady]⟩

theorem steady_ok : ∀ k, steady k ≠ .recv (.bytes 0) ∧ steady k ≠ .recv .error :=
  fun _ => by simp [steady]

/-- `DoSynchRecv` returns unless `recv` keeps failing with `EAGAIN`. -/
theorem doSynchRecv_returns {env : Nat → Outcome} {bufLen : Int}
    (hlive : ∀ j, ∃ k, j ≤ k ∧ env k ≠ .recv .again) (hb : 0 ≤ bufLen) (i : Nat) :
    ∃ fuel r j, doSynchRecv env bufLen fuel i = some (r, j) ∧
      (r = - ETIMEDOUT ∨ 0 ≤ r ∧ r ≤ bufLen) := by
  obtain ⟨k, hik, hk⟩ := hlive i
  obtain ⟨fuel, ⟨r, j⟩, h⟩ := recvLoop_returns hlive i k 0 hik hk
  exact ⟨fuel, r, j, h, recvLoop_result le_rfl hb h⟩

theorem doSynchRecv_returns_steady :
    (∀ j, ∃ k, j ≤ k ∧ steady k ≠ .recv .again) ∧ (0 : Int) ≤ 100 ∧
      ∃ fuel r j, doSynchRecv steady 100 fuel 0 = some (r, j) ∧
        (r = - ETIMEDOUT ∨ 0 ≤ r ∧ r ≤ 100) :=
  ⟨steady_live, by decide, doSynchRecv_returns steady_live (by decide) 0⟩

/-- `DoSynchSend` returns unless `send` keeps failing with `EAGAIN`. -/
theorem doSynchSend_returns {env : Nat → Recv} {bufLen : Int}
    (hlive : ∀ j, ∃ k, j ≤ k ∧ env k ≠ .again) (hb : 0 ≤ bufLen) (i : Nat) :
    ∃ fuel r j, doSynchSend env bufLen fuel i = some (r, j) ∧ 0 ≤ r ∧ r ≤ bufLen ∧
      ((∀ k, env k ≠ .bytes 0 ∧ env k ≠ .error) → r = bufLen) := by
  have hno : ∀ k, Outcome.recv (env k) ≠ .timeout := fun _ => Outcome.noConfusion
  obtain ⟨k, hik, hk⟩ := hlive i
  obtain ⟨fuel, ⟨r, j⟩, h⟩ := @recvLoop_returns (fun j => .recv (env j)) bufLen
    (fun j => (hlive j).imp fun _ hk => ⟨hk.1, by simpa using hk.2⟩) i k 0 hik (by simpa using hk)
  have h₀ := recvLoop_nonneg hno le_rfl h
  have hr := recvLoop_result le_rfl hb h
  unfold ETIMEDOUT at hr
  refine ⟨fuel, r, j, h, h₀, by omega, fun hok => recvLoop_full (fun k => ⟨hno k, ?_, ?_⟩) hb h⟩
  · simpa using (hok k).1
  · simpa using (hok k).2

/-- A socket that always has room for a full buffer. -/
def accepting : Nat → Recv := fun _ => .bytes 4096

theorem doSynchSend_returns_accepting :
    (∀ j, ∃ k, j ≤ k ∧ accepting k ≠ .again) ∧ (0 : Int) ≤ 100 ∧
      ∃ fuel r j, doSynchSend accepting 100 fuel 0 = some (r, j) ∧ 0 ≤ r ∧ r ≤ 100 ∧
        ((∀ k, accepting k ≠ .bytes 0 ∧ accepting k ≠ .error) → r = 100) :=
  have hlive : ∀ j, ∃ k, j ≤ k ∧ accepting k ≠ .again :=
    fun j => ⟨j, Nat.le_refl j, by simp [accepting]⟩
  ⟨hlive, by decide, doSynchSend_returns hlive (by decide) 0⟩

section Discard

variable {env : Nat → Outcome} {nbytes numRecd : Int} {fuel i : Nat}

theorem discardLoop_done (h : ¬ numRecd < nbytes) :
    discardLoop env nbytes (fuel + 1) i numRecd = some (numRecd, i) := by
  simp [discardLoop, h]

theorem discardLoop_call {res : Int} {j : Nat} (hn : numRecd < nbytes)
    (h : doSynchRecv env (min (nbytes - numRecd) 4096) fuel i = some (res, j)) :
    discardLoop env nbytes (fuel + 1) i numRecd =
      if res = - ETIMEDOUT then some (numRecd, j)
      else if numRecd < 0 then some (numRecd, j)
      else discardLoop env nbytes fuel j (numRecd + res) := by
  rw [discardLoop, if_pos hn, h]

theorem discardLoop_mono {r : Int × Nat} (h : discardLoop env nbytes fuel i numRecd = some r)
    (k : Nat) : discardLoop env nbytes (fuel + k) i numRecd = some r := by
  induction fuel generalizing i numRecd with
  | zero => simp [discardLoop] at h
  | succ fuel ih =>
    rw [Nat.add_right_comm]
    by_cases hn : numRecd < nbytes
    · cases hc : doSynchRecv env (min (nbytes - numRecd) 4096) fuel i with
      | none => simp [discardLoop, hn, hc] at h
      | some v =>
        rw [discardLoop_call hn hc] at h
        rw [discardLoop_call hn (recvLoop_mono hc k)]
        split_ifs at h ⊢ <;> first | exact h | exact ih h
    · rwa [discardLoop_done hn] at h ⊢

theorem discardLoop_result {r : Int} {j : Nat} (h₀ : 0 ≤ numRecd) (h₁ : numRecd ≤ max nbytes 0)
    (h : discardLoop env nbytes fuel i numRecd = some (r, j)) : 0 ≤ r ∧ r ≤ max nbytes 0 := by
  induction fuel generalizing i numRecd with
  | zero => simp [discardLoop] at h
  | succ fuel ih =>
    by_cases hn : numRecd < nbytes
    · cases hc : doSynchRecv env (min (nbytes - numRecd) 4096) fuel i with
      | none => simp [discardLoop, hn, hc] at h
      | some v =>
        obtain ⟨res, j'⟩ := v
        have hres := recvLoop_result le_rfl (by omega) hc
        rw [discardLoop_call hn hc] at h
        split_ifs at h with ht hneg
        · cases h; omega
        · omega
        · exact ih (by omega) (by omega) h
    · rw [discardLoop_done hn] at h
      cases h
      omega

theorem discardLoop_returns (hlive : ∀ j, ∃ k, j ≤ k ∧ env k ≠ .recv .again)
    (hok : ∀ k, env k ≠ .recv (.bytes 0) ∧ env k ≠ .recv .error) (i : Nat) (numRecd : Int) :
    ∃ fuel r, discardLoop env nbytes fuel i numRecd = some r := by
  by_cases hn : numRecd < nbytes
  · obtain ⟨k, hik, hk⟩ := hlive i
    obtain ⟨f, ⟨res, j⟩, hc⟩ : ∃ fuel r,
        doSynchRecv env (min (nbytes - numRecd) 4096) fuel i = some r :=
      recvLoop_returns hlive i k 0 hik hk
    have hpos := recvLoop_pos hok le_rfl (by omega) hc
    by_cases hstop : res = - ETIMEDOUT ∨ numRecd < 0
    · refine ⟨f + 1, (numRecd, j), ?_⟩
      rw [discardLoop_call hn hc]
      rcases hstop with h | h
      · rw [if_pos h]
      · by_cases ht : res = - ETIMEDOUT
        · rw [if_pos ht]
        · rw [if_neg ht, if_pos h]
    · obtain ⟨g, r, hg⟩ := discardLoop_returns hlive hok j (numRecd + res)
      refine ⟨f + g + 1, r, ?_⟩
      rw [discardLoop_call hn (recvLoop_mono hc g), if_neg fun h => hstop (.inl h),
        if_neg fun h => hstop (.inr h), Nat.add_comm]
      exact discardLoop_mono hg f
  · exact ⟨1, _, discardLoop_done hn⟩
termination_by (nbytes - numRecd).toNat
decreasing_by omega

end Discard

/-- A `DoSynchDiscard` that returns reports between `0` and `nbytes` bytes. -/
theorem doSynchDiscard_result {env : Nat → Outcome} {nbytes r : Int} {fuel i j : Nat}
    (h : doSynchDiscard env nbytes fuel i = some (r, j)) : 0 ≤ r ∧ r ≤ max nbytes 0 :=
  discardLoop_result le_rfl (le_max_right _ _) h

theorem doSynchDiscard_result_steady :
    doSynchDiscard steady 10 3 0 = some (10, 1) ∧ (0 : Int) ≤ 10 ∧ (10 : Int) ≤ max 10 0 :=
  ⟨by decide, doSynchDiscard_result (show doSynchDiscard steady 10 3 0 = some (10, 1) by decide)⟩

/-- `DoSynchDiscard` returns against a peer that neither ends the stream nor fails. -/
theorem doSynchDiscard_returns {env : Nat → Outcome} {nbytes : Int}
    (hlive : ∀ j, ∃ k, j ≤ k ∧ env k ≠ .recv .again)
    (hok : ∀ k, env k ≠ .recv (.bytes 0) ∧ env k ≠ .recv .error) (i : Nat) :
    (∃ fuel r, doSynchDiscard env nbytes fuel i = some r) ∧
      ∀ (len : Int) (fuel i' : Nat) (res : Int) (j : Nat), 0 < len →
        doSynchRecv env len fuel i' = some (res, j) → res = - ETIMEDOUT ∨ 0 < res :=
  ⟨discardLoop_returns hlive hok i 0, fun _ _ _ _ _ hl h => recvLoop_pos hok le_rfl hl h⟩

theorem doSynchDiscard_returns_steady :
    (∀ j, ∃ k, j ≤ k ∧ steady k ≠ .recv .again) ∧
      (∀ k, steady k ≠ .recv (.bytes 0) ∧ steady k ≠ .recv .error) ∧
      (∃ fuel r, doSynchDiscard steady 10000 fuel 0 = some r) ∧
      ∀ (len : Int) (fuel i' : Nat) (res : Int) (j : Nat), 0 < len →
        doSynchRecv steady len fuel i' = some (res, j) → res = - ETIMEDOUT ∨ 0 < res :=
  ⟨steady_live, steady_ok, doSynchDiscard_returns steady_live steady_ok 0⟩

/-- A peer that sends five bytes and then ends the stream. -/
def fiveThenEof : Nat → Outcome
  | 0 => .recv (.bytes 5)
  | _ => .recv (.bytes 0)

theorem discardLoop_fiveThenEof (fuel i : Nat) :
    discardLoop fiveThenEof 10 fuel (i + 1) 0 = none := by
  induction fuel generalizing i with
  | zero => rfl
  | succ fuel ih =>
    cases fuel with
    | zero => rfl
    | succ fuel =>
      have h : doSynchRecv fiveThenEof (min (10 - 0) 4096) (fuel + 1) (i + 1) = some (0, i + 2) :=
        recvLoop_ret (by decide) (recvBody_eof (by decide))
      rw [discardLoop, if_pos (by decide), h]
      simpa [ETIMEDOUT] using ih (i + 1)

/-- `DoSynchDiscard` never returns against a peer that sends five bytes and closes. -/
theorem doSynchDiscard_fiveThenEof :
    (∀ i, fiveThenEof i ≠ .recv .again) ∧ doSynchRecv fiveThenEof 10 2 0 = some (0, 2) ∧
      ∀ fuel, doSynchDiscard fiveThenEof 10 fuel 0 = none := by
  refine ⟨fun i => by cases i <;> simp [fiveThenEof], by decide, fun fuel => ?_⟩
  match fuel with
  | 0 | 1 | 2 => rfl
  | fuel + 3 =>
    have h : doSynchRecv fiveThenEof (min (10 - 0) 4096) (fuel + 2) 0 = some (0, 2) := by
      rw [doSynchRecv, recvLoop_next (by decide) (recvBody_bytes 4 (by decide))]
      exact recvLoop_ret (by decide) (recvBody_eof (by decide))
    rw [doSynchDiscard, discardLoop, if_pos (by decide), h]
    simpa [ETIMEDOUT] using discardLoop_fiveThenEof (fuel + 2) 1

section Peek

variable {env : Nat → Outcome} {bufLen : Int} {fuel i : Nat}

theorem peekLoop_again (h : env i = .recv .again) :
    peekLoop env bufLen (fuel + 1) i 0 = peekLoop env bufLen fuel (i + 1) 0 := by
  simp [peekLoop, h, Recv.result]

/-- What `DoSynchPeek` returns at an outcome other than `EAGAIN`: `-ETIMEDOUT` at a timeout,
and otherwise what the peek returns, or `0` when it fails. -/
def peekResult : Outcome → Int → Int
  | .timeout, _ => - ETIMEDOUT
  | .recv r, bufLen => max (r.result bufLen) 0

theorem peekLoop_stop (h : env i ≠ .recv .again) :
    peekLoop env bufLen (fuel + 1) i 0 = some (peekResult (env i) bufLen, i + 1) := by
  rcases hi : env i with _ | (n | _ | _)
  · simp [peekLoop, hi, peekResult]
  · simp only [peekLoop, hi, peekResult, Recv.result, Int.sub_zero, Int.zero_add]
    split_ifs <;> simp_all <;> omega
  · exact absurd hi h
  · simp [peekLoop, hi, peekResult, Recv.result, max_def]

end Peek

/-- `DoSynchPeek` returns at the first outcome that is not `EAGAIN`. -/
theorem doSynchPeek_first {env : Nat → Outcome} {bufLen : Int} {i k : Nat} (hik : i ≤ k)
    (hagain : ∀ j, i ≤ j → j < k → env j = .recv .again) (hk : env k ≠ .recv .again) :
    doSynchPeek env bufLen (k - i + 1) i = some (peekResult (env k) bufLen, k + 1) := by
  obtain ⟨d, rfl⟩ : ∃ d, k = i + d := ⟨k - i, by omega⟩
  rw [Nat.add_sub_cancel_left]
  clear hik
  induction d generalizing i with
  | zero => exact peekLoop_stop hk
  | succ d ih =>
    have e : i + (d + 1) = i + 1 + d := by omega
    rw [e] at hk hagain ⊢
    rw [doSynchPeek, peekLoop_again (hagain i (Nat.le_refl i) (by omega))]
    exact ih (fun j hj hjk => hagain j (by omega) hjk) hk

/-- A peer whose first two peeks fail with `EAGAIN` and whose third shows seven bytes. -/
def slowPeer : Nat → Outcome
  | 0 | 1 => .recv .again
  | _ => .recv (.bytes 7)

theorem doSynchPeek_first_slowPeer :
    0 ≤ 2 ∧ (∀ j, 0 ≤ j → j < 2 → slowPeer j = .recv .again) ∧ slowPeer 2 ≠ .recv .again ∧
      doSynchPeek slowPeer 100 (2 - 0 + 1) 0 = some (peekResult (slowPeer 2) 100, 2 + 1) :=
  have hagain : ∀ j, 0 ≤ j → j < 2 → slowPeer j = .recv .again := fun j _ hj => by
    rcases j with _ | _ | j
    · rfl
    · rfl
    · omega
  ⟨by decide, hagain, by decide, doSynchPeek_first (by decide) hagain (by decide)⟩

/-- The peek at `slowPeer` returns the seven bytes of its third outcome. -/
example : doSynchPeek slowPeer 100 3 0 = some (7, 3) := by decide

end KosmosFs.TcpSocket
