import Mathlib.Data.List.Basic

/-! # Slow-node notifications

`TelemetryClient::getNotification` clears the caller's list after two minutes of silence, then
pulls every packet that has arrived; the socket is given call by call.
-/

namespace KosmosFs.Telemetry

/-- `EAGAIN` on Linux. -/
def EAGAIN : Int := 11

/-- The fields of `TelemetryClient` that `getNotification` reads and writes; `sockOk` is
`mSock >= 0`. -/
structure Client where
  sockOk : Bool
  lastNotification : Int
  deriving DecidableEq, Repr

/-- What one call sees: `time(0)`, whether `poll` reported input, and the packets `recvfrom`
returns before it fails. -/
structure Call where
  now : Int
  pollIn : Bool
  packets : List (List Nat)
  deriving DecidableEq, Repr

/-- The `while (1)` loop that pulls packets: each one replaces the list and records the time;
the loop ends at the first `recvfrom` that fails. -/
def pullLoop (now : Int) (gotPacket : Bool) (c : Client) (slowNodes : List Nat) :
    List (List Nat) → Int × Client × List Nat
  | [] => (if gotPacket then 0 else -EAGAIN, c, slowNodes)
  | p :: ps => pullLoop now true { c with lastNotification := now } p ps

/-- `TelemetryClient::getNotification(slowNodes)`: the value it returns, the client after it
and the caller's list after it. -/
def getNotification (c : Client) (slowNodes : List Nat) (k : Call) : Int × Client × List Nat :=
  if !c.sockOk then (0, c, slowNodes)
  else
    let slowNodes := if k.now - c.lastNotification > 120 then [] else slowNodes
    if k.pollIn then pullLoop k.now false c slowNodes k.packets else (0, c, slowNodes)

/-- The client and the caller's list between calls. -/
structure State where
  client : Client
  slowNodes : List Nat
  deriving DecidableEq, Repr

/-- One call, by a caller that passes the same list each time. -/
def State.call (s : State) (k : Call) : State :=
  ⟨(getNotification s.client s.slowNodes k).2.1, (getNotification s.client s.slowNodes k).2.2⟩

/-- A sequence of calls. -/
def State.run (s : State) (ks : List Call) : State := ks.foldl State.call s

/-- The packets a sequence of calls pulls, in order. -/
def received (ks : List Call) : List (List Nat) :=
  ks.flatMap fun k => if k.pollIn then k.packets else []

section Calls

theorem pullLoop_spec (now : Int) : ∀ (gotPacket : Bool) (c : Client) (slowNodes : List Nat)
    (ps : List (List Nat)),
    (pullLoop now gotPacket c slowNodes ps).2.2 = ps.getLast?.getD slowNodes ∧
      (pullLoop now gotPacket c slowNodes ps).2.1 =
        if ps = [] then c else { c with lastNotification := now }
  | _, _, _, [] => ⟨rfl, rfl⟩
  | _, c, _, p :: ps => by
    obtain ⟨h₁, h₂⟩ := pullLoop_spec now true { c with lastNotification := now } p ps
    refine ⟨?_, ?_⟩
    · rw [pullLoop, h₁]
      cases ps <;> simp [List.getLast?_cons]
    · rw [pullLoop, h₂]
      split_ifs <;> simp_all

variable {s : State} {k : Call}

theorem call_spec (hs : s.client.sockOk) :
    (s.call k).slowNodes =
        (if k.pollIn then k.packets else []).getLast?.getD
          (if k.now - s.client.lastNotification > 120 then [] else s.slowNodes) ∧
      (s.call k).client = if k.pollIn ∧ k.packets ≠ [] then
        { s.client with lastNotification := k.now } else s.client := by
  have hc : (!s.client.sockOk) = false := by simp [hs]
  by_cases hp : k.pollIn
  · obtain ⟨h₁, h₂⟩ := pullLoop_spec k.now false s.client
      (if k.now - s.client.lastNotification > 120 then [] else s.slowNodes) k.packets
    simp only [State.call, getNotification, hc, hp, if_true, Bool.false_eq_true, if_false, h₁, h₂]
    by_cases he : k.packets = [] <;> simp [he]
  · simp [State.call, getNotification, hc, hp]

theorem call_sockOk (hs : s.client.sockOk) : (s.call k).client.sockOk := by
  rw [(call_spec hs).2]
  split_ifs <;> exact hs

theorem call_fresh (hs : s.client.sockOk) :
    (s.call k).slowNodes = [] ∨ k.now - (s.call k).client.lastNotification ≤ 120 := by
  obtain ⟨h₁, h₂⟩ := @call_spec s k hs
  rw [h₁, h₂]
  by_cases hp : k.pollIn ∧ k.packets ≠ []
  · obtain ⟨p, ps, he⟩ := List.exists_cons_of_ne_nil hp.2
    right
    simp only [if_pos hp]
    omega
  · rw [if_neg hp]
    have hl : (if k.pollIn then k.packets else []).getLast? = none := by
      by_cases hq : k.pollIn
      · simp [hq, show k.packets = [] by simpa [hq] using hp]
      · simp [hq]
    rw [hl, Option.getD_none]
    split_ifs with ht
    · exact .inl rfl
    · exact .inr (by omega)

theorem call_last {R : List (List Nat)} (hs : s.client.sockOk)
    (h : s.slowNodes = [] ∨ some s.slowNodes = R.getLast?) :
    (s.call k).slowNodes = [] ∨
      some (s.call k).slowNodes = (R ++ if k.pollIn then k.packets else []).getLast? := by
  rw [(call_spec hs).1]
  cases hq : (if k.pollIn then k.packets else []).getLast? with
  | some p => exact .inr (by rw [List.getLast?_append, hq]; rfl)
  | none =>
    have he : (if k.pollIn then k.packets else []) = [] := List.getLast?_eq_none_iff.mp hq
    rw [he, List.append_nil, Option.getD_none]
    split_ifs
    · exact .inl rfl
    · exact h

end Calls

/-- The caller's list is empty or the last packet, received at most two minutes ago. -/
theorem slowNodes_fresh {c₀ : Client} (hc : c₀.sockOk) (ks : List Call) (k : Call) :
    (State.run ⟨c₀, []⟩ (ks ++ [k])).slowNodes = [] ∨
      some (State.run ⟨c₀, []⟩ (ks ++ [k])).slowNodes = (received (ks ++ [k])).getLast? ∧
        k.now - (State.run ⟨c₀, []⟩ (ks ++ [k])).client.lastNotification ≤ 120 := by
  have hrun : ∀ ks : List Call, (State.run ⟨c₀, []⟩ ks).client.sockOk ∧
      ((State.run ⟨c₀, []⟩ ks).slowNodes = [] ∨
        some (State.run ⟨c₀, []⟩ ks).slowNodes = (received ks).getLast?) := by
    intro ks
    induction ks using List.reverseRecOn with
    | nil => exact ⟨hc, .inl rfl⟩
    | append_singleton ks k ih =>
      simp only [State.run, List.foldl_append, List.foldl_cons, List.foldl_nil] at ih ⊢
      refine ⟨call_sockOk ih.1, ?_⟩
      rw [received, List.flatMap_append, List.flatMap_singleton]
      exact call_last ih.1 ih.2
  have hs := (hrun ks).1
  have hl := (hrun (ks ++ [k])).2
  have hf : (State.run ⟨c₀, []⟩ (ks ++ [k])).slowNodes = [] ∨
      k.now - (State.run ⟨c₀, []⟩ (ks ++ [k])).client.lastNotification ≤ 120 := by
    simp only [State.run, List.foldl_append, List.foldl_cons, List.foldl_nil]
    exact call_fresh hs
  by_cases he : (State.run ⟨c₀, []⟩ (ks ++ [k])).slowNodes = []
  · exact .inl he
  · exact .inr ⟨hl.resolve_left he, hf.resolve_left he⟩

/-- Two packets pulled at time `10`. -/
def heardAt10 : List Call := [⟨10, true, [[1, 2], [3]]⟩]

/-- A call at time `200` that hears nothing. -/
def silentAt200 : Call := ⟨200, false, []⟩

theorem slowNodes_fresh_cleared :
    (⟨true, 0⟩ : Client).sockOk ∧
      ((State.run ⟨⟨true, 0⟩, []⟩ (heardAt10 ++ [silentAt200])).slowNodes = [] ∨
        some (State.run ⟨⟨true, 0⟩, []⟩ (heardAt10 ++ [silentAt200])).slowNodes =
            (received (heardAt10 ++ [silentAt200])).getLast? ∧
          silentAt200.now -
              (State.run ⟨⟨true, 0⟩, []⟩ (heardAt10 ++ [silentAt200])).client.lastNotification ≤
            120) :=
  ⟨rfl, slowNodes_fresh rfl heardAt10 silentAt200⟩

end KosmosFs.Telemetry
