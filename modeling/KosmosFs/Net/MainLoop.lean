import KosmosFs.Net.NetManager

/-! # The timeout handlers and the event loop over many passes

The `for_each` over `mTimeoutHandlers` reaches handlers registered during it and skips those
erased ahead of it. Pass after pass, `mConnections` keeps each connection once.
-/

namespace KosmosFs.NetManager

/-! ## The timeout handlers -/

/-- What an effect does to the number of entries of handler `g`. -/
def Effect.registrations (g n : Nat) : Effect → Nat
  | .register h => if h = g then n + 1 else n
  | .unregister h => if h = g then n - 1 else n
  | _ => n

theorem unRegisterTimeoutHandler_eq_erase (h : Nat) (handlers : List Nat) :
    unRegisterTimeoutHandler h handlers = handlers.erase h := by
  induction handlers with
  | nil => rfl
  | cons tm rest ih =>
    by_cases ht : tm = h
    · simp [unRegisterTimeoutHandler, ht]
    · simp [unRegisterTimeoutHandler, ht, ih, List.erase_cons, beq_iff_eq]

theorem Effect.count_applyTimers (g : Nat) (handlers : List Nat) (e : Effect) :
    (e.applyTimers handlers).count g = e.registrations g (handlers.count g) := by
  cases e with
  | register h =>
    by_cases hg : h = g <;>
      simp [applyTimers, registerTimeoutHandler, registrations, List.count_append,
        List.count_cons, hg]
  | unregister h =>
    simp only [applyTimers, registrations, unRegisterTimeoutHandler_eq_erase,
      List.count_erase, beq_iff_eq]
    split <;> rfl
  | close _ => rfl
  | accept => rfl

theorem count_applyTimers_foldl (g : Nat) (es : List Effect) (handlers : List Nat) :
    (es.foldl Effect.applyTimers handlers).count g =
      es.foldl (Effect.registrations g) (handlers.count g) := by
  induction es generalizing handlers with
  | nil => rfl
  | cons e es ih => rw [List.foldl_cons, List.foldl_cons, ih, Effect.count_applyTimers]

theorem Effect.onTimers_spec {cur : Nat} {e : Effect} {done todo done' todo' : List Nat}
    (h : e.onTimers cur (done, todo) = some (done', todo')) :
    e.applyTimers (done ++ cur :: todo) = done' ++ cur :: todo' ∧ done'.Sublist done := by
  cases e with
  | register g =>
    simp only [onTimers, Option.some.injEq, Prod.mk.injEq] at h
    obtain ⟨rfl, rfl⟩ := h
    simp [applyTimers, registerTimeoutHandler]
  | unregister g =>
    simp only [onTimers] at h
    split_ifs at h with hd hc
    · cases h
      simp [applyTimers, unRegisterTimeoutHandler_eq_erase, List.erase_append_left _ hd,
        List.erase_sublist]
    · cases h
      refine ⟨?_, .refl _⟩
      simp [applyTimers, unRegisterTimeoutHandler_eq_erase, List.erase_append_right _ hd,
        List.erase_cons, Ne.symm hc]
  | close _ | accept =>
    simp only [onTimers, Option.some.injEq, Prod.mk.injEq] at h
    obtain ⟨rfl, rfl⟩ := h
    exact ⟨rfl, .refl _⟩

theorem timerEffects_spec {cur : Nat} : ∀ {es : List Effect} {done todo done' todo' : List Nat},
    timerEffects cur es (done, todo) = some (done', todo') →
      es.foldl Effect.applyTimers (done ++ cur :: todo) = done' ++ cur :: todo' ∧
        done'.Sublist done
  | [], _, _, _, _, h => by
    simp only [timerEffects, Option.some.injEq, Prod.mk.injEq] at h
    obtain ⟨rfl, rfl⟩ := h
    exact ⟨rfl, .refl _⟩
  | e :: es, _, _, _, _, h => by
    obtain ⟨⟨d, t⟩, h₁, h₂⟩ := Option.bind_eq_some.mp h
    obtain ⟨e₁, s₁⟩ := Effect.onTimers_spec h₁
    obtain ⟨e₂, s₂⟩ := timerEffects_spec h₂
    exact ⟨by rw [List.foldl_cons, e₁, e₂], s₂.trans s₁⟩

section ForEach

variable {env : Env} {s s' : Pass}

theorem foldl_apply_events (r : List Int) (es : List Effect) :
    (es.foldl (Pass.apply r) s).events = s.events := by
  induction es generalizing s with
  | nil => rfl
  | cons e es ih => rw [List.foldl_cons, ih, apply_events]

theorem invoke_events (h : Handler) : (s.invoke env h).events = s.events ++ [h] :=
  foldl_apply_events _ _

theorem forEachTimers_spec {fuel : Nat} {done todo F : List Nat}
    (h : forEachTimers env fuel done todo s = some (F, s')) :
    ∃ C : List Nat, s'.events = s.events ++ C.map Handler.timer ∧
      F = (C.flatMap fun t => env.effects (.timer t)).foldl Effect.applyTimers (done ++ todo) ∧
      F.Sublist (done ++ C) := by
  induction fuel generalizing done todo s with
  | zero => cases h
  | succ fuel ih =>
    cases todo with
    | nil =>
      simp only [forEachTimers, Option.some.injEq, Prod.mk.injEq] at h
      obtain ⟨rfl, rfl⟩ := h
      exact ⟨[], by simp, by simp, by simp⟩
    | cons cur todo =>
      obtain ⟨⟨d, t⟩, h₁, h₂⟩ := Option.bind_eq_some.mp h
      obtain ⟨he₁, hd⟩ := timerEffects_spec h₁
      obtain ⟨C, he, hF, hs⟩ := ih h₂
      refine ⟨cur :: C, by simp [he, invoke_events], ?_, ?_⟩
      · rw [hF, List.flatMap_cons, List.foldl_append, he₁]
        simp
      · simpa using hs.trans ((hd.append (.refl [cur])).append (.refl C))

end ForEach

/-- The `for_each` leaves the list the callbacks' register and unregister calls make. -/
theorem timeoutHandlers_called {env : Env} {fuel : Nat} {handlers F : List Nat} {s s' : Pass}
    (h : forEachTimers env fuel [] handlers s = some (F, s')) :
    ∃ C : List Nat, s'.events = s.events ++ C.map Handler.timer ∧
      F = (C.flatMap fun t => env.effects (.timer t)).foldl Effect.applyTimers handlers ∧
      F.Sublist C ∧
      ∀ g, F.count g = (C.flatMap fun t => env.effects (.timer t)).foldl
        (Effect.registrations g) (handlers.count g) := by
  obtain ⟨C, he, hF, hs⟩ := forEachTimers_spec h
  rw [List.nil_append] at hF hs
  exact ⟨C, he, hF, hs, fun g => hF ▸ count_applyTimers_foldl g _ handlers⟩

/-- Handler `7` registers `9` and unregisters `8`, which is still ahead of the iterator. -/
def registeringEnv : Env :=
  { staleEnv with
    timers := [7, 8]
    effects := fun h => if h = .timer 7 then [.register 9, .unregister 8] else [] }

theorem timeoutHandlers_called_registering :
    let r := (forEachTimers registeringEnv 4 [] [7, 8] (Pass.start registeringEnv [])).getD
      ([], Pass.start registeringEnv [])
    r.1 = [7, 9] ∧ r.2.events = [.timer 7, .timer 9] ∧
      ∃ C : List Nat, r.2.events = (Pass.start registeringEnv []).events ++ C.map Handler.timer ∧
        r.1 = (C.flatMap fun t => registeringEnv.effects (.timer t)).foldl Effect.applyTimers
          [7, 8] ∧
        r.1.Sublist C ∧
        ∀ g, r.1.count g = (C.flatMap fun t => registeringEnv.effects (.timer t)).foldl
          (Effect.registrations g) (([7, 8] : List Nat).count g) := by
  intro r
  have h : forEachTimers registeringEnv 4 [] [7, 8] (Pass.start registeringEnv []) =
      some (r.1, r.2) := rfl
  exact ⟨rfl, rfl, timeoutHandlers_called h⟩

/-! ## Pass after pass -/

/-- `MainLoop`'s `while (1)`: passes one after another, each on the list the one before left;
`none` if a walk runs out of fuel. -/
def mainLoop (fuel : Nat) : List Env → List Conn → Option (List Conn)
  | [], conns => some conns
  | env :: envs, conns => (mainLoopPass env conns fuel).bind fun s => mainLoop fuel envs s.done

/-- The connections of `closed` stay closed through the pass, the walk keeps none of them,
and no connection the pass accepts gets one of their identities. -/
structure Erasing (closed : List Nat) (s : Pass) : Prop where
  closed_neg : ∀ c ∈ s.done ++ s.todo, c.id ∈ closed → c.fd < 0
  done_open : ∀ c ∈ s.done, c.id ∉ closed
  lt_next : ∀ i ∈ closed, i < s.nextId

section Passes

variable {env : Env} {conns : List Conn} {s s' : Pass} {fuel : Nat} {closed : List Nat}

theorem connLoop_todo (h : connLoop env fuel s = some s') : s'.todo = [] := by
  induction fuel generalizing s with
  | zero => cases h
  | succ fuel ih =>
    unfold connLoop at h
    split at h
    · cases h; assumption
    · exact ih h

theorem mainLoopPass_done_nodup (hn : (conns.map Conn.id).Nodup)
    (h : mainLoopPass env conns fuel = some s) : (s.done.map Conn.id).Nodup := by
  by_cases hok : env.selectOk = true
  · obtain ⟨C, hC⟩ := mainLoopPass_walk hok h
    simpa [connLoop_todo hC] using (((once_start hn).timers C).connLoop hC).nodup
  · rw [mainLoopPass, if_neg hok] at h
    cases h
    exact hn

theorem mainLoop_nodup {envs : List Env} {conns' : List Conn} (hn : (conns.map Conn.id).Nodup)
    (h : mainLoop fuel envs conns = some conns') : (conns'.map Conn.id).Nodup := by
  induction envs generalizing conns with
  | nil => cases h; exact hn
  | cons env envs ih =>
    obtain ⟨s, hs, h⟩ := Option.bind_eq_some.mp h
    exact ih (mainLoopPass_done_nodup hn hs) h

theorem Erasing.apply (r : List Int) (e : Effect) (hi : Erasing closed s) :
    Erasing closed (s.apply r e) := by
  cases e with
  | close i =>
    refine ⟨?_, ?_, hi.lt_next⟩
    · simp only [Pass.apply, ← List.map_append, List.mem_map]
      rintro _ ⟨c, hc, rfl⟩ hcl
      rw [closeConn_id] at hcl
      unfold closeConn
      split
      · show (-1 : Int) < 0; decide
      · exact hi.closed_neg c hc hcl
    · simp only [Pass.apply, List.mem_map]
      rintro _ ⟨c, hc, rfl⟩
      rw [closeConn_id]
      exact hi.done_open c hc
  | accept =>
    refine ⟨?_, hi.done_open, fun i hi' => Nat.lt_succ_of_lt (hi.lt_next i hi')⟩
    simp only [Pass.apply, ← List.append_assoc, List.mem_append, List.mem_singleton]
    rintro c (hc | rfl) hcl
    · exact hi.closed_neg c (List.mem_append.mpr hc) hcl
    · exact absurd (hi.lt_next _ hcl) (Nat.lt_irrefl _)
  | register _ => exact hi
  | unregister _ => exact hi

theorem Erasing.foldl_apply (r : List Int) (es : List Effect) (hi : Erasing closed s) :
    Erasing closed (es.foldl (Pass.apply r) s) := by
  induction es generalizing s with
  | nil => exact hi
  | cons e es ih => exact ih (hi.apply r e)

theorem Erasing.invoke (h : Handler) (hi : Erasing closed s) :
    Erasing closed (s.invoke env h) :=
  Erasing.foldl_apply _ _ ⟨hi.closed_neg, hi.done_open, hi.lt_next⟩

theorem Erasing.check (k : Kind) (hi : Erasing closed s) : Erasing closed (s.check env k) := by
  unfold Pass.check
  split
  · exact hi
  · rename_i c _ _
    split
    · have hv : Erasing closed (s.invoke env (.conn c.id k)) := hi.invoke _
      exact ⟨hv.closed_neg, hv.done_open, hv.lt_next⟩
    · exact hi

theorem Erasing.advance (hi : Erasing closed s) : Erasing closed s.advance := by
  unfold Pass.advance
  split
  · exact hi
  · rename_i c rest hs
    have hsub : ∀ d ∈ rest, d ∈ s.todo := fun d hd => by simp [hs, hd]
    split
    · exact ⟨fun d hd => hi.closed_neg d (by
        rcases List.mem_append.mp hd with hd | hd
        · exact List.mem_append_left _ hd
        · exact List.mem_append_right _ (hsub d hd)), hi.done_open, hi.lt_next⟩
    · rename_i hfd
      refine ⟨fun d hd => hi.closed_neg d ?_, fun d hd => ?_, hi.lt_next⟩
      · simp only [List.append_assoc, List.singleton_append, List.mem_append] at hd ⊢
        rw [hs]; exact hd
      · rcases List.mem_append.mp hd with hd | hd
        · exact hi.done_open d hd
        · obtain rfl := List.mem_singleton.mp hd
          exact fun hcl => hfd (hi.closed_neg d (by simp [hs]) hcl)

theorem Erasing.connLoop (hi : Erasing closed s) (h : connLoop env fuel s = some s') :
    Erasing closed s' := by
  induction fuel generalizing s with
  | zero => cases h
  | succ fuel ih =>
    unfold KosmosFs.NetManager.connLoop at h
    split at h
    · cases h; exact hi
    · exact ih ((((hi.check .read).check .write).check .error).advance) h

theorem erasing_start (hn : (conns.map Conn.id).Nodup) :
    Erasing ((conns.filter fun c => decide (c.fd < 0)).map Conn.id) (Pass.start env conns) := by
  refine ⟨fun c hc hcl => ?_, fun _ h => absurd h (List.not_mem_nil _), fun i hi => ?_⟩
  · obtain ⟨d, hd, hid⟩ := List.mem_map.mp hcl
    have hc' : c ∈ conns := by simpa [Pass.start] using hc
    obtain rfl := List.inj_on_of_nodup_map hn (List.mem_of_mem_filter hd) hc' hid
    simpa using (List.mem_filter.mp hd).2
  · obtain ⟨d, hd, rfl⟩ := List.mem_map.mp hi
    exact id_lt_fresh (List.mem_of_mem_filter hd)

theorem Erasing.timers (hi : Erasing closed s) (C : List Nat) :
    Erasing closed (C.foldl (fun s t => s.invoke env (.timer t)) s) :=
  foldl_timers (fun _ _ hi => hi.invoke _) C hi

theorem mainLoopPass_erases_closed (hn : (conns.map Conn.id).Nodup) (hok : env.selectOk = true)
    (h : mainLoopPass env conns fuel = some s) {c : Conn} (hc : c ∈ conns) (hneg : c.fd < 0) :
    c.id ∉ s.done.map Conn.id := by
  obtain ⟨C, hC⟩ := mainLoopPass_walk hok h
  intro hm
  obtain ⟨d, hd, hid⟩ := List.mem_map.mp hm
  exact ((erasing_start hn).timers C).connLoop hC |>.done_open d hd
    (hid ▸ List.mem_map_of_mem Conn.id (List.mem_filter.mpr ⟨hc, by simpa using hneg⟩))

end Passes

/-- Pass after pass, `mConnections` stays duplicate-free and closed connections are erased. -/
theorem mainLoop_connections {fuel : Nat} {envs : List Env} {env : Env} {conns mid : List Conn}
    {s : Pass} (hn : (conns.map Conn.id).Nodup) (hrun : mainLoop fuel envs conns = some mid)
    (hok : env.selectOk = true) (h : mainLoopPass env mid fuel = some s) :
    (s.done.map Conn.id).Nodup ∧ ∀ c ∈ mid, c.fd < 0 → c.id ∉ s.done.map Conn.id :=
  have hmid := mainLoop_nodup hn hrun
  ⟨mainLoopPass_done_nodup hmid h, fun _ hc hneg => mainLoopPass_erases_closed hmid hok h hc hneg⟩

/-- `select` reports fds `3` and `4` readable; the listener's read handler closes connection
`0`, which the walk has already passed. -/
def lateClose : Env where
  reserved := [0, 1, 2]
  selectOk := true
  select
    | .read, f => f = 3 || f = 4
    | _, _ => false
  timers := []
  effects
    | .conn 1 .read => [.close 0]
    | _ => []

theorem mainLoop_connections_lateClose :
    let mid := (mainLoop 4 [lateClose] staleConns).getD []
    (⟨0, -1, true, true⟩ : Conn) ∈ mid ∧ ∃ s, mainLoopPass lateClose mid 4 = some s ∧
      (s.done.map Conn.id).Nodup ∧ ∀ c ∈ mid, c.fd < 0 → c.id ∉ s.done.map Conn.id := by
  intro mid
  have hrun : mainLoop 4 [lateClose] staleConns = some mid := rfl
  obtain ⟨s, hs⟩ := Option.isSome_iff_exists.mp
    (show (mainLoopPass lateClose mid 4).isSome by decide)
  exact ⟨by decide, s, hs, mainLoop_connections (by decide) hrun rfl hs⟩

end KosmosFs.NetManager
