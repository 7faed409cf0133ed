import Mathlib.Data.List.Nodup
import Mathlib.Logic.Function.Basic

/-! # One pass of the network event loop

`NetManager::MainLoop` calls `select` on the fds of `mConnections`, runs the timeout handlers,
and walks `mConnections`, calling each connection's handlers for the fds `select` reported.
A callback's effects come from the environment; `NetConnection` and `ITimeout` are not in `src/`.
-/

namespace KosmosFs.NetManager

/-- A `NetConnection` of `mConnections`, by what `MainLoop` reads of it; `id` names the
connection and is not a field of the code. -/
structure Conn where
  id : Nat
  fd : Int
  readReady : Bool
  writeReady : Bool
  deriving DecidableEq, Repr

/-- The three handlers of a connection, by the `fd_set` that triggers them. -/
inductive Kind
  | read
  | write
  | error
  deriving DecidableEq, Repr

/-- A callback of `MainLoop`: `TimerExpired` of timeout handler `t` (its `ITimeout` pointer),
or the `k` handler of connection `id`. -/
inductive Handler
  | timer (t : Nat)
  | conn (id : Nat) (k : Kind)
  deriving DecidableEq, Repr

/-- What a callback does: close connection `id`, accept a connection and `AddConnection` it,
or call `RegisterTimeoutHandler` or `UnRegisterTimeoutHandler`. -/
inductive Effect
  | close (id : Nat)
  | accept
  | register (handler : Nat)
  | unregister (handler : Nat)
  deriving DecidableEq, Repr

/-- What a pass does not control: the fds held outside `mConnections`, `select`'s answer,
`mTimeoutHandlers` when the pass begins, and what each callback does. -/
structure Env where
  reserved : List Int
  selectOk : Bool
  select : Kind → Int → Bool
  timers : List Nat
  effects : Handler → List Effect

/-- `NetManager::RegisterTimeoutHandler`. -/
def registerTimeoutHandler (handler : Nat) (handlers : List Nat) : List Nat :=
  handlers ++ [handler]

/-- `NetManager::UnRegisterTimeoutHandler`: erase the first entry equal to `handler`. -/
def unRegisterTimeoutHandler (handler : Nat) : List Nat → List Nat
  | [] => []
  | tm :: rest => if tm = handler then rest else tm :: unRegisterTimeoutHandler handler rest

/-- What an effect does to `mTimeoutHandlers`. -/
def Effect.applyTimers (handlers : List Nat) : Effect → List Nat
  | .register h => registerTimeoutHandler h handlers
  | .unregister h => unRegisterTimeoutHandler h handlers
  | _ => handlers

/-- An effect of `TimerExpired` on `mTimeoutHandlers` split at the `for_each`'s iterator, which
is on entry `cur`; `none` when it erases that entry and leaves the iterator invalid. -/
def Effect.onTimers (cur : Nat) : Effect → List Nat × List Nat → Option (List Nat × List Nat)
  | .register h, (done, todo) => some (done, registerTimeoutHandler h todo)
  | .unregister h, (done, todo) =>
    if h ∈ done then some (unRegisterTimeoutHandler h done, todo)
    else if h = cur then none
    else some (done, unRegisterTimeoutHandler h todo)
  | _, p => some p

/-- The effects of one `TimerExpired`, in order. -/
def timerEffects (cur : Nat) : List Effect → List Nat × List Nat → Option (List Nat × List Nat)
  | [], p => some p
  | e :: es, p => (e.onTimers cur p).bind (timerEffects cur es)

/-- The `fd_set`s `MainLoop` builds from `mConnections`: a connection with a negative fd is
skipped, the others are in the error set and, as they ask, in the read and write sets. -/
def requested (conns : List Conn) : Kind → List Int
  | .read => (conns.filter fun c => decide (0 ≤ c.fd) && c.readReady).map Conn.fd
  | .write => (conns.filter fun c => decide (0 ≤ c.fd) && c.writeReady).map Conn.fd
  | .error => (conns.filter fun c => decide (0 ≤ c.fd)).map Conn.fd

/-- The `fd_set`s after `select`: the requested fds it reports ready. -/
def selected (env : Env) (conns : List Conn) (k : Kind) : List Int :=
  (requested conns k).filter (env.select k)

/-- An identity no connection of `conns` has, for the connections a pass accepts. -/
def fresh (conns : List Conn) : Nat :=
  conns.foldr (fun c n => max (c.id + 1) n) 0

/-- The lowest fd not in `used`, which `accept` returns. -/
def lowestFree (used : List Int) : Int :=
  ((List.range (used.length + 1)).find? fun n => decide ((n : Int) ∉ used)).getD used.length

/-- A pass after `select`: the connections the iterator has passed, the one under it and
those after it, the three sets, the next identity and the callbacks made so far. -/
structure Pass where
  done : List Conn
  todo : List Conn
  sets : Kind → List Int
  nextId : Nat
  events : List Handler

/-- `TcpSocket::Close` on connection `id`. -/
def closeConn (id : Nat) (c : Conn) : Conn :=
  if c.id = id then { c with fd := -1 } else c

/-- The fds of the connections of the list that are open. -/
def Pass.openFds (s : Pass) : List Int :=
  ((s.done ++ s.todo).filter fun c => decide (0 ≤ c.fd)).map Conn.fd

/-- One effect of a callback. An accepted connection is read ready and has nothing to
write. -/
def Pass.apply (reserved : List Int) (s : Pass) : Effect → Pass
  | .close id => { s with done := s.done.map (closeConn id), todo := s.todo.map (closeConn id) }
  | .accept =>
    { s with
      todo := s.todo ++ [⟨s.nextId, lowestFree (reserved ++ s.openFds), true, false⟩]
      nextId := s.nextId + 1 }
  | .register _ | .unregister _ => s

/-- A callback: it is recorded, then its effects happen in order. -/
def Pass.invoke (env : Env) (h : Handler) (s : Pass) : Pass :=
  (env.effects h).foldl (Pass.apply env.reserved) { s with events := s.events ++ [h] }

/-- One check on the connection under the iterator: if `fd = conn->GetFd()` is positive and
in the `k` set, call its `k` handler, then `FD_CLR(fd, ...)` with the fd read before it. -/
def Pass.check (env : Env) (k : Kind) (s : Pass) : Pass :=
  match s.todo with
  | [] => s
  | c :: _ =>
    if 0 < c.fd ∧ c.fd ∈ s.sets k then
      let s' := s.invoke env (.conn c.id k)
      { s' with sets := Function.update s'.sets k ((s'.sets k).filter fun f => f ≠ c.fd) }
    else s

/-- Past the checks, the iterator erases the connection if its fd is negative, and moves
on. -/
def Pass.advance (s : Pass) : Pass :=
  match s.todo with
  | [] => s
  | c :: rest =>
    if c.fd < 0 then { s with todo := rest } else { s with done := s.done ++ [c], todo := rest }

/-- The body of the `while (iter != mConnections.end())` loop. -/
def Pass.visit (env : Env) (s : Pass) : Pass :=
  (((s.check env .read).check env .write).check env .error).advance

/-- The walk over `mConnections`, on fuel. -/
def connLoop (env : Env) : Nat → Pass → Option Pass
  | 0, _ => none
  | fuel + 1, s =>
    match s.todo with
    | [] => some s
    | _ :: _ => connLoop env fuel (s.visit env)

/-- The state once `select` has returned. -/
def Pass.start (env : Env) (conns : List Conn) : Pass :=
  ⟨[], conns, selected env conns, fresh conns, []⟩

/-- `for_each(mTimeoutHandlers.begin(), mTimeoutHandlers.end(), ...TimerExpired)`, on fuel,
from the entries passed and those still ahead: the list it leaves, and the pass. -/
def forEachTimers (env : Env) : Nat → List Nat → List Nat → Pass → Option (List Nat × Pass)
  | 0, _, _, _ => none
  | _ + 1, done, [], s => some (done, s)
  | fuel + 1, done, cur :: todo, s =>
    (timerEffects cur (env.effects (.timer cur)) (done, todo)).bind fun p =>
      forEachTimers env fuel (p.1 ++ [cur]) p.2 (s.invoke env (.timer cur))

/-- One pass of `MainLoop`'s `while (1)`: nothing when `select` fails; otherwise the timeout
handlers, then the walk over `mConnections`. -/
def mainLoopPass (env : Env) (conns : List Conn) (fuel : Nat) : Option Pass :=
  if env.selectOk then
    (forEachTimers env fuel [] env.timers (Pass.start env conns)).bind fun r =>
      connLoop env fuel r.2
  else some ⟨conns, [], fun _ => [], fresh conns, []⟩

/-- `select` reported `k` readiness for connection `id`'s own socket: the connection was in
the list the sets were built from, with an fd `select` returned in the `k` set. -/
def Reported (env : Env) (conns : List Conn) (id : Nat) (k : Kind) : Prop :=
  ∃ c ∈ conns, c.id = id ∧ c.fd ∈ selected env conns k

instance (env : Env) (conns : List Conn) (id : Nat) (k : Kind) :
    Decidable (Reported env conns id k) :=
  inferInstanceAs (Decidable (∃ c ∈ conns, c.id = id ∧ c.fd ∈ selected env conns k))

/-- Connection `id` was not in the list `select` saw, and a callback of the pass accepted a
connection. -/
def AcceptedIn (env : Env) (conns : List Conn) (events : List Handler) (id : Nat) : Prop :=
  fresh conns ≤ id ∧ ∃ h ∈ events, Effect.accept ∈ env.effects h

/-- A connection of the pass is one `select` saw, with its fd or closed, or one accepted
during the pass. -/
def Origin (env : Env) (conns : List Conn) (events : List Handler) (c : Conn) : Prop :=
  (∃ c₀ ∈ conns, c₀.id = c.id ∧ (c.fd = c₀.fd ∨ c.fd < 0)) ∨ AcceptedIn env conns events c.id

/-! ## The timeout handlers, then the walk -/

section Walk

variable {env : Env} {conns : List Conn} {fuel : Nat} {s : Pass}

theorem forEachTimers_invokes {done todo : List Nat} {r : List Nat × Pass} (s : Pass)
    (h : forEachTimers env fuel done todo s = some r) :
    ∃ C : List Nat, r.2 = C.foldl (fun s t => s.invoke env (.timer t)) s := by
  induction fuel generalizing done todo s with
  | zero => cases h
  | succ fuel ih =>
    cases todo with
    | nil =>
      simp only [forEachTimers, Option.some.injEq] at h
      subst h
      exact ⟨[], rfl⟩
    | cons cur todo =>
      obtain ⟨p, -, h⟩ := Option.bind_eq_some.mp h
      obtain ⟨C, hC⟩ := ih _ h
      exact ⟨cur :: C, hC⟩

theorem foldl_timers {P : Pass → Prop} (hP : ∀ s t, P s → P (s.invoke env (.timer t))) :
    ∀ (C : List Nat) {s : Pass}, P s → P (C.foldl (fun s t => s.invoke env (.timer t)) s)
  | [], _, h => h
  | t :: C, _, h => foldl_timers hP C (hP _ t h)

theorem mainLoopPass_walk (hok : env.selectOk = true) (h : mainLoopPass env conns fuel = some s) :
    ∃ C : List Nat, connLoop env fuel
      (C.foldl (fun s t => s.invoke env (.timer t)) (Pass.start env conns)) = some s := by
  rw [mainLoopPass, if_pos hok] at h
  obtain ⟨r, hr, h⟩ := Option.bind_eq_some.mp h
  obtain ⟨C, hC⟩ := forEachTimers_invokes _ hr
  exact ⟨C, hC ▸ h⟩

end Walk

/-! ## The invariant of a pass -/

section Invariant

variable {env : Env} {conns : List Conn} {s : Pass}

theorem id_lt_fresh {c : Conn} (hc : c ∈ conns) : c.id < fresh conns := by
  induction conns with
  | nil => cases hc
  | cons d ds ih =>
    simp only [fresh, List.foldr_cons] at ih ⊢
    rcases List.mem_cons.mp hc with rfl | hc
    · omega
    · have := ih hc; omega

theorem AcceptedIn.mono {e e' : List Handler} {id : Nat} (h : AcceptedIn env conns e id)
    (he : e ⊆ e') : AcceptedIn env conns e' id :=
  ⟨h.1, let ⟨x, hx, ha⟩ := h.2; ⟨x, he hx, ha⟩⟩

theorem Origin.mono {e e' : List Handler} {c : Conn} (h : Origin env conns e c) (he : e ⊆ e') :
    Origin env conns e' c :=
  h.imp id fun h => h.mono he

theorem Origin.closeConn {e : List Handler} {c : Conn} (id : Nat) (h : Origin env conns e c) :
    Origin env conns e (closeConn id c) := by
  unfold KosmosFs.NetManager.closeConn
  split
  · rcases h with ⟨c₀, hc₀, hid, -⟩ | h
    · exact .inl ⟨c₀, hc₀, hid, .inr (show (-1 : Int) < 0 by decide)⟩
    · exact .inr h
  · exact h

/-- What every state of a pass satisfies. -/
structure Inv (env : Env) (conns : List Conn) (s : Pass) : Prop where
  sets_sub : ∀ k f, f ∈ s.sets k → f ∈ selected env conns k
  origin : ∀ c ∈ s.done ++ s.todo, Origin env conns s.events c
  fresh_le : fresh conns ≤ s.nextId
  events_ok : ∀ id k, Handler.conn id k ∈ s.events →
    Reported env conns id k ∨ AcceptedIn env conns s.events id

theorem inv_start : Inv env conns (Pass.start env conns) where
  sets_sub _ _ := id
  origin c hc := .inl ⟨c, by simpa [Pass.start] using hc, rfl, .inl rfl⟩
  fresh_le := le_rfl
  events_ok _ _ h := by simp [Pass.start] at h

@[simp] theorem apply_events (r : List Int) (e : Effect) : (s.apply r e).events = s.events := by
  cases e <;> rfl

@[simp] theorem apply_sets (r : List Int) (e : Effect) : (s.apply r e).sets = s.sets := by
  cases e <;> rfl

theorem Inv.apply {h : Handler} {e : Effect} (hi : Inv env conns s) (hh : h ∈ s.events)
    (he : e ∈ env.effects h) : Inv env conns (s.apply env.reserved e) := by
  cases e with
  | close id =>
    refine ⟨hi.sets_sub, ?_, hi.fresh_le, hi.events_ok⟩
    simp only [Pass.apply, ← List.map_append, List.mem_map]
    rintro _ ⟨c, hc, rfl⟩
    exact (hi.origin c hc).closeConn id
  | accept =>
    refine ⟨hi.sets_sub, ?_, by simp [Pass.apply]; have := hi.fresh_le; omega, hi.events_ok⟩
    simp only [Pass.apply, ← List.append_assoc, List.mem_append, List.mem_singleton]
    rintro c (hc | rfl)
    · exact hi.origin c (List.mem_append.mpr hc)
    · exact .inr ⟨hi.fresh_le, h, hh, he⟩
  | register _ => exact hi
  | unregister _ => exact hi

theorem Inv.foldl_apply {h : Handler} (es : List Effect) (hes : es ⊆ env.effects h)
    (hi : Inv env conns s) (hh : h ∈ s.events) :
    Inv env conns (es.foldl (Pass.apply env.reserved) s) := by
  induction es generalizing s with
  | nil => exact hi
  | cons e es ih =>
    exact ih (fun x hx => hes (List.mem_cons_of_mem e hx))
      (hi.apply hh (hes (List.mem_cons_self e es))) (by simpa using hh)

theorem Inv.invoke {h : Handler} (hi : Inv env conns s)
    (hh : ∀ id k, h = .conn id k → Reported env conns id k ∨ AcceptedIn env conns s.events id) :
    Inv env conns (s.invoke env h) := by
  have hsub : s.events ⊆ s.events ++ [h] := List.subset_append_left _ _
  refine Inv.foldl_apply _ (List.Subset.refl _) ⟨hi.sets_sub, ?_, hi.fresh_le, ?_⟩ (by simp)
  · exact fun c hc => (hi.origin c hc).mono hsub
  · intro id k hk
    rcases List.mem_append.mp hk with hk | hk
    · exact (hi.events_ok id k hk).imp_right fun h => h.mono hsub
    · exact (hh id k (List.mem_singleton.mp hk).symm).imp_right fun h => h.mono hsub

theorem Inv.check (k : Kind) (hi : Inv env conns s) : Inv env conns (s.check env k) := by
  unfold Pass.check
  split
  · exact hi
  · rename_i c rest hs
    split
    · rename_i hc
      have ho := hi.origin c (by simp [hs])
      have hv := hi.invoke (h := .conn c.id k) fun id k' he => by
        cases he
        rcases ho with ⟨c₀, hc₀, hid, hfd | hfd⟩ | ho
        · exact .inl ⟨c₀, hc₀, hid, hfd ▸ hi.sets_sub k _ hc.2⟩
        · omega
        · exact .inr ho
      refine ⟨fun k' f hf => ?_, hv.origin, hv.fresh_le, hv.events_ok⟩
      dsimp only at hf
      by_cases hk : k' = k
      · subst hk
        simp only [Function.update_same, List.mem_filter] at hf
        exact hv.sets_sub k' f hf.1
      · rw [Function.update_noteq hk] at hf
        exact hv.sets_sub k' f hf
    · exact hi

theorem Inv.advance (hi : Inv env conns s) : Inv env conns s.advance := by
  unfold Pass.advance
  split
  · exact hi
  · rename_i c rest hs
    split
    · exact ⟨hi.sets_sub, fun d hd => hi.origin d (by simp [hs] at hd ⊢; tauto),
        hi.fresh_le, hi.events_ok⟩
    · exact ⟨hi.sets_sub, fun d hd => hi.origin d (by simp [hs] at hd ⊢; tauto),
        hi.fresh_le, hi.events_ok⟩

theorem Inv.visit (hi : Inv env conns s) : Inv env conns (s.visit env) :=
  (((hi.check .read).check .write).check .error).advance

theorem Inv.connLoop {fuel : Nat} {s' : Pass} (hi : Inv env conns s)
    (h : connLoop env fuel s = some s') : Inv env conns s' := by
  induction fuel generalizing s with
  | zero => cases h
  | succ fuel ih =>
    unfold KosmosFs.NetManager.connLoop at h
    split at h
    · cases h; exact hi
    · exact ih hi.visit h

theorem Inv.timers (hi : Inv env conns s) (C : List Nat) :
    Inv env conns (C.foldl (fun s t => s.invoke env (.timer t)) s) :=
  foldl_timers (fun _ _ hi => hi.invoke fun _ _ h => by cases h) C hi

end Invariant

/-! ## Which handlers a pass calls -/

section Handlers

variable {env : Env} {conns : List Conn} {fuel : Nat} {s : Pass} {id : Nat} {k : Kind}

/-- A handler called on a connection was reported by `select` or the connection is new. -/
theorem mainLoopPass_handler (h : mainLoopPass env conns fuel = some s)
    (he : Handler.conn id k ∈ s.events) :
    Reported env conns id k ∨ AcceptedIn env conns s.events id := by
  by_cases hok : env.selectOk = true
  · obtain ⟨C, hC⟩ := mainLoopPass_walk hok h
    exact ((inv_start.timers C).connLoop hC).events_ok id k he
  · rw [mainLoopPass, if_neg hok] at h
    cases h
    cases he

/-- Without accepts, a handler called on a connection was reported by `select` for it. -/
theorem mainLoopPass_reported (hacc : ∀ h, Effect.accept ∉ env.effects h)
    (h : mainLoopPass env conns fuel = some s) (he : Handler.conn id k ∈ s.events) :
    Reported env conns id k :=
  (mainLoopPass_handler h he).resolve_right fun ⟨_, h, _, ha⟩ => hacc h ha

end Handlers

/-- Connection `0` on fd `3`, read and write ready, and a listener `1` on fd `4`. -/
def staleConns : List Conn := [⟨0, 3, true, true⟩, ⟨1, 4, true, false⟩]

/-- `select` reports fd `3` readable and writable and fd `4` readable. Connection `0`'s read
handler closes it; the listener's read handler accepts a connection. -/
def staleEnv : Env where
  reserved := [0, 1, 2]
  selectOk := true
  select
    | .read, f => f = 3 || f = 4
    | .write, f => f = 3
    | .error, _ => false
  timers := []
  effects
    | .conn 0 .read => [.close 0]
    | .conn 1 .read => [.accept]
    | _ => []

/-- `MainLoop` calls the write handler of a new connection that `select` did not report. -/
theorem mainLoopPass_stale_write :
    (mainLoopPass staleEnv staleConns 4).map Pass.events =
        some [.conn 0 .read, .conn 1 .read, .conn 2 .write] ∧
      (mainLoopPass staleEnv staleConns 4).map Pass.done =
        some [⟨1, 4, true, false⟩, ⟨2, 3, true, false⟩] ∧
      ¬ Reported staleEnv staleConns 2 .write := by
  decide

theorem mainLoopPass_handler_stale :
    ∃ s, mainLoopPass staleEnv staleConns 4 = some s ∧ Handler.conn 2 .write ∈ s.events ∧
      (Reported staleEnv staleConns 2 .write ∨ AcceptedIn staleEnv staleConns s.events 2) := by
  obtain ⟨s, hs, he⟩ := Option.map_eq_some'.mp (show (mainLoopPass staleEnv staleConns 4).map
    Pass.events = some [.conn 0 .read, .conn 1 .read, .conn 2 .write] by decide)
  have hw : Handler.conn 2 .write ∈ s.events := by simp [he]
  exact ⟨s, hs, hw, mainLoopPass_handler hs hw⟩

/-- The same pass, where connection `0`'s read handler closes it and nothing is accepted. -/
def closingEnv : Env :=
  { staleEnv with effects := fun h => if h = .conn 0 .read then [.close 0] else [] }

theorem mainLoopPass_reported_closing :
    (∀ h, Effect.accept ∉ closingEnv.effects h) ∧
      ∃ s, mainLoopPass closingEnv staleConns 4 = some s ∧ Handler.conn 1 .read ∈ s.events ∧
        Reported closingEnv staleConns 1 .read := by
  have hacc : ∀ h, Effect.accept ∉ closingEnv.effects h := fun h => by
    by_cases hh : h = .conn 0 .read <;> simp [closingEnv, hh]
  obtain ⟨s, hs, he⟩ := Option.map_eq_some'.mp (show (mainLoopPass closingEnv staleConns 4).map
    Pass.events = some [.conn 0 .read, .conn 1 .read] by decide)
  have hr : Handler.conn 1 .read ∈ s.events := by simp [he]
  exact ⟨hacc, s, hs, hr, mainLoopPass_reported hacc hs hr⟩

/-! ## Each handler at most once -/

section Once

variable {env : Env} {conns : List Conn} {s : Pass} {ks : List Kind}

@[simp] theorem closeConn_id (i : Nat) (c : Conn) : (closeConn i c).id = c.id := by
  unfold closeConn; split <;> rfl

theorem map_closeConn_ids (i : Nat) (l : List Conn) :
    (l.map (closeConn i)).map Conn.id = l.map Conn.id := by
  simp [List.map_map, Function.comp_def]

theorem eq_of_mem_of_id {c d : Conn} {rest : List Conn} (hn : ((c :: rest).map Conn.id).Nodup)
    (hd : d ∈ c :: rest) (hid : d.id = c.id) : d = c := by
  rcases List.mem_cons.mp hd with rfl | hd
  · rfl
  · exact absurd (hid ▸ List.mem_map_of_mem Conn.id hd) (List.nodup_cons.mp hn).1

/-- What keeps a pass from calling a handler twice: identities are distinct and below
`nextId`, and a connection with a recorded handler call is gone from the walk, or is under the
iterator with `ks` the kinds it has been checked for. -/
structure Once (s : Pass) (ks : List Kind) : Prop where
  nodup : ((s.done ++ s.todo).map Conn.id).Nodup
  lt_next : ∀ c ∈ s.done ++ s.todo, c.id < s.nextId
  ev_lt : ∀ id k, Handler.conn id k ∈ s.events → id < s.nextId
  once : ∀ id k, s.events.count (.conn id k) ≤ 1
  head_only : ∀ id k, Handler.conn id k ∈ s.events → ∀ c ∈ s.todo, c.id = id →
    s.todo.head? = some c ∧ k ∈ ks

theorem once_start (hn : (conns.map Conn.id).Nodup) : Once (Pass.start env conns) [] where
  nodup := by simpa [Pass.start] using hn
  lt_next c hc := id_lt_fresh (by simpa [Pass.start] using hc)
  ev_lt _ _ h := by simp [Pass.start] at h
  once _ _ := by simp [Pass.start]
  head_only _ _ h := by simp [Pass.start] at h

theorem Once.apply (r : List Int) (e : Effect) (hi : Once s ks) : Once (s.apply r e) ks := by
  cases e with
  | close i =>
    refine ⟨?_, ?_, hi.ev_lt, hi.once, ?_⟩
    · simpa only [Pass.apply, ← List.map_append, map_closeConn_ids] using hi.nodup
    · simp only [Pass.apply, ← List.map_append, List.mem_map]
      rintro _ ⟨c, hc, rfl⟩
      simpa using hi.lt_next c hc
    · simp only [Pass.apply, List.mem_map]
      rintro id k he _ ⟨c, hc, rfl⟩ hid
      obtain ⟨hh, hk⟩ := hi.head_only id k he c hc (by simpa using hid)
      exact ⟨by simp [List.head?_map, hh], hk⟩
  | accept =>
    have hfresh : s.nextId ∉ (s.done ++ s.todo).map Conn.id := fun h =>
      let ⟨c, hc, he⟩ := List.mem_map.mp h
      (hi.lt_next c hc).ne he
    refine ⟨?_, ?_, fun id k he => Nat.lt_succ_of_lt (hi.ev_lt id k he), hi.once, ?_⟩
    · simp only [Pass.apply, ← List.append_assoc]
      rw [List.map_append, List.map_singleton, List.nodup_append]
      exact ⟨hi.nodup, List.nodup_singleton _, List.disjoint_singleton.mpr hfresh⟩
    · simp only [Pass.apply, ← List.append_assoc, List.mem_append, List.mem_singleton]
      rintro c (hc | rfl)
      · exact Nat.lt_succ_of_lt (hi.lt_next c (List.mem_append.mpr hc))
      · exact Nat.lt_succ_self _
    · simp only [Pass.apply, List.mem_append, List.mem_singleton]
      rintro id k he c (hc | rfl) hid
      · obtain ⟨hh, hk⟩ := hi.head_only id k he c hc hid
        exact ⟨by rw [List.head?_append_of_ne_nil _ (List.ne_nil_of_mem hc), hh], hk⟩
      · exact absurd hid (hi.ev_lt id k he).ne'
  | register _ => exact hi
  | unregister _ => exact hi

theorem Once.todo_nodup (hi : Once s ks) : (s.todo.map Conn.id).Nodup := by
  have := hi.nodup
  rw [List.map_append] at this
  exact (List.nodup_append.mp this).2.1

theorem Once.setSets (f : Kind → List Int) (hi : Once s ks) : Once { s with sets := f } ks :=
  ⟨hi.nodup, hi.lt_next, hi.ev_lt, hi.once, hi.head_only⟩

theorem Once.foldl_apply (r : List Int) (es : List Effect) (hi : Once s ks) :
    Once (es.foldl (Pass.apply r) s) ks := by
  induction es generalizing s with
  | nil => exact hi
  | cons e es ih => exact ih (hi.apply r e)

theorem Once.mono {ks' : List Kind} (hi : Once s ks) (hks : ks ⊆ ks') : Once s ks' :=
  ⟨hi.nodup, hi.lt_next, hi.ev_lt, hi.once, fun id k he c hc hid =>
    (hi.head_only id k he c hc hid).imp_right fun h => hks h⟩

theorem Once.check {k : Kind} (hk : k ∉ ks) (hi : Once s ks) : Once (s.check env k) (k :: ks) := by
  unfold Pass.check
  split
  · exact hi.mono (List.subset_cons_self k ks)
  · rename_i c rest hs
    split
    · have hc : c ∈ s.done ++ s.todo := by simp [hs]
      have hnew : Handler.conn c.id k ∉ s.events := fun he =>
        hk (hi.head_only c.id k he c (by simp [hs]) rfl).2
      apply Once.setSets
      apply Once.foldl_apply
      refine ⟨hi.nodup, hi.lt_next, ?_, ?_, ?_⟩
      · simp only [List.mem_append, List.mem_singleton, Handler.conn.injEq]
        rintro id k' (he | ⟨rfl, -⟩)
        · exact hi.ev_lt id k' he
        · exact hi.lt_next c hc
      · intro id k'
        rw [List.count_append, List.count_singleton']
        by_cases he : Handler.conn id k' = .conn c.id k
        · rw [he, List.count_eq_zero.mpr hnew]; simp
        · simpa [Ne.symm he] using hi.once id k'
      · simp only [List.mem_append, List.mem_singleton, Handler.conn.injEq]
        rintro id k' (he | ⟨rfl, rfl⟩) d hd hid
        · exact (hi.head_only id k' he d hd hid).imp_right (List.mem_cons_of_mem _)
        · rw [hs] at hd ⊢
          have hn : ((c :: rest).map Conn.id).Nodup := hs ▸ hi.todo_nodup
          exact ⟨by rw [eq_of_mem_of_id hn hd hid]; rfl, List.mem_cons_self _ ks⟩
    · exact hi.mono (List.subset_cons_self k ks)

theorem Once.advance (hi : Once s ks) : Once s.advance [] := by
  unfold Pass.advance
  split
  · rename_i hs
    exact ⟨hi.nodup, hi.lt_next, hi.ev_lt, hi.once, fun _ _ _ c hc => by simp [hs] at hc⟩
  · rename_i c rest hs
    have hn : ((c :: rest).map Conn.id).Nodup := hs ▸ hi.todo_nodup
    have hgone : ∀ id k, Handler.conn id k ∈ s.events → ∀ d ∈ rest, d.id ≠ id := by
      intro id k he d hd hid
      obtain ⟨hh, -⟩ := hi.head_only id k he d (by simp [hs, hd]) hid
      rw [hs, List.head?_cons, Option.some.injEq] at hh
      exact (List.nodup_cons.mp hn).1 (hh ▸ List.mem_map_of_mem Conn.id hd)
    have hsub : ∀ d, d ∈ s.done ∨ d ∈ rest → d ∈ s.done ++ s.todo := by
      intro d hd; simp [hs]; tauto
    have hn' : ((s.done ++ c :: rest).map Conn.id).Nodup := hs ▸ hi.nodup
    split
    · refine ⟨?_, fun d hd => hi.lt_next d (hsub d (List.mem_append.mp hd)), hi.ev_lt, hi.once,
        fun id k he d hd hid => absurd hid (hgone id k he d hd)⟩
      exact hn'.sublist ((List.sublist_cons_self c rest).append_left _ |>.map _)
    · refine ⟨?_, fun d hd => hi.lt_next d ?_, hi.ev_lt, hi.once,
        fun id k he d hd hid => absurd hid (hgone id k he d hd)⟩
      · simpa using hn'
      · simp only [List.append_assoc, List.singleton_append, List.mem_append, List.mem_cons] at hd
        simp [hs]; tauto

theorem Once.visit (hi : Once s []) : Once (s.visit env) [] :=
  (((hi.check (List.not_mem_nil _)).check (by decide)).check (by decide)).advance

theorem Once.connLoop {fuel : Nat} {s' : Pass} (hi : Once s [])
    (h : connLoop env fuel s = some s') : Once s' [] := by
  induction fuel generalizing s with
  | zero => cases h
  | succ fuel ih =>
    unfold KosmosFs.NetManager.connLoop at h
    split at h
    · cases h; exact hi
    · exact ih hi.visit h

theorem Once.timer (t : Nat) (hi : Once s []) : Once (s.invoke env (.timer t)) [] := by
  apply Once.foldl_apply
  refine ⟨hi.nodup, hi.lt_next, ?_, fun id k => ?_, ?_⟩
  · simpa using hi.ev_lt
  · simpa [List.count_append] using hi.once id k
  · simpa using hi.head_only

theorem Once.timers (hi : Once s []) (C : List Nat) :
    Once (C.foldl (fun s t => s.invoke env (.timer t)) s) [] :=
  @foldl_timers env (fun s => Once s []) (fun _ t hi => hi.timer t) C s hi

/-- A pass over a duplicate-free `mConnections` calls each handler at most once. -/
theorem mainLoopPass_once {fuel : Nat} {id : Nat} {k : Kind} (hn : (conns.map Conn.id).Nodup)
    (h : mainLoopPass env conns fuel = some s) : s.events.count (.conn id k) ≤ 1 := by
  by_cases hok : env.selectOk = true
  · obtain ⟨C, hC⟩ := mainLoopPass_walk hok h
    exact (((once_start hn).timers C).connLoop hC).once id k
  · rw [mainLoopPass, if_neg hok] at h
    cases h
    simp

end Once

theorem mainLoopPass_once_stale :
    (staleConns.map Conn.id).Nodup ∧ ∃ s, mainLoopPass staleEnv staleConns 4 = some s ∧
      s.events.count (.conn 0 .read) ≤ 1 := by
  have hn : (staleConns.map Conn.id).Nodup := by decide
  obtain ⟨s, hs⟩ := Option.isSome_iff_exists.mp
    (show (mainLoopPass staleEnv staleConns 4).isSome by decide)
  exact ⟨hn, s, hs, mainLoopPass_once hn hs⟩

end KosmosFs.NetManager
