import Mathlib.Data.List.Basic

/-! # Writing a checkpoint file

`Checkpoint::do_CP` writes the header, the leaves and the zombie queue, closes the file and
points `LASTCP` at it. An outcome stream gives the status of each I/O operation, in order.
-/

namespace KosmosFs

/-- `EIO` on Linux. -/
def EIO : Int := 5

/-- An entity of the metadata tree, as the checkpoint writer sees it. -/
structure Meta where
  id : Nat
  skip : Bool
  deriving DecidableEq, Repr

/-- The I/O operations of a checkpoint run. -/
inductive Op
  | openFile (name : String)
  | header (line : String)
  | leaf (m : Meta)
  | zombie (m : Meta)
  | close
  | link (name latest : String)
  deriving DecidableEq, Repr

/-- What a checkpoint run does: an I/O operation with the status it returned, or the
`delete` of a zombie. -/
inductive Event
  | io (op : Op) (status : Int)
  | free (m : Meta)
  deriving DecidableEq, Repr

/-- The statuses the I/O operations return, in order, and what has happened so far. -/
structure Disk where
  result : Nat → Int
  count : Nat
  events : List Event

namespace Disk

/-- Perform one I/O operation; the outcome stream gives its status. -/
def perform (d : Disk) (op : Op) : Int × Disk :=
  (d.result d.count,
    { d with count := d.count + 1, events := d.events ++ [.io op (d.result d.count)] })

/-- `delete m`. -/
def free (d : Disk) (m : Meta) : Disk := { d with events := d.events ++ [.free m] }

@[simp] theorem perform_fst (d : Disk) (op : Op) : (d.perform op).1 = d.result d.count := rfl
@[simp] theorem perform_result (d : Disk) (op : Op) : (d.perform op).2.result = d.result := rfl
@[simp] theorem perform_count (d : Disk) (op : Op) : (d.perform op).2.count = d.count + 1 := rfl
@[simp] theorem perform_events (d : Disk) (op : Op) :
    (d.perform op).2.events = d.events ++ [.io op (d.result d.count)] := rfl
@[simp] theorem free_result (d : Disk) (m : Meta) : (d.free m).result = d.result := rfl
@[simp] theorem free_count (d : Disk) (m : Meta) : (d.free m).count = d.count := rfl
@[simp] theorem free_events (d : Disk) (m : Meta) : (d.free m).events = d.events ++ [.free m] :=
  rfl

end Disk

/-- What `do_CP` writes in the header of a checkpoint file: `oplog.checkpointed()`,
`VERSION`, the two seeds, `chunkVersionInc`, `ctime` of the start (newline included) and
`oplog.name()`. -/
structure CpHeader where
  seq : Int
  version : Int
  fid : Int
  chunkId : Int
  chunkVersionInc : Int
  time : String
  log : String

/-- The header lines, in the order `do_CP` writes them. -/
def CpHeader.lines (h : CpHeader) : List String :=
  ["checkpoint/" ++ toString h.seq ++ "\n", "version/" ++ toString h.version ++ "\n",
   "fid/" ++ toString h.fid ++ "\n", "chunkId/" ++ toString h.chunkId ++ "\n",
   "chunkVersionInc/" ++ toString h.chunkVersionInc ++ "\n", "time/" ++ h.time,
   "log/" ++ h.log ++ "\n" ++ "\n"]

/-- Write the header lines; their statuses are not looked at. -/
def writeHeader : List String → Disk → Disk
  | [], d => d
  | l :: ls, d => writeHeader ls (d.perform (.header l)).2

/-- `Checkpoint::write_leaves`, over the leaves in tree order: its status, the leaves with the
skip marks it cleared, and the disk after it. The loop stops at the first failed write. -/
def writeLeaves : List Meta → Disk → Int × List Meta × Disk
  | [], d => (0, [], d)
  | m :: ms, d =>
    if m.skip then
      let r := writeLeaves ms d
      (r.1, { m with skip := false } :: r.2.1, r.2.2)
    else
      let w := d.perform (.leaf m)
      if w.1 = 0 then
        let r := writeLeaves ms w.2
        (r.1, m :: r.2.1, r.2.2)
      else (w.1, m :: ms, w.2)

/-- `Checkpoint::write_zombies`: drain the queue, writing and then deleting each zombie, and
keep the first nonzero status. -/
def writeZombies : List Meta → Int → Disk → Int × Disk
  | [], st, d => (st, d)
  | m :: zs, st, d =>
    let w := d.perform (.zombie m)
    writeZombies zs (if st = 0 then w.1 else st) (w.2.free m)

/-- The outcome of a checkpoint run: the status `do_CP` returns, the leaves, the zombie
queue left behind, and what was done. -/
structure CpRun where
  status : Int
  leaves : List Meta
  zombies : List Meta
  events : List Event

/-- The body of `Checkpoint::do_CP` once `running` is set, writing the file `cpname` and
linking `latest` to it, with the I/O outcomes `result`. -/
def doCP (h : CpHeader) (cpname latest : String) (leaves zombies : List Meta)
    (result : Nat → Int) : CpRun :=
  let o := (Disk.mk result 0 []).perform (.openFile cpname)
  if o.1 ≠ 0 then ⟨- EIO, leaves, zombies, o.2.events⟩
  else
    let l := writeLeaves leaves (writeHeader h.lines o.2)
    let z := if l.1 = 0 then writeZombies zombies 0 l.2.2 else (l.1, l.2.2)
    let zs := if l.1 = 0 then [] else zombies
    let d := ((z.2.perform .close).2.perform (.link cpname latest)).2
    ⟨z.1, l.2.1, zs, d.events⟩

theorem writeHeader_spec (ls : List String) (d : Disk) :
    ∃ E, (writeHeader ls d).events = d.events ++ E ∧ (writeHeader ls d).result = d.result ∧
      ∀ e ∈ E, ∃ l st, e = .io (.header l) st := by
  induction ls generalizing d with
  | nil => exact ⟨[], by simp [writeHeader]⟩
  | cons l ls ih =>
    obtain ⟨E, he, hr, hE⟩ := ih (d.perform (.header l)).2
    refine ⟨.io (.header l) (d.result d.count) :: E, by simp [writeHeader, he], by simpa using hr,
      ?_⟩
    rintro e (_ | ⟨_, he⟩)
    · exact ⟨l, _, rfl⟩
    · exact hE e he

theorem writeLeaves_spec (ms : List Meta) (d : Disk) :
    ∃ E, (writeLeaves ms d).2.2.events = d.events ++ E ∧
      (writeLeaves ms d).2.2.result = d.result ∧
      (∀ e ∈ E, ∃ m st, e = .io (.leaf m) st) ∧
      ((writeLeaves ms d).1 = 0 ↔ ∀ m st, Event.io (.leaf m) st ∈ E → st = 0) := by
  induction ms generalizing d with
  | nil => exact ⟨[], by simp [writeLeaves]⟩
  | cons m ms ih =>
    by_cases hs : m.skip
    · simpa [writeLeaves, hs] using ih d
    by_cases hw : d.result d.count = 0
    · obtain ⟨E, he, hr, hE, hst⟩ := ih (d.perform (.leaf m)).2
      refine ⟨.io (.leaf m) 0 :: E, by simp [writeLeaves, hs, hw, he],
        by simpa [writeLeaves, hs, hw] using hr, ?_, ?_⟩
      · rintro e (_ | ⟨_, he⟩)
        · exact ⟨m, 0, rfl⟩
        · exact hE e he
      · simp only [writeLeaves, hs, hw, Disk.perform_fst, if_true, List.mem_cons, Event.io.injEq,
          Op.leaf.injEq, Bool.false_eq_true, if_false]
        rw [hst]
        constructor
        · rintro h m' st (⟨-, rfl⟩ | h')
          · rfl
          · exact h m' st h'
        · exact fun h m' st h' => h m' st (.inr h')
    · refine ⟨[.io (.leaf m) (d.result d.count)], by simp [writeLeaves, hs, hw],
        by simp [writeLeaves, hs, hw], by simp, ?_⟩
      simp only [writeLeaves, hs, hw, Disk.perform_fst, if_false, Bool.false_eq_true,
        List.mem_singleton, Event.io.injEq, Op.leaf.injEq]
      exact ⟨False.elim, fun h => hw (h m _ ⟨rfl, rfl⟩)⟩

/-- The events of draining a queue: each zombie's write, with its status, then its `delete`. -/
def zombieEvents : List Meta → List Int → List Event
  | m :: zs, st :: sts => .io (.zombie m) st :: .free m :: zombieEvents zs sts
  | _, _ => []

@[simp] theorem zombieEvents_cons (m : Meta) (zs : List Meta) (st : Int) (sts : List Int) :
    zombieEvents (m :: zs) (st :: sts) = .io (.zombie m) st :: .free m :: zombieEvents zs sts :=
  rfl

@[simp] theorem zombieEvents_nil (sts : List Int) : zombieEvents [] sts = [] := by
  cases sts <;> rfl

theorem writeZombies_spec (zs : List Meta) (st₀ : Int) (d : Disk) :
    ∃ sts : List Int, sts.length = zs.length ∧
      (writeZombies zs st₀ d).2.events = d.events ++ zombieEvents zs sts ∧
      (writeZombies zs st₀ d).2.result = d.result ∧
      ((writeZombies zs st₀ d).1 = 0 ↔ st₀ = 0 ∧ ∀ s ∈ sts, s = 0) := by
  induction zs generalizing st₀ d with
  | nil => exact ⟨[], by simp [writeZombies, zombieEvents]⟩
  | cons m zs ih =>
    obtain ⟨sts, hl, he, hr, hst⟩ := ih (if st₀ = 0 then d.result d.count else st₀)
      ((d.perform (.zombie m)).2.free m)
    refine ⟨d.result d.count :: sts, by simp [hl], by simp [writeZombies, he],
      by simpa [writeZombies] using hr, ?_⟩
    simp only [writeZombies, Disk.perform_fst, hst, List.mem_cons, forall_eq_or_imp]
    by_cases h₀ : st₀ = 0 <;> simp [h₀]

variable {zs : List Meta} {sts : List Int} {m : Meta} {st : Int}

theorem leaf_not_mem_zombieEvents : Event.io (.leaf m) st ∉ zombieEvents zs sts := by
  induction zs generalizing sts with
  | nil => simp
  | cons z zs ih => cases sts <;> simp [zombieEvents, ih]

theorem zombieEvents_ok_iff (hl : sts.length = zs.length) :
    (∀ m st, Event.io (.zombie m) st ∈ zombieEvents zs sts → st = 0) ↔ ∀ s ∈ sts, s = 0 := by
  induction zs generalizing sts with
  | nil => cases sts <;> simp_all
  | cons z zs ih =>
    cases sts with
    | nil => simp at hl
    | cons s sts =>
      rw [List.forall_mem_cons, ← ih (by simpa using hl)]
      simp only [zombieEvents_cons, List.mem_cons, Event.io.injEq, Op.zombie.injEq, reduceCtorEq,
        false_or]
      constructor
      · exact fun h => ⟨h z s (.inl ⟨rfl, rfl⟩), fun m' st' h' => h m' st' (.inr h')⟩
      · rintro ⟨h₀, h⟩ m' st' (⟨-, rfl⟩ | h')
        · exact h₀
        · exact h m' st' h'

section Run

variable (h : CpHeader) (n lt : String) (leaves zombies : List Meta) (result : Nat → Int)

theorem doCP_of_open_failed (ho : result 0 ≠ 0) :
    doCP h n lt leaves zombies result =
      ⟨- EIO, leaves, zombies, [.io (.openFile n) (result 0)]⟩ := by
  simp [doCP, ho]

theorem doCP_of_opened (ho : result 0 = 0) :
    ∃ H L Z, ∃ d : Disk, (doCP h n lt leaves zombies result).events =
        .io (.openFile n) 0 :: (H ++ L ++ Z ++
          [.io .close (d.result d.count), .io (.link n lt) (d.result (d.count + 1))]) ∧
      (∀ e ∈ H, ∃ l st, e = .io (.header l) st) ∧
      (∀ e ∈ L, ∃ m st, e = .io (.leaf m) st) ∧
      (((∀ m st, Event.io (.leaf m) st ∈ L → st = 0) ∧
          ∃ sts, sts.length = zombies.length ∧ Z = zombieEvents zombies sts ∧
            (doCP h n lt leaves zombies result).zombies = [] ∧
            ((doCP h n lt leaves zombies result).status = 0 ↔ ∀ s ∈ sts, s = 0)) ∨
        (¬ (∀ m st, Event.io (.leaf m) st ∈ L → st = 0) ∧ Z = [] ∧
          (doCP h n lt leaves zombies result).zombies = zombies ∧
          (doCP h n lt leaves zombies result).status ≠ 0)) := by
  obtain ⟨H, hH, -, hHk⟩ := writeHeader_spec h.lines ((Disk.mk result 0 []).perform (.openFile n)).2
  set d₁ := writeHeader h.lines ((Disk.mk result 0 []).perform (.openFile n)).2 with hd₁
  obtain ⟨L, hL, -, hLk, hLs⟩ := writeLeaves_spec leaves d₁
  by_cases hl : (writeLeaves leaves d₁).1 = 0
  · obtain ⟨sts, hsl, hZ, -, hZs⟩ := writeZombies_spec zombies 0 (writeLeaves leaves d₁).2.2
    refine ⟨H, L, zombieEvents zombies sts, (writeZombies zombies 0 (writeLeaves leaves d₁).2.2).2,
      ?_, hHk, hLk, .inl ⟨hLs.mp hl, sts, hsl, rfl, ?_, ?_⟩⟩
    · simp [doCP, ho, ← hd₁, hl, hZ, hL, hH]
    · simp [doCP, ho, ← hd₁, hl]
    · simpa [doCP, ho, ← hd₁, hl] using hZs
  · refine ⟨H, L, [], (writeLeaves leaves d₁).2.2, ?_, hHk, hLk,
      .inr ⟨fun h' => hl (hLs.mpr h'), rfl, ?_, ?_⟩⟩
    · simp [doCP, ho, ← hd₁, hl, hL, hH]
    · simp [doCP, ho, ← hd₁, hl]
    · simp [doCP, ho, ← hd₁, hl]

theorem not_mem_headers {x : Event} {H : List Event} (hH : ∀ e ∈ H, ∃ l st, e = .io (.header l) st)
    (hx : ∀ l st, x ≠ .io (.header l) st) : x ∉ H := fun hm => by
  obtain ⟨l, st, rfl⟩ := hH x hm
  exact hx l st rfl

theorem not_mem_leaves {x : Event} {L : List Event} (hL : ∀ e ∈ L, ∃ m st, e = .io (.leaf m) st)
    (hx : ∀ m st, x ≠ .io (.leaf m) st) : x ∉ L := fun hm => by
  obtain ⟨m, st, rfl⟩ := hL x hm
  exact hx m st rfl

section Opened

variable {x o c k : Event} {H L Z : List Event}

theorem mem_opened_iff (hH : ∀ e ∈ H, ∃ l st, e = .io (.header l) st)
    (hx : ∀ l st, x ≠ .io (.header l) st) (ho : x ≠ o) (hc : x ≠ c) (hk : x ≠ k) :
    x ∈ o :: (H ++ L ++ Z ++ [c, k]) ↔ x ∈ L ∨ x ∈ Z := by
  simp [not_mem_headers hH hx, ho, hc, hk]

theorem mem_opened_iff_zombies (hH : ∀ e ∈ H, ∃ l st, e = .io (.header l) st)
    (hL : ∀ e ∈ L, ∃ m st, e = .io (.leaf m) st) (hx : ∀ l st, x ≠ .io (.header l) st)
    (hx' : ∀ m st, x ≠ .io (.leaf m) st) (ho : x ≠ o) (hc : x ≠ c) (hk : x ≠ k) :
    x ∈ o :: (H ++ L ++ Z ++ [c, k]) ↔ x ∈ Z :=
  (mem_opened_iff hH hx ho hc hk).trans (or_iff_right (not_mem_leaves hL hx'))

end Opened

theorem doCP_link_iff :
    (∃ st, Event.io (.link n lt) st ∈ (doCP h n lt leaves zombies result).events) ↔
      result 0 = 0 := by
  constructor
  · rintro ⟨st, hst⟩
    by_contra ho
    simp [doCP_of_open_failed h n lt leaves zombies result ho] at hst
  · intro ho
    obtain ⟨H, L, Z, d, he, -⟩ := doCP_of_opened h n lt leaves zombies result ho
    exact ⟨d.result (d.count + 1), by simp [he]⟩

/-- `do_CP` returns `0` exactly when the open, the leaf writes and the zombie writes succeeded. -/
theorem doCP_status_eq_zero_iff :
    (doCP h n lt leaves zombies result).status = 0 ↔ result 0 = 0 ∧
      (∀ m st, Event.io (.leaf m) st ∈ (doCP h n lt leaves zombies result).events → st = 0) ∧
      (∀ m st, Event.io (.zombie m) st ∈ (doCP h n lt leaves zombies result).events → st = 0) := by
  by_cases ho : result 0 = 0
  · obtain ⟨H, L, Z, d, he, hHk, hLk, hc⟩ := doCP_of_opened h n lt leaves zombies result ho
    have hl : ∀ m st, Event.io (.leaf m) st ∈ (doCP h n lt leaves zombies result).events ↔
        Event.io (.leaf m) st ∈ L ∨ Event.io (.leaf m) st ∈ Z := fun m st => by
      rw [he]; exact mem_opened_iff hHk (by simp) (by simp) (by simp) (by simp)
    have hz : ∀ m st, Event.io (.zombie m) st ∈ (doCP h n lt leaves zombies result).events ↔
        Event.io (.zombie m) st ∈ Z := fun m st => by
      rw [he]
      exact mem_opened_iff_zombies hHk hLk (by simp) (by simp) (by simp) (by simp) (by simp)
    simp only [hl, hz, ho, true_and]
    rcases hc with ⟨hL, sts, hsl, rfl, -, hst⟩ | ⟨hL, rfl, -, hst⟩
    · simp only [hst, leaf_not_mem_zombieEvents, or_false, ← zombieEvents_ok_iff hsl]
      exact ⟨fun h => ⟨hL, h⟩, And.right⟩
    · simp only [hst, List.not_mem_nil, or_false, false_iff, not_and]
      exact fun h => absurd h hL
  · simp [doCP_of_open_failed h n lt leaves zombies result ho, EIO, ho]

end Run

namespace CpRun

/-- `LASTCP` was re-pointed: some `link_latest` succeeded. -/
def Linked (r : CpRun) : Prop := ∃ n l, Event.io (.link n l) 0 ∈ r.events

/-- Every I/O operation before the link succeeded. -/
def Complete (r : CpRun) : Prop :=
  ∀ op st, Event.io op st ∈ r.events → (∀ n l, op ≠ .link n l) → st = 0

end CpRun

/-- A zombie whose write failed is deleted and `LASTCP` names a file that lacks it. -/
theorem doCP_links_after_failed_zombie :
    ∃ r, doCP ⟨1, 1, 3, 10, 0, "Thu Jan  1 00:00:00 1970\n", "log.1"⟩ "kfscp/1"
      "kfscp/latest" [⟨7, false⟩] [⟨9, false⟩] (fun n => if n = 9 then -28 else 0) = r ∧
    r.Linked ∧ ¬ r.Complete ∧ Event.free ⟨9, false⟩ ∈ r.events ∧
      Event.io (.zombie ⟨9, false⟩) 0 ∉ r.events := by
  refine ⟨_, rfl, ⟨"kfscp/1", "kfscp/latest", by decide⟩, fun h => ?_, by decide, by decide⟩
  have := h _ _ (by decide : Event.io (.zombie ⟨9, false⟩) (-28) ∈ _) (by simp)
  omega

end KosmosFs
