import Mathlib.Data.List.Basic

/-! # Parsing client requests

`KFS::ParseCommand` loads the `header: value` lines of a request into a `Properties` table and
hands it to the command's parse handler.
-/

namespace KosmosFs.Request

/-- Modelled from its use in the parse handlers: the `Properties` table (declared in
`properties.h`, not in src/), by what `getValue` returns for a header: its number, read with a
numeric default, or its text, read with a string default. -/
structure Properties where
  intValue : String → Option Int
  strValue : String → Option String

/-- `prop.getValue(key, default)` with a numeric default. -/
def Properties.getInt (prop : Properties) (key : String) (default : Int) : Int :=
  (prop.intValue key).getD default

/-- `prop.getValue(key, default)` with a string default (`NULL` is `none`). -/
def Properties.getStr (prop : Properties) (key : String) (default : Option String) :
    Option String :=
  (prop.strValue key).orElse fun _ => default

/-- The conversion of an `int` to `int16_t`: two's complement, modulo `2^16`. -/
def toInt16 (v : Int) : Int := (BitVec.ofInt 16 v).toInt

/-- `NUM_REPLICAS_PER_FILE`. -/
def NUM_REPLICAS_PER_FILE : Int := 3

/-- The requests the parse handlers build, with the fields they set. -/
inductive MetaRequest
  | lookup (seq dir : Int) (name : String)
  | lookupPath (seq root : Int) (path : String)
  | create (seq dir : Int) (name : String) (numReplicas : Int)
  | mkdir (seq dir : Int) (name : String)
  | remove (seq dir : Int) (name : String)
  | rmdir (seq dir : Int) (name : String)
  | readdir (seq dir : Int)
  | getalloc (seq fid offset : Int)
  | getlayout (seq fid : Int)
  | allocate (seq fid offset : Int)
  | truncate (seq fid offset : Int)
  | rename (seq dir : Int) (oldname newpath : String) (overwrite : Bool)
  | leaseAcquire (seq chunkId : Int)
  | leaseRenew (seq : Int) (writeLease : Bool) (chunkId leaseId : Int)
  | ping (seq : Int)
  | stats (seq : Int)
  deriving DecidableEq, Repr

/-- What the name-taking handlers share: `Cseq`, a handle under `dirKey` that must not be
negative, and a name under `nameKey` that must be present. -/
def parseDirEntry (prop : Properties) (dirKey nameKey : String) : Option (Int × Int × String) :=
  let seq := prop.getInt "Cseq" (-1)
  let dir := prop.getInt dirKey (-1)
  if dir < 0 then none
  else (prop.getStr nameKey none).map fun name => (seq, dir, name)

/-- What the chunk handlers share: `Cseq`, a file handle and an offset under `offsetKey`, neither
negative. -/
def parseFileOffset (prop : Properties) (offsetKey : String) : Option (Int × Int × Int) :=
  let seq := prop.getInt "Cseq" (-1)
  let fid := prop.getInt "File-handle" (-1)
  let offset := prop.getInt offsetKey (-1)
  if fid < 0 ∨ offset < 0 then none else some (seq, fid, offset)

/-- What the handle-only handlers share: `Cseq` and a handle under `key`, not negative. -/
def parseHandle (prop : Properties) (key : String) : Option (Int × Int) :=
  let seq := prop.getInt "Cseq" (-1)
  let fid := prop.getInt key (-1)
  if fid < 0 then none else some (seq, fid)

/-- `parseHandlerLookup`. -/
def parseHandlerLookup (prop : Properties) : Option MetaRequest :=
  (parseDirEntry prop "Parent File-handle" "Filename").map fun (seq, dir, name) =>
    .lookup seq dir name

/-- `parseHandlerLookupPath`. -/
def parseHandlerLookupPath (prop : Properties) : Option MetaRequest :=
  (parseDirEntry prop "Root File-handle" "Pathname").map fun (seq, root, path) =>
    .lookupPath seq root path

/-- `parseHandlerCreate`: the replica count is read as an `int`, narrowed to `int16_t`,
rejected when zero and capped at `NUM_REPLICAS_PER_FILE`. -/
def parseHandlerCreate (prop : Properties) : Option MetaRequest :=
  (parseDirEntry prop "Parent File-handle" "Filename").bind fun (seq, dir, name) =>
    let numReplicas := toInt16 (prop.getInt "Num-replicas" 1)
    if numReplicas = 0 then none
    else some (.create seq dir name
      (if numReplicas > NUM_REPLICAS_PER_FILE then NUM_REPLICAS_PER_FILE else numReplicas))

/-- `parseHandlerRemove`. -/
def parseHandlerRemove (prop : Properties) : Option MetaRequest :=
  (parseDirEntry prop "Parent File-handle" "Filename").map fun (seq, dir, name) =>
    .remove seq dir name

/-- `parseHandlerMkdir`. -/
def parseHandlerMkdir (prop : Properties) : Option MetaRequest :=
  (parseDirEntry prop "Parent File-handle" "Directory").map fun (seq, dir, name) =>
    .mkdir seq dir name

/-- `parseHandlerRmdir`. -/
def parseHandlerRmdir (prop : Properties) : Option MetaRequest :=
  (parseDirEntry prop "Parent File-handle" "Directory").map fun (seq, dir, name) =>
    .rmdir seq dir name

/-- `parseHandlerReaddir`. -/
def parseHandlerReaddir (prop : Properties) : Option MetaRequest :=
  (parseHandle prop "Directory File-handle").map fun (seq, dir) => .readdir seq dir

/-- `parseHandlerGetalloc`. -/
def parseHandlerGetalloc (prop : Properties) : Option MetaRequest :=
  (parseFileOffset prop "Chunk-offset").map fun (seq, fid, offset) => .getalloc seq fid offset

/-- `parseHandlerGetlayout`. -/
def parseHandlerGetlayout (prop : Properties) : Option MetaRequest :=
  (parseHandle prop "File-handle").map fun (seq, fid) => .getlayout seq fid

/-- `parseHandlerAllocate`. -/
def parseHandlerAllocate (prop : Properties) : Option MetaRequest :=
  (parseFileOffset prop "Chunk-offset").map fun (seq, fid, offset) => .allocate seq fid offset

/-- `parseHandlerTruncate`. -/
def parseHandlerTruncate (prop : Properties) : Option MetaRequest :=
  (parseFileOffset prop "Offset").map fun (seq, fid, offset) => .truncate seq fid offset

/-- `parseHandlerRename`: both names must be present; `Overwrite` counts only when it is `1`. -/
def parseHandlerRename (prop : Properties) : Option MetaRequest :=
  let seq := prop.getInt "Cseq" (-1)
  let fid := prop.getInt "Parent File-handle" (-1)
  let overwrite := prop.getInt "Overwrite" 0 = 1
  match prop.getStr "Old-name" none, prop.getStr "New-path" none with
  | some oldname, some newpath =>
    if fid < 0 then none else some (.rename seq fid oldname newpath overwrite)
  | _, _ => none

/-- `parseHandlerLeaseAcquire`. -/
def parseHandlerLeaseAcquire (prop : Properties) : Option MetaRequest :=
  some (.leaseAcquire (prop.getInt "Cseq" (-1)) (prop.getInt "Chunk-handle" (-1)))

/-- `parseHandlerLeaseRenew`: a write lease only when `Lease-type` says `WRITE_LEASE`. -/
def parseHandlerLeaseRenew (prop : Properties) : Option MetaRequest :=
  some (.leaseRenew (prop.getInt "Cseq" (-1))
    (prop.getStr "Lease-type" (some "READ_LEASE") = some "WRITE_LEASE")
    (prop.getInt "Chunk-handle" (-1)) (prop.getInt "Lease-id" (-1)))

/-- `parseHandlerPing`. -/
def parseHandlerPing (prop : Properties) : Option MetaRequest :=
  some (.ping (prop.getInt "Cseq" (-1)))

/-- `parseHandlerStats`. -/
def parseHandlerStats (prop : Properties) : Option MetaRequest :=
  some (.stats (prop.getInt "Cseq" (-1)))

/-- `gParseHandlers`, as `setup_handlers` fills it, without `HELLO`. -/
def parseHandlers : List (String × (Properties → Option MetaRequest)) :=
  [("LOOKUP", parseHandlerLookup), ("LOOKUP_PATH", parseHandlerLookupPath),
    ("CREATE", parseHandlerCreate), ("MKDIR", parseHandlerMkdir),
    ("REMOVE", parseHandlerRemove), ("RMDIR", parseHandlerRmdir),
    ("READDIR", parseHandlerReaddir), ("GETALLOC", parseHandlerGetalloc),
    ("GETLAYOUT", parseHandlerGetlayout), ("ALLOCATE", parseHandlerAllocate),
    ("TRUNCATE", parseHandlerTruncate), ("RENAME", parseHandlerRename),
    ("LEASE_ACQUIRE", parseHandlerLeaseAcquire), ("LEASE_RENEW", parseHandlerLeaseRenew),
    ("PING", parseHandlerPing), ("STATS", parseHandlerStats)]

/-- `KFS::ParseCommand`, on the command word and the header table `loadProperties` builds
from the rest of the request; an unknown command is rejected. -/
def parseCommand (cmd : String) (prop : Properties) : Option MetaRequest :=
  match parseHandlers.lookup cmd with
  | some handler => handler prop
  | none => none

/-! ## What the handlers accept -/

/-- The handles a request carries that its parse handler checks: none of them is negative. -/
def MetaRequest.HandlesOk : MetaRequest → Prop
  | .lookup _ dir _ | .create _ dir _ _ | .mkdir _ dir _ | .remove _ dir _ | .rmdir _ dir _
  | .readdir _ dir | .getlayout _ dir | .lookupPath _ dir _ | .rename _ dir _ _ _ => 0 ≤ dir
  | .getalloc _ fid offset | .allocate _ fid offset | .truncate _ fid offset =>
    0 ≤ fid ∧ 0 ≤ offset
  | .leaseAcquire _ _ | .leaseRenew _ _ _ _ | .ping _ | .stats _ => True

section Accept

variable {prop : Properties} {k k' : String} {seq dir fid offset : Int} {name : String}
  {r : MetaRequest}

theorem parseDirEntry_dir (h : parseDirEntry prop k k' = some (seq, dir, name)) : 0 ≤ dir := by
  unfold parseDirEntry at h
  dsimp only at h
  split_ifs at h with hd
  obtain ⟨_, -, he⟩ := Option.map_eq_some'.mp h
  cases he
  omega

theorem parseFileOffset_nonneg (h : parseFileOffset prop k = some (seq, fid, offset)) :
    0 ≤ fid ∧ 0 ≤ offset := by
  unfold parseFileOffset at h
  dsimp only at h
  split_ifs at h with hd
  cases h
  omega

theorem parseHandle_nonneg (h : parseHandle prop k = some (seq, fid)) : 0 ≤ fid := by
  unfold parseHandle at h
  dsimp only at h
  split_ifs at h with hd
  cases h
  omega

theorem toInt16_bounds (v : Int) : -32768 ≤ toInt16 v ∧ toInt16 v ≤ 32767 := by
  have h₁ : -((2 ^ 16 : Nat) / 2 : Int) ≤ v.bmod (2 ^ 16) := Int.le_bmod (by decide)
  have h₂ : v.bmod (2 ^ 16) < ((2 ^ 16 : Nat) + 1) / 2 := Int.bmod_lt (by decide)
  simp only [toInt16, BitVec.toInt_ofInt]
  omega

theorem parseHandlerCreate_eq (h : parseHandlerCreate prop = some r) :
    ∃ seq dir name, parseDirEntry prop "Parent File-handle" "Filename" = some (seq, dir, name) ∧
      toInt16 (prop.getInt "Num-replicas" 1) ≠ 0 ∧
      r = .create seq dir name
        (min (toInt16 (prop.getInt "Num-replicas" 1)) NUM_REPLICAS_PER_FILE) := by
  obtain ⟨⟨seq, dir, name⟩, he, hc⟩ := Option.bind_eq_some.mp h
  dsimp only at hc
  split_ifs at hc with h0 hgt <;> cases hc <;> exact ⟨seq, dir, name, he, h0, by congr 1; omega⟩

theorem parseHandlerRename_dir (h : parseHandlerRename prop = some r) : r.HandlesOk := by
  unfold parseHandlerRename at h
  dsimp only at h
  split at h
  · split_ifs at h with hd
    cases h
    exact Int.not_lt.mp hd
  · cases h

theorem lookup_mem {β : Type} {l : List (String × β)} {a : String} {b : β}
    (h : l.lookup a = some b) : (a, b) ∈ l := by
  induction l with
  | nil => cases h
  | cons p l ih =>
    obtain ⟨k, v⟩ := p
    change (match a == k with | true => some v | false => l.lookup a) = some b at h
    cases hk : a == k <;> rw [hk] at h
    · exact List.mem_cons_of_mem _ (ih h)
    · cases h
      rw [beq_iff_eq.mp hk]
      exact List.mem_cons_self _ _

theorem parseCommand_handlesOk {cmd : String}
    (h : parseCommand cmd prop = some r) : r.HandlesOk := by
  unfold parseCommand at h
  split at h
  case h_2 => cases h
  rename_i handler hl
  have hm := List.mem_map_of_mem Prod.snd (lookup_mem hl)
  simp only [parseHandlers, List.map_cons, List.map_nil, List.mem_cons, List.mem_singleton,
    List.not_mem_nil, or_false] at hm
  -- one of the three shared shapes, `parseHandlerCreate`, `parseHandlerRename`, or no handle
  rcases hm with rfl | rfl | rfl | rfl | rfl | rfl | rfl | rfl | rfl | rfl | rfl | rfl | rfl |
    rfl | rfl | rfl
  all_goals first
    | obtain ⟨⟨_, _, _⟩, he, rfl⟩ := Option.map_eq_some'.mp h; exact parseDirEntry_dir he
    | obtain ⟨⟨_, _⟩, he, rfl⟩ := Option.map_eq_some'.mp h; exact parseHandle_nonneg he
    | obtain ⟨⟨_, _, _⟩, he, rfl⟩ := Option.map_eq_some'.mp h; exact parseFileOffset_nonneg he
    | obtain ⟨_, dir, _, he, -, rfl⟩ := parseHandlerCreate_eq h; exact parseDirEntry_dir he
    | exact parseHandlerRename_dir h
    | cases h; trivial

theorem parseCommand_create_numReplicas {n : Int}
    (h : parseCommand "CREATE" prop = some (.create seq dir name n)) :
    n = min (toInt16 (prop.getInt "Num-replicas" 1)) NUM_REPLICAS_PER_FILE ∧ n ≠ 0 ∧
      -32768 ≤ n ∧ n ≤ NUM_REPLICAS_PER_FILE := by
  obtain ⟨_, _, _, -, h0, hr⟩ := parseHandlerCreate_eq h
  cases hr
  have := toInt16_bounds (prop.getInt "Num-replicas" 1)
  refine ⟨rfl, ?_⟩
  simp only [NUM_REPLICAS_PER_FILE, Int.min_def]
  split_ifs <;> omega

/-- A `CREATE` of `f` in directory `2` whose `Num-replicas` header is `n`. -/
def createHeaders (n : Int) : Properties where
  intValue k := if k = "Parent File-handle" then some 2 else if k = "Num-replicas" then some n
    else none
  strValue k := if k = "Filename" then some "f" else none

theorem parseCommand_create_negative_replicas :
    parseCommand "CREATE" (createHeaders (-1)) = some (.create (-1) 2 "f" (-1)) ∧
      parseCommand "CREATE" (createHeaders 65535) = some (.create (-1) 2 "f" (-1)) := by
  decide

end Accept

end KosmosFs.Request
