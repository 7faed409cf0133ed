import Mathlib.Data.Nat.Digits
import KosmosFs.Meta.Parse

/-! # The operation log

Each mutation's `log` method writes its opcode and `key/value` pairs, separated by `/`, and a
line break. Replay is not in the source tree; a line is cut at its `/`s, as replay has to.
-/

namespace KosmosFs.Request

/-! ## Decimal numbers -/

/-- The value of a decimal digit. -/
def digitValue (c : Char) : Nat := c.toNat - '0'.toNat

/-- The number a run of decimal digits spells, most significant first, read onto `acc`. -/
def readDigits (acc : Nat) : List Char → Nat
  | [] => acc
  | c :: cs => readDigits (10 * acc + digitValue c) cs

/-- A decimal natural number: one digit or more. -/
def readNat (ds : List Char) : Option Nat :=
  if ds ≠ [] ∧ ds.all Char.isDigit then some (readDigits 0 ds) else none

/-- A decimal integer as `operator<<` writes one: an optional `-`, then digits. -/
def readInt (s : String) : Option Int :=
  match s.data with
  | '-' :: ds => (readNat ds).map fun n => -(n : Int)
  | ds => (readNat ds).map Int.ofNat

theorem readDigits_append (acc : Nat) (xs ys : List Char) :
    readDigits acc (xs ++ ys) = readDigits (readDigits acc xs) ys := by
  induction xs generalizing acc with
  | nil => rfl
  | cons c xs ih => exact ih _

theorem digitValue_digitChar : ∀ k < 10, digitValue (Nat.digitChar k) = k := by decide

theorem isDigit_digitChar : ∀ k < 10, (Nat.digitChar k).isDigit = true := by decide

theorem toDigitsCore_append (fuel n : Nat) (ds : List Char) (h : n < fuel) :
    Nat.toDigitsCore 10 fuel n ds = Nat.toDigitsCore 10 fuel n [] ++ ds := by
  induction fuel generalizing n ds with
  | zero => omega
  | succ f ih =>
    simp only [Nat.toDigitsCore]
    split_ifs with h0
    · rfl
    · rw [ih _ _ (by omega), ih _ [_] (by omega), List.append_assoc, List.singleton_append]

theorem toDigitsCore_succ {f n : Nat} (h : n < f + 1) :
    Nat.toDigitsCore 10 (f + 1) n [] =
      (if n / 10 = 0 then [] else Nat.toDigitsCore 10 f (n / 10) []) ++
        [Nat.digitChar (n % 10)] := by
  simp only [Nat.toDigitsCore]
  split_ifs with h0
  · rfl
  · exact toDigitsCore_append _ _ _ (by omega)

theorem toDigitsCore_spec : ∀ {f n : Nat}, n < f →
    Nat.toDigitsCore 10 f n [] ≠ [] ∧ (∀ c ∈ Nat.toDigitsCore 10 f n [], c.isDigit) ∧
      readDigits 0 (Nat.toDigitsCore 10 f n []) = n
  | 0, _, h => absurd h (Nat.not_lt_zero _)
  | f + 1, n, h => by
    have hd := isDigit_digitChar (n % 10) (Nat.mod_lt _ (by decide))
    have hv := digitValue_digitChar (n % 10) (Nat.mod_lt _ (by decide))
    rw [toDigitsCore_succ h]
    split_ifs with h0
    · rw [List.nil_append]
      refine ⟨List.cons_ne_nil _ _, fun c hc => by rw [List.mem_singleton.mp hc]; exact hd, ?_⟩
      show 10 * 0 + digitValue _ = n
      omega
    · obtain ⟨-, hds, hr⟩ := @toDigitsCore_spec f (n / 10) (by omega)
      refine ⟨List.append_ne_nil_of_right_ne_nil _ (List.cons_ne_nil _ _), fun c hc => ?_, ?_⟩
      · rcases List.mem_append.mp hc with hc | hc
        · exact hds c hc
        · rw [List.mem_singleton.mp hc]
          exact hd
      · rw [readDigits_append, hr]
        show 10 * (n / 10) + digitValue _ = n
        omega

theorem readNat_toDigits (n : Nat) : readNat (Nat.toDigits 10 n) = some n := by
  obtain ⟨hne, hd, hr⟩ := toDigitsCore_spec (Nat.lt_succ_self n)
  simp only [readNat, Nat.toDigits, List.all_eq_true]
  rw [if_pos ⟨hne, hd⟩, hr]

theorem toString_digits (i : Int) : ∀ c ∈ (toString i).data, c = '-' ∨ c.isDigit := by
  cases i with
  | ofNat m => exact fun c hc => .inr ((toDigitsCore_spec (Nat.lt_succ_self m)).2.1 c hc)
  | negSucc m =>
    intro c hc
    rcases List.mem_cons.mp hc with rfl | hc
    · exact .inl rfl
    · exact .inr ((toDigitsCore_spec (Nat.lt_succ_self (m + 1))).2.1 c hc)

theorem readInt_toString (i : Int) : readInt (toString i) = some i := by
  cases i with
  | ofNat m =>
    obtain ⟨hne, hd, -⟩ := toDigitsCore_spec (Nat.lt_succ_self m)
    show readInt ⟨Nat.toDigits 10 m⟩ = _
    unfold readInt
    split
    · rename_i ds hds
      have hm : '-' ∈ Nat.toDigits 10 m := by
        rw [show Nat.toDigits 10 m = '-' :: ds from hds]
        exact List.mem_cons_self _ _
      exact absurd (hd '-' hm) (by decide)
    · rw [readNat_toDigits]
      rfl
  | negSucc m =>
    show readInt ⟨'-' :: Nat.toDigits 10 (m + 1)⟩ = _
    simp only [readInt, readNat_toDigits]
    rfl

@[simp] theorem toString_inj {a b : Int} : toString a = toString b ↔ a = b :=
  ⟨fun h => Option.some.inj ((readInt_toString a).symm.trans (h ▸ readInt_toString b)),
    congrArg _⟩

theorem slash_not_mem_toString (i : Int) : '/' ∉ (toString i).data := fun h => by
  rcases toString_digits i '/' h with h | h <;> revert h <;> decide

/-! ## Log lines -/

/-- The fields a mutation's `log` writes. -/
inductive LogRecord
  | create (dir : Int) (name : String) (fid numReplicas : Int)
  | mkdir (dir : Int) (name : String) (fid : Int)
  | remove (dir : Int) (name : String)
  | rmdir (dir : Int) (name : String)
  | allocate (fid offset chunkId chunkVersion : Int)
  | truncate (fid offset : Int)
  | rename (dir : Int) (oldname newname : String)
  | chunkVersionInc (cvi : Int)
  deriving DecidableEq, Repr

/-- `Meta*::log`: the line appended to the log file; `numReplicas` is written as an `int`. -/
def LogRecord.log : LogRecord → String
  | .create dir name fid numReplicas =>
    "create/dir/" ++ toString dir ++ "/name/" ++ name ++ "/id/" ++ toString fid ++
      "/numReplicas/" ++ toString numReplicas ++ "\n"
  | .mkdir dir name fid =>
    "mkdir/dir/" ++ toString dir ++ "/name/" ++ name ++ "/id/" ++ toString fid ++ "\n"
  | .remove dir name => "remove/dir/" ++ toString dir ++ "/name/" ++ name ++ "\n"
  | .rmdir dir name => "rmdir/dir/" ++ toString dir ++ "/name/" ++ name ++ "\n"
  | .allocate fid offset chunkId chunkVersion =>
    "allocate/file/" ++ toString fid ++ "/offset/" ++ toString offset ++ "/chunkId/" ++
      toString chunkId ++ "/chunkVersion/" ++ toString chunkVersion ++ "\n"
  | .truncate fid offset =>
    "truncate/file/" ++ toString fid ++ "/offset/" ++ toString offset ++ "\n"
  | .rename dir oldname newname =>
    "rename/dir/" ++ toString dir ++ "/old/" ++ oldname ++ "/new/" ++ newname ++ "\n"
  | .chunkVersionInc cvi => "chunkVersionInc/" ++ toString cvi ++ "\n"

/-- The words and values `log` writes, in order, before they are joined by `/`. -/
def LogRecord.fields : LogRecord → List String
  | .create dir name fid numReplicas =>
    ["create", "dir", toString dir, "name", name, "id", toString fid, "numReplicas",
      toString numReplicas]
  | .mkdir dir name fid => ["mkdir", "dir", toString dir, "name", name, "id", toString fid]
  | .remove dir name => ["remove", "dir", toString dir, "name", name]
  | .rmdir dir name => ["rmdir", "dir", toString dir, "name", name]
  | .allocate fid offset chunkId chunkVersion =>
    ["allocate", "file", toString fid, "offset", toString offset, "chunkId", toString chunkId,
      "chunkVersion", toString chunkVersion]
  | .truncate fid offset => ["truncate", "file", toString fid, "offset", toString offset]
  | .rename dir oldname newname => ["rename", "dir", toString dir, "old", oldname, "new", newname]
  | .chunkVersionInc cvi => ["chunkVersionInc", toString cvi]

/-- The words `log` writes between its values. -/
def logKeys : List String :=
  ["create", "mkdir", "remove", "rmdir", "allocate", "truncate", "rename", "chunkVersionInc",
    "dir", "name", "id", "numReplicas", "file", "offset", "chunkId", "chunkVersion", "old", "new"]

/-- The pieces of a line between two `/`. -/
def cutFields (s : String) : List String := (s.data.splitOn '/').map String.mk

/-- Fields written with a `/` between each two. -/
def joinFields (fs : List String) : String := ⟨['/'].intercalate (fs.map String.data)⟩

theorem log_eq (r : LogRecord) : r.log = joinFields r.fields ++ "\n" := by
  cases r <;> simp [LogRecord.log, LogRecord.fields, joinFields, List.intercalate, String.ext_iff]

theorem fields_ne_nil (r : LogRecord) : r.fields ≠ [] := by
  cases r <;> simp [LogRecord.fields]

theorem splitOn_append_cons {α : Type} [DecidableEq α] (sep : α) (x y : List α) :
    (x ++ sep :: y).splitOn sep = x.splitOn sep ++ y.splitOn sep := by
  induction x with
  | nil => simp [List.splitOn]
  | cons c x ih =>
    simp only [List.splitOn] at ih ⊢
    simp only [List.cons_append, List.splitOnP_cons, ih]
    split_ifs
    · rfl
    · obtain ⟨p, ps, hp⟩ := List.exists_cons_of_ne_nil (List.splitOnP_ne_nil (· == sep) x)
      rw [hp]
      rfl

theorem cutFields_joinFields : ∀ {fs : List String}, fs ≠ [] →
    cutFields (joinFields fs) = fs.flatMap cutFields
  | [f], _ => by simp [joinFields, cutFields, List.intercalate]
  | f :: g :: fs, _ => by
    have := @cutFields_joinFields (g :: fs) (List.cons_ne_nil _ _)
    simp only [cutFields, joinFields, List.map_cons, List.intercalate, List.intersperse_cons_cons,
      List.flatten_cons] at this ⊢
    rw [List.singleton_append, splitOn_append_cons, List.map_append, this, List.flatMap_cons]
    rfl

theorem joinFields_cutFields (s : String) : joinFields (cutFields s) = s := by
  simp only [joinFields, cutFields, List.map_map]
  have : String.data ∘ String.mk = id := rfl
  rw [this, List.map_id, List.intercalate_splitOn]

theorem cutFields_inj {a b : String} : cutFields a = cutFields b ↔ a = b :=
  ⟨fun h => (joinFields_cutFields a).symm.trans (h ▸ joinFields_cutFields b), congrArg _⟩

theorem splitOn_of_not_mem {α : Type} [DecidableEq α] {sep : α} {x : List α} (h : sep ∉ x) :
    x.splitOn sep = [x] :=
  List.splitOnP_eq_single _ _ fun _ hc hs => h (beq_iff_eq.mp hs ▸ hc)

theorem cutFields_of_slash_not_mem {s : String} (h : '/' ∉ s.data) : cutFields s = [s] := by
  simp only [cutFields, splitOn_of_not_mem h]
  rfl

theorem cutFields_logKey : ∀ k ∈ logKeys, cutFields k = [k] := by decide

theorem cutFields_toString (i : Int) : cutFields (toString i) = [toString i] :=
  cutFields_of_slash_not_mem (slash_not_mem_toString i)

theorem cutFields_of_log_eq {r₁ r₂ : LogRecord} (h : r₁.log = r₂.log) :
    r₁.fields.flatMap cutFields = r₂.fields.flatMap cutFields := by
  rw [log_eq, log_eq, String.ext_iff, String.data_append, String.data_append] at h
  rw [← cutFields_joinFields (fields_ne_nil r₁), ← cutFields_joinFields (fields_ne_nil r₂),
    String.ext (List.append_cancel_right h)]

theorem head_flatMap_cutFields (r : LogRecord) :
    (r.fields.flatMap cutFields).head? = r.fields.head? := by
  cases r <;> simp (disch := decide) only [LogRecord.fields, List.flatMap_cons, cutFields_logKey,
    List.singleton_append, List.head?_cons]

/-! ## Which records a line determines -/

/-- The old name of a rename holds no `/`; every other record qualifies. -/
def LogRecord.OldNameOk : LogRecord → Prop
  | .rename _ oldname _ => '/' ∉ oldname.data
  | _ => True

/-- Two records with the same log line are the same record. -/
theorem log_injective {r₁ r₂ : LogRecord} (h₁ : r₁.OldNameOk) (h₂ : r₂.OldNameOk)
    (h : r₁.log = r₂.log) : r₁ = r₂ := by
  have hf := cutFields_of_log_eq h
  have hk := congrArg List.head? hf
  rw [head_flatMap_cutFields, head_flatMap_cutFields] at hk
  cases r₁ <;> cases r₂ <;> simp only [LogRecord.fields, List.head?_cons, Option.some.injEq,
      String.reduceEq] at hk <;>
    simp (disch := decide) only [LogRecord.fields, List.flatMap_cons, List.flatMap_nil,
      List.append_nil, cutFields_logKey, cutFields_toString, List.singleton_append,
      List.cons_append, List.nil_append, List.cons.injEq, toString_inj, cutFields_inj,
      String.reduceEq, false_and, true_and] at hf
  case create.create =>
    obtain ⟨rfl, hs⟩ := hf
    obtain ⟨hn, hs⟩ := List.append_inj' hs rfl
    simp only [cutFields_inj, List.cons.injEq, toString_inj, true_and, and_true] at hn hs
    rw [hn, hs.1, hs.2]
  case mkdir.mkdir =>
    obtain ⟨rfl, hs⟩ := hf
    obtain ⟨hn, hs⟩ := List.append_inj' hs rfl
    simp only [cutFields_inj, List.cons.injEq, toString_inj, true_and, and_true] at hn hs
    rw [hn, hs]
  case rename.rename =>
    simp only [LogRecord.OldNameOk] at h₁ h₂
    simp only [cutFields_of_slash_not_mem h₁, cutFields_of_slash_not_mem h₂,
      List.singleton_append, List.cons.injEq, cutFields_inj, true_and] at hf
    rw [hf.1, hf.2.1, hf.2.2]
  all_goals simp only [hf]

theorem log_injective_rename :
    (LogRecord.rename 2 "a" "b/new/c").OldNameOk ∧
      (LogRecord.rename 2 "a" "b/new/c").log = (LogRecord.rename 2 "a" "b/new/c").log ∧
      LogRecord.rename 2 "a" "b/new/c" = LogRecord.rename 2 "a" "b/new/c" :=
  have h : (LogRecord.rename 2 "a" "b/new/c").OldNameOk := by
    show '/' ∉ "a".data
    decide
  ⟨h, rfl, log_injective h h rfl⟩

/-- A `RENAME` of `oldname` in directory `2` to `newpath`. -/
def renameHeaders (oldname newpath : String) : Properties where
  intValue k := if k = "Parent File-handle" then some 2 else none
  strValue k := if k = "Old-name" then some oldname else if k = "New-path" then some newpath
    else none

theorem rename_log_collision :
    parseCommand "RENAME" (renameHeaders "a/new/b" "c") =
        some (.rename (-1) 2 "a/new/b" "c" false) ∧
      parseCommand "RENAME" (renameHeaders "a" "b/new/c") =
        some (.rename (-1) 2 "a" "b/new/c" false) ∧
      (LogRecord.rename 2 "a/new/b" "c").log = (LogRecord.rename 2 "a" "b/new/c").log ∧
      LogRecord.rename 2 "a/new/b" "c" ≠ LogRecord.rename 2 "a" "b/new/c" := by
  decide

/-! ## The log file -/

/-- The log file after the records `rs`, in the order the log writer made them durable: their
lines one after the other. -/
def logFile (rs : List LogRecord) : String := rs.foldr (fun r file => r.log ++ file) ""

theorem logFile_cons (r : LogRecord) (rs : List LogRecord) :
    (logFile (r :: rs)).data = (joinFields r.fields).data ++ '\n' :: (logFile rs).data := by
  simp [logFile, log_eq]

theorem not_mem_joinFields {c : Char} (hc : c ≠ '/') :
    ∀ {fs : List String}, (∀ f ∈ fs, c ∉ f.data) → c ∉ (joinFields fs).data
  | [], _ => by simp [joinFields, List.intercalate]
  | [f], h => by simpa [joinFields, List.intercalate] using h f (List.mem_singleton_self f)
  | f :: g :: fs, h => by
    have := @not_mem_joinFields c hc (g :: fs) fun x hx => h x (List.mem_cons_of_mem _ hx)
    simp only [joinFields, List.map_cons, List.intercalate, List.intersperse_cons_cons,
      List.flatten_cons] at this ⊢
    simp only [List.singleton_append, List.mem_append, List.mem_cons, not_or]
    exact ⟨h f (List.mem_cons_self _ _), hc, this⟩

theorem flatMap_cutFields {fs : List String} (h : ∀ f ∈ fs, '/' ∉ f.data) :
    fs.flatMap cutFields = fs := by
  induction fs with
  | nil => rfl
  | cons f fs ih =>
    rw [List.flatMap_cons, cutFields_of_slash_not_mem (h f (List.mem_cons_self _ _)),
      ih fun x hx => h x (List.mem_cons_of_mem _ hx), List.singleton_append]

theorem logFile_splitOn {rs : List LogRecord} (h : ∀ r ∈ rs, '\n' ∉ (joinFields r.fields).data) :
    (logFile rs).data.splitOn '\n' = rs.map (fun r => (joinFields r.fields).data) ++ [[]] := by
  induction rs with
  | nil => rfl
  | cons r rs ih =>
    rw [logFile_cons, splitOn_append_cons, splitOn_of_not_mem (h r (List.mem_cons_self _ _)),
      ih fun x hx => h x (List.mem_cons_of_mem _ hx)]
    rfl

/-- The log file cut at line breaks and `/`s gives back every record's fields, in order. -/
theorem logFile_fields {rs : List LogRecord}
    (h : ∀ r ∈ rs, ∀ f ∈ r.fields, '/' ∉ f.data ∧ '\n' ∉ f.data) :
    ((logFile rs).data.splitOn '\n').map (fun l => cutFields ⟨l⟩) =
      rs.map LogRecord.fields ++ [[""]] := by
  rw [logFile_splitOn fun r hr =>
    not_mem_joinFields (by decide) fun f hf => (h r hr f hf).2]
  simp only [List.map_append, List.map_map, List.map_cons, List.map_nil]
  congr 1
  refine List.map_congr_left fun r hr => ?_
  show cutFields (joinFields r.fields) = r.fields
  rw [cutFields_joinFields (fields_ne_nil r), flatMap_cutFields fun f hf => (h r hr f hf).1]

theorem logFile_fields_three :
    (∀ r ∈ [LogRecord.create 2 "a" 5 3, .chunkVersionInc 1, .rename 2 "a" "b"],
      ∀ f ∈ r.fields, '/' ∉ f.data ∧ '\n' ∉ f.data) ∧
    ((logFile [.create 2 "a" 5 3, .chunkVersionInc 1, .rename 2 "a" "b"]).data.splitOn '\n').map
        (fun l => cutFields ⟨l⟩) =
      [LogRecord.create 2 "a" 5 3, .chunkVersionInc 1, .rename 2 "a" "b"].map LogRecord.fields ++
        [[""]] :=
  have h : ∀ r ∈ [LogRecord.create 2 "a" 5 3, .chunkVersionInc 1, .rename 2 "a" "b"],
      ∀ f ∈ r.fields, '/' ∉ f.data ∧ '\n' ∉ f.data := by decide
  ⟨h, logFile_fields h⟩

end KosmosFs.Request
