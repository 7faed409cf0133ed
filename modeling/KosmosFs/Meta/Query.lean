import KosmosFs.Meta.Response

/-! # Directory, allocation and layout queries

`handle_readdir`, `handle_getalloc`, `handle_getlayout` and `MetaGetalloc::response`. `Tree`
gives the answers of the metadata tree and the layout manager.
-/

namespace KosmosFs.Request

/-- `ENOENT` on Linux. -/
def ENOENT : Int := 2

/-- `ENOTDIR` on Linux. -/
def ENOTDIR : Int := 20

/-- `EHOSTUNREACH` on Linux. -/
def EHOSTUNREACH : Int := 113

/-- Modelled from its use: `MetaFattr::type`, `KFS_DIR` or another type (`meta.h` is not in
src/). -/
inductive FileType
  | file
  | dir
  deriving DecidableEq, Repr

/-- The fields of a `MetaChunkInfo` the queries read. -/
structure ChunkInfo where
  offset : Int
  chunkId : Int
  chunkVersion : Int
  deriving DecidableEq, Repr

/-- The answers of the tree and the layout manager: the type of the file `metatree.getFattr`
finds, `metatree.readdir` (its status, and the names `v` holds after the call, from those it held
before), the two `metatree.getalloc` (for one offset, and for the whole file: a status and the
chunks), and `GetChunkToServerMapping(chunkId, c)`: its status, and the servers `c` holds after
the call, from those it held before. -/
structure Tree where
  getFattr : Int → Option FileType
  readdir : Int → List String → Int × List String
  getalloc : Int → Int → Int × ChunkInfo
  getallocFile : Int → Int × List ChunkInfo
  getChunkToServerMapping : Int → List String → Int × List String

/-- `file_exists(fid)`. -/
def fileExists (t : Tree) (fid : Int) : Bool := (t.getFattr fid).isSome

/-- `is_dir(fid)`. -/
def isDir (t : Tree) (fid : Int) : Bool :=
  match t.getFattr fid with
  | some fa => fa == .dir
  | none => false

/-- Whether the layout manager maps a chunk to servers. -/
def Tree.Mapped (t : Tree) (ci : ChunkInfo) : Prop :=
  (t.getChunkToServerMapping ci.chunkId []).1 = 0

/-- A tree with a root directory of one file, and one file of two chunks, each held by one
server. -/
def oneServer : Tree where
  getFattr fid := if fid = ROOTFID then some .dir else some .file
  readdir _ v := (0, v ++ ["/", "a"])
  getalloc _ _ := (0, ⟨0, 7, 1⟩)
  getallocFile _ := (0, [⟨0, 7, 1⟩, ⟨67108864, 8, 1⟩])
  getChunkToServerMapping _ _ := (0, ["host 20000"])

/-! ## `READDIR` -/

/-- The fields of `MetaReaddir` the handler and the reply read and write; `v` holds the
entries' names. -/
structure MetaReaddir where
  dir : Int
  status : Int := 0
  v : List String := []
  deriving DecidableEq, Repr

/-- `handle_readdir`. -/
def handleReaddir (t : Tree) (req : MetaReaddir) : MetaReaddir :=
  if !fileExists t req.dir then { req with status := - ENOENT }
  else if !isDir t req.dir then { req with status := - ENOTDIR }
  else { req with status := (t.readdir req.dir req.v).1, v := (t.readdir req.dir req.v).2 }

/-- `MetaReaddir::response`, as the reply it writes. -/
def MetaReaddir.reply (opSeqno : Int) (r : MetaReaddir) : Reply :=
  .readdir opSeqno r.status r.dir r.v

theorem fileExists_of_isDir {t : Tree} {fid : Int} (h : isDir t fid) : fileExists t fid := by
  unfold isDir at h
  unfold fileExists
  split at h <;> simp_all

theorem handleReaddir_status {t : Tree} (req : MetaReaddir) :
    0 ≤ (handleReaddir t req).status ↔ isDir t req.dir ∧ 0 ≤ (t.readdir req.dir req.v).1 := by
  unfold handleReaddir
  by_cases hd : isDir t req.dir
  · simp [hd, fileExists_of_isDir hd]
  · by_cases hf : fileExists t req.dir <;> simp [hd, hf, ENOENT, ENOTDIR]

theorem numEntries_mem_readdir (opSeqno status dir : Int) (entries : List String) :
    (∃ n, ("Num-Entries", n) ∈ (Reply.readdir opSeqno status dir entries).toMessage.headers) ↔
      0 ≤ status := by
  refine ⟨fun ⟨n, hn⟩ => ?_, fun hs => ⟨_, readdir_numEntries hs⟩⟩
  by_contra hs
  simp [Reply.toMessage, lt_of_not_le hs, replyHeaders] at hn

/-- A `READDIR` reply lists the directory's names and counts them. -/
theorem readdir_reply (t : Tree) (req : MetaReaddir) (h₀ : req.v = [])
    (hn : ∀ name ∈ (t.readdir req.dir []).2, '\n' ∉ name.data) (opSeqno : Int)
    (more : List Char) :
    ∃ m, Message.decode (((handleReaddir t req).reply opSeqno).response.data ++ more) =
        some (m, more) ∧
      ((∃ n, ("Num-Entries", n) ∈ m.headers) ↔
        isDir t req.dir ∧ 0 ≤ (t.readdir req.dir []).1) ∧
      (isDir t req.dir → 0 ≤ (t.readdir req.dir []).1 →
        ("Num-Entries", toString (listedNames req.dir (t.readdir req.dir []).2).length) ∈
            m.headers ∧
          m.body.data.splitOn '\n' =
            (listedNames req.dir (t.readdir req.dir []).2).map String.data ++ [[]]) := by
  refine ⟨_, (Reply.response_data _).symm ▸ decode_encode (Reply.wellFormed _) more, ?_, ?_⟩
  · rw [MetaReaddir.reply, numEntries_mem_readdir, handleReaddir_status, h₀]
  · intro hd hs
    have he : handleReaddir t req =
        { req with status := (t.readdir req.dir []).1, v := (t.readdir req.dir []).2 } := by
      simp [handleReaddir, hd, fileExists_of_isDir hd, h₀]
    rw [he, MetaReaddir.reply]
    exact ⟨readdir_numEntries hs, readdir_lines hn hs⟩

/-- A `READDIR` of the root directory, as the parser builds it. -/
def parsedReaddir : MetaReaddir := { dir := ROOTFID }

theorem readdir_reply_root :
    parsedReaddir.v = [] ∧
      (∀ name ∈ (oneServer.readdir parsedReaddir.dir []).2, '\n' ∉ name.data) ∧
      ∃ m, Message.decode (((handleReaddir oneServer parsedReaddir).reply 1).response.data ++
          []) = some (m, []) ∧
        ((∃ n, ("Num-Entries", n) ∈ m.headers) ↔
          isDir oneServer parsedReaddir.dir ∧ 0 ≤ (oneServer.readdir parsedReaddir.dir []).1) ∧
        (isDir oneServer parsedReaddir.dir → 0 ≤ (oneServer.readdir parsedReaddir.dir []).1 →
          ("Num-Entries", toString (listedNames parsedReaddir.dir
              (oneServer.readdir parsedReaddir.dir []).2).length) ∈ m.headers ∧
            m.body.data.splitOn '\n' = (listedNames parsedReaddir.dir
              (oneServer.readdir parsedReaddir.dir []).2).map String.data ++ [[]]) :=
  have hn : ∀ name ∈ (oneServer.readdir parsedReaddir.dir []).2, '\n' ∉ name.data := by decide
  ⟨rfl, hn, readdir_reply oneServer parsedReaddir rfl hn 1 []⟩

/-! ## `GETALLOC` -/

/-- The fields of `MetaGetalloc` the handler and the reply read and write; the defaults are
those of a request the parser builds. -/
structure MetaGetalloc where
  fid : Int
  offset : Int
  status : Int := 0
  chunkId : Int := 0
  chunkVersion : Int := 0
  locations : List String := []
  deriving DecidableEq, Repr

/-- The loop of `ListServerLocations`: a space before each server. -/
def replicasText (locations : List String) : String :=
  locations.foldl (fun s l => s ++ " " ++ l) ""

/-- `MetaGetalloc::response`, without its `assert(locations.size() > 0)`. -/
def MetaGetalloc.response (opSeqno : Int) (r : MetaGetalloc) : String :=
  responseHead opSeqno r.status ++
    if r.status < 0 then "\r\n"
    else
      "Chunk-handle: " ++ toString r.chunkId ++ "\r\n" ++
        "Chunk-version: " ++ toString r.chunkVersion ++ "\r\n" ++
        "Num-replicas: " ++ toString r.locations.length ++ "\r\n" ++
        "Replicas:" ++ replicasText r.locations ++ "\r\n\r\n"

/-- The headers a `GETALLOC` reply with a status of at least `0` writes before `Replicas`. -/
def getallocHeaders (opSeqno : Int) (r : MetaGetalloc) : List (String × String) :=
  replyHeaders opSeqno r.status ++ [("Chunk-handle", toString r.chunkId),
    ("Chunk-version", toString r.chunkVersion), ("Num-replicas", toString r.locations.length)]

theorem MetaGetalloc.response_data {opSeqno : Int} {r : MetaGetalloc} (hs : ¬ r.status < 0) :
    (r.response opSeqno).data = "OK".data ++ '\r' :: '\n' ::
      ((getallocHeaders opSeqno r).flatMap headerChars ++
        ("Replicas:".data ++ (replicasText r.locations).data ++ ['\r', '\n']) ++ ['\r', '\n']) := by
  simp [MetaGetalloc.response, hs, responseHead_data, getallocHeaders, headerChars]

section Getalloc

variable {opSeqno : Int} {r : MetaGetalloc}

end Getalloc

section Handler

variable {t : Tree} {req : MetaGetalloc}

end Handler

/-- `ChunkLayoutInfo`: a chunk of a file and its servers. -/
structure ChunkLayoutInfo where
  offset : Int
  chunkId : Int
  chunkVersion : Int
  locations : List String
  deriving DecidableEq, Repr

/-- The fields of `MetaGetlayout` the handler and the reply read and write. -/
structure MetaGetlayout where
  fid : Int
  status : Int := 0
  v : List ChunkLayoutInfo := []
  deriving DecidableEq, Repr

/-- The `for` loop of `handle_getlayout` over the chunks of the file, with the vector `c` that
every mapping call is given; the status and `v` it leaves. -/
def getlayoutLoop (t : Tree) :
    List ChunkInfo → List String → List ChunkLayoutInfo → Int × List ChunkLayoutInfo
  | [], _, v => (0, v)
  | ci :: cis, c, v =>
    if (t.getChunkToServerMapping ci.chunkId c).1 ≠ 0 then (- EHOSTUNREACH, v)
    else
      let c := (t.getChunkToServerMapping ci.chunkId c).2
      getlayoutLoop t cis c (v ++ [⟨ci.offset, ci.chunkId, ci.chunkVersion, c⟩])

/-- `handle_getlayout`: every chunk of the file, with the servers that hold it. -/
def handleGetlayout (t : Tree) (req : MetaGetlayout) : MetaGetlayout :=
  if !fileExists t req.fid then { req with status := - ENOENT }
  else if (t.getallocFile req.fid).1 ≠ 0 then { req with status := (t.getallocFile req.fid).1 }
  else
    { req with
      status := (getlayoutLoop t (t.getallocFile req.fid).2 [] req.v).1
      v := (getlayoutLoop t (t.getallocFile req.fid).2 [] req.v).2 }

/-- `MetaGetlayout::response`, as the reply it writes; `layoutText` is
`ChunkLayoutInfo::toString`. -/
def MetaGetlayout.reply (layoutText : ChunkLayoutInfo → String) (opSeqno : Int)
    (r : MetaGetlayout) : Reply :=
  .getlayout opSeqno r.status (r.v.map layoutText)

/-- Modelled from the spec (§4.4, `chunk_to_servers: chunk_id → [server]`): the mapping call
writes the chunk's servers into `c`, whatever `c` held. -/
def Tree.Overwrites (t : Tree) : Prop :=
  ∀ chunkId c, t.getChunkToServerMapping chunkId c = t.getChunkToServerMapping chunkId []

/-- The layout of a chunk with the servers the layout manager maps it to. -/
def layoutOf (t : Tree) (ci : ChunkInfo) : ChunkLayoutInfo :=
  ⟨ci.offset, ci.chunkId, ci.chunkVersion, (t.getChunkToServerMapping ci.chunkId []).2⟩

section Getlayout

variable {t : Tree}

theorem getlayoutLoop_mapped (ho : t.Overwrites) :
    ∀ (cis : List ChunkInfo) (c : List String) (v : List ChunkLayoutInfo),
      (∀ ci ∈ cis, t.Mapped ci) → getlayoutLoop t cis c v = (0, v ++ cis.map (layoutOf t))
  | [], _, v, _ => by simp [getlayoutLoop]
  | ci :: cis, c, v, h => by
    have hc : (t.getChunkToServerMapping ci.chunkId []).1 = 0 := h ci (List.mem_cons_self _ _)
    rw [getlayoutLoop, ho, if_neg (not_not.mpr hc),
      getlayoutLoop_mapped ho cis _ _ (fun ci' hm => h ci' (List.mem_cons_of_mem _ hm))]
    simp [layoutOf]

theorem getlayoutLoop_unmapped (ho : t.Overwrites) :
    ∀ (cis : List ChunkInfo) (c : List String) (v : List ChunkLayoutInfo),
      (∃ ci ∈ cis, ¬ t.Mapped ci) → (getlayoutLoop t cis c v).1 = - EHOSTUNREACH
  | [], _, _, ⟨_, hm, _⟩ => by cases hm
  | ci :: cis, c, v, ⟨ci', hm, hn⟩ => by
    rw [getlayoutLoop, ho]
    split_ifs with hc
    · rfl
    · rcases List.mem_cons.mp hm with rfl | hm
      · exact absurd (not_not.mp hc) hn
      · exact getlayoutLoop_unmapped ho cis _ _ ⟨ci', hm, hn⟩

theorem handleGetlayout_status (ho : t.Overwrites) (req : MetaGetlayout) :
    (handleGetlayout t req).status = 0 ↔ fileExists t req.fid ∧
      (t.getallocFile req.fid).1 = 0 ∧ ∀ ci ∈ (t.getallocFile req.fid).2, t.Mapped ci := by
  unfold handleGetlayout
  by_cases hf : fileExists t req.fid
  · by_cases hs : (t.getallocFile req.fid).1 = 0
    · by_cases hm : ∀ ci ∈ (t.getallocFile req.fid).2, t.Mapped ci
      · simpa [hf, hs, getlayoutLoop_mapped ho _ _ _ hm] using hm
      · have hu := getlayoutLoop_unmapped ho _ [] req.v (by simpa using hm)
        simp [hf, hs, hm, hu, EHOSTUNREACH]
    · simp [hf, hs]
  · simp [hf, ENOENT]

theorem handleGetlayout_v (ho : t.Overwrites) (req : MetaGetlayout)
    (h : (handleGetlayout t req).status = 0) :
    (handleGetlayout t req).v = req.v ++ (t.getallocFile req.fid).2.map (layoutOf t) := by
  obtain ⟨hf, hs, hm⟩ := (handleGetlayout_status ho req).mp h
  simp [handleGetlayout, hf, hs, getlayoutLoop_mapped ho _ _ _ hm]

end Getlayout

theorem zero_eq_toString {i : Int} : "0" = toString i ↔ i = 0 := by
  rw [show "0" = toString (0 : Int) from rfl, toString_inj, eq_comm]

theorem status_zero_mem_getlayout (opSeqno status : Int) (layouts : List String) :
    ("Status", "0") ∈ (Reply.getlayout opSeqno status layouts).toMessage.headers ↔ status = 0 := by
  simp only [Reply.toMessage]
  split_ifs <;> simp [replyHeaders, zero_eq_toString]

/-- A `GETLAYOUT` reply counts the file's chunks and lists their layouts in order. -/
theorem getlayout_reply {t : Tree} (ho : t.Overwrites) (layoutText : ChunkLayoutInfo → String)
    (opSeqno : Int) (req : MetaGetlayout) (hv : req.v = []) (more : List Char) :
    ∃ m, Message.decode (((handleGetlayout t req).reply layoutText opSeqno).response.data ++
        more) = some (m, more) ∧
      (("Status", "0") ∈ m.headers ↔ fileExists t req.fid ∧ (t.getallocFile req.fid).1 = 0 ∧
        ∀ ci ∈ (t.getallocFile req.fid).2, t.Mapped ci) ∧
      (("Status", "0") ∈ m.headers →
        ("Num-chunks", toString (t.getallocFile req.fid).2.length) ∈ m.headers ∧
          m.body = getlayoutBody ((t.getallocFile req.fid).2.map
            fun ci => layoutText (layoutOf t ci))) := by
  refine ⟨_, (Reply.response_data _).symm ▸ decode_encode (Reply.wellFormed _) more, ?_, ?_⟩
  · rw [MetaGetlayout.reply, status_zero_mem_getlayout, handleGetlayout_status ho]
  · rw [MetaGetlayout.reply, status_zero_mem_getlayout]
    intro h
    simp only [Reply.toMessage, h, lt_irrefl, if_false, handleGetlayout_v ho req h, hv,
      List.nil_append, List.map_map, List.length_map]
    exact ⟨List.mem_append_right _ (List.mem_cons_self _ _), rfl⟩

/-- A `GETLAYOUT` as the parser builds it. -/
def parsedGetlayout : MetaGetlayout := { fid := 5 }

/-- A stand-in for `ChunkLayoutInfo::toString`: the chunk id. -/
def chunkIdText (l : ChunkLayoutInfo) : String := toString l.chunkId

theorem getlayout_reply_oneServer :
    oneServer.Overwrites ∧ parsedGetlayout.v = [] ∧
      ∃ m, Message.decode (((handleGetlayout oneServer parsedGetlayout).reply chunkIdText
          1).response.data ++ []) = some (m, []) ∧
        (("Status", "0") ∈ m.headers ↔ fileExists oneServer parsedGetlayout.fid ∧
          (oneServer.getallocFile parsedGetlayout.fid).1 = 0 ∧
          ∀ ci ∈ (oneServer.getallocFile parsedGetlayout.fid).2, oneServer.Mapped ci) ∧
        (("Status", "0") ∈ m.headers →
          ("Num-chunks", toString (oneServer.getallocFile parsedGetlayout.fid).2.length) ∈
              m.headers ∧
            m.body = getlayoutBody ((oneServer.getallocFile parsedGetlayout.fid).2.map
              fun ci => chunkIdText (layoutOf oneServer ci))) :=
  have ho : oneServer.Overwrites := fun _ _ => rfl
  ⟨ho, rfl, getlayout_reply ho chunkIdText 1 parsedGetlayout rfl []⟩

end KosmosFs.Request
