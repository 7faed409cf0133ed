import KosmosFs.Meta.OpLog

/-! # Replies and chunkserver requests on the wire

`Meta*::response` and `MetaChunk*::request` write a first line, `Key: value` headers, a blank
line and a body of `Content-length` bytes; `Message.decode` reads one message off a stream.
-/

namespace KosmosFs.Request

/-! ## Messages -/

/-- A message of the protocol: its first line, its header lines and its body. -/
structure Message where
  first : String
  headers : List (String × String)
  body : String
  deriving DecidableEq, Repr

/-- A header line: `key: value` and a line break. -/
def headerChars (kv : String × String) : List Char :=
  kv.1.data ++ ':' :: ' ' :: kv.2.data ++ ['\r', '\n']

/-- A message as it goes on the stream. -/
def Message.encode (m : Message) : List Char :=
  m.first.data ++ '\r' :: '\n' :: (m.headers.flatMap headerChars ++ '\r' :: '\n' :: m.body.data)

/-! ## Reading a message -/

/-- Modelled from the spec (§4.8): the text up to the first line break, and what follows it. -/
def takeLine : List Char → Option (List Char × List Char)
  | [] => none
  | c :: rest =>
    if c = '\r' ∧ rest.head? = some '\n' then some ([], rest.drop 1)
    else (takeLine rest).map fun p => (c :: p.1, p.2)

/-- Modelled from the spec (§4.8): a header line cut at its first `: `. -/
def splitHeader : List Char → Option (List Char × List Char)
  | [] => none
  | c :: rest =>
    if c = ':' then (if rest.head? = some ' ' then some ([], rest.drop 1) else none)
    else (splitHeader rest).map fun p => (c :: p.1, p.2)

/-- Modelled from the spec (§4.8): the header lines up to the blank line, and what follows it;
`fuel` bounds the number of lines. -/
def readHeaders : Nat → List Char → Option (List (String × String) × List Char)
  | 0, _ => none
  | fuel + 1, input => do
    let (line, rest) ← takeLine input
    if line = [] then return ([], rest)
    let (k, v) ← splitHeader line
    let (hs, rest) ← readHeaders fuel rest
    return ((⟨k⟩, ⟨v⟩) :: hs, rest)

/-- The body length the headers announce: the number under `Content-length`, or none. -/
def contentLength (hs : List (String × String)) : Nat :=
  match hs.find? (·.1 == "Content-length") with
  | some kv => (readNat kv.2.data).getD 0
  | none => 0

/-- Modelled from the spec (§4.8): one message read off the front of a stream, and the rest of
the stream. -/
def Message.decode (s : List Char) : Option (Message × List Char) := do
  let (first, rest) ← takeLine s
  let (headers, rest) ← readHeaders rest.length rest
  let n := contentLength headers
  if n ≤ rest.length then some (⟨⟨first⟩, headers, ⟨rest.take n⟩⟩, rest.drop n)
  else none

/-- What a writer must keep for the message to be read back: no line break in the first line or
a header, no `:` in a key, and a body as long as `Content-length` says. -/
structure Message.WellFormed (m : Message) : Prop where
  first : '\r' ∉ m.first.data
  keys : ∀ kv ∈ m.headers, '\r' ∉ kv.1.data ∧ ':' ∉ kv.1.data
  values : ∀ kv ∈ m.headers, '\r' ∉ kv.2.data
  body : m.body.length = contentLength m.headers

theorem takeLine_append {l : List Char} (h : '\r' ∉ l) (r : List Char) :
    takeLine (l ++ '\r' :: '\n' :: r) = some (l, r) := by
  induction l with
  | nil => simp [takeLine]
  | cons c l ih =>
    have hc : c ≠ '\r' := fun hc => h (hc ▸ List.mem_cons_self _ _)
    simp [takeLine, hc, ih (fun hm => h (List.mem_cons_of_mem _ hm))]

theorem splitHeader_append {k : List Char} (h : ':' ∉ k) (v : List Char) :
    splitHeader (k ++ ':' :: ' ' :: v) = some (k, v) := by
  induction k with
  | nil => simp [splitHeader]
  | cons c k ih =>
    have hc : c ≠ ':' := fun hc => h (hc ▸ List.mem_cons_self _ _)
    simp [splitHeader, hc, ih (fun hm => h (List.mem_cons_of_mem _ hm))]

theorem readHeaders_header {kv : String × String} (hk : '\r' ∉ kv.1.data ∧ ':' ∉ kv.1.data)
    (hv : '\r' ∉ kv.2.data) (rest : List Char) (fuel : Nat) :
    readHeaders (fuel + 1) (headerChars kv ++ rest) =
      (readHeaders fuel rest).map fun p => (kv :: p.1, p.2) := by
  have hline : '\r' ∉ kv.1.data ++ ':' :: ' ' :: kv.2.data := by simp [hk.1, hv]
  have := takeLine_append hline rest
  simp only [headerChars, List.append_assoc, List.cons_append, List.singleton_append] at this ⊢
  rw [List.nil_append]
  simp only [readHeaders, this, splitHeader_append hk.2, bind, Option.bind]
  cases readHeaders fuel rest <;> simp

theorem readHeaders_append {hs : List (String × String)}
    (hk : ∀ kv ∈ hs, '\r' ∉ kv.1.data ∧ ':' ∉ kv.1.data)
    (hv : ∀ kv ∈ hs, '\r' ∉ kv.2.data) (rest : List Char) : ∀ fuel, hs.length < fuel →
    readHeaders fuel (hs.flatMap headerChars ++ '\r' :: '\n' :: rest) = some (hs, rest) := by
  induction hs with
  | nil =>
    rintro (_ | fuel) h
    · omega
    · simp [readHeaders, takeLine]
  | cons kv hs ih =>
    rintro (_ | fuel) h
    · omega
    · rw [List.flatMap_cons, List.append_assoc,
        readHeaders_header (hk kv (List.mem_cons_self _ _)) (hv kv (List.mem_cons_self _ _)),
        ih (fun kv' hm => hk kv' (List.mem_cons_of_mem _ hm))
          (fun kv' hm => hv kv' (List.mem_cons_of_mem _ hm)) fuel (by simp at h; omega)]
      rfl

theorem length_le_flatMap_headerChars (hs : List (String × String)) :
    hs.length ≤ (hs.flatMap headerChars).length := by
  induction hs with
  | nil => simp
  | cons kv hs ih =>
    have : 1 ≤ (headerChars kv).length := by
      simp only [headerChars, List.length_append, List.length_cons]
      omega
    rw [List.flatMap_cons, List.length_append, List.length_cons]
    omega

theorem decode_encode {m : Message} (h : m.WellFormed) (more : List Char) :
    Message.decode (m.encode ++ more) = some (m, more) := by
  have hl := length_le_flatMap_headerChars m.headers
  have hr := readHeaders_append h.keys h.values (m.body.data ++ more)
    (m.headers.flatMap headerChars ++ '\r' :: '\n' :: (m.body.data ++ more)).length
    (by simp only [List.length_append, List.length_cons]; omega)
  have hb : m.body.data.length = contentLength m.headers := h.body
  simp only [Message.encode, List.append_assoc, List.cons_append]
  simp only [Message.decode, takeLine_append h.first, Option.bind_eq_bind, Option.some_bind, hr]
  rw [← hb, if_pos (by simp), List.take_left, List.drop_left]

/-! ## Replies -/

/-- `ROOTFID`: the file id of `/`. -/
def ROOTFID : Int := 2

/-- The replies whose fields the source tree holds, with the fields their `response` prints;
a layout is the text `ChunkLayoutInfo::toString` writes for it. -/
inductive Reply
  | create (opSeqno status fid : Int)
  | mkdir (opSeqno status fid : Int)
  | remove (opSeqno status : Int)
  | rmdir (opSeqno status : Int)
  | readdir (opSeqno status dir : Int) (entries : List String)
  | getlayout (opSeqno status : Int) (layouts : List String)
  | rename (opSeqno status : Int)
  | leaseAcquire (opSeqno status leaseId : Int)
  | leaseRenew (opSeqno status : Int)
  | truncate (opSeqno status : Int)
  deriving DecidableEq, Repr

/-- `OK`, `Cseq` and `Status`: how every `response` starts. -/
def responseHead (opSeqno status : Int) : String :=
  "OK\r\n" ++ "Cseq: " ++ toString opSeqno ++ "\r\n" ++ "Status: " ++ toString status ++ "\r\n"

/-- The replies that print only their status (`MetaRemove`, `MetaRmdir`, `MetaRename`,
`MetaLeaseRenew`, `MetaTruncate`). -/
def statusResponse (opSeqno status : Int) : String := responseHead opSeqno status ++ "\r\n"

/-- The replies that print the new file id on success (`MetaCreate`, `MetaMkdir`). -/
def fidResponse (opSeqno status fid : Int) : String :=
  responseHead opSeqno status ++
    if status < 0 then "\r\n" else "File-handle: " ++ toString fid ++ "\r\n\r\n"

/-- One turn of the loop of `MetaReaddir::response`: `/` is skipped in the root directory,
every other name is added as a line and counted. -/
def readdirStep (dir : Int) (acc : String × Int) (name : String) : String × Int :=
  if dir = ROOTFID ∧ name = "/" then acc else (acc.1 ++ name ++ "\n", acc.2 + 1)

/-- The loop of `MetaReaddir::response`: `res` and `numEntries`. -/
def readdirBody (dir : Int) (entries : List String) : String × Int :=
  entries.foldl (readdirStep dir) ("", 0)

/-- The loop of `MetaGetlayout::response`: the layouts' texts, one after another. -/
def getlayoutBody (layouts : List String) : String :=
  layouts.foldl (fun res l => res ++ l) ""

/-- `Meta*::response`. -/
def Reply.response : Reply → String
  | .create opSeqno status fid => fidResponse opSeqno status fid
  | .mkdir opSeqno status fid => fidResponse opSeqno status fid
  | .remove opSeqno status => statusResponse opSeqno status
  | .rmdir opSeqno status => statusResponse opSeqno status
  | .readdir opSeqno status dir entries =>
    responseHead opSeqno status ++
      if status < 0 then "\r\n"
      else
        "Num-Entries: " ++ toString (readdirBody dir entries).2 ++ "\r\n" ++
          "Content-length: " ++ toString (readdirBody dir entries).1.length ++ "\r\n\r\n" ++
          (readdirBody dir entries).1
  | .getlayout opSeqno status layouts =>
    responseHead opSeqno status ++
      if status < 0 then "\r\n"
      else
        "Num-chunks: " ++ toString layouts.length ++ "\r\n" ++
          "Content-length: " ++ toString (getlayoutBody layouts).length ++ "\r\n\r\n" ++
          getlayoutBody layouts
  | .rename opSeqno status => statusResponse opSeqno status
  | .leaseAcquire opSeqno status leaseId =>
    responseHead opSeqno status ++
      (if status ≥ 0 then "Lease-id: " ++ toString leaseId ++ "\r\n" else "") ++ "\r\n"
  | .leaseRenew opSeqno status => statusResponse opSeqno status
  | .truncate opSeqno status => statusResponse opSeqno status

/-- The headers every reply starts with. -/
def replyHeaders (opSeqno status : Int) : List (String × String) :=
  [("Cseq", toString opSeqno), ("Status", toString status)]

/-- The message a reply is meant to carry. -/
def Reply.toMessage : Reply → Message
  | .create opSeqno status fid | .mkdir opSeqno status fid =>
    ⟨"OK", replyHeaders opSeqno status ++
      if status < 0 then [] else [("File-handle", toString fid)], ""⟩
  | .remove opSeqno status | .rmdir opSeqno status | .rename opSeqno status
  | .leaseRenew opSeqno status | .truncate opSeqno status =>
    ⟨"OK", replyHeaders opSeqno status, ""⟩
  | .readdir opSeqno status dir entries =>
    if status < 0 then ⟨"OK", replyHeaders opSeqno status, ""⟩
    else ⟨"OK", replyHeaders opSeqno status ++
      [("Num-Entries", toString (readdirBody dir entries).2),
        ("Content-length", toString (readdirBody dir entries).1.length)],
      (readdirBody dir entries).1⟩
  | .getlayout opSeqno status layouts =>
    if status < 0 then ⟨"OK", replyHeaders opSeqno status, ""⟩
    else ⟨"OK", replyHeaders opSeqno status ++
      [("Num-chunks", toString layouts.length),
        ("Content-length", toString (getlayoutBody layouts).length)], getlayoutBody layouts⟩
  | .leaseAcquire opSeqno status leaseId =>
    ⟨"OK", replyHeaders opSeqno status ++
      if status ≥ 0 then [("Lease-id", toString leaseId)] else [], ""⟩

theorem responseHead_data (opSeqno status : Int) :
    (responseHead opSeqno status).data =
      "OK".data ++ '\r' :: '\n' :: (replyHeaders opSeqno status).flatMap headerChars := by
  simp [responseHead, replyHeaders, headerChars]

theorem Reply.response_data (r : Reply) : r.response.data = r.toMessage.encode := by
  cases r <;> simp only [Reply.response, Reply.toMessage, fidResponse, statusResponse] <;>
    (try split_ifs) <;> simp [responseHead_data, Message.encode, headerChars]

theorem not_mem_toString {c : Char} (hc : c ≠ '-' ∧ c.isDigit = false) (i : Int) :
    c ∉ (toString i).data := fun h => by
  rcases toString_digits i c h with h | h
  · exact hc.1 h
  · rw [hc.2] at h
    cases h

theorem cr_not_mem_toString (i : Int) : '\r' ∉ (toString i).data := not_mem_toString (by decide) i

theorem cr_not_mem_toString_nat (n : Nat) : '\r' ∉ (toString n).data :=
  cr_not_mem_toString n

theorem readNat_toString (n : Nat) : readNat (toString n).data = some n := readNat_toDigits n

theorem wellFormed_reply (opSeqno status : Int) {hs : List (String × String)} {body : String}
    (hk : ∀ kv ∈ hs, '\r' ∉ kv.1.data ∧ ':' ∉ kv.1.data) (hv : ∀ kv ∈ hs, '\r' ∉ kv.2.data)
    (hb : body.length = contentLength hs) :
    (⟨"OK", replyHeaders opSeqno status ++ hs, body⟩ : Message).WellFormed where
  first := by simp
  keys := by simpa [replyHeaders] using hk
  values := by simpa [replyHeaders, cr_not_mem_toString] using hv
  body := by simpa [contentLength, replyHeaders] using hb

theorem Reply.wellFormed (r : Reply) : r.toMessage.WellFormed := by
  cases r <;> simp only [Reply.toMessage] <;> (try split_ifs) <;>
    (try rw [← List.append_nil (replyHeaders _ _)]) <;>
    exact wellFormed_reply _ _ (by simp) (by simp [cr_not_mem_toString, cr_not_mem_toString_nat])
      (by simp [contentLength, readNat_toString])

/-- Every reply is read back as the message it is meant to carry, whatever its fields. -/
theorem decode_response (r : Reply) (more : List Char) :
    Message.decode (r.response.data ++ more) = some (r.toMessage, more) := by
  rw [Reply.response_data]
  exact decode_encode r.wellFormed more

/-! ## Directory listings -/

/-- The names `MetaReaddir::response` lists: every entry's but `/` in the root directory. -/
def listedNames (dir : Int) (entries : List String) : List String :=
  entries.filter fun name => !(dir = ROOTFID ∧ name = "/")

theorem readdirBody_foldl (dir : Int) : ∀ (entries : List String) (acc : String × Int),
    (entries.foldl (readdirStep dir) acc).1.data =
        acc.1.data ++ (listedNames dir entries).flatMap (·.data ++ ['\n']) ∧
      (entries.foldl (readdirStep dir) acc).2 = acc.2 + (listedNames dir entries).length
  | [], acc => by simp [listedNames]
  | name :: entries, acc => by
    obtain ⟨h₁, h₂⟩ := readdirBody_foldl dir entries (readdirStep dir acc name)
    rw [List.foldl_cons, h₁, h₂]
    by_cases hs : dir = ROOTFID ∧ name = "/"
    · simp [readdirStep, listedNames, hs]
    · have hl : listedNames dir (name :: entries) = name :: listedNames dir entries :=
        List.filter_cons_of_pos (by simp only [hs, decide_False, Bool.not_false])
      rw [readdirStep, if_neg hs, hl]
      simp only [String.data_append, List.flatMap_cons, List.length_cons, List.append_assoc,
        Nat.cast_succ, true_and]
      omega

theorem splitOn_flatMap {α β : Type} [DecidableEq α] (sep : α) (f : β → List α) :
    ∀ (xs : List β), (∀ x ∈ xs, sep ∉ f x) →
      (xs.flatMap (f · ++ [sep])).splitOn sep = xs.map f ++ [[]]
  | [], _ => rfl
  | x :: xs, h => by
    rw [List.flatMap_cons, List.append_assoc, List.singleton_append, splitOn_append_cons,
      splitOn_flatMap sep f xs (fun y hy => h y (List.mem_cons_of_mem _ hy)),
      splitOn_of_not_mem (h x (List.mem_cons_self _ _))]
    rfl

theorem readdir_numEntries {opSeqno status dir : Int} {entries : List String}
    (hs : 0 ≤ status) :
    ("Num-Entries", toString (listedNames dir entries).length) ∈
      (Reply.readdir opSeqno status dir entries).toMessage.headers := by
  obtain ⟨-, hn⟩ := readdirBody_foldl dir entries ("", 0)
  simp only [Reply.toMessage, if_neg (not_lt.mpr hs), readdirBody, hn, zero_add]
  exact List.mem_append_right _ (List.mem_cons_self _ _)

theorem readdir_lines {opSeqno status dir : Int} {entries : List String}
    (h : ∀ name ∈ entries, '\n' ∉ name.data) (hs : 0 ≤ status) :
    (Reply.readdir opSeqno status dir entries).toMessage.body.data.splitOn '\n' =
      (listedNames dir entries).map String.data ++ [[]] := by
  obtain ⟨hb, -⟩ := readdirBody_foldl dir entries ("", 0)
  simp only [Reply.toMessage, if_neg (not_lt.mpr hs)]
  rw [readdirBody, hb, List.nil_append]
  exact splitOn_flatMap '\n' String.data _ fun name hm => h name (List.mem_filter.mp hm).1

/-- A `READDIR` body holds the names one a line, and `Num-Entries` counts them. -/
theorem readdir_listing {opSeqno status dir : Int} {entries : List String} (more : List Char)
    (h : ∀ name ∈ entries, '\n' ∉ name.data) (hs : 0 ≤ status) :
    ∃ m, Message.decode ((Reply.readdir opSeqno status dir entries).response.data ++ more) =
        some (m, more) ∧
      ("Num-Entries", toString (listedNames dir entries).length) ∈ m.headers ∧
      m.body.data.splitOn '\n' = (listedNames dir entries).map String.data ++ [[]] :=
  ⟨_, (Reply.response_data _).symm ▸ decode_encode (Reply.wellFormed _) more,
    readdir_numEntries hs, readdir_lines h hs⟩

theorem readdir_listing_root :
    ∃ m, Message.decode ((Reply.readdir 7 0 ROOTFID ["/", "a", "b"]).response.data ++ []) =
        some (m, []) ∧
      ("Num-Entries", toString (listedNames ROOTFID ["/", "a", "b"]).length) ∈ m.headers ∧
      m.body.data.splitOn '\n' = (listedNames ROOTFID ["/", "a", "b"]).map String.data ++ [[]] :=
  readdir_listing [] (by decide) (by decide)

/-! ## Requests to chunkservers -/

/-- The requests to chunkservers whose fields the source tree holds. -/
inductive ChunkRequest
  | delete (opSeqno chunkId : Int)
  | truncate (opSeqno chunkId chunkSize : Int)
  | heartbeat (opSeqno : Int)
  | staleNotify (opSeqno : Int) (staleChunkIds : List Int)
  | versChange (opSeqno fid chunkId chunkVersion : Int)
  deriving DecidableEq, Repr

/-- The command line, `Cseq` and `Version`: how every `request` starts. -/
def requestHead (name : String) (opSeqno : Int) : String :=
  name ++ " \r\n" ++ "Cseq: " ++ toString opSeqno ++ "\r\n" ++ "Version: KFS/1.0\r\n"

/-- The loop of `MetaChunkStaleNotify::request`: each id followed by a space. -/
def staleChunksBody (staleChunkIds : List Int) : String :=
  staleChunkIds.foldl (fun s id => s ++ toString id ++ " ") ""

/-- `MetaChunk*::request`. -/
def ChunkRequest.request : ChunkRequest → String
  | .delete opSeqno chunkId =>
    requestHead "DELETE" opSeqno ++ "Chunk-handle: " ++ toString chunkId ++ "\r\n\r\n"
  | .truncate opSeqno chunkId chunkSize =>
    requestHead "TRUNCATE" opSeqno ++ "Chunk-handle: " ++ toString chunkId ++ "\r\n" ++
      "Chunk-size: " ++ toString chunkSize ++ "\r\n\r\n"
  | .heartbeat opSeqno => requestHead "HEARTBEAT" opSeqno ++ "\r\n"
  | .staleNotify opSeqno staleChunkIds =>
    requestHead "STALE_CHUNKS" opSeqno ++ "Num-chunks: " ++ toString staleChunkIds.length ++
      "\r\n" ++ "Content-length: " ++ toString (staleChunksBody staleChunkIds).length ++
      "\r\n\r\n" ++ staleChunksBody staleChunkIds
  | .versChange opSeqno fid chunkId chunkVersion =>
    requestHead "CHUNK_VERS_CHANGE" opSeqno ++ "File-handle: " ++ toString fid ++ "\r\n" ++
      "Chunk-handle: " ++ toString chunkId ++ "\r\n" ++
      "Chunk-version: " ++ toString chunkVersion ++ "\r\n\r\n"

/-- The headers every request starts with. -/
def requestHeaders (opSeqno : Int) : List (String × String) :=
  [("Cseq", toString opSeqno), ("Version", "KFS/1.0")]

/-- The message a request is meant to carry. -/
def ChunkRequest.toMessage : ChunkRequest → Message
  | .delete opSeqno chunkId =>
    ⟨"DELETE ", requestHeaders opSeqno ++ [("Chunk-handle", toString chunkId)], ""⟩
  | .truncate opSeqno chunkId chunkSize =>
    ⟨"TRUNCATE ", requestHeaders opSeqno ++
      [("Chunk-handle", toString chunkId), ("Chunk-size", toString chunkSize)], ""⟩
  | .heartbeat opSeqno => ⟨"HEARTBEAT ", requestHeaders opSeqno, ""⟩
  | .staleNotify opSeqno staleChunkIds =>
    ⟨"STALE_CHUNKS ", requestHeaders opSeqno ++
      [("Num-chunks", toString staleChunkIds.length),
        ("Content-length", toString (staleChunksBody staleChunkIds).length)],
      staleChunksBody staleChunkIds⟩
  | .versChange opSeqno fid chunkId chunkVersion =>
    ⟨"CHUNK_VERS_CHANGE ", requestHeaders opSeqno ++ [("File-handle", toString fid),
      ("Chunk-handle", toString chunkId), ("Chunk-version", toString chunkVersion)], ""⟩
theorem requestHead_data (name : String) (opSeqno : Int) :
    (requestHead name opSeqno).data =
      (name ++ " ").data ++ '\r' :: '\n' :: (requestHeaders opSeqno).flatMap headerChars := by
  simp [requestHead, requestHeaders, headerChars]

theorem ChunkRequest.request_data (q : ChunkRequest) : q.request.data = q.toMessage.encode := by
  cases q <;> simp [ChunkRequest.request, ChunkRequest.toMessage, requestHead_data,
    Message.encode, headerChars]

theorem ChunkRequest.wellFormed (q : ChunkRequest) : q.toMessage.WellFormed := by
  cases q <;> simp only [ChunkRequest.toMessage] <;>
    exact ⟨by simp, by simp [requestHeaders],
      by simp [requestHeaders, cr_not_mem_toString, cr_not_mem_toString_nat],
      by simp [requestHeaders, contentLength, readNat_toString]⟩

/-- Every request to a chunkserver is read back as the message it is meant to carry. -/
theorem decode_request (q : ChunkRequest) (more : List Char) :
    Message.decode (q.request.data ++ more) = some (q.toMessage, more) := by
  rw [ChunkRequest.request_data]
  exact decode_encode q.wellFormed more

/-- Modelled from the spec (§4.8): how a chunkserver reads the body of `STALE_CHUNKS`, as the
words between spaces, each a decimal id. -/
def readStaleChunks (body : String) : List (Option Int) :=
  ((body.data.splitOn ' ').dropLast).map fun w => readInt ⟨w⟩

theorem staleChunksBody_foldl : ∀ (ids : List Int) (acc : String),
    (ids.foldl (fun s id => s ++ toString id ++ " ") acc).data =
      acc.data ++ ids.flatMap fun id => (toString id).data ++ [' ']
  | [], acc => by simp
  | id :: ids, acc => by
    rw [List.foldl_cons, staleChunksBody_foldl ids]
    simp

/-- A chunkserver reads back from `STALE_CHUNKS` exactly the ids sent. -/
theorem staleNotify_ids (opSeqno : Int) (ids : List Int) (more : List Char) :
    ∃ m, Message.decode ((ChunkRequest.staleNotify opSeqno ids).request.data ++ more) =
        some (m, more) ∧
      ("Num-chunks", toString ids.length) ∈ m.headers ∧
      readStaleChunks m.body = ids.map some := by
  refine ⟨_,
    (ChunkRequest.request_data _).symm ▸ decode_encode (ChunkRequest.wellFormed _) more,
    List.mem_append_right _ (List.mem_cons_self _ _), ?_⟩
  have hb := staleChunksBody_foldl ids ""
  simp only [ChunkRequest.toMessage, readStaleChunks]
  rw [staleChunksBody, hb, List.nil_append,
    splitOn_flatMap ' ' _ ids fun id _ => not_mem_toString (by decide) id, List.dropLast_concat,
    List.map_map]
  exact List.map_congr_left fun id _ => readInt_toString id

end KosmosFs.Request
