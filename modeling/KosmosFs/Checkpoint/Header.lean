import KosmosFs.Checkpoint.Writer
import KosmosFs.Meta.OpLog

/-! # The checkpoint header

`do_CP` writes five `key/number` lines, `time/` with `ctime`'s text, `log/` with the log's name
and a blank line before the leaves. Cut at its line breaks and `/`s, the file gives them back.
-/

namespace KosmosFs

open Request (cutFields readInt splitOn_append_cons splitOn_of_not_mem toString_digits
  cutFields_of_slash_not_mem cutFields_toString readInt_toString)

/-- The text `do_CP` writes before the leaves: the header lines, one after the other. -/
def CpHeader.text (h : CpHeader) : String := h.lines.foldr (· ++ ·) ""

/-- The header's numbers with their keys, in the order `do_CP` writes them. -/
def CpHeader.numbers (h : CpHeader) : List (String × Int) :=
  [("checkpoint", h.seq), ("version", h.version), ("fid", h.fid), ("chunkId", h.chunkId),
   ("chunkVersionInc", h.chunkVersionInc)]

/-- A `key/number` line taken apart: its key and its number, when it has one `/` and a decimal
number after it. -/
def readNumLine (l : List Char) : Option (String × Int) :=
  match cutFields ⟨l⟩ with
  | [k, v] => (readInt v).map (k, ·)
  | _ => none

theorem splitOn_lines {α : Type} [DecidableEq α] {sep : α} (rest : List α) :
    ∀ {ls : List (List α)}, (∀ l ∈ ls, sep ∉ l) →
      (ls.foldr (fun l acc => l ++ sep :: acc) rest).splitOn sep = ls ++ rest.splitOn sep
  | [], _ => rfl
  | l :: ls, h => by
    rw [List.foldr_cons, splitOn_append_cons, splitOn_of_not_mem (h l (List.mem_cons_self _ _)),
      splitOn_lines rest fun x hx => h x (List.mem_cons_of_mem _ hx)]
    rfl

theorem newline_not_mem_toString (i : Int) : '\n' ∉ (toString i).data := fun h => by
  rcases toString_digits i '\n' h with h | h <;> revert h <;> decide

theorem CpHeader.text_append (h : CpHeader) {t : String} (ht : h.time = t ++ "\n")
    (rest : List Char) :
    h.text.data ++ rest =
      (h.numbers.map (fun p => (p.1 ++ "/" ++ toString p.2).data) ++
        [("time/" ++ t).data, ("log/" ++ h.log).data, []]).foldr
        (fun l acc => l ++ '\n' :: acc) rest := by
  simp [CpHeader.text, CpHeader.lines, CpHeader.numbers, ht]

theorem readNumLine_numLine {k : String} (hk : '/' ∉ k.data) (n : Int) :
    readNumLine (k ++ "/" ++ toString n).data = some (k, n) := by
  have hc : cutFields ⟨(k ++ "/" ++ toString n).data⟩ = [k, toString n] := by
    simp only [cutFields, String.data_append, List.append_assoc]
    rw [List.singleton_append, splitOn_append_cons, List.map_append]
    show cutFields k ++ cutFields (toString n) = _
    rw [cutFields_of_slash_not_mem hk, cutFields_toString]
    rfl
  rw [readNumLine, hc]
  simp [readInt_toString]

/-- The checkpoint file cut at its line breaks gives back the header's lines and numbers. -/
theorem header_roundTrip (h : CpHeader) (t : String) (rest : List Char)
    (ht : h.time = t ++ "\n") (htn : '\n' ∉ t.data) (hl : '\n' ∉ h.log.data) :
    (h.text.data ++ rest).splitOn '\n' =
        h.numbers.map (fun p => (p.1 ++ "/" ++ toString p.2).data) ++
          ("time/" ++ t).data :: ("log/" ++ h.log).data :: [] :: rest.splitOn '\n' ∧
      (((h.text.data ++ rest).splitOn '\n').take 5).map readNumLine = h.numbers.map some := by
  have hkeys : ∀ p ∈ h.numbers, '/' ∉ p.1.data ∧ '\n' ∉ p.1.data := by
    have hk : ∀ k ∈ ["checkpoint", "version", "fid", "chunkId", "chunkVersionInc"],
        '/' ∉ k.data ∧ '\n' ∉ k.data := by decide
    exact fun p hp => hk p.1 (List.mem_map_of_mem Prod.fst hp)
  have hsplit : (h.text.data ++ rest).splitOn '\n' =
      h.numbers.map (fun p => (p.1 ++ "/" ++ toString p.2).data) ++
        ("time/" ++ t).data :: ("log/" ++ h.log).data :: [] :: rest.splitOn '\n' := by
    rw [h.text_append ht, splitOn_lines rest]
    · simp
    · intro l hl'
      simp only [List.mem_append, List.mem_map, List.mem_cons, List.mem_singleton] at hl'
      rcases hl' with ⟨p, hp, rfl⟩ | rfl | rfl | rfl | hl'
      · simpa [newline_not_mem_toString] using (hkeys p hp).2
      · simpa using htn
      · simpa using hl
      · exact List.not_mem_nil _
      · exact absurd hl' (List.not_mem_nil _)
  refine ⟨hsplit, ?_⟩
  rw [hsplit, List.take_left' (by simp [CpHeader.numbers]), List.map_map]
  exact List.map_congr_left fun p hp => readNumLine_numLine (hkeys p hp).1 p.2

theorem header_roundTrip_ctime :
    let h : CpHeader := ⟨120, 1, 10004, 2005, 3, "Mon Nov  9 10:00:00 2026\n", "kfslog/log.3"⟩
    let t := "Mon Nov  9 10:00:00 2026"
    let rest := "dentry/name/a/id/10004/parent/2\n".data
    h.time = t ++ "\n" ∧ '\n' ∉ t.data ∧ '\n' ∉ h.log.data ∧
      (h.text.data ++ rest).splitOn '\n' =
          h.numbers.map (fun p => (p.1 ++ "/" ++ toString p.2).data) ++
            ("time/" ++ t).data :: ("log/" ++ h.log).data :: [] :: rest.splitOn '\n' ∧
        (((h.text.data ++ rest).splitOn '\n').take 5).map readNumLine = h.numbers.map some := by
  intro h t rest
  have ht : h.time = t ++ "\n" := rfl
  have htn : '\n' ∉ t.data := by decide
  have hl : '\n' ∉ h.log.data := by decide
  exact ⟨ht, htn, hl, header_roundTrip h t rest ht htn hl⟩

end KosmosFs
