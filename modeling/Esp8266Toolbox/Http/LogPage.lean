import Esp8266Toolbox.Http.LogScan

/-!
# The log page

The rows stand for the lines between neighbouring line starts. The test before a row asks for
19 bytes beside the line where the row takes 45, so a row that brings the page to between 4073 and
4097 bytes is begun although it, or the trailer, does not fit; then the handler returns 0 and
sends nothing. In all other cases the page is sent and `logbuf.main` put back in order.
-/

namespace Esp8266Toolbox

/-! ## Rows -/

/-- The row of a line. -/
def rowText (l : List UInt8) : List UInt8 := rowBeg ++ (l ++ [LF]) ++ rowEnd

/-- The rows of some lines. -/
def rowTexts (ls : List (List UInt8)) : List UInt8 := ls.flatMap rowText

@[simp] theorem rowTexts_nil : rowTexts [] = [] := rfl

@[simp] theorem rowTexts_cons (l : List UInt8) (ls : List (List UInt8)) :
    rowTexts (l :: ls) = rowText l ++ rowTexts ls := rfl

theorem rowText_length (l : List UInt8) : (rowText l).length = l.length + 46 := by
  have hbeg : rowBeg.length = 28 := by decide
  have hend : rowEnd.length = 17 := by decide
  simp only [rowText, List.length_append, hbeg, hend, List.length_singleton]
  omega

/-- The lines for which a row is begun when the page has `n` bytes. -/
def shown : ℕ → List (List UInt8) → List (List UInt8)
  | _, [] => []
  | n, l :: ls =>
    if n + 19 + (l.length + 1) ≥ httpOutbufMaxlen - 24 then []
    else l :: shown (n + (rowText l).length) ls

/-- The rows are begun in the order of the lines. -/
theorem shown_prefix (n : ℕ) (ls : List (List UInt8)) : ∃ k, shown n ls = ls.take k := by
  induction ls generalizing n with
  | nil => exact ⟨0, rfl⟩
  | cons l ls ih =>
    rw [shown]
    by_cases hfull : n + 19 + (l.length + 1) ≥ httpOutbufMaxlen - 24
    · rw [if_pos hfull]
      exact ⟨0, rfl⟩
    · rw [if_neg hfull]
      obtain ⟨k, hk⟩ := ih (n + (rowText l).length)
      exact ⟨k + 1, by rw [hk, List.take_succ_cons]⟩

/-- Rows that fit together are all begun. -/
theorem shown_all {n : ℕ} {ls : List (List UInt8)} (h : n + (rowTexts ls).length ≤ 4072) :
    shown n ls = ls := by
  have hcap : httpOutbufMaxlen = 4096 := rfl
  induction ls generalizing n with
  | nil => rfl
  | cons l ls ih =>
    have hrow := rowText_length l
    rw [rowTexts_cons, List.length_append] at h
    rw [shown, if_neg (by omega), ih (by omega)]

/-- The rows that are begun leave room for the trailer if and only if no number of rows brings the
page to between 4073 and 4097 bytes. -/
theorem shown_fits {n : ℕ} (hn : n ≤ 4072) (ls : List (List UInt8)) :
    n + (rowTexts (shown n ls)).length ≤ 4072 ↔
      ∀ k, n + (rowTexts (ls.take k)).length < 4073 ∨ 4097 < n + (rowTexts (ls.take k)).length := by
  have hcap : httpOutbufMaxlen = 4096 := rfl
  induction ls generalizing n with
  | nil =>
    simp only [shown, List.take_nil, rowTexts_nil, List.length_nil]
    constructor
    · intro _ _
      omega
    · intro
      exact hn
  | cons l ls ih =>
    have hrow := rowText_length l
    have hlen : ∀ k, n + (rowTexts ((l :: ls).take (k + 1))).length =
        n + (rowText l).length + (rowTexts (ls.take k)).length := by
      intro k
      rw [List.take_succ_cons, rowTexts_cons, List.length_append]
      omega
    rw [shown]
    by_cases hfull : n + 19 + (l.length + 1) ≥ httpOutbufMaxlen - 24
    · -- the first row is too long for its test, and so for the page
      rw [if_pos hfull]
      constructor
      · rintro - (_ | k)
        · left
          simp
          omega
        · right
          rw [hlen]
          omega
      · intro
        simpa using hn
    rw [if_neg hfull, rowTexts_cons, List.length_append]
    by_cases hfits : n + (rowText l).length ≤ 4072
    · have hih := ih hfits
      constructor
      · rintro h (_ | k)
        · left
          simp
          omega
        · have := hih.mp (by omega) k
          rw [hlen]
          omega
      · intro h
        have := hih.mpr fun k => by
          have := h (k + 1)
          rw [hlen] at this
          omega
        omega
    · -- the first row passes its test and does not fit
      constructor
      · intro h
        omega
      · intro h
        have := h 1
        rw [hlen] at this
        simp at this
        omega

/-! ## The loop over the rows -/

/-- The neighbouring line starts of some lines. -/
def rowPairs : ℕ → List (List UInt8) → List (ℕ × ℕ)
  | _, [] => []
  | i, l :: ls => (i, i + (l.length + 1)) :: rowPairs (i + (l.length + 1)) ls

/-- The last line start is the end of a row only. -/
theorem lineStarts_pairs (i : ℕ) (ls : List (List UInt8)) :
    (lineStarts i ls).zip (lineStarts i ls).tail = rowPairs i ls.dropLast := by
  induction ls generalizing i with
  | nil => rfl
  | cons l ls ih =>
    rcases ls with _ | ⟨l', ls⟩
    · rfl
    · have hrest := ih (i + (l.length + 1))
      simp only [lineStarts, List.tail_cons] at hrest ⊢
      rw [List.zip_cons_cons, hrest]
      rfl

namespace LogArea

variable {a : LogArea}

/-- A byte of `logbuf.main` overwritten and put back. -/
theorem poke_restore (a : LogArea) (q : ℕ) (v : UInt8) : (a.poke q v).poke q (a.log.main.get q) = a := by
  have hmain : (a.log.main.set q v).set q (a.log.main.get q) = a.log.main := by
    apply Buf.ext_get
    intro i
    rw [Buf.get_set, Buf.get_set]
    split_ifs with hi
    · rw [hi.1]
    · rfl
  rcases a with ⟨⟨main, entry⟩, line⟩
  simp only [poke] at hmain ⊢
  rw [hmain]

/-- The string that a row shows: the line, which a terminator ends meanwhile. -/
theorem poke_line {l rest : List UInt8} {p : ℕ} (hl : IsLine l)
    (hmem : a.log.main.toList.drop p = l ++ LF :: rest) (hq : p + (l.length + 1) < logMainLen) :
    cstr ((a.poke (p + (l.length + 1)) 0).mem.drop p) = l ++ [LF] := by
  have hlen := a.log.main.length_toList
  have hrest : rest ≠ [] := by
    intro hnil
    have := congrArg List.length hmem
    rw [List.length_drop, hnil, hlen] at this
    simp at this
    omega
  rcases rest with _ | ⟨b, rest⟩
  · exact absurd rfl hrest
  have hmain : (a.log.main.toList.set (p + (l.length + 1)) 0).drop p = (l ++ [LF]) ++ 0 :: rest := by
    rw [List.drop_set, if_neg (by omega), Nat.add_sub_cancel_left, hmem,
      show l ++ LF :: b :: rest = (l ++ [LF]) ++ b :: rest by simp,
      List.set_append_right _ _ (by simp)]
    simp
  have hdrop : (a.poke (p + (l.length + 1)) 0).mem.drop p =
      (a.log.main.toList.set (p + (l.length + 1)) 0).drop p ++ a.behind := by
    change (a.log.main.toList.set (p + (l.length + 1)) 0 ++ a.behind).drop p = _
    rw [List.drop_append_of_le_length (by rw [List.length_set, hlen]; omega)]
  rw [hdrop, hmain, List.append_assoc, List.cons_append]
  apply cstr_append_zero
  rw [List.mem_append, not_or]
  exact ⟨hl.1, by decide⟩

end LogArea

/-- `HTTP_OUTBUF_APPEND`s in the handler. -/
theorem logsAppend_eq (env : LogsEnv) (a : LogArea) {out : List UInt8} (h : out.length < 4096)
    (srcs : List (List UInt8)) :
    logsAppend env a out srcs =
      if out.length + srcs.flatten.length < 4096 then .ok (out ++ srcs.flatten)
      else .error (env.put .overflow a) := by
  have hcap : httpOutbufMaxlen = 4096 := rfl
  rw [logsAppend, outbufAppends_eq h, hcap]
  by_cases hfits : out.length + srcs.flatten.length < 4096
  · simp only [if_pos hfits]
  · simp only [if_neg hfits]

/-- One row. -/
theorem logsRow_eq (env : LogsEnv) {a : LogArea} {out l rest : List UInt8} {p : ℕ} (hl : IsLine l)
    (hmem : a.log.main.toList.drop p = l ++ LF :: rest) (hq : p + (l.length + 1) < logMainLen)
    (hout : out.length < 4096) :
    logsRow env a out p (p + (l.length + 1)) =
      if out.length + (rowText l).length < 4096 then .ok (a, out ++ rowText l)
      else .error (env.put .overflow (a.poke (p + (l.length + 1)) 0)) := by
  have hflat : [rowBeg, l ++ [LF], rowEnd].flatten = rowText l := by simp [rowText]
  rw [logsRow, LogArea.poke_line hl hmem hq, logsAppend_eq env _ hout, hflat, Loops.ite_bind,
    Loops.ok_bind, LogArea.poke_restore]
  rfl

/-- **The loop over the rows**: it appends the rows it begins, or one of them does not fit. -/
theorem logsRows_eq (env : LogsEnv) {a : LogArea} {ls : List (List UInt8)} (hls : ∀ l ∈ ls, IsLine l)
    {i : ℕ} {out rest : List UInt8} (hmem : a.log.main.toList.drop i = joinLines ls ++ rest)
    (hrest : rest ≠ []) (hout : out.length < 4096) :
    if out.length + (rowTexts (shown out.length ls)).length < 4096 then
      ∃ a', (a' = a ∨ a' = env.put .avoided a) ∧
        logsRows env (rowPairs i ls) a out = .ok (a', out ++ rowTexts (shown out.length ls))
    else ∃ a', logsRows env (rowPairs i ls) a out = .error a' := by
  induction ls generalizing i out with
  | nil =>
    rw [shown, rowTexts_nil, List.length_nil, if_pos (by omega)]
    exact ⟨a, Or.inl rfl, by simp [rowPairs, logsRows]⟩
  | cons l ls ih =>
    have hlen := congrArg List.length hmem
    have hpos := List.length_pos_of_ne_nil hrest
    rw [List.length_drop, a.log.main.length_toList, List.length_append, joinLines_length_cons] at hlen
    have hmem' : a.log.main.toList.drop i = l ++ LF :: (joinLines ls ++ rest) := by
      rw [hmem, joinLines_cons, List.append_assoc, List.cons_append]
    have hnext : a.log.main.toList.drop (i + (l.length + 1)) = joinLines ls ++ rest := by
      rw [← List.drop_drop, hmem', show l ++ LF :: (joinLines ls ++ rest)
        = (l ++ [LF]) ++ (joinLines ls ++ rest) by simp, show l.length + 1 = (l ++ [LF]).length by simp,
        List.drop_left]
    have hrow := logsRow_eq env (hls l List.mem_cons_self) hmem' (by omega) hout
    rw [rowPairs, logsRows, shown, Nat.add_sub_cancel_left]
    by_cases hfull : out.length + 19 + (l.length + 1) ≥ httpOutbufMaxlen - 24
    · rw [if_pos hfull, if_pos hfull, rowTexts_nil, List.length_nil, if_pos (by omega), List.append_nil]
      exact ⟨env.put .avoided a, Or.inr rfl, rfl⟩
    rw [if_neg hfull, if_neg hfull, hrow, rowTexts_cons, List.length_append]
    by_cases hfits : out.length + (rowText l).length < 4096
    · -- the row is complete; the induction goes on behind it
      have hroom : (out ++ rowText l).length < 4096 := by rwa [List.length_append]
      have hrun := ih (fun l' hl' => hls l' (List.mem_cons_of_mem l hl')) hnext hroom
      rw [List.length_append, Nat.add_assoc out.length, List.append_assoc] at hrun
      rw [if_pos hfits, Loops.ok_bind]
      exact hrun
    · rw [if_neg hfits, if_neg (by omega)]
      exact ⟨_, rfl⟩

/-! ## The page -/

/-- The page up to its first row. -/
def pageTop (refresh : Bool) : List UInt8 := pageHead.flatten ++ (logsTop refresh).flatten

theorem pageTop_lengths : (pageTop false).length = 301 ∧ (pageTop true).length = 408 := by
  decide +kernel

theorem pageTop_length (refresh : Bool) : (pageTop refresh).length ≤ 500 := by
  cases refresh with
  | false => rw [pageTop_lengths.1]; decide
  | true => rw [pageTop_lengths.2]; decide

/-- The body with the rows of some lines. -/
def logsBody (refresh : Bool) (ls : List (List UInt8)) : List UInt8 :=
  (logsTop refresh).flatten ++ rowTexts ls ++ logsTrailer

/-- A response with the given body. -/
def response (body : List UInt8) : List UInt8 := pageHeadFor body.length ++ body

/-- **The page**: it is complete if and only if the rows that are begun leave room for the
trailer. -/
theorem logsPage_eq (env : LogsEnv) (refresh : Bool) {a : LogArea} {ls : List (List UInt8)}
    {rest : List UInt8} {starts : List ℕ} (hstarts : starts.zip starts.tail = rowPairs 0 ls)
    (hls : ∀ l ∈ ls, IsLine l) (hmem : a.log.main.toList = joinLines ls ++ rest) (hrest : rest ≠ []) :
    if (pageTop refresh).length + (rowTexts (shown (pageTop refresh).length ls)).length ≤ 4072 then
      ∃ a', (a' = a ∨ a' = env.put .avoided a) ∧ logsPage env refresh starts a =
        .ok (a', response (logsBody refresh (shown (pageTop refresh).length ls)))
    else ∃ a', logsPage env refresh starts a = .error a' := by
  have htop := pageTop_length refresh
  have hhead := pageHead_length
  have hsum : (pageTop refresh).length = 85 + (logsTop refresh).flatten.length := by
    rw [pageTop, List.length_append, hhead]
  have htrailer : logsTrailer.length = 23 := by decide
  have hroom : (pageTop refresh).length < 4096 := by omega
  have hrows := logsRows_eq env hls (i := 0) hmem hrest hroom
  have hpage : logsPage env refresh starts a =
      (do
        let r ← logsRows env (rowPairs 0 ls) a (pageTop refresh)
        let out ← logsAppend env r.1 r.2 [logsTrailer]
        return (r.1, patchLength out (out.length - 85))) := by
    rw [logsPage, logsAppend_eq env a (by simp) pageHead, List.length_nil, List.nil_append,
      if_pos (by omega), Loops.ok_bind]
    simp only
    rw [logsAppend_eq env a (by omega) (logsTop refresh), if_pos (by omega), Loops.ok_bind, hstarts, hhead]
    rfl
  rw [hpage]
  generalize hshown : shown (pageTop refresh).length ls = rows at *
  by_cases hroom : (pageTop refresh).length + (rowTexts rows).length ≤ 4072
  · rw [if_pos hroom]
    rw [if_pos (by omega)] at hrows
    obtain ⟨a', ha', hrun⟩ := hrows
    refine ⟨a', ha', ?_⟩
    have hout : (pageTop refresh ++ rowTexts rows).length < 4096 := by
      rw [List.length_append]
      omega
    have hbody : pageTop refresh ++ rowTexts rows ++ [logsTrailer].flatten =
        pageHead.flatten ++ logsBody refresh rows := by
      simp [pageTop, logsBody]
    have hlen : (pageHead.flatten ++ logsBody refresh rows).length < 4096 := by
      rw [← hbody, List.length_append, List.length_append]
      simp only [List.flatten_cons, List.flatten_nil, List.append_nil]
      omega
    rw [hrun, Loops.ok_bind]
    simp only
    rw [logsAppend_eq env a' hout, hbody, if_pos, Loops.ok_bind]
    · rw [List.length_append, hhead, Nat.add_sub_cancel_left, patchLength_pageHead]
      · rfl
      · rw [List.length_append] at hlen
        omega
    · rw [← List.length_append, hbody]
      exact hlen
  · rw [if_neg hroom]
    by_cases hfits : (pageTop refresh).length + (rowTexts rows).length < 4096
    · -- the rows fit, the trailer does not
      rw [if_pos hfits] at hrows
      obtain ⟨a', -, hrun⟩ := hrows
      have hout : (pageTop refresh ++ rowTexts rows).length < 4096 := by
        rw [List.length_append]
        omega
      refine ⟨env.put .overflow a', ?_⟩
      rw [hrun, Loops.ok_bind]
      simp only
      rw [logsAppend_eq env a' hout, if_neg]
      · rfl
      · rw [List.length_append]
        simp only [List.flatten_cons, List.flatten_nil, List.append_nil]
        omega
    · rw [if_neg hfits] at hrows
      obtain ⟨a', hrun⟩ := hrows
      exact ⟨a', by rw [hrun]; rfl⟩

end Esp8266Toolbox
