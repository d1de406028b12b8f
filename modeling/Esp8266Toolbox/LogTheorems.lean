import Esp8266Toolbox.Log

/-!
# The log buffer as a bounded log

A log that keeps its newest entries first and shows as much of them as fits into a given number
of bytes. `logbuf.main` shows the log of the entries stored so far.
-/

namespace Esp8266Toolbox

/-- What `n` bytes show of a log, newest entry first, with zeros behind the oldest. -/
def showLog (n : ℕ) (entries : List (List UInt8)) : List UInt8 :=
  (entries.flatten ++ List.replicate n 0).take n

theorem showLog_nil (n : ℕ) : showLog n [] = List.replicate n 0 := by simp [showLog]

/-- A new entry pushes the others back. -/
theorem showLog_cons (n : ℕ) (e : List UInt8) (entries : List (List UInt8)) :
    showLog n (e :: entries) = (e ++ showLog n entries).take n := by
  have hshow : ∀ xs : List UInt8, (e ++ xs).take n = (e ++ xs.take n).take n := by
    intro xs
    rw [List.take_append, List.take_append, List.take_take, min_eq_left (Nat.sub_le _ _)]
  rw [showLog, showLog, List.flatten_cons, List.append_assoc]
  exact hshow _

/-- What is stored for a text: the text, or its start and an ellipsis. -/
def stored (text : List UInt8) : List UInt8 :=
  if text.length ≤ 255 then text else text.take 251 ++ ascii "...\n"

theorem stored_length (text : List UInt8) : (stored text).length ≤ 255 := by
  unfold stored
  split
  · assumption
  · rename_i h
    simp [ascii]

theorem LogCall.text_no_zero (c : LogCall) : 0 ∉ c.text := by
  have hstamp : 0 ∉ logStamp c.timeUs := by
    unfold logStamp
    dsimp only
    split <;> simp [padded_no_zero, decimal_no_zero, ascii]
  simp [LogCall.text, hstamp, cstr_no_zero, signed_no_zero, ascii, LF]

/-- Every stored entry is a line. -/
theorem stored_ends (c : LogCall) : ∃ body, stored c.text = body ++ [LF] := by
  unfold stored
  split
  · exact ⟨_, rfl⟩
  · exact ⟨c.text.take 251 ++ ascii "...", by simp [ascii, LF]⟩

/-! ## One entry -/

/-- What `snprintf` and the ellipsis leave in `logbuf.entry`. -/
theorem logEntry_entry (b : LogBuf) (c : LogCall) : cstr (logEntry b c).entry.toList = stored c.text := by
  unfold logEntry stored
  dsimp only
  have hrv : (snprintf b.entry c.text).2 = c.text.length := rfl
  rw [hrv]
  by_cases hlong : c.text.length ≥ 256
  · rw [if_pos hlong, if_neg (by omega)]
    have hprinted : (snprintf b.entry c.text).1.toList.take 251 = c.text.take 251 := by
      have hfit : 0 + (c.text.take 255 ++ [0]).length ≤ 256 := by simp
      rw [snprintf, if_neg (by decide), Buf.toList_memcpy _ hfit, List.take_zero, List.nil_append,
        List.append_assoc, List.take_append_of_le_length (by simp; omega), List.take_take]
      rfl
    have hdots : ((cstr (ascii "...\n") ++ List.replicate 5 0).take 5) = ascii "...\n" ++ [0] := by decide
    rw [Buf.strncpy, hdots, Buf.toList_memcpy _ (by decide), hprinted, List.append_assoc, List.append_assoc,
      List.singleton_append, ← List.append_assoc]
    apply cstr_append_zero
    intro h
    rcases List.mem_append.mp h with h | h
    · exact c.text_no_zero (List.mem_of_mem_take h)
    · revert h
      decide
  · rw [if_neg hlong, if_pos (by omega), cstr_snprintf _ (by decide) c.text_no_zero]
    exact List.take_of_length_le (by omega)

/-- `memmove` and `memcpy` put the stored entry in front. -/
theorem logEntry_main (b : LogBuf) (c : LogCall) :
    (logEntry b c).main.toList = (stored c.text ++ b.main.toList).take logMainLen := by
  have hentry := logEntry_entry b c
  have hlen := stored_length c.text
  have hmain := b.main.length_toList
  have hsize : logMainLen = 3596 := rfl
  have hcopy : (logEntry b c).entry.toList.take (stored c.text).length = stored c.text := by
    rw [← hentry]
    exact (List.prefix_iff_eq_take.mp (List.takeWhile_prefix _)).symm
  have hdef : (logEntry b c).main
      = (b.main.memcpy (cstr (logEntry b c).entry.toList).length
          (b.main.toList.take (logMainLen - (cstr (logEntry b c).entry.toList).length))).memcpy 0
          ((logEntry b c).entry.toList.take (cstr (logEntry b c).entry.toList).length) := rfl
  have hfront : (b.main.toList.take (stored c.text).length).length = (stored c.text).length := by
    simp
    omega
  have hend : b.main.toList.drop ((stored c.text).length
      + (b.main.toList.take (logMainLen - (stored c.text).length)).length) = [] := by
    apply List.drop_of_length_le
    simp
    omega
  rw [hdef, hentry, hcopy, Buf.toList_memcpy _ (by omega), Buf.toList_memcpy _ (by simp; omega), hend,
    List.take_zero, List.nil_append, List.append_nil, Nat.zero_add, List.drop_left' hfront, List.take_append,
    List.take_of_length_le (show (stored c.text).length ≤ logMainLen by omega)]

/-! ## Runs -/

/-- The entries stored by a sequence of calls, the newest first. -/
def logEntries (calls : List LogCall) : List (List UInt8) := (calls.map fun c => stored c.text).reverse

/-- In every run `logbuf.main` shows the entries stored so far, and each of them is a line of at
most 255 characters. -/
theorem logbuf_shows_log (calls : List LogCall) :
    (logRun calls).main.toList = showLog logMainLen (logEntries calls) ∧
      ∀ e ∈ logEntries calls, e.length ≤ 255 ∧ ∃ body, e = body ++ [LF] := by
  constructor
  · suffices hrun : ∀ (b : LogBuf) (entries : List (List UInt8)), b.main.toList = showLog logMainLen entries →
        (calls.foldl logEntry b).main.toList = showLog logMainLen (logEntries calls ++ entries) by
      have hall := hrun logInit [] (showLog_nil logMainLen).symm
      rwa [List.append_nil] at hall
    -- each call puts its entry in front of those there are
    induction calls with
    | nil => exact fun b entries h => h
    | cons c calls ih =>
      intro b entries h
      have hstep : (logEntry b c).main.toList = showLog logMainLen (stored c.text :: entries) := by
        rw [logEntry_main, h, showLog_cons]
      rw [List.foldl_cons, ih _ _ hstep]
      simp [logEntries]
  · intro e he
    rcases List.mem_map.mp (List.mem_reverse.mp he) with ⟨c, -, rfl⟩
    exact ⟨stored_length _, stored_ends c⟩

end Esp8266Toolbox
