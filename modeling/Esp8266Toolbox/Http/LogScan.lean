import Esp8266Toolbox.Http.UrlLogs

/-!
# Scanning the log

What the scan of `http_url_logs` finds in a `logbuf.main` of any content: its lines, and one line
more when the end of `logbuf.main` cuts off the last one and a newline stands in the memory
behind it.
-/

namespace Esp8266Toolbox

namespace LogArea

variable (a : LogArea)

/-- The complete lines of `logbuf.main`. -/
def complete : List (List UInt8) := (splitLines a.log.main.toList).1

/-- What follows them: a terminator, or nothing, or a line cut off by the end of `logbuf.main`. -/
def tail : List UInt8 := (splitLines a.log.main.toList).2

/-- The memory behind `logbuf.main`. -/
def behind : List UInt8 := a.line.toList ++ a.log.entry.toList

/-- `strchr` leaves `logbuf.main`. -/
def Cut : Prop := a.tail ≠ [] ∧ 0 ∉ a.tail

/-- `strchr` leaves `logbuf.main` and finds a newline there. -/
def RunsOn : Prop := a.Cut ∧ LF ∈ cstr a.behind

instance : Decidable a.Cut := inferInstanceAs (Decidable (_ ∧ _))

instance : Decidable a.RunsOn := inferInstanceAs (Decidable (_ ∧ _))

/-- The lines whose beginnings the scan finds. -/
def started : List (List UInt8) := a.complete ++ if a.RunsOn then [a.tail] else []

/-- The scan stays in `lines[]` and in `logbuf.main`, and `count`, a `uint8_t`, does not wrap. -/
def ScanSafe : Prop :=
  (∀ k < a.lines.length, k % 256 < maxLines) ∧ a.lines.length < 256 ∧
    ∀ s ∈ a.searches, s.start + s.reads ≤ logMainLen

theorem main_eq : joinLines a.complete ++ a.tail = a.log.main.toList := (splitLines_spec _).1

theorem complete_isLine : ∀ l ∈ a.complete, IsLine l := (splitLines_spec _).2.1

theorem tail_no_newline : LF ∉ cstr a.tail := (splitLines_spec _).2.2

theorem complete_length_add : (joinLines a.complete).length + a.tail.length = logMainLen := by
  rw [← List.length_append, main_eq, Buf.length_toList]

theorem mem_eq : a.mem = joinLines a.complete ++ (a.tail ++ a.behind) := by
  rw [← List.append_assoc, main_eq]
  rfl

end LogArea

/-! ## Complete lines -/

/-- The searches that find the ends of the given lines. -/
def lineSearches : ℕ → List (List UInt8) → List LogSearch
  | _, [] => []
  | i, l :: ls => ⟨i, l.length + 1, true⟩ :: lineSearches (i + (l.length + 1)) ls

theorem lineSearches_starts (i : ℕ) (ls : List (List UInt8)) :
    ((lineSearches i ls).filter (·.found)).map (·.start) = lineStarts i ls := by
  induction ls generalizing i with
  | nil => rfl
  | cons l ls ih => simp [lineSearches, lineStarts, ih]

theorem lineSearches_within {i : ℕ} {ls : List (List UInt8)} :
    ∀ s ∈ lineSearches i ls, s.start + s.reads ≤ i + (joinLines ls).length := by
  induction ls generalizing i with
  | nil => simp [lineSearches]
  | cons l ls ih =>
    intro s hs
    rw [joinLines_length_cons]
    rcases List.mem_cons.mp hs with rfl | hs
    · simp only
      omega
    · have := ih s hs
      omega

/-- The scan goes through the lines one after the other. -/
theorem logScan_lines {mem rest : List UInt8} {ls : List (List UInt8)} {i fuel : ℕ}
    (hmem : mem.drop i = joinLines ls ++ rest) (hls : ∀ l ∈ ls, IsLine l)
    (hin : i + (joinLines ls).length ≤ logMainLen) (hfuel : ls.length ≤ fuel) :
    logScan mem fuel i =
      lineSearches i ls ++ logScan mem (fuel - ls.length) (i + (joinLines ls).length) := by
  induction ls generalizing i fuel with
  | nil => simp [lineSearches]
  | cons l ls ih =>
    rw [joinLines_length_cons] at hin
    rcases fuel with _ | fuel
    · simp at hfuel
    have hline : strchr (mem.drop i) LF = some l.length := by
      rw [hmem, joinLines_cons, List.append_assoc, List.cons_append]
      exact strchr_line (hls l List.mem_cons_self) _
    have hnext : mem.drop (i + (l.length + 1)) = joinLines ls ++ rest := by
      rw [← List.drop_drop, hmem, joinLines_cons, List.append_assoc, List.cons_append,
        show l.length + 1 = (l ++ [LF]).length by simp,
        show l ++ LF :: (joinLines ls ++ rest) = (l ++ [LF]) ++ (joinLines ls ++ rest) by simp,
        List.drop_left]
    rw [logScan, if_pos (by omega), hline]
    simp only
    rw [ih hnext (fun l' hl' => hls l' (List.mem_cons_of_mem l hl')) (by omega) (by simpa using hfuel),
      lineSearches, joinLines_length_cons, List.length_cons, Nat.add_sub_add_right, List.cons_append]
    congr 3
    omega

/-! ## The end of the scan -/

namespace LogArea

variable {a : LogArea}

/-- A newline takes at least one byte. -/
theorem complete_length_le : a.complete.length ≤ (joinLines a.complete).length := by
  generalize a.complete = ls
  induction ls with
  | nil => simp
  | cons l ls ih =>
    rw [joinLines_length_cons, List.length_cons]
    omega

/-- The scan up to the tail. -/
theorem searches_eq :
    ∃ fuel, a.searches = lineSearches 0 a.complete ++
      logScan a.mem (fuel + 1) (joinLines a.complete).length := by
  have hlen := a.complete_length_add
  have hcount := a.complete_length_le
  refine ⟨logMainLen - a.complete.length, ?_⟩
  have hfuel : a.complete.length ≤ logMainLen + 1 := by omega
  have h := logScan_lines (i := 0) a.mem_eq a.complete_isLine (by omega) hfuel
  rw [Nat.zero_add, show logMainLen + 1 - a.complete.length = logMainLen - a.complete.length + 1 by omega]
    at h
  exact h

theorem mem_drop_complete : a.mem.drop (joinLines a.complete).length = a.tail ++ a.behind := by
  rw [mem_eq, List.drop_left]

/-- The search from the tail that stays inside: there is none, or it meets a terminator. -/
theorem scan_tail_within (h : ¬a.Cut) (fuel : ℕ) :
    ∀ s ∈ logScan a.mem (fuel + 1) (joinLines a.complete).length,
      s.found = false ∧ s.start + s.reads ≤ logMainLen := by
  have hlen := a.complete_length_add
  rw [logScan]
  by_cases hnil : a.tail = []
  · rw [hnil, List.length_nil] at hlen
    rw [if_neg (by omega)]
    simp
  · have h0 : 0 ∈ a.tail := by
      by_contra h0
      exact h ⟨hnil, h0⟩
    have hstr : cstr (a.tail ++ a.behind) = cstr a.tail := cstr_append_of_mem h0
    have hshort := cstr_length_lt h0
    have hnone : strchr (a.tail ++ a.behind) LF = none := strchr_eq_none (by rw [hstr]; exact a.tail_no_newline)
    rw [if_pos (by omega), mem_drop_complete, hnone, hstr]
    simp only [List.mem_singleton, forall_eq, true_and]
    omega

/-- The search from a line cut off leaves `logbuf.main`; if it succeeds, it is the last one. -/
theorem scan_tail_cut (h : a.Cut) (fuel : ℕ) :
    ∃ n, a.tail.length < n ∧ logScan a.mem (fuel + 1) (joinLines a.complete).length =
      [⟨(joinLines a.complete).length, n, decide (LF ∈ cstr a.behind)⟩] := by
  have hlen := a.complete_length_add
  rcases h with ⟨hnil, h0⟩
  have hpos := List.length_pos_of_ne_nil hnil
  have hstr : cstr (a.tail ++ a.behind) = a.tail ++ cstr a.behind := cstr_append h0 _
  -- the cut line has no newline of its own, so the search goes on behind it
  have htail : LF ∉ a.tail := by
    have hline := a.tail_no_newline
    rwa [cstr_eq_self h0] at hline
  rw [logScan, if_pos (by omega), mem_drop_complete]
  by_cases hfound : LF ∈ cstr a.behind
  · have hsome : strchr (a.tail ++ a.behind) LF = some (a.tail.length + (cstr a.behind).idxOf LF) := by
      rw [strchr, hstr, if_pos (List.mem_append_right _ hfound), List.idxOf_append_of_notMem htail]
    have hend : ∀ n, logScan a.mem fuel ((joinLines a.complete).length + (a.tail.length + n + 1)) = [] := by
      intro n
      rcases fuel with _ | fuel
      · rfl
      · rw [logScan, if_neg (by omega)]
    refine ⟨a.tail.length + (cstr a.behind).idxOf LF + 1, by omega, ?_⟩
    rw [hsome]
    simp only
    rw [hend]
    simp [hfound]
  · have hnone : strchr (a.tail ++ a.behind) LF = none := by
      apply strchr_eq_none
      rw [hstr, List.mem_append, not_or]
      exact ⟨htail, hfound⟩
    refine ⟨a.tail.length + (cstr a.behind).length + 1, by omega, ?_⟩
    rw [hnone, hstr, List.length_append]
    simp [hfound]

/-- **What the scan finds**: the beginnings of the complete lines, and of a line cut off if there is
a newline behind it. -/
theorem lines_eq (a : LogArea) : a.lines = lineStarts 0 a.started := by
  have hsplit : ∀ (i : ℕ) (ls : List (List UInt8)) (l : List UInt8),
      lineStarts i (ls ++ [l]) = lineStarts i ls ++ [i + (joinLines ls).length] := by
    intro i ls l
    induction ls generalizing i with
    | nil => rfl
    | cons l' ls ih =>
      rw [List.cons_append, lineStarts, lineStarts, ih, joinLines_length_cons, List.cons_append,
        Nat.add_assoc]
  obtain ⟨fuel, hsearches⟩ := a.searches_eq
  rw [lines, hsearches, List.filter_append, List.map_append, lineSearches_starts, started]
  by_cases hcut : a.Cut
  · obtain ⟨n, -, htail⟩ := scan_tail_cut hcut fuel
    rw [htail]
    by_cases hfound : LF ∈ cstr a.behind
    · rw [if_pos ⟨hcut, hfound⟩, hsplit]
      simp [hfound]
    · rw [if_neg fun h => hfound h.2]
      simp [hfound]
  · have htail := scan_tail_within hcut fuel
    rw [if_neg fun h => hcut h.1, List.append_nil]
    rw [List.filter_eq_nil_iff.mpr fun s hs => by simp [(htail s hs).1]]
    simp

/-! ## Staying inside -/

/-- The tail of `logbuf.main` in terms of its content. -/
theorem not_cut_iff (a : LogArea) :
    ¬a.Cut ↔ 0 ∈ a.log.main.toList ∨ a.log.main.toList.getLast? = some LF := by
  have hmain := a.main_eq
  have hlines : 0 ∉ joinLines a.complete := by
    intro h
    rcases List.mem_flatMap.mp h with ⟨l, hl, h0⟩
    rcases List.mem_append.mp h0 with h0 | h0
    · exact (a.complete_isLine l hl).1 h0
    · exact absurd (List.mem_singleton.mp h0) (by decide)
  have hlen := a.complete_length_add
  rw [← hmain]
  unfold Cut
  rw [not_and_or, not_not, not_not]
  constructor
  · rintro (hnil | h0)
    · -- nothing behind the last newline
      right
      rw [hnil, List.append_nil]
      rw [hnil, List.length_nil] at hlen
      rcases List.eq_nil_or_concat a.complete with hempty | ⟨ls, l, hlast⟩
      · rw [hempty] at hlen
        exact absurd hlen (by decide)
      · rw [hlast, List.concat_eq_append]
        simp
    · exact Or.inl (List.mem_append_right _ h0)
  · rintro (h0 | hlast)
    · exact Or.inr ((List.mem_append.mp h0).resolve_left hlines)
    · by_cases hnil : a.tail = []
      · exact Or.inl hnil
      · right
        rw [List.getLast?_append_of_ne_nil _ hnil] at hlast
        by_contra h0
        apply a.tail_no_newline
        rw [cstr_eq_self h0]
        exact List.mem_of_getLast? hlast

/-- The complete lines are the newlines before the terminator. -/
theorem complete_length (a : LogArea) : a.complete.length = (cstr a.log.main.toList).count LF := by
  have hjoin : ∀ ls : List (List UInt8), (∀ l ∈ ls, IsLine l) → ∀ rest,
      (cstr (joinLines ls ++ rest)).count LF = ls.length + (cstr rest).count LF := by
    intro ls
    induction ls with
    | nil => simp
    | cons l ls ih =>
      intro h rest
      have hl := h l List.mem_cons_self
      rw [joinLines_cons, List.append_assoc, cstr_append hl.1, List.cons_append, cstr,
        List.takeWhile_cons_of_pos (by decide), List.count_append, List.count_eq_zero.mpr hl.2,
        List.count_cons_self, Nat.zero_add, List.length_cons]
      have hrest := ih (fun l' hl' => h l' (List.mem_cons_of_mem l hl')) rest
      unfold cstr at hrest ⊢
      omega
  rw [← a.main_eq, hjoin _ a.complete_isLine, List.count_eq_zero.mpr a.tail_no_newline, Nat.add_zero]

/-- **When the scan stays in bounds**: there are at most a hundred newlines, and `logbuf.main` has a
terminator or ends with one of them. -/
theorem scanSafe_iff (a : LogArea) :
    a.ScanSafe ↔ (cstr a.log.main.toList).count LF ≤ maxLines ∧
      (0 ∈ a.log.main.toList ∨ a.log.main.toList.getLast? = some LF) := by
  have hlen := a.complete_length_add
  obtain ⟨fuel, hsearches⟩ := a.searches_eq
  have hlines : a.lines.length = a.started.length := by rw [lines_eq, lineStarts_length]
  rw [← complete_length, ← not_cut_iff]
  constructor
  · rintro ⟨hindex, -, hreads⟩
    -- a cut last line would be searched behind the array
    have hcut : ¬a.Cut := by
      intro hcut
      obtain ⟨n, hn, htail⟩ := scan_tail_cut hcut fuel
      have := hreads ⟨(joinLines a.complete).length, n, decide (LF ∈ cstr a.behind)⟩ (by
        rw [hsearches, htail]
        exact List.mem_append_right _ (List.mem_singleton_self _))
      simp only at this
      omega
    refine ⟨?_, hcut⟩
    by_contra hmany
    have hstarted : a.started = a.complete := by
      rw [started, if_neg fun h => hcut h.1, List.append_nil]
    rw [hlines, hstarted] at hindex
    exact absurd (hindex maxLines (by omega)) (by decide)
  · rintro ⟨hcount, hcut⟩
    have hstarted : a.started = a.complete := by
      rw [started, if_neg fun h => hcut h.1, List.append_nil]
    have h100 : maxLines = 100 := rfl
    unfold ScanSafe
    rw [hlines, hstarted]
    refine ⟨fun k hk => by omega, by omega, fun s hs => ?_⟩
    rw [hsearches] at hs
    rcases List.mem_append.mp hs with hs | hs
    · have := lineSearches_within s hs
      omega
    · exact (scan_tail_within hcut fuel s hs).2

/-- A message with 150 line feeds. `http_process` logs one like it for a request line with so many behind
its first token. -/
def feedsLogged : LogCall :=
  { timeUs := 0, level := ascii "warning", file := ascii "process.c", line := 55,
    mesg := ascii "unsupported method: " ++ List.replicate 150 LF }

/-- One such message makes the scan store behind `lines[99]`. -/
theorem scan_overflows : ¬(LogArea.mk (logRun [feedsLogged]) (Buf.zero 192)).ScanSafe := by
  rintro ⟨hindex, -⟩
  have hmany : 100 < (LogArea.mk (logRun [feedsLogged]) (Buf.zero 192)).lines.length := by
    decide +kernel
  exact absurd (hindex 100 hmany) (by decide)

end LogArea

end Esp8266Toolbox
