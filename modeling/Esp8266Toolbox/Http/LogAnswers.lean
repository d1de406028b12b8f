import Esp8266Toolbox.LogTheorems
import Esp8266Toolbox.Http.LogPage

/-!
# When the log page is answered, and what it shows

Two results about `http_url_logs`, for any client and any content of `logbuf`: when it sends a page
and leaves the log intact, and when the page has a row for every complete line of the log.
-/

namespace Esp8266Toolbox

/-! ## Entries the handler makes itself -/

/-- A call of `log_entry` by a macro of the handler. -/
def LogsEnv.Own (env : LogsEnv) (c : LogCall) : Prop :=
  ∃ (m : LogsMessage) (line : Buf 192), c = logCall m.level (env.stamp m) (logLine line m.text)

/-- The log is as before, apart from entries of the handler in front. -/
def LogsEnv.Kept (env : LogsEnv) (before after : LogBuf) : Prop :=
  ∃ calls : List LogCall, (∀ c ∈ calls, env.Own c) ∧ after = calls.foldl logEntry before

theorem LogsEnv.Kept.refl (env : LogsEnv) (b : LogBuf) : env.Kept b b := ⟨[], by simp, rfl⟩

theorem LogsEnv.Kept.trans {env : LogsEnv} {b b' b'' : LogBuf} (h : env.Kept b b') (h' : env.Kept b' b'') :
    env.Kept b b'' := by
  rcases h with ⟨calls, hown, rfl⟩
  rcases h' with ⟨calls', hown', rfl⟩
  refine ⟨calls ++ calls', fun c hc => ?_, List.foldl_append.symm⟩
  rcases List.mem_append.mp hc with hc | hc
  · exact hown c hc
  · exact hown' c hc

/-- A macro makes at most one entry. -/
theorem LogsEnv.put_kept (env : LogsEnv) (m : LogsMessage) (a : LogArea) :
    env.Kept a.log (env.put m a).log := by
  unfold LogsEnv.put LogArea.put
  split
  · exact ⟨[logCall m.level (env.stamp m) (logLine a.line m.text)], by
      intro c hc
      exact ⟨m, a.line, List.mem_singleton.mp hc⟩, rfl⟩
  · exact LogsEnv.Kept.refl env a.log

/-! ## Lines with rows -/

namespace LogArea

variable {a : LogArea}

/-- The lines between neighbouring line starts: all complete lines if the scan runs on, else all but
the last. -/
def rows (a : LogArea) : List (List UInt8) := if a.RunsOn then a.complete else a.complete.dropLast

theorem started_dropLast (a : LogArea) : a.started.dropLast = a.rows := by
  unfold started rows
  split
  · exact List.dropLast_concat
  · rw [List.append_nil]

theorem rows_take (a : LogArea) : ∃ k, a.rows = a.complete.take k := by
  unfold rows
  split
  · exact ⟨_, List.take_length.symm⟩
  · exact ⟨_, List.dropLast_eq_take⟩

theorem rows_isLine : ∀ l ∈ a.rows, IsLine l := by
  obtain ⟨k, hk⟩ := a.rows_take
  intro l hl
  rw [hk] at hl
  exact a.complete_isLine l (List.mem_of_mem_take hl)

/-- Something follows the lines with rows. -/
theorem main_rows (a : LogArea) : ∃ rest, a.log.main.toList = joinLines a.rows ++ rest ∧ rest ≠ [] := by
  rw [← a.main_eq]
  unfold rows
  split
  · rename_i hruns
    exact ⟨a.tail, rfl, hruns.1.1⟩
  · rcases List.eq_nil_or_concat a.complete with hempty | ⟨ls, l, hlast⟩
    · have hlen := a.complete_length_add
      rw [hempty] at hlen ⊢
      refine ⟨a.tail, rfl, fun hnil => ?_⟩
      rw [hnil] at hlen
      exact absurd hlen (by decide)
    · rw [hlast, List.concat_eq_append, List.dropLast_concat]
      exact ⟨l ++ LF :: a.tail, by simp, by simp⟩

/-- A log without complete lines has no rows, and one whose scan runs on has all. -/
theorem rows_eq_complete (a : LogArea) : a.rows = a.complete ↔ a.complete = [] ∨ a.RunsOn := by
  unfold rows
  split
  · rename_i hruns
    simp [hruns]
  · rename_i hruns
    simp only [hruns, or_false]
    constructor
    · intro h
      by_contra hne
      have hlen := congrArg List.length h
      have hpos := List.length_pos_of_ne_nil hne
      rw [List.length_dropLast] at hlen
      omega
    · intro h
      rw [h]
      rfl

end LogArea

/-! ## The handler -/

section Handler

variable (env : LogsEnv) (client : HttpClient) (a : LogArea)

/-- `logbuf` when it is scanned. -/
def scanned : LogArea := (logsPostdata env client a).2.1

/-- Some post data has not arrived. -/
def outstanding : Bool := (logsPostdata env client a).2.2

/-- The url asks for the script. -/
def refreshes : Bool := (strstr (logsPostdata env client a).1.urlText (ascii "?refresh")).isSome

/-- The length of the page with the rows of some lines, before the trailer. -/
def pageLength (ls : List (List UInt8)) : ℕ := (pageTop (refreshes env client a) ++ rowTexts ls).length

/-- The page is sent once and says how long it is, and the log is kept. -/
def AnswersOnce : Prop :=
  ∃ r body, httpUrlLogs env client a = .ok r ∧ r.ret = true ∧ r.sent = [response body] ∧
    env.Kept a.log r.area.log

/-- The post data is complete, the scan stays in `lines[]`, and no number of rows brings the page to
between 4073 and 4097 bytes. -/
def LogsFit : Prop :=
  outstanding env client a = false ∧ (scanned env client a).started.length ≤ maxLines ∧
    ∀ k, pageLength env client a ((scanned env client a).rows.take k) < 4073 ∨
      4097 < pageLength env client a ((scanned env client a).rows.take k)

/-- The page with the rows of all complete lines, and its trailer, fit in `http_outbuf`. -/
def AllFit : Prop :=
  pageLength env client a (scanned env client a).complete + logsTrailer.length < httpOutbufMaxlen

/-- The page has a row for every complete line, in order; if they do not all fit, for the first
ones. -/
def RowsShown : Prop :=
  ∃ r, httpUrlLogs env client a = .ok r ∧
    (AllFit env client a → r.sent =
      [response (logsBody (refreshes env client a) (scanned env client a).complete)]) ∧
    (¬AllFit env client a → ∀ page ∈ r.sent, ∃ k, page =
      response (logsBody (refreshes env client a) ((scanned env client a).complete.take k)))

instance : Decidable (AllFit env client a) := inferInstanceAs (Decidable (_ < _))

variable {env : LogsEnv} {client : HttpClient} {a : LogArea}

theorem scanned_kept : env.Kept a.log (scanned env client a).log := by
  unfold scanned logsPostdata
  simp only
  split
  · exact env.put_kept .extraBytes a
  · exact LogsEnv.Kept.refl env a.log

theorem httpUrlLogs_outstanding (h : outstanding env client a = true) :
    ∃ client', httpUrlLogs env client a = .ok ⟨client', scanned env client a, [], false⟩ := by
  unfold outstanding at h
  rcases hpost : logsPostdata env client a with ⟨client', a', pending⟩
  rw [hpost] at h
  simp only at h
  subst h
  exact ⟨client', by simp only [httpUrlLogs, scanned, hpost]⟩

theorem httpUrlLogs_full (h : outstanding env client a = false)
    (hmany : ¬(scanned env client a).started.length ≤ maxLines) :
    httpUrlLogs env client a = .error .outOfBounds := by
  unfold outstanding at h
  unfold scanned at hmany
  rcases hpost : logsPostdata env client a with ⟨client', a', pending⟩
  rw [hpost] at h hmany
  simp only at h hmany
  subst h
  simp only [httpUrlLogs, hpost]
  rw [LogArea.lines_eq, lineStarts_length, if_pos (Nat.lt_of_not_le hmany)]

/-- **The handler**: it sends the page, or nothing. -/
theorem httpUrlLogs_eq (h : outstanding env client a = false)
    (hlines : (scanned env client a).started.length ≤ maxLines) :
    (pageLength env client a (shown (pageLength env client a []) (scanned env client a).rows) ≤ 4072 →
      ∃ client' a', env.Kept (scanned env client a).log a'.log ∧ httpUrlLogs env client a =
        .ok ⟨client', a', [response (logsBody (refreshes env client a)
          (shown (pageLength env client a []) (scanned env client a).rows))], true⟩) ∧
    (4072 < pageLength env client a (shown (pageLength env client a []) (scanned env client a).rows) →
      ∃ client' a', httpUrlLogs env client a = .ok ⟨client', a', [], false⟩) := by
  unfold outstanding at h
  unfold pageLength refreshes scanned at *
  rcases hpost : logsPostdata env client a with ⟨client', a₁, pending⟩
  rw [hpost] at h hlines
  simp only at h hlines ⊢
  subst h
  obtain ⟨rest, hmain, hrest⟩ := a₁.main_rows
  -- the pairs of neighbouring line starts are the rows
  have hstarts : a₁.lines.zip a₁.lines.tail = rowPairs 0 a₁.rows := by
    rw [a₁.lines_eq, lineStarts_pairs, a₁.started_dropLast]
  generalize hre : (strstr client'.urlText (ascii "?refresh")).isSome = refresh
  have hpage := logsPage_eq env refresh hstarts a₁.rows_isLine hmain hrest
  have hmany : ¬a₁.lines.length > maxLines := by
    rw [a₁.lines_eq, lineStarts_length]
    omega
  have hfull : ∀ a₂, logsPage env refresh a₁.lines a₁ = .error a₂ →
      httpUrlLogs env client a = .ok ⟨client', a₂, [], false⟩ := by
    intro a₂ hout
    simp only [httpUrlLogs, hpost, hre, if_neg hmany, hout]
  have hsent : ∀ a₂ out, logsPage env refresh a₁.lines a₁ = .ok (a₂, out) →
      httpUrlLogs env client a
        = .ok ⟨client', if env.sendFails then env.put .sendFailed a₂ else a₂, [out], true⟩ := by
    intro a₂ out hout
    simp only [httpUrlLogs, hpost, hre, if_neg hmany, hout]
  rw [rowTexts_nil, List.append_nil, List.length_append]
  constructor
  · intro hroom
    rw [if_pos hroom] at hpage
    obtain ⟨a₂, ha₂, hrun⟩ := hpage
    -- the page writes no log line but the one of the row that is left out
    have hkept : env.Kept a₁.log a₂.log := by
      rcases ha₂ with rfl | rfl
      · exact LogsEnv.Kept.refl env _
      · exact env.put_kept .avoided a₁
    refine ⟨client', if env.sendFails then env.put .sendFailed a₂ else a₂, hkept.trans ?_, hsent a₂ _ hrun⟩
    split
    · exact env.put_kept .sendFailed a₂
    · exact LogsEnv.Kept.refl env _
  · intro hroom
    rw [if_neg (Nat.not_le_of_lt hroom)] at hpage
    obtain ⟨a₂, hrun⟩ := hpage
    exact ⟨client', a₂, hfull a₂ hrun⟩

theorem pageLength_add (ls : List (List UInt8)) :
    pageLength env client a ls = pageLength env client a [] + (rowTexts ls).length := by
  unfold pageLength
  rw [List.length_append, rowTexts_nil, List.append_nil]

theorem pageLength_nil : pageLength env client a [] ≤ 500 := by
  unfold pageLength
  rw [rowTexts_nil, List.append_nil]
  exact pageTop_length _

/-- With the post data complete and the scan in bounds, the rows that are begun decide. -/
theorem answersOnce_iff_room (hdone : outstanding env client a = false)
    (hlines : (scanned env client a).started.length ≤ maxLines) :
    AnswersOnce env client a ↔ ∀ k, pageLength env client a ((scanned env client a).rows.take k) < 4073 ∨
      4097 < pageLength env client a ((scanned env client a).rows.take k) := by
  have htop : pageLength env client a [] ≤ 500 := pageLength_nil
  have hfits := shown_fits (n := pageLength env client a []) (by omega) (scanned env client a).rows
  simp only [← pageLength_add] at hfits
  obtain ⟨hsent, hnot⟩ := httpUrlLogs_eq hdone hlines
  rw [← hfits]
  constructor
  · rintro ⟨r, body, hr, hret, -⟩
    by_contra hroom
    obtain ⟨client', a', hrun⟩ := hnot (Nat.lt_of_not_le hroom)
    rw [hrun, Except.ok.injEq] at hr
    rw [← hr] at hret
    exact absurd hret (by simp)
  · intro hroom
    obtain ⟨client', a', hkept, hrun⟩ := hsent hroom
    exact ⟨_, _, hrun, rfl, rfl, scanned_kept.trans hkept⟩

/-- **When the log page answers**: the handler sends one page with the right length, returns 1 and
keeps the log if and only if the rows it begins fit. -/
theorem answersOnce_iff (env : LogsEnv) (client : HttpClient) (a : LogArea) :
    AnswersOnce env client a ↔ LogsFit env client a := by
  unfold LogsFit
  by_cases hout : outstanding env client a = true
  · -- the handler waits for the rest of the post data
    obtain ⟨client', hrun⟩ := httpUrlLogs_outstanding hout
    simp only [hout, Bool.true_eq_false, false_and, iff_false]
    rintro ⟨r, body, hr, hret, -⟩
    rw [hrun, Except.ok.injEq] at hr
    rw [← hr] at hret
    exact absurd hret (by simp)
  have hdone : outstanding env client a = false := by simpa using hout
  by_cases hlines : (scanned env client a).started.length ≤ maxLines
  · rw [answersOnce_iff_room hdone hlines]
    exact ⟨fun h => ⟨hdone, hlines, h⟩, fun h => h.2.2⟩
  · have hrun := httpUrlLogs_full hdone hlines
    simp only [hlines, false_and, and_false, iff_false]
    rintro ⟨r, body, hr, -⟩
    rw [hrun] at hr
    cases hr

/-- The response says where its body begins. -/
theorem response_length {body : List UInt8} (h : body.length < 10 ^ 4) :
    (response body).length = 85 + body.length := by
  have hnum := blankPadded_length (w := 4) (by norm_num) h
  simp only [response, pageHeadFor, List.length_append, hnum]
  have h1 : (ascii "HTTP/1.1 200 OK\r\n").length = 17 := by decide
  have h2 : (ascii "Connection: close\r\n").length = 19 := by decide
  have h3 : (ascii "Content-type: text/html\r\n").length = 25 := by decide
  have h4 : (ascii "Content-length: ").length = 16 := by decide
  rw [h1, h2, h3, h4]
  simp [crlf]

/-- Pages with different numbers of rows have different lengths. -/
theorem response_rows {refresh : Bool} {ls : List (List UInt8)} {k : ℕ}
    (hfit : (logsBody refresh ls).length < 10 ^ 4)
    (h : response (logsBody refresh (ls.take k)) = response (logsBody refresh ls)) : ls.take k = ls := by
  have hbody : ∀ ls, (logsBody refresh ls).length =
      (logsTop refresh).flatten.length + (rowTexts ls).length + logsTrailer.length := by
    intro ls
    rw [logsBody, List.length_append, List.length_append]
  have hsplit : rowTexts ls = rowTexts (ls.take k) ++ rowTexts (ls.drop k) := by
    rw [rowTexts, rowTexts, rowTexts, ← List.flatMap_append, List.take_append_drop]
  have hsum := congrArg List.length hsplit
  rw [List.length_append] at hsum
  have hlen := congrArg List.length h
  rw [response_length hfit, response_length (by rw [hbody] at hfit ⊢; omega), hbody, hbody] at hlen
  have hrest : ls.drop k = [] := by
    rcases hdrop : ls.drop k with _ | ⟨l, rest⟩
    · rfl
    · rw [hdrop, rowTexts_cons, List.length_append, rowText_length] at hsum
      omega
  rw [← List.take_append_drop k ls, hrest, List.append_nil, List.take_take, min_self]

section
variable {env : LogsEnv} {client : HttpClient} {a : LogArea}

/-- While an earlier response is in the buffer nothing is shown. -/
theorem rowsShown_outstanding (hout : outstanding env client a = true) :
    RowsShown env client a ↔ ¬AllFit env client a := by
  obtain ⟨client', hrun⟩ := httpUrlLogs_outstanding hout
  unfold RowsShown
  constructor
  · rintro ⟨r, hr, hall, -⟩ hfit
    rw [hrun, Except.ok.injEq] at hr
    have := hall hfit
    rw [← hr] at this
    exact absurd this (by simp)
  · intro hnot
    exact ⟨_, hrun, fun hfit => absurd hfit hnot, by simp⟩

/-- More lines than `lines[]` holds: the handler runs out of the array. -/
theorem not_rowsShown_full (hout : outstanding env client a = false)
    (hlines : ¬(scanned env client a).started.length ≤ maxLines) : ¬RowsShown env client a := by
  have hrun := httpUrlLogs_full hout hlines
  rintro ⟨r, hr, -⟩
  rw [hrun] at hr
  cases hr

/-- Where a page of all lines fits, the rows shown are those between the line starts. -/
theorem rowsShown_fit (hout : outstanding env client a = false)
    (hlines : (scanned env client a).started.length ≤ maxLines) (hfit : AllFit env client a) :
    RowsShown env client a ↔ (scanned env client a).rows = (scanned env client a).complete := by
  have hcap : httpOutbufMaxlen = 4096 := rfl
  have htrailer : logsTrailer.length = 23 := by decide
  obtain ⟨hsent, -⟩ := httpUrlLogs_eq hout hlines
  obtain ⟨m, hrows⟩ := (scanned env client a).rows_take
  have hlen := hfit
  unfold AllFit at hlen
  rw [pageLength_add] at hlen
  have hsplit : rowTexts (scanned env client a).complete =
      rowTexts (scanned env client a).rows ++ rowTexts ((scanned env client a).complete.drop m) := by
    rw [hrows, rowTexts, rowTexts, rowTexts, ← List.flatMap_append, List.take_append_drop]
  rw [hsplit, List.length_append] at hlen
  have hsome : shown (pageLength env client a []) (scanned env client a).rows =
      (scanned env client a).rows := shown_all (by omega)
  rw [hsome, pageLength_add] at hsent
  obtain ⟨client', a', -, hrun⟩ := hsent (by omega)
  unfold RowsShown
  simp only [hfit, not_true_eq_false, false_implies, and_true, forall_const]
  constructor
  · -- one response has one number of rows
    rintro ⟨r, hr, hsent⟩
    rw [hrun, Except.ok.injEq] at hr
    rw [← hr] at hsent
    simp only [List.cons.injEq, and_true] at hsent
    rw [hrows] at hsent ⊢
    refine response_rows ?_ hsent
    rw [logsBody, List.length_append, List.length_append, hsplit, List.length_append]
    have htop : (logsTop (refreshes env client a)).flatten.length ≤ pageLength env client a [] := by
      rw [pageLength, pageTop, List.length_append, List.length_append]
      omega
    omega
  · intro hall
    rw [hall] at hrun
    exact ⟨_, hrun, rfl⟩

/-- Where it does not fit, the rows shown are the first ones, or there is no response. -/
theorem rowsShown_notFit (hout : outstanding env client a = false)
    (hlines : (scanned env client a).started.length ≤ maxLines) (hfit : ¬AllFit env client a) :
    RowsShown env client a := by
  obtain ⟨hsent, hnot⟩ := httpUrlLogs_eq hout hlines
  obtain ⟨m, hrows⟩ := (scanned env client a).rows_take
  obtain ⟨n, hshown⟩ := shown_prefix (pageLength env client a []) (scanned env client a).rows
  unfold RowsShown
  simp only [hfit, false_implies, true_and, not_false_eq_true, true_implies]
  rcases Nat.lt_or_ge 4072 (pageLength env client a
      (shown (pageLength env client a []) (scanned env client a).rows)) with hroom | hroom
  · -- no room for the trailer
    obtain ⟨client', a', hrun⟩ := hnot hroom
    exact ⟨_, hrun, by simp⟩
  · obtain ⟨client', a', -, hrun⟩ := hsent hroom
    refine ⟨_, hrun, fun page hpage => ⟨min n m, ?_⟩⟩
    rw [List.mem_singleton.mp hpage, hshown, hrows, List.take_take]

end

/-- **When the log page shows every line**: the last complete line has no row of its own, unless the
scan runs on behind it. -/
theorem rowsShown_iff (env : LogsEnv) (client : HttpClient) (a : LogArea) :
    RowsShown env client a ↔
      if outstanding env client a then ¬AllFit env client a
      else (scanned env client a).started.length ≤ maxLines ∧
        (AllFit env client a → (scanned env client a).complete = [] ∨ (scanned env client a).RunsOn) := by
  by_cases hout : outstanding env client a = true
  · rw [if_pos hout]
    exact rowsShown_outstanding hout
  rw [if_neg hout]
  have hdone : outstanding env client a = false := by simpa using hout
  by_cases hlines : (scanned env client a).started.length ≤ maxLines
  swap
  · exact iff_of_false (not_rowsShown_full hdone hlines) fun h => hlines h.1
  simp only [hlines, true_and]
  by_cases hfit : AllFit env client a
  · rw [rowsShown_fit hdone hlines hfit, LogArea.rows_eq_complete]
    exact ⟨fun h _ => h, fun h => h hfit⟩
  · exact iff_of_true (rowsShown_notFit hdone hlines hfit) fun h => absurd h hfit

end Handler

/-! ## Two logs -/

/-- A page without rows shows no line. -/
theorem not_rowsShown {env : LogsEnv} {client : HttpClient} {a : LogArea}
    (h : (httpUrlLogs env client a).toOption.map (·.sent) =
      some [response (logsBody (refreshes env client a) [])])
    (hfit : AllFit env client a) (hline : (scanned env client a).complete ≠ []) :
    ¬RowsShown env client a := by
  rintro ⟨r, hr, hall, -⟩
  have hlen : (logsBody (refreshes env client a) (scanned env client a).complete).length < 10 ^ 4 := by
    have hcap : httpOutbufMaxlen = 4096 := rfl
    unfold AllFit pageLength pageTop at hfit
    rw [List.length_append, List.length_append] at hfit
    rw [logsBody, List.length_append, List.length_append]
    omega
  rw [hr] at h
  simp only [Except.toOption, Option.map_some, Option.some.injEq] at h
  rw [hall hfit, List.cons.injEq, ← List.take_zero] at h
  have hnone := response_rows hlen h.1.symm
  rw [List.take_zero] at hnone
  exact hline hnone.symm

/-- A client that has asked for a page. -/
def asking (url : String) : HttpClient :=
  { HttpClient.zero with inuse := true, conn := some 0, state := .response,
                         url := (Buf.zero 256).memcpy 0 (ascii url) }

/-- The default level, and no failures. -/
def logsInfo : LogsEnv := ⟨20, fun _ => ⟨0, ascii "url_logs.c", 142⟩, false⟩

/-- An entry with a message of `n` characters. -/
def dashesLogged (n : ℕ) : LogCall :=
  { timeUs := 0, level := ascii "info", file := ascii "user_init.c", line := 48,
    mesg := List.replicate n 0x2d }

/-- A log of equal lines. -/
theorem logRun_replicate {c : LogCall} {l : List UInt8} (hstored : stored c.text = l ++ [LF]) {n : ℕ}
    (hn : n * (l.length + 1) ≤ logMainLen) :
    (logRun (List.replicate n c)).main.toList =
      joinLines (List.replicate n l) ++ List.replicate (logMainLen - n * (l.length + 1)) 0 := by
  have hlen : ∀ n, (joinLines (List.replicate n l)).length = n * (l.length + 1) := by
    intro n
    induction n with
    | zero => simp
    | succ n ih =>
      rw [List.replicate_succ, joinLines_length_cons, ih]
      ring
  induction n with
  | zero =>
    change List.replicate logMainLen 0 = [] ++ List.replicate (logMainLen - 0 * (l.length + 1)) 0
    rw [Nat.zero_mul, Nat.sub_zero, List.nil_append]
  | succ n ih =>
    rw [Nat.succ_mul] at hn
    have hcall : logRun (List.replicate (n + 1) c) = logEntry (logRun (List.replicate n c)) c := by
      rw [logRun, List.replicate_succ', List.foldl_append]
      rfl
    rw [hcall, logEntry_main, ih (by omega), hstored, ← List.append_assoc,
      show l ++ [LF] ++ joinLines (List.replicate n l) = joinLines (List.replicate (n + 1) l) by
        simp [List.replicate_succ], List.take_append, hlen, Nat.succ_mul,
      List.take_of_length_le (by rw [hlen, Nat.succ_mul]; exact hn), List.take_replicate]
    have hrest : min (logMainLen - (n * (l.length + 1) + (l.length + 1)))
        (logMainLen - n * (l.length + 1)) = logMainLen - (n * (l.length + 1) + (l.length + 1)) := by
      omega
    rw [hrest]

/-- Its lines. -/
theorem complete_replicate {c : LogCall} {l : List UInt8} (hstored : stored c.text = l ++ [LF])
    (hl : IsLine l) {n : ℕ} (hn : n * (l.length + 1) < logMainLen) (line : Buf 192) :
    (LogArea.mk (logRun (List.replicate n c)) line).complete = List.replicate n l ∧
      ¬(LogArea.mk (logRun (List.replicate n c)) line).Cut := by
  obtain ⟨m, hm⟩ : ∃ m, logMainLen - n * (l.length + 1) = m + 1 :=
    ⟨logMainLen - n * (l.length + 1) - 1, by omega⟩
  have hmain := logRun_replicate hstored (le_of_lt hn)
  have hzeros : splitLines (List.replicate (m + 1) 0) = ([], List.replicate (m + 1) 0) :=
    splitLines_tail (by simp [cstr, List.replicate_succ])
  have hsplit := splitLines_join (fun l' hl' => (List.mem_replicate.mp hl').2 ▸ hl : ∀ l' ∈ List.replicate n l, IsLine l')
    (List.replicate (m + 1) 0)
  rw [hm] at hmain
  rw [← hmain, hzeros, List.append_nil] at hsplit
  refine ⟨congrArg Prod.fst hsplit, fun hcut => hcut.2 ?_⟩
  have htail : (LogArea.mk (logRun (List.replicate n c)) line).tail = List.replicate (m + 1) 0 :=
    congrArg Prod.snd hsplit
  rw [htail]
  exact List.mem_replicate.mpr ⟨Nat.succ_ne_zero m, rfl⟩

/-- After fifteen lines of 225 bytes the page is not sent: its 14 rows leave fifteen bytes, too few
for the trailer. -/
theorem logs_unanswered :
    (LogArea.mk (logRun (List.replicate 15 (dashesLogged 188))) (Buf.zero 192)).complete.length = 15 ∧
      ¬AnswersOnce logsInfo (asking "/logs")
        ⟨logRun (List.replicate 15 (dashesLogged 188)), Buf.zero 192⟩ := by
  obtain ⟨l, hstored, hlen, hl⟩ :
      ∃ l, stored (dashesLogged 188).text = l ++ [LF] ∧ l.length = 224 ∧ IsLine l := by
    have hline : stored (dashesLogged 188).text = (dashesLogged 188).text.take 224 ++ [LF] ∧
        ((dashesLogged 188).text.take 224).length = 224 ∧ IsLine ((dashesLogged 188).text.take 224) := by
      unfold IsLine
      decide +kernel
    exact ⟨_, hline⟩
  obtain ⟨hcomplete, hcut⟩ := complete_replicate hstored hl (n := 15)
    (by rw [hlen]; decide) (Buf.zero 192)
  generalize ha : LogArea.mk (logRun (List.replicate 15 (dashesLogged 188))) (Buf.zero 192) = a at *
  have hscanned : scanned logsInfo (asking "/logs") a = a := rfl
  have hstarted : a.started = List.replicate 15 l := by
    rw [LogArea.started, if_neg fun h => hcut h.1, hcomplete, List.append_nil]
  have hrows : a.rows = List.replicate 14 l := by
    rw [← LogArea.started_dropLast, hstarted]
    rfl
  have htop : pageLength logsInfo (asking "/logs") a [] = 301 := by
    have hrefresh : refreshes logsInfo (asking "/logs") a = false := by
      change (strstr (asking "/logs").urlText (ascii "?refresh")).isSome = false
      decide
    unfold pageLength
    rw [hrefresh, rowTexts_nil, List.append_nil, pageTop_lengths.1]
  refine ⟨by rw [hcomplete, List.length_replicate], ?_⟩
  rw [answersOnce_iff_room rfl (by rw [hscanned, hstarted, List.length_replicate]; decide)]
  intro hall
  -- 301 bytes of page and 14 rows of 270 bytes make 4081
  have hgap := hall 14
  rw [pageLength_add, htop, hscanned, hrows, List.take_replicate] at hgap
  have hlast : (rowTexts (List.replicate (min 14 14) l)).length = 14 * 270 := by
    simp only [Nat.min_self, List.replicate, rowTexts_cons, rowTexts_nil, List.length_append,
      rowText_length, hlen, List.length_nil]
  omega

/-- The page of a log with one line has no rows. -/
theorem logs_without_rows :
    (LogArea.mk (logRun [dashesLogged 1]) (Buf.zero 192)).complete.length = 1 ∧
      ¬RowsShown logsInfo (asking "/logs") ⟨logRun [dashesLogged 1], Buf.zero 192⟩ := by
  constructor
  · decide
  · apply not_rowsShown
    · decide +kernel
    · decide +kernel
    · decide

end Esp8266Toolbox
