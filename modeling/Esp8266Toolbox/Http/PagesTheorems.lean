import Esp8266Toolbox.Lib.HttpResponse
import Esp8266Toolbox.Http.LogPage
import Esp8266Toolbox.Http.Ota
import Esp8266Toolbox.Http.WifiSetup

/-!
# Every page is a complete response

A client that reads a status line, headers and as many bytes as `Content-length` says comes to the
end of each page exactly, whichever handler has made it. The page of `http_url_uptime` also shows
the time it was made for.
-/

namespace Esp8266Toolbox

/-- A client finds the end of the page, whatever follows it, and a status and a body in it. -/
def CompletePage (page : List UInt8) (r : HttpResponse) : Prop :=
  ∀ rest, readResponse (page ++ rest) = some (r, rest)

/-! ## The two forms of a page -/

/-- The header lines of every page. -/
def pageLines (type number : List UInt8) : List (List UInt8) :=
  [ascii "Connection: close", ascii "Content-type: " ++ type, lengthLine number]

/-- A page with these lines, and the right number in the last of them. -/
theorem completePage_text {r : HttpResponse} {type number : List UInt8} (hstatus : CR ∉ r.status)
    (htype : CR ∉ type) (hnumber : CR ∉ number)
    (hlength : headerNumber (lengthLine number) = r.body.length) :
    CompletePage (r.text (pageLines type number)) r := by
  have hlines : ∀ l ∈ pageLines type number, CR ∉ l ∧ l ≠ [] := by
    have hconn : CR ∉ ascii "Connection: close" ∧ ascii "Connection: close" ≠ [] := by decide
    have hname : CR ∉ ascii "Content-type: " ∧ ascii "Content-type: " ≠ [] := by decide
    have hlen : CR ∉ lengthName ++ [SP] ∧ lengthName ≠ [] := by decide
    rw [pageLines, List.forall_mem_cons, List.forall_mem_cons, List.forall_mem_singleton]
    refine ⟨hconn, ⟨?_, by simp [hname.2]⟩, ?_, by simp [lengthLine, hlen.2]⟩
    · rw [List.mem_append, not_or]
      exact ⟨hname.1, htype⟩
    · rw [lengthLine, ← List.singleton_append, ← List.append_assoc, List.mem_append, not_or]
      exact ⟨hlen.1, hnumber⟩
  have hfind : contentLength (pageLines type number) = some r.body.length := by
    have hconn : lengthName.isPrefixOf (ascii "Connection: close") = false := by decide
    have htype' : lengthName.isPrefixOf (ascii "Content-type: " ++ type) = false := by
      have hcut : ¬lengthName.take 9 <+: ascii "Content-type: " ++ type := by
        intro h
        have hshort := List.prefix_of_prefix_length_le h (List.prefix_append (ascii "Content-type: ") type)
          (by decide)
        exact absurd hshort (by decide)
      rw [Bool.eq_false_iff, ne_eq, List.isPrefixOf_iff_prefix]
      exact fun h => hcut ((List.take_prefix 9 lengthName).trans h)
    have hself : lengthName.isPrefixOf (lengthLine number) = true :=
      List.isPrefixOf_iff_prefix.mpr (List.prefix_append lengthName (SP :: number))
    simp [contentLength, pageLines, hconn, htype', hself, hlength]
  exact fun rest => readResponse_text r hstatus hlines hfind rest

/-- The status line `HTTP/1.1 200 OK`. -/
def statusOk : List UInt8 := ascii "HTTP/1.1 200 OK"

theorem ascii_ok : ascii "HTTP/1.1 200 OK\r\n" = statusOk ++ crlf := by decide

theorem ascii_close : ascii "Connection: close\r\n" = ascii "Connection: close" ++ crlf := by decide

theorem ascii_html :
    ascii "Content-type: text/html\r\n" = ascii "Content-type: " ++ ascii "text/html" ++ crlf := by
  decide

/-- A page that begins with the template for its length. -/
theorem completePage_response (body : List UInt8) : CompletePage (response body) ⟨statusOk, body⟩ := by
  have htext : response body = HttpResponse.text ⟨statusOk, body⟩
      (pageLines (ascii "text/html") (blankPadded 4 body.length)) := by
    have hlength : ascii "Content-length: " = lengthName ++ [SP] := by decide
    rw [response, pageHeadFor, ascii_ok, ascii_close, ascii_html, hlength]
    simp [HttpResponse.text, pageLines, lengthLine]
  have hnumber : CR ∉ blankPadded 4 body.length := by
    rw [blankPadded, List.mem_append, not_or]
    refine ⟨fun h => ?_, fun h => ?_⟩
    · exact absurd (List.eq_of_mem_replicate h) (by decide)
    · exact absurd (isdigit_of_mem_decimal h) (by decide)
  rw [htext]
  have hstatus : CR ∉ statusOk := by decide
  exact completePage_text hstatus (by decide) hnumber (headerNumber_blanks _ _)

/-! ## Pages put together by appends -/

theorem outbufAppends_some {out out' : List UInt8} {srcs : List (List UInt8)}
    (hout : out.length < httpOutbufMaxlen) (h : outbufAppends out srcs = some out') :
    out' = out ++ srcs.flatten ∧ out'.length < httpOutbufMaxlen := by
  rw [outbufAppends_eq hout] at h
  split at h
  · rename_i hroom
    rw [← Option.some.inj h, List.length_append]
    exact ⟨rfl, hroom⟩
  · cases h

/-- The template filled in, for what has been appended behind it. -/
theorem finishPage_response {body : List UInt8} (hbody : (pageHead.flatten ++ body).length < httpOutbufMaxlen) :
    finishPage (pageHead.flatten ++ body) = response body := by
  have hcap : httpOutbufMaxlen = 4096 := rfl
  rw [List.length_append] at hbody
  rw [finishPage, List.length_append, Nat.add_sub_cancel_left, patchLength_pageHead _ (by omega), response]

/-- The answers that the program gives. -/
inductive HttpStatus where
  | ok | accepted | badRequest | notFound
deriving DecidableEq, Repr

/-- The status line. -/
def HttpStatus.line : HttpStatus → List UInt8
  | .ok => statusOk
  | .accepted => ascii "HTTP/1.1 202 Accepted"
  | .badRequest => ascii "HTTP/1.1 400 Bad Request"
  | .notFound => ascii "HTTP/1.1 404 Not Found"

theorem HttpStatus.line_spec : ∀ st : HttpStatus, CR ∉ st.line ∧ ∀ st' : HttpStatus, st.line = st'.line → st = st' := by
  intro st
  cases st <;> refine ⟨by decide, fun st' => ?_⟩ <;> cases st' <;> decide

/-- A page that a client reads to its end, with one of the status lines of the program. -/
def Answers (page : List UInt8) (st : HttpStatus) : Prop := ∃ body, CompletePage page ⟨st.line, body⟩

/-- A page gives one answer. -/
theorem Answers.unique {page : List UInt8} {st st' : HttpStatus} (h : Answers page st) (h' : Answers page st') :
    st = st' := by
  obtain ⟨body, hbody⟩ := h
  obtain ⟨body', hbody'⟩ := h'
  have hsame := (hbody []).symm.trans (hbody' [])
  simp only [Option.some.injEq, Prod.mk.injEq, HttpResponse.mk.injEq, and_true] at hsame
  exact (HttpStatus.line_spec st).2 st' hsame.1

theorem answers_response (body : List UInt8) : Answers (response body) .ok := ⟨body, completePage_response body⟩

/-- A page whose length stands in the source. -/
theorem answers_fixed (st : HttpStatus) (number : List UInt8) {body line length : List UInt8}
    (hline : line = st.line ++ crlf) (hlength : length = lengthLine number ++ crlf) (hnumber : CR ∉ number)
    (hbody : headerNumber (lengthLine number) = body.length) :
    Answers ([line, ascii "Connection: close\r\n", ascii "Content-type: text/html\r\n", length, crlf,
      body].flatten) st := by
  have htext : [line, ascii "Connection: close\r\n", ascii "Content-type: text/html\r\n", length, crlf,
      body].flatten = HttpResponse.text ⟨st.line, body⟩ (pageLines (ascii "text/html") number) := by
    rw [hline, hlength, ascii_close, ascii_html]
    simp [HttpResponse.text, pageLines]
  have htype : CR ∉ ascii "text/html" := by decide
  exact ⟨body, htext ▸ completePage_text st.line_spec.1 htype hnumber hbody⟩

theorem page_of_appends {srcs : List (List UInt8)} {page : List UInt8} (h : page ∈ outbufAppends [] srcs) :
    page = srcs.flatten := by
  rw [(outbufAppends_some (by decide) h).1, List.nil_append]

theorem answers_404 : ∀ page ∈ page404, Answers page .notFound := by
  intro page h
  rw [page_of_appends h]
  exact answers_fixed .notFound (ascii "49") (by decide) (by decide) (by decide) (by decide)

theorem answers_blank : ∀ page ∈ pageBlank, Answers page .ok := by
  intro page h
  rw [page_of_appends h]
  exact answers_fixed .ok (ascii "27") ascii_ok (by decide) (by decide) (by decide)

theorem answers_accepted : Answers acceptedPage .accepted :=
  answers_fixed .accepted (ascii "48") (by decide) (by decide) (by decide) (by decide)

theorem answers_badRequest : Answers setupBadRequest.flatten .badRequest :=
  answers_fixed .badRequest (ascii "51") (by decide) (by decide) (by decide) (by decide)

theorem answers_level : Answers pageLevel.flatten .ok :=
  answers_fixed .ok (ascii "42") ascii_ok (by decide) (by decide) (by decide)

/-- A page with another answer is not the page `202 Accepted`. -/
theorem Answers.ne_accepted {page : List UInt8} {st : HttpStatus} (h : Answers page st) (hst : st ≠ .accepted) :
    page ≠ acceptedPage := fun hpage => hst (h.unique (hpage ▸ answers_accepted))

/-! ## The pages with a template -/

/-- What appends have put behind the template of a page. -/
def Behind (out body : List UInt8) : Prop :=
  out = pageHead.flatten ++ body ∧ out.length < httpOutbufMaxlen

theorem behind_appends {out out' body : List UInt8} {srcs : List (List UInt8)} (hout : Behind out body)
    (h : outbufAppends out srcs = some out') : Behind out' (body ++ srcs.flatten) := by
  obtain ⟨heq, hlen⟩ := outbufAppends_some hout.2 h
  exact ⟨by rw [heq, hout.1, List.append_assoc], hlen⟩

theorem behind_head {out : List UInt8} {srcs : List (List UInt8)}
    (h : outbufAppends [] (pageHead ++ srcs) = some out) : Behind out srcs.flatten := by
  obtain ⟨heq, hlen⟩ := outbufAppends_some (by decide) h
  rw [List.flatten_append, List.nil_append] at heq
  exact ⟨heq, hlen⟩

theorem behind_append {out out' body src : List UInt8} (hout : Behind out body)
    (h : outbufAppend out src = some out') : Behind out' (body ++ src) := by
  have happends : outbufAppends out [src] = some out' := by
    rw [outbufAppends, List.foldlM_cons, h]
    rfl
  have hbehind := behind_appends hout happends
  rwa [List.flatten_singleton] at hbehind

theorem behind_printf {out out' body src : List UInt8} (hout : Behind out body)
    (h : outbufPrintf out src = some out') : Behind out' (body ++ src) := by
  rw [outbufPrintf] at h
  split at h
  · cases h
  · exact behind_append hout h

theorem finishPage_behind {out body : List UInt8} (h : Behind out body) : finishPage out = response body := by
  obtain ⟨rfl, hlen⟩ := h
  exact finishPage_response hlen

/-- The page of `http_url_version`. -/
theorem answers_version (built : BuildDatetime) : ∀ page ∈ pageVersion built, Answers page .ok := by
  intro page h
  simp only [pageVersion, Option.bind_eq_bind, Option.mem_def, Option.bind_eq_some_iff,
    Option.pure_def, Option.some.injEq] at h
  obtain ⟨out₁, h₁, out₂, h₂, out₃, h₃, rfl⟩ := h
  rw [finishPage_behind (behind_append (behind_printf (behind_head h₁) h₂) h₃)]
  exact answers_response _

/-- The page of `http_url_ota_bin`. -/
theorem answers_otaBin (userbin : Fin 2) (client : HttpClient) :
    ∀ page ∈ pageOtaBin userbin client, Answers page .ok := by
  have hfixed : ∀ {srcs : List (List UInt8)} {text page : List UInt8},
      page ∈ (outbufAppends [] srcs).bind (outbufPrintf · text) → page = srcs.flatten ++ text := by
    intro srcs text page h
    obtain ⟨out, hout, hprint⟩ := Option.bind_eq_some_iff.mp h
    obtain ⟨heq, hlen⟩ := outbufAppends_some (by decide) hout
    rw [outbufPrintf, outbufAppend] at hprint
    split at hprint
    · cases hprint
    · split at hprint
      · cases hprint
      · rw [← Option.some.inj hprint, heq, List.nil_append]
  obtain ⟨d, hd⟩ : ∃ d : UInt8, decimal userbin = [d] := ⟨_, decimal_of_lt (by omega)⟩
  intro page h
  rw [pageOtaBin, hd] at h
  split at h
  · have htype : ascii "Content-type: text/plain\r\n"
        = ascii "Content-type: " ++ ascii "text/plain" ++ crlf := by decide
    have hlength : ascii "Content-length: 2\r\n" = lengthLine (ascii "2") ++ crlf := by decide
    have htext : page = HttpResponse.text ⟨statusOk, [d] ++ [LF]⟩ (pageLines (ascii "text/plain") (ascii "2")) := by
      rw [hfixed h, ascii_ok, ascii_close, htype, hlength]
      simp [HttpResponse.text, pageLines]
    have hnumber : headerNumber (lengthLine (ascii "2")) = ([d] ++ [LF]).length :=
      (show headerNumber (lengthLine (ascii "2")) = 2 by decide)
    exact ⟨[d] ++ [LF], htext ▸ completePage_text (HttpStatus.line_spec .ok).1 (by decide) (by decide) hnumber⟩
  · have hlen : (ascii "<html><body><h1>").length = 16 ∧ (ascii "</h1></body></html>\n").length = 20 := by
      decide
    have hnumber : headerNumber (lengthLine (ascii "37")) = 37 := by decide
    rw [hfixed h, ← List.flatten_concat]
    exact answers_fixed .ok (ascii "37") ascii_ok (by decide) (by decide)
      (by rw [hnumber, List.length_append, List.length_append, hlen.1, hlen.2]; rfl)

theorem ascii_append (a b : String) : ascii (a ++ b) = ascii a ++ ascii b := by simp [ascii]

/-- The answers of `http_url_ota_push` are those of the setup pages. -/
theorem ascii_response : ascii response202 = setupAccepted.flatten ∧ ascii response400 = setupBadRequest.flatten := by
  have h202 : response202 = "HTTP/1.1 202 Accepted\r\n" ++ ("Connection: close\r\n" ++
      ("Content-type: text/html\r\n" ++ ("Content-length: 48\r\n" ++ ("\r\n" ++
        "<html><body><h1>202 Accepted</h1></body></html>\n")))) := by decide +kernel
  have h400 : response400 = "HTTP/1.1 400 Bad Request\r\n" ++ ("Connection: close\r\n" ++
      ("Content-type: text/html\r\n" ++ ("Content-length: 51\r\n" ++ ("\r\n" ++
        "<html><body><h1>400 Bad Request</h1></body></html>\n")))) := by decide +kernel
  have hcrlf : ascii "\r\n" = crlf := by decide
  rw [h202, h400]
  simp only [ascii_append, hcrlf, setupAccepted, setupBadRequest, List.flatten_cons, List.flatten_nil,
    List.append_nil, and_self]

theorem answers_push {result : OtaResult} {text : String} (h : result.response = some text) :
    Answers (ascii text) (if result = .accepted then .accepted else .badRequest) := by
  obtain ⟨h202, h400⟩ := ascii_response
  cases result with
  | accepted =>
    rw [← Option.some.inj h, h202]
    exact answers_accepted
  | rejected error =>
    rw [← Option.some.inj h, h400]
    exact answers_badRequest
  | pending => cases h
  | crashed => cases h

/-- The answer that an exit of the setup pages leads to. -/
def SetupExit.status : SetupExit → HttpStatus
  | .done => .accepted
  | .form => .ok
  | .fail => .badRequest

/-- The answers of the page for the mail account. -/
theorem answers_setup (exit : SetupExit) : ∀ page ∈ exit.page, Answers page exit.status := by
  intro page h
  cases exit with
  | done =>
    rw [← Option.some.inj (page_done.symm.trans h)]
    exact answers_accepted
  | fail =>
    rw [← Option.some.inj (page_fail.symm.trans h)]
    exact answers_badRequest
  | form =>
    rw [← Option.some.inj (page_form.symm.trans h)]
    exact answers_response _

/-- The answers of the page for the network. -/
theorem answers_wifi (exit : SetupExit) : ∀ page ∈ wifiPage exit, Answers page exit.status := by
  intro page h
  cases exit with
  | done => exact answers_setup .done page h
  | fail => exact answers_setup .fail page h
  | form =>
    rw [← Option.some.inj (wifiPage_form.symm.trans h)]
    exact answers_response _

/-! ## The log page -/

theorem behind_logsAppend {env : LogsEnv} {a : LogArea} {out out' body : List UInt8}
    {srcs : List (List UInt8)} (hout : Behind out body) (h : logsAppend env a out srcs = .ok out') :
    ∃ body', Behind out' body' := by
  rw [logsAppend] at h
  split at h
  · cases h
  · rename_i happends
    rw [← Except.ok.inj h]
    exact ⟨_, behind_appends hout happends⟩

theorem behind_logsRows {env : LogsEnv} {pairs : List (ℕ × ℕ)} {a a' : LogArea} {out out' body : List UInt8}
    (hout : Behind out body) (h : logsRows env pairs a out = .ok (a', out')) :
    ∃ body', Behind out' body' := by
  induction pairs generalizing a out body with
  | nil =>
    obtain ⟨-, rfl⟩ := Prod.mk.inj (Except.ok.inj h)
    exact ⟨body, hout⟩
  | cons pq rest ih =>
    obtain ⟨p, q⟩ := pq
    rw [logsRows] at h
    split at h
    · obtain ⟨-, rfl⟩ := Prod.mk.inj (Except.ok.inj h)
      exact ⟨body, hout⟩
    · rcases hrow : logsRow env a out p q with e | ⟨a₁, out₁⟩
      · rw [hrow] at h
        cases h
      · rw [hrow] at h
        rcases happ : logsAppend env (a.poke q 0) out [rowBeg, cstr ((a.poke q 0).mem.drop p), rowEnd]
          with e | out₂
        · rw [logsRow, happ] at hrow
          cases hrow
        · rw [logsRow, happ] at hrow
          obtain ⟨-, rfl⟩ := Prod.mk.inj (Except.ok.inj hrow)
          obtain ⟨body₁, hbody₁⟩ := behind_logsAppend hout happ
          exact ih hbody₁ h

theorem logsPage_response {env : LogsEnv} {refresh : Bool} {lines : List ℕ} {a a' : LogArea}
    {page : List UInt8} (h : logsPage env refresh lines a = .ok (a', page)) : ∃ body, page = response body := by
  have hempty : ([] : List UInt8).length < httpOutbufMaxlen := by decide
  rcases hhead : logsAppend env a [] pageHead with e | out₁
  · rw [logsPage, hhead] at h
    cases h
  have hout₁ : Behind out₁ [] := by
    rw [logsAppend] at hhead
    split at hhead
    · cases hhead
    · rename_i happends
      obtain ⟨heq, hlen⟩ := outbufAppends_some hempty happends
      rw [← Except.ok.inj hhead]
      exact ⟨by rw [heq, List.nil_append, List.append_nil], hlen⟩
  rcases htop : logsAppend env a out₁ (logsTop refresh) with e | out₂
  · rw [logsPage, hhead, Loops.ok_bind] at h
    dsimp only at h
    rw [htop] at h
    cases h
  obtain ⟨body₂, hout₂⟩ := behind_logsAppend hout₁ htop
  rcases hrows : logsRows env (lines.zip lines.tail) a out₂ with e | ⟨a₃, out₃⟩
  · rw [logsPage, hhead, Loops.ok_bind] at h
    dsimp only at h
    rw [htop, Loops.ok_bind, hrows] at h
    cases h
  obtain ⟨body₃, hout₃⟩ := behind_logsRows hout₂ hrows
  rcases htrailer : logsAppend env a₃ out₃ [logsTrailer] with e | out₄
  · rw [logsPage, hhead, Loops.ok_bind] at h
    dsimp only at h
    rw [htop, Loops.ok_bind, hrows, Loops.ok_bind] at h
    dsimp only at h
    rw [htrailer] at h
    cases h
  obtain ⟨body₄, hout₄⟩ := behind_logsAppend hout₃ htrailer
  rw [logsPage, hhead, Loops.ok_bind] at h
  dsimp only at h
  rw [htop, Loops.ok_bind, hrows, Loops.ok_bind] at h
  dsimp only at h
  rw [htrailer, Loops.ok_bind] at h
  have hlen : out₁.length = pageHead.flatten.length := by rw [hout₁.1, List.append_nil]
  have hpage : patchLength out₄ (out₄.length - out₁.length) = page := (Prod.mk.inj (Except.ok.inj h)).2
  rw [hlen] at hpage
  exact ⟨body₄, by rw [← hpage]; exact finishPage_behind hout₄⟩

/-- Whatever the log holds, a log page that is sent is complete. -/
theorem answers_logs {env : LogsEnv} {client : HttpClient} {a : LogArea} {run : LogsRun}
    (h : httpUrlLogs env client a = .ok run) : ∀ page ∈ run.sent, Answers page .ok := by
  unfold httpUrlLogs at h
  split at h
  · rw [← Except.ok.inj h]
    simp
  · split at h
    · cases h
    · dsimp only at h
      split at h
      · rw [← Except.ok.inj h]
        simp
      · rename_i hpage
        obtain ⟨body, rfl⟩ := logsPage_response hpage
        rw [← Except.ok.inj h]
        simpa using answers_response body

/-! ## The uptime, read off its page -/

/-- The number at the front of a text, and the rest. -/
def takeNumber (s : List UInt8) : ℕ × List UInt8 := (decNat (s.takeWhile isdigit), s.dropWhile isdigit)

/-- The seconds of a text `hh:mm:ss`. -/
def readClock (s : List UInt8) : ℕ :=
  let (hours, s) := takeNumber s
  let (mins, s) := takeNumber s.tail
  let (secs, _) := takeNumber s.tail
  (hours * 60 + mins) * 60 + secs

/-- The front of the body. -/
def uptimeFront : List UInt8 := ascii "<html><body>" ++ ascii "<h1>Uptime of "

/-- The seconds that a page says. -/
def readUptime (body : List UInt8) : ℕ :=
  let text := body.drop uptimeFront.length
  let (n, rest) := takeNumber text
  if rest.head? = some SP then n * 86400 + readClock (rest.drop (ascii " days ").length)
  else readClock text

theorem takeNumber_append {ds : List UInt8} (hds : ∀ c ∈ ds, isdigit c = true) {c : UInt8}
    (hc : isdigit c = false) (rest : List UInt8) :
    takeNumber (ds ++ c :: rest) = (decNat ds, c :: rest) := by
  rw [takeNumber, List.takeWhile_append_of_pos hds, List.dropWhile_append_of_pos hds]
  simp [hc]

theorem isdigit_of_mem_padded {w n : ℕ} {c : UInt8} (hc : c ∈ padded w n) : isdigit c = true := by
  rw [padded, List.mem_append] at hc
  rcases hc with hc | hc
  · rw [List.eq_of_mem_replicate hc]
    rfl
  · exact isdigit_of_mem_decimal hc

theorem decNat_padded (w n : ℕ) : decNat (padded w n) = n := by
  have hzeros : ∀ k : ℕ, (List.replicate k (0x30 : UInt8)).foldl
      (fun acc d => acc * 10 + (d.toNat - 48)) 0 = 0 := by
    intro k
    induction k with
    | zero => rfl
    | succ k ih => rw [List.replicate_succ, List.foldl_cons]; exact ih
  rw [decNat, padded, List.foldl_append, hzeros, ← decNat, decNat_decimal]

/-- The text `hh:mm:ss`, with what is behind it. -/
def clockText (hours mins secs : ℕ) (rest : List UInt8) : List UInt8 :=
  padded 2 hours ++ 0x3a :: (padded 2 mins ++ 0x3a :: (padded 2 secs ++ 0x3c :: rest))

theorem readClock_clockText (hours mins secs : ℕ) (rest : List UInt8) :
    readClock (clockText hours mins secs rest) = (hours * 60 + mins) * 60 + secs := by
  have hcolon : isdigit 0x3a = false := by decide
  have hless : isdigit 0x3c = false := by decide
  have hdigits (n : ℕ) : ∀ c ∈ padded 2 n, isdigit c = true := fun c hc => isdigit_of_mem_padded hc
  rw [readClock, clockText, takeNumber_append (hdigits hours) hcolon]
  dsimp only [List.tail_cons]
  rw [takeNumber_append (hdigits mins) hcolon]
  dsimp only [List.tail_cons]
  rw [takeNumber_append (hdigits secs) hless, decNat_padded, decNat_padded, decNat_padded]

theorem foldlM_outbufPrintf (out : List UInt8) {srcs : List (List UInt8)}
    (hsrcs : ∀ src ∈ srcs, src.length < 128) (hroom : out.length + srcs.flatten.length < httpOutbufMaxlen) :
    srcs.foldlM outbufPrintf out = some (out ++ srcs.flatten) := by
  induction srcs generalizing out with
  | nil => simp
  | cons src srcs ih =>
    obtain ⟨hsrc, hrest⟩ := List.forall_mem_cons.mp hsrcs
    rw [List.flatten_cons, List.length_append] at hroom
    have hfirst : outbufPrintf out src = some (out ++ src) := by
      rw [outbufPrintf, if_neg (by omega), outbufAppend, if_neg (by omega)]
    have hroom' : (out ++ src).length + srcs.flatten.length < httpOutbufMaxlen := by
      rw [List.length_append]
      omega
    rw [List.foldlM_cons, hfirst, Option.bind_eq_bind, Option.bind_some, ih (out ++ src) hrest hroom',
      List.flatten_cons, List.append_assoc]

/-- The days, hours, minutes and seconds of the page. -/
theorem uptimeText_eq (uptimeUs : UInt64) :
    (uptimeText uptimeUs).flatten =
      (if uptimeUs.toNat / 1000000 / 86400 > 0 then
        decimal (uptimeUs.toNat / 1000000 / 86400) ++ ascii " days " else []) ++
      clockText (uptimeUs.toNat / 1000000 % 86400 / 3600) (uptimeUs.toNat / 1000000 % 86400 % 3600 / 60)
        (uptimeUs.toNat / 1000000 % 86400 % 3600 % 60) (ascii "/h1>") := by
  have hlt := uptimeUs.toNat_lt
  have hday : ((60 * 60 * 24 : UInt64)).toNat = 86400 := rfl
  have hhour : ((60 * 60 : UInt64)).toNat = 3600 := rfl
  have hdays : (uptimeUs / 1000000 / (60 * 60 * 24)).toUInt32.toNat = uptimeUs.toNat / 1000000 / 86400 := by
    rw [UInt64.toNat_toUInt32, UInt64.toNat_div, UInt64.toNat_div, hday,
      show (1000000 : UInt64).toNat = 1000000 from rfl]
    omega
  have hhours : (uptimeUs / 1000000 % (60 * 60 * 24) / (60 * 60)).toUInt8.toNat
      = uptimeUs.toNat / 1000000 % 86400 / 3600 := by
    rw [UInt64.toNat_toUInt8, UInt64.toNat_div, UInt64.toNat_mod, UInt64.toNat_div, hday, hhour,
      show (1000000 : UInt64).toNat = 1000000 from rfl]
    omega
  have hmins : (uptimeUs / 1000000 % (60 * 60 * 24) % (60 * 60) / 60).toUInt8.toNat
      = uptimeUs.toNat / 1000000 % 86400 % 3600 / 60 := by
    rw [UInt64.toNat_toUInt8, UInt64.toNat_div, UInt64.toNat_mod, UInt64.toNat_mod, UInt64.toNat_div, hday,
      hhour, show (1000000 : UInt64).toNat = 1000000 from rfl, show (60 : UInt64).toNat = 60 from rfl]
    omega
  have hsecs : (uptimeUs / 1000000 % (60 * 60 * 24) % (60 * 60) % 60).toUInt8.toNat
      = uptimeUs.toNat / 1000000 % 86400 % 3600 % 60 := by
    rw [UInt64.toNat_toUInt8, UInt64.toNat_mod, UInt64.toNat_mod, UInt64.toNat_mod, UInt64.toNat_div, hday,
      hhour, show (1000000 : UInt64).toNat = 1000000 from rfl, show (60 : UInt64).toNat = 60 from rfl]
    omega
  have hpos : (uptimeUs / 1000000 / (60 * 60 * 24)).toUInt32 > 0 ↔ uptimeUs.toNat / 1000000 / 86400 > 0 := by
    rw [gt_iff_lt, UInt32.lt_iff_toNat_lt, hdays]
    rfl
  have hclock (h m s : ℕ) : padded 2 h ++ ascii ":" ++ padded 2 m ++ ascii ":" ++ padded 2 s ++ ascii "</h1>"
      = clockText h m s (ascii "/h1>") := by
    have hcolon : ascii ":" = [0x3a] := by decide
    have hend : ascii "</h1>" = 0x3c :: ascii "/h1>" := by decide
    rw [hcolon, hend, clockText]
    simp
  simp only [uptimeText, hdays, hhours, hmins, hsecs, hpos, hclock]
  split <;> simp

theorem length_decimal_le {n k : ℕ} (hk : 0 < k) (hn : n < 10 ^ k) : (decimal n).length ≤ k := by
  rw [decimal, List.length_map]
  exact (Nat.length_toDigits_le_iff (by norm_num) hk).mpr hn

theorem length_uptimeText (uptimeUs : UInt64) : ∀ src ∈ uptimeText uptimeUs, src.length < 32 := by
  have hhours : (uptimeUs / 1000000 % (60 * 60 * 24) / (60 * 60)).toUInt8.toNat < 10 ^ 3 :=
    (UInt8.toNat_lt _).trans (by norm_num)
  have hmins : (uptimeUs / 1000000 % (60 * 60 * 24) % (60 * 60) / 60).toUInt8.toNat < 10 ^ 3 :=
    (UInt8.toNat_lt _).trans (by norm_num)
  have hsecs : (uptimeUs / 1000000 % (60 * 60 * 24) % (60 * 60) % 60).toUInt8.toNat < 10 ^ 3 :=
    (UInt8.toNat_lt _).trans (by norm_num)
  have hdays : (uptimeUs / 1000000 / (60 * 60 * 24)).toUInt32.toNat < 10 ^ 10 :=
    (UInt32.toNat_lt _).trans (by norm_num)
  have hpadded {n : ℕ} (hn : n < 10 ^ 3) : (padded 2 n).length ≤ 3 := by
    have hlen := length_decimal_le (by norm_num) hn
    rw [padded, List.length_append, List.length_replicate]
    omega
  have hconst : (ascii " days ").length = 6 ∧ (ascii ":").length = 1 ∧ (ascii "</h1>").length = 5 := by decide
  intro src hsrc
  rw [uptimeText, List.mem_append, List.mem_singleton] at hsrc
  rcases hsrc with hsrc | rfl
  · split at hsrc
    · rw [List.mem_singleton.mp hsrc, List.length_append, hconst.1]
      have hlen := length_decimal_le (by norm_num) hdays
      omega
    · cases hsrc
  · simp only [List.length_append, hconst.2.1, hconst.2.2]
    have h₁ := hpadded hhours
    have h₂ := hpadded hmins
    have h₃ := hpadded hsecs
    omega

/-- The page, as it is put together. -/
theorem pageUptime_eq (uptimeUs : UInt64) :
    pageUptime uptimeUs
      = some (response (uptimeFront ++ (uptimeText uptimeUs).flatten ++ ascii "</body></html>\n")) := by
  have hshort := length_uptimeText uptimeUs
  have hcount : (uptimeText uptimeUs).length ≤ 2 := by
    rw [uptimeText]
    split <;> simp
  have htotal : (uptimeText uptimeUs).flatten.length ≤ 2 * 31 := by
    have hsum := List.sum_le_card_nsmul ((uptimeText uptimeUs).map List.length) 31 fun n hn => by
      obtain ⟨src, hsrc, rfl⟩ := List.mem_map.mp hn
      have hlen := hshort src hsrc
      omega
    rw [List.length_map, smul_eq_mul] at hsum
    rw [List.length_flatten]
    omega
  have hcap : httpOutbufMaxlen = 4096 := rfl
  have hfront : (pageHead ++ [ascii "<html><body>", ascii "<h1>Uptime of "]).flatten
      = pageHead.flatten ++ uptimeFront := by
    rw [List.flatten_append]
    simp [uptimeFront]
  have hfrontLen : (pageHead.flatten ++ uptimeFront).length = 111 := by decide
  have htail : (ascii "</body></html>\n").length = 15 := by decide
  have hstart : outbufAppends [] (pageHead ++ [ascii "<html><body>", ascii "<h1>Uptime of "])
      = some (pageHead.flatten ++ uptimeFront) := by
    rw [outbufAppends_eq (by decide), hfront, hfrontLen, if_pos (by decide), List.nil_append]
  have hprint := foldlM_outbufPrintf (pageHead.flatten ++ uptimeFront)
    (fun src hsrc => (hshort src hsrc).trans (by norm_num)) (by omega)
  have hlast : outbufAppend (pageHead.flatten ++ uptimeFront ++ (uptimeText uptimeUs).flatten)
      (ascii "</body></html>\n") = some (pageHead.flatten ++ uptimeFront ++ (uptimeText uptimeUs).flatten
        ++ ascii "</body></html>\n") := by
    rw [outbufAppend, if_neg]
    rw [List.length_append]
    omega
  rw [pageUptime, hstart]
  simp only [Option.bind_eq_bind, Option.bind_some, hprint, hlast, Option.pure_def, Option.some.injEq]
  rw [List.append_assoc, List.append_assoc, finishPage_response, List.append_assoc]
  rw [← List.append_assoc, ← List.append_assoc, List.length_append, List.length_append]
  omega

/-- **The uptime page** is always sent, is read to its end, and says the seconds of the uptime. -/
theorem pageUptime_reads (uptimeUs : UInt64) :
    ∃ body, pageUptime uptimeUs = some (response body) ∧
      CompletePage (response body) ⟨statusOk, body⟩ ∧ readUptime body = uptimeUs.toNat / 1000000 := by
  refine ⟨_, pageUptime_eq uptimeUs, completePage_response _, ?_⟩
  have happend (h m s : ℕ) (rest tail : List UInt8) :
      clockText h m s rest ++ tail = clockText h m s (rest ++ tail) := by
    simp [clockText]
  rw [uptimeText_eq, readUptime, List.append_assoc, List.drop_left, List.append_assoc, happend]
  generalize ascii "/h1>" ++ ascii "</body></html>\n" = rest
  have hclock := readClock_clockText (uptimeUs.toNat / 1000000 % 86400 / 3600)
    (uptimeUs.toNat / 1000000 % 86400 % 3600 / 60) (uptimeUs.toNat / 1000000 % 86400 % 3600 % 60) rest
  have hseconds : ((uptimeUs.toNat / 1000000 % 86400 / 3600) * 60
      + uptimeUs.toNat / 1000000 % 86400 % 3600 / 60) * 60 + uptimeUs.toNat / 1000000 % 86400 % 3600 % 60
      = uptimeUs.toNat / 1000000 % 86400 := by omega
  rw [hseconds] at hclock
  by_cases hdays : uptimeUs.toNat / 1000000 / 86400 > 0
  · have hsp : ascii " days " = SP :: ascii "days " := by decide
    have hdigits : ∀ c ∈ decimal (uptimeUs.toNat / 1000000 / 86400), isdigit c = true :=
      fun c hc => isdigit_of_mem_decimal hc
    rw [if_pos hdays, hsp, List.append_assoc, List.cons_append, takeNumber_append hdigits (by decide)]
    dsimp only
    rw [if_pos List.head?_cons, decNat_decimal, ← List.cons_append, ← hsp, List.drop_left, hclock]
    omega
  · rw [if_neg hdays, List.nil_append]
    have hdigits : ∀ c ∈ padded 2 (uptimeUs.toNat / 1000000 % 86400 / 3600), isdigit c = true :=
      fun c hc => isdigit_of_mem_padded hc
    have hfirst := takeNumber_append hdigits (c := 0x3a) (by decide)
      (padded 2 (uptimeUs.toNat / 1000000 % 86400 % 3600 / 60) ++ 0x3a ::
        (padded 2 (uptimeUs.toNat / 1000000 % 86400 % 3600 % 60) ++ 0x3c :: rest))
    rw [← clockText] at hfirst
    rw [hfirst]
    dsimp only
    rw [if_neg (by simp [SP]), hclock]
    omega

end Esp8266Toolbox
