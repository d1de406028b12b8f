import Esp8266Toolbox.Lib.Runs
import Esp8266Toolbox.Http.Site

/-!
# The site refines the server

Each handler does for `Server` what `OtherReply` leaves open, so every run of the site is a run of
the server: what holds of every run of the server holds of the program with its handlers. Beyond
that, every page of a run is a complete response, and `202 Accepted` is answered exactly when a
handler has set something going.
-/

namespace Esp8266Toolbox

/-! ## One call -/

/-- What the site has said and set going. -/
structure SiteLedger where
  pages : List (Option ℕ × List UInt8)
  sent : List (Option ℕ × String)
  actions : List (Option ℕ × SiteAction)
  station : Option StationConfig
  settingsArmed : Bool
  resetArmed : Bool
  restarting : Bool
  /-- `UPGRADE_FLAG_FINISH` is set, the timer of `ota_reboot` is armed, or it has fired. -/
  updating : Bool
deriving DecidableEq, Repr

def Site.ledger (s : Site) : SiteLedger :=
  ⟨s.pages, s.base.sent, s.actions, s.station, s.settingsArmed, s.resetArmed, s.restarting,
    s.base.finish || s.base.armed || s.base.rebooting⟩

namespace SiteLedger

/-- A page, handed to `espconn_send`. -/
def say (l : SiteLedger) (conn : Option ℕ) (page : List UInt8) : SiteLedger :=
  { l with pages := (conn, page) :: l.pages, sent := (conn, pageText page) :: l.sent }

/-- Something set going, with what it does at once. -/
def act (l : SiteLedger) (conn : Option ℕ) (action : SiteAction) : SiteLedger :=
  let l := { l with actions := (conn, action) :: l.actions }
  match action with
  | .station conf => { l with station := some conf }
  | .settings _ => { l with settingsArmed := true }
  | .reset => { l with resetArmed := true }
  | .update => { l with updating := true }

end SiteLedger

/-- What every handler but `http_url_ota_push` does: the client is what `HTTP_IGNORE_POSTDATA` leaves,
with the marks of the setup pages in its url, there is at most one page, nothing while post data is
missing, and `202 Accepted` is the answer exactly when something is set going. -/
structure CallSpec (s : Site) (client : HttpClient) (s' : Site) (run : PageRun) : Prop where
  base : s'.base = s.base
  kept : run.client = (ignorePostdata client).1 ∨
    (ignorePostdata client).2 = false ∧ ¬Site.strays (ignorePostdata client).1 ∧
      run.client = Site.parsed (ignorePostdata client).1
  pending : (ignorePostdata client).2 = true → run.sent = [] ∧ run.ret = false
  page : run.sent = [] ∨ ∃ page, run.sent = [page]
  answers : ∀ page ∈ run.sent, ∃ st, Answers page st
  acts : s'.ledger = s.ledger ∧ run.sent ≠ [acceptedPage] ∨
    ∃ action, s'.ledger = s.ledger.act run.client.conn action ∧ run.sent = [acceptedPage]

theorem sendPage_sent (client : HttpClient) (page : Option (List UInt8)) :
    (sendPage client page).sent = page.toList ∧ (sendPage client page).client = client := by
  cases page <;> exact ⟨rfl, rfl⟩

/-- A handler that sends a page with another answer than `202 Accepted`, and sets nothing going. -/
theorem callSpec_sendPage {s s' : Site} {client client' : HttpClient} (page : Option (List UInt8))
    {st : HttpStatus} (hbase : s'.base = s.base) (hledger : s'.ledger = s.ledger)
    (hclient : ignorePostdata client = (client', false)) (hpage : ∀ p ∈ page, Answers p st)
    (hst : st ≠ .accepted) : CallSpec s client s' (sendPage client' page) := by
  obtain ⟨hsent, hself⟩ := sendPage_sent client' page
  refine ⟨hbase, .inl (by rw [hself, hclient]), by simp [hclient], ?_, ?_, .inl ⟨hledger, ?_⟩⟩
  · rw [hsent]
    cases page with
    | none => exact .inl rfl
    | some p => exact .inr ⟨p, rfl⟩
  · rw [hsent]
    exact fun p hp => ⟨st, hpage p (Option.mem_toList.mp hp)⟩
  · rw [hsent]
    intro h
    have hmem : acceptedPage ∈ page := Option.mem_toList.mp (h ▸ List.mem_singleton_self acceptedPage)
    exact (hpage _ hmem).ne_accepted hst rfl

/-- A handler that waits for post data. -/
theorem callSpec_pending {s : Site} {client client' : HttpClient}
    (hclient : ignorePostdata client = (client', true)) : CallSpec s client s ⟨client', [], false⟩ :=
  ⟨rfl, .inl (by rw [hclient]), fun _ => ⟨rfl, rfl⟩, .inl rfl, by simp, .inl ⟨rfl, by simp⟩⟩

/-- A handler that sends `202 Accepted`, and sets something going. -/
theorem callSpec_accepted {s s' : Site} {client client' : HttpClient} (action : SiteAction)
    (hbase : s'.base = s.base) (hledger : s'.ledger = s.ledger.act client'.conn action)
    (hclient : ignorePostdata client = (client', false)) :
    CallSpec s client s' ⟨client', [acceptedPage], true⟩ :=
  ⟨hbase, .inl (by rw [hclient]), by simp [hclient], .inr ⟨_, rfl⟩,
    fun _ hp => ⟨.accepted, List.mem_singleton.mp hp ▸ answers_accepted⟩, .inr ⟨action, hledger, rfl⟩⟩

theorem callSpec_servePage {s : Site} (client : HttpClient) {page : HttpClient → Option (List UInt8)}
    {st : HttpStatus} (hpage : ∀ client, ∀ p ∈ page client, Answers p st) (hst : st ≠ .accepted) :
    CallSpec s client s (servePage client page) := by
  unfold servePage ignoringPostdata
  rcases hclient : ignorePostdata client with ⟨client', _ | _⟩
  · exact callSpec_sendPage _ rfl rfl hclient (hpage client') hst
  · exact callSpec_pending hclient

theorem callSpec_changeLevel (s : Site) (client : HttpClient) (change : UInt8 → UInt8) :
    CallSpec s client { s with levels := (changeLevel change client s.levels).2 }
      (changeLevel change client s.levels).1 := by
  have hfixed : ∀ {srcs : List (List UInt8)} {st : HttpStatus}, Answers srcs.flatten st →
      ∀ p ∈ outbufAppends [] srcs, Answers p st := by
    intro srcs st h p hp
    rwa [page_of_appends hp]
  unfold changeLevel ignoringPostdata
  rcases hclient : ignorePostdata client with ⟨client', _ | _⟩
  · dsimp only
    cases logsSys client'.urlText with
    | none => exact callSpec_sendPage _ rfl rfl hclient (hfixed answers_badRequest) (by decide)
    | some sys =>
      refine callSpec_sendPage (outbufAppends [] pageLevel) ?_ ?_ hclient (hfixed answers_level)
        (by decide) <;> rfl
  · exact callSpec_pending hclient

/-- The log page, with what it leaves of the client. -/
theorem httpUrlLogs_client {env : LogsEnv} {client : HttpClient} {a : LogArea} {r : LogsRun}
    (h : httpUrlLogs env client a = .ok r) :
    r.client = (ignorePostdata client).1 ∧ ((ignorePostdata client).2 = true → r.sent = [] ∧ r.ret = false) ∧
      (r.sent = [] ∨ ∃ page, r.sent = [page]) := by
  have hpost : (logsPostdata env client a).1 = (ignorePostdata client).1 ∧
      (logsPostdata env client a).2.2 = (ignorePostdata client).2 := ⟨rfl, rfl⟩
  rw [← hpost.1, ← hpost.2]
  unfold httpUrlLogs at h
  split at h
  · rename_i heq
    rw [← Except.ok.inj h, heq]
    exact ⟨rfl, fun _ => ⟨rfl, rfl⟩, .inl rfl⟩
  · rename_i heq
    rw [heq]
    split at h
    · cases h
    · dsimp only at h
      split at h
      · rw [← Except.ok.inj h]
        refine ⟨rfl, ?_, .inl rfl⟩
        intro hpending
        cases hpending
      · rw [← Except.ok.inj h]
        refine ⟨rfl, ?_, .inr ⟨_, rfl⟩⟩
        intro hpending
        cases hpending

theorem callSpec_reset (env : SiteEnv) (w : SiteWorld) (s : Site) (client : HttpClient) :
    CallSpec s client (s.call env w client .reset).1 (s.call env w client .reset).2 := by
  have hpage : outbufAppends [] setupAccepted = some acceptedPage := page_done
  unfold Site.call httpUrlReset ignoringPostdata
  rw [hpage]
  rcases hclient : ignorePostdata client with ⟨client', _ | _⟩
  · exact callSpec_accepted .reset rfl rfl hclient
  · exact callSpec_pending hclient

theorem parsed_conn (client : HttpClient) : (Site.parsed client).conn = client.conn := by
  unfold Site.parsed
  split <;> rfl

/-- The marks of a setup page in the url change nothing else. -/
theorem callSpec_setupPage {s : Site} {client : HttpClient} {next : Site × PageRun}
    (h : CallSpec s client next.1 next.2) (hkept : next.2.client = (ignorePostdata client).1)
    (hcrashed : (s.setupPage client next).1.crashed = false) :
    CallSpec s client (s.setupPage client next).1 (s.setupPage client next).2 := by
  unfold Site.setupPage at hcrashed ⊢
  rcases hclient : ignorePostdata client with ⟨client', _ | _⟩
  · rw [hclient] at hcrashed hkept
    dsimp only at hcrashed hkept ⊢
    split at hcrashed
    · cases hcrashed
    · rename_i hstrays
      rw [if_neg hstrays]
      refine ⟨h.base, .inr ?_, by simp [hclient], h.page, h.answers, ?_⟩
      · rw [hclient]
        exact ⟨rfl, hstrays, congrArg Site.parsed hkept⟩
      · dsimp only
        rw [parsed_conn]
        exact h.acts
  · exact h

/-- The mail page, once the post data is out of the way: an armed timer with `202 Accepted`, or another
page and none. -/
theorem httpUrlSmtpSetup_cases (settings : SmtpSettings) {client client' : HttpClient}
    (hclient : ignorePostdata client = (client', false)) :
    ∃ settings', httpUrlSmtpSetup client settings = ⟨client', settings', true, [acceptedPage], true⟩ ∨
      ∃ page st, Answers page st ∧ st ≠ .accepted ∧
        httpUrlSmtpSetup client settings = ⟨client', settings', false, [page], true⟩ := by
  unfold httpUrlSmtpSetup
  rw [hclient]
  dsimp only
  generalize setupResult client'.query settings = result
  obtain ⟨settings', exit⟩ := result
  refine ⟨settings', ?_⟩
  cases exit with
  | done =>
    left
    rw [page_done]
    rfl
  | form =>
    refine .inr ⟨_, .ok, answers_response setupForm.flatten, by decide, ?_⟩
    rw [page_form]
    rfl
  | fail =>
    refine .inr ⟨_, .badRequest, answers_badRequest, by decide, ?_⟩
    rw [page_fail]
    rfl

theorem callSpec_smtpSetup (env : SiteEnv) (w : SiteWorld) (s : Site) (client : HttpClient)
    (hcrashed : (s.call env w client .smtpSetup).1.crashed = false) :
    CallSpec s client (s.call env w client .smtpSetup).1 (s.call env w client .smtpSetup).2 := by
  rcases hclient : ignorePostdata client with ⟨client', _ | _⟩
  · obtain ⟨settings, hrun | ⟨page, st, hpage, hst, hrun⟩⟩ := httpUrlSmtpSetup_cases s.settings hclient
    · refine callSpec_setupPage ?_ ?_ hcrashed
      · rw [hrun]
        exact callSpec_accepted (.settings settings) rfl rfl hclient
      · rw [hrun, hclient]
    · refine callSpec_setupPage ?_ ?_ hcrashed
      · rw [hrun]
        refine callSpec_sendPage (some page) rfl rfl hclient (fun p hp => ?_) hst
        rwa [← Option.some.inj hp]
      · rw [hrun, hclient]
  · have hrun : httpUrlSmtpSetup client s.settings = ⟨client', s.settings, false, [], false⟩ := by
      rw [httpUrlSmtpSetup, hclient]
    refine callSpec_setupPage ?_ ?_ hcrashed
    · rw [hrun]
      exact callSpec_pending hclient
    · rw [hrun, hclient]

/-- The network page, once the post data is out of the way: a configuration with `202 Accepted`, or
another page and none. -/
theorem httpUrlWifiSetup_cases (taken : Bool) {client client' : HttpClient}
    (hclient : ignorePostdata client = (client', false)) :
    (∃ conf, httpUrlWifiSetup taken client = ⟨sendPage client' (wifiPage .done), some conf⟩) ∨
      ∃ exit, exit ≠ SetupExit.done ∧
        httpUrlWifiSetup taken client = ⟨sendPage client' (wifiPage exit), none⟩ := by
  unfold httpUrlWifiSetup ignoringPostdata
  rw [hclient]
  dsimp only
  generalize wifiResult client'.query = result
  obtain ⟨conf, exit⟩ := result
  cases exit with
  | done =>
    cases taken with
    | true => exact .inl ⟨conf, if_pos rfl⟩
    | false => exact .inr ⟨.fail, by decide, if_neg (by decide)⟩
  | form => exact .inr ⟨.form, by decide, rfl⟩
  | fail => exact .inr ⟨.fail, by decide, rfl⟩

theorem callSpec_wifiSetup (env : SiteEnv) (w : SiteWorld) (s : Site) (client : HttpClient)
    (hcrashed : (s.call env w client .wifiSetup).1.crashed = false) :
    CallSpec s client (s.call env w client .wifiSetup).1 (s.call env w client .wifiSetup).2 := by
  have hdone : wifiPage .done = some acceptedPage := page_done
  rcases hclient : ignorePostdata client with ⟨client', _ | _⟩
  · obtain ⟨conf, hrun⟩ | ⟨exit, hexit, hrun⟩ := httpUrlWifiSetup_cases w.taken hclient
    · refine callSpec_setupPage ?_ ?_ hcrashed
      · rw [hrun, hdone]
        exact callSpec_accepted (.station conf) rfl rfl hclient
      · rw [hrun, hclient]
        exact (sendPage_sent client' _).2
    · refine callSpec_setupPage ?_ ?_ hcrashed
      · rw [hrun]
        refine callSpec_sendPage _ rfl rfl hclient (answers_wifi exit) ?_
        cases exit with
        | done => exact absurd rfl hexit
        | form => decide
        | fail => decide
      · rw [hrun, hclient]
        exact (sendPage_sent client' _).2
  · have hrun : httpUrlWifiSetup w.taken client = ⟨⟨client', [], false⟩, none⟩ := by
      rw [httpUrlWifiSetup, ignoringPostdata, hclient]
    refine callSpec_setupPage ?_ ?_ hcrashed
    · rw [hrun]
      exact callSpec_pending hclient
    · rw [hrun, hclient]

theorem call_logs (env : SiteEnv) (w : SiteWorld) (s : Site) (client : HttpClient) :
    s.call env w client .logs =
      match httpUrlLogs ⟨(s.levels .http).toNat, w.stamp, w.sendFails⟩ client w.area with
      | .error _ => ({ s with crashed := true }, ⟨client, [], false⟩)
      | .ok r => (s, ⟨r.client, r.sent, r.ret⟩) := rfl

/-- Every handler meets its specification, unless the log page leaves its array. -/
theorem call_spec (env : SiteEnv) (w : SiteWorld) (s : Site) (client : HttpClient) {url : HttpUrl}
    (hurl : url ≠ .otaPush) (hcrashed : (s.call env w client url).1.crashed = false) :
    CallSpec s client (s.call env w client url).1 (s.call env w client url).2 := by
  cases url with
  | blank => exact callSpec_servePage client (fun _ => answers_blank) (by decide)
  | notFound => exact callSpec_servePage client (fun _ => answers_404) (by decide)
  | otaBin => exact callSpec_servePage client (answers_otaBin env.userbin) (by decide)
  | uptime =>
    have hpage (p : List UInt8) (hp : p ∈ pageUptime w.uptimeUs) : Answers p .ok := by
      rw [← Option.some.inj ((pageUptime_eq w.uptimeUs).symm.trans hp)]
      exact answers_response _
    exact callSpec_servePage client (fun _ => hpage) (by decide)
  | version => exact callSpec_servePage client (fun _ => answers_version env.built) (by decide)
  | otaPush => exact absurd rfl hurl
  | logsLower => exact callSpec_changeLevel s client logLower
  | logsRaise => exact callSpec_changeLevel s client logRaise
  | reset => exact callSpec_reset env w s client
  | smtpSetup => exact callSpec_smtpSetup env w s client hcrashed
  | wifiSetup => exact callSpec_wifiSetup env w s client hcrashed
  | logs =>
    rw [call_logs] at hcrashed ⊢
    rcases hrun : httpUrlLogs ⟨(s.levels .http).toNat, w.stamp, w.sendFails⟩ client w.area with e | r
    · rw [hrun] at hcrashed
      cases hcrashed
    · obtain ⟨hkept, hpending, hone⟩ := httpUrlLogs_client hrun
      have hanswers := answers_logs hrun
      refine ⟨rfl, .inl hkept, hpending, hone, fun p hp => ⟨.ok, hanswers p hp⟩, .inl ⟨rfl, fun h => ?_⟩⟩
      have hsent : r.sent = [acceptedPage] := h
      have hmem : acceptedPage ∈ r.sent := hsent ▸ List.mem_singleton_self acceptedPage
      exact (hanswers _ hmem).ne_accepted (by decide) rfl

/-! ## The url after a call -/

/-- A block copied to its own place from an array that agrees in front of it. -/
theorem Buf.memcpy_drop {n : ℕ} {b c : Buf n} {k : ℕ} (h : ∀ j < k, b.get j = c.get j) :
    b.memcpy k (c.toList.drop k) = c := by
  apply Buf.ext_get
  intro j
  rw [Buf.get_memcpy]
  by_cases hj : j < n
  · rw [if_pos hj, List.length_drop, Buf.length_toList]
    by_cases hk : k ≤ j
    · rw [if_pos ⟨hk, by omega⟩, Buf.get, List.getD_eq_getElem?_getD, List.getD_eq_getElem?_getD,
        List.getElem?_drop, Nat.add_sub_cancel' hk]
    · rw [if_neg (fun hin => hk hin.1), h j (by omega)]
  · rw [if_neg hj, Buf.get_of_le _ (by omega)]

/-- A list up to the first `c`, and behind it. -/
theorem split_first {c : UInt8} {s : List UInt8} (h : c ∈ s) :
    s = s.takeWhile (· ≠ c) ++ c :: (s.dropWhile (· ≠ c)).tail := by
  induction s with
  | nil => cases h
  | cons x s ih =>
    by_cases hx : x = c
    · simp [hx]
    · have hrest : c ∈ s := (List.mem_cons.mp h).resolve_left (Ne.symm hx)
      rw [List.takeWhile_cons_of_pos (by simpa using hx), List.dropWhile_cons_of_pos (by simpa using hx),
        List.cons_append, ← ih hrest]

/-- A url that ends within its array, taken apart. -/
theorem query_split {client : HttpClient} {query : List UInt8} (hterm : 0 ∈ client.url.toList)
    (hquery : client.query = some query) :
    ∃ rest, client.url.toList = client.baseurl ++ 0x3f :: query ++ 0 :: rest := by
  rw [HttpClient.query, List.append_assoc, cstr_append_of_mem hterm] at hquery
  have hmark : 0x3f ∈ cstr client.url.toList := by
    by_contra hmark
    rw [if_neg hmark] at hquery
    cases hquery
  rw [if_pos hmark, Option.some.injEq] at hquery
  have hbase : client.baseurl = (cstr client.url.toList).takeWhile (· ≠ 0x3f) := by
    rw [cstr, List.takeWhile_takeWhile, HttpClient.baseurl]
    simp
  have htext : cstr client.url.toList = client.baseurl ++ 0x3f :: query := by
    rw [hbase, ← hquery]
    exact split_first hmark
  refine ⟨(client.url.toList.dropWhile (· ≠ 0)).tail, ?_⟩
  rw [← htext]
  exact split_first hterm

/-- A setup page marks its url behind the `?` only, and not without a `?` there. -/
theorem parsed_url {client : HttpClient} (hstrays : ¬Site.strays client) :
    Site.parsed client = { client with url := (Site.parsed client).url } ∧
      (∀ j < client.baseurl.length + 1, client.url.get j = (Site.parsed client).url.get j) ∧
      (client.url.get client.baseurl.length ≠ 0x3f → Site.parsed client = client) := by
  unfold Site.parsed
  rcases hcut : client.query.bind (cutAt 0x3d) with _ | ⟨key, val⟩
  · exact ⟨rfl, fun _ _ => rfl, fun _ => rfl⟩
  · refine ⟨rfl, fun j hj => ?_, fun hmark => absurd ?_ hmark⟩
    · dsimp only
      rw [Buf.get_set, if_neg (by omega)]
    · obtain ⟨query, hquery, hkey⟩ := Option.bind_eq_some_iff.mp hcut
      have hsign : 0x3d ∈ query := by
        by_contra hsign
        rw [cutAt, if_neg hsign] at hkey
        cases hkey
      have hterm : 0 ∈ client.url.toList := by
        by_contra hterm
        exact hstrays ⟨hterm, query, hquery, hsign⟩
      obtain ⟨rest, hsplit⟩ := query_split hterm hquery
      rw [Buf.get, hsplit, List.append_assoc, List.cons_append, List.getD_append_right _ _ _ _ le_rfl,
        Nat.sub_self, List.getD_cons_zero]

/-! ## The server below -/

/-- What a call does for `Server`. -/
def callReply (client : HttpClient) (run : PageRun) : OtherReply :=
  ⟨run.sent.head?.map pageText, run.ret,
    run.client.url.toList.drop ((ignorePostdata client).1.baseurl.length + 1)⟩

/-- A handler is one of those that `Server` leaves open. -/
theorem otherUrl_call {s s' : Site} {client : HttpClient} {run : PageRun} (h : CallSpec s client s' run) :
    (Server.otherUrl (callReply client run) client).1 = run.client ∧
      (Server.otherUrl (callReply client run) client).2.page = run.sent.head?.map pageText ∧
      (Server.otherUrl (callReply client run) client).2.ret = run.ret := by
  obtain ⟨-, hkept, hpending, -, -, -⟩ := h
  unfold Server.otherUrl callReply
  rcases hclient : ignorePostdata client with ⟨client', _ | _⟩
  · rw [hclient] at hkept
    dsimp only at hkept ⊢
    -- the marked url agrees in front, and is the old one without a `?`
    obtain ⟨hsame, hfront, hnone⟩ : run.client = { client' with url := run.client.url } ∧
        (∀ j < client'.baseurl.length + 1, client'.url.get j = run.client.url.get j) ∧
        (client'.url.get client'.baseurl.length ≠ 0x3f → run.client = client') := by
      obtain hkept | ⟨-, hstrays, hkept⟩ := hkept
      · rw [hkept]
        exact ⟨rfl, fun _ _ => rfl, fun _ => rfl⟩
      · rw [hkept]
        exact parsed_url hstrays
    split
    · refine ⟨?_, rfl, rfl⟩
      dsimp only
      rw [Buf.memcpy_drop hfront]
      exact hsame.symm
    · rename_i hmark
      exact ⟨(hnone hmark).symm, rfl, rfl⟩
  · rw [hclient] at hkept hpending
    obtain ⟨hsent, hret⟩ := hpending rfl
    rw [hsent, hret]
    obtain hkept | ⟨hfalse, -, -⟩ := hkept
    · exact ⟨hkept.symm, rfl, rfl⟩
    · cases hfalse

namespace Site

variable {env : SiteEnv} {s : Site} {w : SiteWorld} {i : Slot}

theorem push_base : (s.push env i w).1.base = (s.base.pushUrl env.ota i w.replies).1 ∧
    (s.push env i w).2 = (s.base.pushUrl env.ota i w.replies).2 := by
  unfold push
  rcases s.base.callPush env.ota i w.replies with ⟨r, result⟩
  dsimp only
  split <;> exact ⟨rfl, rfl⟩

/-- The second half of `http_process` is that of a server. -/
theorem handle_base (env : SiteEnv) (s : Site) (i : Slot) (w : SiteWorld)
    (h : (s.handle env i w).1.crashed = false) :
    ∃ other, (s.handle env i w).1.base = (s.base.handle env.ota i w.replies other).1 ∧
      (s.handle env i w).2 = (s.base.handle env.ota i w.replies other).2 := by
  unfold handle Server.handle at *
  rcases hdispatch : httpDispatch (s.base.clients i) with fault | _ | url
  · exact ⟨⟨none, false, []⟩, rfl, rfl⟩
  · exact ⟨⟨none, false, []⟩, rfl, rfl⟩
  · rw [hdispatch] at h
    dsimp only at h ⊢
    by_cases hurl : url = .otaPush
    · simp only [if_pos hurl]
      exact ⟨⟨none, false, []⟩, push_base⟩
    · simp only [if_neg hurl] at h ⊢
      have hcrashed : (s.call env w (s.base.clients i) url).1.crashed = false := by
        by_contra hcrashed
        rw [if_pos (by simpa using hcrashed)] at h
        exact hcrashed h
      have hspec := call_spec env w s (s.base.clients i) hurl hcrashed
      obtain ⟨hclient, hpage, hret⟩ := otherUrl_call hspec
      refine ⟨callReply (s.base.clients i) (s.call env w (s.base.clients i) url).2, ?_⟩
      rw [if_neg (by simpa using hcrashed), hclient, hpage, hret, finish, hspec.base]
      exact ⟨rfl, rfl⟩

/-- `http_process` is that of a server. -/
theorem process_base (env : SiteEnv) (s : Site) (i : Slot) (w : SiteWorld)
    (h : (s.process env i w).1.crashed = false) :
    ∃ other, (s.process env i w).1.base = (s.base.process env.ota i w.outside w.replies other).1 ∧
      (s.process env i w).2 = (s.base.process env.ota i w.outside w.replies other).2 := by
  unfold process Server.process at *
  by_cases hstate : (s.base.clients i).state = .headers
  · rw [if_pos hstate] at h ⊢
    rcases hheaders : httpHeaders w.outside (s.base.clients i) with fault | ⟨client, _ | warning | _⟩
    · exact ⟨⟨none, false, []⟩, by rw [if_pos hstate], by rw [if_pos hstate]⟩
    · exact ⟨⟨none, false, []⟩, by rw [if_pos hstate], by rw [if_pos hstate]⟩
    · exact ⟨⟨none, false, []⟩, by rw [if_pos hstate], by rw [if_pos hstate]⟩
    · rw [hheaders] at h
      obtain ⟨other, hother⟩ := handle_base env { s with base := s.base.enter i client } i w h
      refine ⟨other, ?_⟩
      rw [if_pos hstate]
      exact hother
  · rw [if_neg hstate] at h ⊢
    obtain ⟨other, hother⟩ := handle_base env s i w h
    refine ⟨other, ?_⟩
    rw [if_neg hstate]
    exact hother

/-- `http_client_recv_cb` is that of a server. -/
theorem recvCb_base (env : SiteEnv) (s : Site) (conn : ℕ) (data : List UInt8) (w : SiteWorld)
    (h : (s.recvCb env conn data w).crashed = false) :
    ∃ other, (s.recvCb env conn data w).base
      = s.base.recvCb env.ota conn data w.outside w.replies other := by
  unfold recvCb at h ⊢
  unfold Server.recvCb
  rcases hrev : s.base.reverse conn with _ | i
  · exact ⟨⟨none, false, []⟩, rfl⟩
  · rw [hrev] at h
    dsimp only at h ⊢
    by_cases hroom : (s.base.clients i).bufused + data.length > 2048
    · exact ⟨⟨none, false, []⟩, by rw [if_pos hroom, if_pos hroom]⟩
    · simp only [if_neg hroom] at h ⊢
      have hprocess : (({ s with base := s.base.take i data } : Site).process env i w).1.crashed = false := by
        rcases hrun : ({ s with base := s.base.take i data } : Site).process env i w with ⟨s', _ | _⟩
        · rw [hrun] at h
          exact h
        · rw [hrun] at h
          exact h
      obtain ⟨other, hbase, hdone⟩ := process_base env { s with base := s.base.take i data } i w hprocess
      refine ⟨other, ?_⟩
      rcases hrun : ({ s with base := s.base.take i data } : Site).process env i w with ⟨s', done⟩
      rcases hserver : (s.base.take i data).process env.ota i w.outside w.replies other with ⟨t', done'⟩
      rw [hrun, hserver] at hbase hdone
      dsimp only at hbase hdone
      subst hdone
      cases done with
      | true => exact congrArg (Server.post · conn) hbase
      | false => exact hbase

/-- A callback of the site is one of the server, or none. -/
theorem step_base (env : SiteEnv) (s : Site) (e : SiteEvent) (h : (s.step env e).crashed = false) :
    ∃ es : List HttpEvent, (s.step env e).base = es.foldl (Server.step env.ota) s.base := by
  unfold step at h ⊢
  by_cases hstop : s.stopped = true
  · rw [if_pos hstop]
    exact ⟨[], rfl⟩
  · rw [if_neg hstop] at h ⊢
    have hrunning : ¬(s.base.crashed || s.base.rebooting) = true := by
      intro hbase
      exact hstop (by rw [stopped, hbase]; rfl)
    have hserver (e : HttpEvent) {t : Server} (ht : t = s.base.step env.ota e) :
        ∃ es : List HttpEvent, t = es.foldl (Server.step env.ota) s.base := ⟨[e], ht⟩
    cases e with
    | connect conn registered =>
      refine hserver (.connect conn registered) ?_
      rw [Server.step, if_neg hrunning]
    | recv conn data w =>
      obtain ⟨other, hother⟩ := recvCb_base env s conn data w h
      refine hserver (.recv conn data w.outside w.replies other) ?_
      rw [Server.step, if_neg hrunning]
      exact hother
    | disconnect conn =>
      refine hserver (.disconnect conn) ?_
      rw [Server.step, if_neg hrunning]
    | error conn err => exact ⟨[], rfl⟩
    | task =>
      refine hserver .task ?_
      rw [Server.step, if_neg hrunning]
    | reboot =>
      refine hserver .reboot ?_
      rw [Server.step, if_neg hrunning]
    | reset =>
      refine ⟨[], ?_⟩
      dsimp only
      split <;> rfl
    | paramWrite left =>
      dsimp only
      split
      · refine hserver (.paramStore left) ?_
        rw [Server.step, if_neg hrunning]
      · exact ⟨[], rfl⟩

theorem step_crashed (env : SiteEnv) (e : SiteEvent) (h : s.crashed = true) : s.step env e = s := by
  have hstop : s.stopped = true := by simp [stopped, h]
  exact if_pos hstop

/-- **The site refines the server.** While no handler has left its array, the server below a run of
the site is in a state of its own runs. -/
theorem site_refines (env : SiteEnv) (content : ℕ → UInt8) (settings : SmtpSettings) (es : List SiteEvent)
    (h : (run env content settings es).crashed = false) :
    ∃ es', (run env content settings es).base = Server.run env.ota content es' := by
  unfold run at h ⊢
  induction es using List.reverseRecOn with
  | nil => exact ⟨[], rfl⟩
  | append_singleton es e ih =>
    rw [List.foldl_concat] at h ⊢
    have hbefore : (es.foldl (step env) (init content settings)).crashed = false := by
      by_contra hcrashed
      rw [Bool.not_eq_false] at hcrashed
      rw [step_crashed env e hcrashed, hcrashed] at h
      cases h
    obtain ⟨es₁, hes₁⟩ := ih hbefore
    obtain ⟨es₂, hes₂⟩ := step_base env _ e h
    refine ⟨es₁ ++ es₂, ?_⟩
    rw [hes₂, hes₁, Server.run, Server.run, List.foldl_append]

theorem site_refines_uptime :
    ∃ es', (run plainEnv (fun _ => 0) oldAccount [.connect 7 true,
        .recv 7 (ascii "GET /uptime HTTP/1.1\r\n\r\n") quietWorld, .task, .disconnect 7]).base
      = Server.run plainEnv.ota (fun _ => 0) es' :=
  site_refines plainEnv (fun _ => 0) oldAccount _ (by decide +kernel)

end Site
end Esp8266Toolbox
