import Esp8266Toolbox.Http.SiteTheorems

/-!
# What a run of the site says and does

Over any run, whatever the order of the callbacks and the cutting of the data: every page is a
complete response, `202 Accepted` has been sent exactly for what has been set going, in that order
and to the client that asked for it, the station has the configuration chosen last, and no timer and
no update is set that nobody has asked for.
-/

namespace Esp8266Toolbox

/-! ## One callback -/

/-- What a callback may add to the ledger: nothing, a page, or `202 Accepted` with what it stands for. -/
inductive Outcome (l : SiteLedger) : SiteLedger → Prop
  | nothing : Outcome l l
  | page (conn : Option ℕ) {page : List UInt8} {st : HttpStatus} (hpage : Answers page st)
      (hother : page ≠ acceptedPage) : Outcome l (l.say conn page)
  | accepted (conn : Option ℕ) (action : SiteAction) : Outcome l ((l.act conn action).say conn acceptedPage)

theorem pageText_ascii {text : String} (h : text.toList.all (fun c => c.toNat < 256) = true) :
    pageText (ascii text) = text := by
  have hmap : ((ascii text).map fun c => Char.ofNat c.toNat) = text.toList := by
    rw [ascii, List.map_map]
    conv_rhs => rw [← List.map_id text.toList]
    refine List.map_congr_left fun c hc => ?_
    have hlt : c.toNat < 256 := by simpa using List.all_eq_true.mp h c hc
    simp [Nat.mod_eq_of_lt hlt]
  rw [pageText, hmap, String.ofList_toList]

theorem pageText_push (result : OtaResult) {text : String} (h : result.response = some text) :
    pageText (ascii text) = text := by
  cases result with
  | accepted =>
    rw [← Option.some.inj h]
    exact pageText_ascii (by decide +kernel)
  | rejected error =>
    rw [← Option.some.inj h]
    exact pageText_ascii (by decide +kernel)
  | pending => cases h
  | crashed => cases h

namespace Site

variable {env : SiteEnv} {s : Site}

/-- A handler that leaves its array has said nothing. -/
theorem call_crashed (env : SiteEnv) (w : SiteWorld) {client : HttpClient} {url : HttpUrl}
    (hs : s.crashed = false) (h : (s.call env w client url).1.crashed = true) :
    (s.call env w client url).1.ledger = s.ledger := by
  have hsetup (next : Site × PageRun) (hnext : next.1.crashed = false)
      (h : (s.setupPage client next).1.crashed = true) : (s.setupPage client next).1.ledger = s.ledger := by
    unfold setupPage at h ⊢
    split at h
    · rw [hnext] at h
      cases h
    · split at h
      · rename_i hstrays
        rw [if_pos hstrays]
        rfl
      · rw [hnext] at h
        cases h
  have hkept {t : Site} (ht : t.crashed = s.crashed) (h : t.crashed = true) : t.ledger = s.ledger := by
    rw [ht, hs] at h
    cases h
  cases url with
  | logs =>
    rw [call_logs]
    split <;> rfl
  | smtpSetup =>
    refine hsetup _ ?_ h
    dsimp only
    split <;> exact hs
  | wifiSetup =>
    refine hsetup _ ?_ h
    dsimp only
    split <;> exact hs
  | reset =>
    refine hkept ?_ h
    unfold call
    dsimp only
    split <;> rfl
  | blank => exact hkept rfl h
  | logsLower => exact hkept rfl h
  | logsRaise => exact hkept rfl h
  | otaBin => exact hkept rfl h
  | otaPush => exact hkept rfl h
  | uptime => exact hkept rfl h
  | version => exact hkept rfl h
  | notFound => exact hkept rfl h

/-- A push that ends says so. -/
theorem push_outcome (env : SiteEnv) (s : Site) (i : Slot) (w : SiteWorld) :
    Outcome s.ledger (s.push env i w).1.ledger := by
  unfold push Server.pushUrl
  rcases s.base.callPush env.ota i w.replies with ⟨r, result⟩
  cases result with
  | pending => exact .nothing
  | crashed => exact .nothing
  | accepted =>
    have htext : pageText (ascii response202) = response202 := pageText_push .accepted rfl
    have haccepted : ascii response202 = acceptedPage := ascii_response.1
    have houtcome := Outcome.accepted (l := s.ledger) r.client.conn .update
    rw [← haccepted, SiteLedger.say, htext] at houtcome
    exact houtcome
  | rejected error =>
    have htext : pageText (ascii response400) = response400 := pageText_push (.rejected error) rfl
    have hresponse : (OtaResult.rejected error).response = some response400 := rfl
    have hpage : Answers (ascii response400) .badRequest := answers_push hresponse
    have houtcome := Outcome.page (l := s.ledger) r.client.conn hpage (hpage.ne_accepted (by decide))
    rw [SiteLedger.say, htext] at houtcome
    exact houtcome

/-- The end of a call says its page. -/
theorem finish_outcome {s' : Site} {client : HttpClient} {run : PageRun} (h : CallSpec s client s' run)
    (i : Slot) : Outcome s.ledger (s'.finish i run).ledger := by
  obtain ⟨-, -, -, hpage, hanswers, hacts⟩ := h
  obtain hsent | ⟨page, hsent⟩ := hpage
  · obtain ⟨hledger, -⟩ | ⟨action, -, haccepted⟩ := hacts
    · have hquiet : (s'.finish i run).ledger = s'.ledger := by
        unfold finish
        rw [hsent]
        rfl
      rw [hquiet, hledger]
      exact .nothing
    · rw [hsent] at haccepted
      cases haccepted
  · have hsaid : (s'.finish i run).ledger = s'.ledger.say run.client.conn page := by
      unfold finish
      rw [hsent]
      rfl
    rw [hsaid]
    obtain ⟨hledger, hother⟩ | ⟨action, hledger, haccepted⟩ := hacts
    · obtain ⟨st, hst⟩ := hanswers page (hsent ▸ List.mem_singleton_self page)
      rw [hledger]
      exact .page run.client.conn hst fun hpage => hother (hsent.trans (congrArg (fun p => [p]) hpage))
    · rw [hledger, List.singleton_inj.mp (hsent.symm.trans haccepted)]
      exact .accepted run.client.conn action

theorem handle_outcome (env : SiteEnv) (i : Slot) (w : SiteWorld) (hs : s.crashed = false) :
    Outcome s.ledger (s.handle env i w).1.ledger := by
  unfold handle
  rcases httpDispatch (s.base.clients i) with fault | _ | url
  · exact .nothing
  · exact .nothing
  · by_cases hurl : url = .otaPush
    · simp only [if_pos hurl]
      exact push_outcome env s i w
    · simp only [if_neg hurl]
      cases hcrashed : (s.call env w (s.base.clients i) url).1.crashed with
      | true =>
        rw [if_pos rfl, call_crashed env w hs hcrashed]
        exact .nothing
      | false =>
        rw [if_neg Bool.false_ne_true]
        exact finish_outcome (call_spec env w s _ hurl hcrashed) i

theorem process_outcome (env : SiteEnv) (i : Slot) (w : SiteWorld) (hs : s.crashed = false) :
    Outcome s.ledger (s.process env i w).1.ledger := by
  unfold process
  split
  · rcases httpHeaders w.outside (s.base.clients i) with fault | ⟨client, _ | warning | _⟩
    · exact .nothing
    · exact .nothing
    · exact .nothing
    · exact handle_outcome (s := { s with base := s.base.enter i client }) env i w hs
  · exact handle_outcome env i w hs

theorem ledger_post (s : Site) (conn : ℕ) : ({ s with base := s.base.post conn } : Site).ledger = s.ledger := by
  unfold ledger Server.post
  split <;> rfl

theorem recvCb_outcome (env : SiteEnv) (conn : ℕ) (data : List UInt8) (w : SiteWorld) (hs : s.crashed = false) :
    Outcome s.ledger (s.recvCb env conn data w).ledger := by
  unfold recvCb
  rcases s.base.reverse conn with _ | i
  · dsimp only
    rw [ledger_post]
    exact .nothing
  · dsimp only
    split
    · rw [ledger_post]
      exact .nothing
    · have hprocess := process_outcome (s := { s with base := s.base.take i data }) env i w hs
      rcases hrun : ({ s with base := s.base.take i data } : Site).process env i w with ⟨s', _ | _⟩
      · rw [hrun] at hprocess
        exact hprocess
      · rw [hrun] at hprocess
        dsimp only
        rw [ledger_post]
        exact hprocess

end Site

/-! ## A run -/

/-- The network that an action chooses. -/
def SiteAction.conf : SiteAction → Option StationConfig
  | .station conf => some conf
  | _ => none

/-- The ledger is in order: each page is a response, `202 Accepted` and what has been set going belong
together, and the device is where these have brought it. -/
structure SiteLedger.Balanced (l : SiteLedger) : Prop where
  answers : ∀ p ∈ l.pages, ∃ st, Answers p.2 st
  sent : l.sent = l.pages.map fun p => (p.1, pageText p.2)
  accepted : (l.pages.filter fun p => p.2 = acceptedPage).map Prod.fst = l.actions.map Prod.fst
  station : l.station = l.actions.findSome? fun a => a.2.conf
  settings : l.settingsArmed → ∃ conn s, (conn, .settings s) ∈ l.actions
  reset : l.resetArmed ∨ l.restarting → ∃ conn, (conn, .reset) ∈ l.actions
  update : l.updating → ∃ conn, (conn, .update) ∈ l.actions

namespace SiteLedger

variable {l : SiteLedger}

theorem Balanced.say (h : l.Balanced) (conn : Option ℕ) {page : List UInt8} {st : HttpStatus}
    (hpage : Answers page st) (hother : page ≠ acceptedPage) : (l.say conn page).Balanced where
  answers := by
    intro p hp
    obtain rfl | hp := List.mem_cons.mp hp
    · exact ⟨st, hpage⟩
    · exact h.answers p hp
  sent := congrArg ((conn, pageText page) :: ·) h.sent
  accepted := by
    rw [SiteLedger.say, List.filter_cons_of_neg (by simpa using hother)]
    exact h.accepted
  station := h.station
  settings := h.settings
  reset := h.reset
  update := h.update

theorem Balanced.act (h : l.Balanced) (conn : Option ℕ) (action : SiteAction) :
    ((l.act conn action).say conn acceptedPage).Balanced := by
  have hactions : ((l.act conn action).say conn acceptedPage).actions = (conn, action) :: l.actions := by
    cases action <;> rfl
  have hpages : ((l.act conn action).say conn acceptedPage).pages = (conn, acceptedPage) :: l.pages := by
    cases action <;> rfl
  have hsent : ((l.act conn action).say conn acceptedPage).sent
      = (conn, pageText acceptedPage) :: l.sent := by
    cases action <;> rfl
  constructor
  · intro p hp
    rw [hpages] at hp
    obtain rfl | hp := List.mem_cons.mp hp
    · exact ⟨.accepted, answers_accepted⟩
    · exact h.answers p hp
  · rw [hsent, hpages, List.map_cons, h.sent]
  · rw [hpages, hactions, List.filter_cons_of_pos (by simp), List.map_cons, List.map_cons, h.accepted]
  · rw [hactions, List.findSome?_cons]
    cases action with
    | station conf => rfl
    | settings s => exact h.station
    | reset => exact h.station
    | update => exact h.station
  · intro harmed
    rw [hactions]
    have hold : l.settingsArmed ∨ ∃ s, action = .settings s := by
      cases action with
      | settings s => exact .inr ⟨s, rfl⟩
      | station conf => exact .inl harmed
      | reset => exact .inl harmed
      | update => exact .inl harmed
    obtain hold | ⟨s, rfl⟩ := hold
    · obtain ⟨c, s, hmem⟩ := h.settings hold
      exact ⟨c, s, List.mem_cons_of_mem _ hmem⟩
    · exact ⟨conn, s, List.mem_cons_self⟩
  · intro harmed
    rw [hactions]
    have hold : (l.resetArmed ∨ l.restarting) ∨ action = .reset := by
      cases action with
      | reset => exact .inr rfl
      | station conf => exact .inl harmed
      | settings s => exact .inl harmed
      | update => exact .inl harmed
    obtain hold | rfl := hold
    · obtain ⟨c, hmem⟩ := h.reset hold
      exact ⟨c, List.mem_cons_of_mem _ hmem⟩
    · exact ⟨conn, List.mem_cons_self⟩
  · intro hupdating
    rw [hactions]
    have hold : l.updating ∨ action = .update := by
      cases action with
      | update => exact .inr rfl
      | station conf => exact .inl hupdating
      | settings s => exact .inl hupdating
      | reset => exact .inl hupdating
    obtain hold | rfl := hold
    · obtain ⟨c, hmem⟩ := h.update hold
      exact ⟨c, List.mem_cons_of_mem _ hmem⟩
    · exact ⟨conn, List.mem_cons_self⟩

theorem Balanced.outcome {l' : SiteLedger} (h : l.Balanced) (houtcome : Outcome l l') : l'.Balanced := by
  cases houtcome with
  | nothing => exact h
  | page conn hpage hother => exact h.say conn hpage hother
  | accepted conn action => exact h.act conn action

end SiteLedger

namespace Site

theorem ledger_connCb (s : Site) (conn : ℕ) (registered : Bool) :
    ({ s with base := s.base.connCb conn registered } : Site).ledger = s.ledger := by
  unfold ledger Server.connCb Server.post
  dsimp only
  split
  · split
    · split <;> rfl
    · rfl
  · split <;> rfl

theorem ledger_disconnCb (s : Site) (conn : ℕ) :
    ({ s with base := s.base.disconnCb conn } : Site).ledger = s.ledger := by
  unfold ledger Server.disconnCb
  split <;> rfl

/-- The timers, too, only do what has been set going. -/
theorem step_balanced (env : SiteEnv) (s : Site) (e : SiteEvent) (h : s.ledger.Balanced) :
    (s.step env e).ledger.Balanced := by
  unfold step
  split
  · exact h
  · rename_i hstop
    have hs : s.crashed = false := by
      simp only [stopped, Bool.or_eq_true, not_or, Bool.not_eq_true] at hstop
      exact hstop.1.2
    cases e with
    | connect conn registered =>
      exact ledger_connCb s conn registered ▸ h
    | recv conn data w => exact h.outcome (recvCb_outcome env conn data w hs)
    | disconnect conn =>
      exact ledger_disconnCb s conn ▸ h
    | error conn err => exact h
    | task => exact h
    | reboot =>
      dsimp only
      unfold Server.otaReboot
      split
      · rename_i harmed
        have hupdate := h.update (by simp [ledger, harmed])
        exact ⟨h.answers, h.sent, h.accepted, h.station, h.settings, h.reset, fun _ => hupdate⟩
      · exact h
    | reset =>
      dsimp only
      split
      · rename_i harmed
        exact ⟨h.answers, h.sent, h.accepted, h.station, h.settings, fun _ => h.reset (.inl harmed), h.update⟩
      · exact h
    | paramWrite left =>
      dsimp only
      split
      · have hsame : ({ s with settingsArmed := false, base := s.base.paramStore env.ota left } : Site).ledger
            = { s.ledger with settingsArmed := false } := by
          unfold ledger Server.paramStore
          split <;> rfl
        rw [hsame]
        exact ⟨h.answers, h.sent, h.accepted, h.station, fun harmed => Bool.noConfusion harmed, h.reset, h.update⟩
      · exact h

/-- **What the site says and what it does.** Over any run every page is a complete response, the pages
`202 Accepted` belong one to one to what has been set going, the network is the one chosen last, and
no timer and no update is set that nobody has asked for. -/
theorem site_balanced (env : SiteEnv) (content : ℕ → UInt8) (settings : SmtpSettings) (es : List SiteEvent) :
    (run env content settings es).ledger.Balanced := by
  have hstep (s : Site) (e : SiteEvent) (h : s.ledger.Balanced) : (s.step env e).ledger.Balanced :=
    step_balanced env s e h
  refine Runs.foldl_inv hstep ?_ es
  constructor
  · intro p hp
    cases hp
  · rfl
  · rfl
  · rfl
  · intro harmed
    cases harmed
  · rintro (harmed | harmed)
    · cases harmed
    · cases harmed
  · intro hupdating
    cases hupdating

end Site
end Esp8266Toolbox
