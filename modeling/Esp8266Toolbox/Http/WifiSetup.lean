import Esp8266Toolbox.Http.SmtpSetup
import Esp8266Toolbox.Http.UrlWifi

/-!
# What a request to the page for the network leaves behind

The values of the query are collected in a local configuration, so a request that is turned down
leaves the station alone. One that is accepted gives the SDK the last value for each of the two
strings.
-/

namespace Esp8266Toolbox

/-- The strings of the configuration. -/
inductive WifiText where
  | ssid | password
deriving DecidableEq, Repr

/-- The size of the array. -/
def WifiText.size : WifiText → ℕ
  | .ssid => 32
  | .password => 64

/-- A key is recognised by how it begins. -/
def wifiKey (key : List UInt8) : Option WifiText :=
  if ascii "ssid" <+: key then some .ssid
  else if ascii "pass" <+: key then some .password
  else none

/-- The value is too long for the string that the key stands for. -/
def WifiOverflows (key val : List UInt8) : Prop := ∃ f, wifiKey key = some f ∧ f.size ≤ val.length

instance (key val : List UInt8) : Decidable (WifiOverflows key val) :=
  match h : wifiKey key with
  | some f => decidable_of_iff (f.size ≤ val.length) (by simp [WifiOverflows, h])
  | none => isFalse (by simp [WifiOverflows, h])

/-- The values for a string. -/
def wifiValues (f : WifiText) (ps : List (List UInt8 × List UInt8)) : List (List UInt8) :=
  ps.filterMap fun p => if wifiKey p.1 = some f then some p.2 else none

namespace StationConfig

/-- The array of a string. -/
def text (conf : StationConfig) : (f : WifiText) → Buf f.size
  | .ssid => conf.ssid
  | .password => conf.password

/-- One pair stored. -/
def store (conf : StationConfig) (key val : List UInt8) : StationConfig :=
  match wifiKey key with
  | some .ssid => { conf with ssid := conf.ssid.memcpy 0 (val ++ [0]) }
  | some .password => { conf with password := conf.password.memcpy 0 (val ++ [0]) }
  | none => conf

/-- Pairs stored one after the other. -/
def storeAll (conf : StationConfig) (ps : List (List UInt8 × List UInt8)) : StationConfig :=
  ps.foldl (fun conf p => conf.store p.1 p.2) conf

theorem store_text (conf : StationConfig) (key val : List UInt8) (f : WifiText) :
    (conf.store key val).text f =
      if wifiKey key = some f then (conf.text f).memcpy 0 (val ++ [0]) else conf.text f := by
  rw [store]
  rcases wifiKey key with _ | g
  · simp
  · cases g <;> cases f <;> rfl

theorem storeAll_cons (conf : StationConfig) (p : List UInt8 × List UInt8)
    (ps : List (List UInt8 × List UInt8)) :
    conf.storeAll (p :: ps) = (conf.store p.1 p.2).storeAll ps := rfl

/-- A string is written by the values for it and by nothing else. -/
theorem storeAll_text (conf : StationConfig) (ps : List (List UInt8 × List UInt8)) (f : WifiText) :
    (conf.storeAll ps).text f = (conf.text f).putStrs (wifiValues f ps) := by
  induction ps generalizing conf with
  | nil => rfl
  | cons p ps ih =>
    rw [storeAll_cons, ih, store_text]
    by_cases hkey : wifiKey p.1 = some f
    · simp only [wifiValues, List.filterMap_cons, hkey, if_true, Buf.putStrs, List.foldl_cons]
    · simp only [wifiValues, List.filterMap_cons, hkey, if_false]

end StationConfig

/-! ## The loop -/

/-- The comparisons of a key. -/
theorem wifiField_spec (key val : List UInt8) (conf : StationConfig) :
    wifiField key val conf = if WifiOverflows key val then none else some (conf.store key val) := by
  have hssid : strncmp key (ascii "ssid") 4 = 0 ↔ ascii "ssid" <+: key :=
    strncmp_length_eq_zero_iff (b := ascii "ssid") (by decide)
  have hpass : strncmp key (ascii "pass") 4 = 0 ↔ ascii "pass" <+: key :=
    strncmp_length_eq_zero_iff (b := ascii "pass") (by decide)
  simp only [wifiField, hssid, hpass, setText_eq, WifiOverflows, StationConfig.store, wifiKey]
  by_cases h1 : ascii "ssid" <+: key
  · by_cases hlen : 32 ≤ val.length <;> simp [h1, hlen, WifiText.size]
  by_cases h2 : ascii "pass" <+: key
  · by_cases hlen : 64 ≤ val.length <;> simp [h1, h2, hlen, WifiText.size]
  simp [h1, h2]

/-- The loop gets to its end if every piece has a `=` and no value overflows, and has stored all
pairs then. -/
theorem wifiLoop_spec (fuel : ℕ) (key : List UInt8) (conf : StationConfig) :
    ((wifiLoop fuel key conf).2 = .done ↔
      (queryPairs fuel key).2 = true ∧ ∀ p ∈ (queryPairs fuel key).1, ¬WifiOverflows p.1 p.2) ∧
    ((wifiLoop fuel key conf).2 = .done →
      (wifiLoop fuel key conf).1 = conf.storeAll (queryPairs fuel key).1) := by
  induction fuel generalizing key conf with
  | zero => simp [wifiLoop, queryPairs]
  | succ fuel ih =>
    rw [wifiLoop, queryPairs]
    rcases hcut : cutAt 0x3d key with _ | ⟨key', rest⟩
    · simp
    rcases hcut' : cutAt 0x26 rest with _ | ⟨val, next⟩
    · by_cases hlen : WifiOverflows key' (urlDecode rest)
      · simp [hcut', wifiField_spec, hlen]
      · simp [hcut', wifiField_spec, hlen, StationConfig.storeAll]
    · by_cases hlen : WifiOverflows key' (urlDecode val)
      · simp [hcut', wifiField_spec, hlen]
      · obtain ⟨hexit, hstore⟩ := ih next (conf.store key' (urlDecode val))
        simp only [hcut', wifiField_spec, if_neg hlen]
        rw [StationConfig.storeAll_cons, List.forall_mem_cons]
        dsimp only
        refine ⟨hexit.trans (and_congr_right fun _ => ?_), hstore⟩
        simp only [hlen, not_false_eq_true, true_and]

/-! ## The answer -/

/-- The last value that a query has for a string; the empty text if it has none. -/
def wifiWanted (query : List UInt8) (f : WifiText) : List UInt8 :=
  (wifiValues f (setupPairs query).1).getLast?.getD []

/-- Every piece of the query has a `=`, no value overflows, and neither string stays empty. -/
def WifiQuery (query : List UInt8) : Prop :=
  (setupPairs query).2 = true ∧ (∀ p ∈ (setupPairs query).1, ¬WifiOverflows p.1 p.2) ∧
    ∀ f, wifiWanted query f ≠ []

theorem wifiValues_spec {ps : List (List UInt8 × List UInt8)} (hzero : ∀ p ∈ ps, 0 ∉ p.2)
    (hfit : ∀ p ∈ ps, ¬WifiOverflows p.1 p.2) (f : WifiText) :
    ∀ v ∈ wifiValues f ps, 0 ∉ v ∧ v.length < f.size := by
  intro v hv
  obtain ⟨p, hp, hval⟩ := List.mem_filterMap.mp hv
  split at hval
  · rename_i hkey
    obtain rfl := Option.some.inj hval
    exact ⟨hzero p hp, Nat.lt_of_not_le fun hle => hfit p hp ⟨f, hkey, hle⟩⟩
  · cases hval

/-- The string in an array of zeros after strings that fit. -/
theorem cstr_putStrs_zero {n : ℕ} (hn : 0 < n) {vs : List (List UInt8)}
    (h : ∀ v ∈ vs, 0 ∉ v ∧ v.length < n) :
    cstr ((Buf.zero n).putStrs vs).toList = vs.getLast?.getD [] := by
  rcases List.eq_nil_or_concat vs with rfl | ⟨front, v, rfl⟩
  · obtain ⟨n, rfl⟩ : ∃ k, n = k + 1 := ⟨n - 1, by omega⟩
    simp [Buf.putStrs, cstr, Buf.zero, List.replicate_succ]
  · rw [List.concat_eq_append] at h ⊢
    obtain ⟨hzero, hlen⟩ := h v (by simp)
    rw [Buf.putStrs, List.foldl_concat, List.getLast?_concat, Option.getD_some]
    exact Buf.cstr_memcpy _ hzero hlen

theorem get_zero_eq_zero_iff {n : ℕ} (hn : 0 < n) (b : Buf n) : b.get 0 = 0 ↔ cstr b.toList = [] := by
  have hlen := b.length_toList
  obtain ⟨c, cs, hcs⟩ := List.exists_cons_of_length_pos (l := b.toList) (by omega)
  rw [Buf.get, hcs]
  by_cases hc : c = 0 <;> simp [cstr, hc]

theorem wifiForm_length : wifiForm.flatten.length < 1000 := by decide +kernel

theorem wifiPage_form :
    wifiPage .form = some (pageHeadFor wifiForm.flatten.length ++ wifiForm.flatten) := by
  have hform := wifiForm_length
  have hcap : httpOutbufMaxlen = 4096 := rfl
  have hhead := pageHead_length
  rw [wifiPage, appends_eq (by omega), Option.bind_eq_bind, Option.bind_some, outbufAppends_eq (by omega),
    if_pos (by omega), Option.bind_some, List.length_append, Nat.add_sub_cancel_left,
    patchLength_pageHead _ (by omega)]
  rfl

/-- The strings that the loop leaves when it gets to its end. -/
theorem wifiLoop_wanted {query : List UInt8} (hzero : 0 ∉ query)
    (hdone : (wifiLoop (query.length + 1) query .zero).2 = .done) (f : WifiText) :
    cstr ((wifiLoop (query.length + 1) query .zero).1.text f).toList = wifiWanted query f := by
  obtain ⟨hexit, hstore⟩ := wifiLoop_spec (query.length + 1) query .zero
  have hsize : 0 < f.size := by cases f <;> decide
  have hnil : StationConfig.zero.text f = Buf.zero f.size := by cases f <;> rfl
  rw [hstore hdone, StationConfig.storeAll_text, hnil]
  exact cstr_putStrs_zero hsize
    (wifiValues_spec (queryPairs_no_zero _ hzero) (hexit.mp hdone).2 f)

/-- A query is accepted if and only if nothing is wrong with it, and then the configuration has the
strings that it asks for. -/
theorem wifiResult_spec {query : List UInt8} (hzero : 0 ∉ query) :
    ((wifiResult (some query)).2 = .done ↔ WifiQuery query) ∧
    ((wifiResult (some query)).2 = .done →
      ∀ f, cstr ((wifiResult (some query)).1.text f).toList = wifiWanted query f) := by
  obtain ⟨hexit, -⟩ := wifiLoop_spec (query.length + 1) query .zero
  have hwanted := wifiLoop_wanted hzero
  have hssid := get_zero_eq_zero_iff (by decide) (wifiLoop (query.length + 1) query .zero).1.ssid
  have hpass := get_zero_eq_zero_iff (by decide) (wifiLoop (query.length + 1) query .zero).1.password
  have hresult : wifiResult (some query) =
      if (wifiLoop (query.length + 1) query .zero).2 = .done ∧
          ((wifiLoop (query.length + 1) query .zero).1.ssid.get 0 = 0 ∨
            (wifiLoop (query.length + 1) query .zero).1.password.get 0 = 0) then
        ((wifiLoop (query.length + 1) query .zero).1, .form)
      else wifiLoop (query.length + 1) query .zero := rfl
  rw [hresult, WifiQuery]
  generalize wifiLoop (query.length + 1) query .zero = r at hexit hwanted hssid hpass ⊢
  by_cases hdone : r.2 = .done
  · have htext (f : WifiText) := hwanted hdone f
    have hs : cstr r.1.ssid.toList = wifiWanted query .ssid := htext .ssid
    have hp : cstr r.1.password.toList = wifiWanted query .password := htext .password
    rw [hs] at hssid
    rw [hp] at hpass
    have hempty : (r.1.ssid.get 0 = 0 ∨ r.1.password.get 0 = 0) ↔ ¬∀ f, wifiWanted query f ≠ [] := by
      rw [hssid, hpass]
      constructor
      · rintro (h | h) hall
        · exact hall .ssid h
        · exact hall .password h
      · intro hall
        by_contra hnone
        rw [not_or] at hnone
        exact hall fun f => by cases f; exacts [hnone.1, hnone.2]
    by_cases hmissing : r.1.ssid.get 0 = 0 ∨ r.1.password.get 0 = 0
    · rw [if_pos ⟨hdone, hmissing⟩]
      exact ⟨iff_of_false (by simp) fun h => hempty.mp hmissing h.2.2, fun h => by cases h⟩
    · rw [if_neg fun h => hmissing h.2]
      have hall := not_not.mp (mt hempty.mpr hmissing)
      exact ⟨iff_of_true hdone ⟨(hexit.mp hdone).1, (hexit.mp hdone).2, hall⟩, fun _ => htext⟩
  · rw [if_neg fun h => hdone h.1]
    exact ⟨iff_of_false hdone fun h => hdone (hexit.mpr ⟨h.1, h.2.1⟩), fun h => absurd h hdone⟩

/-- The answers are pages of their own. -/
theorem wifiPage_accepted (exit : SetupExit) : wifiPage exit = some acceptedPage ↔ exit = .done := by
  have hform : (pageHeadFor wifiForm.flatten.length ++ wifiForm.flatten).take 12 = ascii "HTTP/1.1 200" := by
    simp only [pageHeadFor, List.append_assoc]
    rw [List.take_append_of_le_length (by decide)]
    decide
  have hcode : acceptedPage.take 12 = ascii "HTTP/1.1 202" := by decide
  cases exit with
  | done => exact iff_of_true page_done rfl
  | fail => exact page_accepted .fail
  | form =>
    refine iff_of_false (fun h => ?_) (by decide)
    rw [wifiPage_form, Option.some.injEq] at h
    rw [h, hcode] at hform
    revert hform
    decide

theorem wifiPage_isSome (exit : SetupExit) : (wifiPage exit).isSome = true := by
  cases exit with
  | done => exact page_isSome .done
  | fail => exact page_isSome .fail
  | form => rw [wifiPage_form, Option.isSome_some]

theorem sent_sendPage_wifiPage (client : HttpClient) (exit : SetupExit) :
    (sendPage client (wifiPage exit)).sent = [acceptedPage] ↔ exit = .done := by
  obtain ⟨out, hout⟩ := Option.isSome_iff_exists.mp (wifiPage_isSome exit)
  rw [← wifiPage_accepted exit, hout, Option.some.injEq]
  simp [sendPage]

/-- The query that the page reads, if there is one, decides how the page ends, and what it stores. -/
theorem wifiResult_query {client : HttpClient} :
    ((wifiResult client.query).2 = .done ↔ ∃ query, client.query = some query ∧ WifiQuery query) ∧
    ((wifiResult client.query).2 = .done → ∀ query, client.query = some query →
      ∀ f, cstr ((wifiResult client.query).1.text f).toList = wifiWanted query f) := by
  rcases hquery : client.query with _ | query
  · have hform : (wifiResult none).2 = .form := rfl
    simp [hform]
  · have hspec := wifiResult_spec (query_no_zero hquery)
    simpa only [Option.some.injEq, exists_eq_left', forall_eq'] using hspec

/-- The network page, when all of the data has come. -/
theorem httpUrlWifiSetup_ready {client c : HttpClient} (h : ignorePostdata client = (c, false)) (taken : Bool) :
    httpUrlWifiSetup taken client =
      if (wifiResult c.query).2 = .done ∧ taken = true then
        ⟨sendPage c (wifiPage .done), some (wifiResult c.query).1⟩
      else ⟨sendPage c (wifiPage (if (wifiResult c.query).2 = .done then .fail else (wifiResult c.query).2)), none⟩ := by
  rw [httpUrlWifiSetup, ignoringPostdata, h]
  dsimp only
  rcases wifiResult c.query with ⟨conf, exit⟩
  cases exit <;> cases taken <;> rfl

theorem httpUrlWifiSetup_pending {client c : HttpClient} (h : ignorePostdata client = (c, true)) (taken : Bool) :
    httpUrlWifiSetup taken client = ⟨⟨c, [], false⟩, none⟩ := by
  rw [httpUrlWifiSetup, ignoringPostdata, h]

/-- The station gets a configuration if nothing is wrong with the request and the SDK takes it. -/
theorem wifiSetup_station (taken : Bool) (client : HttpClient) :
    (httpUrlWifiSetup taken client).station ≠ none ↔
      (ignorePostdata client).2 = false ∧ taken = true ∧
        ∃ query, (ignorePostdata client).1.query = some query ∧ WifiQuery query := by
  rcases h : ignorePostdata client with ⟨c, _ | _⟩
  swap
  · simp [httpUrlWifiSetup_pending h]
  rw [httpUrlWifiSetup_ready h, ← wifiResult_query.1]
  split
  · rename_i hdone
    exact iff_of_true (by simp) ⟨rfl, hdone.2, hdone.1⟩
  · rename_i hdone
    exact iff_of_false (by simp) fun hall => hdone ⟨hall.2.2, hall.2.1⟩

/-- The visitor is told `202 Accepted` if the station gets a configuration. -/
theorem wifiSetup_sent (taken : Bool) (client : HttpClient) :
    (httpUrlWifiSetup taken client).station ≠ none ↔
      (httpUrlWifiSetup taken client).page.sent = [acceptedPage] := by
  rcases h : ignorePostdata client with ⟨c, _ | _⟩
  swap
  · simp [httpUrlWifiSetup_pending h]
  rw [httpUrlWifiSetup_ready h]
  split
  · exact iff_of_true (by simp) ((sent_sendPage_wifiPage c .done).mpr rfl)
  · rename_i hdone
    refine iff_of_false (by simp) fun hsent => ?_
    have hexit := (sent_sendPage_wifiPage c _).mp hsent
    by_cases hresult : (wifiResult c.query).2 = .done
    · rw [if_pos hresult] at hexit
      cases hexit
    · rw [if_neg hresult] at hexit
      exact hresult hexit

/-- The configuration that the station gets is the one that the query asks for. -/
theorem wifiSetup_strings {taken : Bool} {client : HttpClient} {conf : StationConfig} {query : List UInt8}
    (hconf : (httpUrlWifiSetup taken client).station = some conf)
    (hquery : (ignorePostdata client).1.query = some query) (f : WifiText) :
    cstr (conf.text f).toList = wifiWanted query f := by
  rcases h : ignorePostdata client with ⟨c, _ | _⟩
  swap
  · rw [httpUrlWifiSetup_pending h] at hconf
    cases hconf
  rw [httpUrlWifiSetup_ready h] at hconf
  rw [h] at hquery
  split at hconf
  · rename_i hdone
    rw [← Option.some.inj hconf]
    exact wifiResult_query.2 hdone.1 query hquery f
  · cases hconf

/-- **The network page is all or nothing.** The station gets a configuration exactly when the request is
answered `202 Accepted`: all of its data has come, its query names both strings and overflows
neither, and the SDK takes them. Each string is then the last value that the query has for it. -/
theorem wifiSetup_iff (taken : Bool) (client : HttpClient) :
    ((httpUrlWifiSetup taken client).station ≠ none ↔
      (httpUrlWifiSetup taken client).page.sent = [acceptedPage]) ∧
    ((httpUrlWifiSetup taken client).station ≠ none ↔
      (ignorePostdata client).2 = false ∧ taken = true ∧
        ∃ query, (ignorePostdata client).1.query = some query ∧ WifiQuery query) ∧
    ∀ conf query, (httpUrlWifiSetup taken client).station = some conf →
      (ignorePostdata client).1.query = some query → ∀ f, cstr (conf.text f).toList = wifiWanted query f :=
  ⟨wifiSetup_sent taken client, wifiSetup_station taken client,
    fun _ _ hconf hquery => wifiSetup_strings hconf hquery⟩

end Esp8266Toolbox
