import Esp8266Toolbox.Lib.HttpResponse
import Esp8266Toolbox.Http.WifiSetup

/-!
# Forms that a browser submits

The browser joins the fields of a form with `=` and `&`, form-encoded. The pages take such a query
apart into the same fields, so that what has been typed into the form is what is stored, as long
as it has no space in it and no text that is itself a code of `url_decode`.
-/

namespace Esp8266Toolbox

/-! ## Queries -/

/-- The query that a browser makes of the fields of a form. -/
def formQuery : List (List UInt8 × List UInt8) → List UInt8
  | [] => []
  | [p] => p.1 ++ 0x3d :: formEncode p.2
  | p :: ps => p.1 ++ 0x3d :: (formEncode p.2 ++ 0x26 :: formQuery ps)

theorem cutAt_of_notMem {c : UInt8} {s : List UInt8} (h : c ∉ s) : cutAt c s = none := if_neg h

theorem cutAt_append {c : UInt8} {a : List UInt8} (h : c ∉ a) (b : List UInt8) :
    cutAt c (a ++ c :: b) = some (a, b) := by
  have hne : ∀ x ∈ a, x ≠ c := fun x hx hxc => h (hxc ▸ hx)
  have hfront : (a ++ c :: b).takeWhile (· ≠ c) = a := by
    rw [List.takeWhile_append_of_pos (by simpa using hne)]
    simp
  have hback : (a ++ c :: b).dropWhile (· ≠ c) = c :: b := by
    rw [List.dropWhile_append_of_pos (by simpa using hne)]
    simp
  rw [cutAt, if_pos (by simp), hfront, hback, List.tail_cons]

/-- The bytes that a form-encoded field is made of. -/
theorem formEncode_bytes {s : List UInt8} {c : UInt8} (h : c ∈ formEncode s) : c ≠ 0x3d ∧ c ≠ 0x26 ∧ c ≠ 0 := by
  have hall : ∀ c : UInt8, ∀ x ∈ (if formUnchanged c then [c] else if c = SP then [0x2b]
      else percentCode true c), x ≠ 0x3d ∧ x ≠ 0x26 ∧ x ≠ 0 := byte_forall (by decide +kernel)
  obtain ⟨d, -, hd⟩ := List.mem_flatMap.mp h
  exact hall d c hd

/-- It has neither of the separators in it. -/
theorem formEncode_no_separator (s : List UInt8) : 0x3d ∉ formEncode s ∧ 0x26 ∉ formEncode s :=
  ⟨fun h => (formEncode_bytes h).1 rfl, fun h => (formEncode_bytes h).2.1 rfl⟩

theorem formQuery_no_zero {ps : List (List UInt8 × List UInt8)} (hkeys : ∀ p ∈ ps, 0 ∉ p.1) :
    0 ∉ formQuery ps := by
  induction ps with
  | nil => exact List.not_mem_nil
  | cons p ps ih =>
    have hkey := hkeys p List.mem_cons_self
    have hval : 0 ∉ formEncode p.2 := fun h => (formEncode_bytes h).2.2 rfl
    have hrest := ih fun q hq => hkeys q (List.mem_cons_of_mem p hq)
    rcases ps with _ | ⟨q, qs⟩
    · rw [formQuery]
      simp [hkey, hval]
    · rw [formQuery]
      · simp [hkey, hval, hrest]
      · simp

/-- The fields come back, decoded. -/
theorem queryPairs_formQuery {ps : List (List UInt8 × List UInt8)} (hne : ps ≠ [])
    (hkeys : ∀ p ∈ ps, 0x3d ∉ p.1) {fuel : ℕ} (hfuel : (formQuery ps).length < fuel) :
    queryPairs fuel (formQuery ps) = (ps.map fun p => (p.1, urlDecode (formEncode p.2)), true) := by
  induction ps generalizing fuel with
  | nil => exact absurd rfl hne
  | cons p ps ih =>
    obtain ⟨fuel, rfl⟩ : ∃ k, fuel = k + 1 := ⟨fuel - 1, by omega⟩
    have hkey := hkeys p List.mem_cons_self
    obtain ⟨heq, hamp⟩ := formEncode_no_separator p.2
    rcases ps with _ | ⟨q, qs⟩
    · rw [formQuery, queryPairs, cutAt_append hkey]
      simp only [cutAt_of_notMem hamp]
      rfl
    · rw [formQuery, List.length_append, List.length_cons, List.length_append, List.length_cons] at hfuel
      · have hfuel' : (formQuery (q :: qs)).length < fuel := by omega
        have hrest := ih (List.cons_ne_nil q qs) (fun p' hp' => hkeys p' (List.mem_cons_of_mem p hp')) hfuel'
        rw [formQuery, queryPairs, cutAt_append hkey]
        · simp only [cutAt_append hamp, hrest]
          rfl
        · simp
      · simp

/-- What has been typed into a field of a form and comes out of it as it was typed. -/
structure Typed (s : List UInt8) : Prop where
  printable : ∀ c ∈ s, Printable c
  no_space : SP ∉ s
  plain : ∀ e ∈ urlMap, ¬e.1 <:+: s

theorem Typed.decoded {s : List UInt8} (h : Typed s) : urlDecode (formEncode s) = s := by
  rw [urlDecode_encoded h.printable (formEncode_encodes s) h.plain]
  exact (map_spaceToPlus_eq_self s).mpr h.no_space

/-- The pairs of a form whose fields have been typed. -/
theorem setupPairs_formQuery {ps : List (List UInt8 × List UInt8)} (hne : ps ≠ [])
    (hkeys : ∀ p ∈ ps, 0x3d ∉ p.1) (hvals : ∀ p ∈ ps, Typed p.2) :
    setupPairs (formQuery ps) = (ps, true) := by
  rw [setupPairs, queryPairs_formQuery hne hkeys (Nat.lt_succ_self _)]
  have hsame : (ps.map fun p => (p.1, urlDecode (formEncode p.2))) = ps.map id :=
    List.map_congr_left fun p hp => by rw [(hvals p hp).decoded, id]
  rw [hsame, List.map_id]

/-! ## The network page -/

/-- The fields of the form of the network page. -/
def wifiFields (ssid password : List UInt8) : List (List UInt8 × List UInt8) :=
  [(ascii "ssid", ssid), (ascii "pass", password)]

/-- **The form of the network page**: a name of 1 to 31 characters and a password of 1 to 63 are what the
station is given. -/
theorem wifi_form_stored {client : HttpClient} {ssid password : List UInt8}
    (hready : (ignorePostdata client).2 = false)
    (hquery : (ignorePostdata client).1.query = some (formQuery (wifiFields ssid password)))
    (hssid : Typed ssid) (hpass : Typed password) (hne : ssid ≠ [] ∧ password ≠ [])
    (hlen : ssid.length < 32 ∧ password.length < 64) :
    ∃ conf, (httpUrlWifiSetup true client).station = some conf ∧ cstr conf.ssid.toList = ssid ∧
      cstr conf.password.toList = password ∧ (httpUrlWifiSetup true client).page.sent = [acceptedPage] := by
  have hpairs : setupPairs (formQuery (wifiFields ssid password)) = (wifiFields ssid password, true) :=
    setupPairs_formQuery (by simp [wifiFields]) (by
      simp only [wifiFields, List.forall_mem_cons]
      decide) (by
      intro p hp
      simp only [wifiFields, List.mem_cons, List.not_mem_nil, or_false] at hp
      rcases hp with rfl | rfl
      · exact hssid
      · exact hpass)
  have hwanted : wifiWanted (formQuery (wifiFields ssid password)) .ssid = ssid ∧
      wifiWanted (formQuery (wifiFields ssid password)) .password = password := by
    rw [wifiWanted, wifiWanted, hpairs]
    exact ⟨rfl, rfl⟩
  have hkey₁ : wifiKey (ascii "ssid") = some .ssid := by decide
  have hkey₂ : wifiKey (ascii "pass") = some .password := by decide
  have hgood : WifiQuery (formQuery (wifiFields ssid password)) := by
    refine ⟨by rw [hpairs], ?_, fun f => ?_⟩
    · rw [hpairs]
      intro p hp
      simp only [wifiFields, List.mem_cons, List.not_mem_nil, or_false] at hp
      rcases hp with rfl | rfl
      · rintro ⟨f, hf, hle⟩
        rw [hkey₁] at hf
        cases hf
        exact absurd hle (Nat.not_le.mpr hlen.1)
      · rintro ⟨f, hf, hle⟩
        rw [hkey₂] at hf
        cases hf
        exact absurd hle (Nat.not_le.mpr hlen.2)
    · cases f
      · rw [hwanted.1]
        exact hne.1
      · rw [hwanted.2]
        exact hne.2
  have hset := (wifiSetup_station true client).mpr ⟨hready, rfl, _, hquery, hgood⟩
  obtain ⟨conf, hconf⟩ := Option.ne_none_iff_exists'.mp hset
  have htext (f : WifiText) := wifiSetup_strings hconf hquery f
  exact ⟨conf, hconf, (htext .ssid).trans hwanted.1, (htext .password).trans hwanted.2,
    (wifiSetup_sent true client).mp hset⟩

/-! ## The page for the mail account -/

/-- What is typed into the form for the mail account. -/
structure AccountForm where
  from' : List UInt8
  to' : List UInt8
  host : List UInt8
  port : ℕ
  user : List UInt8
  pass : List UInt8

namespace AccountForm

/-- The fields, in the order of the form. -/
def fields (f : AccountForm) : List (List UInt8 × List UInt8) :=
  [(ascii "from", f.from'), (ascii "to", f.to'), (ascii "host", f.host), (ascii "port", decimal f.port),
    (ascii "user", f.user), (ascii "pass", f.pass)]

/-- The text for a string of `smtp_server`. -/
def text (f : AccountForm) : SetupText → List UInt8
  | .host => f.host
  | .user => f.user
  | .pass => f.pass
  | .from' => f.from'
  | .to' => f.to'

/-- The fields fit what they are for: no string is empty or too long, and the port is one. -/
structure Fits (f : AccountForm) : Prop where
  typed : ∀ t, Typed (f.text t)
  ne_nil : ∀ t, f.text t ≠ []
  length_lt : ∀ t, (f.text t).length < t.size
  port_pos : 0 < f.port
  port_lt : f.port < 2 ^ 16

end AccountForm

theorem takeWhile_isdigit_decimal (n : ℕ) : (decimal n).takeWhile isdigit = decimal n :=
  List.takeWhile_eq_self_iff.mpr fun _ hc => isdigit_of_mem_decimal hc

/-- A port number is read back. -/
theorem portValue_decimal {n : ℕ} (hn : n < 2 ^ 16) : portValue (decimal n) = n := by
  obtain ⟨c, cs, hcs⟩ := List.exists_cons_of_ne_nil (decimal_ne_nil n)
  have hdigit := isdigit_of_mem_decimal (n := n) (c := c) (by rw [hcs]; exact List.mem_cons_self)
  have hall : ∀ c : UInt8, isdigit c = true → isspace c = false ∧ c ≠ 0x2d ∧ c ≠ 0x2b :=
    byte_forall (by decide +kernel)
  obtain ⟨hspace, hminus, hplus⟩ := hall c hdigit
  have hdrop : (decimal n).dropWhile isspace = decimal n := by
    rw [hcs, List.dropWhile_cons, if_neg (by simp [hspace])]
  have hhead : (decimal n).headD 0 = c := by rw [hcs]; rfl
  have hvalue : atoiStr (decimal n) = n := by
    rw [atoiStr, hdrop, decValue, hhead]
    simp only [hminus, hplus, decide_false, Bool.or_false, Bool.false_eq_true, if_false,
      takeWhile_isdigit_decimal, decNat_decimal]
    omega
  rw [portValue, hvalue]
  omega

theorem typed_decimal (n : ℕ) : Typed (decimal n) := by
  have hall : ∀ c : UInt8, isdigit c = true → Printable c ∧ c ≠ SP ∧ c ≠ 0x25 :=
    byte_forall (by decide +kernel)
  have hdigit := fun c hc => hall c (isdigit_of_mem_decimal (n := n) hc)
  refine ⟨fun c hc => (hdigit c hc).1, fun h => (hdigit SP h).2.1 rfl, fun e he h => ?_⟩
  obtain ⟨tail, htail, -⟩ := urlTable.shape e he
  have hesc : (0x25 : UInt8) ∈ e.1 := by
    rw [htail]
    exact List.mem_cons_self
  exact (hdigit 0x25 (h.subset hesc)).2.2 rfl

/-- The settings are on their way to flash if and only if the request is answered `202 Accepted`. -/
theorem setup_armed_iff (client : HttpClient) (s : SmtpSettings) :
    (httpUrlSmtpSetup client s).armed = true ↔ (httpUrlSmtpSetup client s).sent = [acceptedPage] := by
  unfold httpUrlSmtpSetup
  rcases ignorePostdata client with ⟨client', _ | _⟩
  · dsimp only
    rcases setupResult client'.query s with ⟨s', exit⟩
    obtain ⟨out, hout⟩ := Option.isSome_iff_exists.mp (page_isSome exit)
    have hiff := page_accepted exit
    rw [hout, Option.some.injEq] at hiff
    simp [hout, hiff]
  · simp

/-- **The form of the mail account**: what has been typed into it is in `smtp_server` afterwards,
whatever was there before, and is on its way to flash. -/
theorem account_form_stored {client : HttpClient} {f : AccountForm} (hfits : f.Fits)
    (hready : (ignorePostdata client).2 = false)
    (hquery : (ignorePostdata client).1.query = some (formQuery f.fields)) (s : SmtpSettings) :
    (∀ t, cstr ((httpUrlSmtpSetup client s).settings.text t).toList = f.text t) ∧
      (httpUrlSmtpSetup client s).settings.port = f.port ∧
      (httpUrlSmtpSetup client s).sent = [acceptedPage] ∧ (httpUrlSmtpSetup client s).armed = true := by
  have hpairs : setupPairs (formQuery f.fields) = (f.fields, true) :=
    setupPairs_formQuery (by simp [AccountForm.fields]) (by
      simp only [AccountForm.fields, List.forall_mem_cons]
      decide) (by
      simp only [AccountForm.fields, List.forall_mem_cons]
      exact ⟨hfits.typed .from', hfits.typed .to', hfits.typed .host, typed_decimal f.port,
        hfits.typed .user, hfits.typed .pass, by simp⟩)
  -- each key is the key of one string
  have hkeys : setupKey (ascii "from") = some (.text .from') ∧ setupKey (ascii "to") = some (.text .to') ∧
      setupKey (ascii "host") = some (.text .host) ∧ setupKey (ascii "port") = some .port ∧
      setupKey (ascii "user") = some (.text .user) ∧ setupKey (ascii "pass") = some (.text .pass) := by
    decide
  obtain ⟨hk₁, hk₂, hk₃, hk₄, hk₅, hk₆⟩ := hkeys
  have hvalues (t : SetupText) : values t f.fields = [f.text t] := by
    cases t <;> simp [values, AccountForm.fields, AccountForm.text, hk₁, hk₂, hk₃, hk₄, hk₅, hk₆]
  have hports : ports f.fields = [f.port] := by
    simp [ports, AccountForm.fields, hk₁, hk₂, hk₃, hk₄, hk₅, hk₆, portValue_decimal hfits.port_lt]
  have hfit : ∀ p ∈ f.fields, ¬Overflows p.1 p.2 := by
    simp only [AccountForm.fields, List.forall_mem_cons, Overflows, hk₁, hk₂, hk₃, hk₄, hk₅, hk₆]
    exact ⟨Nat.not_le.mpr (hfits.length_lt .from'), Nat.not_le.mpr (hfits.length_lt .to'),
      Nat.not_le.mpr (hfits.length_lt .host), id, Nat.not_le.mpr (hfits.length_lt .user),
      Nat.not_le.mpr (hfits.length_lt .pass), by simp⟩
  have hcomplete : CompleteQuery (formQuery f.fields) s := by
    refine ⟨by rw [hpairs], by rw [hpairs]; exact hfit, fun t => ?_, ?_⟩
    · rw [hpairs, hvalues, Filled]
      exact hfits.ne_nil t
    · rw [hpairs, hports]
      exact Nat.pos_iff_ne_zero.mp hfits.port_pos
  have hzero := query_no_zero hquery
  obtain ⟨hset, hsent⟩ := (httpUrlSmtpSetup_spec client s).2 hready
  rw [hquery] at hset hsent
  obtain ⟨hstore, hdone⟩ := setupResult_spec hzero s
  rw [hpairs] at hstore
  dsimp only at hstore
  rw [storedPairs_eq hfit] at hstore
  have hvals : ∀ p ∈ f.fields, 0 ∉ p.2 := by
    have := queryPairs_no_zero ((formQuery f.fields).length + 1) hzero
    rw [← setupPairs, hpairs] at this
    exact this
  obtain ⟨htext, hport⟩ := storeAll_fromPairs s hvals hfit
  refine ⟨fun t => ?_, ?_, hsent.mpr (hdone.mpr hcomplete), ?_⟩
  · have ht := htext t
    rw [hvalues] at ht
    rw [hset, hstore]
    exact ht
  · rw [hset, hstore, hport, hports]
    rfl
  · exact (setup_armed_iff client s).mpr (hsent.mpr (hdone.mpr hcomplete))

/-- An account, typed into the form. -/
def typedAccount : AccountForm :=
  { from' := ascii "a@b", to' := ascii "c@d", host := ascii "mx", port := 465, user := ascii "me", pass := ascii "pw" }

theorem typedAccount_fits : typedAccount.Fits := by
  refine ⟨fun t => ?_, fun t => ?_, fun t => ?_, by decide, by decide⟩
  · cases t <;> exact ⟨by decide, by decide, by decide⟩
  · cases t <;> decide
  · cases t <;> decide

end Esp8266Toolbox
