import Esp8266Toolbox.Http.FormDecoding
import Esp8266Toolbox.Http.UrlSmtp

/-!
# What a request to the page for the mail account leaves behind

Every value of the query goes into `smtp_server` as soon as it is read. A request that is turned down
at a later pair, or for something that is missing, has by then stored the pairs before; whether
that shows depends on what was there.
-/

namespace Esp8266Toolbox

/-- The strings of `smtp_server`. -/
inductive SetupText where
  | host | user | pass | from' | to'
deriving DecidableEq, Repr

/-- The size of the array. -/
def SetupText.size : SetupText → ℕ
  | .host => 64
  | .user => 64
  | .pass => 64
  | .from' => 128
  | .to' => 128

namespace SmtpSettings

/-- The array of a string. -/
def text (s : SmtpSettings) : (f : SetupText) → Buf f.size
  | .host => s.host
  | .user => s.user
  | .pass => s.pass
  | .from' => s.from'
  | .to' => s.to'

/-- A value copied into a string. -/
def put (s : SmtpSettings) (val : List UInt8) : SetupText → SmtpSettings
  | .host => { s with host := s.host.memcpy 0 (val ++ [0]) }
  | .user => { s with user := s.user.memcpy 0 (val ++ [0]) }
  | .pass => { s with pass := s.pass.memcpy 0 (val ++ [0]) }
  | .from' => { s with from' := s.from'.memcpy 0 (val ++ [0]) }
  | .to' => { s with to' := s.to'.memcpy 0 (val ++ [0]) }

end SmtpSettings

/-- What a key stands for. -/
inductive SetupKey where
  | text (f : SetupText)
  | port
deriving DecidableEq, Repr

/-- A key is recognised by how it begins. -/
def setupKey (key : List UInt8) : Option SetupKey :=
  if ascii "host" <+: key then some (.text .host)
  else if ascii "port" <+: key then some .port
  else if ascii "user" <+: key then some (.text .user)
  else if ascii "pass" <+: key then some (.text .pass)
  else if ascii "from" <+: key then some (.text .from')
  else if ascii "to" <+: key then some (.text .to')
  else none

/-- The value is too long for the string that the key stands for. -/
def Overflows (key val : List UInt8) : Prop :=
  match setupKey key with
  | some (.text f) => f.size ≤ val.length
  | _ => False

instance (key val : List UInt8) : Decidable (Overflows key val) :=
  match h : setupKey key with
  | some (.text f) => decidable_of_iff (f.size ≤ val.length) (by simp [Overflows, h])
  | some .port => isFalse (by simp [Overflows, h])
  | none => isFalse (by simp [Overflows, h])

/-- One pair stored. -/
def SmtpSettings.store (s : SmtpSettings) (key val : List UInt8) : SmtpSettings :=
  match setupKey key with
  | some (.text f) => s.put val f
  | some .port => { s with port := portValue val }
  | none => s

/-- Pairs stored one after the other. -/
def SmtpSettings.storeAll (s : SmtpSettings) (ps : List (List UInt8 × List UInt8)) : SmtpSettings :=
  ps.foldl (fun s p => s.store p.1 p.2) s

/-- The pairs of a query, with the values decoded, up to a piece without a `=`; the flag says that
there is no such piece. -/
def queryPairs : ℕ → List UInt8 → List (List UInt8 × List UInt8) × Bool
  | 0, _ => ([], false)
  | fuel + 1, key =>
    match cutAt 0x3d key with
    | none => ([], false)
    | some (key, rest) =>
      match cutAt 0x26 rest with
      | none => ([(key, urlDecode rest)], true)
      | some (val, next) =>
        ((key, urlDecode val) :: (queryPairs fuel next).1, (queryPairs fuel next).2)

/-- The pairs of a whole query. -/
def setupPairs (query : List UInt8) : List (List UInt8 × List UInt8) × Bool :=
  queryPairs (query.length + 1) query

/-- The pairs in front of the first one that overflows. -/
def storedPairs (ps : List (List UInt8 × List UInt8)) : List (List UInt8 × List UInt8) :=
  ps.takeWhile fun p => decide (¬Overflows p.1 p.2)

theorem storedPairs_eq {ps : List (List UInt8 × List UInt8)} (h : ∀ p ∈ ps, ¬Overflows p.1 p.2) :
    storedPairs ps = ps :=
  List.takeWhile_eq_self_iff.mpr fun p hp => decide_eq_true (h p hp)

/-- The values for a string. -/
def values (f : SetupText) (ps : List (List UInt8 × List UInt8)) : List (List UInt8) :=
  ps.filterMap fun p => if setupKey p.1 = some (.text f) then some p.2 else none

/-- The values for the port. -/
def ports (ps : List (List UInt8 × List UInt8)) : List ℕ :=
  ps.filterMap fun p => if setupKey p.1 = some .port then some (portValue p.2) else none

/-- The string is not empty after the values. -/
def Filled {n : ℕ} (b : Buf n) (vs : List (List UInt8)) : Prop :=
  match vs.getLast? with
  | some v => v ≠ []
  | none => b.get 0 ≠ 0

/-! ## One pair -/

/-- Two texts of which none begins the other do not both begin a key. -/
theorem not_prefix_of_prefix {a b key : List UInt8} (ha : a <+: key) (h : ¬a <+: b ∧ ¬b <+: a) :
    ¬b <+: key := by
  intro hb
  rcases List.prefix_or_prefix_of_prefix ha hb with hab | hba
  · exact h.1 hab
  · exact h.2 hba

theorem setText_eq {n : ℕ} (b : Buf n) (val : List UInt8) :
    setText b val = if n ≤ val.length then none else some (b.memcpy 0 (val ++ [0])) := rfl

/-- The comparisons of a key. -/
theorem setupField_spec (key val : List UInt8) (s : SmtpSettings) :
    (Overflows key val → setupField key val s = .error s) ∧
      (¬Overflows key val → setupField key val s = .ok (s.store key val)) := by
  have hhost : strncmp key (ascii "host") 4 = 0 ↔ ascii "host" <+: key :=
    strncmp_length_eq_zero_iff (b := ascii "host") (by decide)
  have hport : strncmp key (ascii "port") 4 = 0 ↔ ascii "port" <+: key :=
    strncmp_length_eq_zero_iff (b := ascii "port") (by decide)
  have huser : strncmp key (ascii "user") 4 = 0 ↔ ascii "user" <+: key :=
    strncmp_length_eq_zero_iff (b := ascii "user") (by decide)
  have hpass : strncmp key (ascii "pass") 4 = 0 ↔ ascii "pass" <+: key :=
    strncmp_length_eq_zero_iff (b := ascii "pass") (by decide)
  have hfrom : strncmp key (ascii "from") 4 = 0 ↔ ascii "from" <+: key :=
    strncmp_length_eq_zero_iff (b := ascii "from") (by decide)
  have hto : strncmp key (ascii "to") 2 = 0 ↔ ascii "to" <+: key :=
    strncmp_length_eq_zero_iff (b := ascii "to") (by decide)
  simp only [setupField, hhost, hport, huser, hpass, hfrom, hto, setText_eq, Overflows, SmtpSettings.store,
    setupKey]
  -- the comparisons for `from` and `to` are made after a match, too, but cannot match then
  by_cases h1 : ascii "host" <+: key
  · have h5 := not_prefix_of_prefix (b := ascii "from") h1 (by decide)
    have h6 := not_prefix_of_prefix (b := ascii "to") h1 (by decide)
    by_cases hlen : 64 ≤ val.length
    · simp [h1, hlen, SetupText.size, Loops.error_bind]
    · simp [h1, h5, h6, hlen, SetupText.size, SmtpSettings.put, Loops.ok_bind]
  by_cases h2 : ascii "port" <+: key
  · have h5 := not_prefix_of_prefix (b := ascii "from") h2 (by decide)
    have h6 := not_prefix_of_prefix (b := ascii "to") h2 (by decide)
    simp [h1, h2, h5, h6, Loops.ok_bind]
  by_cases h3 : ascii "user" <+: key
  · have h5 := not_prefix_of_prefix (b := ascii "from") h3 (by decide)
    have h6 := not_prefix_of_prefix (b := ascii "to") h3 (by decide)
    by_cases hlen : 64 ≤ val.length
    · simp [h1, h2, h3, hlen, SetupText.size, Loops.error_bind]
    · simp [h1, h2, h3, h5, h6, hlen, SetupText.size, SmtpSettings.put, Loops.ok_bind]
  by_cases h4 : ascii "pass" <+: key
  · have h5 := not_prefix_of_prefix (b := ascii "from") h4 (by decide)
    have h6 := not_prefix_of_prefix (b := ascii "to") h4 (by decide)
    by_cases hlen : 64 ≤ val.length
    · simp [h1, h2, h3, h4, hlen, SetupText.size, Loops.error_bind]
    · simp [h1, h2, h3, h4, h5, h6, hlen, SetupText.size, SmtpSettings.put, Loops.ok_bind]
  by_cases h5 : ascii "from" <+: key
  · have h6 := not_prefix_of_prefix (b := ascii "to") h5 (by decide)
    by_cases hlen : 128 ≤ val.length
    · simp [h1, h2, h3, h4, h5, hlen, SetupText.size, Loops.ok_bind, Loops.error_bind]
    · simp [h1, h2, h3, h4, h5, h6, hlen, SetupText.size, SmtpSettings.put, Loops.ok_bind]
  by_cases h6 : ascii "to" <+: key
  · by_cases hlen : 128 ≤ val.length
    · simp [h1, h2, h3, h4, h5, h6, hlen, SetupText.size, Loops.ok_bind]
    · simp [h1, h2, h3, h4, h5, h6, hlen, SetupText.size, SmtpSettings.put, Loops.ok_bind]
  simp [h1, h2, h3, h4, h5, h6, Loops.ok_bind]

/-! ## The loop -/

theorem cutAt_length {c : UInt8} {s a b : List UInt8} (h : cutAt c s = some (a, b)) : b.length < s.length := by
  unfold cutAt at h
  split at h
  · rename_i hc
    simp only [Option.some.injEq, Prod.mk.injEq] at h
    have hne : s.dropWhile (· ≠ c) ≠ [] := by
      intro h0
      have hall := List.dropWhile_eq_nil_iff.mp h0 c hc
      simp at hall
    have hle : (s.dropWhile (· ≠ c)).length ≤ s.length := (List.dropWhile_suffix _).length_le
    have hpos := List.length_pos_iff.mpr hne
    rw [← h.2, List.length_tail]
    omega
  · simp at h

/-- Any bound that the query does not reach gives the same pairs. -/
theorem queryPairs_fuel {fuel fuel' : ℕ} {key : List UInt8} (h : key.length < fuel) (h' : key.length < fuel') :
    queryPairs fuel key = queryPairs fuel' key := by
  induction fuel generalizing fuel' key with
  | zero => omega
  | succ fuel ih =>
    rcases fuel' with _ | fuel'
    · omega
    rw [queryPairs, queryPairs]
    rcases hcut : cutAt 0x3d key with _ | ⟨key', rest⟩
    · rfl
    have hlt := cutAt_length hcut
    rcases hcut' : cutAt 0x26 rest with _ | ⟨val, next⟩
    · simp only [hcut']
    have hlt' := cutAt_length hcut'
    have hrest := ih (show next.length < fuel by omega) (show next.length < fuel' by omega)
    simp only [hcut', hrest]

/-- **The loop stores the pairs in front of the first overflow**, and gets to its end if there is no
overflow and every piece has a `=`. -/
theorem setupLoop_spec (fuel : ℕ) (key : List UInt8) (s : SmtpSettings) :
    (setupLoop fuel key s).1 = s.storeAll (storedPairs (queryPairs fuel key).1) ∧
      ((setupLoop fuel key s).2 = .done ↔
        (queryPairs fuel key).2 = true ∧ ∀ p ∈ (queryPairs fuel key).1, ¬Overflows p.1 p.2) := by
  induction fuel generalizing key s with
  | zero => simp [setupLoop, queryPairs, storedPairs, SmtpSettings.storeAll]
  | succ fuel ih =>
    rw [setupLoop, queryPairs]
    rcases hcut : cutAt 0x3d key with _ | ⟨key', rest⟩
    · simp [storedPairs, SmtpSettings.storeAll]
    rcases hcut' : cutAt 0x26 rest with _ | ⟨val, next⟩
    · obtain ⟨hover, hfit⟩ := setupField_spec key' (urlDecode rest) s
      by_cases hlen : Overflows key' (urlDecode rest)
      · simp [hcut', hover hlen, storedPairs, SmtpSettings.storeAll, hlen]
      · simp [hcut', hfit hlen, storedPairs, SmtpSettings.storeAll, hlen]
    · obtain ⟨hover, hfit⟩ := setupField_spec key' (urlDecode val) s
      by_cases hlen : Overflows key' (urlDecode val)
      · simp [hcut', hover hlen, storedPairs, SmtpSettings.storeAll, hlen]
      · obtain ⟨hstore, hexit⟩ := ih next (s.store key' (urlDecode val))
        simp only [hcut', hfit hlen, hstore, hexit]
        simp [storedPairs, SmtpSettings.storeAll, hlen]

theorem queryPairs_no_zero (fuel : ℕ) {key : List UInt8} (h : 0 ∉ key) :
    ∀ p ∈ (queryPairs fuel key).1, 0 ∉ p.2 := by
  have hcutAt : ∀ {c : UInt8} {s a b : List UInt8}, 0 ∉ s → cutAt c s = some (a, b) → 0 ∉ a ∧ 0 ∉ b := by
    intro c s a b hs hcut
    unfold cutAt at hcut
    split at hcut
    · simp only [Option.some.injEq, Prod.mk.injEq] at hcut
      rw [← hcut.1, ← hcut.2]
      exact ⟨fun hm => hs (List.takeWhile_subset _ hm),
        fun hm => hs ((List.dropWhile_suffix _).subset (List.mem_of_mem_tail hm))⟩
    · simp at hcut
  induction fuel generalizing key with
  | zero => simp [queryPairs]
  | succ fuel ih =>
    rw [queryPairs]
    rcases hcut : cutAt 0x3d key with _ | ⟨key', rest⟩
    · simp
    have hrest := (hcutAt h hcut).2
    rcases hcut' : cutAt 0x26 rest with _ | ⟨val, next⟩
    · simp only [hcut', List.forall_mem_singleton]
      exact urlDecode_no_zero hrest
    · simp only [hcut', List.forall_mem_cons]
      exact ⟨urlDecode_no_zero (hcutAt hrest hcut').1, ih (hcutAt hrest hcut').2⟩

/-! ## The fields after the loop -/

namespace SmtpSettings

theorem ext_text {s s' : SmtpSettings} (htext : ∀ f, s.text f = s'.text f) (hport : s.port = s'.port) :
    s = s' := by
  have hhost : s.host = s'.host := htext .host
  have huser : s.user = s'.user := htext .user
  have hpass : s.pass = s'.pass := htext .pass
  have hfrom : s.from' = s'.from' := htext .from'
  have hto : s.to' = s'.to' := htext .to'
  rcases s with ⟨⟨host, port, user, pass⟩, from', to'⟩
  rcases s' with ⟨⟨host', port', user', pass'⟩, from'', to''⟩
  simp_all

theorem complete_iff (s : SmtpSettings) : s.Complete ↔ s.port ≠ 0 ∧ ∀ f, (s.text f).get 0 ≠ 0 := by
  constructor
  · rintro ⟨hhost, hport, huser, hpass, hfrom, hto⟩
    refine ⟨hport, fun f => ?_⟩
    cases f with
    | host => exact hhost
    | user => exact huser
    | pass => exact hpass
    | from' => exact hfrom
    | to' => exact hto
  · rintro ⟨hport, htext⟩
    exact ⟨htext .host, hport, htext .user, htext .pass, htext .from', htext .to'⟩

theorem store_text (s : SmtpSettings) (key val : List UInt8) (f : SetupText) :
    (s.store key val).text f =
      if setupKey key = some (.text f) then (s.text f).memcpy 0 (val ++ [0]) else s.text f := by
  rw [store]
  rcases setupKey key with _ | g | _
  · simp
  · cases g <;> cases f <;> rfl
  · cases f <;> rfl

theorem store_port (s : SmtpSettings) (key val : List UInt8) :
    (s.store key val).port = if setupKey key = some .port then portValue val else s.port := by
  rw [store]
  rcases setupKey key with _ | g | _
  · simp
  · cases g <;> rfl
  · rfl

theorem storeAll_cons (s : SmtpSettings) (p : List UInt8 × List UInt8) (ps : List (List UInt8 × List UInt8)) :
    s.storeAll (p :: ps) = (s.store p.1 p.2).storeAll ps := rfl

/-- A string is written by the values for it and by nothing else. -/
theorem storeAll_text (s : SmtpSettings) (ps : List (List UInt8 × List UInt8)) (f : SetupText) :
    (s.storeAll ps).text f = (s.text f).putStrs (values f ps) := by
  induction ps generalizing s with
  | nil => rfl
  | cons p ps ih =>
    rw [storeAll_cons, ih, store_text]
    by_cases hkey : setupKey p.1 = some (.text f)
    · simp only [values, List.filterMap_cons, hkey, if_true, Buf.putStrs, List.foldl_cons]
    · simp only [values, List.filterMap_cons, hkey, if_false]

/-- The last value for the port stands. -/
theorem storeAll_port (s : SmtpSettings) (ps : List (List UInt8 × List UInt8)) :
    (s.storeAll ps).port = (ports ps).getLast?.getD s.port := by
  induction ps generalizing s with
  | nil => rfl
  | cons p ps ih =>
    rw [storeAll_cons, ih, store_port]
    by_cases hkey : setupKey p.1 = some .port
    · simp only [ports, List.filterMap_cons, hkey, if_true, List.getLast?_cons, Option.getD_some]
    · simp only [ports, List.filterMap_cons, hkey, if_false]

end SmtpSettings

/-- The first byte of a string comes from the last value. -/
theorem filled_iff {n : ℕ} (hn : 0 < n) (b : Buf n) {vs : List (List UInt8)} (hvs : ∀ v ∈ vs, 0 ∉ v) :
    (b.putStrs vs).get 0 ≠ 0 ↔ Filled b vs := by
  have hlast : Buf.lastOver vs 0 = vs.getLast? := by
    rw [Buf.lastOver, List.getLast?_eq_head?_reverse]
    rcases vs.reverse with _ | ⟨v, rest⟩
    · rfl
    · rfl
  rw [Buf.get_putStrs b vs hn, hlast, Filled]
  rcases hv : vs.getLast? with _ | v
  · rfl
  · have hzero := hvs v (List.mem_of_getLast? hv)
    rcases v with _ | ⟨c, v⟩
    · simp
    · simp only [List.mem_cons, not_or] at hzero
      simpa using Ne.symm hzero.1

/-! ## The answer -/

/-- The page with the answer `202 Accepted`. -/
def acceptedPage : List UInt8 := setupAccepted.flatten

theorem setup_lengths : setupAccepted.flatten.length < 1000 ∧ setupBadRequest.flatten.length < 1000 ∧
    setupForm.flatten.length < 1000 := by
  decide +kernel

/-- A page without a template. -/
theorem appends_eq {srcs : List (List UInt8)} (h : srcs.flatten.length < 1000) :
    outbufAppends [] srcs = some srcs.flatten := by
  have hcap : httpOutbufMaxlen = 4096 := rfl
  rw [outbufAppends_eq (by decide), List.length_nil, Nat.zero_add, if_pos (by omega), List.nil_append]

theorem page_done : SetupExit.done.page = some acceptedPage := appends_eq setup_lengths.1

theorem page_fail : SetupExit.fail.page = some setupBadRequest.flatten := appends_eq setup_lengths.2.1

theorem page_form : SetupExit.form.page
    = some (pageHeadFor setupForm.flatten.length ++ setupForm.flatten) := by
  have hform := setup_lengths.2.2
  have hcap : httpOutbufMaxlen = 4096 := rfl
  have hhead := pageHead_length
  rw [SetupExit.page, appends_eq (by omega), Option.bind_eq_bind, Option.bind_some, outbufAppends_eq (by omega),
    if_pos (by omega), Option.bind_some, List.length_append, Nat.add_sub_cancel_left,
    patchLength_pageHead _ (by omega)]
  rfl

/-- All pages fit the output buffer. -/
theorem page_isSome (exit : SetupExit) : exit.page.isSome = true := by
  cases exit with
  | done => rw [page_done, Option.isSome_some]
  | form => rw [page_form, Option.isSome_some]
  | fail => rw [page_fail, Option.isSome_some]

theorem page_accepted (exit : SetupExit) : exit.page = some acceptedPage ↔ exit = .done := by
  -- the status lines differ in their codes
  have hcode : acceptedPage.take 12 = ascii "HTTP/1.1 202" := by decide
  have hform : (pageHeadFor setupForm.flatten.length ++ setupForm.flatten).take 12 = ascii "HTTP/1.1 200" := by
    simp only [pageHeadFor, List.append_assoc]
    rw [List.take_append_of_le_length (by decide)]
    decide
  have hfail : setupBadRequest.flatten.take 12 = ascii "HTTP/1.1 400" := by decide
  cases exit with
  | done => exact iff_of_true page_done rfl
  | form =>
    refine iff_of_false (fun h => ?_) (by decide)
    rw [page_form, Option.some.injEq] at h
    rw [h, hcode] at hform
    revert hform
    decide
  | fail =>
    refine iff_of_false (fun h => ?_) (by decide)
    rw [page_fail, Option.some.injEq] at h
    rw [h, hcode] at hfail
    revert hfail
    decide

/-- What a call stores and sends. -/
theorem httpUrlSmtpSetup_spec (client : HttpClient) (s : SmtpSettings) :
    ((ignorePostdata client).2 = true → (httpUrlSmtpSetup client s).settings = s ∧
      (httpUrlSmtpSetup client s).sent = []) ∧
    ((ignorePostdata client).2 = false →
      (httpUrlSmtpSetup client s).settings = (setupResult (ignorePostdata client).1.query s).1 ∧
      ((httpUrlSmtpSetup client s).sent = [acceptedPage] ↔
        (setupResult (ignorePostdata client).1.query s).2 = .done)) := by
  unfold httpUrlSmtpSetup
  rcases ignorePostdata client with ⟨client', _ | _⟩
  · simp only [Bool.false_eq_true, false_implies, forall_const, true_and]
    rcases setupResult client'.query s with ⟨s', exit⟩
    obtain ⟨out, hout⟩ := Option.isSome_iff_exists.mp (page_isSome exit)
    have hiff := page_accepted exit
    rw [hout, Option.some.injEq] at hiff
    simp [hout, hiff]
  · simp

/-! ## All or nothing -/

/-- Every field holds the last value that the pairs have for it, or what it held before. -/
def FromPairs (ps : List (List UInt8 × List UInt8)) (s s' : SmtpSettings) : Prop :=
  (∀ f, match (values f ps).getLast? with
    | some v => cstr (s'.text f).toList = v
    | none => s'.text f = s.text f) ∧
  s'.port = (ports ps).getLast?.getD s.port

/-- A call that does not answer `202 Accepted` leaves `smtp_server` alone; one that does has taken the
fields of the query over and leaves none empty. -/
def AllOrNothing (client : HttpClient) (s : SmtpSettings) : Prop :=
  let run := httpUrlSmtpSetup client s
  (run.sent ≠ [acceptedPage] → run.settings = s) ∧
    (run.sent = [acceptedPage] →
      (∃ query, (ignorePostdata client).1.query = some query ∧
        FromPairs (setupPairs query).1 s run.settings) ∧
      run.settings.Complete)

/-- Every piece of the query has a `=`, no value overflows, and with what was there before nothing
is missing. -/
def CompleteQuery (query : List UInt8) (s : SmtpSettings) : Prop :=
  (setupPairs query).2 = true ∧ (∀ p ∈ (setupPairs query).1, ¬Overflows p.1 p.2) ∧
    (∀ f, Filled (s.text f) (values f (setupPairs query).1)) ∧
    (ports (setupPairs query).1).getLast?.getD s.port ≠ 0

/-- What the pairs in front of an overflow write, and later ones do not, is there already. -/
def HarmlessQuery (query : List UInt8) (s : SmtpSettings) : Prop :=
  (∀ f, (s.text f).Keeps (values f (storedPairs (setupPairs query).1))) ∧
    ∀ n ∈ (ports (storedPairs (setupPairs query).1)).getLast?, n = s.port

theorem values_no_zero {ps : List (List UInt8 × List UInt8)} (h : ∀ p ∈ ps, 0 ∉ p.2) (f : SetupText) :
    ∀ v ∈ values f ps, 0 ∉ v := by
  intro v hv
  obtain ⟨p, hp, hval⟩ := List.mem_filterMap.mp hv
  split at hval
  · rw [← Option.some.inj hval]
    exact h p hp
  · simp at hval

theorem values_fit {ps : List (List UInt8 × List UInt8)} (h : ∀ p ∈ ps, ¬Overflows p.1 p.2) (f : SetupText) :
    ∀ v ∈ values f ps, v.length < f.size := by
  intro v hv
  obtain ⟨p, hp, hval⟩ := List.mem_filterMap.mp hv
  split at hval
  · rename_i hkey
    have hfit := h p hp
    rw [Overflows, hkey] at hfit
    rw [← Option.some.inj hval]
    exact Nat.lt_of_not_le hfit
  · simp at hval

theorem storeAll_eq_iff (s : SmtpSettings) (ps : List (List UInt8 × List UInt8)) :
    s.storeAll ps = s ↔
      (∀ f, (s.text f).Keeps (values f ps)) ∧ ∀ n ∈ (ports ps).getLast?, n = s.port := by
  have hport : (ports ps).getLast?.getD s.port = s.port ↔ ∀ n ∈ (ports ps).getLast?, n = s.port := by
    rcases (ports ps).getLast? with _ | n
    · simp
    · simp
  constructor
  · intro h
    refine ⟨fun f => ?_, ?_⟩
    · rw [← Buf.putStrs_eq_iff, ← SmtpSettings.storeAll_text, h]
    · rw [← hport, ← SmtpSettings.storeAll_port, h]
  · rintro ⟨htext, hlast⟩
    apply SmtpSettings.ext_text
    · intro f
      rw [SmtpSettings.storeAll_text]
      exact (Buf.putStrs_eq_iff _ _).mpr (htext f)
    · rw [SmtpSettings.storeAll_port]
      exact hport.mpr hlast

/-- Pairs that all fit leave behind what `FromPairs` says. -/
theorem storeAll_fromPairs (s : SmtpSettings) {ps : List (List UInt8 × List UInt8)}
    (hzero : ∀ p ∈ ps, 0 ∉ p.2) (hfit : ∀ p ∈ ps, ¬Overflows p.1 p.2) : FromPairs ps s (s.storeAll ps) := by
  refine ⟨fun f => ?_, SmtpSettings.storeAll_port s ps⟩
  rw [SmtpSettings.storeAll_text]
  rcases hlast : (values f ps).getLast? with _ | v
  · rw [List.getLast?_eq_none_iff.mp hlast]
    rfl
  · have hmem := List.mem_of_getLast? hlast
    obtain ⟨front, hsplit⟩ := List.getLast?_eq_some_iff.mp hlast
    have hput : (s.text f).putStrs (values f ps) = ((s.text f).putStrs front).memcpy 0 (v ++ [0]) := by
      rw [hsplit, Buf.putStrs, List.foldl_append]
      rfl
    rw [hput]
    exact Buf.cstr_memcpy _ (values_no_zero hzero f v hmem) (values_fit hfit f v hmem)

/-- Nothing is missing after the loop if and only if every string is filled and the port is not 0. -/
theorem storeAll_complete (s : SmtpSettings) {ps : List (List UInt8 × List UInt8)}
    (hzero : ∀ p ∈ ps, 0 ∉ p.2) :
    (s.storeAll ps).Complete ↔
      (∀ f, Filled (s.text f) (values f ps)) ∧ (ports ps).getLast?.getD s.port ≠ 0 := by
  rw [SmtpSettings.complete_iff, SmtpSettings.storeAll_port, and_comm]
  refine and_congr_left fun _ => forall_congr' fun f => ?_
  rw [SmtpSettings.storeAll_text]
  exact filled_iff (by cases f <;> decide) _ (values_no_zero hzero f)

/-- How the taking apart of a query ends. -/
theorem setupResult_spec {query : List UInt8} (h : 0 ∉ query) (s : SmtpSettings) :
    (setupResult (some query) s).1 = s.storeAll (storedPairs (setupPairs query).1) ∧
      ((setupResult (some query) s).2 = .done ↔ CompleteQuery query s) := by
  obtain ⟨hstore, hexit⟩ := setupLoop_spec (query.length + 1) query s
  have hzero := queryPairs_no_zero (query.length + 1) h
  rcases hloop : setupLoop (query.length + 1) query s with ⟨s', exit⟩
  rw [hloop, ← setupPairs] at hstore hexit
  rw [← setupPairs] at hzero
  have hdone : exit = .done → (CompleteQuery query s ↔ s'.Complete) := by
    intro hend
    obtain ⟨hclean, hfit⟩ := hexit.mp hend
    -- all pairs have been stored
    have hall := storedPairs_eq hfit
    simp only at hstore
    rw [hstore, hall, storeAll_complete s hzero, CompleteQuery]
    simp only [hclean, true_and, and_iff_right hfit]
  simp only [setupResult, hloop, ← hstore]
  by_cases hend : exit = .done
  · by_cases hcomplete : s'.Complete
    · simp [hend, hcomplete, (hdone hend).mpr hcomplete]
    · simp [hend, hcomplete, mt (hdone hend).mp hcomplete]
  · have hno : ¬CompleteQuery query s := fun hc => hend (hexit.mpr ⟨hc.1, hc.2.1⟩)
    simp [hend, hno]

theorem query_no_zero {client : HttpClient} {query : List UInt8} (h : client.query = some query) : 0 ∉ query := by
  simp only [HttpClient.query] at h
  split at h
  · rw [← Option.some.inj h]
    exact fun hm => cstr_no_zero _ ((List.dropWhile_suffix _).subset (List.mem_of_mem_tail hm))
  · simp at h

/-- **The setup is all or nothing** for the requests whose query is complete or writes only what is there
already, and for no others. -/
theorem allOrNothing_iff (client : HttpClient) (s : SmtpSettings) :
    AllOrNothing client s ↔
      (ignorePostdata client).2 = true ∨
        ∀ query, (ignorePostdata client).1.query = some query →
          CompleteQuery query s ∨ HarmlessQuery query s := by
  obtain ⟨hpending, hready⟩ := httpUrlSmtpSetup_spec client s
  rcases hpost : (ignorePostdata client).2 with _ | _
  swap
  · -- the posted data is not complete: nothing is answered yet
    obtain ⟨hset, hsent⟩ := hpending hpost
    simp [AllOrNothing, hset, hsent]
  obtain ⟨hset, hsent⟩ := hready hpost
  rcases hquery : (ignorePostdata client).1.query with _ | query
  · -- no query: the form
    rw [hquery] at hset hsent
    simp [AllOrNothing, hset, hsent, setupResult]
  rw [hquery] at hset hsent
  have hzero := query_no_zero hquery
  obtain ⟨hstore, hdone⟩ := setupResult_spec hzero s
  simp only [AllOrNothing, hsent, hdone, hset, hstore, hquery, Bool.false_eq_true, false_or,
    Option.some.injEq, forall_eq', exists_eq_left', ne_eq]
  by_cases hcomplete : CompleteQuery query s
  · have hvals : ∀ p ∈ (setupPairs query).1, 0 ∉ p.2 := queryPairs_no_zero _ hzero
    have hall := storedPairs_eq hcomplete.2.1
    have hfrom := storeAll_fromPairs s hvals hcomplete.2.1
    have hfull := (storeAll_complete s hvals).mpr hcomplete.2.2
    simp [hcomplete, hall, hfrom, hfull]
  · simp only [hcomplete, not_false_eq_true, forall_const, false_implies, and_true, false_or]
    exact storeAll_eq_iff s _

/-- An account that is complete. -/
def oldAccount : SmtpSettings :=
  { host := (Buf.zero 64).memcpy 0 (ascii "mail"), port := 587, user := (Buf.zero 64).memcpy 0 (ascii "me"),
    pass := (Buf.zero 64).memcpy 0 (ascii "pw"), from' := (Buf.zero 128).memcpy 0 (ascii "me@mail"),
    to' := (Buf.zero 128).memcpy 0 (ascii "me@mail") }

/-- A request for the page with the given url. -/
def setupRequest (url : String) : HttpClient :=
  { HttpClient.zero with state := .response, url := (Buf.zero 256).memcpy 0 (ascii url) }

/-- A new host and no port: the form comes back, and the account is gone. -/
theorem setup_half_applied : ¬∀ client s, AllOrNothing client s := by
  intro h
  -- the run of the handler in front of its page
  have hrun : (ignorePostdata (setupRequest "/smtp/setup?host=other&port=")).2 = false ∧
      (setupResult (ignorePostdata (setupRequest "/smtp/setup?host=other&port=")).1.query oldAccount).2 ≠ .done ∧
      (setupResult (ignorePostdata (setupRequest "/smtp/setup?host=other&port=")).1.query oldAccount).1.port
        ≠ oldAccount.port := by
    decide +kernel
  obtain ⟨hready, hform, hport⟩ := hrun
  obtain ⟨hset, hsent⟩ := (httpUrlSmtpSetup_spec (setupRequest "/smtp/setup?host=other&port=") oldAccount).2 hready
  have hkept := (h _ oldAccount).1 (fun hacc => hform (hsent.mp hacc))
  rw [hset] at hkept
  exact hport (congrArg SmtpServer.port (congrArg SmtpSettings.toSmtpServer hkept))

end Esp8266Toolbox
