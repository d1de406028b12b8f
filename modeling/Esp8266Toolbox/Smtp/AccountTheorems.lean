import Esp8266Toolbox.Http.FormSubmission
import Esp8266Toolbox.ParamChecks
import Esp8266Toolbox.Smtp.Account

/-!
# The mail account over restarts

Seen from outside the device has an account, a copy of it that survives a restart, and a timer that
makes the copy (`Account`). The bytes in flash and the magic in front of them do nothing else, from
whatever content of the flash: every run of the device is a run of that.
-/

namespace Esp8266Toolbox

/-! ## The account -/

/-- What the device is for: an account, and the copy of it that survives. -/
structure Account where
  settings : SmtpSettings
  stored : Option SmtpSettings
  armed : Bool

namespace Account

/-- One event. -/
def step (a : Account) : AccountEvent → Account
  | .setup client =>
    let r := httpUrlSmtpSetup client a.settings
    { a with settings := r.settings, armed := a.armed || r.armed }
  | .paramWrite => if a.armed then { a with stored := some a.settings, armed := false } else a
  | .restart => ⟨a.stored.getD .zero, a.stored, false⟩

/-- A run. -/
def run (a : Account) (es : List AccountEvent) : Account := es.foldl step a

end Account

/-! ## The bytes -/

namespace SmtpSettings

theorem length_bytes (s : SmtpSettings) : s.bytes.length = smtpServerSize := by
  simp [bytes, smtpServerSize]

/-- A string of the structure, from the bytes around it. -/
theorem text_eq {n off : ℕ} {bs : List UInt8} (b : Buf n) (front rest : List UInt8) (hoff : front.length = off)
    (h : bs = front ++ (b.toList ++ rest)) : (Buf.zero n).memcpy 0 ((bs.drop off).take n) = b := by
  have htext : (bs.drop off).take n = b.toList := by
    rw [h, ← hoff, List.drop_left, List.take_left' b.length_toList]
  rw [htext, Buf.memcpy_whole]

/-- What has been written is read back. -/
theorem ofBytes_bytes {s : SmtpSettings} (hport : s.port < 2 ^ 16) : ofBytes s.bytes = s := by
  have hlow : s.bytes.getD 64 0 = UInt8.ofNat s.port := by
    rw [bytes]
    simp [List.getD_eq_getElem?_getD]
  have hhigh : s.bytes.getD 65 0 = UInt8.ofNat (s.port / 256) := by
    rw [bytes]
    simp [List.getD_eq_getElem?_getD]
  refine ext_text (fun f => ?_) ?_
  · cases f with
    | host => exact text_eq s.host [] _ rfl (by simp only [bytes, List.append_assoc, List.nil_append]; rfl)
    | user =>
      exact text_eq s.user (s.host.toList ++ [UInt8.ofNat s.port, UInt8.ofNat (s.port / 256)]) _ (by simp)
        (by simp only [bytes, List.append_assoc]; rfl)
    | pass =>
      exact text_eq s.pass (s.host.toList ++ [UInt8.ofNat s.port, UInt8.ofNat (s.port / 256)] ++ s.user.toList) _
        (by simp) (by simp only [bytes, List.append_assoc]; rfl)
    | from' =>
      exact text_eq s.from' (s.host.toList ++ [UInt8.ofNat s.port, UInt8.ofNat (s.port / 256)] ++ s.user.toList ++
        s.pass.toList) _ (by simp) (by simp only [bytes, List.append_assoc]; rfl)
    | to' =>
      exact text_eq s.to' (s.host.toList ++ [UInt8.ofNat s.port, UInt8.ofNat (s.port / 256)] ++ s.user.toList ++
        s.pass.toList ++ s.from'.toList) [] (by simp) (by simp only [bytes, List.append_assoc, List.append_nil])
  · show (s.bytes.getD 64 0).toNat + 256 * (s.bytes.getD 65 0).toNat = s.port
    rw [hlow, hhigh, UInt8.toNat_ofNat', UInt8.toNat_ofNat']
    omega

/-- The port stays a `uint16_t`. -/
theorem port_storeAll {s : SmtpSettings} (hport : s.port < 2 ^ 16) (ps : List (List UInt8 × List UInt8)) :
    (s.storeAll ps).port < 2 ^ 16 := by
  induction ps generalizing s with
  | nil => exact hport
  | cons p ps ih =>
    refine ih (s := s.store p.1 p.2) ?_
    unfold store
    split
    · rename_i f _
      cases f <;> exact hport
    · show (atoiStr p.2 % 2 ^ 16).toNat < 2 ^ 16
      omega
    · exact hport

end SmtpSettings

theorem port_setup (client : HttpClient) {s : SmtpSettings} (hport : s.port < 2 ^ 16) :
    (httpUrlSmtpSetup client s).settings.port < 2 ^ 16 := by
  have hresult (query : Option (List UInt8)) : (setupResult query s).1.port < 2 ^ 16 := by
    unfold setupResult
    cases query with
    | none => exact hport
    | some key =>
      have hloop : (setupLoop (key.length + 1) key s).1.port < 2 ^ 16 := by
        rw [(setupLoop_spec _ key s).1]
        exact SmtpSettings.port_storeAll hport _
      dsimp only
      split <;> exact hloop
  unfold httpUrlSmtpSetup
  rcases ignorePostdata client with ⟨client', _ | _⟩
  · dsimp only
    split <;> exact hresult client'.query
  · exact hport

/-! ## The area in flash -/

variable {F : Type} {sdk : ParamSdk F} {area : F → ℕ → Buf 1024} {sizeKb : ℕ}

/-- The copy in a parameter area. -/
def storedAccount (content : Buf 1024) : Option SmtpSettings :=
  if content.get 0 = 0xca then some (.ofBytes (content.slice 4 smtpServerSize)) else none

/-- What `param_retrieve` finds, whatever is there: the bytes behind a first byte of the magic. -/
theorem paramRetrieve_content (hsdk : sdk.Reliable area) (hmap : flashSizeKb sdk.flashMap = some sizeKb)
    (s : ParamState F) (offset len : UInt16) (hin : offset.toNat + 4 + len.toNat ≤ 1024) :
    (paramRetrieve sdk s offset len).2 =
      if (area s.flash (paramSector sizeKb)).get offset.toNat = 0xca then
        some ((area s.flash (paramSector sizeKb)).slice (offset.toNat + 4) len.toNat)
      else none := by
  have hload := hsdk.load s.flash (paramSector sizeKb) offset.toNat (4 + len.toNat) (by omega)
  generalize area s.flash (paramSector sizeKb) = content at hload ⊢
  have hlt : offset.toNat < content.toList.length := by
    rw [content.length_toList]
    omega
  have hfirst : ((content.toList.drop offset.toNat).take (4 + len.toNat)).headD 0 = content.get offset.toNat := by
    rw [List.drop_eq_getElem_cons hlt, show 4 + len.toNat = 3 + len.toNat + 1 by omega, List.take_succ_cons, Buf.get,
      List.getD_eq_getElem _ _ hlt, List.headD_cons]
  have hlength : ((content.toList.drop offset.toNat).take (4 + len.toNat)).length = 4 + len.toNat := by
    rw [List.length_take, List.length_drop, content.length_toList]
    omega
  have hne : (content.toList.drop offset.toNat).take (4 + len.toNat) ≠ [] := by
    intro hnil
    rw [hnil, List.length_nil] at hlength
    omega
  have hbytes : ((s.buf.memcpy 0 ((content.toList.drop offset.toNat).take (4 + len.toNat))).toList.drop 4).take len.toNat
      = content.slice (offset.toNat + 4) len.toNat := by
    rw [Buf.toList_memcpy _ (by omega), List.take_zero, List.nil_append, List.drop_append_of_le_length (by omega),
      List.take_append_of_le_length (by rw [List.length_drop]; omega), List.drop_take, List.take_take, List.drop_drop,
      Buf.slice, Nat.add_sub_cancel_left, min_self]
  have hbyte := memcmp_magic_iff
    (s.buf.memcpy 0 ((content.toList.drop offset.toNat).take (4 + len.toNat))).toList
  rw [headD_memcpy s.buf hne, hfirst] at hbyte
  have hmagic : paramMagic.length = 4 := rfl
  unfold paramRetrieve
  simp only [hmap, hmagic, hload, Bool.not_true, Bool.false_eq_true, if_false] at hbyte ⊢
  by_cases hsame : content.get offset.toNat = 0xca
  · rw [if_pos hsame, if_neg (not_not.mpr (hbyte.mpr hsame)), ← hbytes]
  · rw [if_neg hsame, if_pos (mt hbyte.mp hsame)]

theorem smtpInit_spec (hsdk : sdk.Reliable area) (hmap : flashSizeKb sdk.flashMap = some sizeKb) (s : ParamState F) :
    (smtpInit sdk s).2 = (storedAccount (area s.flash (paramSector sizeKb))).getD .zero ∧
      (smtpInit sdk s).1.flash = s.flash := by
  have hsize : (UInt16.ofNat smtpServerSize).toNat = smtpServerSize := rfl
  have hflash : (paramRetrieve sdk s 0 (UInt16.ofNat smtpServerSize)).1.flash = s.flash := paramRetrieve_flash s _ _
  have hretrieve := paramRetrieve_content hsdk hmap s 0 (UInt16.ofNat smtpServerSize) (by decide)
  unfold smtpInit storedAccount
  rcases hrun : paramRetrieve sdk s 0 (UInt16.ofNat smtpServerSize) with ⟨s', _ | bytes⟩
  · rw [hrun] at hflash hretrieve
    refine ⟨?_, hflash⟩
    by_cases hsame : (area s.flash (paramSector sizeKb)).get 0 = 0xca
    · have hoff : (0 : UInt16).toNat = 0 := rfl
      rw [hoff, if_pos hsame] at hretrieve
      cases hretrieve
    · rw [if_neg hsame]
      rfl
  · rw [hrun] at hflash hretrieve
    refine ⟨?_, hflash⟩
    have hoff : (0 : UInt16).toNat = 0 := rfl
    rw [hoff, hsize] at hretrieve
    by_cases hsame : (area s.flash (paramSector sizeKb)).get 0 = 0xca
    · rw [if_pos hsame] at hretrieve ⊢
      rw [Option.some.inj hretrieve]
      rfl
    · rw [if_neg hsame] at hretrieve
      cases hretrieve

theorem smtpParamWrite_spec (hsdk : sdk.Reliable area) (hmap : flashSizeKb sdk.flashMap = some sizeKb)
    (s : ParamState F) {account : SmtpSettings} (hport : account.port < 2 ^ 16) :
    storedAccount (area (smtpParamWrite sdk s account).flash (paramSector sizeKb)) = some account := by
  have hlen := account.length_bytes
  have hsize : smtpServerSize = 450 := rfl
  have hrecord := paramRecord_length account.bytes
  have hoff : (0 : UInt16).toNat = 0 := rfl
  have hfits : (0 : UInt16).toNat + 4 + account.bytes.length ≤ 1024 := by omega
  obtain ⟨-, harea⟩ := paramStore_spec hsdk hmap s hfits
  rw [smtpParamWrite, harea, storedAccount, hoff]
  have hfirst : ((area s.flash (paramSector sizeKb)).memcpy 0 (paramRecord account.bytes)).get 0 = 0xca := by
    rw [Buf.get_memcpy, if_pos (by omega), if_pos (by omega)]
    rfl
  have hslice : ((area s.flash (paramSector sizeKb)).memcpy 0 (paramRecord account.bytes)).slice 4 smtpServerSize
      = account.bytes := by
    rw [Buf.slice, Buf.toList_memcpy _ (by omega), List.take_zero, List.nil_append, paramRecord, List.append_assoc]
    exact List.take_left' hlen
  rw [if_pos hfirst, hslice, SmtpSettings.ofBytes_bytes hport]

/-! ## Runs -/

/-- The account that a device holds. -/
def SmtpAccount.account (area : F → ℕ → Buf 1024) (sizeKb : ℕ) (a : SmtpAccount F) : Account :=
  ⟨a.settings, storedAccount (area a.param.flash (paramSector sizeKb)), a.armed⟩

theorem port_ofBytes (bs : List UInt8) : (SmtpSettings.ofBytes bs).port < 2 ^ 16 := by
  have hlow := (bs.getD 64 0).toNat_lt
  have hhigh := (bs.getD 65 0).toNat_lt
  show (bs.getD 64 0).toNat + 256 * (bs.getD 65 0).toNat < 2 ^ 16
  omega

theorem port_stored (content : Buf 1024) : ((storedAccount content).getD .zero).port < 2 ^ 16 := by
  unfold storedAccount
  split
  · exact port_ofBytes _
  · decide

/-- An event of the device is one of its account. -/
theorem account_step (hsdk : sdk.Reliable area) (hmap : flashSizeKb sdk.flashMap = some sizeKb)
    (a : SmtpAccount F) (hport : a.settings.port < 2 ^ 16) (e : AccountEvent) :
    (a.step sdk e).account area sizeKb = (a.account area sizeKb).step e ∧ (a.step sdk e).settings.port < 2 ^ 16 := by
  cases e with
  | setup client => exact ⟨rfl, port_setup client hport⟩
  | paramWrite =>
    have hstored := smtpParamWrite_spec hsdk hmap a.param hport
    unfold SmtpAccount.step
    dsimp only
    cases harmed : a.armed with
    | true =>
      rw [if_pos rfl]
      refine ⟨?_, hport⟩
      rw [SmtpAccount.account, Account.step, SmtpAccount.account, harmed]
      dsimp only
      rw [hstored, if_pos rfl]
    | false =>
      rw [if_neg Bool.false_ne_true]
      refine ⟨?_, hport⟩
      rw [SmtpAccount.account, Account.step, harmed]
      rfl
  | restart =>
    obtain ⟨hsettings, hflash⟩ := smtpInit_spec hsdk hmap { a.param with buf := Buf.zero _ }
    have hstep : a.step sdk .restart = ⟨(smtpInit sdk { a.param with buf := Buf.zero _ }).1,
        (smtpInit sdk { a.param with buf := Buf.zero _ }).2, false⟩ := rfl
    rw [hstep, SmtpAccount.account, hsettings, hflash]
    exact ⟨rfl, port_stored _⟩

/-- **The device keeps its account.** From any content of the flash, every run of the device is a run of
its account: the record in flash, with its layout and its magic, is the copy that survives, the timer
makes it and the restart takes it, and nothing else does either. -/
theorem account_refines (sdk : ParamSdk F) (area : F → ℕ → Buf 1024) (hsdk : sdk.Reliable area) {sizeKb : ℕ}
    (hmap : flashSizeKb sdk.flashMap = some sizeKb) (a : SmtpAccount F) (hport : a.settings.port < 2 ^ 16)
    (es : List AccountEvent) :
    (a.run sdk es).account area sizeKb = (a.account area sizeKb).run es :=
  Runs.foldl_simulates (fun a e h => account_step hsdk hmap a h e) hport es

/-- The event is a call of the setup page. -/
def AccountEvent.IsSetup : AccountEvent → Prop
  | .setup _ => True
  | _ => False

/-- Once it has been copied, an account stays until a setup page changes it. -/
theorem Account.run_kept {es : List AccountEvent} (hes : ∀ e ∈ es, ¬e.IsSetup) {a : Account}
    (hstored : a.stored = some a.settings) : (a.run es).settings = a.settings := by
  induction es generalizing a with
  | nil => rfl
  | cons e es ih =>
    obtain ⟨he, hes⟩ := List.forall_mem_cons.mp hes
    have hstep : (a.step e).settings = a.settings ∧ (a.step e).stored = some a.settings := by
      cases e with
      | setup client => exact absurd trivial he
      | paramWrite =>
        unfold Account.step
        dsimp only
        split
        · exact ⟨rfl, rfl⟩
        · exact ⟨rfl, hstored⟩
      | restart => exact ⟨by rw [Account.step, hstored]; rfl, hstored⟩
    have hrest := ih hes (a := a.step e) (by rw [hstep.1, hstep.2])
    exact hrest.trans hstep.1

/-- **An accepted account survives.** Whatever happened before, and however often the device starts again
after the timer has fired: until the setup page is used again, `smtp_server` is what the accepted
request has made of it. -/
theorem account_survives (sdk : ParamSdk F) (area : F → ℕ → Buf 1024) (hsdk : sdk.Reliable area) {sizeKb : ℕ}
    (hmap : flashSizeKb sdk.flashMap = some sizeKb) (a : SmtpAccount F) (hport : a.settings.port < 2 ^ 16)
    (before after : List AccountEvent) (hafter : ∀ e ∈ after, ¬e.IsSetup) {client : HttpClient}
    (harmed : (httpUrlSmtpSetup client (a.run sdk before).settings).armed = true) :
    (a.run sdk (before ++ .setup client :: .paramWrite :: after)).settings
      = (httpUrlSmtpSetup client (a.run sdk before).settings).settings := by
  have hrun (es : List AccountEvent) : (a.run sdk es).account area sizeKb = (a.account area sizeKb).run es :=
    Runs.foldl_simulates (fun a e h => account_step hsdk hmap a h e) hport es
  obtain ⟨b, hb⟩ : ∃ b, (a.account area sizeKb).run before = b := ⟨_, rfl⟩
  have hsettings : (a.run sdk before).settings = b.settings :=
    congrArg Account.settings ((hrun before).trans hb)
  rw [hsettings] at harmed ⊢
  refine (congrArg Account.settings (hrun _)).trans ?_
  rw [Account.run] at hb ⊢
  rw [List.foldl_append, List.foldl_cons, List.foldl_cons, hb]
  have hsetup : b.step (.setup client)
      = { b with settings := (httpUrlSmtpSetup client b.settings).settings, armed := true } := by
    rw [Account.step, harmed, Bool.or_true]
  rw [hsetup]
  exact Account.run_kept hafter rfl

/-- A device with a blank flash, after boot. -/
def blankAccount : SmtpAccount (ℕ → Buf 1024) := ⟨⟨Buf.zero _, fun _ => Buf.zero _⟩, .zero, false⟩

/-- A request with the form, typed. -/
def typedRequest : HttpClient :=
  setupRequest "/smtp/setup?from=a%40b&to=c%40d&host=mx&port=465&user=me&pass=pw"

theorem account_refines_blank :
    (blankAccount.run testParamSdk [.setup typedRequest, .paramWrite, .restart]).account (fun f => f) 512
      = (blankAccount.account (fun f => f) 512).run [.setup typedRequest, .paramWrite, .restart] :=
  account_refines testParamSdk _ testParamSdk_reliable rfl blankAccount (by decide) _

theorem account_survives_typed :
    (blankAccount.run testParamSdk
      ([.paramWrite] ++ .setup typedRequest :: .paramWrite :: [.restart, .restart])).settings.port = 465 := by
  have hbefore : (blankAccount.run testParamSdk [.paramWrite]).settings = .zero := rfl
  have hpost : (ignorePostdata typedRequest).2 = false := by decide +kernel
  have hquery : (ignorePostdata typedRequest).1.query = some (formQuery typedAccount.fields) := by decide +kernel
  obtain ⟨-, hport, -, harmed⟩ := account_form_stored typedAccount_fits hpost hquery .zero
  have hkept := account_survives testParamSdk _ testParamSdk_reliable rfl blankAccount (by decide) [.paramWrite]
    [.restart, .restart] (by simp [AccountEvent.IsSetup]) (by rw [hbefore]; exact harmed)
  rw [hkept, hbefore]
  exact hport

end Esp8266Toolbox
