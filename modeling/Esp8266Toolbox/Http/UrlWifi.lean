import Esp8266Toolbox.Http.Pages

/-!
# `http/url_wifi.c`: the page for the network

`http_url_wifi_setup` takes the query of the url apart as `http_url_smtp_setup` does, but collects
the values in a local configuration, which it hands to the SDK at the end.
-/

namespace Esp8266Toolbox

/-- `struct station_config`, as far as the program sets it. -/
structure StationConfig where
  ssid : Buf 32
  password : Buf 64
deriving DecidableEq, Repr

/-- `os_bzero(&conf, sizeof(conf))`. -/
def StationConfig.zero : StationConfig := ⟨Buf.zero _, Buf.zero _⟩

/-- The comparisons of `key`; `none` is `goto fail`. -/
def wifiField (key val : List UInt8) (conf : StationConfig) : Option StationConfig :=
  if strncmp key (ascii "ssid") 4 = 0 then (setText conf.ssid val).map fun b => { conf with ssid := b }
  else if strncmp key (ascii "pass") 4 = 0 then
    (setText conf.password val).map fun b => { conf with password := b }
  else some conf

/-- At most `fuel` turns of the loop over the query. -/
def wifiLoop : ℕ → List UInt8 → StationConfig → StationConfig × SetupExit
  | 0, _, conf => (conf, .form)
  | fuel + 1, key, conf =>
    match cutAt 0x3d key with
    | none => (conf, .form)
    | some (key, val) =>
      let (val, next) :=
        match cutAt 0x26 val with
        | some (val, next) => (val, some next)
        | none => (val, none)
      match wifiField key (urlDecode val) conf with
      | none => (conf, .fail)
      | some conf =>
        match next with
        | none => (conf, .done)
        | some next => wifiLoop fuel next conf

/-- The query taken apart, and the check that nothing is missing. -/
def wifiResult (query : Option (List UInt8)) : StationConfig × SetupExit :=
  match query with
  | none => (.zero, .form)
  | some key =>
    let r := wifiLoop (key.length + 1) key .zero
    if r.2 = .done ∧ (r.1.ssid.get 0 = 0 ∨ r.1.password.get 0 = 0) then (r.1, .form) else r

/-- The form. -/
def wifiForm : List (List UInt8) :=
  [ascii "<html><head><style>\n", ascii ".label \x7btext-align: right\x7d\n",
    ascii "</style></head><body>\n", ascii "<form action=\"/wifi/setup\" method=\"get\">\n",
    ascii "<table>\n"] ++
  setupRow (ascii "SSID (max " ++ decimal 32 ++ ascii " bytes)") "ssid" (ascii "<td/></tr>\n") ++
  setupRow (ascii "Password (max " ++ decimal 64 ++ ascii " bytes)") "pass"
    (ascii "<td><input type=\"submit\"/></td></tr>\n") ++
  [ascii "</table></form></body></html>\n"]

/-- The page that an exit leads to; `none` when an append returns from the handler. -/
def wifiPage : SetupExit → Option (List UInt8)
  | .done => outbufAppends [] setupAccepted
  | .fail => outbufAppends [] setupBadRequest
  | .form => do
    let head ← outbufAppends [] pageHead
    let out ← outbufAppends head wifiForm
    return patchLength out (out.length - head.length)

/-- The end of a call: what every handler leaves, and the configuration that the SDK has taken, with
which the station then connects. -/
structure WifiRun where
  page : PageRun
  station : Option StationConfig
deriving DecidableEq, Repr

/-- `http_url_wifi_setup`; `taken` says that `wifi_station_set_config` returns true. -/
def httpUrlWifiSetup (taken : Bool) (client : HttpClient) : WifiRun :=
  ignoringPostdata client (fun client => ⟨⟨client, [], false⟩, none⟩) fun client =>
    match wifiResult client.query with
    | (conf, .done) =>
      if taken then ⟨sendPage client (wifiPage .done), some conf⟩
      else ⟨sendPage client (wifiPage .fail), none⟩
    | (_, exit) => ⟨sendPage client (wifiPage exit), none⟩

end Esp8266Toolbox
