import Esp8266Toolbox.Flash
import Esp8266Toolbox.Crypto.Rsa
import Esp8266Toolbox.Crypto.Sha256
import Esp8266Toolbox.Http.Process

/-!
# `http/url_ota.c`: push-based updates

`otaPush` is `http_url_ota_push`, cut into the four pieces of its body: the initialisation on
the first byte (`otaBegin`), the loop that moves POST data through the sector buffer into
flash (`otaLoop`), the read-back (`otaReadBack`) and the signature block (`otaSignature`). The
flash chip is a `FlashDev`, which keeps the calls made to it and answers each with the next of
its prepared replies.

The array `hash3` is the last member of `otastate`. What the loop that fills it writes behind
the array is kept in `spill`; the model does not say which variable the linker puts there.
-/

namespace Esp8266Toolbox

/-! ## Partitions -/

/-- `USER1_ADDR`. -/
def user1Addr : ℕ := 4 * 1024

/-- `USER2_ADDR`. -/
def user2Addr (sizeKb : ℕ) : ℕ := (sizeKb / 2 + 4) * 1024

/-- The largest image the code accepts. -/
def maxAppSize (sizeKb : ℕ) : ℕ := (sizeKb / 2 - 20) * 1024

/-! ## State, errors and results -/

/-- An index into `http_clients`. -/
abbrev Slot := Fin 4

/-- What does not change while the program runs: the SDK's answers about the flash layout and
the embedded public key. -/
structure OtaEnv where
  flashMap : FlashMap
  userbinAddr : ℕ
  pubkey : RsaPubkey

/-- `OtaState`. -/
structure OtaState where
  client : Option Slot
  sha256 : Sha256State
  hash1 : List UInt8
  hash2 : List UInt8
  newaddrBeg : ℕ
  newaddrCur : ℕ
  appsize : ℕ
  secbuf : Buf secSize
  secused : ℕ
  cipher : Bigint
  clear : Bigint
  hash3 : Buf 32
  spill : List UInt8

/-- The static variable at boot. -/
def OtaState.zero : OtaState :=
  { client := none, sha256 := ⟨Buf.zero _, 0, 0, Vector.replicate 8 0⟩, hash1 := List.replicate 32 0,
    hash2 := List.replicate 32 0, newaddrBeg := 0, newaddrCur := 0, appsize := 0,
    secbuf := Buf.zero _, secused := 0, cipher := bigintZero, clear := bigintZero,
    hash3 := Buf.zero _, spill := [] }

/-- Why a request fails. -/
inductive OtaError where
  | unsupportedFlashMap | unexpectedUserbinAddr | noPostData | maxAppSizeExceeded | multipleClient
  | eraseFailed | writeFailed | readFailed | hashMismatch | noSignature | invalidSignature
  | signatureMismatch
deriving DecidableEq, Repr

/-- The message logged for an error. -/
def OtaError.message : OtaError → String
  | .unsupportedFlashMap => "unsupported flash map (0x%02x)"
  | .unexpectedUserbinAddr => "unexpected userbin addr"
  | .noPostData => "no post data"
  | .maxAppSizeExceeded => "max app size exceeded"
  | .multipleClient => "multiple client detected"
  | .eraseFailed => "spi_flash_erase_sector() failed"
  | .writeFailed => "spi_flash_write() failed"
  | .readFailed => "spi_flash_read() failed"
  | .hashMismatch => "hash mismatch"
  | .noSignature => "no signature"
  | .invalidSignature => "invalid signature"
  | .signatureMismatch => "hash mismatch"

/-- How `http_url_ota_push` ends: waiting for more data (return 0), the 202 path, which sets the
upgrade flag and arms the reboot timer, the 400 path, or a fault. -/
inductive OtaResult where
  | pending
  | accepted
  | rejected (error : OtaError)
  | crashed
deriving DecidableEq, Repr

/-- What the pieces of the handler work on. -/
structure OtaRun where
  client : HttpClient
  ota : OtaState
  dev : FlashDev

/-! ## The handler -/

/-- The block under `postused == 0`. -/
def otaBegin (env : OtaEnv) (i : Slot) (client : HttpClient) (ota : OtaState) :
    OtaState × Option OtaError :=
  let ota := { ota with client := some i, sha256 := sha256Init ota.sha256 }
  match flashSizeKb env.flashMap with
  | none => (ota, some .unsupportedFlashMap)
  | some sizeKb =>
    let curaddr := env.userbinAddr
    if curaddr ≠ user1Addr ∧ curaddr ≠ user2Addr sizeKb then (ota, some .unexpectedUserbinAddr)
    else
      let newaddr := if curaddr = user1Addr then user2Addr sizeKb else user1Addr
      let ota := { ota with newaddrBeg := newaddr, newaddrCur := newaddr, appsize := client.postlen,
                            secused := 0 }
      if client.state ≠ .postdata then (ota, some .noPostData)
      else if client.postlen > maxAppSize sizeKb then (ota, some .maxAppSizeExceeded)
      else (ota, none)

/-- The first half of the loop body: bytes go from `client->buf` to `secbuf`. -/
def otaTake (r : OtaRun) : OtaRun :=
  let len := min (min r.client.bufused (r.client.postlen - r.client.postused)) (secSize - r.ota.secused)
  let data := r.client.buf.toList.take len
  let left := (r.client.buf.toList.take r.client.bufused).drop len
  { r with
    client := { r.client with buf := r.client.buf.memcpy 0 left, bufused := r.client.bufused - len,
                              postused := r.client.postused + len }
    ota := { r.ota with secbuf := r.ota.secbuf.memcpy r.ota.secused data,
                        secused := r.ota.secused + len } }

/-- The second half of the loop body: the sector buffer goes to flash. -/
def otaFlush (r : OtaRun) : OtaRun × Option OtaError :=
  let (dev, erased) := spiFlashEraseSector r.dev (r.ota.newaddrCur / secSize)
  if erased then
    let (dev, written) := spiFlashWrite dev r.ota.newaddrCur r.ota.secbuf
    if written then
      let sha256 := sha256Proc r.ota.sha256 (r.ota.secbuf.toList.take r.ota.secused)
      ({ r with dev, ota := { r.ota with sha256, newaddrCur := r.ota.newaddrCur + secSize,
                                         secbuf := Buf.zero _, secused := 0 } }, none)
    else ({ r with dev }, some .writeFailed)
  else ({ r with dev }, some .eraseFailed)

/-- The loop over the POST data. Each pass takes a byte or empties a full sector buffer, so
`2 * bufused + 2` passes are enough. -/
def otaLoop : ℕ → OtaRun → OtaRun × Option OtaError
  | 0, r => (r, none)
  | fuel + 1, r =>
    if r.client.bufused > 0 ∧ r.client.postlen > r.client.postused then
      let r := otaTake r
      if r.ota.secused = secSize ∨ r.client.postused = r.client.postlen then
        match otaFlush r with
        | (r, some e) => (r, some e)
        | (r, none) => otaLoop fuel r
      else otaLoop fuel r
    else (r, none)

/-- The addresses the read-back visits. -/
def readBackAddrs (ota : OtaState) : List ℕ :=
  (List.range ((ota.appsize + (secSize - 1)) / secSize)).map fun k => ota.newaddrBeg + secSize * k

/-- The loop that hashes the just written application. -/
def otaReadBack (r : OtaRun) : List ℕ → OtaRun × Option OtaError
  | [] => (r, none)
  | addr :: addrs =>
    match spiFlashRead r.dev addr with
    | (dev, secbuf, false) => ({ r with dev, ota := { r.ota with secbuf } }, some .readFailed)
    | (dev, secbuf, true) =>
      let n := if addr + secSize > r.ota.newaddrBeg + r.ota.appsize then r.ota.appsize % secSize
        else secSize
      let sha256 := sha256Proc r.ota.sha256 (secbuf.toList.take n)
      otaReadBack { r with dev, ota := { r.ota with secbuf, sha256 } } addrs

/-- The two loops that write the decrypted number into `hash3`, most significant byte first. -/
def otaHash3 (ota : OtaState) : OtaState :=
  let bytes := ota.clear.bytes + (if ota.clear.bits > 0 then 1 else 0)
  let written := List.replicate (32 - bytes) 0 ++ (ota.clear.data.toList.take bytes).reverse
  { ota with hash3 := ota.hash3.memcpy 0 written, spill := written.drop 32 }

/-- The signature block. -/
def otaSignature (env : OtaEnv) (query : Option (List UInt8)) (ota : OtaState) :
    OtaState × Option OtaError :=
  match query with
  | none => (ota, some .noSignature)
  | some start =>
    match bigintFromhex start with
    | .error _ => (ota, some .invalidSignature)
    | .ok cipher =>
      let ota := { ota with cipher }
      match rsaPubkeyDecrypt env.pubkey ota.cipher with
      | .error _ => (ota, some .invalidSignature)
      | .ok clear =>
        let ota := otaHash3 { ota with clear }
        if strncmp ota.hash1 ota.hash3.toList 32 ≠ 0 then (ota, some .signatureMismatch)
        else (ota, none)

/-- The comparison of the two hashes and the signature block. -/
def otaCompare (env : OtaEnv) (r : OtaRun) : OtaRun × OtaResult :=
  if strncmp r.ota.hash1 r.ota.hash2 32 ≠ 0 then (r, .rejected .hashMismatch)
  else
    match otaSignature env r.client.query r.ota with
    | (ota, some e) => ({ r with ota }, .rejected e)
    | (ota, none) => ({ r with ota }, .accepted)

/-- From the second `sha256_done` on: the image has been read back. -/
def otaVerify (env : OtaEnv) (r : OtaRun) : OtaRun × OtaResult :=
  match sha256Done r.ota.sha256 with
  | .error _ => (r, .crashed)
  | .ok (sha256, hash2) => otaCompare env { r with ota := { r.ota with sha256, hash2 } }

/-- From the second `sha256_init` on. -/
def otaRecheck (env : OtaEnv) (r : OtaRun) : OtaRun × OtaResult :=
  match otaReadBack r (readBackAddrs r.ota) with
  | (r, some e) => (r, .rejected e)
  | (r, none) => otaVerify env r

/-- From the first `sha256_done` on: the upload is complete. -/
def otaComplete (env : OtaEnv) (r : OtaRun) : OtaRun × OtaResult :=
  match sha256Done r.ota.sha256 with
  | .error _ => (r, .crashed)
  | .ok (sha256, hash1) =>
    otaRecheck env { r with ota := { r.ota with sha256 := sha256Init sha256, hash1 } }

/-- From the loop on: the caller is the owner. -/
def otaData (env : OtaEnv) (r : OtaRun) : OtaRun × OtaResult :=
  match otaLoop (2 * r.client.bufused + 2) r with
  | (r, some e) => (r, .rejected e)
  | (r, none) => if r.client.postlen > r.client.postused then (r, .pending) else otaComplete env r

/-- `http_url_ota_push`, called for the client in slot `i`. -/
def otaPush (env : OtaEnv) (i : Slot) (r : OtaRun) : OtaRun × OtaResult :=
  let (ota, err) := if r.client.postused = 0 then otaBegin env i r.client r.ota else (r.ota, none)
  let r := { r with ota }
  match err with
  | some e => (r, .rejected e)
  | none => if r.ota.client ≠ some i then (r, .rejected .multipleClient) else otaData env r

/-- The page sent on the 202 path. -/
def response202 : String :=
  "HTTP/1.1 202 Accepted\r\nConnection: close\r\nContent-type: text/html\r\nContent-length: 48\r\n\r\n<html><body><h1>202 Accepted</h1></body></html>\n"

/-- The page sent on the 400 path. -/
def response400 : String :=
  "HTTP/1.1 400 Bad Request\r\nConnection: close\r\nContent-type: text/html\r\nContent-length: 51\r\n\r\n<html><body><h1>400 Bad Request</h1></body></html>\n"

/-- What the handler sends. -/
def OtaResult.response : OtaResult → Option String
  | .accepted => some response202
  | .rejected _ => some response400
  | .pending => none
  | .crashed => none

end Esp8266Toolbox
