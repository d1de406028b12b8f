import Esp8266Toolbox.Lib.CString

/-!
# `http/utils.c`: `url_decode`

The decoder goes through its table again and again and replaces the first place of every code, until
a pass finds none.
-/

namespace Esp8266Toolbox

/-- `map`, with its characters by their values. -/
def urlMap : List (List UInt8 × UInt8) :=
  [("%20", 0x20), ("%21", 0x21), ("%22", 0x22), ("%23", 0x23), ("%24", 0x24), ("%25", 0x25),
   ("%26", 0x26), ("%27", 0x27), ("%28", 0x28), ("%29", 0x29), ("%2A", 0x2a), ("%2a", 0x2a),
   ("%2B", 0x2b), ("%2b", 0x2b), ("%2C", 0x2c), ("%2c", 0x2c), ("%2D", 0x2d), ("%2d", 0x2d),
   ("%2E", 0x2e), ("%2e", 0x2e), ("%2F", 0x2f), ("%2f", 0x2f), ("%3A", 0x3a), ("%3a", 0x3a),
   ("%3B", 0x3b), ("%3b", 0x3b), ("%3C", 0x3c), ("%3c", 0x3c), ("%3D", 0x3d), ("%3d", 0x3d),
   ("%3E", 0x3e), ("%3e", 0x3e), ("%3F", 0x3f), ("%3f", 0x3f), ("%40", 0x40), ("%5B", 0x5b),
   ("%5b", 0x5b), ("%5C", 0x5c), ("%5c", 0x5c), ("%5D", 0x5d), ("%5d", 0x5d), ("%5E", 0x5e),
   ("%5e", 0x5e), ("%5F", 0x5f), ("%5f", 0x5f), ("%60", 0x60), ("%7B", 0x7b), ("%7b", 0x7b),
   ("%7C", 0x7c), ("%7c", 0x7c), ("%7D", 0x7d), ("%7d", 0x7d), ("%7E", 0x7e), ("%7e", 0x7e)].map
    fun e => (ascii e.1, e.2)

/-- The body of the `for` loop for one entry of `map`, on the string and the flag `f`. -/
def decodeEntry (sf : List UInt8 × Bool) (e : List UInt8 × UInt8) : List UInt8 × Bool :=
  match strstr sf.1 e.1 with
  | some p => (sf.1.take p ++ e.2 :: sf.1.drop (p + 3), true)
  | none => sf

/-- One turn of the `while` loop. -/
def decodePass (s : List UInt8) : List UInt8 × Bool := urlMap.foldl decodeEntry (s, false)

/-- At most `fuel` turns of the `while` loop. -/
def urlDecodeLoop : ℕ → List UInt8 → List UInt8
  | 0, s => s
  | fuel + 1, s =>
    let (s', f) := decodePass s
    if f then urlDecodeLoop fuel s' else s'

/-- `url_decode`. A turn that is followed by another one has shortened the string. -/
def urlDecode (s : List UInt8) : List UInt8 := urlDecodeLoop (s.length + 1) s

end Esp8266Toolbox
