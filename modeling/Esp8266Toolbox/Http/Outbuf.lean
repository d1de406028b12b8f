import Esp8266Toolbox.Lib.Format

/-!
# The output buffer of `http/private.h`

A handler puts its page together with `HTTP_OUTBUF_APPEND`, which makes the handler return 0 when
the text does not fit. Most pages begin with the same five lines, in which the length of the body
is filled in at the end.
-/

namespace Esp8266Toolbox

/-- `HTTP_OUTBUF_MAXLEN`. -/
def httpOutbufMaxlen : ℕ := 4 * 1024

/-- `HTTP_OUTBUF_APPEND(src)` on the first `http_outbuflen` bytes of `http_outbuf`; `none` when the
macro returns from the handler. -/
def outbufAppend (out src : List UInt8) : Option (List UInt8) :=
  if src.length ≥ httpOutbufMaxlen - out.length then none else some (out ++ src)

/-- A sequence of `HTTP_OUTBUF_APPEND`s. -/
def outbufAppends (out : List UInt8) (srcs : List (List UInt8)) : Option (List UInt8) :=
  srcs.foldlM outbufAppend out

/-- The first lines of a page with a template for its length. -/
def pageHead : List (List UInt8) :=
  [ascii "HTTP/1.1 200 OK\r\n", ascii "Connection: close\r\n", ascii "Content-type: text/html\r\n",
    ascii "Content-length: xxxx\r\n", crlf]

/-- `os_snprintf(http_outbuf+77, 5, "%4u", n)` and the repair of the `\r` behind the template. -/
def patchLength (out : List UInt8) (n : ℕ) : List UInt8 :=
  (out.take 77 ++ ((blankPadded 4 n).take 4 ++ [0]) ++ out.drop 82).set 81 CR

/-- The first lines of a page whose body has `n` bytes. -/
def pageHeadFor (n : ℕ) : List UInt8 :=
  ascii "HTTP/1.1 200 OK\r\n" ++ ascii "Connection: close\r\n" ++ ascii "Content-type: text/html\r\n" ++
    ascii "Content-length: " ++ blankPadded 4 n ++ crlf ++ crlf

/-- The appends succeed together or one of them returns. -/
theorem outbufAppends_eq {out : List UInt8} (h : out.length < httpOutbufMaxlen) (srcs : List (List UInt8)) :
    outbufAppends out srcs =
      if out.length + srcs.flatten.length < httpOutbufMaxlen then some (out ++ srcs.flatten) else none := by
  induction srcs generalizing out with
  | nil => simp [outbufAppends, h]
  | cons src srcs ih =>
    have hcons : outbufAppends out (src :: srcs) = (outbufAppend out src).bind (outbufAppends · srcs) := rfl
    rw [hcons, outbufAppend, List.flatten_cons, List.length_append]
    by_cases hfull : src.length ≥ httpOutbufMaxlen - out.length
    · rw [if_pos hfull, if_neg (by omega)]
      rfl
    · have hroom : (out ++ src).length < httpOutbufMaxlen := by
        rw [List.length_append]
        omega
      rw [if_neg hfull, Option.bind_some, ih hroom, List.length_append, List.append_assoc, Nat.add_assoc]

theorem pageHead_length : pageHead.flatten.length = 85 := by decide

/-- The template filled in. -/
theorem patchLength_pageHead (body : List UInt8) {n : ℕ} (hn : n < 10 ^ 4) :
    patchLength (pageHead.flatten ++ body) n = pageHeadFor n ++ body := by
  have hlen := blankPadded_length (w := 4) (by norm_num) hn
  have hfront : (pageHead.flatten ++ body).take 77 = pageHead.flatten.take 77 :=
    List.take_append_of_le_length (by rw [pageHead_length]; norm_num)
  have hback : (pageHead.flatten ++ body).drop 82 = pageHead.flatten.drop 82 ++ body :=
    List.drop_append_of_le_length (by rw [pageHead_length]; norm_num)
  have htexts : pageHead.flatten.take 77 = ascii "HTTP/1.1 200 OK\r\n" ++ ascii "Connection: close\r\n"
      ++ ascii "Content-type: text/html\r\n" ++ ascii "Content-length: " := by decide
  have hrest : pageHead.flatten.drop 82 = [LF] ++ crlf := by decide
  have hnum : (blankPadded 4 n).take 4 = blankPadded 4 n := List.take_of_length_le (by rw [hlen])
  have hat : (pageHead.flatten.take 77 ++ blankPadded 4 n).length = 81 := by
    rw [List.length_append, List.length_take, pageHead_length, hlen]
    rfl
  -- the terminator that `os_snprintf` wrote over the `\r`
  have hset : ∀ a rest : List UInt8, a.length = 81 → (a ++ 0 :: rest).set 81 CR = a ++ CR :: rest := by
    intro a rest ha
    rw [List.set_append_right _ _ (by omega), ha, Nat.sub_self, List.set_cons_zero]
  rw [patchLength, hfront, hback, hnum, hrest]
  rw [show List.take 77 pageHead.flatten ++ (blankPadded 4 n ++ [0]) ++ ([LF] ++ crlf ++ body)
    = (List.take 77 pageHead.flatten ++ blankPadded 4 n) ++ 0 :: ([LF] ++ crlf ++ body) by simp]
  rw [hset _ _ hat, htexts]
  simp [pageHeadFor, crlf]

end Esp8266Toolbox
