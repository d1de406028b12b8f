import Esp8266Toolbox.LogTheorems
import Esp8266Toolbox.LogUart
import Esp8266Toolbox.Lib.TextLines

/-!
# What the host shows of the log

The program on the host prints the lines that it reads, one after the other, as long as each fits its
array, and stops at the first that does not (`run_lines`). The lines of the device's log all fit, from
wherever the program starts to listen (`shows_log`).
-/

namespace Esp8266Toolbox

/-! ## Lines of a stream -/

/-- Every stream is lines and the beginning of one. -/
theorem exists_lines (bs : List UInt8) :
    ∃ ls tail, bs = joinLines ls ++ tail ∧ (∀ l ∈ ls, LF ∉ l) ∧ LF ∉ tail := by
  induction bs with
  | nil => exact ⟨[], [], rfl, by simp, by simp⟩
  | cons b bs ih =>
    obtain ⟨ls, tail, rfl, hls, htail⟩ := ih
    by_cases hb : b = LF
    · exact ⟨[] :: ls, tail, by simp [hb], by simpa using hls, htail⟩
    · rcases ls with _ | ⟨l, ls⟩
      · exact ⟨[], b :: tail, rfl, by simp, by simp [Ne.symm hb, htail]⟩
      · refine ⟨(b :: l) :: ls, tail, by simp, ?_, htail⟩
        rw [List.forall_mem_cons] at hls ⊢
        exact ⟨by simp [Ne.symm hb, hls.1], hls.2⟩

/-- A part without a newline lies on one side of every newline. -/
theorem infix_of_line {l xs ys : List UInt8} (hl : LF ∉ l) (h : l <:+: xs ++ LF :: ys) :
    l <:+: xs ∨ l <:+: ys := by
  obtain ⟨s, t, h⟩ := h
  rcases List.append_eq_append_iff.mp h with ⟨c, rfl, -⟩ | ⟨c, hc, hrest⟩
  · exact .inl ⟨s, c, rfl⟩
  -- the newline is behind `l`, in it, or in front of it
  rcases c with _ | ⟨x, c⟩
  · rw [List.append_nil] at hc
    exact .inl ⟨s, [], by rw [List.append_nil, hc]⟩
  · obtain ⟨rfl, rfl⟩ := List.cons_eq_cons.mp hrest
    rcases List.append_eq_append_iff.mp hc with ⟨d, -, rfl⟩ | ⟨d, rfl, hd⟩
    · exact absurd (by simp) hl
    · rcases d with _ | ⟨x, d⟩
      · rw [List.nil_append] at hd
        exact absurd (by simp [← hd]) hl
      · obtain ⟨rfl, rfl⟩ := List.cons_eq_cons.mp hd
        exact .inr ⟨d, t, by simp⟩

theorem cstr_zero (xs ys : List UInt8) : cstr (xs ++ 0 :: ys) = cstr xs := by
  by_cases h : 0 ∈ xs
  · exact cstr_append_of_mem h
  · rw [cstr_append h, cstr_eq_self h, show cstr (0 :: ys) = [] from rfl, List.append_nil]

namespace Uart0

variable {s : Uart0} {p q : List UInt8} {b : UInt8}

/-! ## One byte -/

/-- Only the signal ends the loop. -/
theorem body_loop (s : Uart0) (r : ReadResult) : (s.body r).loop = s.loop := by
  rcases r with _ | _ | b
  · rfl
  · rfl
  · rw [body]
    dsimp only
    split_ifs <;> rfl

/-- The array holds the beginning `p` of a line. -/
structure Holding (p : List UInt8) (s : Uart0) : Prop where
  index : s.i = p.length
  kept : s.buf.toList.take p.length = p
  loop : s.loop = true
  status : s.status = none

/-- What is in the array with one more byte. -/
theorem Holding.put (h : Holding p s) (hlen : p.length < 1024) (b : UInt8) :
    (s.buf.set s.i b).toList.take (p.length + 1) = p ++ [b] := by
  rw [h.index, Buf.toList_set _ hlen, h.kept, List.take_append, List.take_of_length_le (by omega),
    Nat.add_sub_cancel_left]
  rfl

theorem Holding.read (h : Holding p s) (r : ReadResult) : s.step (.read r) = s.body r := by
  rw [step, h.status, if_neg (by simp)]
  dsimp only
  rw [body_loop, h.loop, Bool.not_true, Bool.and_false, if_neg (by simp)]

theorem Holding.char (h : Holding p s) (hb : b ≠ LF) (hlen : p.length < 1023) :
    Holding (p ++ [b]) (s.step (.read (.byte b))) ∧ (s.step (.read (.byte b))).printed = s.printed := by
  have hput := h.put (by omega) b
  have hlast : (s.buf.set s.i b).get (s.i + 1 - 1) = b := by
    rw [Nat.add_sub_cancel, Buf.get_set, if_pos ⟨rfl, by rw [h.index]; omega⟩]
  have hbody : s.body (.byte b) = { s with buf := s.buf.set s.i b, i := s.i + 1 } := by
    rw [body]
    dsimp only
    rw [if_neg (by rw [h.index]; omega), hlast, if_neg hb]
  rw [h.read, hbody]
  refine ⟨⟨?_, ?_, h.loop, h.status⟩, rfl⟩
  · rw [List.length_append, List.length_singleton, ← h.index]
  · rw [List.length_append, List.length_singleton]
    exact hput

theorem Holding.newline (h : Holding p s) (hlen : p.length < 1023) :
    Holding [] (s.step (.read (.byte LF))) ∧
      (s.step (.read (.byte LF))).printed = s.printed ++ cstr (p ++ [LF]) := by
  have hput := h.put (by omega) LF
  have hlast : (s.buf.set s.i LF).get (s.i + 1 - 1) = LF := by
    rw [Nat.add_sub_cancel, Buf.get_set, if_pos ⟨rfl, by rw [h.index]; omega⟩]
  have hbody : s.body (.byte LF) = { s with
      buf := (s.buf.set s.i LF).set (s.i + 1) 0, i := 0,
      printed := s.printed ++ cstr ((s.buf.set s.i LF).set (s.i + 1) 0).toList } := by
    rw [body]
    dsimp only
    rw [if_neg (by rw [h.index]; omega), hlast, if_pos rfl]
  have hstring : cstr ((s.buf.set s.i LF).set (s.i + 1) 0).toList = cstr (p ++ [LF]) := by
    rw [Buf.toList_set _ (by rw [h.index]; omega), cstr_zero]
    have hi : s.i + 1 = p.length + 1 := by rw [h.index]
    rw [hi, hput]
  rw [h.read, hbody]
  exact ⟨⟨rfl, rfl, h.loop, h.status⟩, by rw [hstring]⟩

/-- The array is full. -/
theorem Holding.full (h : Holding p s) (hlen : p.length = 1023) (b : UInt8) :
    (s.step (.read (.byte b))).status = some 1 := by
  have hbody : s.body (.byte b) = { s with buf := s.buf.set s.i b, i := s.i + 1, status := some 1 } := by
    rw [body]
    dsimp only
    rw [if_pos (by rw [h.index]; omega)]
  rw [h.read, hbody]

/-! ## Any bytes -/

/-- The bytes `bs` are read. -/
def feed (s : Uart0) (bs : List UInt8) : Uart0 := bs.foldl (fun s b => s.step (.read (.byte b))) s

theorem feed_append (s : Uart0) (xs ys : List UInt8) : s.feed (xs ++ ys) = (s.feed xs).feed ys :=
  List.foldl_append ..

theorem feed_stopped {n : ℕ} (h : s.status = some n) (bs : List UInt8) : s.feed bs = s := by
  induction bs with
  | nil => rfl
  | cons b bs ih =>
    have hstep : s.step (.read (.byte b)) = s := by rw [step, h, if_pos (by simp)]
    rw [feed, List.foldl_cons, hstep]
    exact ih

/-- More of the line, which fits. -/
theorem Holding.feed (h : Holding p s) (hq : LF ∉ q) (hlen : p.length + q.length ≤ 1023) :
    Holding (p ++ q) (s.feed q) ∧ (s.feed q).printed = s.printed := by
  induction q generalizing p s with
  | nil =>
    rw [List.append_nil]
    exact ⟨h, rfl⟩
  | cons b q ih =>
    rw [List.mem_cons, not_or] at hq
    rw [List.length_cons] at hlen
    obtain ⟨hnext, hprinted⟩ := h.char (Ne.symm hq.1) (by omega)
    obtain ⟨hrest, hsame⟩ := ih hnext hq.2 (by rw [List.length_append, List.length_singleton]; omega)
    rw [List.append_assoc] at hrest
    exact ⟨hrest, hsame.trans hprinted⟩

/-- A line that does not fit. -/
theorem Holding.feed_full (h : Holding [] s) (hq : LF ∉ q) (hlen : 1023 < q.length) :
    (s.feed q).status = some 1 := by
  have hsplit : q = q.take 1023 ++ q.drop 1023 := (List.take_append_drop 1023 q).symm
  have htake : (q.take 1023).length = 1023 := by rw [List.length_take]; omega
  obtain ⟨hheld, -⟩ := h.feed (q := q.take 1023) (fun hmem => hq (List.mem_of_mem_take hmem))
    (by rw [List.length_nil, htake])
  rcases hdrop : q.drop 1023 with _ | ⟨b, rest⟩
  · have hnone : (q.drop 1023).length = 0 := by rw [hdrop]; rfl
    rw [List.length_drop] at hnone
    omega
  · have hstop := hheld.full (by simpa using htake) b
    rw [hsplit, feed_append, hdrop]
    show (((s.feed (q.take 1023)).step (.read (.byte b))).feed rest).status = some 1
    rw [feed_stopped hstop]
    exact hstop

/-- Every line and what comes behind it fits. -/
def Fits (ls : List (List UInt8)) (tail : List UInt8) : Prop :=
  (∀ l ∈ ls, l.length < 1023) ∧ tail.length ≤ 1023

/-- A line with its newline. -/
theorem Holding.feed_line (h : Holding [] s) {l : List UInt8} (hl : LF ∉ l) :
    (l.length < 1023 → Holding [] (s.feed (l ++ [LF])) ∧
      (s.feed (l ++ [LF])).printed = s.printed ++ cstr (l ++ [LF])) ∧
    (1023 ≤ l.length → (s.feed (l ++ [LF])).status = some 1) := by
  rw [feed_append]
  constructor
  · intro hlen
    obtain ⟨hheld, hsame⟩ := h.feed hl (by simp; omega)
    obtain ⟨hnext, hprinted⟩ := Holding.newline hheld (by simpa using hlen)
    exact ⟨hnext, by rw [← hsame]; exact hprinted⟩
  · intro hlen
    by_cases hfull : l.length = 1023
    · obtain ⟨hheld, -⟩ := h.feed hl (by simp; omega)
      exact hheld.full (by simpa using hfull) LF
    · have hstop := h.feed_full hl (by omega)
      rw [feed_stopped hstop]
      exact hstop

/-- Lines, and the beginning of one. -/
theorem Holding.feed_lines (h : Holding [] s) {ls : List (List UInt8)} {tail : List UInt8}
    (hls : ∀ l ∈ ls, LF ∉ l) (htail : LF ∉ tail) :
    (Fits ls tail → Holding tail (s.feed (joinLines ls ++ tail)) ∧
      (s.feed (joinLines ls ++ tail)).printed = s.printed ++ ls.flatMap fun l => cstr (l ++ [LF])) ∧
    (¬Fits ls tail → (s.feed (joinLines ls ++ tail)).status = some 1) := by
  induction ls generalizing s with
  | nil =>
    rw [joinLines_nil, List.nil_append, List.flatMap_nil, List.append_nil]
    constructor
    · intro hfits
      have := h.feed htail (by simpa using hfits.2)
      exact this
    · intro hno
      refine h.feed_full htail ?_
      by_contra hle
      exact hno ⟨by simp, by omega⟩
  | cons l ls ih =>
    rw [List.forall_mem_cons] at hls
    obtain ⟨hread, hstop⟩ := h.feed_line hls.1
    have hsplit : joinLines (l :: ls) ++ tail = (l ++ [LF]) ++ (joinLines ls ++ tail) := by simp
    rw [hsplit, feed_append]
    by_cases hlen : l.length < 1023
    · obtain ⟨hnext, hprinted⟩ := hread hlen
      obtain ⟨hgood, hbad⟩ := ih hnext hls.2
      constructor
      · intro hfits
        obtain ⟨hheld, hrest⟩ := hgood ⟨fun l' hl' => hfits.1 l' (List.mem_cons_of_mem l hl'), hfits.2⟩
        rw [hprinted] at hrest
        exact ⟨hheld, by rw [hrest, List.flatMap_cons, List.append_assoc]⟩
      · intro hno
        refine hbad fun hfits => hno ⟨?_, hfits.2⟩
        rw [List.forall_mem_cons]
        exact ⟨hlen, hfits.1⟩
    · have hfull := hstop (by omega)
      rw [feed_stopped hfull]
      exact ⟨fun hfits => absurd (hfits.1 l List.mem_cons_self) hlen, fun _ => hfull⟩

/-! ## Runs -/

/-- A call of `read` that does not fail. -/
def Event.Works (e : Event) : Prop := ∃ r, e = .read r ∧ r ≠ .failed

/-- Only the bytes matter. -/
theorem foldl_feed {es : List Event} (hes : ∀ e ∈ es, e.Works) (hloop : s.loop = true) :
    es.foldl step s = s.feed (received es) := by
  induction es generalizing s with
  | nil => rfl
  | cons e es ih =>
    rw [List.forall_mem_cons] at hes
    obtain ⟨⟨r, rfl, hr⟩, hes⟩ := hes
    rw [List.foldl_cons]
    have hkeeps : (s.step (.read r)).loop = true := by
      rw [step]
      split
      · exact hloop
      · dsimp only
        rw [body_loop, hloop, Bool.not_true, Bool.and_false, if_neg (by simp), body_loop, hloop]
    rw [ih hes hkeeps]
    rcases r with _ | _ | b
    · exact absurd rfl hr
    · have hsame : s.step (.read .nothing) = s := by
        rw [step]
        split
        · rfl
        · dsimp only [body]
          rw [hloop, Bool.not_true, Bool.and_false, if_neg (by simp)]
      rw [hsame]
      rfl
    · rfl

theorem holding_start (buf : Buf 1024) : Holding [] (start buf) := ⟨rfl, rfl, rfl, rfl⟩

/-- **What the host prints.** Of any stream, read in calls that return a byte or none: it goes on if and
only if every line, with its newline, and the beginning of the next are at most 1023 bytes, and then it
has printed the lines, each up to the first zero in it. -/
theorem run_lines (buf : Buf 1024) {es : List Event} (hes : ∀ e ∈ es, e.Works) {ls : List (List UInt8)}
    {tail : List UInt8} (hls : ∀ l ∈ ls, LF ∉ l) (htail : LF ∉ tail)
    (hreceived : received es = joinLines ls ++ tail) :
    ((run buf es).status = none ↔ (∀ l ∈ ls, l.length < 1023) ∧ tail.length ≤ 1023) ∧
      ((run buf es).status = none → (run buf es).printed = ls.flatMap fun l => cstr (l ++ [LF])) := by
  obtain ⟨hgood, hbad⟩ := (holding_start buf).feed_lines hls htail
  rw [run, foldl_feed hes rfl, hreceived]
  by_cases hfits : Fits ls tail
  · obtain ⟨hheld, hprinted⟩ := hgood hfits
    exact ⟨⟨fun _ => hfits, fun _ => hheld.status⟩, fun _ => hprinted⟩
  · have hstopped : ((start buf).feed (joinLines ls ++ tail)).status ≠ none := by
      rw [hbad hfits]
      exact Option.some_ne_none 1
    exact ⟨iff_of_false hstopped hfits, fun h => absurd h hstopped⟩

/-- `"hi\n"`, with a call of `read` that returns nothing in it. -/
def readsHi : List Event := [.read (.byte 104), .read .nothing, .read (.byte 105), .read (.byte LF)]

theorem run_lines_hi :
    (run (Buf.zero 1024) readsHi).status = none ∧ (run (Buf.zero 1024) readsHi).printed = [104, 105, 10] := by
  have hes : ∀ e ∈ readsHi, e.Works := by simp [readsHi, Event.Works]
  have hreceived : received readsHi = joinLines [[104, 105]] ++ [] := rfl
  obtain ⟨hgoes, hprinted⟩ := run_lines (Buf.zero 1024) hes (by decide) (by decide) hreceived
  have hgood := hgoes.mpr (by decide)
  exact ⟨hgood, (hprinted hgood).trans (by decide)⟩

end Uart0

/-! ## The log on the line -/

/-- A part without a newline of texts that end with one is in one of them. -/
theorem line_length {n : ℕ} {blocks : List (List UInt8)}
    (hblocks : ∀ x ∈ blocks, x.length ≤ n ∧ ∃ body, x = body ++ [LF]) {l : List UInt8} (hl : LF ∉ l)
    (h : l <:+: blocks.flatten) : l.length ≤ n := by
  induction blocks with
  | nil => simp [List.eq_nil_of_infix_nil h]
  | cons x blocks ih =>
    rw [List.forall_mem_cons] at hblocks
    obtain ⟨⟨hx, body, rfl⟩, hblocks⟩ := hblocks
    rw [List.flatten_cons, List.append_assoc, List.singleton_append] at h
    rcases infix_of_line hl h with h | h
    · have hle := h.length_le
      rw [List.length_append] at hx
      omega
    · exact ih hblocks h

theorem stored_no_zero (c : LogCall) : 0 ∉ stored c.text := by
  have htext := c.text_no_zero
  rw [stored]
  split
  · exact htext
  · rw [List.mem_append, not_or]
    exact ⟨fun h => htext (List.mem_of_mem_take h), by decide⟩

theorem logPrinted_eq (b : LogBuf) (calls : List LogCall) :
    logPrinted b calls = (calls.map fun c => stored c.text).flatten := by
  induction calls generalizing b with
  | nil => rfl
  | cons c calls ih => rw [logPrinted, logEntry_entry, ih, List.map_cons, List.flatten_cons]

/-- What an SDK may make of a character: a newline ends what is sent for it, and nothing else sends one or
a zero. -/
structure SendsText (putc : UInt8 → List UInt8) : Prop where
  newline : ∃ cs, putc LF = cs ++ [LF] ∧ LF ∉ cs
  other : ∀ b, b ≠ LF → LF ∉ putc b
  noZero : ∀ b, b ≠ 0 → 0 ∉ putc b
  length_le : ∀ b, (putc b).length ≤ 4

section

variable {putc : UInt8 → List UInt8}

theorem flatMap_length_le {n : ℕ} (h : ∀ b, (putc b).length ≤ n) (bs : List UInt8) :
    (bs.flatMap putc).length ≤ n * bs.length := by
  induction bs with
  | nil => simp
  | cons b bs ih =>
    rw [List.flatMap_cons, List.length_append, List.length_cons, Nat.mul_succ]
    have hb := h b
    omega

/-- The log on the line is its entries. -/
theorem uartText_eq (calls : List LogCall) :
    uartText putc calls = (calls.map fun c => (stored c.text).flatMap putc).flatten := by
  rw [uartText, logPrinted_eq]
  induction calls with
  | nil => rfl
  | cons c calls ih =>
    rw [List.map_cons, List.flatten_cons, List.flatMap_append, ih, List.map_cons, List.flatten_cons]

/-- One entry on the line. -/
theorem SendsText.entry (h : SendsText putc) (c : LogCall) :
    ((stored c.text).flatMap putc).length ≤ 1020 ∧ ∃ body, (stored c.text).flatMap putc = body ++ [LF] := by
  constructor
  · have hlen := flatMap_length_le h.length_le (stored c.text)
    have hstored := stored_length c.text
    omega
  · obtain ⟨body, hbody⟩ := stored_ends c
    obtain ⟨cs, hcs, -⟩ := h.newline
    refine ⟨body.flatMap putc ++ cs, ?_⟩
    rw [hbody, List.flatMap_append, List.flatMap_singleton, hcs, List.append_assoc]

theorem SendsText.no_zero (h : SendsText putc) (calls : List LogCall) : 0 ∉ uartText putc calls := by
  rw [uartText_eq]
  intro hmem
  obtain ⟨x, hx, h0⟩ := List.mem_flatten.mp hmem
  obtain ⟨c, -, rfl⟩ := List.mem_map.mp hx
  obtain ⟨b, hb, h0⟩ := List.mem_flatMap.mp h0
  exact h.noZero b (ne_of_mem_of_not_mem hb (stored_no_zero c)) h0

/-- What ends the log and has no newline is nothing. -/
theorem SendsText.tail_nil (h : SendsText putc) {calls : List LogCall} {tail : List UInt8}
    (htail : tail <:+ uartText putc calls) (hlf : LF ∉ tail) : tail = [] := by
  rcases List.eq_nil_or_concat calls with rfl | ⟨before, c, rfl⟩
  · exact List.suffix_nil.mp htail
  · obtain ⟨body, hbody⟩ := (h.entry c).2
    have htext : uartText putc (before ++ [c]) = (uartText putc before ++ body) ++ [LF] := by
      rw [uartText_eq, uartText_eq, List.map_append, List.flatten_append, List.map_singleton,
        List.flatten_singleton, hbody, List.append_assoc]
    rcases List.eq_nil_or_concat tail with rfl | ⟨front, b, rfl⟩
    · rfl
    · obtain ⟨rest, hrest⟩ := htail
      rw [List.concat_eq_append, List.concat_eq_append, htext, ← List.append_assoc] at hrest
      have hlast : [b] = [LF] := List.append_inj_right' hrest rfl
      exact absurd (by simp [List.singleton_inj.mp hlast]) hlf

namespace Uart0

/-- **The log is shown.** Whatever the device logs, and wherever in it the host begins to listen: no byte
that arrives ends the program, and when all have arrived it has printed them all. -/
theorem shows_log (hputc : SendsText putc) (calls : List LogCall) (buf : Buf 1024) (k : ℕ) {es : List Event}
    (hes : ∀ e ∈ es, e.Works) (hreceived : received es <+: (uartText putc calls).drop k) :
    (run buf es).status = none ∧
      (received es = (uartText putc calls).drop k → (run buf es).printed = received es) := by
  obtain ⟨ls, tail, hsplit, hls, htail⟩ := exists_lines (received es)
  obtain ⟨hgoes, hprinted⟩ := run_lines buf hes hls htail hsplit
  have hpart : received es <:+: uartText putc calls := hreceived.isInfix.trans (List.drop_suffix k _).isInfix
  have hfits : ∀ l, LF ∉ l → l <:+: received es → l.length ≤ 1020 := by
    intro l hl h
    have hin := h.trans hpart
    rw [uartText_eq] at hin
    refine line_length ?_ hl hin
    intro x hx
    obtain ⟨c, -, rfl⟩ := List.mem_map.mp hx
    exact hputc.entry c
  have hline : ∀ l ∈ ls, l ++ [LF] <:+: received es := by
    intro l hl
    obtain ⟨before, after, rfl⟩ := List.append_of_mem hl
    exact ⟨joinLines before, joinLines after ++ tail, by rw [hsplit]; simp⟩
  have hgood : (run buf es).status = none := by
    refine hgoes.mpr ⟨fun l hl => ?_, ?_⟩
    · have hlen := hfits l (hls l hl) ((List.prefix_append l [LF]).isInfix.trans (hline l hl))
      omega
    · have hlen := hfits tail htail (hsplit ▸ (List.suffix_append _ _).isInfix)
      omega
  refine ⟨hgood, fun hall => ?_⟩
  -- nothing is behind the last newline
  have hnil : tail = [] := by
    have hend : tail <:+ received es := hsplit ▸ List.suffix_append _ _
    have hlast : tail <:+ uartText putc calls := (hall ▸ hend).trans (List.drop_suffix k _)
    exact hputc.tail_nil hlast htail
  have hwhole : ∀ l ∈ ls, cstr (l ++ [LF]) = l ++ [LF] := by
    intro l hl
    exact cstr_eq_self fun h0 => hputc.no_zero calls (((hline l hl).trans hpart).subset h0)
  rw [hprinted hgood, hsplit, hnil, List.append_nil, joinLines]
  exact List.flatMap_congr hwhole

end Uart0
end

/-- A `putc` that puts a carriage return in front of a newline and drops those there are. -/
def putcCrlf (b : UInt8) : List UInt8 := if b = LF then [CR, LF] else if b = CR then [] else [b]

theorem sendsText_crlf : SendsText putcCrlf where
  newline := ⟨[CR], rfl, by decide⟩
  other b hb := by
    rw [putcCrlf, if_neg hb]
    split_ifs
    · exact List.not_mem_nil
    · simpa using Ne.symm hb
  noZero b hb := by
    rw [putcCrlf]
    split_ifs
    · decide
    · exact List.not_mem_nil
    · simpa using Ne.symm hb
  length_le b := by
    rw [putcCrlf]
    split_ifs <;> simp

theorem Uart0.received_bytes (bs : List UInt8) : received (bs.map fun b => .read (.byte b)) = bs := by
  induction bs with
  | nil => rfl
  | cons b bs ih => rw [List.map_cons, received, ih]

/-- An entry, as the device sends it. -/
def helloSent : List UInt8 :=
  uartText putcCrlf
    [{ timeUs := 0, level := ascii "info", file := ascii "user_init.c", line := 48, mesg := ascii "hello" }]

theorem Uart0.shows_log_hello :
    (run (Buf.zero 1024) (helloSent.map fun b => .read (.byte b))).status = none ∧
      (run (Buf.zero 1024) (helloSent.map fun b => .read (.byte b))).printed = helloSent := by
  have hes : ∀ e ∈ helloSent.map fun b => Event.read (.byte b), e.Works := by
    simp [Event.Works]
  have hbytes := received_bytes helloSent
  obtain ⟨hgoes, hprinted⟩ := shows_log sendsText_crlf
    [{ timeUs := 0, level := ascii "info", file := ascii "user_init.c", line := 48, mesg := ascii "hello" }]
    (Buf.zero 1024) 0 hes (hbytes ▸ List.prefix_rfl)
  exact ⟨hgoes, (hprinted hbytes).trans hbytes⟩

end Esp8266Toolbox
