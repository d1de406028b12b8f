import Esp8266Toolbox.Http.ProcessTheorems
import Esp8266Toolbox.Http.Server

/-!
# The header section in segments

`recvAll` feeds the segments of a header section to `http_client_recv_cb` one by one. Each time
the section is parsed again from the start, so what counts is the text received so far: its
complete lines have been taken into the client record, and the scan for the end of its last,
unfinished line stays inside the buffer if and only if the complete lines and the text are not
too long together.
-/

namespace Esp8266Toolbox

open Loops Server

/-- How a segment leaves a client in `HTTP_STATE_HEADERS`. -/
inductive Received where
  /-- It does not fit into `client->buf`; the connection is killed. -/
  | overflow
  | parsed (r : Headers)
deriving DecidableEq, Repr

/-- `http_client_recv_cb` for a client in `HTTP_STATE_HEADERS`, up to the end of the header half
of `http_process`. -/
def recvHeaders (outside : Mem) (client : HttpClient) (data : List UInt8) :
    Except Fault (HttpClient × Received) :=
  if client.bufused + data.length > 2048 then .ok (client, .overflow)
  else do
    let (client, r) ← httpHeaders outside (extend client data)
    return (client, .parsed r)

/-- Segments, as long as the header section is incomplete. -/
def recvAll (outside : Mem) : HttpClient → List (List UInt8) → Except Fault (HttpClient × Received)
  | client, [] => .ok (client, .parsed .incomplete)
  | client, data :: segs => do
    let (client, r) ← recvHeaders outside client data
    if r = .parsed .incomplete then recvAll outside client segs else return (client, r)

/-- The callback of the server is `recvHeaders` on its slot. -/
theorem recvCb_headers (env : OtaEnv) (s : Server) {conn : ℕ} {i : Slot} (hrev : s.reverse conn = some i)
    (hstate : (s.clients i).state = .headers) (data : List UInt8) (outside : Mem)
    (replies : List FlashReply) (other : OtherReply) :
    s.recvCb env conn data outside replies other
      = match recvHeaders outside (s.clients i) data with
        | .error _ => { s.take i data with crashed := true }
        | .ok (_, .overflow) => s.post conn
        | .ok (c, .parsed .incomplete) => (s.take i data).setClient i c
        | .ok (c, .parsed (.bad _)) => ((s.take i data).setClient i c).post conn
        | .ok (c, .parsed .complete) =>
          match ((s.take i data).enter i c).handle env i replies other with
          | (s, true) => s.post conn
          | (s, false) => s := by
  have hci : (s.take i data).clients i = extend (s.clients i) data := by simp [take, setClient]
  have hst : ((s.take i data).clients i).state = .headers := by rw [hci]; exact hstate
  rw [recvCb, hrev, recvHeaders]
  dsimp only
  split
  · rfl
  · rw [process, if_pos hst, hci]
    rcases httpHeaders outside (extend (s.clients i) data) with fault | ⟨c, _ | w | _⟩
    · rfl
    · rfl
    · rfl
    · rfl

/-! ## What has been received of a request -/

/-- The first `k` bytes of `bs` end with the end of a line. -/
def LineEnd (bs : List UInt8) (k : ℕ) : Prop := k ≤ bs.length ∧ crlf <:+ bs.take k

/-- The text received so far is short enough for the scans of the next pass: the complete lines
in it, and the whole of it, are not more than 2049 bytes together. -/
def Narrow (got : List UInt8) : Prop := ∀ k, LineEnd got k → k + got.length ≤ 2049

theorem OpenLine.not_mem {o : List UInt8} (h : OpenLine o) : LF ∉ o := by
  rcases h with ⟨t, ht, rfl | rfl⟩
  · intro hmem
    exact (ht LF hmem).2 rfl
  · intro hmem
    rcases List.mem_append.mp hmem with hmem | hmem
    · exact (ht LF hmem).2 rfl
    · rw [List.mem_singleton] at hmem
      revert hmem
      decide

/-- The line ends of a text lie in front of its unfinished line. -/
theorem LineEnd.le {a o : List UInt8} (ho : OpenLine o) {k : ℕ} (h : LineEnd (a ++ o) k) : k ≤ a.length := by
  by_contra hgt
  rcases h with ⟨hle, pre, hpre⟩
  rw [List.length_append] at hle
  have htake : (a ++ o).take k = a ++ o.take (k - a.length) := by
    rw [List.take_append, List.take_of_length_le (by omega)]
  have hne : o.take (k - a.length) ≠ [] := by
    intro hnil
    have hlen := congrArg List.length hnil
    rw [List.length_take, List.length_nil] at hlen
    omega
  have hlast : (o.take (k - a.length)).getLast hne = LF := by
    have h1 : ((a ++ o).take k).getLast? = some LF := by
      rw [← hpre]
      simp [crlf]
    rw [htake, List.getLast?_append_of_ne_nil a hne, List.getLast?_eq_some_getLast hne, Option.some.injEq] at h1
    exact h1
  apply ho.not_mem
  rw [← hlast]
  exact List.mem_of_mem_take (List.getLast_mem hne)

/-- What is there of header lines that are not complete. -/
theorem tail_prefix {fs : List HeaderField} {vis : List UInt8} (hpre : vis <+: Request.tail fs)
    (hlt : vis.length < (Request.tail fs).length) :
    ∃ gs o, gs <+: fs ∧ OpenLine o ∧ vis = fieldLines gs ++ o := by
  induction fs generalizing vis with
  | nil =>
    refine ⟨[], vis, List.prefix_rfl, ?_, rfl⟩
    exact openLine_of_prefix (t := []) (by simp [LineText]) hpre hlt
  | cons f fs ih =>
    rw [Request.tail_cons] at hpre hlt
    by_cases hshort : vis.length < (f.text ++ crlf).length
    · refine ⟨[], vis, List.nil_prefix, openLine_of_prefix f.lineText ?_ hshort, rfl⟩
      exact List.prefix_of_prefix_length_le hpre (List.prefix_append _ _) (by omega)
    · -- the line is complete
      have hline : f.text ++ crlf <+: vis :=
        List.prefix_of_prefix_length_le (List.prefix_append _ _) hpre (by omega)
      rcases hline with ⟨vis', rfl⟩
      have hlt' : vis'.length < (Request.tail fs).length := by
        have h1 : (f.text ++ crlf ++ vis').length = (f.text ++ crlf).length + vis'.length := List.length_append
        have h2 : (f.text ++ crlf ++ Request.tail fs).length
            = (f.text ++ crlf).length + (Request.tail fs).length := List.length_append
        omega
      rcases ih ((List.prefix_append_right_inj _).mp hpre) hlt' with ⟨gs, o, hgs, ho, heq⟩
      refine ⟨f :: gs, o, (List.prefix_cons_inj f).mpr hgs, ho, ?_⟩
      rw [heq, fieldLines_cons]
      simp only [List.append_assoc]

/-- What is there of a header section that is not complete. -/
theorem bytes_prefix {r : Request} {got : List UInt8} (hpre : got <+: r.bytes)
    (hlt : got.length < r.bytes.length) :
    OpenLine got ∨ ∃ gs o, gs <+: r.fields ∧ OpenLine o ∧ got = r.text ++ crlf ++ fieldLines gs ++ o := by
  unfold Request.bytes at hpre hlt
  by_cases hshort : got.length < (r.text ++ crlf).length
  · left
    apply openLine_of_prefix r.lineText _ hshort
    exact List.prefix_of_prefix_length_le hpre (List.prefix_append _ _) (by omega)
  · right
    have hline : r.text ++ crlf <+: got :=
      List.prefix_of_prefix_length_le (List.prefix_append _ _) hpre (by omega)
    rcases hline with ⟨vis, rfl⟩
    have hlt' : vis.length < (Request.tail r.fields).length := by
      have h1 : (r.text ++ crlf ++ vis).length = (r.text ++ crlf).length + vis.length := List.length_append
      have h2 : (r.text ++ crlf ++ Request.tail r.fields).length
          = (r.text ++ crlf).length + (Request.tail r.fields).length := List.length_append
      omega
    rcases tail_prefix ((List.prefix_append_right_inj _).mp hpre) hlt' with ⟨gs, o, hgs, ho, heq⟩
    exact ⟨gs, o, hgs, ho, by rw [heq]; simp only [List.append_assoc]⟩

theorem crlf_suffix_fieldLines {pre : List UInt8} (h : crlf <:+ pre) (gs : List HeaderField) :
    crlf <:+ pre ++ fieldLines gs := by
  induction gs generalizing pre with
  | nil => simpa [fieldLines] using h
  | cons f gs ih =>
    have hline := ih (List.suffix_append (pre ++ f.text) crlf)
    rw [fieldLines_cons]
    simpa only [List.append_assoc] using hline

/-- The condition is about the last line end. -/
theorem narrow_iff {a o : List UInt8} (ha : crlf <:+ a) (ho : OpenLine o) :
    Narrow (a ++ o) ↔ a.length + (a ++ o).length ≤ 2049 := by
  constructor
  · intro h
    apply h a.length
    rw [LineEnd, List.take_left' rfl, List.length_append]
    exact ⟨by omega, ha⟩
  · intro h k hk
    have hle := hk.le ho
    omega

theorem length_le_fieldLines (gs : List HeaderField) : gs.length ≤ (fieldLines gs).length := by
  induction gs with
  | nil => simp
  | cons f gs ih =>
    rw [fieldLines_cons, List.length_append, List.length_append, List.length_cons,
      show crlf.length = 2 from rfl]
    omega

/-! ## One segment -/

/-- The client with another buffer. -/
def withBuf (c : HttpClient) (b : Buf 2048) (n : ℕ) : HttpClient := { c with buf := b, bufused := n }

theorem HeaderField.set_withBuf (f : HeaderField) (c : HttpClient) (b : Buf 2048) (n : ℕ) :
    f.set (withBuf c b n) = withBuf (f.set c) b n := by
  unfold HeaderField.set
  split
  · rfl
  · split <;> rfl

/-- The parser does not assign the buffer. -/
theorem Request.updates_withBuf (r : Request) (gs : List HeaderField) (c : HttpClient) (b : Buf 2048) (n : ℕ) :
    runUpdates (r.updates gs) (withBuf c b n) = withBuf (runUpdates (r.updates gs) c) b n := by
  have hfields : ∀ d : HttpClient, runUpdates (gs.map HeaderField.set) (withBuf d b n)
      = withBuf (runUpdates (gs.map HeaderField.set) d) b n := by
    induction gs with
    | nil => exact fun d => rfl
    | cons f gs ih =>
      intro d
      have hrest := ih (f.set d)
      rw [← f.set_withBuf d b n] at hrest
      exact hrest
  exact hfields (r.set c)

/-- The text `got` of the request has been received, and the lines parsed so far have left nothing
that parsing them again would not leave on `start`. -/
structure Reading (r : Request) (start : HttpClient) (got : List UInt8) (c : HttpClient) : Prop where
  used : c.bufused = got.length
  buf : c.buf = (Buf.zero 2048).memcpy 0 got
  again : ∀ b n, runUpdates (r.updates r.fields) (withBuf c b n)
    = runUpdates (r.updates r.fields) (withBuf start b n)

/-- An array of zeros with a text at its start. -/
theorem toList_received {n : ℕ} {got : List UInt8} (h : got.length ≤ n) :
    ((Buf.zero n).memcpy 0 got).toList = got ++ List.replicate (n - got.length) 0 := by
  rw [Buf.toList_memcpy _ (by omega), Nat.zero_add]
  simp [Buf.zero]

theorem Reading.extend {r : Request} {start : HttpClient} {got : List UInt8} {c : HttpClient}
    (h : Reading r start got c) {data : List UInt8} (hroom : got.length + data.length ≤ 2048) :
    Reading r start (got ++ data) (Server.extend c data) := by
  refine ⟨?_, ?_, ?_⟩
  · show c.bufused + data.length = (got ++ data).length
    rw [h.used, List.length_append]
  · show c.buf.memcpy c.bufused data = _
    apply Buf.ext
    have hroom' : got.length + data.length ≤ 2048 := hroom
    rw [h.used, Buf.toList_memcpy _ hroom', h.buf, toList_received (by omega),
      toList_received (by rw [List.length_append]; omega), List.take_left' rfl, List.length_append,
      ← List.drop_drop, List.drop_left' rfl, List.drop_replicate, Nat.sub_sub]
  · intro b n
    exact h.again b n

/-- The parser, on an incomplete request line. -/
theorem httpHeaders_openLine {r : Request} {start : HttpClient} {got : List UInt8} {c : HttpClient}
    (h : Reading r start got c) (hopen : OpenLine got) (hlt : got.length < 2048) :
    (∀ outside, httpHeaders outside c = .ok (c, .incomplete)) ∧ Narrow got := by
  have hzeros : 2048 - got.length = (2048 - got.length - 1) + 1 := by omega
  have hunf : Unfinished (got ++ List.replicate (2048 - got.length) 0) := by
    rw [hzeros]
    exact ⟨got, _, hopen, rfl⟩
  constructor
  · intro outside
    have hreads := c.buf.reads outside
    rw [h.buf, toList_received (by omega)] at hreads
    have hnone : parseline (c.buf.mem outside) 0 c.bufused = .ok none := by
      rw [h.used, h.buf]
      apply parselineFrom_none hunf
      · rw [List.length_append, List.length_replicate]
        omega
      · exact hreads
    rw [httpHeaders, hnone]
    rfl
  · -- no line ends in it but at its start
    intro k hk
    have hle := LineEnd.le (a := []) hopen hk
    rw [List.length_nil] at hle
    omega

/-- The parser, from a complete request line on: the line is read, and the loop goes on behind it. -/
theorem httpHeaders_line {r : Request} {start : HttpClient} {got : List UInt8} {c : HttpClient}
    (h : Reading r start got c) {outside : Mem} {text : List UInt8}
    (hram : got.length < ramSize) (htext : r.text.length + 2 ≤ got.length)
    (hmem : Reads (c.buf.mem outside) 0 (r.text ++ crlf ++ text)) :
    httpHeaders outside c =
      (headerLoop (c.buf.mem outside) ramSize (r.set c) (r.text.length + 2) got.length >>= fun x =>
        if x.2.1 = .complete then
          if x.1.bufused < x.2.2 then .error .outOfBounds
          else .ok ({ x.1 with
              buf := x.1.buf.memcpy 0 ((x.1.buf.toList.take x.1.bufused).drop x.2.2),
              bufused := x.1.bufused - x.2.2, state := x.1.method.next }, .complete)
        else .ok (x.1, x.2.1)) := by
  have hfound : parseline (c.buf.mem outside) 0 c.bufused = .ok (some (r.text.length + 2)) := by
    rw [h.used, parseline, parselineFrom_found r.lineText (i := 0) (by omega) hmem.left]
    congr 2
    omega
  rw [httpHeaders, hfound]
  simp only [ok_bind]
  rw [requestLine_reads r c (by omega) hmem.left]
  simp only [ok_bind, if_true]
  rw [show (r.set c).bufused = got.length from h.used]
  rfl

/-- The parser, on an incomplete header section. -/
theorem httpHeaders_open {r : Request} (hlen : r.bytes.length ≤ 2048) {start : HttpClient}
    {got : List UInt8} {c : HttpClient} (h : Reading r start got c) (hpre : got <+: r.bytes)
    (hlt : got.length < r.bytes.length) :
    (Narrow got → ∀ outside, ∃ c', httpHeaders outside c = .ok (c', .incomplete) ∧ Reading r start got c') ∧
      (¬Narrow got → ∀ fault, httpHeaders (fun _ => .error fault) c = .error fault) := by
  have hreads := fun outside => c.buf.reads outside
  rw [h.buf, toList_received (by omega)] at hreads
  have hzeros : 2048 - got.length = (2048 - got.length - 1) + 1 := by omega
  have hram : got.length < ramSize := by
    unfold ramSize
    omega
  rcases bytes_prefix hpre hlt with hopen | ⟨gs, o, hgs, ho, hgot⟩
  · -- the request line is not complete
    obtain ⟨hinc, hnarrow⟩ := httpHeaders_openLine h hopen (by omega)
    exact ⟨fun _ outside => ⟨c, hinc outside, h⟩, fun hwide => absurd hnarrow hwide⟩
  · -- the request line is there, and the header lines `gs`
    have hcrlf : crlf <:+ r.text ++ crlf ++ fieldLines gs :=
      crlf_suffix_fieldLines (List.suffix_append r.text crlf) gs
    have hnarrow := narrow_iff hcrlf ho
    rw [← hgot] at hnarrow
    have hunf : Unfinished (o ++ List.replicate (2048 - got.length) 0) := by
      rw [hzeros]
      exact ⟨o, _, ho, rfl⟩
    have hline : (r.text ++ crlf).length = r.text.length + 2 := by simp [crlf]
    have hlengot : got.length = r.text.length + 2 + (fieldLines gs).length + o.length := by
      rw [hgot, List.length_append, List.length_append, hline]
    have hstart : (r.text ++ crlf ++ fieldLines gs).length = r.text.length + 2 + (fieldLines gs).length := by
      rw [List.length_append, hline]
    have hrest : (o ++ List.replicate (2048 - got.length) (0 : UInt8)).length
        = 2048 - (r.text.length + 2 + (fieldLines gs).length) := by
      rw [List.length_append, List.length_replicate]
      omega
    have hmem : ∀ outside, Reads (c.buf.mem outside) 0
        (r.text ++ crlf ++ (fieldLines gs ++ (o ++ List.replicate (2048 - got.length) 0))) := by
      intro outside
      have hr := hreads outside
      rw [← h.buf] at hr
      rw [show r.text ++ crlf ++ (fieldLines gs ++ (o ++ List.replicate (2048 - got.length) 0))
        = got ++ List.replicate (2048 - got.length) 0 by rw [hgot]; simp only [List.append_assoc]]
      exact hr
    have hcount := length_le_fieldLines gs
    have hhost : ∀ f ∈ gs, f.name = ascii "Host" → f.value.length ≤ 63 :=
      fun f hf => r.host_short f (hgs.subset hf)
    -- both cases start with the request line and go on with the loop
    have hfront := fun outside => httpHeaders_line h hram (by omega) (hmem outside)
    have hlines : ∀ outside, Reads (c.buf.mem outside) (r.text.length + 2)
        (fieldLines gs ++ (o ++ List.replicate (2048 - got.length) 0)) := by
      intro outside
      have hr := (hmem outside).right
      rwa [hline, Nat.zero_add] at hr
    have hloop := fun outside : Mem => headerLoop_open gs (r.set c) hhost
      (show (fieldLines gs).length ≤ got.length by omega) hram hunf (hlines outside)
      (show gs.length < ramSize by omega)
    rw [hnarrow, hstart]
    constructor
    · intro hn outside
      have hok := (hloop outside).1 (by rw [hrest]; omega)
      refine ⟨runUpdates (r.updates gs) c, ?_, ?_⟩
      · rw [hfront, hok]
        rfl
      · have hself : runUpdates (r.updates gs) c = withBuf (runUpdates (r.updates gs) c) c.buf c.bufused :=
          r.updates_withBuf gs c c.buf c.bufused
        refine ⟨?_, ?_, ?_⟩
        · rw [hself]
          exact h.used
        · rw [hself]
          exact h.buf
        · intro b n
          rw [← r.updates_withBuf gs c b n, r.updates_absorb hgs]
          exact h.again b n
    · intro hwide fault
      have hout : (c.buf.mem fun _ => .error fault) (r.text.length + 2 + (fieldLines gs).length
          + (o ++ List.replicate (2048 - got.length) (0 : UInt8)).length) = .error fault := by
        rw [hrest, Buf.mem, if_neg (by omega)]
      have herr := (hloop fun _ => .error fault).2 fault (by rw [hrest]; omega) hout
      rw [hfront, herr]
      rfl

/-- The client once the header section of `r` has been parsed, with `body` behind it in the buffer. -/
def Request.parsed (r : Request) (start : HttpClient) (body : List UInt8) : HttpClient :=
  { withBuf (runUpdates (r.updates r.fields) start)
      (((Buf.zero 2048).memcpy 0 (r.bytes ++ body)).memcpy 0 body) body.length with
    state := r.method.next }

theorem Request.updates_method (r : Request) (c : HttpClient) :
    (runUpdates (r.updates r.fields) c).method = r.method := by
  have hfields : ∀ (fs : List HeaderField) (d : HttpClient),
      (runUpdates (fs.map HeaderField.set) d).method = d.method := by
    intro fs
    induction fs with
    | nil => exact fun d => rfl
    | cons f fs ih =>
      intro d
      have hset : (f.set d).method = d.method := by
        unfold HeaderField.set
        split
        · rfl
        · split <;> rfl
      exact (ih (f.set d)).trans hset
  exact hfields r.fields (r.set c)

/-- The parser, on a complete header section. -/
theorem httpHeaders_complete {r : Request} {start : HttpClient} {body : List UInt8} {c : HttpClient}
    (h : Reading r start (r.bytes ++ body) c) (hroom : (r.bytes ++ body).length ≤ 2048) (outside : Mem) :
    httpHeaders outside c = .ok (r.parsed start body, .complete) := by
  have hline : (r.text ++ crlf).length = r.text.length + 2 := by simp [crlf]
  have hbytes : r.bytes.length = r.text.length + 2 + (Request.tail r.fields).length := by
    rw [Request.bytes, List.length_append, hline]
  have hcount : r.fields.length ≤ (Request.tail r.fields).length := by
    have hle := length_le_fieldLines r.fields
    rw [show Request.tail r.fields = fieldLines r.fields ++ crlf from rfl, List.length_append]
    omega
  have hused := h.used
  rw [List.length_append] at hroom hused
  have hram : r.bytes.length + body.length < ramSize := by
    unfold ramSize
    omega
  have hmem : Reads (c.buf.mem outside) 0 (r.text ++ crlf ++ Request.tail r.fields) := by
    have hr := c.buf.reads outside
    conv at hr =>
      rw [h.buf, toList_received (by rw [List.length_append]; omega)]
    rw [← h.buf] at hr
    exact hr.left.left
  have hfound : parseline (c.buf.mem outside) 0 c.bufused = .ok (some (r.text.length + 2)) := by
    rw [hused, parseline, parselineFrom_found r.lineText (i := 0) (by omega) hmem.left]
    congr 2
    omega
  have hrest := hmem.right
  rw [hline, Nat.zero_add] at hrest
  have hloop := headerLoop_complete r.fields (r.set c) r.host_short
    (show (Request.tail r.fields).length ≤ c.bufused by omega) (by omega) hrest
    (show r.fields.length < ramSize by omega)
  -- what the updates leave is what they would leave on `start`
  have hclient : runUpdates (r.fields.map HeaderField.set) (r.set c)
      = withBuf (runUpdates (r.updates r.fields) start) c.buf c.bufused := by
    rw [← r.updates_withBuf]
    exact h.again c.buf c.bufused
  have hleft : (c.buf.toList.take c.bufused).drop (r.text.length + 2 + (Request.tail r.fields).length) = body := by
    rw [h.used, h.buf, toList_received (by rw [List.length_append]; omega), List.take_left' rfl, ← hbytes,
      List.drop_left' rfl]
  rw [httpHeaders, hfound]
  simp only [ok_bind]
  rw [requestLine_reads r c (by omega) hmem.left]
  simp only [ok_bind, if_true]
  rw [show (r.set c).bufused = c.bufused from rfl, hloop, hclient]
  simp only [ok_bind, if_true]
  rw [if_neg (show ¬(withBuf (runUpdates (r.updates r.fields) start) c.buf c.bufused).bufused
      < r.text.length + 2 + (Request.tail r.fields).length by
    show ¬c.bufused < _
    omega)]
  show Except.ok _ = _
  unfold Request.parsed
  simp only [withBuf, hleft]
  rw [r.updates_method, h.buf, hused, hbytes, Nat.add_sub_cancel_left]

/-! ## All segments -/

theorem recvHeaders_open {r : Request} (hlen : r.bytes.length ≤ 2048) {start : HttpClient}
    {got data : List UInt8} {c : HttpClient} (h : Reading r start got c) (hpre : got ++ data <+: r.bytes)
    (hlt : (got ++ data).length < r.bytes.length) :
    (Narrow (got ++ data) → ∀ outside, ∃ c',
        recvHeaders outside c data = .ok (c', .parsed .incomplete) ∧ Reading r start (got ++ data) c') ∧
      (¬Narrow (got ++ data) → ∀ fault, recvHeaders (fun _ => .error fault) c data = .error fault) := by
  have hroom : got.length + data.length ≤ 2048 := by
    rw [List.length_append] at hlt
    omega
  have hfits : ¬c.bufused + data.length > 2048 := by
    rw [h.used]
    omega
  rcases httpHeaders_open hlen (h.extend hroom) hpre hlt with ⟨hok, herr⟩
  constructor
  · intro hn outside
    rcases hok hn outside with ⟨c', hc', hreading⟩
    refine ⟨c', ?_, hreading⟩
    rw [recvHeaders, if_neg hfits, hc']
    rfl
  · intro hn fault
    rw [recvHeaders, if_neg hfits, herr hn fault]
    rfl

/-- The segment that completes the header section. -/
theorem recvHeaders_complete {r : Request} {start : HttpClient} {got data body : List UInt8} {c : HttpClient}
    (h : Reading r start got c) (hall : got ++ data = r.bytes ++ body) (outside : Mem) :
    ((got ++ data).length ≤ 2048 → recvHeaders outside c data = .ok (r.parsed start body, .parsed .complete)) ∧
      (2048 < (got ++ data).length → recvHeaders outside c data = .ok (c, .overflow)) := by
  constructor
  · intro hroom
    have hroom' : got.length + data.length ≤ 2048 := by
      rw [List.length_append] at hroom
      exact hroom
    have hreading := h.extend hroom'
    rw [hall] at hreading hroom
    have hfits : ¬c.bufused + data.length > 2048 := by
      rw [h.used]
      omega
    rw [recvHeaders, if_neg hfits, httpHeaders_complete hreading hroom outside]
    rfl
  · intro hbig
    rw [List.length_append, ← h.used] at hbig
    rw [recvHeaders, if_pos hbig]

/-- The boundaries at which the header section is still incomplete are narrow. -/
def NarrowFrom (got : List UInt8) (segs : List (List UInt8)) : Prop :=
  ∀ pre, pre <+: segs → pre ≠ [] → Narrow (got ++ pre.flatten)

theorem narrowFrom_cons {got data : List UInt8} {segs : List (List UInt8)} :
    NarrowFrom got (data :: segs) ↔ Narrow (got ++ data) ∧ NarrowFrom (got ++ data) segs := by
  constructor
  · intro h
    constructor
    · have hfirst := h [data] ((List.prefix_cons_inj data).mpr List.nil_prefix) (by simp)
      simpa using hfirst
    · intro pre hpre _
      have hmore := h (data :: pre) ((List.prefix_cons_inj data).mpr hpre) (by simp)
      rw [List.flatten_cons, ← List.append_assoc] at hmore
      exact hmore
  · rintro ⟨hfirst, hmore⟩ pre hpre hne
    rcases pre with _ | ⟨x, pre⟩
    · exact absurd rfl hne
    rcases List.cons_prefix_cons.mp hpre with ⟨rfl, hpre'⟩
    rw [List.flatten_cons, ← List.append_assoc]
    rcases pre with _ | ⟨y, pre⟩
    · simpa using hfirst
    · exact hmore (y :: pre) hpre' (by simp)

/-- The received text is a beginning of the header section. -/
theorem prefix_of_cut {h got rest body : List UInt8} (hcut : got ++ rest = h ++ body)
    (hlt : got.length < h.length) : got <+: h :=
  List.prefix_of_prefix_length_le ⟨rest, hcut⟩ (List.prefix_append h body) (by omega)

theorem recvAll_of_narrow {r : Request} (hlen : r.bytes.length ≤ 2048) {start : HttpClient}
    (init : List (List UInt8)) {got last body : List UInt8} {c : HttpClient} (h : Reading r start got c)
    (hcut : got ++ init.flatten ++ last = r.bytes ++ body)
    (hlt : (got ++ init.flatten).length < r.bytes.length) (hn : NarrowFrom got init)
    (hroom : (r.bytes ++ body).length ≤ 2048) (outside : Mem) :
    recvAll outside c (init ++ [last]) = .ok (r.parsed start body, .parsed .complete) := by
  induction init generalizing got c with
  | nil =>
    rw [List.flatten_nil, List.append_nil] at hcut
    have hdone := (recvHeaders_complete h hcut outside).1 (by rw [hcut]; exact hroom)
    rw [List.nil_append, recvAll, hdone]
    rfl
  | cons data init ih =>
    rw [List.flatten_cons, ← List.append_assoc] at hcut hlt
    have hlt' : (got ++ data).length < r.bytes.length := by
      rw [List.length_append] at hlt
      omega
    have hpre : got ++ data <+: r.bytes := by
      rw [List.append_assoc (got ++ data)] at hcut
      exact prefix_of_cut hcut hlt'
    rcases narrowFrom_cons.mp hn with ⟨hfirst, hmore⟩
    rcases (recvHeaders_open hlen h hpre hlt').1 hfirst outside with ⟨c', hc', hreading⟩
    rw [List.cons_append, recvAll, hc']
    simp only [ok_bind, if_true]
    exact ih hreading hcut hlt hmore

theorem narrow_of_recvAll {r : Request} (hlen : r.bytes.length ≤ 2048) {start : HttpClient}
    (init : List (List UInt8)) {got last body : List UInt8} {c c' : HttpClient} (h : Reading r start got c)
    (hcut : got ++ init.flatten ++ last = r.bytes ++ body)
    (hlt : (got ++ init.flatten).length < r.bytes.length) {fault : Fault}
    (hall : recvAll (fun _ => .error fault) c (init ++ [last]) = .ok (c', .parsed .complete)) :
    NarrowFrom got init ∧ (r.bytes ++ body).length ≤ 2048 := by
  induction init generalizing got c with
  | nil =>
    rw [List.flatten_nil, List.append_nil] at hcut
    constructor
    · intro pre hpre hne
      exact absurd (List.prefix_nil.mp hpre) hne
    · by_contra hbig
      -- the last segment must fit behind what is there
      have hover := (recvHeaders_complete h hcut fun _ => .error fault).2 (by rw [hcut]; omega)
      rw [List.nil_append, recvAll, hover] at hall
      cases hall
  | cons data init ih =>
    rw [List.flatten_cons, ← List.append_assoc] at hcut hlt
    have hlt' : (got ++ data).length < r.bytes.length := by
      rw [List.length_append] at hlt
      omega
    have hpre : got ++ data <+: r.bytes := by
      rw [List.append_assoc (got ++ data)] at hcut
      exact prefix_of_cut hcut hlt'
    have hstep := recvHeaders_open hlen h hpre hlt'
    rw [List.cons_append, recvAll] at hall
    -- a prefix that is too wide faults at once, against `hall`
    by_cases hfirst : Narrow (got ++ data)
    · rcases hstep.1 hfirst (fun _ => .error fault) with ⟨c₁, hc₁, hreading⟩
      rw [hc₁] at hall
      simp only [ok_bind, if_true] at hall
      rcases ih hreading hcut hlt hall with ⟨hmore, hroom⟩
      exact ⟨narrowFrom_cons.mpr ⟨hfirst, hmore⟩, hroom⟩
    · rw [hstep.2 hfirst fault] at hall
      cases hall

/-! ## Independence of the segmentation -/

/-- A slot that `http_server_conn_cb` has just given to a connection. -/
def HttpClient.fresh (conn : ℕ) : HttpClient := { HttpClient.zero with inuse := true, conn := some conn }

theorem reading_fresh (r : Request) (conn : ℕ) : Reading r (HttpClient.fresh conn) [] (HttpClient.fresh conn) := by
  refine ⟨rfl, ?_, fun _ _ => rfl⟩
  apply Buf.ext
  rw [toList_received (Nat.zero_le _)]
  rfl

/-- Whatever lies behind the buffer: the segments, up to the one that completes the header section,
leave the same method, url, host, content length and state as the header section in one
segment, with the received part of the body in the buffer. -/
def SameParse (r : Request) (conn : ℕ) (segs : List (List UInt8)) (body : List UInt8) : Prop :=
  ∀ outside, ∃ c c₁, recvAll outside (HttpClient.fresh conn) segs = .ok (c, .parsed .complete) ∧
    recvAll outside (HttpClient.fresh conn) [r.bytes] = .ok (c₁, .parsed .complete) ∧
    c.method = c₁.method ∧ c.url = c₁.url ∧ c.host = c₁.host ∧ c.postlen = c₁.postlen ∧
    c.state = c₁.state ∧ pendingBytes c = pendingBytes c₁ ++ body

theorem pendingBytes_parsed (r : Request) (start : HttpClient) {body : List UInt8} (h : body.length ≤ 2048) :
    pendingBytes (r.parsed start body) = body := by
  have hcopy := ((Buf.zero 2048).memcpy 0 (r.bytes ++ body)).take_memcpy
    (show 0 + body.length ≤ 2048 by omega)
  rw [Nat.zero_add, List.take_zero, List.nil_append] at hcopy
  exact hcopy

theorem sameParse_of_narrow {r : Request} (hlen : r.bytes.length ≤ 2048) (conn : ℕ)
    {init : List (List UInt8)} {last body : List UInt8} (hcut : init.flatten ++ last = r.bytes ++ body)
    (hlt : init.flatten.length < r.bytes.length) (hn : NarrowFrom [] init)
    (hroom : (r.bytes ++ body).length ≤ 2048) : SameParse r conn (init ++ [last]) body := by
  intro outside
  have hstart := reading_fresh r conn
  have hseg := recvAll_of_narrow hlen init hstart (by simpa using hcut) (by simpa using hlt) hn hroom outside
  have hpos : 0 < r.bytes.length := by omega
  have hwhole : [] ++ ([] : List (List UInt8)).flatten ++ r.bytes = r.bytes ++ [] := by simp
  have hone := recvAll_of_narrow hlen [] hstart hwhole (by simpa using hpos)
    (fun pre hpre hne => absurd (List.prefix_nil.mp hpre) hne) (by simpa using hlen) outside
  refine ⟨_, _, hseg, hone, rfl, rfl, rfl, rfl, rfl, ?_⟩
  rw [pendingBytes_parsed _ _ (by rw [List.length_append] at hroom; omega), pendingBytes_parsed _ _ (by simp),
    List.nil_append]

theorem narrow_of_sameParse {r : Request} (hlen : r.bytes.length ≤ 2048) {conn : ℕ}
    {init : List (List UInt8)} {last body : List UInt8} (hcut : init.flatten ++ last = r.bytes ++ body)
    (hlt : init.flatten.length < r.bytes.length) (h : SameParse r conn (init ++ [last]) body) :
    NarrowFrom [] init ∧ (r.bytes ++ body).length ≤ 2048 := by
  rcases h fun _ => .error .outOfBounds with ⟨c, c₁, hseg, -⟩
  exact narrow_of_recvAll hlen init (reading_fresh r conn) (by simpa using hcut) (by simpa using hlt) hseg

/-- A request with the single header line `X: value`. -/
def requestX (value : List UInt8) (h : LineText value) : Request where
  method := .get
  url := ascii "/"
  version := ascii "HTTP/1.1"
  fields := [⟨ascii "X", value, by decide, h, fun hname => absurd hname (by decide)⟩]
  url_text := by decide
  url_nonempty := by decide
  url_short := by decide
  version_text := by unfold LineText; decide
  host_short := by
    intro f hf hname
    rw [List.mem_singleton.mp hf] at hname
    have hne : ascii "X" ≠ ascii "Host" := by decide
    exact absurd hname hne

theorem lineText_replicate (n : ℕ) : LineText (List.replicate n 0x61) := by
  intro c hc
  rw [List.eq_of_mem_replicate hc]
  decide

/-- A request of 1123 bytes. -/
def longRequest : Request := requestX (List.replicate 1100 0x61) (lineText_replicate 1100)

/-- All of it but the blank line. -/
def longSegment : List UInt8 := ascii "GET / HTTP/1.1\r\nX: " ++ List.replicate 1100 0x61 ++ crlf

theorem longSegment_bytes : longSegment ++ crlf = longRequest.bytes := by decide +kernel

theorem longSegment_length : longSegment.length = 1121 := by decide +kernel

theorem longSegment_wide : ¬Narrow longSegment := by
  intro hn
  have hlen := longSegment_length
  have hend : LineEnd longSegment 1121 := by
    refine ⟨by omega, ?_⟩
    rw [List.take_of_length_le (by omega), longSegment]
    exact List.suffix_append _ crlf
  have hsum := hn 1121 hend
  omega

/-- When the blank line of a request of 1123 bytes comes in a segment of its own, the scan for the
end of that line leaves the buffer. -/
theorem http_segment_overread :
    longSegment ++ crlf = longRequest.bytes ∧ longRequest.bytes.length ≤ 2048 ∧
      recvAll (fun _ => .error .outOfBounds) (HttpClient.fresh 7) [longSegment, crlf] = .error .outOfBounds ∧
      ¬SameParse longRequest 7 [longSegment, crlf] [] := by
  have hlen := longSegment_length
  have hcrlf : crlf.length = 2 := rfl
  have hshort : longRequest.bytes.length ≤ 2048 := by
    rw [← longSegment_bytes, List.length_append]
    omega
  have hlt : longSegment.length < longRequest.bytes.length := by
    rw [← longSegment_bytes, List.length_append]
    omega
  have hpre : [] ++ longSegment <+: longRequest.bytes := by
    rw [← longSegment_bytes]
    exact List.prefix_append longSegment crlf
  refine ⟨longSegment_bytes, hshort, ?_, ?_⟩
  · have herr := (recvHeaders_open hshort (reading_fresh longRequest 7) hpre hlt).2 longSegment_wide .outOfBounds
    rw [recvAll, herr]
    rfl
  · intro hsame
    have hcut : [longSegment].flatten ++ crlf = longRequest.bytes ++ [] := by
      rw [← longSegment_bytes]
      simp
    have hn := (narrow_of_sameParse hshort hcut (by simpa using hlt) hsame).1
    have hfirst := hn [longSegment] List.prefix_rfl (by simp)
    exact longSegment_wide (by simpa using hfirst)

/-- Parsing a well-formed request is independent of its segmentation, and stays inside the buffer,
if and only if at each boundary inside the header section the complete lines and the whole
text received so far are not more than 2049 bytes together, and the segment that completes
the section still fits into the buffer. -/
theorem http_segmentation_iff (r : Request) (hlen : r.bytes.length ≤ 2048) (conn : ℕ)
    (init : List (List UInt8)) (last body : List UInt8) (hcut : init.flatten ++ last = r.bytes ++ body)
    (hpart : init.flatten.length < r.bytes.length) :
    SameParse r conn (init ++ [last]) body ↔
      (∀ pre, pre <+: init → ∀ k, LineEnd pre.flatten k → k + pre.flatten.length ≤ 2049) ∧
        (init ++ [last]).flatten.length ≤ 2048 := by
  have htotal : (init ++ [last]).flatten = r.bytes ++ body := by
    rw [← hcut]
    simp
  rw [htotal]
  constructor
  · intro h
    rcases narrow_of_sameParse hlen hcut hpart h with ⟨hn, hroom⟩
    refine ⟨?_, hroom⟩
    intro pre hpre k hk
    by_cases hne : pre = []
    · subst hne
      have hk0 := hk.1
      simp only [List.flatten_nil, List.length_nil] at hk0 ⊢
      omega
    · exact hn pre hpre hne k hk
  · rintro ⟨hn, hroom⟩
    exact sameParse_of_narrow hlen conn hcut hpart (fun pre hpre _ => hn pre hpre) hroom

/-- A short request, cut inside its header line, and two bytes behind it. -/
theorem http_segmentation_iff_short :
    SameParse (requestX (ascii "a") (lineText_replicate 1)) 7
      [ascii "GET / HTTP/1.1\r\nX:", ascii " a\r\n\r\nab"] (ascii "ab") := by
  apply (http_segmentation_iff (requestX (ascii "a") (lineText_replicate 1)) (by decide) 7
    [ascii "GET / HTTP/1.1\r\nX:"] (ascii " a\r\n\r\nab") (ascii "ab") (by decide) (by decide)).mpr
  refine ⟨?_, by decide⟩
  intro pre hpre k hk
  have hle := hpre.length_le
  have hflat : pre.flatten.length ≤ 18 := by
    have hsub := hpre.flatten.length_le
    exact le_trans hsub (by decide)
  have hk := hk.1
  omega

end Esp8266Toolbox
