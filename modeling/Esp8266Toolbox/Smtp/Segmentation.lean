import Esp8266Toolbox.Smtp.SegmentRead

/-!
# Cutting the responses of the server

A run is a list of deliveries: the segments that arrive, and the other callbacks. Two runs hold the
same conversation when they differ in how the responses are cut only, and in what the stack holds.
Where every segment meets its condition, the client goes through the same states and sends the same
commands in both, and `inbuf` holds the bytes received and not yet consumed: `segmentation_independent`.
-/

namespace Esp8266Toolbox

/-- `smtp_send_recv_cb` is called. -/
def SmtpEvent.isRecv : SmtpEvent → Bool
  | .recv _ _ _ => true
  | _ => false

/-- A segment of a response, and what the stack holds when it arrives. -/
structure Segment where
  data : List UInt8
  stack : Stack
  nul_free : 0 ∉ data

/-- What happens to the client: a segment arrives, or something else. -/
inductive Delivery where
  | segment (x : Segment)
  | event (e : SmtpEvent) (other : e.isRecv = false)

/-- The callback; `espconn_send` answers the `n`th command with `rvs n`. -/
def Delivery.callback (rvs : ℕ → ℤ) (s : Smtp) : Delivery → SmtpEvent
  | .segment x => .recv x.data x.stack (rvs s.sent.length)
  | .event e _ => e

/-- What the segments bring. -/
def Delivery.bytes : Delivery → List UInt8
  | .segment x => x.data
  | .event _ _ => []

/-- A conversation: responses of the server, and what happens between them. -/
inductive Turn where
  | response (bytes : List UInt8)
  | event (e : SmtpEvent) (other : e.isRecv = false)

/-- The responses of a conversation arrive in segments. -/
inductive Cut : List Turn → List Delivery → Prop
  | nil : Cut [] []
  | response {bytes : List UInt8} {segments : List Segment} {turns : List Turn} {ds : List Delivery}
      (hne : segments ≠ []) (hbytes : (segments.map Segment.data).flatten = bytes) (h : Cut turns ds) :
      Cut (.response bytes :: turns) (segments.map .segment ++ ds)
  | event {e : SmtpEvent} {other : e.isRecv = false} {turns : List Turn} {ds : List Delivery} (h : Cut turns ds) :
      Cut (.event e other :: turns) (.event e other :: ds)

namespace Smtp

variable {s s' : Smtp} {rvs : ℕ → ℤ}

/-! ## The other callbacks -/

theorem sendConnect_withIn (ip : UInt32) (rv : ConnectRv) (inbuf : Buf 2048) (inbufused : ℕ) :
    (s.withIn inbuf inbufused).sendConnect ip rv = (s.sendConnect ip rv).withIn inbuf inbufused := by
  unfold sendConnect
  dsimp only
  split_ifs
  all_goals rfl

theorem send_withIn (mail : Mail) (lookup : Lookup) (rv : ConnectRv) (inbuf : Buf 2048) (inbufused : ℕ) :
    (s.withIn inbuf inbufused).send mail lookup rv = (s.send mail lookup rv).map (·.withIn inbuf inbufused) := by
  unfold send
  refine bind_withIn fun host => ?_
  have hstage : (s.withIn inbuf inbufused).stage = s.stage := rfl
  rw [hstage]
  dsimp only
  split_ifs
  all_goals try rfl
  cases lookup with
  | ok ip => exact congrArg Except.ok (sendConnect_withIn (s := { s.store mail with stage := .resolve }) ip rv _ _)
  | inprogress => rfl
  | failed => rfl

theorem connCb_withIn (rv : ConnRv) (inbuf : Buf 2048) (inbufused : ℕ) :
    (s.withIn inbuf inbufused).connCb rv = (s.connCb rv).withIn inbuf inbufused := by
  unfold connCb
  split_ifs
  · rfl
  · rfl
  · rfl
  · exact espconnSend_withIn (s := { s with stage := .greet }) _ _ _ _

/-- Only what is received concerns `inbuf`. -/
theorem step_withIn {e : SmtpEvent} (he : e.isRecv = false) (inbuf : Buf 2048) (inbufused : ℕ) :
    (s.withIn inbuf inbufused).step e = (s.step e).map (·.withIn inbuf inbufused) := by
  cases e with
  | send mail lookup rv => exact send_withIn mail lookup rv inbuf inbufused
  | dns ip rv =>
    cases ip with
    | none => rfl
    | some ip => exact congrArg Except.ok (sendConnect_withIn ip rv inbuf inbufused)
  | connected rv => exact congrArg Except.ok (connCb_withIn rv inbuf inbufused)
  | recv data stack rv => cases he
  | error err connecting => rfl
  | disconnected => rfl
  | sent => rfl
  | kill => rfl
  | setup server => rfl
  | logLevel level => rfl

/-- The bytes that wait in `inbuf` stay. -/
theorem step_unread {e : SmtpEvent} (he : e.isRecv = false) (hs : s.step e = .ok s') : s'.unread = s.unread := by
  have hsame := step_withIn (s := s) he s.inbuf s.inbufused
  have hself : s.withIn s.inbuf s.inbufused = s := rfl
  rw [hself, hs, Except.map, Except.ok.injEq] at hsame
  rw [hsame]
  rfl

/-! ## Runs -/

/-- The client, and the states it has gone through, each without what is in `inbuf`. -/
structure Followed where
  client : Smtp
  visited : List Smtp

/-- One callback. -/
def deliver (rvs : ℕ → ℤ) (w : Followed) (d : Delivery) : Except Fault Followed := do
  let s ← w.client.step (d.callback rvs w.client)
  return { client := s, visited := note w.visited s.bare }

/-- A run. -/
def deliverAll (rvs : ℕ → ℤ) (w : Followed) (ds : List Delivery) : Except Fault Followed :=
  ds.foldlM (deliver rvs) w

/-- After `smtp_init`. -/
def started (server : SmtpServer) (logLevel : ℕ) : Followed :=
  { client := init server logLevel, visited := [init server logLevel] }

/-- The condition on a delivery: a segment fits `inbuf`, and its lines are fresh. -/
def deliveryFresh (s : Smtp) : Delivery → Bool
  | .segment x => decide (s.inbufused + x.data.length < 2048) && (s.append x.data).handleFresh x.stack
  | .event _ _ => true

/-- Every step of the run meets the condition. -/
def runFresh (rvs : ℕ → ℤ) : Smtp → List Delivery → Bool
  | _, [] => true
  | s, d :: ds => deliveryFresh s d &&
    match s.step (d.callback rvs s) with
    | .ok s' => runFresh rvs s' ds
    | .error _ => true

/-- The reader when something else happens. -/
def readEvent (x : LineClient × List UInt8) (e : SmtpEvent) : Except Fault (LineClient × List UInt8) := do
  let s ← x.1.client.step e
  return ({ x.1 with client := s.bare, visited := note x.1.visited s.bare }, x.2)

/-- The reader, delivery by delivery. -/
def readDelivery (rvs : ℕ → ℤ) (x : LineClient × List UInt8) : Delivery → Except Fault (LineClient × List UInt8)
  | .segment y => (lineReader rvs).read x.1 (x.2 ++ y.data)
  | .event e _ => readEvent x e

/-- The reader, when every response arrives at once. -/
def readTurn (rvs : ℕ → ℤ) (x : LineClient × List UInt8) : Turn → Except Fault (LineClient × List UInt8)
  | .response bytes => (lineReader rvs).read x.1 (x.2 ++ bytes)
  | .event e _ => readEvent x e

/-- The reader before anything has happened. -/
def readStart (server : SmtpServer) (logLevel : ℕ) : LineClient × List UInt8 :=
  ({ client := init server logLevel, visited := [init server logLevel], lines := [] }, [])

/-- The client and its reader, in a run. -/
structure ReadSoFar (w : Followed) (x : LineClient × List UInt8) : Prop where
  followed : w.client.FollowedBy x.1
  visited : x.1.visited = w.visited
  unread : x.2 = w.client.unread
  nul_free : 0 ∉ x.2
  terminated : w.client.Terminated

theorem note_getLast (visited : List Smtp) (s : Smtp) : (note visited s).getLast? = some s := by
  unfold note
  split_ifs with h
  · exact h
  · exact List.getLast?_concat

theorem append_unread {data : List UInt8} (hfit : s.inbufused + data.length < 2048) :
    (s.append data).unread = s.unread ++ data := by
  unfold unread append
  exact Buf.take_memcpy _ (by omega)

/-- One delivery. -/
theorem deliver_read {w : Followed} {x : LineClient × List UInt8} (h : ReadSoFar w x) {d : Delivery}
    (hfresh : deliveryFresh w.client d = true) :
    Loops.SameEnd ReadSoFar (deliver rvs w d) (readDelivery rvs x d) := by
  cases d with
  | segment y =>
    -- the client reads its lines from what it holds and the segment, as the reader does
    obtain ⟨hfit, hfresh⟩ := (Bool.and_eq_true _ _).mp hfresh
    have hfit := of_decide_eq_true hfit
    have hunread := append_unread (s := w.client) hfit
    have h0 : 0 ∉ (w.client.append y.data).unread := by
      rw [hunread, ← h.unread, List.mem_append, not_or]
      exact ⟨h.nul_free, y.nul_free⟩
    have hfollowed : (w.client.append y.data).FollowedBy x.1 := h.followed.withIn _ _
    have hread := @handle_read _ _ rvs _ (h.terminated.append hfit) h0 hfollowed hfresh
    rw [hunread, ← h.unread] at hread
    have hstep : w.client.step (Delivery.callback rvs w.client (.segment y)) =
        (w.client.append y.data).handle y.stack (rvs (w.client.append y.data).sent.length) := recvCb_eq hfit _ _
    show Loops.SameEnd _ (w.client.step (Delivery.callback rvs w.client (.segment y)) >>= _)
      ((lineReader rvs).read x.1 (x.2 ++ y.data))
    rw [hstep]
    cases hx : (lineReader rvs).read x.1 (x.2 ++ y.data) with
    | error f =>
      obtain ⟨f', hf'⟩ := hread.of_error hx
      rw [hf']
      trivial
    | ok x' =>
      obtain ⟨s', hs', hread⟩ := hread.of_ok hx
      rw [hs']
      have hvisited := hread.visited
      rw [h.visited] at hvisited
      refine ⟨⟨hread.client, ?_⟩, hvisited, hread.unread, ?_, hread.terminated⟩
      · rw [hvisited]
        exact note_getLast _ _
      · rw [hunread, ← h.unread] at h0
        exact fun hmem => h0 ((LineReader.read_suffix hx).subset hmem)
  | event e other =>
    -- no other callback looks at the buffer
    have hsame := step_withIn (s := w.client) other (Buf.zero _) 0
    unfold deliver readDelivery readEvent
    rw [h.followed.client]
    show Loops.SameEnd _ (w.client.step e >>= _) ((w.client.withIn (Buf.zero _) 0).step e >>= _)
    rw [hsame]
    cases hs : w.client.step e with
    | error f => trivial
    | ok s' =>
      refine ⟨⟨rfl, note_getLast _ _⟩, ?_, ?_, h.nul_free, h.terminated.step hs⟩
      · show note x.1.visited s'.bare = note w.visited s'.bare
        rw [h.visited]
      · show x.2 = s'.unread
        rw [h.unread, step_unread other hs]

/-- A run: induction on the deliveries. -/
theorem deliverAll_read {w : Followed} {x : LineClient × List UInt8} (h : ReadSoFar w x) {ds : List Delivery}
    (hfresh : runFresh rvs w.client ds = true) :
    Loops.SameEnd ReadSoFar (deliverAll rvs w ds) (ds.foldlM (readDelivery rvs) x) := by
  induction ds generalizing w x with
  | nil => exact h
  | cons d ds ih =>
    obtain ⟨hd, hds⟩ := (Bool.and_eq_true _ _).mp hfresh
    rw [deliverAll, List.foldlM_cons, List.foldlM_cons]
    refine (deliver_read h hd).bind_of_ok fun w' x' hw' _ hread => ih hread ?_
    obtain ⟨s', hs', hw'⟩ := Loops.bind_eq_ok hw'
    cases hw'
    rw [hs'] at hds
    exact hds

/-! ## What has been received -/

/-- Every line that is taken comes out of the bytes received, in order. -/
theorem read_lines {r' : LineClient} {p p' : List UInt8} {r : LineClient}
    (h : (lineReader rvs).read r p = .ok (r', p')) : r'.lines.flatten ++ p' = r.lines.flatten ++ p := by
  refine LineReader.read_inv (fun r₁ q => r₁.lines.flatten ++ q = r.lines.flatten ++ p) ?_ rfl h
  intro r₁ q e r₂ taken hinv _ hact
  obtain ⟨t, -, ht⟩ := Loops.bind_eq_ok hact
  obtain ⟨rfl, htaken⟩ := Prod.mk.inj (Except.ok.inj ht)
  dsimp only
  rw [← htaken]
  cases t.taken with
  | true =>
    rw [if_pos rfl, if_pos rfl, List.flatten_append, List.flatten_singleton, List.append_assoc,
      List.take_append_drop]
    exact hinv
  | false => exact hinv

theorem readDelivery_lines {x x' : LineClient × List UInt8} {d : Delivery} (h : readDelivery rvs x d = .ok x') :
    x'.1.lines.flatten ++ x'.2 = x.1.lines.flatten ++ x.2 ++ d.bytes := by
  cases d with
  | segment y =>
    rw [List.append_assoc]
    exact read_lines h
  | event e other =>
    obtain ⟨s', -, hx'⟩ := Loops.bind_eq_ok h
    cases hx'
    exact (List.append_nil _).symm

theorem readAll_lines {x x' : LineClient × List UInt8} {ds : List Delivery}
    (h : ds.foldlM (readDelivery rvs) x = .ok x') :
    x'.1.lines.flatten ++ x'.2 = x.1.lines.flatten ++ x.2 ++ ds.flatMap Delivery.bytes := by
  induction ds generalizing x with
  | nil =>
    cases h
    exact (List.append_nil _).symm
  | cons d ds ih =>
    rw [List.foldlM_cons] at h
    obtain ⟨x₁, hx₁, hrest⟩ := Loops.bind_eq_ok h
    rw [ih hrest, readDelivery_lines hx₁, List.flatMap_cons, List.append_assoc]

/-! ## Two ways of cutting -/

/-- The reader does not see how the responses are cut. -/
theorem cut_read {turns : List Turn} {ds : List Delivery} (h : Cut turns ds) (x : LineClient × List UInt8) :
    ds.foldlM (readDelivery rvs) x = turns.foldlM (readTurn rvs) x := by
  induction h generalizing x with
  | nil => rfl
  | @response bytes segments turns ds hne hbytes _ ih =>
    have hall := (lineReader rvs).readAll_eq
      (mt List.map_eq_nil_iff.mp hne : segments.map Segment.data ≠ []) x.1 x.2
    rw [LineReader.readAll, List.foldlM_map, hbytes] at hall
    rw [List.foldlM_append, List.foldlM_map, List.foldlM_cons]
    have hfirst : segments.foldlM (fun x y => readDelivery rvs x (.segment y)) x = readTurn rvs x (.response bytes) := hall
    rw [hfirst]
    exact bind_congr ih
  | event _ ih =>
    rw [List.foldlM_cons, List.foldlM_cons]
    exact bind_congr ih

/-- What a run shows: the states, with the commands that were sent, and the bytes that wait. -/
def seen (w : Followed) : List Smtp × Smtp × List UInt8 := (w.visited, w.client.bare, w.client.unread)

/-- `inbuf` and `inbufused` hold the bytes received and not yet consumed, and the client has acted on
lines of received bytes only: it is where a reader is that never sees anything else. -/
structure Accounted (rvs : ℕ → ℤ) (x : LineClient × List UInt8) (ds : List Delivery) (w : Followed) : Prop where
  reader : ∃ r, ds.foldlM (readDelivery rvs) x = .ok (r, w.client.unread) ∧ r.client = w.client.bare ∧
    r.visited = w.visited ∧ r.lines.flatten ++ w.client.unread = ds.flatMap Delivery.bytes ∧
    r.lines.flatten.length + w.client.inbufused = (ds.flatMap Delivery.bytes).length

variable {server : SmtpServer} {logLevel : ℕ}

theorem readSoFar_started : ReadSoFar (started server logLevel) (readStart server logLevel) where
  followed := ⟨rfl, rfl⟩
  visited := rfl
  unread := rfl
  nul_free := List.not_mem_nil
  terminated := (Reachable.init server logLevel).terminated

theorem runFresh_take {ds : List Delivery} (h : runFresh rvs s ds = true) (n : ℕ) : runFresh rvs s (ds.take n) = true := by
  induction ds generalizing s n with
  | nil =>
    rw [List.take_nil]
    rfl
  | cons d ds ih =>
    cases n with
    | zero => rfl
    | succ n =>
      unfold runFresh at h
      rw [List.take_succ_cons, runFresh]
      cases hstep : s.step (d.callback rvs s) with
      | error f =>
        rw [hstep] at h
        exact h
      | ok s' =>
        rw [hstep] at h
        obtain ⟨hd, hds⟩ := (Bool.and_eq_true _ _).mp h
        exact (Bool.and_eq_true _ _).mpr ⟨hd, ih hds n⟩

/-- The buffer, at the end of a run whose steps meet the condition. -/
theorem accounted {ds : List Delivery} (hfresh : runFresh rvs (init server logLevel) ds = true) {w : Followed}
    (hw : deliverAll rvs (started server logLevel) ds = .ok w) : Accounted rvs (readStart server logLevel) ds w := by
  have hsame := @deliverAll_read rvs (started server logLevel) _ readSoFar_started ds hfresh
  cases hx : ds.foldlM (readDelivery rvs) (readStart server logLevel) with
  | error f =>
    obtain ⟨f', hf'⟩ := hsame.of_error hx
    rw [hw] at hf'
    cases hf'
  | ok x =>
    obtain ⟨w', hw', hread⟩ := hsame.of_ok hx
    rw [hw, Except.ok.injEq] at hw'
    subst hw'
    obtain ⟨r, unread⟩ := x
    have hunread : unread = w.client.unread := hread.unread
    subst hunread
    have hbytes : r.lines.flatten ++ w.client.unread = ds.flatMap Delivery.bytes := readAll_lines hx
    refine ⟨r, hx, hread.followed.client, hread.visited, hbytes, ?_⟩
    rw [← hbytes, List.length_append, length_unread hread.terminated]

/-- What is seen of a run whose steps meet the condition is decided by the conversation. -/
theorem seen_eq {turns : List Turn} {ds : List Delivery} (hcut : Cut turns ds)
    (hfresh : runFresh rvs (init server logLevel) ds = true) :
    (deliverAll rvs (started server logLevel) ds).map seen =
      (turns.foldlM (readTurn rvs) (readStart server logLevel)).map fun x => (x.1.visited, x.1.client, x.2) := by
  have hsame := @deliverAll_read rvs (started server logLevel) _ readSoFar_started ds hfresh
  rw [cut_read hcut] at hsame
  cases hx : turns.foldlM (readTurn rvs) (readStart server logLevel) with
  | error f =>
    obtain ⟨f', hf'⟩ := hsame.of_error hx
    rw [hf']
    cases f
    cases f'
    rfl
  | ok x =>
    obtain ⟨w, hw, hread⟩ := hsame.of_ok hx
    rw [hw]
    show Except.ok (w.visited, w.client.bare, w.client.unread) = .ok (x.1.visited, x.1.client, x.2)
    rw [hread.visited, hread.followed.client, hread.unread]

/-- Where every step meets the condition, two ways of cutting the responses of a conversation take the client
through the same states, with the same commands, and every state on the way is accounted for. -/
theorem segmentation_independent {turns : List Turn} {ds ds' : List Delivery} (hcut : Cut turns ds)
    (hcut' : Cut turns ds') (hfresh : runFresh rvs (init server logLevel) ds = true)
    (hfresh' : runFresh rvs (init server logLevel) ds' = true) :
    (deliverAll rvs (started server logLevel) ds).map seen = (deliverAll rvs (started server logLevel) ds').map seen ∧
      ∀ n w, deliverAll rvs (started server logLevel) (ds.take n) = .ok w →
        Accounted rvs (readStart server logLevel) (ds.take n) w :=
  ⟨(seen_eq hcut hfresh).trans (seen_eq hcut' hfresh').symm,
    fun n _ hw => accounted (runFresh_take hfresh n) hw⟩

/-- A session up to the answer to the challenge. -/
def opening : List Turn :=
  [.event (.send smallMail (.ok 0) ⟨0, 0, 0⟩) rfl, .event (.connected ⟨0, 0, 0, 0⟩) rfl,
    .response (ascii "220 hello\r\n250-first\r\n250 last\r\n"), .response (challengeLine (ascii "c"))]

/-- The same session, its responses in segments. -/
def openingIn (greeting challenge : List Segment) : List Delivery :=
  .event (.send smallMail (.ok 0) ⟨0, 0, 0⟩) rfl :: .event (.connected ⟨0, 0, 0, 0⟩) rfl ::
    (greeting.map .segment ++ (challenge.map .segment ++ []))

/-- The responses arrive at once. -/
def atOnce : List Delivery :=
  openingIn [⟨ascii "220 hello\r\n250-first\r\n250 last\r\n", zeroStack, by decide⟩]
    [⟨challengeLine (ascii "c"), zeroStack, by decide⟩]

theorem atOnce_cut : Cut opening atOnce :=
  .event (.event (.response (by decide) (by decide) (.response (by decide) (by decide) .nil)))

/-- The greeting is cut inside a line, and between CR and LF. -/
theorem segmentation_independent_greeting :
    (deliverAll (fun _ => 0) (started account 20) atOnce).map seen =
        (deliverAll (fun _ => 0) (started account 20)
          (openingIn [⟨ascii "220 hel", zeroStack, by decide⟩, ⟨ascii "lo\r\n250-first\r", zeroStack, by decide⟩,
              ⟨ascii "\n250 last\r\n", zeroStack, by decide⟩]
            [⟨challengeLine (ascii "c"), zeroStack, by decide⟩])).map seen ∧
      ∀ n w, deliverAll (fun _ => 0) (started account 20) (atOnce.take n) = .ok w →
        Accounted (fun _ => 0) (readStart account 20) (atOnce.take n) w :=
  segmentation_independent atOnce_cut
    (.event (.event (.response (by decide) (by decide) (.response (by decide) (by decide) .nil))))
    (by decide +kernel) (by decide +kernel)

/-- The challenge is cut behind its first byte: the rest of the greeting that is still in `inbuf` completes a
line, which the client refuses. -/
theorem segmentation_differs :
    ∃ (turns : List Turn) (ds ds' : List Delivery), Cut turns ds ∧ Cut turns ds' ∧
      ((deliverAll (fun _ => 0) (started account 20) ds).toOption.map (·.client.stage)) = some .auth ∧
      ((deliverAll (fun _ => 0) (started account 20) ds').toOption.map (·.client.stage)) = some .failed :=
  ⟨opening, atOnce,
    openingIn [⟨ascii "220 hello\r\n250-first\r\n250 last\r\n", zeroStack, by decide⟩]
      [⟨ascii "3", zeroStack, by decide⟩, ⟨ascii "34 Yw==\r\n", zeroStack, by decide⟩],
    atOnce_cut,
    .event (.event (.response (by decide) (by decide) (.response (by decide) (by decide) .nil))),
    by decide +kernel, by decide +kernel⟩

end Smtp
end Esp8266Toolbox
