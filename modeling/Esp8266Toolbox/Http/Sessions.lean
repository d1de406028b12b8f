import Esp8266Toolbox.Lib.Runs
import Esp8266Toolbox.Http.ServerTheorems

/-!
# Connections, slots and responses

The server beside a ledger of its connections: which are open, which of them were given a slot,
and how many pages have been sent on each before its kill task. In every run the SDK can make a
connection that was given a slot keeps it, and what its handler sends goes to it.
-/

namespace Esp8266Toolbox

/-- A connection between its connect callback and the callback that ends it. -/
structure Session where
  /-- It was given a slot. -/
  given : Bool
  /-- Its kill task has run. -/
  killed : Bool
  /-- The pages sent on it until then. -/
  responses : ℕ
deriving DecidableEq, Repr

/-- The open connections. -/
abbrev Ledger := ℕ → Option Session

/-- The pages the server has sent on a connection. -/
def Server.pagesTo (s : Server) (conn : ℕ) : ℕ := s.sent.countP fun p => p.1 = some conn

/-- More pages on a connection; those behind its kill task are not counted. -/
def Session.answered (n : ℕ) (x : Session) : Session :=
  if x.killed then x else { x with responses := x.responses + n }

/-- The ledger after a callback that takes the server from `s` to `s'`. -/
def Ledger.next (l : Ledger) (s s' : Server) : HttpEvent → Ledger
  | .connect conn registered =>
    Function.update l conn (some ⟨registered && s.freeSlot.isSome, false, 0⟩)
  | .recv _ _ _ _ _ => fun conn => (l conn).map (Session.answered (s'.pagesTo conn - s.pagesTo conn))
  | .disconnect conn => Function.update l conn none
  | .error conn _ => Function.update l conn none
  | .task =>
    match s.queue with
    | [] => l
    | conn :: _ => Function.update l conn ((l conn).map fun x => { x with killed := true })
  | .reboot => l
  | .paramStore _ => l

/-- The server and the ledger of its connections. -/
structure Tracked where
  server : Server
  ledger : Ledger

namespace Tracked

/-- After `http_init`. -/
def init (content : ℕ → UInt8) : Tracked := ⟨Server.init content, fun _ => none⟩

/-- One callback; none runs once the server has crashed or is rebooting. -/
def step (env : OtaEnv) (t : Tracked) (e : HttpEvent) : Tracked :=
  if t.server.crashed || t.server.rebooting then t
  else ⟨t.server.step env e, t.ledger.next t.server (t.server.step env e) e⟩

/-- A run from boot. -/
def run (env : OtaEnv) (content : ℕ → UInt8) (es : List HttpEvent) : Tracked :=
  es.foldl (step env) (init content)

/-- What the SDK may do next: a connection connects, receives data while it is open, and ends
with one callback. -/
def Allowed (t : Tracked) : HttpEvent → Prop
  | .connect conn _ => t.ledger conn = none
  | .recv conn _ _ _ _ => t.ledger conn ≠ none
  | .disconnect conn => t.ledger conn ≠ none
  | .error conn _ => t.ledger conn ≠ none
  | .task => True
  | .reboot => True
  | .paramStore _ => True

instance (t : Tracked) : ∀ e, Decidable (t.Allowed e)
  | .connect conn _ => inferInstanceAs (Decidable (t.ledger conn = none))
  | .recv conn _ _ _ _ => inferInstanceAs (Decidable (t.ledger conn ≠ none))
  | .disconnect conn => inferInstanceAs (Decidable (t.ledger conn ≠ none))
  | .error conn _ => inferInstanceAs (Decidable (t.ledger conn ≠ none))
  | .task => .isTrue trivial
  | .reboot => .isTrue trivial
  | .paramStore _ => .isTrue trivial

/-- The connection was given a slot and has not ended. -/
def Holds (t : Tracked) (conn : ℕ) : Prop := ∃ x, t.ledger conn = some x ∧ x.given = true

theorem foldl_server (env : OtaEnv) (t : Tracked) (es : List HttpEvent) :
    (es.foldl (step env) t).server = es.foldl (Server.step env) t.server := by
  induction es generalizing t with
  | nil => rfl
  | cons e es ih =>
    have hstep : (step env t e).server = t.server.step env e := by
      unfold step Server.step
      by_cases hstop : t.server.crashed || t.server.rebooting
      · rw [if_pos hstop, if_pos hstop]
      · rw [if_neg hstop]
    rw [List.foldl_cons, List.foldl_cons, ih, hstep]

/-- The server is the server of the run without a ledger. -/
theorem run_server (env : OtaEnv) (content : ℕ → UInt8) (es : List HttpEvent) :
    (run env content es).server = Server.run env content es :=
  foldl_server env (init content) es

end Tracked

/-! ## Who owns a slot -/

/-- No slot changes hands, and the connections keep their slots. -/
structure SameOwners (s s' : Server) : Prop where
  reverse : s'.reverse = s.reverse
  inuse : ∀ j, (s'.clients j).inuse = (s.clients j).inuse
  conn : ∀ j, (s'.clients j).conn = (s.clients j).conn

namespace SameOwners

variable {s s' s'' : Server}

theorem refl (s : Server) : SameOwners s s := ⟨rfl, fun _ => rfl, fun _ => rfl⟩

theorem trans (h : SameOwners s s') (h' : SameOwners s' s'') : SameOwners s s'' :=
  ⟨h'.reverse.trans h.reverse, fun j => (h'.inuse j).trans (h.inuse j), fun j => (h'.conn j).trans (h.conn j)⟩

/-- Slot `i` is rewritten and keeps its owner. -/
theorem of_update {i : Slot} {c : HttpClient} (hclients : s'.clients = Function.update s.clients i c)
    (hreverse : s'.reverse = s.reverse) (hinuse : c.inuse = (s.clients i).inuse)
    (hconn : c.conn = (s.clients i).conn) : SameOwners s s' := by
  refine ⟨hreverse, fun j => ?_, fun j => ?_⟩
  · rw [hclients]
    by_cases hj : j = i
    · subst hj
      rw [Function.update_self, hinuse]
    · rw [Function.update_of_ne hj]
  · rw [hclients]
    by_cases hj : j = i
    · subst hj
      rw [Function.update_self, hconn]
    · rw [Function.update_of_ne hj]

end SameOwners

/-! ### The handlers -/

theorem otaFlush_client (r : OtaRun) : (otaFlush r).1.client = r.client := by
  unfold otaFlush
  dsimp only
  split
  · split <;> rfl
  · rfl

theorem otaLoop_owner (fuel : ℕ) (r : OtaRun) :
    (otaLoop fuel r).1.client.inuse = r.client.inuse ∧ (otaLoop fuel r).1.client.conn = r.client.conn := by
  induction fuel generalizing r with
  | zero => exact ⟨rfl, rfl⟩
  | succ fuel ih =>
    rw [otaLoop]
    split
    swap
    · exact ⟨rfl, rfl⟩
    have htake := otaTake_same r
    dsimp only
    split
    swap
    · exact ⟨(ih _).1.trans htake.inuse, (ih _).2.trans htake.conn⟩
    have hflush := otaFlush_client (otaTake r)
    rcases hr : otaFlush (otaTake r) with ⟨r₁, _ | e⟩
    · rw [hr] at hflush
      dsimp only at hflush ⊢
      rw [(ih r₁).1, (ih r₁).2, hflush]
      exact ⟨htake.inuse, htake.conn⟩
    · rw [hr] at hflush
      dsimp only at hflush ⊢
      rw [hflush]
      exact ⟨htake.inuse, htake.conn⟩

theorem otaPush_owner (env : OtaEnv) (i : Slot) (r : OtaRun) :
    (otaPush env i r).1.client.inuse = r.client.inuse ∧ (otaPush env i r).1.client.conn = r.client.conn := by
  have hdata : ∀ r : OtaRun, (otaData env r).1.client.inuse = r.client.inuse ∧
      (otaData env r).1.client.conn = r.client.conn := by
    intro r
    have hloop := otaLoop_owner (2 * r.client.bufused + 2) r
    rw [otaData]
    rcases hr : otaLoop (2 * r.client.bufused + 2) r with ⟨r₁, _ | e⟩
    · rw [hr] at hloop
      dsimp only at hloop ⊢
      split
      · exact hloop
      · rw [(otaComplete_same env r₁).1.client]
        exact hloop
    · rw [hr] at hloop
      exact hloop
  rw [otaPush]
  rcases (if r.client.postused = 0 then otaBegin env i r.client r.ota else (r.ota, none)) with ⟨ota, _ | e⟩
  · dsimp only
    split
    · exact ⟨rfl, rfl⟩
    · exact hdata _
  · exact ⟨rfl, rfl⟩

theorem otherUrl_owner (other : OtherReply) (c : HttpClient) :
    (Server.otherUrl other c).1.inuse = c.inuse ∧ (Server.otherUrl other c).1.conn = c.conn := by
  have hignore : (ignorePostdata c).1.inuse = c.inuse ∧ (ignorePostdata c).1.conn = c.conn := by
    rw [ignorePostdata]
    split
    · dsimp only
      split <;> exact ⟨rfl, rfl⟩
    · exact ⟨rfl, rfl⟩
  rw [Server.otherUrl]
  rcases hi : ignorePostdata c with ⟨c', b⟩
  rw [hi] at hignore
  cases b with
  | true => exact hignore
  | false =>
    dsimp only
    split
    · exact hignore
    · exact hignore

/-! ### The callbacks -/

namespace Server

/-- What a call for slot `i` sends: nothing, or one page on the connection of the slot. -/
def Answers (s s' : Server) (i : Slot) : Prop :=
  s'.sent = s.sent ∨ ∃ page, s'.sent = ((s.clients i).conn, page) :: s.sent

theorem send_answers (s : Server) (conn : Option ℕ) (page : Option String) :
    (s.send conn page).sent = s.sent ∨ ∃ p, (s.send conn page).sent = (conn, p) :: s.sent := by
  cases page with
  | none => exact Or.inl rfl
  | some p => exact Or.inr ⟨p, rfl⟩

theorem send_owners (s : Server) (conn : Option ℕ) (page : Option String) : SameOwners s (s.send conn page) := by
  cases page with
  | none => exact SameOwners.refl s
  | some p => exact ⟨rfl, fun _ => rfl, fun _ => rfl⟩

theorem post_owners (s : Server) (conn : ℕ) : SameOwners s (s.post conn) ∧ (s.post conn).sent = s.sent := by
  unfold post
  split
  · exact ⟨⟨rfl, fun _ => rfl, fun _ => rfl⟩, rfl⟩
  · exact ⟨SameOwners.refl s, rfl⟩

theorem pushUrl_owners (env : OtaEnv) (s : Server) (i : Slot) (replies : List FlashReply) :
    SameOwners s (s.pushUrl env i replies).1 ∧ s.Answers (s.pushUrl env i replies).1 i := by
  have howner := otaPush_owner env i ⟨s.clients i, s.ota, { s.dev with replies }⟩
  rcases hcall : s.callPush env i replies with ⟨r, result⟩
  rw [callPush] at hcall
  rw [hcall] at howner
  have hcommit : SameOwners s (s.commit i r) := SameOwners.of_update rfl rfl howner.1 howner.2
  have hsend := hcommit.trans (send_owners (s.commit i r) r.client.conn result.response)
  have hpage : s.Answers ((s.commit i r).send r.client.conn result.response) i := by
    have hanswers := send_answers (s.commit i r) r.client.conn result.response
    rw [howner.2] at hanswers ⊢
    exact hanswers
  rw [pushUrl, callPush, hcall]
  cases result with
  | pending => exact ⟨hsend, hpage⟩
  | accepted => exact ⟨hsend.trans ⟨rfl, fun _ => rfl, fun _ => rfl⟩, hpage⟩
  | rejected e => exact ⟨hsend, hpage⟩
  | crashed => exact ⟨hsend.trans ⟨rfl, fun _ => rfl, fun _ => rfl⟩, hpage⟩

theorem handle_owners (env : OtaEnv) (s : Server) (i : Slot) (replies : List FlashReply) (other : OtherReply) :
    SameOwners s (s.handle env i replies other).1 ∧ s.Answers (s.handle env i replies other).1 i := by
  rw [handle]
  rcases httpDispatch (s.clients i) with e | url
  · exact ⟨⟨rfl, fun _ => rfl, fun _ => rfl⟩, Or.inl rfl⟩
  rcases url with _ | url
  · exact ⟨SameOwners.refl s, Or.inl rfl⟩
  dsimp only
  split
  · exact pushUrl_owners env s i replies
  have howner := otherUrl_owner other (s.clients i)
  rcases hother : otherUrl other (s.clients i) with ⟨client, reply⟩
  rw [hother] at howner
  have hset : SameOwners s (s.setClient i client) := SameOwners.of_update rfl rfl howner.1 howner.2
  have hanswers := send_answers (s.setClient i client) client.conn reply.page
  refine ⟨hset.trans (send_owners _ _ _), ?_⟩
  rw [howner.2] at hanswers
  dsimp only
  rw [howner.2]
  exact hanswers

theorem process_owners (env : OtaEnv) (s : Server) (i : Slot) (outside : Mem) (replies : List FlashReply)
    (other : OtherReply) :
    SameOwners s (s.process env i outside replies other).1 ∧
      s.Answers (s.process env i outside replies other).1 i := by
  rw [process]
  split
  swap
  · exact handle_owners env s i replies other
  rcases hheaders : httpHeaders outside (s.clients i) with e | ⟨client, r⟩
  · exact ⟨⟨rfl, fun _ => rfl, fun _ => rfl⟩, Or.inl rfl⟩
  rcases httpHeaders_spec hheaders with ⟨hconn, hinuse, -⟩
  cases r with
  | incomplete => exact ⟨SameOwners.of_update rfl rfl hinuse hconn, Or.inl rfl⟩
  | bad w => exact ⟨SameOwners.of_update rfl rfl hinuse hconn, Or.inl rfl⟩
  | complete =>
    have henter : SameOwners s (s.enter i client) := SameOwners.of_update rfl rfl hinuse hconn
    rcases handle_owners env (s.enter i client) i replies other with ⟨howners, hanswers⟩
    refine ⟨henter.trans howners, ?_⟩
    rw [Answers, henter.conn i] at hanswers
    exact hanswers

/-- A recv callback leaves the slots with their owners and answers at most once, on the connection
that owns the slot. -/
theorem recvCb_owners (env : OtaEnv) (s : Server) (conn : ℕ) (data : List UInt8) (outside : Mem)
    (replies : List FlashReply) (other : OtherReply) :
    SameOwners s (s.recvCb env conn data outside replies other) ∧
      ((s.recvCb env conn data outside replies other).sent = s.sent ∨
        ∃ i, s.reverse conn = some i ∧ (s.clients i).bufused + data.length ≤ 2048 ∧
          s.Answers (s.recvCb env conn data outside replies other) i) := by
  rw [recvCb]
  rcases hrev : s.reverse conn with _ | i
  · exact ⟨(post_owners s conn).1, Or.inl (post_owners s conn).2⟩
  dsimp only
  split
  · exact ⟨(post_owners s conn).1, Or.inl (post_owners s conn).2⟩
  rename_i hroom
  have htake : SameOwners s (s.take i data) := SameOwners.of_update rfl rfl rfl rfl
  rcases process_owners env (s.take i data) i outside replies other with ⟨howners, hanswers⟩
  rw [Answers, htake.conn i] at hanswers
  have hall := htake.trans howners
  rcases hproc : (s.take i data).process env i outside replies other with ⟨s₁, b⟩
  rw [hproc] at hall hanswers
  cases b with
  | false => exact ⟨hall, Or.inr ⟨i, rfl, by omega, hanswers⟩⟩
  | true =>
    have hpost := post_owners s₁ conn
    refine ⟨hall.trans hpost.1, Or.inr ⟨i, rfl, by omega, ?_⟩⟩
    rw [Answers]
    dsimp only
    rw [hpost.2]
    exact hanswers

theorem freeSlot_free {s : Server} {i : Slot} (h : s.freeSlot = some i) : (s.clients i).inuse = false := by
  have hfound := List.find?_some h
  simpa using hfound

end Server

/-! ## The ledger and the slots -/

namespace Tracked

variable {env : OtaEnv} {t : Tracked} {e : HttpEvent}

/-- An open connection that was given a slot still has it; one that was refused has none. -/
structure Linked (t : Tracked) : Prop where
  given : ∀ conn x, t.ledger conn = some x → x.given = true → ∃ i, t.server.reverse conn = some i ∧
    (t.server.clients i).inuse = true ∧ (t.server.clients i).conn = some conn
  refused : ∀ conn x, t.ledger conn = some x → x.given = false → t.server.reverse conn = none

theorem init_linked (content : ℕ → UInt8) : (init content).Linked := by
  constructor
  · intro conn x hx
    cases hx
  · intro conn x hx
    cases hx

/-- A callback that moves no slot and neither opens a connection nor changes who was given one. -/
theorem Linked.of_owners (h : t.Linked) {s' : Server} {l' : Ledger} (howners : SameOwners t.server s')
    (hledger : ∀ conn x, l' conn = some x → ∃ y, t.ledger conn = some y ∧ y.given = x.given) :
    Linked ⟨s', l'⟩ := by
  constructor
  · intro conn x hx hgiven
    rcases hledger conn x hx with ⟨y, hy, hsame⟩
    rcases h.given conn y hy (hsame.trans hgiven) with ⟨i, hrev, hinuse, hconn⟩
    refine ⟨i, ?_, ?_, ?_⟩
    · rw [howners.reverse, hrev]
    · rw [howners.inuse, hinuse]
    · rw [howners.conn, hconn]
  · intro conn x hx hgiven
    rcases hledger conn x hx with ⟨y, hy, hsame⟩
    show s'.reverse conn = none
    rw [howners.reverse]
    exact h.refused conn y hy (hsame.trans hgiven)

theorem update_none {l : Ledger} {conn conn' : ℕ} {x : Session} (h : Function.update l conn none conn' = some x) :
    conn' ≠ conn ∧ l conn' = some x := by
  by_cases hc : conn' = conn
  · subst hc
    rw [Function.update_self] at h
    cases h
  · rw [Function.update_of_ne hc] at h
    exact ⟨hc, h⟩

/-- The task changes nothing in the ledger but the mark of the connection it kills. -/
theorem task_session {s s' : Server} {l : Ledger} {conn : ℕ} {x : Session}
    (h : l.next s s' .task conn = some x) :
    ∃ y, l conn = some y ∧ y.given = x.given ∧ x.responses ≤ y.responses := by
  unfold Ledger.next at h
  dsimp only at h
  rcases hq : s.queue with _ | ⟨k, rest⟩
  · rw [hq] at h
    exact ⟨x, h, rfl, le_rfl⟩
  rw [hq] at h
  dsimp only at h
  by_cases hk : conn = k
  · subst hk
    rw [Function.update_self] at h
    rcases Option.map_eq_some_iff.mp h with ⟨y, hy, rfl⟩
    exact ⟨y, hy, rfl, le_rfl⟩
  · rw [Function.update_of_ne hk] at h
    exact ⟨x, h, rfl, le_rfl⟩

theorem answered_given (n : ℕ) (x : Session) : (x.answered n).given = x.given := by
  unfold Session.answered
  split <;> rfl

/-- What a connect callback leaves: a fresh slot linked to the connection, or no link. -/
theorem connCb_cases (s : Server) (conn : ℕ) (registered : Bool) :
    ((registered && s.freeSlot.isSome) = true ∧ ∃ i, (s.clients i).inuse = false ∧
      (s.connCb conn registered).reverse = Function.update s.reverse conn (some i) ∧
      (s.connCb conn registered).clients
        = Function.update s.clients i { HttpClient.zero with inuse := true, conn := some conn }) ∨
    ((registered && s.freeSlot.isSome) = false ∧
      (s.connCb conn registered).reverse = Function.update s.reverse conn none ∧
      (s.connCb conn registered).clients = s.clients) := by
  have hpost : ∀ s₁ : Server, (s₁.post conn).reverse = s₁.reverse ∧ (s₁.post conn).clients = s₁.clients := by
    intro s₁
    unfold Server.post
    split <;> exact ⟨rfl, rfl⟩
  unfold Server.connCb
  cases registered with
  | false => exact Or.inr ⟨rfl, hpost _⟩
  | true =>
    have hfree : Server.freeSlot { s with reverse := Function.update s.reverse conn none } = s.freeSlot := rfl
    dsimp only
    rw [if_pos rfl, hfree]
    rcases hslot : s.freeSlot with _ | i
    · exact Or.inr ⟨rfl, hpost _⟩
    · refine Or.inl ⟨rfl, i, Server.freeSlot_free hslot, ?_, rfl⟩
      dsimp only
      rw [Function.update_idem]

theorem linked_connect (h : t.Linked) {conn : ℕ} (registered : Bool) (s' : Server)
    (hs : s' = t.server.connCb conn registered) :
    Linked ⟨s', t.ledger.next t.server s' (.connect conn registered)⟩ := by
  subst hs
  rcases connCb_cases t.server conn registered with ⟨hg, i, hfree, hrev, hclients⟩ | ⟨hg, hrev, hclients⟩
  · constructor
    · intro conn' x hx hgiven
      -- a slot was free: the new session has it, and no old session had it
      dsimp only [Ledger.next] at hx ⊢
      rw [hrev, hclients]
      by_cases hc : conn' = conn
      · subst hc
        refine ⟨i, Function.update_self .., ?_, ?_⟩
        · rw [Function.update_self]
        · rw [Function.update_self]
      · rw [Function.update_of_ne hc] at hx ⊢
        rcases h.given conn' x hx hgiven with ⟨j, hj, hinuse, hconn⟩
        have hne : j ≠ i := by
          rintro rfl
          rw [hfree] at hinuse
          cases hinuse
        refine ⟨j, hj, ?_, ?_⟩
        · rw [Function.update_of_ne hne, hinuse]
        · rw [Function.update_of_ne hne, hconn]
    · intro conn' x hx hgiven
      dsimp only [Ledger.next] at hx ⊢
      rw [hrev]
      by_cases hc : conn' = conn
      · subst hc
        rw [Function.update_self, Option.some.injEq] at hx
        rw [← hx, hg] at hgiven
        cases hgiven
      · rw [Function.update_of_ne hc] at hx ⊢
        exact h.refused conn' x hx hgiven
  · constructor
    · intro conn' x hx hgiven
      -- no slot was free, and the new session is refused
      dsimp only [Ledger.next] at hx ⊢
      rw [hrev, hclients]
      by_cases hc : conn' = conn
      · subst hc
        rw [Function.update_self, Option.some.injEq] at hx
        rw [← hx, hg] at hgiven
        cases hgiven
      · rw [Function.update_of_ne hc] at hx ⊢
        exact h.given conn' x hx hgiven
    · intro conn' x hx hgiven
      dsimp only [Ledger.next] at hx ⊢
      rw [hrev]
      by_cases hc : conn' = conn
      · subst hc
        exact Function.update_self ..
      · rw [Function.update_of_ne hc] at hx ⊢
        exact h.refused conn' x hx hgiven

theorem linked_disconnect (h : t.Linked) {conn : ℕ} (hopen : t.ledger conn ≠ none) :
    Linked ⟨t.server.disconnCb conn, Function.update t.ledger conn none⟩ := by
  have hothers : Linked ⟨t.server, Function.update t.ledger conn none⟩ :=
    h.of_owners (SameOwners.refl _) fun conn' x hx => ⟨x, (update_none hx).2, rfl⟩
  unfold Server.disconnCb
  rcases hrev : t.server.reverse conn with _ | i
  · exact hothers
  constructor
  · intro conn' x hx hgiven
    have hne := (update_none hx).1
    rcases hothers.given conn' x hx hgiven with ⟨j, hj, hinuse, hconn⟩
    -- the slot that is freed belongs to the connection that ends
    have hji : j ≠ i := by
      rintro rfl
      rcases Option.ne_none_iff_exists'.mp hopen with ⟨y, hy⟩
      cases hg : y.given with
      | true =>
        rcases h.given conn y hy hg with ⟨i', hi', -, hconn'⟩
        rw [hrev, Option.some.injEq] at hi'
        subst hi'
        rw [hconn', Option.some.injEq] at hconn
        exact hne hconn.symm
      | false =>
        rw [h.refused conn y hy hg] at hrev
        cases hrev
    have hclients : (t.server.setClient i { t.server.clients i with inuse := false }).clients j
        = t.server.clients j := Function.update_of_ne hji ..
    refine ⟨j, hj, ?_, ?_⟩
    · dsimp only
      rw [hclients, hinuse]
    · dsimp only
      rw [hclients, hconn]
  · exact hothers.refused

theorem paramStore_owners (env : OtaEnv) (s : Server) (left : ℕ → UInt8) :
    SameOwners s (s.paramStore env left) := by
  unfold Server.paramStore
  split
  · exact SameOwners.refl s
  · exact ⟨rfl, fun _ => rfl, fun _ => rfl⟩

theorem otaReboot_owners (s : Server) : SameOwners s s.otaReboot := by
  unfold Server.otaReboot
  split
  · exact ⟨rfl, fun _ => rfl, fun _ => rfl⟩
  · exact SameOwners.refl s

theorem step_linked (hallowed : t.Allowed e) (h : t.Linked) : (step env t e).Linked := by
  unfold step
  by_cases hstop : t.server.crashed || t.server.rebooting
  · rw [if_pos hstop]
    exact h
  rw [if_neg hstop]
  have hserver : ∀ e', t.server.step env e' = _ := fun e' => if_neg hstop
  rw [hserver e]
  cases e with
  | connect conn registered => exact linked_connect h registered _ rfl
  | recv conn data outside replies other =>
    apply h.of_owners (Server.recvCb_owners env t.server conn data outside replies other).1
    intro conn' x hx
    rcases Option.map_eq_some_iff.mp hx with ⟨y, hy, rfl⟩
    exact ⟨y, hy, (answered_given _ y).symm⟩
  | disconnect conn => exact linked_disconnect h hallowed
  | error conn err =>
    apply h.of_owners (SameOwners.refl _)
    exact fun conn' x hx => ⟨x, (update_none hx).2, rfl⟩
  | task =>
    have howners : SameOwners t.server { t.server with queue := t.server.queue.tail } :=
      ⟨rfl, fun _ => rfl, fun _ => rfl⟩
    apply h.of_owners howners
    intro conn x hx
    rcases task_session hx with ⟨y, hy, hgiven, -⟩
    exact ⟨y, hy, hgiven⟩
  | reboot => exact h.of_owners (otaReboot_owners _) fun conn x hx => ⟨x, hx, rfl⟩
  | paramStore left => exact h.of_owners (paramStore_owners _ _ _) fun conn x hx => ⟨x, hx, rfl⟩

/-- In every run the SDK can make, the connections that were given a slot still have it. -/
theorem run_linked (content : ℕ → UInt8) {es : List HttpEvent}
    (hes : Runs.Along (step env) Allowed (init content) es) : (run env content es).Linked :=
  Runs.foldl_inv_along (fun _ _ hallowed h => step_linked hallowed h) (init_linked content) hes

end Tracked
end Esp8266Toolbox
