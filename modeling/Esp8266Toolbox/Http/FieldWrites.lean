import Esp8266Toolbox.Http.Process

/-!
# The string copies of `http_process`

The three arrays that `http_process` copies strings into, and every byte it writes there: the
string at the front of the array and a terminator behind it. `url`, `host` and `buf` follow one
another in the client record, so a terminator behind one array changes the next.
-/

namespace Esp8266Toolbox

/-- An array that a string is copied into. -/
inductive Field where
  | url
  | host
  | baseurl
deriving DecidableEq, Repr

/-- `sizeof` of the array. -/
def Field.size : Field → ℕ
  | .url => 256
  | .host => 64
  | .baseurl => 128

/-- A string and the array it is copied into. -/
structure FieldCopy where
  field : Field
  token : List UInt8
deriving DecidableEq, Repr

/-- One byte written to an array. -/
structure FieldWrite where
  field : Field
  index : ℕ
  byte : UInt8
deriving DecidableEq, Repr

/-- `os_memcpy(field, token, n)` or `os_strncpy(field, token, n)`, and `field[n] = 0`. -/
def FieldCopy.writes (p : FieldCopy) : List FieldWrite :=
  (indexed 0 (p.token ++ [0])).map fun w => ⟨p.field, w.1, w.2⟩

/-- What a write changes in the client record; `baseurl` is a local variable. -/
def FieldWrite.apply (client : HttpClient) (w : FieldWrite) : HttpClient :=
  match w.field with
  | .url =>
    if w.index < 256 then { client with url := client.url.set w.index w.byte }
    else { client with host := client.host.set (w.index - 256) w.byte }
  | .host =>
    if w.index < 64 then { client with host := client.host.set w.index w.byte }
    else { client with buf := client.buf.set (w.index - 64) w.byte }
  | .baseurl => client

/-- The client record after the writes of a list of copies. -/
def applyCopies (client : HttpClient) (copies : List FieldCopy) : HttpClient :=
  (copies.flatMap FieldCopy.writes).foldl FieldWrite.apply client

/-! ## The copies of a request -/

/-- The copies of the request line. -/
def requestCopies (rd : Mem) (buf nextline : ℕ) : Except Fault (List FieldCopy) := do
  match ← parsetoken rd buf (ptrDiff nextline buf) with
  | none => return []
  | some (token, nexttoken) =>
    let word ← readBytes rd token (nexttoken - token)
    if tokenIs word "GET" || tokenIs word "POST" then
      match ← parsetoken rd nexttoken (ptrDiff nextline nexttoken) with
      | none => return []
      | some (token, nexttoken) =>
        if nexttoken - token > 256 then return []
        else
          let url ← readBytes rd token (nexttoken - token)
          return [⟨.url, url⟩]
    else return []

/-- The copies of a header line. -/
def headerCopies (rd : Mem) (buf nextline : ℕ) : Except Fault (List FieldCopy) := do
  match ← parsetoken rd buf (ptrDiff nextline buf) with
  | none => return []
  | some (token, nexttoken) =>
    let word ← readBytes rd token (nexttoken - token)
    if tokenIs word "Host:" then
      match ← parsetoken rd nexttoken (ptrDiff nextline nexttoken) with
      | none => return []
      | some (token, nexttoken) =>
        if nexttoken - token > 64 then return []
        else
          let host ← readBytes rd token (nexttoken - token)
          return [⟨.host, host⟩]
    else return []

/-- The copies made before a fault, if there is one. -/
def made : Except Fault (List FieldCopy) → List FieldCopy
  | .ok copies => copies
  | .error _ => []

/-- The copies of the loop over the header lines. -/
def loopCopies (rd : Mem) : ℕ → HttpClient → ℕ → ℕ → List FieldCopy
  | 0, _, _, _ => []
  | fuel + 1, client, buf, len =>
    match blankLine rd buf len, parseline rd buf len with
    | .ok false, .ok (some nextline) =>
      made (headerCopies rd buf nextline) ++
        match headerLine rd client buf nextline with
        | .ok (client, .complete) => loopCopies rd fuel client nextline len
        | _ => []
    | _, _ => []

/-- The copies of the header section. -/
def sectionCopies (outside : Mem) (client : HttpClient) : List FieldCopy :=
  let rd := client.buf.mem outside
  match parseline rd 0 client.bufused with
  | .ok (some nextline) =>
    made (requestCopies rd 0 nextline) ++
      match requestLine rd client 0 nextline with
      | .ok (client', .complete) => loopCopies rd ramSize client' nextline client'.bufused
      | _ => []
  | _ => []

/-- The copy of the base url, when it passes the length check. -/
def baseurlCopies (client : HttpClient) : List FieldCopy :=
  if client.baseurl.length > 128 then [] else [⟨.baseurl, client.baseurl⟩]

/-- All copies of one call of `http_process`. -/
def httpCopies (outside : Mem) (client : HttpClient) : List FieldCopy :=
  if client.state = .headers then
    sectionCopies outside client ++
      match httpHeaders outside client with
      | .ok (client, .complete) => baseurlCopies client
      | _ => []
  else baseurlCopies client

/-- All writes of one call of `http_process` to the three arrays. -/
def httpWrites (outside : Mem) (client : HttpClient) : List FieldWrite :=
  (httpCopies outside client).flatMap FieldCopy.writes

/-! ## What the copies leave -/

/-- Copying a string writes the indices up to its length. -/
theorem FieldCopy.writes_in_bounds (p : FieldCopy) :
    (∀ w ∈ p.writes, w.index < w.field.size) ↔ p.token.length < p.field.size := by
  have hindices : (∀ w ∈ p.writes, w.index < w.field.size)
      ↔ ∀ i ∈ (indexed 0 (p.token ++ [0])).map Prod.fst, i < p.field.size := by
    rw [FieldCopy.writes, List.forall_mem_map, List.forall_mem_map]
  rw [hindices, indexed_indices]
  constructor
  · intro h
    apply h
    simp
  · intro h i hi
    simp at hi
    omega

theorem foldl_apply_url (c : HttpClient) (ws : List (ℕ × UInt8)) (h : ∀ w ∈ ws, w.1 < 256) :
    (ws.map fun w => FieldWrite.mk .url w.1 w.2).foldl FieldWrite.apply c
      = { c with url := ws.foldl (fun b w => b.set w.1 w.2) c.url } := by
  induction ws generalizing c with
  | nil => rfl
  | cons w ws ih =>
    have hw : w.1 < 256 := h w (List.mem_cons_self ..)
    rw [List.map_cons, List.foldl_cons, ih _ fun w' hw' => h w' (List.mem_cons_of_mem w hw'), List.foldl_cons]
    simp [FieldWrite.apply, hw]

theorem foldl_apply_host (c : HttpClient) (ws : List (ℕ × UInt8)) (h : ∀ w ∈ ws, w.1 < 64) :
    (ws.map fun w => FieldWrite.mk .host w.1 w.2).foldl FieldWrite.apply c
      = { c with host := ws.foldl (fun b w => b.set w.1 w.2) c.host } := by
  induction ws generalizing c with
  | nil => rfl
  | cons w ws ih =>
    have hw : w.1 < 64 := h w (List.mem_cons_self ..)
    rw [List.map_cons, List.foldl_cons, ih _ fun w' hw' => h w' (List.mem_cons_of_mem w hw'), List.foldl_cons]
    simp [FieldWrite.apply, hw]

theorem indexed_lt {token : List UInt8} {n : ℕ} (h : token.length ≤ n) :
    ∀ w ∈ indexed 0 token, w.1 < n := by
  intro w hw
  have hmem : w.1 ∈ (indexed 0 token).map Prod.fst := List.mem_map_of_mem hw
  rw [indexed_indices] at hmem
  simp at hmem
  omega

/-- A url that passes the length check, copied. -/
theorem applyCopies_url (c : HttpClient) {url : List UInt8} (h : url.length ≤ 256) :
    applyCopies c [⟨.url, url⟩]
      = if url.length < 256 then { c with url := (c.url.memcpy 0 url).set url.length 0 }
        else { c with url := c.url.memcpy 0 url, host := c.host.set 0 0 } := by
  have hwrites : FieldCopy.writes ⟨.url, url⟩
      = (indexed 0 url).map (fun w => FieldWrite.mk .url w.1 w.2) ++ [⟨.url, url.length, 0⟩] := by
    simp [FieldCopy.writes, indexed_append, indexed]
  rw [applyCopies, List.flatMap_singleton, hwrites, List.foldl_append, foldl_apply_url c _ (indexed_lt h),
    Buf.foldl_indexed, List.foldl_cons, List.foldl_nil, FieldWrite.apply]
  by_cases hlt : url.length < 256
  · simp [hlt]
  · simp [show url.length = 256 by omega]

/-- A host that passes the length check, copied. -/
theorem applyCopies_host (c : HttpClient) {host : List UInt8} (h : host.length ≤ 64) :
    applyCopies c [⟨.host, host⟩]
      = if host.length < 64 then { c with host := (c.host.memcpy 0 host).set host.length 0 }
        else { c with host := c.host.memcpy 0 host, buf := c.buf.set 0 0 } := by
  have hwrites : FieldCopy.writes ⟨.host, host⟩
      = (indexed 0 host).map (fun w => FieldWrite.mk .host w.1 w.2) ++ [⟨.host, host.length, 0⟩] := by
    simp [FieldCopy.writes, indexed_append, indexed]
  rw [applyCopies, List.flatMap_singleton, hwrites, List.foldl_append, foldl_apply_host c _ (indexed_lt h),
    Buf.foldl_indexed, List.foldl_cons, List.foldl_nil, FieldWrite.apply]
  by_cases hlt : host.length < 64
  · simp [hlt]
  · simp [show host.length = 64 by omega]

theorem applyCopies_append (c : HttpClient) (xs ys : List FieldCopy) :
    applyCopies c (xs ++ ys) = applyCopies (applyCopies c xs) ys := by
  rw [applyCopies, List.flatMap_append, List.foldl_append]
  rfl

/-- The same strings and the same buffer. -/
structure SameArrays (c d : HttpClient) : Prop where
  url : c.url = d.url
  host : c.host = d.host
  buf : c.buf = d.buf

theorem SameArrays.refl (c : HttpClient) : SameArrays c c := ⟨rfl, rfl, rfl⟩

theorem SameArrays.trans {c d e : HttpClient} (h : SameArrays c d) (h' : SameArrays d e) : SameArrays c e :=
  ⟨h.url.trans h'.url, h.host.trans h'.host, h.buf.trans h'.buf⟩

theorem FieldWrite.apply_same {c d : HttpClient} (h : SameArrays c d) (w : FieldWrite) :
    SameArrays (FieldWrite.apply c w) (FieldWrite.apply d w) := by
  rcases h with ⟨hurl, hhost, hbuf⟩
  unfold FieldWrite.apply
  cases w.field with
  | url =>
    dsimp only
    split
    · exact ⟨by rw [hurl], hhost, hbuf⟩
    · exact ⟨hurl, by rw [hhost], hbuf⟩
  | host =>
    dsimp only
    split
    · exact ⟨hurl, by rw [hhost], hbuf⟩
    · exact ⟨hurl, hhost, by rw [hbuf]⟩
  | baseurl => exact ⟨hurl, hhost, hbuf⟩

/-- The writes do not look at the other members. -/
theorem applyCopies_same {c d : HttpClient} (h : SameArrays c d) (copies : List FieldCopy) :
    SameArrays (applyCopies c copies) (applyCopies d copies) := by
  unfold applyCopies
  induction copies.flatMap FieldCopy.writes generalizing c d with
  | nil => exact h
  | cons w ws ih => exact ih (FieldWrite.apply_same h w)

/-! ## The parser makes these copies -/

/-- The request line copies nothing, or a url that fits but for its terminator. -/
theorem requestCopies_cases (rd : Mem) (buf nextline : ℕ) :
    made (requestCopies rd buf nextline) = [] ∨
      ∃ url, url.length ≤ 256 ∧ made (requestCopies rd buf nextline) = [⟨.url, url⟩] := by
  rcases hcopies : requestCopies rd buf nextline with e | copies
  · exact Or.inl rfl
  unfold requestCopies at hcopies
  rcases Loops.bind_eq_ok hcopies with ⟨t1, -, hcopies⟩
  rcases t1 with _ | ⟨token, nexttoken⟩
  · cases hcopies
    exact Or.inl rfl
  rcases Loops.bind_eq_ok hcopies with ⟨word, -, hcopies⟩
  split at hcopies
  swap
  · cases hcopies
    exact Or.inl rfl
  rcases Loops.bind_eq_ok hcopies with ⟨t2, -, hcopies⟩
  rcases t2 with _ | ⟨token, nexttoken⟩
  · cases hcopies
    exact Or.inl rfl
  dsimp only at hcopies
  split at hcopies
  · cases hcopies
    exact Or.inl rfl
  rcases Loops.bind_eq_ok hcopies with ⟨url, hurl, hcopies⟩
  cases hcopies
  have hlen := readBytes_length hurl
  exact Or.inr ⟨url, by omega, rfl⟩

/-- A header line copies nothing, or a host that fits but for its terminator. -/
theorem headerCopies_cases (rd : Mem) (buf nextline : ℕ) :
    made (headerCopies rd buf nextline) = [] ∨
      ∃ host, host.length ≤ 64 ∧ made (headerCopies rd buf nextline) = [⟨.host, host⟩] := by
  rcases hcopies : headerCopies rd buf nextline with e | copies
  · exact Or.inl rfl
  unfold headerCopies at hcopies
  rcases Loops.bind_eq_ok hcopies with ⟨t1, -, hcopies⟩
  rcases t1 with _ | ⟨token, nexttoken⟩
  · cases hcopies
    exact Or.inl rfl
  rcases Loops.bind_eq_ok hcopies with ⟨word, -, hcopies⟩
  split at hcopies
  swap
  · cases hcopies
    exact Or.inl rfl
  rcases Loops.bind_eq_ok hcopies with ⟨t2, -, hcopies⟩
  rcases t2 with _ | ⟨token, nexttoken⟩
  · cases hcopies
    exact Or.inl rfl
  dsimp only at hcopies
  split at hcopies
  · cases hcopies
    exact Or.inl rfl
  rcases Loops.bind_eq_ok hcopies with ⟨host, hhost, hcopies⟩
  cases hcopies
  have hlen := readBytes_length hhost
  exact Or.inr ⟨host, by omega, rfl⟩

/-- The request line makes its copies, and at least one when it is accepted. -/
theorem requestLine_copies {rd : Mem} {c c' : HttpClient} {buf nextline : ℕ} {r : Headers}
    (h : requestLine rd c buf nextline = .ok (c', r)) :
    SameArrays c' (applyCopies c (made (requestCopies rd buf nextline))) ∧
      (r = .complete → made (requestCopies rd buf nextline) ≠ []) := by
  unfold requestLine at h
  unfold requestCopies
  rcases Loops.bind_eq_ok h with ⟨t1, ht1, h⟩
  rw [ht1, Loops.ok_bind]
  rcases t1 with _ | ⟨token, nexttoken⟩
  · cases h
    exact ⟨SameArrays.refl _, by simp⟩
  rcases Loops.bind_eq_ok h with ⟨word, hword, h⟩
  dsimp only
  rw [hword, Loops.ok_bind]
  split at h
  swap
  · rename_i hmethod
    rw [if_neg hmethod]
    cases h
    exact ⟨SameArrays.refl _, by simp⟩
  rename_i hmethod
  rw [if_pos hmethod]
  rcases Loops.bind_eq_ok h with ⟨t2, ht2, h⟩
  rw [ht2, Loops.ok_bind]
  rcases t2 with _ | ⟨token, nexttoken⟩
  · cases h
    exact ⟨⟨rfl, rfl, rfl⟩, by simp⟩
  dsimp only at h ⊢
  split at h
  · -- an over-long url is turned down before the copy
    rename_i hlong
    rw [if_pos hlong]
    cases h
    exact ⟨⟨rfl, rfl, rfl⟩, by simp⟩
  rename_i hshort
  rw [if_neg hshort]
  rcases Loops.bind_eq_ok h with ⟨url, hurl, h⟩
  rw [hurl, Loops.ok_bind]
  have hlen : url.length ≤ 256 := by
    rw [readBytes_length hurl]
    omega
  cases h
  have happly : applyCopies c (made (Except.ok [⟨.url, url⟩])) = _ := applyCopies_url c hlen
  refine ⟨?_, fun _ => List.cons_ne_nil _ _⟩
  rw [show made (pure [⟨.url, url⟩]) = made (Except.ok [⟨.url, url⟩]) from rfl, happly]
  split <;> exact ⟨rfl, rfl, rfl⟩

/-- A header line makes its copies. -/
theorem headerLine_copies {rd : Mem} {c c' : HttpClient} {buf nextline : ℕ} {r : Headers}
    (h : headerLine rd c buf nextline = .ok (c', r)) :
    SameArrays c' (applyCopies c (made (headerCopies rd buf nextline))) := by
  unfold headerLine at h
  unfold headerCopies
  rcases Loops.bind_eq_ok h with ⟨t1, ht1, h⟩
  rw [ht1, Loops.ok_bind]
  rcases t1 with _ | ⟨token, nexttoken⟩
  · cases h
    exact SameArrays.refl _
  rcases Loops.bind_eq_ok h with ⟨word, hword, h⟩
  dsimp only
  rw [hword, Loops.ok_bind]
  split at h
  swap
  · -- not the `Host:` line: `Content-Length:` copies nothing
    rename_i hname
    rw [if_neg hname]
    split at h
    · rcases Loops.bind_eq_ok h with ⟨t2, -, h⟩
      rcases t2 with _ | ⟨token, nexttoken⟩
      · cases h
        exact SameArrays.refl _
      rcases Loops.bind_eq_ok h with ⟨v, -, h⟩
      cases h
      exact ⟨rfl, rfl, rfl⟩
    · cases h
      exact SameArrays.refl _
  rename_i hname
  rw [if_pos hname]
  rcases Loops.bind_eq_ok h with ⟨t2, ht2, h⟩
  rw [ht2, Loops.ok_bind]
  rcases t2 with _ | ⟨token, nexttoken⟩
  · cases h
    exact SameArrays.refl _
  dsimp only at h ⊢
  split at h
  · rename_i hlong
    rw [if_pos hlong]
    cases h
    exact SameArrays.refl _
  rename_i hshort
  rw [if_neg hshort]
  rcases Loops.bind_eq_ok h with ⟨host, hhost, h⟩
  rw [hhost, Loops.ok_bind]
  -- 64 bytes at most, so the copy stays within `host`
  have hlen : host.length ≤ 64 := by
    rw [readBytes_length hhost]
    omega
  cases h
  have happly : applyCopies c (made (Except.ok [⟨.host, host⟩])) = _ := applyCopies_host c hlen
  rw [show made (pure [⟨.host, host⟩]) = made (Except.ok [⟨.host, host⟩]) from rfl, happly]
  split <;> exact ⟨rfl, rfl, rfl⟩

/-- The loop over the header lines makes its copies. -/
theorem headerLoop_copies {rd : Mem} (fuel : ℕ) {c c' : HttpClient} {buf len buf' : ℕ} {r : Headers}
    (h : headerLoop rd fuel c buf len = .ok (c', r, buf')) :
    SameArrays c' (applyCopies c (loopCopies rd fuel c buf len)) := by
  induction fuel generalizing c buf len with
  | zero => cases h
  | succ fuel ih =>
    rw [headerLoop] at h
    rw [loopCopies]
    rcases Loops.bind_eq_ok h with ⟨b, hb, h⟩
    rw [hb]
    cases b with
    | true =>
      cases h
      exact SameArrays.refl _
    | false =>
      rcases Loops.bind_eq_ok h with ⟨l, hl, h⟩
      rw [hl]
      rcases l with _ | nextline
      · cases h
        exact SameArrays.refl _
      rcases Loops.bind_eq_ok h with ⟨⟨c₁, r₁⟩, hline, h⟩
      -- the copies of this line come before those of the lines behind it
      have hc₁ := headerLine_copies hline
      dsimp only at h ⊢
      rw [hline, applyCopies_append]
      split at h
      · rename_i hr
        subst hr
        rw [Nat.sub_self, Nat.sub_zero] at h
        exact (ih h).trans (applyCopies_same hc₁ _)
      · rename_i hr
        cases h
        cases r with
        | complete => exact absurd rfl hr
        | incomplete => exact hc₁
        | bad w => exact hc₁

theorem loopCopies_host (rd : Mem) (fuel : ℕ) (c : HttpClient) (buf len : ℕ) :
    ∀ p ∈ loopCopies rd fuel c buf len, p.field = .host ∧ p.token.length ≤ 64 := by
  induction fuel generalizing c buf len with
  | zero => simp [loopCopies]
  | succ fuel ih =>
    rw [loopCopies]
    split
    swap
    · simp
    intro p hp
    rcases List.mem_append.mp hp with hp | hp
    · rcases headerCopies_cases rd buf _ with hnone | ⟨host, hlen, hone⟩
      · rw [hnone] at hp
        cases hp
      · rw [hone, List.mem_singleton] at hp
        subst hp
        exact ⟨rfl, hlen⟩
    · split at hp
      · exact ih _ _ _ p hp
      · cases hp

/-- The header section copies at most one url, first, and then hosts. -/
theorem sectionCopies_cases (outside : Mem) (c : HttpClient) :
    ∃ urls hosts, sectionCopies outside c = urls ++ hosts ∧
      (urls = [] ∨ ∃ url, url.length ≤ 256 ∧ urls = [⟨.url, url⟩]) ∧
      ∀ p ∈ hosts, p.field = .host ∧ p.token.length ≤ 64 := by
  unfold sectionCopies
  dsimp only
  split
  swap
  · exact ⟨[], [], rfl, Or.inl rfl, by simp⟩
  refine ⟨_, _, rfl, requestCopies_cases _ _ _, ?_⟩
  split
  · exact loopCopies_host _ _ _ _ _
  · simp

theorem applyCopies_hosts_url (c : HttpClient) {hosts : List FieldCopy} (h : ∀ p ∈ hosts, p.field = .host) :
    (applyCopies c hosts).url = c.url := by
  have hwrites : ∀ w ∈ hosts.flatMap FieldCopy.writes, w.field = .host := by
    intro w hw
    rcases List.mem_flatMap.mp hw with ⟨p, hp, hw⟩
    rcases List.mem_map.mp hw with ⟨v, -, rfl⟩
    exact h p hp
  unfold applyCopies
  generalize hosts.flatMap FieldCopy.writes = ws at hwrites
  induction ws generalizing c with
  | nil => rfl
  | cons w ws ih =>
    have hw : w.field = .host := hwrites w (List.mem_cons_self ..)
    rw [List.foldl_cons, ih _ fun v hv => hwrites v (List.mem_cons_of_mem w hv), FieldWrite.apply, hw]
    dsimp only
    split <;> rfl

/-- A parsed header section leaves in `url` and `host` what the writes leave; a complete one has
copied a url. -/
theorem httpHeaders_copies {outside : Mem} {c c' : HttpClient} {r : Headers}
    (h : httpHeaders outside c = .ok (c', r)) :
    c'.url = (applyCopies c (sectionCopies outside c)).url ∧
      c'.host = (applyCopies c (sectionCopies outside c)).host ∧
      (r = .complete → ∃ url hosts, url.length ≤ 256 ∧ sectionCopies outside c = ⟨.url, url⟩ :: hosts ∧
        ∀ p ∈ hosts, p.field = .host ∧ p.token.length ≤ 64) := by
  unfold httpHeaders at h
  unfold sectionCopies
  dsimp only at h ⊢
  rcases Loops.bind_eq_ok h with ⟨l, hl, h⟩
  rw [hl]
  rcases l with _ | nextline
  · cases h
    exact ⟨rfl, rfl, by simp⟩
  rcases Loops.bind_eq_ok h with ⟨⟨c₁, r₁⟩, hreq, h⟩
  rcases requestLine_copies hreq with ⟨hc₁, hurl⟩
  dsimp only at h ⊢
  rw [hreq, applyCopies_append]
  split at h
  swap
  · rename_i hr
    cases h
    cases r with
    | complete => exact absurd rfl hr
    | incomplete => exact ⟨hc₁.url, hc₁.host, by simp⟩
    | bad w => exact ⟨hc₁.url, hc₁.host, by simp⟩
  rename_i hr
  subst hr
  rcases Loops.bind_eq_ok h with ⟨⟨c₂, r₂, buf⟩, hloop, h⟩
  have hc₂ := (headerLoop_copies _ hloop).trans (applyCopies_same hc₁ _)
  dsimp only at h ⊢
  split at h
  swap
  · rename_i hr
    cases h
    exact ⟨hc₂.url, hc₂.host, fun hr' => absurd hr' hr⟩
  split at h
  · cases h
  cases h
  refine ⟨hc₂.url, hc₂.host, fun _ => ?_⟩
  -- a complete section had a request line, which made the first copy
  rcases requestCopies_cases (c.buf.mem outside) 0 nextline with hnone | ⟨url, hlen, hone⟩
  · exact absurd hnone (hurl rfl)
  · rw [hone]
    exact ⟨url, _, hlen, rfl, loopCopies_host _ _ _ _ _⟩

/-! ## The base url -/

/-- A string up to its `?` or its terminator. -/
def basePart (s : List UInt8) : List UInt8 := s.takeWhile fun c => c ≠ 0x3f && c ≠ 0

theorem baseurl_applyCopies (c : HttpClient) {url : List UInt8} (h : url.length ≤ 256) :
    (applyCopies c [⟨.url, url⟩]).baseurl = basePart url := by
  rw [applyCopies_url c h]
  have hcopy : (c.url.memcpy 0 url).toList = url ++ c.url.toList.drop url.length := by
    rw [Buf.toList_memcpy _ (by omega), List.take_zero, List.nil_append, Nat.zero_add]
  by_cases hlt : url.length < 256
  · rw [if_pos hlt]
    unfold HttpClient.baseurl basePart
    dsimp only
    rw [Buf.toList_set _ hlt, hcopy, List.take_left]
    rw [List.takeWhile_append]
    split
    · rename_i hall
      have hall' : url.takeWhile (fun c => c ≠ 0x3f && c ≠ 0) = url :=
        (List.takeWhile_prefix _).eq_of_length hall
      rw [List.takeWhile_cons_of_neg (by simp), List.append_nil]
      exact hall'.symm
    · rfl
  · rw [if_neg hlt]
    unfold HttpClient.baseurl basePart
    dsimp only
    rw [hcopy, List.drop_of_length_le (by rw [c.url.length_toList]; omega), List.append_nil]

theorem httpHeaders_baseurl {outside : Mem} {c c' : HttpClient}
    (h : httpHeaders outside c = .ok (c', .complete)) :
    ∃ url, ⟨.url, url⟩ ∈ sectionCopies outside c ∧ c'.baseurl = basePart url ∧
      ∀ url', ⟨.url, url'⟩ ∈ sectionCopies outside c → url' = url := by
  rcases httpHeaders_copies h with ⟨hurl, -, hfirst⟩
  rcases hfirst rfl with ⟨url, hosts, hlen, hcopies, hhosts⟩
  refine ⟨url, by rw [hcopies]; exact List.mem_cons_self .., ?_, ?_⟩
  · rw [← baseurl_applyCopies c hlen, HttpClient.baseurl, hurl, hcopies, ← List.singleton_append,
      applyCopies_append, applyCopies_hosts_url _ fun p hp => (hhosts p hp).1]
    rfl
  · intro url' hmem
    rw [hcopies] at hmem
    rcases List.mem_cons.mp hmem with heq | hmem
    · cases heq
      rfl
    · have hfield := (hhosts _ hmem).1
      cases hfield

/-! ## The boundary lengths -/

/-- No url of 256 bytes and no host of 64 bytes is copied, and a request that is dispatched has no
base url of 128 bytes. -/
def NoBoundaryLength (outside : Mem) (client : HttpClient) : Prop :=
  if client.state = .headers then
    ∀ p ∈ sectionCopies outside client, p.token.length ≠ p.field.size ∧
      (p.field = .url → (∃ client', httpHeaders outside client = .ok (client', .complete)) →
        (basePart p.token).length ≠ 128)
  else client.baseurl.length ≠ 128

theorem baseurlCopies_in_bounds (c : HttpClient) :
    (∀ w ∈ (baseurlCopies c).flatMap FieldCopy.writes, w.index < w.field.size) ↔ c.baseurl.length ≠ 128 := by
  unfold baseurlCopies
  by_cases hlong : c.baseurl.length > 128
  · rw [if_pos hlong]
    simp
    omega
  · rw [if_neg hlong, List.flatMap_singleton, FieldCopy.writes_in_bounds]
    show c.baseurl.length < 128 ↔ _
    omega

theorem sectionCopies_in_bounds (outside : Mem) (c : HttpClient) :
    (∀ w ∈ (sectionCopies outside c).flatMap FieldCopy.writes, w.index < w.field.size)
      ↔ ∀ p ∈ sectionCopies outside c, p.token.length ≠ p.field.size := by
  have hle : ∀ p ∈ sectionCopies outside c, p.token.length ≤ p.field.size := by
    rcases sectionCopies_cases outside c with ⟨urls, hosts, hcopies, hurls, hhosts⟩
    intro p hp
    rw [hcopies] at hp
    rcases List.mem_append.mp hp with hp | hp
    · rcases hurls with rfl | ⟨url, hlen, rfl⟩
      · cases hp
      · rw [List.mem_singleton] at hp
        subst hp
        exact hlen
    · rw [(hhosts p hp).1]
      exact (hhosts p hp).2
  constructor
  · intro h p hp
    have hlt := p.writes_in_bounds.mp fun w hw => h w (List.mem_flatMap.mpr ⟨p, hp, hw⟩)
    omega
  · intro h w hw
    rcases List.mem_flatMap.mp hw with ⟨p, hp, hw⟩
    have hne := h p hp
    have hpl := hle p hp
    exact p.writes_in_bounds.mpr (by omega) w hw

/-- The writes of `http_process` stay inside the three arrays unless a string has exactly the
length of its array. -/
theorem http_fields_in_bounds_iff (outside : Mem) (client : HttpClient) :
    (∀ w ∈ httpWrites outside client, w.index < w.field.size) ↔ NoBoundaryLength outside client := by
  unfold httpWrites httpCopies NoBoundaryLength
  by_cases hstate : client.state = .headers
  swap
  · rw [if_neg hstate, if_neg hstate]
    exact baseurlCopies_in_bounds client
  rw [if_pos hstate, if_pos hstate, List.flatMap_append, List.forall_mem_append, sectionCopies_in_bounds,
    forall₂_and]
  apply and_congr_right
  intro _
  split
  · rename_i client' hcomplete
    rcases httpHeaders_baseurl hcomplete with ⟨url, hmem, hbase, honly⟩
    rw [baseurlCopies_in_bounds, hbase]
    constructor
    · rintro hne ⟨field, token⟩ hp hfield -
      cases hfield
      rw [honly token hp]
      exact hne
    · intro h
      exact h _ hmem rfl ⟨client', hcomplete⟩
  · rename_i hno
    simp only [List.flatMap_nil, List.not_mem_nil, false_imp_iff, implies_true, true_iff]
    intro p _ _ hcomplete
    rcases hcomplete with ⟨client', hcomplete⟩
    exact absurd hcomplete (hno client')

/-- A slot that holds the given bytes. -/
def HttpClient.holding (bs : List UInt8) : HttpClient :=
  { HttpClient.zero with buf := (Buf.zero _).memcpy 0 bs, bufused := bs.length }

/-- A url of 256 bytes, a host of 64 bytes and a base url of 128 bytes are terminated behind their
arrays. -/
theorem http_fields_overflow :
    (∃ w ∈ httpWrites (fun _ => .error .outOfBounds) (HttpClient.holding
      (ascii "GET /" ++ List.replicate 255 0x61 ++ ascii " HTTP/1.1\r\n\r\n")),
        w.field = .url ∧ w.field.size ≤ w.index) ∧
    (∃ w ∈ httpWrites (fun _ => .error .outOfBounds) (HttpClient.holding
      (ascii "GET / HTTP/1.1\r\nHost: " ++ List.replicate 64 0x61 ++ ascii "\r\n\r\n")),
        w.field = .host ∧ w.field.size ≤ w.index) ∧
    (∃ w ∈ httpWrites (fun _ => .error .outOfBounds) (HttpClient.holding
      (ascii "GET /" ++ List.replicate 127 0x61 ++ ascii " HTTP/1.1\r\n\r\n")),
        w.field = .baseurl ∧ w.field.size ≤ w.index) := by
  decide +kernel

end Esp8266Toolbox
