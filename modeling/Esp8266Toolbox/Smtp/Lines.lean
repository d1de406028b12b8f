import Esp8266Toolbox.Smtp.Client

/-!
# Lines in `inbuf`

Where `inbuf` ends in a terminator, `lineEnd` and `consume` are functions of the bytes: the line
ends at the first CRLF of the C string, and taking it out shifts the bytes in use to the front.
What lies behind them stays; a line longer than the bytes in use would make `inbufused` wrap,
and the move would leave the array.
-/

namespace Esp8266Toolbox

namespace Smtp

variable {s s' : Smtp}

/-- The bytes in use leave room for a terminator, and the last byte of `inbuf` is one. -/
structure Terminated (s : Smtp) : Prop where
  used : s.inbufused < 2048
  last : s.inbuf.get 2047 = 0

theorem Terminated.zero_mem (h : s.Terminated) : 0 ∈ s.inbuf.toList :=
  Buf.zero_mem (by norm_num) h.last

/-- The end of the first line. -/
theorem lineEnd_eq (h : 0 ∈ s.inbuf.toList) : s.lineEnd = .ok (strstr (cstr s.inbuf.toList) crlf) := by
  have hlen : (cstr s.inbuf.toList).length < 2048 := by
    have hlt := cstr_length_lt h
    rwa [s.inbuf.length_toList] at hlt
  -- the store of the terminator changes nothing
  have hput : s.inbuf.set (cstr s.inbuf.toList).length 0 = s.inbuf := by
    apply Buf.ext_get
    intro i
    rw [Buf.get_set]
    split_ifs with hi
    · rw [← hi.1, Buf.get, getD_cstr_length]
    · rfl
  rw [lineEnd, Buf.str_of_mem h, Loops.ok_bind, Buf.put_ok _ hlen, Loops.ok_bind, hput, Buf.str_of_mem h]
  rfl

/-- The line and its end are inside the array. -/
theorem lineEnd_add_two {e : ℕ} (h : 0 ∈ s.inbuf.toList) (he : s.lineEnd = .ok (some e)) : e + 2 < 2048 := by
  rw [lineEnd_eq h, Except.ok.injEq] at he
  have hle := strstr_add_le he
  have hlt := cstr_length_lt h
  rw [s.inbuf.length_toList] at hlt
  simp only [crlf, List.length_cons, List.length_nil] at hle
  omega

/-- Taking out bytes that are in use. -/
theorem consume_ok {e : ℕ} (hused : s.inbufused < 2048) (he : e ≤ s.inbufused) :
    s.consume e = .ok { s with
      inbuf := s.inbuf.memcpy 0 (s.inbuf.slice e (s.inbufused - e + 1)), inbufused := s.inbufused - e } := by
  have hsub : (s.inbufused + 65536 - e) % 65536 = s.inbufused - e := by omega
  have hlen : (s.inbuf.slice e (s.inbufused - e + 1)).length = s.inbufused - e + 1 := by
    simp [Buf.slice]
    omega
  unfold consume
  rw [hsub]
  dsimp only
  rw [Buf.load_ok _ (by omega), Loops.ok_bind, Buf.copy_ok _ (by omega)]
  rfl

/-- The bytes that are taken out are in use: otherwise the count wraps and the move leaves the
array. -/
theorem consume_eq_ok {e : ℕ} (hused : s.inbufused < 2048) (he : e ≤ 2048) (h : s.consume e = .ok s') :
    e ≤ s.inbufused ∧ s' = { s with
      inbuf := s.inbuf.memcpy 0 (s.inbuf.slice e (s.inbufused - e + 1)), inbufused := s.inbufused - e } := by
  by_cases hle : e ≤ s.inbufused
  · rw [consume_ok hused hle, Except.ok.injEq] at h
    exact ⟨hle, h.symm⟩
  · have hsub : (s.inbufused + 65536 - e) % 65536 = s.inbufused + 65536 - e := by omega
    unfold consume at h
    rw [hsub] at h
    dsimp only at h
    rw [Buf.load, if_neg (by omega)] at h
    cases h

theorem Terminated.consume {e : ℕ} (h : s.Terminated) (he : e ≤ 2048) (hs : s.consume e = .ok s') :
    s'.Terminated := by
  obtain ⟨hle, rfl⟩ := consume_eq_ok h.used he hs
  refine ⟨?_, ?_⟩
  · have hused := h.used
    dsimp only
    omega
  · have hused := h.used
    have hlen : (s.inbuf.slice e (s.inbufused - e + 1)).length = s.inbufused - e + 1 := by
      simp [Buf.slice]
      omega
    dsimp only
    rw [Buf.get_memcpy, if_pos (by norm_num), hlen]
    -- the last byte is moved only where nothing is taken out, and then onto itself
    split_ifs with hmoved
    · have hzero : e = 0 := by omega
      subst hzero
      have hlast := h.last
      rw [Buf.get] at hlast
      rw [Buf.slice, List.drop_zero, List.getD_eq_getElem?_getD, List.getElem?_take_of_lt (by omega),
        ← List.getD_eq_getElem?_getD]
      exact hlast
    · exact h.last

end Smtp
end Esp8266Toolbox
