import Esp8266Toolbox.Lib.Bytes
import Esp8266Toolbox.Lib.Loops
import Mathlib.Data.List.TakeWhile

/-!
# C strings

Strings are byte lists; what lies behind the end of a list reads as the terminator. `Mem` is
a region of memory that is read byte by byte and may refuse.
-/

namespace Esp8266Toolbox

/-- The bytes of a text. -/
def ascii (s : String) : List UInt8 := s.toList.map fun c => UInt8.ofNat c.toNat

def CR : UInt8 := 0x0d
def LF : UInt8 := 0x0a
def SP : UInt8 := 0x20

/-- The end of a line. -/
def crlf : List UInt8 := [CR, LF]

/-- The string that starts at the head of `bs`. -/
def cstr (bs : List UInt8) : List UInt8 := bs.takeWhile (· ≠ 0)

/-- `strncmp(a, b, n)`. -/
def strncmp : List UInt8 → List UInt8 → ℕ → ℤ
  | _, _, 0 => 0
  | a, b, n + 1 =>
    if a.headD 0 ≠ b.headD 0 then ((a.headD 0).toNat : ℤ) - (b.headD 0).toNat
    else if a.headD 0 = 0 then 0
    else strncmp a.tail b.tail n

/-- `memcmp(a, b, n)`. -/
def memcmp : List UInt8 → List UInt8 → ℕ → ℤ
  | _, _, 0 => 0
  | a, b, n + 1 =>
    if a.headD 0 ≠ b.headD 0 then ((a.headD 0).toNat : ℤ) - (b.headD 0).toNat
    else memcmp a.tail b.tail n

/-- `strstr(hay, needle)` on texts: the first place where `needle` starts. -/
def strstr (hay needle : List UInt8) : Option ℕ :=
  (List.range (hay.length + 1)).find? fun i => decide (needle <+: hay.drop i)

/-- On arrays of `n` bytes, `strncmp` compares the strings they hold. -/
theorem strncmp_eq_zero_iff {a b : List UInt8} {n : ℕ} (ha : a.length = n) (hb : b.length = n) :
    strncmp a b n = 0 ↔ cstr a = cstr b := by
  induction n generalizing a b with
  | zero =>
    rw [List.length_eq_zero_iff.mp ha, List.length_eq_zero_iff.mp hb]
    simp [strncmp]
  | succ n ih =>
    rcases a with _ | ⟨x, a⟩
    · simp at ha
    rcases b with _ | ⟨y, b⟩
    · simp at hb
    have hrest := ih (a := a) (b := b) (by simpa using ha) (by simpa using hb)
    simp only [strncmp, List.headD_cons, List.tail_cons, cstr, List.takeWhile_cons] at hrest ⊢
    by_cases hxy : x = y
    · subst hxy
      by_cases hx : x = 0
      · simp [hx]
      · simp only [ne_eq, not_true_eq_false, hx, if_false, not_false_eq_true, decide_true, if_true,
          List.cons.injEq, true_and]
        exact hrest
    · -- the first difference decides, unless it lies behind both strings
      have hne : (x.toNat : ℤ) - y.toNat ≠ 0 := by
        intro h0
        apply hxy
        apply UInt8.toNat_inj.mp
        omega
      simp only [ne_eq, hxy, not_false_eq_true, if_true, hne, false_iff]
      by_cases hx : x = 0
      · have hy : y ≠ 0 := fun hy => hxy (hx.trans hy.symm)
        simp [hx, hy]
      · by_cases hy : y = 0
        · simp [hx, hy]
        · simp [hx, hy, hxy]

/-- Against a text without a terminator, `strncmp` compares byte by byte. -/
theorem strncmp_eq_zero_iff_take {a b : List UInt8} {n : ℕ} (ha : n ≤ a.length) (hb : n ≤ b.length)
    (hb0 : 0 ∉ b) : strncmp a b n = 0 ↔ a.take n = b.take n := by
  induction n generalizing a b with
  | zero => simp [strncmp]
  | succ n ih =>
    rcases a with _ | ⟨x, a⟩
    · simp at ha
    rcases b with _ | ⟨y, b⟩
    · simp at hb
    have hy0 : y ≠ 0 := fun h => hb0 (by simp [h])
    have hrest := ih (a := a) (b := b) (by simpa using ha) (by simpa using hb)
      (fun h => hb0 (List.mem_cons_of_mem y h))
    simp only [strncmp, List.headD_cons, List.tail_cons, List.take_succ_cons, List.cons.injEq]
    by_cases hxy : x = y
    · subst hxy
      simp only [ne_eq, not_true_eq_false, hy0, if_false, true_and]
      exact hrest
    · have hne : (x.toNat : ℤ) - y.toNat ≠ 0 := by
        intro h0
        apply hxy
        apply UInt8.toNat_inj.mp
        omega
      simp [hxy, hne]

theorem cstr_length_lt {bs : List UInt8} (h : 0 ∈ bs) : (cstr bs).length < bs.length := by
  induction bs with
  | nil => simp at h
  | cons b bs ih =>
    by_cases hb : b = 0
    · simp [cstr, hb]
    · have h' : 0 ∈ bs := by simpa [Ne.symm hb] using h
      rw [cstr, List.takeWhile_cons_of_pos (by simpa using hb), List.length_cons, List.length_cons]
      exact Nat.succ_lt_succ (ih h')

/-- The byte behind the string. -/
theorem getD_cstr_length {bs : List UInt8} : bs.getD (cstr bs).length 0 = 0 := by
  induction bs with
  | nil => rfl
  | cons b bs ih =>
    by_cases hb : b = 0
    · simp [cstr, hb]
    · rw [cstr, List.takeWhile_cons_of_pos (by simpa using hb), List.length_cons, List.getD_cons_succ]
      exact ih

/-! ## The first place of a text -/

theorem strstr_eq_some_iff {hay needle : List UInt8} {i : ℕ} :
    strstr hay needle = some i ↔
      i ≤ hay.length ∧ needle <+: hay.drop i ∧ ∀ j < i, ¬needle <+: hay.drop j := by
  rw [strstr, List.find?_range_eq_some]
  simp only [decide_eq_true_eq, List.mem_range, Bool.not_eq_true', decide_eq_false_iff_not, Nat.lt_succ_iff]
  exact and_left_comm

theorem strstr_eq_none_iff {hay needle : List UInt8} (h : needle ≠ []) :
    strstr hay needle = none ↔ ∀ i, ¬needle <+: hay.drop i := by
  rw [strstr, List.find?_range_eq_none]
  simp only [Bool.not_eq_true', decide_eq_false_iff_not]
  constructor
  · intro hnone i hi
    by_cases hle : i < hay.length + 1
    · exact hnone i hle hi
    · rw [List.drop_of_length_le (by omega), List.prefix_nil] at hi
      exact h hi
  · exact fun hnone i _ => hnone i

/-- A text that is found is inside. -/
theorem strstr_add_le {hay needle : List UInt8} {i : ℕ} (h : strstr hay needle = some i) :
    i + needle.length ≤ hay.length := by
  obtain ⟨hi, hpre, -⟩ := strstr_eq_some_iff.mp h
  have hlen := hpre.length_le
  rw [List.length_drop] at hlen
  omega

/-- A text is found at the same place when more bytes follow. -/
theorem strstr_append {hay needle : List UInt8} {i : ℕ} (h : strstr hay needle = some i) (rest : List UInt8) :
    strstr (hay ++ rest) needle = some i := by
  have hle := strstr_add_le h
  obtain ⟨hi, hpre, hfirst⟩ := strstr_eq_some_iff.mp h
  rw [strstr_eq_some_iff]
  refine ⟨by rw [List.length_append]; omega, ?_, ?_⟩
  · rw [List.drop_append_of_le_length hi]
    exact hpre.trans (List.prefix_append _ _)
  · intro j hj hfound
    -- an earlier place would be inside the first bytes as well
    apply hfirst j hj
    rw [List.drop_append_of_le_length (by omega)] at hfound
    exact List.prefix_of_prefix_length_le hfound (List.prefix_append _ _) (by rw [List.length_drop]; omega)

/-- A text that is found inside the first bytes is found there. -/
theorem strstr_of_append {hay rest needle : List UInt8} {i : ℕ} (h : strstr (hay ++ rest) needle = some i)
    (hin : i + needle.length ≤ hay.length) : strstr hay needle = some i := by
  obtain ⟨-, hpre, hfirst⟩ := strstr_eq_some_iff.mp h
  rw [strstr_eq_some_iff]
  refine ⟨by omega, ?_, ?_⟩
  · rw [List.drop_append_of_le_length (by omega)] at hpre
    exact List.prefix_of_prefix_length_le hpre (List.prefix_append _ _) (by rw [List.length_drop]; omega)
  · intro j hj hfound
    apply hfirst j hj
    rw [List.drop_append_of_le_length (by omega)]
    exact hfound.trans (List.prefix_append _ _)

theorem strstr_none_of_append {hay rest needle : List UInt8} (h : strstr (hay ++ rest) needle = none) :
    strstr hay needle = none := by
  by_contra hne
  obtain ⟨i, hi⟩ := Option.ne_none_iff_exists'.mp hne
  rw [strstr_append hi rest] at h
  cases h

/-- The first end of a line is behind a text without CR. -/
theorem strstr_crlf {front : List UInt8} (h : CR ∉ front) (rest : List UInt8) :
    strstr (front ++ crlf ++ rest) crlf = some front.length := by
  rw [strstr_eq_some_iff]
  refine ⟨by simp, ?_, ?_⟩
  · rw [List.append_assoc, List.drop_left]
    exact List.prefix_append _ _
  · rintro j hj ⟨tail, htail⟩
    apply h
    rw [List.append_assoc, List.drop_append_of_le_length (by omega)] at htail
    have hne : front.drop j ≠ [] := by
      rw [ne_eq, List.drop_eq_nil_iff]
      omega
    obtain ⟨c, cs, hcs⟩ := List.exists_cons_of_ne_nil hne
    simp only [hcs, crlf, List.cons_append, List.cons.injEq] at htail
    have hmem : c ∈ front.drop j := by
      rw [hcs]
      exact List.mem_cons_self
    rw [← htail.1] at hmem
    exact List.mem_of_mem_drop hmem

theorem cstr_append {a : List UInt8} (h : 0 ∉ a) (b : List UInt8) : cstr (a ++ b) = a ++ cstr b := by
  rw [cstr, List.takeWhile_append_of_pos]
  · rfl
  · intro c hc
    have hne : c ≠ 0 := by
      rintro rfl
      exact h hc
    simpa using hne

/-- A text without terminators is a string. -/
theorem cstr_eq_self {s : List UInt8} (h : 0 ∉ s) : cstr s = s := by
  have happend := cstr_append h []
  rwa [List.append_nil, show cstr [] = [] from rfl, List.append_nil] at happend

/-- A string that ends inside its array is read from there alone. -/
theorem cstr_append_of_mem {a b : List UInt8} (h : 0 ∈ a) : cstr (a ++ b) = cstr a := by
  induction a with
  | nil => simp at h
  | cons x a ih =>
    rw [List.cons_append, cstr, cstr, List.takeWhile_cons, List.takeWhile_cons]
    split
    · rename_i hx
      have hmem : (0 : UInt8) ∈ a := by
        rcases List.mem_cons.mp h with h0 | hmem
        · subst h0
          simp at hx
        · exact hmem
      have hrest := ih hmem
      unfold cstr at hrest
      rw [hrest]
    · rfl

/-- Against the whole of a text, `strncmp` looks whether the other string begins with it. -/
theorem strncmp_length_eq_zero_iff {a b : List UInt8} (hb : 0 ∉ b) : strncmp a b b.length = 0 ↔ b <+: a := by
  induction b generalizing a with
  | nil => simp [strncmp]
  | cons y b ih =>
    simp only [List.mem_cons, not_or] at hb
    rw [List.length_cons, strncmp, List.headD_cons]
    rcases a with _ | ⟨x, a⟩
    · -- the terminator of `a` is reached first
      have hy : y.toNat ≠ 0 := fun h0 => hb.1 (UInt8.toNat_inj.mp h0).symm
      rw [List.headD_nil, if_pos hb.1]
      simp [hy]
    · rw [List.headD_cons, List.tail_cons, List.tail_cons, List.cons_prefix_cons]
      by_cases hxy : x = y
      · rw [if_neg (not_not_intro hxy), hxy, if_neg (Ne.symm hb.1), ih hb.2]
        simp
      · have hne : (x.toNat : ℤ) - y.toNat ≠ 0 := by
          intro h0
          apply hxy
          apply UInt8.toNat_inj.mp
          omega
        simp [hxy, hne, Ne.symm hxy]

/-- A text without terminators is compared byte by byte. -/
theorem strncmp_eq_zero_iff_starts {a b : List UInt8} (ha : 0 ∉ a) (hb : a.length ≤ b.length) :
    strncmp a b a.length = 0 ↔ a <+: b := by
  induction a generalizing b with
  | nil => simp [strncmp]
  | cons x a ih =>
    rcases b with _ | ⟨y, b⟩
    · simp at hb
    simp only [List.mem_cons, not_or] at ha
    have hrest := ih (b := b) ha.2 (by simpa using hb)
    simp only [List.length_cons, strncmp, List.headD_cons, List.tail_cons, List.cons_prefix_cons]
    by_cases hxy : x = y
    · subst hxy
      simp only [ne_eq, not_true_eq_false, Ne.symm ha.1, if_false, true_and]
      exact hrest
    · have hne : (x.toNat : ℤ) - y.toNat ≠ 0 := by
        intro h0
        apply hxy
        apply UInt8.toNat_inj.mp
        omega
      simp [hxy, hne]

/-! ## Memory -/

/-- Reading memory at an offset. -/
abbrev Mem := ℕ → Except Fault UInt8

/-- A C array and what the program finds outside of it. -/
def Buf.mem {n : ℕ} (b : Buf n) (outside : Mem) : Mem :=
  fun i => if i < n then .ok (b.get i) else outside i

/-- `len` bytes from `off` on. -/
def readBytes (rd : Mem) (off : ℕ) : ℕ → Except Fault (List UInt8)
  | 0 => .ok []
  | len + 1 => do
    let c ← rd off
    let cs ← readBytes rd (off + 1) len
    return c :: cs

theorem readBytes_length {rd : Mem} {off len : ℕ} {bs : List UInt8} (h : readBytes rd off len = .ok bs) :
    bs.length = len := by
  induction len generalizing off bs with
  | zero =>
    rw [readBytes, Except.ok.injEq] at h
    rw [← h, List.length_nil]
  | succ len ih =>
    rw [readBytes] at h
    rcases Loops.bind_eq_ok h with ⟨c, -, h⟩
    rcases Loops.bind_eq_ok h with ⟨cs, hcs, h⟩
    cases h
    rw [List.length_cons, ih hcs]

/-- The memory holds `bs` from `off` on. -/
def Reads (rd : Mem) : ℕ → List UInt8 → Prop
  | _, [] => True
  | off, b :: bs => rd off = .ok b ∧ Reads rd (off + 1) bs

theorem reads_append {rd : Mem} {off : ℕ} {a b : List UInt8} :
    Reads rd off (a ++ b) ↔ Reads rd off a ∧ Reads rd (off + a.length) b := by
  induction a generalizing off with
  | nil => simp [Reads]
  | cons x a ih =>
    have hoff : off + 1 + a.length = off + (x :: a).length := by
      rw [List.length_cons]
      omega
    rw [List.cons_append, Reads, Reads, ih, hoff, and_assoc]

theorem Reads.left {rd : Mem} {off : ℕ} {a b : List UInt8} (h : Reads rd off (a ++ b)) : Reads rd off a :=
  (reads_append.mp h).1

theorem Reads.right {rd : Mem} {off : ℕ} {a b : List UInt8} (h : Reads rd off (a ++ b)) :
    Reads rd (off + a.length) b :=
  (reads_append.mp h).2

theorem Reads.of_get {rd : Mem} {off : ℕ} {bs : List UInt8}
    (h : ∀ i, i < bs.length → rd (off + i) = .ok (bs.getD i 0)) : Reads rd off bs := by
  induction bs generalizing off with
  | nil => trivial
  | cons b bs ih =>
    refine ⟨?_, ih ?_⟩
    · simpa using h 0 (by simp)
    · intro i hi
      have hnext := h (i + 1) (by simpa using hi)
      rw [List.getD_cons_succ] at hnext
      rw [← hnext]
      congr 1
      omega

/-- An array holds its bytes. -/
theorem Buf.reads {n : ℕ} (b : Buf n) (outside : Mem) : Reads (b.mem outside) 0 b.toList := by
  apply Reads.of_get
  intro i hi
  rw [Buf.length_toList] at hi
  rw [Nat.zero_add, Buf.mem, if_pos hi]
  rfl

theorem readBytes_reads {rd : Mem} {off : ℕ} {bs : List UInt8} (h : Reads rd off bs) :
    readBytes rd off bs.length = .ok bs := by
  induction bs generalizing off with
  | nil => rfl
  | cons b bs ih =>
    rw [List.length_cons, readBytes, h.1, ih h.2]
    rfl

/-- More bytes than the chip has memory: a scan that gets this far has faulted. -/
def ramSize : ℕ := 2 ^ 17

/-- `isspace` of the C locale. -/
def isspace (c : UInt8) : Bool := c = SP || (0x09 ≤ c && c ≤ 0x0d)

def isdigit (c : UInt8) : Bool := 0x30 ≤ c && c ≤ 0x39

/-- The first offset from `off` on whose byte does not satisfy `p`. -/
def scanWhile (rd : Mem) (p : UInt8 → Bool) : ℕ → ℕ → Except Fault ℕ
  | 0, _ => .error .outOfBounds
  | fuel + 1, off => do
    let c ← rd off
    if p c then scanWhile rd p fuel (off + 1) else return off

theorem scanWhile_reads {rd : Mem} {p : UInt8 → Bool} {fuel off : ℕ} {bs : List UInt8} {c : UInt8}
    (h : Reads rd off (bs ++ [c])) (hbs : ∀ b ∈ bs, p b = true) (hc : p c = false)
    (hfuel : bs.length < fuel) : scanWhile rd p fuel off = .ok (off + bs.length) := by
  induction bs generalizing off fuel with
  | nil =>
    rcases fuel with _ | fuel
    · omega
    rw [scanWhile, h.1]
    simp only [Loops.ok_bind, hc]
    rfl
  | cons b bs ih =>
    rcases fuel with _ | fuel
    · omega
    have hrest := ih h.2 (fun x hx => hbs x (List.mem_cons_of_mem b hx)) (by simpa using hfuel)
    rw [scanWhile, h.1]
    simp only [Loops.ok_bind, hbs b List.mem_cons_self, if_true]
    rw [hrest, List.length_cons]
    congr 1
    omega

/-- The number a string of decimal digits denotes. -/
def decNat (ds : List UInt8) : ℕ := ds.foldl (fun acc d => acc * 10 + (d.toNat - 48)) 0

/-- `atoi`: white space, a sign, digits; the value saturates as `strtol` does on 32 bits. -/
def atoi (rd : Mem) (off : ℕ) : Except Fault ℤ := do
  let p ← scanWhile rd isspace ramSize off
  let c ← rd p
  let q := if c = 0x2d || c = 0x2b then p + 1 else p
  let r ← scanWhile rd isdigit ramSize q
  let ds ← readBytes rd q (r - q)
  let v : ℤ := if c = 0x2d then -(decNat ds : ℤ) else decNat ds
  return max (-2 ^ 31) (min (2 ^ 31 - 1) v)

/-- The value of a text that does not start with white space: a sign and digits. -/
def decValue (v : List UInt8) : ℤ :=
  let c := v.headD 0
  let ds := (if c = 0x2d || c = 0x2b then v.tail else v).takeWhile isdigit
  max (-2 ^ 31) (min (2 ^ 31 - 1) (if c = 0x2d then -(decNat ds : ℤ) else decNat ds))

/-- `atoi` of a string. -/
def atoiStr (v : List UInt8) : ℤ := decValue (v.dropWhile isspace)

/-- A list splits where its first byte without `p` is. -/
theorem split_takeWhile (p : UInt8 → Bool) {v : List UInt8} {c : UInt8} (hc : p c = false) :
    ∃ d rest, v ++ [c] = v.takeWhile p ++ d :: rest ∧ p d = false := by
  induction v with
  | nil => exact ⟨c, [], rfl, hc⟩
  | cons x v ih =>
    by_cases hx : p x = true
    · rcases ih with ⟨d, rest, heq, hd⟩
      refine ⟨d, rest, ?_, hd⟩
      rw [List.takeWhile_cons, if_pos hx, List.cons_append, List.cons_append, heq]
    · exact ⟨x, v ++ [c], by simp [hx], by simpa using hx⟩

/-- `atoi` of a text in memory, up to the byte behind it. -/
theorem atoi_reads {rd : Mem} {off : ℕ} {x : UInt8} {v : List UInt8} {c : UInt8}
    (h : Reads rd off (x :: v ++ [c])) (hx : isspace x = false) (hc : isdigit c = false)
    (hlen : v.length + 2 < ramSize) : atoi rd off = .ok (decValue (x :: v)) := by
  have hfirst : Reads rd off ([] ++ [x]) := ⟨h.1, trivial⟩
  have hskip : scanWhile rd isspace ramSize off = .ok off :=
    scanWhile_reads hfirst (by simp) hx (by simp; omega)
  -- the digits, in `w`, start at `q`
  have hdigits : ∀ (q : ℕ) (w : List UInt8), Reads rd q (w ++ [c]) → w.length + 1 < ramSize →
      ∃ r, scanWhile rd isdigit ramSize q = .ok r ∧ readBytes rd q (r - q) = .ok (w.takeWhile isdigit) := by
    intro q w hw hshort
    rcases split_takeWhile isdigit (v := w) hc with ⟨d, rest, heq, hd⟩
    rw [heq] at hw
    have hlenw : (w.takeWhile isdigit).length ≤ w.length := (List.takeWhile_prefix isdigit).length_le
    have hw' : Reads rd q (w.takeWhile isdigit ++ [d]) := by
      rw [← List.singleton_append, ← List.append_assoc] at hw
      exact hw.left
    refine ⟨q + (w.takeWhile isdigit).length, ?_, ?_⟩
    · apply scanWhile_reads hw' _ hd (by omega)
      intro b hb
      exact List.mem_takeWhile_imp hb
    · rw [Nat.add_sub_cancel_left]
      exact readBytes_reads hw'.left
  rw [atoi, hskip]
  simp only [Loops.ok_bind, h.1]
  unfold decValue
  by_cases hminus : x = 0x2d
  · rcases hdigits (off + 1) v h.2 (by omega) with ⟨r, hr, hread⟩
    simp [hminus, hr, Loops.ok_bind, hread]
  · by_cases hplus : x = 0x2b
    · rcases hdigits (off + 1) v h.2 (by omega) with ⟨r, hr, hread⟩
      simp [hplus, hr, Loops.ok_bind, hread]
    · rcases hdigits off (x :: v) h (by simp; omega) with ⟨r, hr, hread⟩
      simp [hminus, hplus, hr, Loops.ok_bind, hread]

/-- `atoi` starts where the white space ends. -/
theorem atoi_skip {rd : Mem} {off : ℕ} {sp : List UInt8} {x : UInt8} (h : Reads rd off (sp ++ [x]))
    (hsp : ∀ b ∈ sp, isspace b = true) (hx : isspace x = false) (hlen : sp.length < ramSize) :
    atoi rd off = atoi rd (off + sp.length) := by
  have hskip := scanWhile_reads h hsp hx hlen
  have hstay : scanWhile rd isspace ramSize (off + sp.length) = .ok (off + sp.length) := by
    have hfirst : Reads rd (off + sp.length) ([] ++ [x]) := h.right
    exact scanWhile_reads hfirst (by simp) hx (by decide)
  rw [atoi, atoi, hskip, hstay]

/-- `atoi` of a text in memory that is not all white space, up to the byte behind it. -/
theorem atoi_text {rd : Mem} {off : ℕ} {v : List UInt8} {c : UInt8} (h : Reads rd off (v ++ [c]))
    (hv : ∃ x ∈ v, isspace x = false) (hc : isdigit c = false) (hlen : v.length + 2 < ramSize) :
    atoi rd off = .ok (atoiStr v) := by
  have hsplit : v.takeWhile isspace ++ v.dropWhile isspace = v := List.takeWhile_append_dropWhile
  rcases hback : v.dropWhile isspace with _ | ⟨x, rest⟩
  · obtain ⟨x, hx, hno⟩ := hv
    rw [List.dropWhile_eq_nil_iff.mp hback x hx] at hno
    cases hno
  have hno := List.dropWhile_get_zero_not isspace v (by rw [hback]; simp)
  have hx : isspace x = false := by simpa [hback] using hno
  rw [hback] at hsplit
  have hsum := congrArg List.length hsplit
  simp only [List.length_append, List.length_cons] at hsum
  rw [← hsplit, List.append_assoc] at h
  have hfirst : Reads rd off (v.takeWhile isspace ++ [x]) := reads_append.mpr ⟨h.left, h.right.1, trivial⟩
  rw [atoi_skip hfirst (fun b hb => List.mem_takeWhile_imp hb) hx (by omega),
    atoi_reads h.right hx hc (by omega), atoiStr, hback]

/-- `atoi` comes to an end if something stops it. -/
theorem atoi_ok {rd : Mem} {off : ℕ} {s : List UInt8} {c : UInt8} (h : Reads rd off (s ++ [c]))
    (hspace : isspace c = false) (hdigit : isdigit c = false) (hsign : c ≠ 0x2d ∧ c ≠ 0x2b)
    (hlen : s.length + 2 < ramSize) : ∃ n, atoi rd off = .ok n := by
  by_cases hs : ∃ x ∈ s, isspace x = false
  · exact ⟨_, atoi_text h hs hdigit hlen⟩
  · -- white space up to the byte that stops the scan: the number is empty
    have hall : ∀ b ∈ s, isspace b = true := by
      intro b hb
      by_contra hno
      exact hs ⟨b, hb, by simpa using hno⟩
    have hat : rd (off + s.length) = .ok c := h.right.1
    have hfirst : Reads rd (off + s.length) ([] ++ [c]) := h.right
    have hstay := scanWhile_reads hfirst (by simp) hspace (by decide : ([] : List UInt8).length < ramSize)
    have hdigits := scanWhile_reads hfirst (by simp) hdigit (by decide : ([] : List UInt8).length < ramSize)
    rw [List.length_nil, Nat.add_zero] at hstay hdigits
    rw [atoi_skip h hall hspace (by omega), atoi, hstay]
    simp only [Loops.ok_bind, hat, hsign.1, hsign.2, decide_false, Bool.or_false, Bool.false_eq_true, if_false,
      hdigits, Nat.sub_self, readBytes]
    exact ⟨_, rfl⟩

end Esp8266Toolbox
