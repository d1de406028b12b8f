import Esp8266Toolbox.Http.FormDecoding
import Esp8266Toolbox.Lib.Checked

/-!
# `url_decode` in the memory of its string

The decoder of `http/utils.c` as it works in place: it searches the string for a code, stores the
character over the `%` and moves the rest of the string, terminator included, two bytes to the
front. Every access is checked against the array.

* `decodeEntryAt_spec`: one entry of `map`, in an array that holds the string anywhere;
* `urlDecodeAt_spec`: the whole call does what `urlDecode` does, and touches the string only;
* `urlDecodeAt_normalForm`: what is left is what any other order of replacements ends with.
-/

namespace Esp8266Toolbox

open Relation (ReflTransGen)
open Loops

/-! ## The decoder -/

/-- The array, the variable `l`, and the number of substitutions, which the source does not count. -/
structure Decoding (n : ℕ) where
  buf : Buf n
  l : ℕ
  count : ℕ
deriving DecidableEq, Repr

/-- The body of the `for` loop for one entry of `map`, on the string at `s` and the flag `f`. A `size_t`
below zero is an error. -/
def decodeEntryAt {n : ℕ} (s : ℕ) (df : Decoding n × Bool) (e : List UInt8 × UInt8) :
    Except Fault (Decoding n × Bool) := do
  let text ← df.1.buf.str s
  match strstr text e.1 with
  | none => return df
  | some p =>
    let buf ← df.1.buf.put (s + p) e.2
    if p + 3 ≤ df.1.l then
      let tail ← buf.load (s + p + 3) (df.1.l - (p + 3))
      let buf ← buf.copy (s + p + 1) tail
      return (⟨buf, df.1.l - 2, df.1.count + 1⟩, true)
    else throw .outOfBounds

/-- The `for` loop. -/
def decodePassAt {n : ℕ} (s : ℕ) (d : Decoding n) : Except Fault (Decoding n × Bool) :=
  urlMap.foldlM (decodeEntryAt s) (d, false)

/-- The `while` loop, for at most `fuel` turns. -/
def urlDecodeLoopAt {n : ℕ} (s : ℕ) : ℕ → Decoding n → Except Fault (Decoding n)
  | 0, _ => .error .outOfBounds
  | fuel + 1, d => do
    let (d, f) ← decodePassAt s d
    if f then urlDecodeLoopAt s fuel d else return d

/-- `url_decode`. -/
def urlDecodeAt {n : ℕ} (buf : Buf n) (s : ℕ) : Except Fault (Decoding n) := do
  let text ← buf.str s
  urlDecodeLoopAt s (text.length + 1) ⟨buf, text.length + 1, 0⟩

/-! ## One entry -/

/-- The array holds the string `text` behind `front`, with `rest` behind its terminator. -/
def Buf.Holds {n : ℕ} (b : Buf n) (front text rest : List UInt8) : Prop :=
  0 ∉ text ∧ b.toList = front ++ text ++ 0 :: rest

theorem Buf.Holds.str {n : ℕ} {b : Buf n} {front text rest : List UInt8} (h : b.Holds front text rest) :
    b.str front.length = .ok text := by
  have hdrop : b.toList.drop front.length = text ++ 0 :: rest := by
    rw [h.2, List.append_assoc, List.drop_left]
  exact Buf.str_ok h.1 hdrop

/-- Moving the end of a list two places to the front leaves the last two elements behind. -/
theorem move_two {α : Type*} (x y : α) (v : List α) :
    ∃ z w, x :: y :: v = (x :: y :: v).take v.length ++ [z, w] := by
  obtain ⟨z, w, hzw⟩ : ∃ z w, (x :: y :: v).drop v.length = [z, w] := by
    have hlen : ((x :: y :: v).drop v.length).length = 2 := by simp; omega
    rcases hd : (x :: y :: v).drop v.length with _ | ⟨z, _ | ⟨w, _ | ⟨u, t⟩⟩⟩
    · rw [hd] at hlen; simp at hlen
    · rw [hd] at hlen; simp at hlen
    · exact ⟨z, w, rfl⟩
    · rw [hd] at hlen; simp at hlen
  exact ⟨z, w, by rw [← hzw, List.take_append_drop]⟩

/-- A code is overwritten by its character, and the rest of the string moves up behind it. -/
theorem substitute_spec (a v : List UInt8) (c x y z : UInt8) :
    ∃ stale : List UInt8, stale.length = 2 ∧ ∀ (n : ℕ) (b : Buf n) (front rest : List UInt8),
      b.toList = front ++ (a ++ [x, y, z] ++ v) ++ 0 :: rest →
        ∃ b₁ b₂, b.put (front.length + a.length) c = .ok b₁ ∧
          b₁.load (front.length + a.length + 3) (v.length + 1) = .ok (v ++ [0]) ∧
          b₁.copy (front.length + a.length + 1) (v ++ [0]) = .ok b₂ ∧
          b₂.toList = front ++ (a ++ c :: v) ++ 0 :: (stale ++ rest) := by
  obtain ⟨u, w, hmove⟩ := move_two y z (v ++ [0])
  refine ⟨[u, w], rfl, fun n b front rest hb => ?_⟩
  have hcode : b.toList = front ++ a ++ x :: (y :: z :: v ++ 0 :: rest) := by
    rw [hb]
    simp
  obtain ⟨b₁, hput, hb₁⟩ := b.put_over (front ++ a) (y :: z :: v ++ 0 :: rest) x c hcode
  rw [List.length_append] at hput
  have htail : b₁.toList = front ++ a ++ [c, y, z] ++ (v ++ [0]) ++ rest := by
    rw [hb₁]
    simp
  have hload := b₁.load_over (front ++ a ++ [c, y, z]) (v ++ [0]) rest htail
  -- the bytes that the tail is moved over: all of it but its last two
  have hover : b₁.toList = front ++ a ++ [c] ++ (y :: z :: (v ++ [0])).take (v ++ [0]).length ++ ([u, w] ++ rest) := by
    rw [hb₁, List.append_assoc (front ++ a ++ [c]), ← List.append_assoc _ [u, w] rest, ← hmove]
    simp
  obtain ⟨b₂, hcopy, hb₂⟩ := b₁.copy_over _ _ _ (v ++ [0]) hover (by simp; omega)
  simp only [List.length_append, List.length_cons, List.length_nil] at hload hcopy
  refine ⟨b₁, b₂, hput, hload, hcopy, ?_⟩
  rw [hb₂]
  simp

/-- In whatever array the string stands, `run` makes `y` of it and of the flag, in `k` substitutions, and
leaves the bytes `stale` behind it. -/
def StepsTo (run : ∀ n, ℕ → Decoding n × Bool → Except Fault (Decoding n × Bool)) (x y : List UInt8 × Bool)
    (stale : List UInt8) (k : ℕ) : Prop :=
  stale.length = 2 * k ∧ y.1.length + 2 * k = x.1.length ∧
    ∀ (n : ℕ) (b : Buf n) (front rest : List UInt8) (count : ℕ), b.Holds front x.1 rest →
      ∃ b', run n front.length (⟨b, x.1.length + 1, count⟩, x.2) = .ok (⟨b', y.1.length + 1, count + k⟩, y.2) ∧
        b'.Holds front y.1 (stale ++ rest)

theorem StepsTo.refl (x : List UInt8 × Bool) : StepsTo (fun _ _ df => .ok df) x x [] 0 :=
  ⟨rfl, by omega, fun _ b _ _ _ h => ⟨b, rfl, h⟩⟩

theorem StepsTo.trans {run run' : ∀ n, ℕ → Decoding n × Bool → Except Fault (Decoding n × Bool)}
    {x y z : List UInt8 × Bool} {stale stale' : List UInt8} {k k' : ℕ} (h : StepsTo run x y stale k)
    (h' : StepsTo run' y z stale' k') :
    StepsTo (fun n s df => run n s df >>= run' n s) x z (stale' ++ stale) (k + k') := by
  obtain ⟨hstale, hlen, hrun⟩ := h
  obtain ⟨hstale', hlen', hrun'⟩ := h'
  refine ⟨by rw [List.length_append]; omega, by omega, fun n b front rest count hb => ?_⟩
  obtain ⟨b₁, hb₁, hholds₁⟩ := hrun n b front rest count hb
  obtain ⟨b₂, hb₂, hholds₂⟩ := hrun' n b₁ front (stale ++ rest) (count + k) hholds₁
  refine ⟨b₂, ?_, ?_⟩
  · show (run n front.length _ >>= run' n front.length) = _
    rw [hb₁, ok_bind, hb₂, Nat.add_assoc]
  · rw [List.append_assoc]
    exact hholds₂

/-- **One entry of `map`** does in the array what it does to the string. -/
theorem decodeEntryAt_spec {e : List UInt8 × UInt8} (he : e ∈ urlMap) (x : List UInt8 × Bool) :
    ∃ stale k, StepsTo (fun _ s df => decodeEntryAt s df e) x (decodeEntry x e) stale k := by
  obtain ⟨text, f⟩ := x
  have hlen := urlMap_length e he
  have hchar : e.2 ≠ 0 := by
    revert he
    have hall : ∀ e ∈ urlMap, e.2 ≠ 0 := by decide
    exact hall e
  rcases hp : strstr text e.1 with _ | p
  · -- no code: nothing happens
    have hentry : decodeEntry (text, f) e = (text, f) := by simp only [decodeEntry, hp]
    refine ⟨[], 0, rfl, by rw [hentry, Nat.mul_zero, Nat.add_zero], fun n b front rest count hb => ⟨b, ?_, ?_⟩⟩
    · simp only [decodeEntryAt, hb.str, ok_bind, hp, hentry]
      rfl
    · rw [hentry]
      exact hb
  · obtain ⟨hple, ⟨v, hv⟩, -⟩ := strstr_eq_some_iff.mp hp
    have hentry : decodeEntry (text, f) e = (text.take p ++ e.2 :: v, true) := by
      have hdrop : text.drop (p + 3) = v := by rw [← List.drop_drop, ← hv, ← hlen, List.drop_left]
      simp only [decodeEntry, hp, hdrop]
    obtain ⟨x, y, z, hcode⟩ := List.length_eq_three.mp hlen
    have hsplit : text = text.take p ++ [x, y, z] ++ v := by
      rw [List.append_assoc, ← hcode, hv, List.take_append_drop]
    have hp' : (text.take p).length = p := List.length_take_of_le hple
    have hlen' := congrArg List.length hsplit
    simp only [List.length_append, List.length_cons, List.length_nil, hp'] at hlen'
    obtain ⟨stale, hstale, hrun⟩ := substitute_spec (text.take p) v e.2 x y z
    refine ⟨stale, 1, hstale, ?_, fun n b front rest count hb => ?_⟩
    · rw [hentry]
      simp only [List.length_append, List.length_cons, hp']
      omega
    · obtain ⟨b₁, b₂, hput, hload, hcopy, hb₂⟩ := hrun n b front rest (by rw [← hsplit]; exact hb.2)
      rw [hp'] at hput hload hcopy
      refine ⟨b₂, ?_, ?_⟩
      · have hmoved : text.length + 1 - (p + 3) = v.length + 1 := by omega
        have hl : text.length + 1 - 2 = (text.take p ++ e.2 :: v).length + 1 := by
          simp only [List.length_append, List.length_cons, hp']
          omega
        simp only [decodeEntryAt, hb.str, ok_bind, hp, hput, hmoved, hload, hcopy, hentry, hl,
          if_pos (show p + 3 ≤ text.length + 1 by omega)]
        rfl
      · rw [hentry]
        refine ⟨?_, hb₂⟩
        have h0 := hb.1
        rw [hsplit] at h0
        simp only [List.mem_append, not_or] at h0
        simp only [List.mem_append, List.mem_cons, not_or]
        exact ⟨h0.1.1, Ne.symm hchar, h0.2⟩

/-! ## The whole call -/

theorem decodePassAt_spec (text : List UInt8) :
    ∃ stale k, StepsTo (fun n s df => urlMap.foldlM (decodeEntryAt (n := n) s) df) (text, false)
      (decodePass text) stale k := by
  have hentries : ∀ es : List (List UInt8 × UInt8), (∀ e ∈ es, e ∈ urlMap) → ∀ x, ∃ stale k,
      StepsTo (fun n s df => es.foldlM (decodeEntryAt (n := n) s) df) x (es.foldl decodeEntry x) stale k := by
    intro es
    induction es with
    | nil => exact fun _ x => ⟨[], 0, StepsTo.refl x⟩
    | cons e es ih =>
      intro hes x
      obtain ⟨stale, k, hfirst⟩ := decodeEntryAt_spec (hes e List.mem_cons_self) x
      obtain ⟨stale', k', hrest⟩ := ih (fun d hd => hes d (List.mem_cons_of_mem e hd)) (decodeEntry x e)
      exact ⟨stale' ++ stale, k + k', hfirst.trans hrest⟩
  exact hentries urlMap (fun _ he => he) (text, false)

/-- The turns of the `while` loop, until one finds no code. -/
theorem urlDecodeLoopAt_spec (fuel : ℕ) (text : List UInt8) (hfuel : text.length < fuel) :
    ∃ (stale : List UInt8) (k : ℕ), stale.length = 2 * k ∧ (urlDecodeLoop fuel text).length + 2 * k = text.length ∧
      ∀ (n : ℕ) (b : Buf n) (front rest : List UInt8) (count : ℕ), b.Holds front text rest →
        ∃ b', urlDecodeLoopAt front.length fuel ⟨b, text.length + 1, count⟩ =
            .ok ⟨b', (urlDecodeLoop fuel text).length + 1, count + k⟩ ∧
          b'.Holds front (urlDecodeLoop fuel text) (stale ++ rest) := by
  induction fuel generalizing text with
  | zero => omega
  | succ fuel ih =>
    obtain ⟨stale, k, hstale, hlen, hrun⟩ := decodePassAt_spec text
    rcases (decodePass_spec text).2 with ⟨hsame, -⟩ | ⟨hflag, hless⟩
    · -- no code was found: this was the last turn
      have hloop : urlDecodeLoop (fuel + 1) text = (decodePass text).1 := by
        simp only [urlDecodeLoop, hsame, Bool.false_eq_true, if_false]
      rw [hloop]
      refine ⟨stale, k, hstale, hlen, fun n b front rest count hb => ?_⟩
      obtain ⟨b', hpass, hholds⟩ := hrun n b front rest count hb
      refine ⟨b', ?_, hholds⟩
      simp only at hpass
      rw [urlDecodeLoopAt, decodePassAt, hpass, ok_bind]
      simp only [hsame, Bool.false_eq_true, if_false]
      rfl
    · have hloop : urlDecodeLoop (fuel + 1) text = urlDecodeLoop fuel (decodePass text).1 := by
        simp only [urlDecodeLoop, hflag, if_true]
      obtain ⟨stale', k', hstale', hlen', hrest⟩ := ih (decodePass text).1 (by omega)
      rw [hloop]
      refine ⟨stale' ++ stale, k + k', by rw [List.length_append]; omega, ?_, fun n b front rest count hb => ?_⟩
      · simp only at hlen
        omega
      obtain ⟨b₁, hpass, hholds₁⟩ := hrun n b front rest count hb
      obtain ⟨b₂, hturns, hholds₂⟩ := hrest n b₁ front (stale ++ rest) (count + k) hholds₁
      simp only at hpass
      refine ⟨b₂, ?_, ?_⟩
      · rw [urlDecodeLoopAt, decodePassAt, hpass, ok_bind]
        simp only [hflag, if_true]
        rw [hturns, Nat.add_assoc]
      · rw [List.append_assoc]
        exact hholds₂

/-- **The whole call**: wherever the string stands in an array, its bytes and terminator are all that is
read and written. -/
theorem urlDecodeAt_spec {text : List UInt8} (h : 0 ∉ text) :
    ∃ (stale : List UInt8) (k : ℕ), stale.length = 2 * k ∧ (urlDecode text).length + 2 * k = text.length ∧
      ∀ (n : ℕ) (b : Buf n) (front rest : List UInt8), b.toList = front ++ text ++ 0 :: rest →
        ∃ b', urlDecodeAt b front.length = .ok ⟨b', (urlDecode text).length + 1, k⟩ ∧
          b'.toList = front ++ urlDecode text ++ 0 :: (stale ++ rest) := by
  obtain ⟨stale, k, hstale, hlen, hrun⟩ := urlDecodeLoopAt_spec (text.length + 1) text (Nat.lt_succ_self _)
  refine ⟨stale, k, hstale, hlen, fun n b front rest hb => ?_⟩
  have hholds : b.Holds front text rest := ⟨h, hb⟩
  obtain ⟨b', hloop, hholds'⟩ := hrun n b front rest 0 hholds
  refine ⟨b', ?_, hholds'.2⟩
  rw [urlDecodeAt, hholds.str, ok_bind, hloop, Nat.zero_add]
  rfl

/-- What `url_decode` makes of the string `text` in `k` substitutions. -/
structure NormalForm (text v stale : List UInt8) (k : ℕ) : Prop where
  /-- In every array that holds the string, the call ends with `v` in its place; no byte in front of
  the string or behind its terminator has a part in it. -/
  run : ∀ (n : ℕ) (b : Buf n) (front rest : List UInt8), b.toList = front ++ text ++ 0 :: rest →
    ∃ b', urlDecodeAt b front.length = .ok ⟨b', v.length + 1, k⟩ ∧
      b'.toList = front ++ v ++ 0 :: (stale ++ rest)
  string : 0 ∉ v
  length : v.length = text.length - 2 * k ∧ 2 * k ≤ text.length
  stale_length : stale.length = 2 * k
  /-- No escape is left. -/
  plain : ∀ e ∈ urlMap, ¬e.1 <:+: v
  /-- Escapes replaced one at a time, in any order: they can be replaced until `v` is left, and when
  none is left it is `v`. -/
  order : ∀ u, ReflTransGen (Escapes.Replaces urlTable) text u →
    ReflTransGen (Escapes.Replaces urlTable) u v ∧ ((∀ e ∈ urlMap, ¬e.1 <:+: u) → u = v)

/-- **`url_decode`** stops inside its string, with the text that replacing escapes in any other order ends
with. -/
theorem urlDecodeAt_normalForm {text : List UInt8} (h : 0 ∉ text) :
    ∃ stale k, NormalForm text (urlDecode text) stale k := by
  obtain ⟨stale, k, hstale, hlen, hrun⟩ := urlDecodeAt_spec h
  obtain ⟨hplain, hreplaced⟩ := urlDecode_spec text
  refine ⟨stale, k, hrun, urlDecode_no_zero h, ⟨by omega, by omega⟩, hstale, hplain, fun u hu => ?_⟩
  exact ⟨Escapes.replaced_plain hreplaced hplain hu, fun hu' => Escapes.replaced_unique hreplaced hplain hu hu'⟩

/-- An escape that comes out of another one is replaced as well. -/
theorem urlDecodeAt_normalForm_twice :
    ∃ stale k, NormalForm (ascii "a%2540b") (urlDecode (ascii "a%2540b")) stale k :=
  urlDecodeAt_normalForm (by decide)

example : urlMap.length = 54 := by decide

end Esp8266Toolbox
