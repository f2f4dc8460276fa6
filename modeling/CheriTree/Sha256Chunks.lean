import Mathlib.Data.List.GetD
import Mathlib.Logic.Function.Iterate
import CheriTree.ByteOrder
import CheriTree.Sha256

/-!
# SHA-256, a chunk at a time

Nobody who computes a digest has the padded message at hand. The words of the
message come one after the other, a chunk is consumed as soon as it is complete,
and the padding is made when the message ends. This module says what that comes
to.

* The message schedule is a sequence: word `t` is made of four words before it
  (`schedule_add_sixteen`), however much of it is kept.
* The rounds up to `t` are a state of their own (`roundsTo`), and the rounds are
  those up to the last.
* Complete chunks may be consumed at once (`consume_append`).
* The words of the padded message are those of the message, with the end marked
  and the length behind it (`words_pad`).
-/

namespace Sha256

open ByteOrder

/-! ## The message schedule -/

/-- The window of the schedule, one word on. -/
def slide (w : List (BitVec 32)) : List (BitVec 32) := w.tail ++ [extend w]

/-- **Word `t` of the message schedule** of a chunk. -/
def schedule (w : List (BitVec 32)) (t : ℕ) : BitVec 32 := (slide^[t] w).getD 0 0

variable {w : List (BitVec 32)}

theorem length_slide (hw : w.length = 16) : (slide w).length = 16 := by
  rw [slide, List.length_append, List.length_tail, hw]
  rfl

theorem length_iterate_slide (hw : w.length = 16) (t : ℕ) : (slide^[t] w).length = 16 := by
  induction t with
  | zero => exact hw
  | succ t ih =>
    rw [Function.iterate_succ_apply']
    exact length_slide ih

theorem getD_slide {j : ℕ} (hj : j + 1 < w.length) :
    (slide w).getD j 0 = w.getD (j + 1) 0 := by
  have hlt : j < w.tail.length := by
    rw [List.length_tail]
    omega
  rw [slide, List.getD_append _ _ _ _ hlt, List.getD_eq_getElem?_getD,
    List.getD_eq_getElem?_getD, List.getElem?_tail]

/-- The last word of the window is the one that was added. -/
theorem getD_slide_last (hw : w.length = 16) : (slide w).getD 15 0 = extend w := by
  have hlen : w.tail.length = 15 := by
    rw [List.length_tail, hw]
  rw [slide, List.getD_append_right _ _ _ _ (Nat.le_of_eq hlen), hlen]
  rfl

/-- **The window holds sixteen words of the schedule.** -/
theorem getD_iterate_slide (hw : w.length = 16) (t : ℕ) {j : ℕ} (hj : j < 16) :
    (slide^[t] w).getD j 0 = schedule w (t + j) := by
  induction j generalizing t with
  | zero => rfl
  | succ j ih =>
    have hlen := length_iterate_slide hw t
    rw [← getD_slide (by omega), ← Function.iterate_succ_apply' slide t w, ih (t + 1) (by omega)]
    congr 1
    omega

theorem schedule_of_lt (hw : w.length = 16) {t : ℕ} (ht : t < 16) :
    schedule w t = w.getD t 0 := by
  rw [← Nat.zero_add t, ← getD_iterate_slide hw 0 ht, Nat.zero_add]
  rfl

/-- **A word of the schedule is made of four before it.** -/
theorem schedule_add_sixteen (hw : w.length = 16) (t : ℕ) :
    schedule w (t + 16) =
      schedule w t
        + (rightRot (schedule w (t + 1)) 7 ^^^ rightRot (schedule w (t + 1)) 18
          ^^^ schedule w (t + 1) >>> 3)
        + schedule w (t + 9)
        + (rightRot (schedule w (t + 14)) 17 ^^^ rightRot (schedule w (t + 14)) 19
          ^^^ schedule w (t + 14) >>> 10) := by
  have hlast : schedule w (t + 16) = extend (slide^[t] w) := by
    rw [← getD_slide_last (length_iterate_slide hw t), ← Function.iterate_succ_apply' slide t w,
      getD_iterate_slide hw (t + 1) (by decide)]
  rw [hlast, extend, getD_iterate_slide hw t (by decide), getD_iterate_slide hw t (by decide),
    getD_iterate_slide hw t (by decide), getD_iterate_slide hw t (by decide)]
  rfl

theorem schedule_slide (t : ℕ) : schedule (slide w) t = schedule w (t + 1) := by
  rw [schedule, ← Function.iterate_succ_apply]
  rfl

/-! ## The rounds -/

/-- **The state after the first rounds**, under constants `ks`. -/
def roundsTo (ks : List (BitVec 32)) (h : State) (w : List (BitVec 32)) : ℕ → State
  | 0 => h
  | t + 1 => round (roundsTo ks h w t) (ks.getD t 0) (schedule w t)

theorem roundsTo_cons (k : BitVec 32) (ks : List (BitVec 32)) (h : State)
    (w : List (BitVec 32)) (t : ℕ) :
    roundsTo (k :: ks) h w (t + 1) = roundsTo ks (round h k (w.getD 0 0)) (slide w) t := by
  induction t with
  | zero => rfl
  | succ t ih =>
    rw [roundsTo, ih, roundsTo, schedule_slide, List.getD_cons_succ]

/-- **The rounds are those up to the last constant.** -/
theorem rounds_eq (ks : List (BitVec 32)) (h : State) (w : List (BitVec 32)) :
    rounds ks h w = roundsTo ks h w ks.length := by
  induction ks generalizing h w with
  | nil => rfl
  | cons k ks ih =>
    rw [rounds, List.length_cons, roundsTo_cons]
    exact ih _ _

/-- The words of two states, added. -/
def State.add (x y : State) : State :=
  ⟨x.a + y.a, x.b + y.b, x.c + y.c, x.d + y.d, x.e + y.e, x.f + y.f, x.g + y.g, x.h + y.h⟩

/-- **A chunk is consumed** when its sixty-four rounds are added. -/
theorem consumeChunk_eq (h : State) (w : List (BitVec 32)) :
    consumeChunk h w = h.add (roundsTo k h w 64) := by
  unfold consumeChunk
  rw [rounds_eq]
  rfl

/-! ## Chunk after chunk -/

/-- **Complete chunks are consumed at once**, whatever comes after them. -/
theorem consume_append (n m : ℕ) (h : State) {w v : List (BitVec 32)} (hw : w.length = 16 * n) :
    consume (n + m) h (w ++ v) = consume m (consume n h w) v := by
  induction n generalizing h w with
  | zero =>
    obtain rfl := List.length_eq_zero_iff.1 hw
    rw [Nat.zero_add]
    rfl
  | succ n ih =>
    have hle : 16 ≤ w.length := by omega
    have hdrop : (w.drop 16).length = 16 * n := by
      rw [List.length_drop]
      omega
    rw [Nat.add_right_comm, consume, consume, List.take_append_of_le_length hle,
      List.drop_append_of_le_length hle]
    exact ih _ hdrop

theorem consume_one (h : State) {w : List (BitVec 32)} (hw : w.length = 16) :
    consume 1 h w = consumeChunk h w := by
  rw [consume, consume, List.take_of_length_le (Nat.le_of_eq hw)]

/-- The words that do not make a chunk are not consumed. -/
theorem consume_take (n : ℕ) (h : State) {w v : List (BitVec 32)} (hw : w.length = 16 * n) :
    consume n h (w ++ v) = consume n h w := by
  have happ := consume_append n 0 h (v := v) hw
  rwa [Nat.add_zero, consume] at happ

/-! ## The padding, in words -/

/-- The bytes of a word make the word. -/
theorem append_beBytes (x : BitVec 32) :
    x.extractLsb' 24 8 ++ x.extractLsb' 16 8 ++ x.extractLsb' 8 8 ++ x.extractLsb' 0 8 = x := by
  apply BitVec.eq_of_getLsbD_eq
  intro i hi
  simp only [BitVec.getLsbD_append, BitVec.getLsbD_extractLsb']
  grind

theorem words_beBytes_append (x : BitVec 32) (bytes : List (BitVec 8)) :
    words (beBytes x ++ bytes) = x :: words bytes := by
  show (x.extractLsb' 24 8 ++ x.extractLsb' 16 8 ++ x.extractLsb' 8 8 ++ x.extractLsb' 0 8)
    :: words bytes = _
  rw [append_beBytes]

/-- **The words whose bytes these are.** -/
theorem words_flatMap_append (ws : List (BitVec 32)) (bytes : List (BitVec 8)) :
    words (ws.flatMap beBytes ++ bytes) = ws ++ words bytes := by
  induction ws with
  | nil => rfl
  | cons x ws ih =>
    rw [List.flatMap_cons, List.append_assoc, words_beBytes_append, ih]
    rfl

theorem words_zeros_append (z : ℕ) (bytes : List (BitVec 8)) :
    words (List.replicate (4 * z) 0 ++ bytes) = List.replicate z 0 ++ words bytes := by
  induction z with
  | zero => rfl
  | succ z ih =>
    have hfour : List.replicate (4 * (z + 1)) (0 : BitVec 8)
        = beBytes 0 ++ List.replicate (4 * z) 0 := by
      rw [Nat.mul_succ, Nat.add_comm, List.replicate_add]
      rfl
    rw [hfour, List.append_assoc, words_beBytes_append, ih, List.replicate_succ]
    rfl

/-- **The word in which a message ends**: its last bytes, less than a word, and
a one behind them. -/
def endWord (r : List (BitVec 8)) : BitVec 32 :=
  let q := r ++ 0x80 :: List.replicate 3 0
  q.getD 0 0 ++ q.getD 1 0 ++ q.getD 2 0 ++ q.getD 3 0

theorem words_end_append {r : List (BitVec 8)} (hr : r.length < 4) (bytes : List (BitVec 8)) :
    words (r ++ 0x80 :: List.replicate (3 - r.length) 0 ++ bytes) = endWord r :: words bytes := by
  match r, hr with
  | [], _ => rfl
  | [_], _ => rfl
  | [_, _], _ => rfl
  | [_, _, _], _ => rfl

/-- A byte of a word of a longer number is one of its bytes. -/
theorem extractLsb'_word (bits : BitVec 64) (a : ℕ) {b : ℕ} (hb : b + 8 ≤ 32) :
    (bits.extractLsb' a 32).extractLsb' b 8 = bits.extractLsb' (a + b) 8 := by
  apply BitVec.eq_of_getLsbD_eq
  intro i hi
  simp only [BitVec.getLsbD_extractLsb']
  rw [decide_eq_true (show b + i < 32 by omega), Bool.true_and, Nat.add_assoc]

/-- The length of a message, as its last eight bytes. -/
theorem words_length (bits : BitVec 64) :
    words ((List.range 8).map (fun i => bits.extractLsb' (56 - 8 * i) 8))
      = [bits.extractLsb' 32 32, bits.extractLsb' 0 32] := by
  have happend : (List.range 8).map (fun i => bits.extractLsb' (56 - 8 * i) 8)
      = [bits.extractLsb' 32 32, bits.extractLsb' 0 32].flatMap beBytes ++ [] := by
    have hword : ∀ a, beBytes (bits.extractLsb' a 32)
        = (List.range 4).map (fun j => bits.extractLsb' (a + (24 - 8 * j)) 8) :=
      fun a => List.map_congr_left fun j _ => extractLsb'_word bits a (by omega)
    rw [List.append_nil, List.flatMap_cons, List.flatMap_cons, List.flatMap_nil, List.append_nil,
      hword, hword]
    rfl
  rw [happend, words_flatMap_append]
  rfl

/-- The zeros between the end of a message and its length. -/
def zeros (n : ℕ) : ℕ := (29 - n % 16) % 16

/-- **The padded message, in words**: the words of the message, its end, zeros
and its length in bits. -/
theorem words_pad (ws : List (BitVec 32)) {r : List (BitVec 8)} (hr : r.length < 4) :
    words (pad (ws.flatMap beBytes ++ r))
      = ws ++ endWord r :: (List.replicate (zeros ws.length) 0
        ++ [(BitVec.ofNat 64 (8 * (4 * ws.length + r.length))).extractLsb' 32 32,
          (BitVec.ofNat 64 (8 * (4 * ws.length + r.length))).extractLsb' 0 32]) := by
  have hlen : (ws.flatMap beBytes).length = 4 * ws.length := by
    induction ws with
    | nil => rfl
    | cons x ws ih =>
      rw [List.flatMap_cons, List.length_append, ih, List.length_cons]
      show 4 + _ = _
      omega
  have hzeros : (119 - (4 * ws.length + r.length) % 64) % 64
      = (3 - r.length) + 4 * zeros ws.length := by
    unfold zeros
    omega
  have hsplit : pad (ws.flatMap beBytes ++ r)
      = ws.flatMap beBytes ++ (r ++ 0x80 :: List.replicate (3 - r.length) 0
        ++ (List.replicate (4 * zeros ws.length) 0
          ++ (List.range 8).map (fun i => (BitVec.ofNat 64
            (8 * (4 * ws.length + r.length))).extractLsb' (56 - 8 * i) 8))) := by
    rw [pad, List.length_append, hlen]
    simp only [hzeros, List.replicate_add, List.append_assoc, List.cons_append]
  rw [hsplit, words_flatMap_append, words_end_append hr, words_zeros_append, words_length]

/-! ## Byte after byte -/

theorem length_words (bytes : List (BitVec 8)) : (words bytes).length = bytes.length / 4 := by
  fun_induction words bytes with
  | case1 a b c d bytes ih =>
    simp only [List.length_cons, ih]
    omega
  | case2 bytes hshort =>
    match bytes, hshort with
    | [], _ => rfl
    | [_], _ => simp
    | [_, _], _ => simp
    | [_, _, _], _ => simp
    | a :: b :: c :: d :: bytes, hshort => exact absurd rfl (hshort a b c d bytes)

/-- Whole words, and what is behind them. -/
theorem words_append {u : List (BitVec 8)} (hu : u.length % 4 = 0) (v : List (BitVec 8)) :
    words (u ++ v) = words u ++ words v := by
  fun_induction words u with
  | case1 a b c d u ih =>
    simp only [List.length_cons] at hu
    show (a ++ b ++ c ++ d) :: words (u ++ v) = _
    rw [ih (by omega)]
    rfl
  | case2 u hshort =>
    match u, hshort with
    | [], _ => rfl
    | [_], _ => simp at hu
    | [_, _], _ => simp at hu
    | [_, _, _], _ => simp at hu
    | a :: b :: c :: d :: u, hshort => exact absurd rfl (hshort a b c d u)

/-- **The hash of the complete chunks** of some bytes. -/
def absorbed (bytes : List (BitVec 8)) : State :=
  consume (bytes.length / 64) init (words bytes)

/-- **The bytes that do not make a chunk yet.** -/
def pending (bytes : List (BitVec 8)) : List (BitVec 8) :=
  bytes.drop (64 * (bytes.length / 64))

theorem length_pending (bytes : List (BitVec 8)) :
    (pending bytes).length = bytes.length % 64 := by
  rw [pending, List.length_drop]
  omega

/-- The complete chunks alone. -/
theorem absorbed_eq_take (bytes : List (BitVec 8)) :
    absorbed bytes
      = consume (bytes.length / 64) init (words (bytes.take (64 * (bytes.length / 64)))) := by
  have hlen : (bytes.take (64 * (bytes.length / 64))).length = 64 * (bytes.length / 64) := by
    rw [List.length_take]
    omega
  have hwords : (words (bytes.take (64 * (bytes.length / 64)))).length
      = 16 * (bytes.length / 64) := by
    rw [length_words, hlen]
    omega
  conv_lhs => rw [absorbed, ← List.take_append_drop (64 * (bytes.length / 64)) bytes]
  rw [words_append (by rw [hlen]; omega), List.take_append_drop, consume_take _ _ hwords]

/-- **Bytes behind others** make chunks with those that were pending. -/
theorem absorbed_append (u v : List (BitVec 8)) :
    absorbed (u ++ v)
      = consume ((u.length % 64 + v.length) / 64) (absorbed u) (words (pending u ++ v)) := by
  have hlen : (u.take (64 * (u.length / 64))).length = 64 * (u.length / 64) := by
    rw [List.length_take]
    omega
  have hwords : (words (u.take (64 * (u.length / 64)))).length = 16 * (u.length / 64) := by
    rw [length_words, hlen]
    omega
  have hcount : (u ++ v).length / 64
      = u.length / 64 + (u.length % 64 + v.length) / 64 := by
    rw [List.length_append]
    omega
  rw [absorbed, hcount, absorbed_eq_take u, ← consume_append _ _ _ hwords,
    ← words_append (by rw [hlen]; omega), pending, ← List.append_assoc, List.take_append_drop]

/-- Bytes that complete no chunk. -/
theorem absorbed_append_lt {u v : List (BitVec 8)} (h : u.length % 64 + v.length < 64) :
    absorbed (u ++ v) = absorbed u := by
  rw [absorbed_append, Nat.div_eq_of_lt h]
  rfl

/-- Bytes that complete one. -/
theorem absorbed_append_chunk {u v : List (BitVec 8)} (h : u.length % 64 + v.length = 64) :
    absorbed (u ++ v) = consumeChunk (absorbed u) (words (pending u ++ v)) := by
  rw [absorbed_append, h]
  refine consume_one _ ?_
  rw [length_words, List.length_append, length_pending, h]

theorem pending_append_lt {u v : List (BitVec 8)} (h : u.length % 64 + v.length < 64) :
    pending (u ++ v) = pending u ++ v := by
  have hcount : (u ++ v).length / 64 = u.length / 64 := by
    rw [List.length_append]
    omega
  rw [pending, hcount, List.drop_append_of_le_length (by omega)]
  rfl

/-- **The digest** is the hash of the padded message. -/
theorem sha256_eq (bytes : List (BitVec 8)) :
    sha256 bytes =
      let h := absorbed (pad bytes)
      h.a ++ h.b ++ h.c ++ h.d ++ h.e ++ h.f ++ h.g ++ h.h := by
  have hcount : (words (pad bytes)).length / 16 = (pad bytes).length / 64 := by
    rw [length_words, Nat.div_div_eq_div_mul]
  unfold sha256 absorbed
  simp only [hcount]

end Sha256
