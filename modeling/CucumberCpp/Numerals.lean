import Mathlib.Data.Nat.Digits.Lemmas

/-! Numerals written from the most significant digit, and the regrouping of their bits into
digits of another width. -/
namespace Numerals

def numeral (b : ℕ) (digits : List ℕ) : ℕ := Nat.ofDigits b digits.reverse

@[simp] theorem numeral_nil (b : ℕ) : numeral b [] = 0 := rfl

theorem numeral_append (b : ℕ) (xs ys : List ℕ) :
    numeral b (xs ++ ys) = numeral b xs * b^ys.length + numeral b ys := by
  rw [numeral, List.reverse_append, Nat.ofDigits_append, List.length_reverse, Nat.add_comm,
    Nat.mul_comm]
  rfl

@[simp] theorem numeral_cons (b x : ℕ) (xs : List ℕ) :
    numeral b (x :: xs) = x * b^xs.length + numeral b xs := by
  rw [← List.singleton_append, numeral_append]
  simp [numeral]

/-- A number has one numeral of each length. -/
theorem numeral_injective {b : ℕ} (hb : 1 < b) {xs ys : List ℕ} (hlen : xs.length = ys.length)
    (hxs : ∀ x ∈ xs, x < b) (hys : ∀ y ∈ ys, y < b) (h : numeral b xs = numeral b ys) :
    xs = ys := by
  apply List.reverse_injective
  apply Nat.ofDigits_inj_of_len_eq hb
  · simpa using hlen
  · simpa using hxs
  · simpa using hys
  · exact h

/-- The bits of digits of width `w`, without the last `dropped` ones, are those of digits of
width `v`. -/
structure Regroups (w v dropped : ℕ) (xs ys : List ℕ) : Prop where
  left_lt : ∀ x ∈ xs, x < 2^w
  right_lt : ∀ y ∈ ys, y < 2^v
  bits : xs.length*w = ys.length*v + dropped
  value : numeral (2^w) xs / 2^dropped = numeral (2^v) ys

namespace Regroups

variable {w v dropped : ℕ} {xs xs' ys ys' : List ℕ}

theorem nil : Regroups w v 0 [] [] := ⟨by simp, by simp, by simp, by simp⟩

/-- Zeros for the dropped bits. -/
theorem of_numeral_eq (hxs : ∀ x ∈ xs, x < 2^w) (hys : ∀ y ∈ ys, y < 2^v)
    (hbits : xs.length*w = ys.length*v + dropped)
    (h : numeral (2^w) xs = numeral (2^v) ys * 2^dropped) : Regroups w v dropped xs ys where
  left_lt := hxs
  right_lt := hys
  bits := hbits
  value := by rw [h, Nat.mul_div_cancel _ (by positivity)]

/-- What regroups without a rest may be put in front. -/
theorem append (h : Regroups w v 0 xs ys) (h' : Regroups w v dropped xs' ys') :
    Regroups w v dropped (xs ++ xs') (ys ++ ys') where
  left_lt x hx := (List.mem_append.mp hx).elim (h.left_lt x) (h'.left_lt x)
  right_lt y hy := (List.mem_append.mp hy).elim (h.right_lt y) (h'.right_lt y)
  bits := by
    rw [List.length_append, List.length_append, Nat.add_mul, Nat.add_mul, h.bits, h'.bits]
    omega
  value := by
    have hfront : numeral (2^w) xs = numeral (2^v) ys := by simpa using h.value
    have hpow : (2^w)^xs'.length = (2^v)^ys'.length * 2^dropped := by
      rw [← pow_mul, ← pow_mul, ← pow_add, Nat.mul_comm w, Nat.mul_comm v, h'.bits]
    calc numeral (2^w) (xs ++ xs') / 2^dropped
        = (numeral (2^w) xs' + numeral (2^v) ys * (2^v)^ys'.length * 2^dropped) / 2^dropped := by
          rw [numeral_append, hpow, hfront, Nat.add_comm, Nat.mul_assoc]
      _ = numeral (2^w) xs' / 2^dropped + numeral (2^v) ys * (2^v)^ys'.length :=
          Nat.add_mul_div_right _ _ (by positivity)
      _ = numeral (2^v) (ys ++ ys') := by rw [h'.value, numeral_append, Nat.add_comm]

theorem right_unique (hv : 0 < v) (h : Regroups w v dropped xs ys)
    (h' : Regroups w v dropped xs ys') : ys = ys' := by
  apply numeral_injective (Nat.one_lt_two_pow hv.ne') _ h.right_lt h'.right_lt
  · rw [← h.value, h'.value]
  · have hbits := h.bits.symm.trans h'.bits
    exact Nat.eq_of_mul_eq_mul_right hv (Nat.add_right_cancel hbits)

/-- When the dropped bits are zero, they are no loss. -/
theorem left_unique (hw : 0 < w) (h : Regroups w v dropped xs ys)
    (h' : Regroups w v dropped xs' ys) (hzero : 2^dropped ∣ numeral (2^w) xs)
    (hzero' : 2^dropped ∣ numeral (2^w) xs') : xs = xs' := by
  apply numeral_injective (Nat.one_lt_two_pow hw.ne') _ h.left_lt h'.left_lt
  · rw [← Nat.div_mul_cancel hzero, ← Nat.div_mul_cancel hzero', h.value, h'.value]
  · exact Nat.eq_of_mul_eq_mul_right hw (h.bits.trans h'.bits.symm)

theorem dvd_append_iff (xs : List ℕ) (h' : Regroups w v dropped xs' ys') :
    2^dropped ∣ numeral (2^w) (xs ++ xs') ↔ 2^dropped ∣ numeral (2^w) xs' := by
  rw [numeral_append]
  apply (Nat.dvd_add_right _).trans Iff.rfl
  rw [← pow_mul, Nat.mul_comm w, h'.bits, pow_add]
  exact Dvd.dvd.mul_left (Nat.dvd_mul_left _ _) _

end Regroups

end Numerals
