import Mathlib

/-!
# Rounding to 53 bits

The numbers here are natural: a finite double is a whole multiple of the smallest positive one, and
so is the sum of two.  Rounding such a sum keeps its 53 highest bits, and of two numbers that are
equally near it takes the even one.

* `nearest` divides by a power of two and rounds, and `Shifted.roundedMantissa` says that shifting
  a mantissa with its round and sticky bits computes it.
* `rounded` keeps 53 bits.  It is monotone, and it changes no number that has no more bits than
  that.
-/

namespace VertexEngine.Binary64

open Float.Model.UnpackedFloat

/-- The quotient by a power of two, rounded to the nearest number, or to the even one of two. -/
def nearest (n k : Nat) : Nat :=
  if 2 * (n % 2 ^ k) < 2 ^ k then n / 2 ^ k
  else if 2 * (n % 2 ^ k) = 2 ^ k then n / 2 ^ k + n / 2 ^ k % 2
  else n / 2 ^ k + 1

theorem div_le_nearest (n k : Nat) : n / 2 ^ k ≤ nearest n k := by
  unfold nearest
  split
  · exact Nat.le_refl _
  · split
    · exact Nat.le_add_right _ _
    · exact Nat.le_succ _

theorem nearest_le_div_succ (n k : Nat) : nearest n k ≤ n / 2 ^ k + 1 := by
  unfold nearest
  split
  · exact Nat.le_succ _
  · split
    · omega
    · exact Nat.le_refl _

theorem nearest_mono {m n : Nat} (h : m ≤ n) (k : Nat) : nearest m k ≤ nearest n k := by
  have hpos : 0 < 2 ^ k := Nat.two_pow_pos k
  have hdiv : m / 2 ^ k ≤ n / 2 ^ k := Nat.div_le_div_right h
  rcases Nat.lt_or_eq_of_le hdiv with hlt | heq
  · exact Nat.le_trans (nearest_le_div_succ m k) (Nat.le_trans hlt (div_le_nearest n k))
  · have hm := Nat.div_add_mod m (2 ^ k)
    have hn := Nat.div_add_mod n (2 ^ k)
    rw [heq] at hm
    have hmod : m % 2 ^ k ≤ n % 2 ^ k := by omega
    have hless : n % 2 ^ k < 2 ^ k := Nat.mod_lt _ hpos
    unfold nearest
    rw [heq]
    by_cases hm₁ : 2 * (m % 2 ^ k) < 2 ^ k
    · rw [if_pos hm₁]
      exact div_le_nearest n k
    · have hn₁ : ¬2 * (n % 2 ^ k) < 2 ^ k := by omega
      rw [if_neg hm₁, if_neg hn₁]
      by_cases hm₂ : 2 * (m % 2 ^ k) = 2 ^ k
      · rw [if_pos hm₂]
        split <;> omega
      · have hn₂ : 2 * (n % 2 ^ k) ≠ 2 ^ k := by omega
        simp only [if_neg hm₂, if_neg hn₂, Nat.le_refl]

/-- Factors of two that are divided out again do not matter. -/
theorem nearest_mul_two_pow (m j k : Nat) : nearest (m * 2 ^ j) (k + j) = nearest m k := by
  have hdiv : m * 2 ^ j / 2 ^ (k + j) = m / 2 ^ k := by
    rw [Nat.pow_add, Nat.mul_div_mul_right _ _ (Nat.two_pow_pos j)]
  have hmod : 2 * (m * 2 ^ j % 2 ^ (k + j)) = 2 * (m % 2 ^ k) * 2 ^ j := by
    rw [Nat.pow_add, Nat.mul_mod_mul_right, Nat.mul_assoc]
  have hpos : 0 < 2 ^ j := Nat.two_pow_pos j
  have hlt : 2 * (m * 2 ^ j % 2 ^ (k + j)) < 2 ^ (k + j) ↔ 2 * (m % 2 ^ k) < 2 ^ k := by
    rw [hmod, Nat.pow_add, Nat.mul_lt_mul_right hpos]
  have heq : 2 * (m * 2 ^ j % 2 ^ (k + j)) = 2 ^ (k + j) ↔ 2 * (m % 2 ^ k) = 2 ^ k := by
    rw [hmod, Nat.pow_add, Nat.mul_right_cancel_iff hpos]
  unfold nearest
  simp only [hdiv, hlt, heq]

theorem nearest_zero_right (n : Nat) : nearest n 0 = n := by
  simp [nearest, Nat.mod_one]

/-! ## Round and sticky bits -/

/-- The bits of a mantissa that was shifted say what was lost: whether it was a half or more, and
whether it was anything but nothing or a half. -/
structure Shifted (n k : Nat) (em : ExtendedMantissa) : Prop where
  mantissa : em.mantissa = n / 2 ^ k
  roundBit : em.roundBit = true ↔ 2 ^ k ≤ 2 * (n % 2 ^ k)
  stickyBit : em.stickyBit = true ↔ 2 * (n % 2 ^ k) ≠ 0 ∧ 2 * (n % 2 ^ k) ≠ 2 ^ k

theorem Shifted.exact (n : Nat) :
    Shifted n 0 (ExtendedMantissa.ofMantissaAndAccuracy n .exact) := by
  refine ⟨?_, ?_, ?_⟩ <;> simp [ExtendedMantissa.ofMantissaAndAccuracy, Nat.mod_one]

theorem Shifted.shiftRightOne {n k : Nat} {em : ExtendedMantissa} (h : Shifted n k em) :
    Shifted n (k + 1) em.shiftRightOne := by
  have hpos : 0 < 2 ^ k := Nat.two_pow_pos k
  have hlt : n % 2 ^ k < 2 ^ k := Nat.mod_lt _ hpos
  have hpow : 2 ^ (k + 1) = 2 * 2 ^ k := by rw [Nat.pow_succ, Nat.mul_comm]
  have hmod : n % 2 ^ (k + 1) = n % 2 ^ k + 2 ^ k * (n / 2 ^ k % 2) := by
    rw [Nat.pow_succ, Nat.mod_mul]
  have hbit : n / 2 ^ k % 2 = 0 ∨ n / 2 ^ k % 2 = 1 := by omega
  refine ⟨?_, ?_, ?_⟩
  · rw [ExtendedMantissa.shiftRightOne, h.mantissa, Nat.div_div_eq_div_mul, ← Nat.pow_succ]
  · rw [ExtendedMantissa.shiftRightOne, h.mantissa, hmod, hpow, bne_iff_ne]
    rcases hbit with hbit | hbit <;> rw [hbit] <;> omega
  · rw [ExtendedMantissa.shiftRightOne, Bool.or_eq_true, h.roundBit, h.stickyBit, hmod, hpow]
    rcases hbit with hbit | hbit <;> rw [hbit] <;> omega

theorem Shifted.shiftRight {n k : Nat} {em : ExtendedMantissa} (h : Shifted n k em) (j : Nat) :
    Shifted n (k + j) (em >>> j) := by
  induction j with
  | zero => exact h
  | succ j ih => exact ih.shiftRightOne

theorem Shifted.roundedMantissa {n k : Nat} {em : ExtendedMantissa} (h : Shifted n k em) :
    em.roundedMantissa = nearest n k := by
  obtain ⟨hm, hr, hs⟩ := h
  obtain ⟨m, r, s⟩ := em
  have hpos : 0 < 2 ^ k := Nat.two_pow_pos k
  dsimp only at hm hr hs
  unfold nearest
  rw [ExtendedMantissa.roundedMantissa, hm]
  cases r with
  | false =>
    have hless : 2 * (n % 2 ^ k) < 2 ^ k := by simpa using hr
    rw [if_pos hless]
    cases s <;> rfl
  | true =>
    have hmore : ¬2 * (n % 2 ^ k) < 2 ^ k := by simpa using hr
    rw [if_neg hmore]
    cases s with
    | false =>
      have heq : 2 * (n % 2 ^ k) = 2 ^ k := by
        have hor : ¬(2 * (n % 2 ^ k) ≠ 0 ∧ 2 * (n % 2 ^ k) ≠ 2 ^ k) := by simpa using hs
        omega
      rw [if_pos heq]
      rfl
    | true =>
      rw [if_neg (hs.mp rfl).2]
      rfl

/-! ## Keeping 53 bits -/

/-- The number of bits beyond the 53 highest. -/
def excess (n : Nat) : Nat :=
  n.log2 + 1 - 53

/-- The number with its 53 highest bits, rounded. -/
def rounded (n : Nat) : Nat :=
  nearest n (excess n) * 2 ^ excess n

theorem log2_mul_two_pow {m : Nat} (h : m ≠ 0) (j : Nat) : (m * 2 ^ j).log2 = m.log2 + j := by
  obtain ⟨hle, hlt⟩ := (Nat.log2_eq_iff h).mp rfl
  refine (Nat.log2_eq_iff (Nat.mul_ne_zero h (Nat.ne_of_gt (Nat.two_pow_pos j)))).mpr ⟨?_, ?_⟩
  · rw [Nat.pow_add]
    exact Nat.mul_le_mul_right _ hle
  · rw [show m.log2 + j + 1 = m.log2 + 1 + j by omega, Nat.pow_add]
    exact Nat.mul_lt_mul_of_pos_right hlt (Nat.two_pow_pos j)

theorem rounded_zero : rounded 0 = 0 := by
  decide

theorem excess_le_of_lt {m : Nat} (h : m < 2 ^ 53) (j : Nat) : excess (m * 2 ^ j) ≤ j := by
  by_cases hm : m = 0
  · simp [hm, excess]
  · have hlog : m.log2 < 53 := (Nat.log2_lt hm).mpr h
    have hmul : (m * 2 ^ j).log2 = m.log2 + j := log2_mul_two_pow hm j
    unfold excess
    omega

/-- Of 53 bits nothing is lost. -/
theorem rounded_of_lt {m : Nat} (h : m < 2 ^ 53) (j : Nat) : rounded (m * 2 ^ j) = m * 2 ^ j := by
  have hle := excess_le_of_lt h j
  unfold rounded
  generalize excess (m * 2 ^ j) = k at hle
  have hsplit : m * 2 ^ j = m * 2 ^ (j - k) * 2 ^ k := by
    rw [Nat.mul_assoc, ← Nat.pow_add, Nat.sub_add_cancel hle]
  have hnearest : nearest (m * 2 ^ (j - k) * 2 ^ k) k = m * 2 ^ (j - k) := by
    have hscaled := nearest_mul_two_pow (m * 2 ^ (j - k)) k 0
    rw [Nat.zero_add, nearest_zero_right] at hscaled
    exact hscaled
  rw [hsplit, hnearest]

theorem two_pow_log2_le_rounded {n : Nat} (h : n ≠ 0) : 2 ^ n.log2 ≤ rounded n := by
  have hself := Nat.log2_self_le h
  have hle : excess n ≤ n.log2 := by
    unfold excess
    omega
  have hsplit : 2 ^ n.log2 = 2 ^ (n.log2 - excess n) * 2 ^ excess n := by
    rw [← Nat.pow_add, Nat.sub_add_cancel hle]
  have hdiv : 2 ^ (n.log2 - excess n) ≤ n / 2 ^ excess n := by
    rw [Nat.le_div_iff_mul_le (Nat.two_pow_pos _), ← hsplit]
    exact hself
  rw [hsplit]
  exact Nat.mul_le_mul_right _ (Nat.le_trans hdiv (div_le_nearest n _))

/-- Rounding the highest 53 bits gives at most the next power of two. -/
theorem nearest_excess_le (n : Nat) : nearest n (excess n) ≤ 2 ^ 53 := by
  have hlt : n < 2 ^ (53 + excess n) := by
    refine Nat.lt_of_lt_of_le Nat.lt_log2_self (Nat.pow_le_pow_right Nat.two_pos ?_)
    unfold excess
    omega
  have hdiv : n / 2 ^ excess n < 2 ^ 53 := by
    rw [Nat.div_lt_iff_lt_mul (Nat.two_pow_pos _), ← Nat.pow_add]
    exact hlt
  exact Nat.le_trans (nearest_le_div_succ n _) hdiv

theorem rounded_mono {m n : Nat} (h : m ≤ n) : rounded m ≤ rounded n := by
  by_cases hm : m = 0
  · rw [hm, rounded_zero]
    exact Nat.zero_le _
  have hn : n ≠ 0 := by omega
  have hlog : m.log2 ≤ n.log2 :=
    (Nat.le_log2 hn).mpr (Nat.le_trans (Nat.log2_self_le hm) h)
  have hexcess : excess m ≤ excess n := by
    unfold excess
    omega
  rcases Nat.lt_or_eq_of_le hexcess with hlt | heq
  · -- The two are on different sides of a power of two.
    have hle : 53 + excess m ≤ n.log2 := by
      unfold excess at hlt ⊢
      omega
    calc rounded m
        ≤ 2 ^ 53 * 2 ^ excess m := Nat.mul_le_mul_right _ (nearest_excess_le m)
      _ = 2 ^ (53 + excess m) := (Nat.pow_add ..).symm
      _ ≤ 2 ^ n.log2 := Nat.pow_le_pow_right Nat.two_pos hle
      _ ≤ rounded n := two_pow_log2_le_rounded hn
  · unfold rounded
    rw [heq]
    exact Nat.mul_le_mul_right _ (nearest_mono h _)

end VertexEngine.Binary64
