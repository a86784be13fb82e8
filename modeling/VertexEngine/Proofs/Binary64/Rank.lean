import VertexEngine.Proofs.Binary64.Packing
import VertexEngine.Queue.Priority

/-!
# The total order of doubles

`Priority.rank` counts bit patterns, and `<` compares numbers.  On finite doubles the two agree but
for one pair: negative zero ranks below zero, and is not less.  `rank_lt_iff` says so.

The way leads over `place`, which is the rank read off the sign, the mantissa and the exponent
instead of the bits.
-/

namespace VertexEngine.Binary64

open Float.Model Float.Model.UnpackedFloat

/-! ## The place of a number -/

/-- Where a magnitude stands among the bit patterns without a sign. -/
@[irreducible]
def pattern (m : Nat) (e : Int) : Nat :=
  (e + 1074).toNat * 2 ^ 52 + m

/-- The place of a finite number in the total order: a pattern without a sign counts upward from
zero, and one with a sign downward from minus one. -/
def place : UnpackedFloat → Int
  | .zero .positive => 0
  | .zero .negative => -1
  | .finite .positive m e _ => pattern m e
  | .finite .negative m e _ => -1 - pattern m e
  | _ => 0

section

variable {m n : Nat} {d e : Int}

theorem pattern_lt_pattern (hm : Canonical m d) (hn : Canonical n e)
    (h : magnitude m d < magnitude n e) : pattern m d < pattern n e := by
  have hmant := hm.mantissa_lt
  have hleast := hm.least_le
  have hnormal := hn.normal_or_least
  unfold pattern
  rcases (magnitude_lt_iff hm hn).mp h with hlt | ⟨rfl, hlt⟩
  · -- A greater exponent outweighs all mantissas, since only the least exponent has small ones.
    have hstep : (d + 1074).toNat + 1 ≤ (e + 1074).toNat := by omega
    have hscaled := Nat.mul_le_mul_right (2 ^ 52) hstep
    omega
  · omega

theorem pattern_lt_iff (hm : Canonical m d) (hn : Canonical n e) :
    pattern m d < pattern n e ↔ magnitude m d < magnitude n e := by
  constructor
  · intro h
    by_contra hnot
    rcases Nat.lt_or_eq_of_le (Nat.le_of_not_lt hnot) with hlt | heq
    · have hback := pattern_lt_pattern hn hm hlt
      omega
    · obtain ⟨rfl, rfl⟩ := magnitude_inj hn hm heq
      omega
  · exact pattern_lt_pattern hm hn

end

/-- The places are in the order of the units, but for the two zeros. -/
theorem place_lt_iff {x y : UnpackedFloat} (hx : IsDouble x) (hy : IsDouble y)
    (hxf : x.isFinite = true) (hyf : y.isFinite = true) :
    place x < place y ↔ units x < units y ∨ (x = .zero .negative ∧ y = .zero .positive) := by
  cases x with
  | notANumber => cases hxf
  | infinity s => cases hxf
  | zero s =>
    cases y with
    | notANumber => cases hyf
    | infinity s' => cases hyf
    | zero s' => cases s <;> cases s' <;> simp [place, units]
    | finite s' n e hn =>
      have hmag := magnitude_pos hn (e := e)
      have hpat : 0 < pattern n e := by
        unfold pattern
        omega
      cases s <;> cases s' <;> simp [place, units, Sign.apply] <;> omega
  | finite s m d hm =>
    have hmag := magnitude_pos hm (e := d)
    have hpat : 0 < pattern m d := by
      unfold pattern
      omega
    cases y with
    | notANumber => cases hyf
    | infinity s' => cases hyf
    | zero s' => cases s <;> cases s' <;> simp [place, units, Sign.apply] <;> omega
    | finite s' n e hn =>
      have hmag' := magnitude_pos hn (e := e)
      have hlt := pattern_lt_iff hx.1 hy.1
      have hgt := pattern_lt_iff hy.1 hx.1
      cases s <;> cases s' <;> simp [place, units, Sign.apply] <;> omega

/-! ## The rank of the bits -/

/-- The three fields of the bits of a double, put together again. -/
theorem toNat_eq_fields (b : BitVec Format.binary64.numBits) :
    b.toNat = (unpackSign b).toNat * 2 ^ 63 + (unpackExponent b).toNat * 2 ^ 52 +
      (unpackMantissa b).toNat := by
  have hb : b.toNat < 2 ^ 64 := b.isLt
  simp only [unpackSign, unpackExponent, unpackMantissa, BitVec.toNat_cast,
    BitVec.extractLsb_toNat, Nat.shiftRight_eq_div_pow]
  omega

theorem sign_cases (v : BitVec 1) :
    v.toNat = 0 ∧ Sign.ofBitVec v = .positive ∨ v.toNat = 1 ∧ Sign.ofBitVec v = .negative := by
  have hv : v.toNat < 2 := v.isLt
  rcases Nat.lt_or_ge v.toNat 1 with h0 | h1
  · obtain rfl : v = 0#1 := BitVec.eq_of_toNat_eq (show v.toNat = 0 by omega)
    exact .inl ⟨rfl, rfl⟩
  · obtain rfl : v = 1#1 := BitVec.eq_of_toNat_eq (show v.toNat = 1 by omega)
    exact .inr ⟨rfl, rfl⟩

/-- The rank of a pattern, as in `Priority.rank`. -/
def rankOfBits (n : Nat) : Int :=
  if n < 2 ^ 63 then n else 2 ^ 63 - 1 - n

theorem place_finite {n k : Nat} {v : BitVec 1} {m : Nat} {e : Int} (hm : 0 < m)
    (hn : n = v.toNat * 2 ^ 63 + k) (hk : k < 2 ^ 63) (hpat : pattern m e = k) :
    place (.finite (Sign.ofBitVec v) m e hm) = rankOfBits n := by
  unfold rankOfBits
  rcases sign_cases v with ⟨hv, hs⟩ | ⟨hv, hs⟩ <;> rw [hs] <;> simp only [place] <;>
    split <;> omega

/-- The place of the number that the bits stand for is the rank of the bits. -/
theorem place_unpack {b : BitVec Format.binary64.numBits}
    (hf : (UnpackedFloat.unpack Format.binary64 b).isFinite = true) :
    place (UnpackedFloat.unpack Format.binary64 b) = rankOfBits b.toNat := by
  have hfields := toNat_eq_fields b
  have hmantissa : (unpackMantissa b).toNat < 2 ^ 52 := (unpackMantissa b).isLt
  have hexponent : (unpackExponent b).toNat < 2 ^ 11 := (unpackExponent b).isLt
  unfold UnpackedFloat.unpack at hf ⊢
  dsimp only at hf ⊢
  split at hf
  · split at hf <;> cases hf
  · rename_i hmax
    have hmax' : (unpackExponent b).toNat ≠ 2047 := fun h => hmax (BitVec.eq_of_toNat_eq h)
    rw [if_neg hmax]
    split
    · rename_i hmin
      have hmin' : (unpackExponent b).toNat = 0 := by rw [hmin]; rfl
      have hbits : b.toNat = (unpackSign b).toNat * 2 ^ 63 + (unpackMantissa b).toNat := by
        rw [hfields, hmin', Nat.zero_mul, Nat.add_zero]
      split
      · rename_i hzero
        have hzero' : (unpackMantissa b).toNat = 0 := by rw [hzero]; rfl
        unfold rankOfBits
        rcases sign_cases (unpackSign b) with ⟨hv, hs⟩ | ⟨hv, hs⟩ <;> rw [hs] <;>
          simp only [place] <;> split <;> omega
      · refine place_finite _ hbits (by omega) ?_
        show pattern _ (((unpackExponent b).toNat : Int) - 1075 + 1) = _
        unfold pattern
        omega
    · rename_i hmin
      have hmin' : (unpackExponent b).toNat ≠ 0 := fun h => hmin (BitVec.eq_of_toNat_eq h)
      have hbits : b.toNat = (unpackSign b).toNat * 2 ^ 63 +
          ((unpackExponent b).toNat * 2 ^ 52 + (unpackMantissa b).toNat) :=
        hfields.trans (Nat.add_assoc ..)
      refine place_finite _ hbits (by omega) ?_
      show pattern (1#1 ++ unpackMantissa b).toNat (((unpackExponent b).toNat : Int) - 1075) = _
      rw [toNat_implicit]
      unfold pattern
      omega

theorem rank_eq_place {p : Float} (hf : p.isFinite = true) :
    Priority.rank p = place (number p) :=
  (place_unpack hf).symm

/-! ## The two orders -/

section

variable {p q : Float}

theorem isNaN_of_isFinite {x : UnpackedFloat} (h : x.isFinite = true) : x.isNaN = false := by
  cases x <;> first | rfl | cases h

theorem lt_iff_units (hp : p.isFinite = true) (hq : q.isFinite = true) :
    p < q ↔ units (number p) < units (number q) := by
  have hmodel : p < q ↔ (number p).lt (number q) = true := decide_eq_true_iff
  rw [hmodel]
  exact lt_iff (isDouble_number p) (isDouble_number q) (isNaN_of_isFinite hp)
    (isNaN_of_isFinite hq)

/-- A rank is lower if the number is less, or if the zeros have different signs. -/
theorem rank_lt_iff (hp : p.isFinite = true) (hq : q.isFinite = true) :
    Priority.rank p < Priority.rank q ↔ p < q ∨ (p = -0.0 ∧ q = 0.0) := by
  have hnegative : number (-0.0) = .zero .negative := rfl
  have hpositive : number 0.0 = .zero .positive := rfl
  rw [rank_eq_place hp, rank_eq_place hq, lt_iff_units hp hq,
    place_lt_iff (isDouble_number p) (isDouble_number q) hp hq, ← hnegative, ← hpositive]
  constructor
  · rintro (h | ⟨h, h'⟩)
    · exact .inl h
    · exact .inr ⟨number_inj h, number_inj h'⟩
  · rintro (h | ⟨rfl, rfl⟩)
    · exact .inl h
    · exact .inr ⟨rfl, rfl⟩

theorem rank_lt_of_lt (hp : p.isFinite = true) (hq : q.isFinite = true) (h : p < q) :
    Priority.rank p < Priority.rank q :=
  (rank_lt_iff hp hq).mpr (.inl h)

end

end VertexEngine.Binary64
