import VertexEngine.Proofs.Binary64.Packing

/-!
# Addition of doubles

The sum of two finite doubles is a whole number of units, and addition rounds it.  This is all that
is used of addition, for the order of two sums is the order of their units.

* `round_eq` says what rounding a mantissa and an exponent makes of the units.
* `bounded` is the same with the sign and with infinity beyond the finite doubles.  It is monotone,
  and it leaves the units of every double as they are.
* `storedSum_finite` says that the units of a sum are those of its terms, added and then `bounded`.
-/

namespace VertexEngine.Binary64

open Float.Model Float.Model.UnpackedFloat

/-! ## Rounding a mantissa and an exponent -/

theorem targetExponent_eq (m : Nat) (e : Int) :
    Format.binary64.targetExponent (totalExponent m e) = max (m.log2 + 1 + e - 53) (-1074) :=
  rfl

theorem excess_magnitude {m : Nat} (hm : 0 < m) {e : Int} (he : -1074 ≤ e) :
    (excess (magnitude m e) : Int) =
      Format.binary64.targetExponent (totalExponent m e) + 1074 := by
  have hlog := log2_mul_two_pow (Nat.ne_of_gt hm) (e + 1074).toNat
  rw [targetExponent_eq, excess, magnitude, hlog]
  omega

/-- A mantissa that rounding has carried to 54 bits is shifted once more, without loss. -/
theorem carry {m : Nat} (hm : m ≤ 2 ^ 53) {e : Int} (he : -1074 ≤ e)
    (hn : 2 ^ 52 ≤ m ∨ e = -1074) :
    Canonical (shiftToTargetExponent Format.binary64 m e .exact).1.mantissa
        (shiftToTargetExponent Format.binary64 m e .exact).2 ∧
      magnitude (shiftToTargetExponent Format.binary64 m e .exact).1.mantissa
        (shiftToTargetExponent Format.binary64 m e .exact).2 = magnitude m e := by
  have hshifted := (Shifted.exact m).shiftRight
    (Format.binary64.targetExponent (totalExponent m e) - e).toNat
  rw [shiftToTargetExponent, shiftToExponent]
  dsimp only
  rw [hshifted.mantissa, targetExponent_eq]
  rcases Nat.lt_or_eq_of_le hm with hlt | heq
  · have hlog : m.log2 < 53 := by
      by_cases hzero : m = 0
      · rw [hzero]
        decide
      · exact (Nat.log2_lt hzero).mpr hlt
    have hshift : (max (m.log2 + 1 + e - 53) (-1074) - e).toNat = 0 := by omega
    rw [hshift, Nat.zero_add, Nat.pow_zero, Nat.div_one, Int.natCast_zero, Int.add_zero]
    exact ⟨⟨hlt, he, hn⟩, rfl⟩
  · have hlog : m.log2 = 53 := by
      rw [heq]
      exact Nat.log2_two_pow
    have hshift : (max (m.log2 + 1 + e - 53) (-1074) - e).toNat = 1 := by omega
    have hhalf : m / 2 ^ (0 + 1) = 2 ^ 52 := by omega
    rw [hshift, hhalf]
    refine ⟨⟨by decide, by omega, .inl (Nat.le_refl _)⟩, ?_⟩
    have hnext : (e + (1 : Nat) + 1074).toNat = (e + 1074).toNat + 1 := by omega
    rw [magnitude, magnitude, heq, hnext, ← Nat.pow_add, ← Nat.pow_add]
    exact congrArg (2 ^ ·) (by omega)

/-- Of a number that is not zero, rounding leaves a mantissa as an operation may deliver it. -/
theorem normal_of_nearest {n : Nat} (hn : n ≠ 0) :
    0 < nearest n (excess n) ∧ (2 ^ 52 ≤ nearest n (excess n) ∨ excess n = 0) := by
  have hle := two_pow_log2_le_rounded hn
  have hpos : 0 < 2 ^ n.log2 := Nat.two_pow_pos _
  refine ⟨Nat.pos_of_ne_zero fun hzero => ?_, ?_⟩
  · rw [rounded, hzero, Nat.zero_mul] at hle
    omega
  · by_cases hexcess : excess n = 0
    · exact .inr hexcess
    · left
      have hlog : n.log2 = 52 + excess n := by
        unfold excess at hexcess ⊢
        omega
      rw [rounded, hlog, Nat.pow_add] at hle
      exact Nat.le_of_mul_le_mul_right hle (Nat.two_pow_pos _)

theorem roundWithAccuracy_eq (s : Sign) {m : Nat} (hm : 0 < m) {e : Int} (he : -1074 ≤ e)
    (ht : e ≤ Format.binary64.targetExponent (totalExponent m e)) :
    ∃ m' e' hpos, roundWithAccuracy Format.binary64 s m e .exact = .finite s m' e' hpos ∧
      Canonical m' e' ∧ magnitude m' e' = rounded (magnitude m e) := by
  have hexcess := excess_magnitude hm he
  have hne : magnitude m e ≠ 0 := Nat.ne_of_gt (magnitude_pos hm)
  obtain ⟨hpos, hnormal⟩ := normal_of_nearest hne
  have hle := nearest_excess_le (magnitude m e)
  obtain ⟨k, hk⟩ : ∃ k : Nat, Format.binary64.targetExponent (totalExponent m e) = e + k :=
    ⟨(Format.binary64.targetExponent (totalExponent m e) - e).toNat, by omega⟩
  have hfirst : shiftToTargetExponent Format.binary64 m e .exact =
      (ExtendedMantissa.ofMantissaAndAccuracy m .exact >>> k, e + k) := by
    rw [shiftToTargetExponent, hk, shiftToExponent, show (e + k - e).toNat = k by omega]
  have hmantissa : (ExtendedMantissa.ofMantissaAndAccuracy m .exact >>> k).roundedMantissa =
      nearest (magnitude m e) (excess (magnitude m e)) := by
    have hsum : excess (magnitude m e) = 0 + k + (e + 1074).toNat := by omega
    rw [((Shifted.exact m).shiftRight k).roundedMantissa, hsum, magnitude, nearest_mul_two_pow]
  obtain ⟨hcanonical, hmagnitude⟩ := carry hle (e := e + k) (by omega) (by omega)
  have hrounded : magnitude (nearest (magnitude m e) (excess (magnitude m e))) (e + k) =
      rounded (magnitude m e) := by
    rw [rounded, magnitude, show (e + k + 1074).toNat = excess (magnitude m e) by omega]
  rw [hrounded] at hmagnitude
  have hpos' : 0 < (shiftToTargetExponent Format.binary64
      (nearest (magnitude m e) (excess (magnitude m e))) (e + k) .exact).1.mantissa := by
    refine Nat.pos_of_ne_zero fun hzero => ?_
    rw [magnitude, hzero, Nat.zero_mul] at hmagnitude
    have := two_pow_log2_le_rounded hne
    have := Nat.two_pow_pos (magnitude m e).log2
    omega
  refine ⟨_, _, hpos', ?_, hcanonical, hmagnitude⟩
  rw [roundWithAccuracy, hfirst]
  dsimp only
  rw [hmantissa]
  exact dif_neg (Nat.ne_of_gt hpos')

/-- A smaller exponent with a larger mantissa counts the same. -/
theorem magnitude_decreaseExponent (m : Nat) {e t : Int} (he : -1074 ≤ e) (ht : -1074 ≤ t) :
    magnitude (decreaseExponent m e t).1 (decreaseExponent m e t).2 = magnitude m e := by
  have hexponent : (e + 1074).toNat = (e - t).toNat + (e - (e - t).toNat + 1074).toNat := by omega
  rw [decreaseExponent, magnitude, magnitude, hexponent, Nat.shiftLeft_eq, Nat.mul_assoc,
    ← Nat.pow_add]

theorem magnitude_lowered (m : Nat) {e t : Int} (ht : -1074 ≤ t) (h : t ≤ e) :
    magnitude (decreaseExponent m e t).1 t = magnitude m e := by
  have hexponent : (decreaseExponent m e t).2 = t := by
    show e - (e - t).toNat = t
    omega
  have hmagnitude := magnitude_decreaseExponent m (Int.le_trans ht h) ht
  rwa [hexponent] at hmagnitude

/-- Rounding delivers the rounded units. -/
theorem round_eq (s : Sign) {m : Nat} (hm : 0 < m) {e : Int} (he : -1074 ≤ e) :
    ∃ m' e' hpos, UnpackedFloat.round Format.binary64 s m e = .finite s m' e' hpos ∧
      Canonical m' e' ∧ magnitude m' e' = rounded (magnitude m e) := by
  have htarget := targetExponent_eq m e
  have hleast : -1074 ≤ Format.binary64.targetExponent (totalExponent m e) := by omega
  have hmagnitude := magnitude_decreaseExponent m he hleast
  rw [← hmagnitude, UnpackedFloat.round]
  generalize Format.binary64.targetExponent (totalExponent m e) = t at htarget hleast
  have hpos : 0 < (decreaseExponent m e t).1 := by
    rw [decreaseExponent, Nat.shiftLeft_eq]
    exact Nat.mul_pos hm (Nat.two_pow_pos _)
  have hlog : (decreaseExponent m e t).1.log2 = m.log2 + (e - t).toNat := by
    rw [decreaseExponent, Nat.shiftLeft_eq]
    exact log2_mul_two_pow (Nat.ne_of_gt hm) _
  have hexponent : (decreaseExponent m e t).2 = e - (e - t).toNat := rfl
  refine roundWithAccuracy_eq s hpos (by omega) ?_
  rw [targetExponent_eq, hlog]
  omega

/-! ## Sums -/

/-- The units of a sum of so many units. -/
def bounded (z : Int) : Int :=
  if 0 ≤ z then (min (rounded z.natAbs) limit : Nat) else -(min (rounded z.natAbs) limit : Nat)

theorem bounded_zero : bounded 0 = 0 := by
  rw [bounded, if_pos (Int.le_refl 0), Int.natAbs_zero, rounded_zero]
  omega

theorem bounded_mono {y z : Int} (h : y ≤ z) : bounded y ≤ bounded z := by
  unfold bounded
  by_cases hy : 0 ≤ y
  · have hz : 0 ≤ z := Int.le_trans hy h
    have hle := rounded_mono (m := y.natAbs) (n := z.natAbs) (by omega)
    rw [if_pos hy, if_pos hz]
    omega
  · rw [if_neg hy]
    by_cases hz : 0 ≤ z
    · rw [if_pos hz]
      omega
    · have hle := rounded_mono (m := z.natAbs) (n := y.natAbs) (by omega)
      rw [if_neg hz]
      omega

theorem bounded_le (z : Int) : -limit ≤ bounded z ∧ bounded z ≤ limit := by
  unfold bounded
  split <;> omega

/-- The units of a double are not changed. -/
theorem bounded_units {x : UnpackedFloat} (hx : IsDouble x) (hf : x.isFinite = true) :
    bounded (units x) = units x := by
  cases x with
  | notANumber => cases hf
  | infinity s => cases hf
  | zero s => exact bounded_zero
  | finite s m e hpos =>
    have hlt := (magnitude_lt_limit_iff hx.1).mpr hx.2
    have hrounded : rounded (magnitude m e) = magnitude m e :=
      rounded_of_lt hx.1.mantissa_lt _
    have hpos' := magnitude_pos hpos (e := e)
    unfold bounded
    cases s with
    | negative =>
      have habs : (units (.finite .negative m e hpos)).natAbs = magnitude m e := Int.natAbs_neg _
      have hneg : units (.finite .negative m e hpos) = -(magnitude m e : Int) := rfl
      rw [habs, hrounded, if_neg (by omega)]
      omega
    | positive =>
      have habs : (units (.finite .positive m e hpos)).natAbs = magnitude m e := rfl
      have hself : units (.finite .positive m e hpos) = (magnitude m e : Int) := rfl
      rw [habs, hrounded, if_pos (by omega)]
      omega

/-- A sum, as the bits of a double hold it. -/
def storedSum (x y : UnpackedFloat) : UnpackedFloat :=
  stored (UnpackedFloat.add Format.binary64 x y)

/-- A double that sums from zero can take: a number, but not the negative zero. -/
structure IsSum (x : UnpackedFloat) : Prop where
  isDouble : IsDouble x
  isNumber : x.isNaN = false
  ne_zero : x ≠ .zero .negative

theorem isSum_stored (s : Sign) {m : Nat} {e : Int} (hpos : 0 < m) (h : Canonical m e) :
    IsSum (stored (.finite s m e hpos)) ∧
      units (stored (.finite s m e hpos)) = s.apply (min (magnitude m e) limit : Nat) := by
  have hlt := magnitude_lt_limit_iff h
  rw [stored_finite s hpos h]
  split
  · rename_i he
    refine ⟨⟨⟨h, he⟩, rfl, by simp⟩, ?_⟩
    rw [Nat.min_eq_left (Nat.le_of_lt (hlt.mpr he))]
    rfl
  · rename_i he
    refine ⟨⟨trivial, rfl, by simp⟩, ?_⟩
    rw [Nat.min_eq_right (Nat.le_of_not_lt (mt hlt.mp he))]
    rfl

theorem isSum_normalize (z : Int) {t : Int} (ht : -1074 ≤ t) :
    IsSum (stored (UnpackedFloat.normalize Format.binary64 z t .positive)) ∧
      units (stored (UnpackedFloat.normalize Format.binary64 z t .positive)) =
        bounded (z * 2 ^ (t + 1074).toNat) := by
  have hpow : (0 : Int) < 2 ^ (t + 1074).toNat := Int.pow_pos (by decide)
  have habs : (z * 2 ^ (t + 1074).toNat).natAbs = magnitude z.natAbs t := by
    rw [Int.natAbs_mul, Int.natAbs_pow]
    rfl
  rcases Int.lt_trichotomy z 0 with hneg | rfl | hpos
  · have hlt : z * 2 ^ (t + 1074).toNat < 0 := Int.mul_neg_of_neg_of_pos hneg hpow
    have hnormalize : UnpackedFloat.normalize Format.binary64 z t .positive =
        UnpackedFloat.round Format.binary64 .negative z.natAbs t := by
      rw [UnpackedFloat.normalize, Int.compare_eq_lt.mpr hneg, show (-z).toNat = z.natAbs by omega]
    obtain ⟨m, e, hm, hround, hcanonical, hmagnitude⟩ :=
      round_eq .negative (m := z.natAbs) (by omega) ht
    rw [hnormalize, hround, bounded, if_neg (by omega), habs, ← hmagnitude]
    exact isSum_stored .negative hm hcanonical
  · have hnormalize : UnpackedFloat.normalize Format.binary64 0 t .positive = .zero .positive := rfl
    rw [hnormalize, stored_zero, Int.zero_mul]
    exact ⟨⟨trivial, rfl, by simp⟩, bounded_zero.symm⟩
  · have hlt : 0 < z * 2 ^ (t + 1074).toNat := Int.mul_pos hpos hpow
    have hnormalize : UnpackedFloat.normalize Format.binary64 z t .positive =
        UnpackedFloat.round Format.binary64 .positive z.natAbs t := by
      rw [UnpackedFloat.normalize, Int.compare_eq_gt.mpr hpos, show z.toNat = z.natAbs by omega]
    obtain ⟨m, e, hm, hround, hcanonical, hmagnitude⟩ :=
      round_eq .positive (m := z.natAbs) (by omega) ht
    rw [hnormalize, hround, bounded, if_pos (by omega), habs, ← hmagnitude]
    exact isSum_stored .positive hm hcanonical

theorem apply_mul (s : Sign) (m n : Nat) : s.apply m * n = s.apply (m * n : Nat) := by
  cases s with
  | negative =>
    show -(m : Int) * n = -((m * n : Nat) : Int)
    rw [Int.natCast_mul, Int.neg_mul]
  | positive =>
    show (m : Int) * n = ((m * n : Nat) : Int)
    rw [Int.natCast_mul]

/-- The sum of two finite doubles has their units, rounded. -/
theorem storedSum_finite {x y : UnpackedFloat} (hx : IsSum x) (hy : IsDouble y)
    (hfx : x.isFinite = true) (hfy : y.isFinite = true) :
    IsSum (storedSum x y) ∧ units (storedSum x y) = bounded (units x + units y) := by
  have hself : ∀ {s : Sign} {m : Nat} {e : Int} (hpos : 0 < m), IsDouble (.finite s m e hpos) →
      stored (.finite s m e hpos) = .finite s m e hpos := by
    intro s m e hpos hdouble
    rw [stored_finite s hpos hdouble.1, if_pos hdouble.2]
  cases x with
  | notANumber => cases hfx
  | infinity s => cases hfx
  | zero s =>
    have hpositive : s = .positive := by
      cases s with
      | negative => exact absurd rfl hx.ne_zero
      | positive => rfl
    subst hpositive
    have hunits : units (.zero .positive) + units y = units y := Int.zero_add _
    rw [hunits, bounded_units hy hfy]
    cases y with
    | notANumber => cases hfy
    | infinity s' => cases hfy
    | zero s' =>
      have hsum : storedSum (.zero .positive) (.zero s') = .zero .positive := by
        cases s' <;> exact stored_zero .positive
      rw [hsum]
      exact ⟨hx, rfl⟩
    | finite s' m' e' hpos' =>
      have hsum : storedSum (.zero .positive) (.finite s' m' e' hpos') = .finite s' m' e' hpos' :=
        hself hpos' hy
      rw [hsum]
      exact ⟨⟨hy, rfl, by simp⟩, rfl⟩
  | finite s m e hpos =>
    cases y with
    | notANumber => cases hfy
    | infinity s' => cases hfy
    | zero s' =>
      have hsum : storedSum (.finite s m e hpos) (.zero s') = .finite s m e hpos :=
        hself hpos hx.isDouble
      have hunits : units (.finite s m e hpos) + units (.zero s') = units (.finite s m e hpos) :=
        Int.add_zero _
      rw [hsum, hunits, bounded_units hx.isDouble rfl]
      exact ⟨hx, rfl⟩
    | finite s' m' e' hpos' =>
      have he := hx.isDouble.1.least_le
      have he' := hy.1.least_le
      have hleft := magnitude_lowered m (t := min e e') (e := e) (by omega) (by omega)
      have hright := magnitude_lowered m' (t := min e e') (e := e') (by omega) (by omega)
      have hunits : units (.finite s m e hpos) + units (.finite s' m' e' hpos') =
          (s.apply (decreaseExponent m e (min e e')).1 +
            s'.apply (decreaseExponent m' e' (min e e')).1) * 2 ^ (min e e' + 1074).toNat := by
        rw [Int.add_mul, units, units, ← hleft, ← hright, magnitude, magnitude, ← apply_mul,
          ← apply_mul]
        push_cast
        rfl
      rw [hunits]
      exact isSum_normalize _ (by omega)

/-- A finite double does not change an infinity. -/
theorem storedSum_infinity (s : Sign) {y : UnpackedFloat} (hy : y.isFinite = true) :
    storedSum (.infinity s) y = .infinity s := by
  cases y with
  | notANumber => cases hy
  | infinity s' => cases hy
  | zero s' => exact stored_infinity s
  | finite s' m e hpos => exact stored_infinity s

end VertexEngine.Binary64
