import VertexEngine.Proofs.Binary64.Rounding

/-!
# Doubles as whole numbers

Every finite double is a whole multiple of the smallest positive one, and `units` is this multiple.
An infinity counts as `limit`, which is one step beyond the largest finite double.

* `Canonical` holds of the mantissas and exponents that an operation may deliver, and `IsDouble` of
  what can be unpacked from the bits of a double.
* `lt_iff` says that comparison compares units, and `eq_of_units_eq` that the units of a double
  other than a zero tell it from all others.
-/

namespace VertexEngine.Binary64

open Float.Model Float.Model.UnpackedFloat

/-! ## Magnitudes -/

/-- A mantissa of at most 53 bits; of fewer only with the least exponent. -/
structure Canonical (m : Nat) (e : Int) : Prop where
  mantissa_lt : m < 2 ^ 53
  least_le : -1074 ≤ e
  normal_or_least : 2 ^ 52 ≤ m ∨ e = -1074

/-- How many times the smallest positive double. -/
def magnitude (m : Nat) (e : Int) : Nat :=
  m * 2 ^ (e + 1074).toNat

/-- The units of an infinity. -/
@[irreducible]
def limit : Nat :=
  magnitude (2 ^ 52) 972

section

variable {m n : Nat} {d e : Int}

theorem magnitude_pos (h : 0 < m) : 0 < magnitude m e :=
  Nat.mul_pos h (Nat.two_pow_pos _)

theorem magnitude_lt_of_lt (hm : Canonical m d) (hn : Canonical n e) (h : d < e) :
    magnitude m d < magnitude n e := by
  have hd := hm.least_le
  have hnormal : 2 ^ 52 ≤ n := by
    rcases hn.normal_or_least with hnormal | hleast
    · exact hnormal
    · omega
  calc magnitude m d
      < 2 ^ 53 * 2 ^ (d + 1074).toNat :=
        Nat.mul_lt_mul_of_pos_right hm.mantissa_lt (Nat.two_pow_pos _)
    _ = 2 ^ 52 * 2 ^ ((d + 1074).toNat + 1) := by
        rw [← Nat.pow_add, ← Nat.pow_add]
        exact congrArg (2 ^ ·) (by omega)
    _ ≤ 2 ^ 52 * 2 ^ (e + 1074).toNat :=
        Nat.mul_le_mul_left _ (Nat.pow_le_pow_right Nat.two_pos (by omega))
    _ ≤ magnitude n e := Nat.mul_le_mul_right _ hnormal

/-- The exponents are compared first, and then the mantissas. -/
theorem magnitude_lt_iff (hm : Canonical m d) (hn : Canonical n e) :
    magnitude m d < magnitude n e ↔ d < e ∨ d = e ∧ m < n := by
  constructor
  · intro h
    rcases Int.lt_trichotomy d e with hlt | rfl | hgt
    · exact .inl hlt
    · exact .inr ⟨rfl, Nat.lt_of_mul_lt_mul_right h⟩
    · have := magnitude_lt_of_lt hn hm hgt
      omega
  · rintro (hlt | ⟨rfl, hlt⟩)
    · exact magnitude_lt_of_lt hm hn hlt
    · exact Nat.mul_lt_mul_of_pos_right hlt (Nat.two_pow_pos _)

theorem magnitude_inj (hm : Canonical m d) (hn : Canonical n e)
    (h : magnitude m d = magnitude n e) : m = n ∧ d = e := by
  have hlt := magnitude_lt_iff hm hn
  have hgt := magnitude_lt_iff hn hm
  omega

theorem canonical_limit : Canonical (2 ^ 52) 972 :=
  ⟨by decide, by decide, .inl (Nat.le_refl _)⟩

/-- The finite numbers are those below the limit. -/
theorem magnitude_lt_limit_iff (hm : Canonical m e) : magnitude m e < limit ↔ e ≤ 971 := by
  have hnormal := hm.normal_or_least
  have hlt := magnitude_lt_iff hm canonical_limit
  unfold limit
  omega

end

/-! ## Units -/

/-- What can be unpacked from the bits of a double. -/
def IsDouble : UnpackedFloat → Prop
  | .finite _ m e _ => Canonical m e ∧ e ≤ 971
  | _ => True

/-- How many times the smallest positive double, with the sign. -/
def units : UnpackedFloat → Int
  | .infinity s => s.apply limit
  | .notANumber => 0
  | .zero _ => 0
  | .finite s m e _ => s.apply (magnitude m e)

theorem limit_pos : 0 < limit := by
  unfold limit
  exact magnitude_pos (by decide)

theorem units_infinity (s : Sign) : units (.infinity s) = limit ∨ units (.infinity s) = -limit := by
  cases s with
  | negative => exact .inr rfl
  | positive => exact .inl rfl

theorem units_finite (s : Sign) {m : Nat} {e : Int} (hpos : 0 < m) :
    units (.finite s m e hpos) = magnitude m e ∨ units (.finite s m e hpos) = -magnitude m e := by
  cases s with
  | negative => exact .inr rfl
  | positive => exact .inl rfl

/-- The finite numbers are those between the infinities. -/
theorem units_of_isFinite {x : UnpackedFloat} (hx : IsDouble x) (hf : x.isFinite = true) :
    -limit < units x ∧ units x < limit := by
  have hlimit := limit_pos
  cases x with
  | notANumber => cases hf
  | infinity s => cases hf
  | zero s =>
    show -(limit : Int) < 0 ∧ (0 : Int) < limit
    omega
  | finite s m e hpos =>
    have hbound := (magnitude_lt_limit_iff hx.1).mpr hx.2
    have hunits := units_finite s hpos (e := e)
    omega

theorem units_bounds {x : UnpackedFloat} (hx : IsDouble x) :
    -limit ≤ units x ∧ units x ≤ limit := by
  cases x with
  | notANumber =>
    show -(limit : Int) ≤ 0 ∧ (0 : Int) ≤ limit
    omega
  | infinity s =>
    have hunits := units_infinity s
    omega
  | zero s =>
    have hinside := units_of_isFinite hx rfl
    omega
  | finite s m e hpos =>
    have hinside := units_of_isFinite hx rfl
    omega

theorem compare_then_eq_lt {m n : Nat} {d e : Int} :
    (compare d e).then (compare m n) = .lt ↔ d < e ∨ d = e ∧ m < n := by
  rw [Ordering.then_eq_lt, Int.compare_eq_lt, Int.compare_eq_eq, Nat.compare_eq_lt]

theorem compare_then_eq_gt {m n : Nat} {d e : Int} :
    (compare d e).then (compare m n) = .gt ↔ e < d ∨ e = d ∧ n < m := by
  rw [Ordering.then_eq_gt, Int.compare_eq_gt, Int.compare_eq_eq, Nat.compare_eq_gt]
  omega

/-- Comparison of numbers compares their units. -/
theorem lt_iff {x y : UnpackedFloat} (hx : IsDouble x) (hy : IsDouble y)
    (hxn : x.isNaN = false) (hyn : y.isNaN = false) : x.lt y = true ↔ units x < units y := by
  have hlimit := limit_pos
  unfold UnpackedFloat.lt
  cases x with
  | notANumber => cases hxn
  | infinity s =>
    cases y with
    | notANumber => cases hyn
    | infinity s' =>
      cases s <;> cases s' <;> simp [UnpackedFloat.compare, units, Sign.apply, compare]
      omega
    | zero s' =>
      cases s <;> simp [UnpackedFloat.compare, units, Sign.apply]
      omega
    | finite s' m e hm =>
      have hbound := (magnitude_lt_limit_iff hy.1).mpr hy.2
      cases s <;> cases s' <;> simp [UnpackedFloat.compare, units, Sign.apply] <;> omega
  | zero s =>
    cases y with
    | notANumber => cases hyn
    | infinity s' =>
      cases s' <;> simp [UnpackedFloat.compare, units, Sign.apply]
      omega
    | zero s' => simp [UnpackedFloat.compare, units]
    | finite s' m e hm =>
      have hpos := magnitude_pos hm (e := e)
      cases s' <;> simp [UnpackedFloat.compare, units, Sign.apply]
      omega
  | finite s m e hm =>
    have hpos := magnitude_pos hm (e := e)
    have hbound := (magnitude_lt_limit_iff hx.1).mpr hx.2
    cases y with
    | notANumber => cases hyn
    | infinity s' =>
      cases s <;> cases s' <;> simp [UnpackedFloat.compare, units, Sign.apply] <;> omega
    | zero s' =>
      cases s <;> simp [UnpackedFloat.compare, units, Sign.apply]
      omega
    | finite s' m' e' hm' =>
      have hpos' := magnitude_pos hm' (e := e')
      have hlt := magnitude_lt_iff hx.1 hy.1
      have hgt := magnitude_lt_iff hy.1 hx.1
      cases s <;> cases s' <;>
        simp [UnpackedFloat.compare, units, Sign.apply, compare_then_eq_lt, compare_then_eq_gt] <;>
        omega

/-- Units tell the numbers apart, but for the two zeros. -/
theorem eq_of_units_eq {x y : UnpackedFloat} (hx : IsDouble x) (hy : IsDouble y)
    (hxn : x.isNaN = false) (hyn : y.isNaN = false) (hxz : x ≠ .zero .negative)
    (hyz : y ≠ .zero .negative) (h : units x = units y) : x = y := by
  have hlimit := limit_pos
  cases x with
  | notANumber => cases hxn
  | infinity s =>
    have hunits := units_infinity s
    cases y with
    | notANumber => cases hyn
    | infinity s' => cases s <;> cases s' <;> simp [units, Sign.apply] at h ⊢ <;> omega
    | zero s' =>
      have hinside := units_of_isFinite hy rfl
      omega
    | finite s' m e hm =>
      have hinside := units_of_isFinite hy rfl
      omega
  | zero s =>
    have hzero : units (.zero s) = 0 := rfl
    cases y with
    | notANumber => cases hyn
    | infinity s' =>
      have hunits := units_infinity s'
      omega
    | zero s' => cases s <;> cases s' <;> simp at hxz hyz ⊢
    | finite s' m e hm =>
      have hpos := magnitude_pos hm (e := e)
      have hunits := units_finite s' hm (e := e)
      omega
  | finite s m e hm =>
    have hpos := magnitude_pos hm (e := e)
    have hunits := units_finite s hm (e := e)
    have hinside := units_of_isFinite hx rfl
    cases y with
    | notANumber => cases hyn
    | infinity s' =>
      have hunits' := units_infinity s'
      omega
    | zero s' =>
      have hzero : units (.zero s') = 0 := rfl
      omega
    | finite s' m' e' hm' =>
      have hpos' := magnitude_pos hm' (e := e')
      have hsame : s = s' := by
        cases s <;> cases s' <;> simp [units, Sign.apply] at h ⊢ <;> omega
      subst hsame
      have hmagnitude : magnitude m e = magnitude m' e' := by
        cases s <;> simp [units, Sign.apply] at h <;> omega
      obtain ⟨rfl, rfl⟩ := magnitude_inj hx.1 hy.1 hmagnitude
      rfl

end VertexEngine.Binary64
