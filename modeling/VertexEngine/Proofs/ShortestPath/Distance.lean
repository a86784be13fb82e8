import VertexEngine.Programs.ShortestPath

/-!
# Laws of distances

Relaxation uses little of its numbers, and a `LawfulDistance` is what it relies on: comparison is a
linear order, infinity is the greatest distance, and adding a weight keeps the order on the left and
stays at infinity.  Addition need not be associative, and nothing is said of rounding.

* `IsDistance` holds of the values that sums from zero can take, and `IsWeight` of the numbers that
  may be added to them.
* `Distance.Le` is the order.  It holds of distances only, so its lemmas have no side conditions.
-/

namespace VertexEngine

/-- Comparison orders the distances, and adding a weight to them is monotone. -/
class LawfulDistance (W : Type) [Distance W] where
  /-- Whether a sum from zero can have this value. -/
  IsDistance : W → Prop
  /-- Whether an edge may have this weight. -/
  IsWeight : W → Prop
  isDistance_zero : IsDistance Distance.zero
  isDistance_infinity : IsDistance Distance.infinity
  isDistance_add : ∀ {a w : W}, IsDistance a → IsWeight w → IsDistance (Distance.add a w)
  lt_asymm : ∀ {a b : W}, IsDistance a → IsDistance b →
    Distance.lt a b = true → Distance.lt b a = false
  not_lt_trans : ∀ {a b c : W}, IsDistance a → IsDistance b → IsDistance c →
    Distance.lt b a = false → Distance.lt c b = false → Distance.lt c a = false
  eq_of_not_lt : ∀ {a b : W}, IsDistance a → IsDistance b →
    Distance.lt a b = false → Distance.lt b a = false → a = b
  infinity_greatest : ∀ {a : W}, IsDistance a → Distance.lt Distance.infinity a = false
  min_eq : ∀ {a b : W}, IsDistance a → IsDistance b →
    Distance.min a b = if Distance.lt a b then a else b
  add_mono : ∀ {a b w : W}, IsDistance a → IsDistance b → IsWeight w →
    Distance.lt b a = false → Distance.lt (Distance.add b w) (Distance.add a w) = false
  infinity_add : ∀ {w : W}, IsWeight w → Distance.add Distance.infinity w = Distance.infinity

export LawfulDistance (IsDistance IsWeight)

namespace Distance

variable {W : Type} [Distance W] [LawfulDistance W] {a b c w : W}

/-- Both are distances, and the first is not above the second. -/
structure Le (a b : W) : Prop where
  left : IsDistance a
  right : IsDistance b
  not_lt : lt b a = false

theorem Le.refl (ha : IsDistance a) : Le a a := by
  refine ⟨ha, ha, ?_⟩
  cases h : lt a a with
  | false => rfl
  | true => exact h.symm.trans (LawfulDistance.lt_asymm ha ha h)

theorem Le.trans (hab : Le a b) (hbc : Le b c) : Le a c := by
  have hca := LawfulDistance.not_lt_trans hab.left hab.right hbc.right hab.not_lt hbc.not_lt
  exact ⟨hab.left, hbc.right, hca⟩

theorem Le.antisymm (hab : Le a b) (hba : Le b a) : a = b :=
  LawfulDistance.eq_of_not_lt hab.left hab.right hba.not_lt hab.not_lt

theorem le_of_lt (ha : IsDistance a) (hb : IsDistance b) (h : lt a b = true) : Le a b :=
  ⟨ha, hb, LawfulDistance.lt_asymm ha hb h⟩

theorem lt_of_lt_of_le (ha : IsDistance a) (hab : lt a b = true) (hbc : Le b c) :
    lt a c = true := by
  cases hac : lt a c with
  | true => rfl
  | false =>
    have hba : Le b a := hbc.trans ⟨hbc.right, ha, hac⟩
    exact hba.not_lt.symm.trans hab

theorem lt_of_le_of_lt (hab : Le a b) (hbc : lt b c = true) (hc : IsDistance c) :
    lt a c = true := by
  cases hac : lt a c with
  | true => rfl
  | false =>
    have hcb : Le c b := .trans ⟨hc, hab.left, hac⟩ hab
    exact hcb.not_lt.symm.trans hbc

theorem le_infinity (ha : IsDistance a) : Le a infinity :=
  ⟨ha, LawfulDistance.isDistance_infinity, LawfulDistance.infinity_greatest ha⟩

theorem Le.add (hab : Le a b) (hw : IsWeight w) : Le (add a w) (add b w) where
  left := LawfulDistance.isDistance_add hab.left hw
  right := LawfulDistance.isDistance_add hab.right hw
  not_lt := LawfulDistance.add_mono hab.left hab.right hw hab.not_lt

/-- The smaller of two distances is one of them. -/
theorem min_cases (ha : IsDistance a) (hb : IsDistance b) :
    (min a b = a ∧ Le a b) ∨ (min a b = b ∧ Le b a) := by
  rw [LawfulDistance.min_eq ha hb]
  cases h : lt a b with
  | true =>
    left
    rw [if_pos rfl]
    exact ⟨rfl, le_of_lt ha hb h⟩
  | false =>
    right
    rw [if_neg Bool.false_ne_true]
    exact ⟨rfl, hb, ha, h⟩

theorem min_le_left (ha : IsDistance a) (hb : IsDistance b) : Le (min a b) a := by
  rcases min_cases ha hb with ⟨hmin, -⟩ | ⟨hmin, hle⟩
  · rw [hmin]
    exact .refl ha
  · rw [hmin]
    exact hle

theorem min_le_right (ha : IsDistance a) (hb : IsDistance b) : Le (min a b) b := by
  rcases min_cases ha hb with ⟨hmin, hle⟩ | ⟨hmin, -⟩
  · rw [hmin]
    exact hle
  · rw [hmin]
    exact .refl hb

end Distance

end VertexEngine
