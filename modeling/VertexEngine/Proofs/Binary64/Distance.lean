import VertexEngine.Proofs.Binary64.Addition
import VertexEngine.Proofs.ShortestPath.Distance

/-!
# Doubles as distances

Doubles obey the laws of distances.  A distance is any number but the negative zero, which no sum
from zero can be, and a weight is any finite number.  Rounding and overflow are taken into account:
a sum that is too large is infinite.

`le_add` says that a weight that is not negative lowers no distance.
-/

namespace VertexEngine.Binary64

open Float.Model Float.Model.UnpackedFloat

variable {a b w : Float}

theorem number_add (a b : Float) : number (a + b) = storedSum (number a) (number b) :=
  rfl

theorem lt_iff_units_lt (ha : IsSum (number a)) (hb : IsSum (number b)) :
    Distance.lt a b = true ↔ units (number a) < units (number b) := by
  have hlt : Distance.lt a b = true ↔ (number a).lt (number b) = true := by
    show decide (decide (a.toModel < b.toModel) = true) = true ↔ _
    rw [decide_eq_true_iff, decide_eq_true_iff]
    rfl
  rw [hlt, lt_iff ha.isDouble hb.isDouble ha.isNumber hb.isNumber]

theorem lt_eq_false_iff (ha : IsSum (number a)) (hb : IsSum (number b)) :
    Distance.lt a b = false ↔ units (number b) ≤ units (number a) := by
  rw [← Bool.not_eq_true, lt_iff_units_lt ha hb, Int.not_lt]

/-! ## Sums -/

/-- The units of a sum: an infinity stays, and everything else is rounded. -/
def added (u z : Int) : Int :=
  if u = limit ∨ u = -limit then u else bounded (u + z)

theorem added_mono {u v : Int} (hu : -limit ≤ u) (hv : v ≤ limit) (h : u ≤ v) (z : Int) :
    added u z ≤ added v z := by
  have hbu := bounded_le (u + z)
  have hbv := bounded_le (v + z)
  have hmono := bounded_mono (Int.add_le_add_right h z)
  unfold added
  split <;> split <;> omega

theorem isFinite_or_infinity {x : UnpackedFloat} (h : x.isNaN = false) :
    x.isFinite = true ∨ ∃ s, x = .infinity s := by
  cases x with
  | notANumber => cases h
  | infinity s => exact .inr ⟨s, rfl⟩
  | zero s => exact .inl rfl
  | finite s m e hpos => exact .inl rfl

theorem add_spec (ha : IsSum (number a)) (hw : w.isFinite = true) :
    IsSum (number (a + w)) ∧
      units (number (a + w)) = added (units (number a)) (units (number w)) := by
  rw [number_add]
  have hw' : (number w).isFinite = true := hw
  rcases isFinite_or_infinity ha.isNumber with hf | ⟨s, hs⟩
  · have hinside := units_of_isFinite ha.isDouble hf
    obtain ⟨hsum, hunits⟩ := storedSum_finite ha (isDouble_number w) hf hw'
    rw [added, if_neg (by omega)]
    exact ⟨hsum, hunits⟩
  · rw [hs] at ha ⊢
    rw [storedSum_infinity s hw', added, if_pos (units_infinity s)]
    exact ⟨ha, rfl⟩

theorem add_mono (ha : IsSum (number a)) (hb : IsSum (number b)) (hw : w.isFinite = true)
    (h : units (number a) ≤ units (number b)) :
    units (number (a + w)) ≤ units (number (b + w)) := by
  rw [(add_spec ha hw).2, (add_spec hb hw).2]
  exact added_mono (units_bounds ha.isDouble).1 (units_bounds hb.isDouble).2 h _

theorem isSum_zero : IsSum (number Distance.zero) := by
  have hzero : number Distance.zero = .zero .positive := rfl
  rw [hzero]
  exact ⟨trivial, rfl, by simp⟩

theorem number_infinity : number Distance.infinity = .infinity .positive :=
  rfl

theorem isSum_infinity : IsSum (number Distance.infinity) := by
  rw [number_infinity]
  exact ⟨trivial, rfl, by simp⟩

theorem infinity_add (hw : w.isFinite = true) :
    Distance.add Distance.infinity w = Distance.infinity :=
  number_inj (storedSum_infinity .positive hw)

end VertexEngine.Binary64

namespace VertexEngine

open Binary64

/-- Doubles obey the laws of distances. -/
instance : LawfulDistance Float where
  IsDistance x := IsSum (number x)
  IsWeight w := w.isFinite = true
  isDistance_zero := isSum_zero
  isDistance_infinity := isSum_infinity
  isDistance_add ha hw := (add_spec ha hw).1
  lt_asymm ha hb h := by
    rw [lt_iff_units_lt ha hb] at h
    rw [lt_eq_false_iff hb ha]
    omega
  not_lt_trans ha hb hc hba hcb := by
    rw [lt_eq_false_iff hb ha] at hba
    rw [lt_eq_false_iff hc hb] at hcb
    rw [lt_eq_false_iff hc ha]
    omega
  eq_of_not_lt ha hb hab hba := by
    rw [lt_eq_false_iff ha hb] at hab
    rw [lt_eq_false_iff hb ha] at hba
    refine number_inj ?_
    exact eq_of_units_eq ha.isDouble hb.isDouble ha.isNumber hb.isNumber ha.ne_zero hb.ne_zero
      (by omega)
  infinity_greatest ha := by
    rw [lt_eq_false_iff isSum_infinity ha, number_infinity]
    exact (units_bounds ha.isDouble).2
  min_eq {a b} ha hb := by
    show (if b.isNaN || a < b then a else b) = _
    have hnumber : b.isNaN = false := hb.isNumber
    rw [hnumber, Bool.false_or]
    rfl
  add_mono ha hb hw h := by
    rw [lt_eq_false_iff hb ha] at h
    exact (lt_eq_false_iff (add_spec hb hw).1 (add_spec ha hw).1).mpr (add_mono ha hb hw h)
  infinity_add := infinity_add

/-- A distance is a number. -/
theorem Binary64.isNaN_eq_false {d : Float} (h : IsDistance d) : d.isNaN = false :=
  IsSum.isNumber h

/-- A weight that is not negative lowers no distance. -/
theorem Binary64.le_add {d w : Float} (hd : IsDistance d) (hw : IsWeight w) (h : 0.0 ≤ w) :
    Distance.Le d (Distance.add d w) := by
  have hunits : 0 ≤ units (number w) := by
    have hmodel : (0.0 : Float).toModel ≤ w.toModel := of_decide_eq_true h
    have hle : (Float.Model.UnpackedFloat.zero .positive).le (number w) = true := hmodel
    generalize number w = x at hle
    cases x with
    | notANumber => cases hle
    | zero s => exact Int.le_refl 0
    | infinity s =>
      cases s with
      | negative => cases hle
      | positive => exact Int.natCast_nonneg _
    | finite s m e hpos =>
      cases s with
      | negative => cases hle
      | positive => exact Int.natCast_nonneg _
  obtain ⟨hsum, hadd⟩ := add_spec hd hw
  refine ⟨hd, hsum, (lt_eq_false_iff hsum hd).mpr ?_⟩
  show units (number d) ≤ units (number (d + w))
  rw [hadd, added]
  split
  · exact Int.le_refl _
  · rename_i hinside
    have hf : (number d).isFinite = true := by
      rcases isFinite_or_infinity hd.isNumber with hf | ⟨s, hs⟩
      · exact hf
      · exact absurd (units_infinity s) (hs ▸ hinside)
    have hmono :=
      bounded_mono (show units (number d) ≤ units (number d) + units (number w) by omega)
    rw [bounded_units hd.isDouble hf] at hmono
    exact hmono

end VertexEngine
