import VertexEngine.Proofs.Binary64.Units

/-!
# The bits of a double

* `isDouble_unpack` says what the bits of a double stand for.
* `stored` is what becomes of a number in the bits of a double, and `stored_finite` says that a
  canonical number is left as it is, or becomes an infinity if its exponent is too large.
* `number` reads the bits of a double, and `number_inj` says that it loses nothing.
-/

namespace VertexEngine.Binary64

open Float.Model Float.Model.UnpackedFloat

/-! ## Unpacking -/

/-- A mantissa with its implicit bit. -/
theorem toNat_implicit (mantissa : BitVec 52) :
    (1#1 ++ mantissa).toNat = 2 ^ 52 + mantissa.toNat := by
  rw [BitVec.toNat_append, ← Nat.shiftLeft_add_eq_or_of_lt mantissa.isLt]
  rfl

theorem isDouble_unpack (b : BitVec Format.binary64.numBits) :
    IsDouble (UnpackedFloat.unpack Format.binary64 b) := by
  have hmantissa : (unpackMantissa b).toNat < 2 ^ 52 := (unpackMantissa b).isLt
  have hexponent : (unpackExponent b).toNat < 2 ^ 11 := (unpackExponent b).isLt
  unfold UnpackedFloat.unpack
  dsimp only
  split
  · split <;> trivial
  · rename_i hmax
    have hmax' : (unpackExponent b).toNat ≠ 2047 := fun h => hmax (BitVec.eq_of_toNat_eq h)
    split
    · rename_i hmin
      split
      · trivial
      · rw [hmin]
        exact ⟨⟨by omega, by decide, .inr rfl⟩, by decide⟩
    · rename_i hmin
      have hmin' : (unpackExponent b).toNat ≠ 0 := fun h => hmin (BitVec.eq_of_toNat_eq h)
      show Canonical (1#1 ++ unpackMantissa b).toNat ((unpackExponent b).toNat - 1075) ∧
        (unpackExponent b).toNat - 1075 ≤ (971 : Int)
      rw [toNat_implicit]
      exact ⟨⟨by omega, by omega, .inl (by omega)⟩, by omega⟩

/-- The bits of a normal number. -/
theorem unpack_normal (s : Sign) {exponent : BitVec 11} (mantissa : BitVec 52)
    (hmin : exponent ≠ 0#11) (hmax : exponent ≠ -1#11) :
    UnpackedFloat.unpack Format.binary64 (packComponents Format.binary64 s exponent mantissa) =
      .finite s (2 ^ 52 + mantissa.toNat) (exponent.toNat - 1075) (by omega) := by
  unfold UnpackedFloat.unpack
  simp only [unpackExponent_packComponents, unpackMantissa_packComponents,
    unpackSign_packComponents, Sign.ofBitVec_toBitVec]
  rw [if_neg hmax, if_neg hmin, UnpackedFloat.finite.injEq]
  exact ⟨rfl, toNat_implicit mantissa, rfl⟩

/-- The bits of a number that is too small for an implicit bit. -/
theorem unpack_subnormal (s : Sign) {mantissa : BitVec 52} (hpos : 0 < mantissa.toNat) :
    UnpackedFloat.unpack Format.binary64 (packComponents Format.binary64 s 0#11 mantissa) =
      .finite s mantissa.toNat (-1074) hpos := by
  have hne : mantissa ≠ 0#52 := by
    rintro rfl
    exact absurd hpos (by decide)
  unfold UnpackedFloat.unpack
  simp only [unpackExponent_packComponents, unpackMantissa_packComponents,
    unpackSign_packComponents, Sign.ofBitVec_toBitVec]
  rw [if_neg (by decide), if_pos trivial, dif_neg hne, UnpackedFloat.finite.injEq]
  exact ⟨rfl, rfl, rfl⟩

/-! ## Packing -/

/-- What the bits stand for that a number is packed into. -/
def stored (x : UnpackedFloat) : UnpackedFloat :=
  UnpackedFloat.unpack Format.binary64 (UnpackedFloat.pack Format.binary64 x)

theorem stored_infinity (s : Sign) : stored (.infinity s) = .infinity s := by
  simp [stored, UnpackedFloat.pack, packedInfinity, UnpackedFloat.unpack]

theorem stored_zero (s : Sign) : stored (.zero s) = .zero s :=
  unpack_packedZero

/-- A canonical number survives packing, unless its exponent is too large. -/
theorem stored_finite (s : Sign) {m : Nat} {e : Int} (hpos : 0 < m) (h : Canonical m e) :
    stored (.finite s m e hpos) = if e ≤ 971 then .finite s m e hpos else .infinity s := by
  obtain ⟨hlt, hleast, hnormal⟩ := h
  have hbias : (e + Format.binary64.exponentBias +
      Format.binary64.mantissaBitsWithoutImplicit).toNat = (e + 1075).toNat := by
    show (e + 1023 + 52).toNat = _
    omega
  have hlog : m.log2 + 1 = Format.binary64.mantissaBits ↔ 2 ^ 52 ≤ m := by
    show m.log2 + 1 = 53 ↔ _
    have hle := Nat.le_log2 (k := 52) (Nat.ne_of_gt hpos)
    have hlt' := (Nat.log2_lt (Nat.ne_of_gt hpos)).mpr hlt
    omega
  unfold stored UnpackedFloat.pack
  simp only [hbias, hlog]
  split
  · rename_i hlarge
    have he : ¬e ≤ 971 := by
      change 2 ^ 11 ≤ _ at hlarge
      omega
    rw [if_neg he]
    exact stored_infinity s
  · rename_i hsmall
    have he : e ≤ 971 := by
      change ¬2 ^ 11 ≤ _ at hsmall
      omega
    rw [if_pos he]
    split
    · rename_i hm
      have hexponent : (BitVec.ofNat 11 (e + 1075).toNat).toNat = (e + 1075).toNat := by
        rw [BitVec.toNat_ofNat]
        omega
      have hmantissa : (BitVec.ofNat 52 m).toNat = m - 2 ^ 52 := by
        rw [BitVec.toNat_ofNat]
        omega
      have hmin : BitVec.ofNat 11 (e + 1075).toNat ≠ 0#11 := by
        rw [Ne, ← BitVec.toNat_inj, hexponent]
        show (e + 1075).toNat ≠ 0
        omega
      have hmax : BitVec.ofNat 11 (e + 1075).toNat ≠ -1#11 := by
        rw [Ne, ← BitVec.toNat_inj, hexponent]
        show (e + 1075).toNat ≠ 2047
        omega
      refine (unpack_normal s _ hmin hmax).trans ?_
      rw [UnpackedFloat.finite.injEq]
      exact ⟨rfl, by omega, by omega⟩
    · rename_i hm
      have hmantissa : (BitVec.ofNat 52 m).toNat = m := by
        rw [BitVec.toNat_ofNat]
        omega
      refine (unpack_subnormal s (by omega)).trans ?_
      rw [UnpackedFloat.finite.injEq]
      exact ⟨rfl, hmantissa, by omega⟩

/-! ## Doubles -/

/-- The number that the bits of a double stand for. -/
def number (x : Float) : UnpackedFloat :=
  x.toModel.unpack

theorem isDouble_number (x : Float) : IsDouble (number x) :=
  isDouble_unpack _

/-- The number tells the bits: only one pattern stands for what is not a number. -/
theorem number_inj {a b : Float} (h : number a = number b) : a = b := by
  obtain ⟨⟨bits, hvalid⟩⟩ := a
  obtain ⟨⟨bits', hvalid'⟩⟩ := b
  have hbits : bits.toBitVec = bits'.toBitVec := (unpack_inj_of_valid hvalid hvalid').mp h
  obtain rfl := UInt64.toBitVec_inj.mp hbits
  rfl

end VertexEngine.Binary64
