import LuaTT.Lua.Value
import LuaTT.Library.ExactDouble

/-! Integers as Lua numbers and as text. An int that C hands to Lua is the same int when it comes back, as a
number or as the text of one. -/
namespace LuaTT.Lua
open ExactDouble
set_option autoImplicit false

/-! ## Conversion to a C int -/

theorem truncated_ofNat {n : ℕ} (hn : n < 2 ^ 53) : truncated (Float.ofNat n) = some (n : ℤ) := by
  obtain rfl | hpos := Nat.eq_zero_or_pos n
  · rfl
  · have hlog : n.log2 < 53 := (Nat.log2_lt hpos.ne').mpr hn
    have hlow : (exponent n).toNat = 0 := by simp only [exponent]; omega
    have hhigh : (-exponent n).toNat = 52 - n.log2 := by simp only [exponent]; omega
    have hdiv : mantissa n * 2 ^ 0 / 2 ^ (52 - n.log2) = n := by
      rw [Nat.pow_zero, Nat.mul_one, mantissa, Nat.mul_div_cancel _ (Nat.two_pow_pos _)]
    simp only [truncated, unpack_ofNat hpos hn, hlow, hhigh, hdiv]

theorem truncated_ofInt {i : ℤ} (hi : i.natAbs < 2 ^ 53) : truncated (Float.ofInt i) = some i := by
  cases i with
  | ofNat n => exact truncated_ofNat hi
  | negSucc n =>
    have hn : n + 1 < 2 ^ 53 := hi
    have hpos : 0 < n + 1 := Nat.succ_pos n
    have hlog : (n + 1).log2 < 53 := (Nat.log2_lt hpos.ne').mpr hn
    have hlow : (exponent (n + 1)).toNat = 0 := by simp only [exponent]; omega
    have hhigh : (-exponent (n + 1)).toNat = 52 - (n + 1).log2 := by simp only [exponent]; omega
    have hdiv : mantissa (n + 1) * 2 ^ 0 / 2 ^ (52 - (n + 1).log2) = n + 1 := by
      rw [Nat.pow_zero, Nat.mul_one, mantissa, Nat.mul_div_cancel _ (Nat.two_pow_pos _)]
    show truncated (-Float.ofNat (n + 1)) = _
    simp only [truncated, unpack_neg hpos hn, hlow, hhigh, hdiv]
    rfl

theorem toCInt_ofInt {i : ℤ} (hi : -2 ^ 31 ≤ i ∧ i < 2 ^ 31) : toCInt (Float.ofInt i) = i := by
  have habs : i.natAbs < 2 ^ 53 := by omega
  simp only [toCInt, truncated_ofInt habs, if_pos hi]

theorem toCUInt_ofNat {n : ℕ} (hn : n < 2 ^ 32) : toCUInt (Float.ofNat n) = n := by
  have hsmall : n < 2 ^ 53 := by omega
  simp only [toCUInt, truncated_ofNat hsmall, Option.getD_some]
  omega

/-! ## Decimal digits -/

def digit (d : ℕ) : UInt8 := (48 + d).toUInt8

theorem asciiDigits_of_lt {n : ℕ} (hn : n < 10) : asciiDigits n = [digit n] := by
  revert n
  decide

theorem asciiDigits_of_le {n : ℕ} (hn : 10 ≤ n) : asciiDigits n = asciiDigits (n / 10) ++ [digit (n % 10)] := by
  have hlt : n % 10 < 10 := Nat.mod_lt n (by decide)
  rw [← asciiDigits_of_lt hlt, asciiDigits, Nat.toDigits_of_base_le (by decide) hn, List.map_append,
    asciiDigits, asciiDigits, Nat.toDigits_of_lt_base hlt]

/-- A property of all numbers, by their last digit. -/
theorem digits_induction {b : ℕ} (hb : 1 < b) {P : ℕ → Prop} (hlt : ∀ n < b, P n)
    (hle : ∀ n, b ≤ n → P (n / b) → P n) (n : ℕ) : P n := by
  induction n using Nat.strong_induction_on with
  | _ n ih =>
    obtain hn | hn := Nat.lt_or_ge n b
    · exact hlt n hn
    · exact hle n hn (ih (n / b) (Nat.div_lt_self (by omega) hb))

theorem digit_spec : ∀ d < 10, ljCharIsdigit (digit d) = true ∧ digitValue (digit d) = d := by
  decide

theorem asciiDigits_isdigit (n : ℕ) : ∀ c ∈ asciiDigits n, ljCharIsdigit c = true := by
  induction n using digits_induction (b := 10) (by decide) with
  | hlt n hn =>
    intro c hc
    rw [asciiDigits_of_lt hn, List.mem_singleton] at hc
    rw [hc]
    exact (digit_spec n hn).1
  | hle n hn ih =>
    intro c hc
    rw [asciiDigits_of_le hn, List.mem_append, List.mem_singleton] at hc
    obtain hc | hc := hc
    · exact ih c hc
    · rw [hc]
      exact (digit_spec _ (Nat.mod_lt n (by decide))).1

/-- The number that digits stand for, read from the left behind `m`. -/
def readDigits (m : ℕ) (ds : Bytes) : ℕ := ds.foldl (fun m c => m * 10 + digitValue c) m

theorem readDigits_asciiDigits (n : ℕ) : readDigits 0 (asciiDigits n) = n := by
  induction n using digits_induction (b := 10) (by decide) with
  | hlt n hn =>
    rw [asciiDigits_of_lt hn]
    show 0 * 10 + digitValue (digit n) = n
    rw [(digit_spec n hn).2]
    omega
  | hle n hn ih =>
    rw [asciiDigits_of_le hn, readDigits, List.foldl_append]
    show readDigits 0 (asciiDigits (n / 10)) * 10 + digitValue (digit (n % 10)) = n
    rw [ih, (digit_spec _ (Nat.mod_lt n (by decide))).2]
    omega

theorem asciiDigits_ne_nil (n : ℕ) : asciiDigits n ≠ [] := by
  simp [asciiDigits, Nat.toDigits_ne_nil]

/-- A first digit 0 stands alone. -/
theorem asciiDigits_head {n : ℕ} (hn : 0 < n) : (asciiDigits n).head? ≠ some 48 := by
  induction n using digits_induction (b := 10) (by decide) with
  | hlt n hlt =>
    revert hn
    revert n
    decide
  | hle n hle ih =>
    obtain ⟨d, ds, hds⟩ := List.exists_cons_of_ne_nil (asciiDigits_ne_nil (n / 10))
    have hhead := ih (by omega)
    rw [hds] at hhead
    rw [asciiDigits_of_le hle, hds]
    exact hhead

theorem asciiDigits_mul_ten (n : ℕ) (hn : 0 < n) : asciiDigits (n * 10) = asciiDigits n ++ [48] := by
  have hdiv : n * 10 / 10 = n := Nat.mul_div_cancel n (by decide)
  have hmod : n * 10 % 10 = 0 := Nat.mul_mod_left n 10
  rw [asciiDigits_of_le (by omega), hdiv, hmod]
  rfl

theorem asciiDigits_mul_pow (n k : ℕ) (hn : 0 < n) :
    asciiDigits (n * 10 ^ k) = asciiDigits n ++ List.replicate k 48 := by
  induction k with
  | zero => simp
  | succ k ih =>
    have hpos : 0 < n * 10 ^ k := Nat.mul_pos hn (Nat.pow_pos (by decide))
    rw [Nat.pow_succ, ← Nat.mul_assoc, asciiDigits_mul_ten _ hpos, ih, List.append_assoc,
      List.replicate_succ']

theorem length_asciiDigits (n : ℕ) : (asciiDigits n).length = digitCount n := by
  rw [asciiDigits, List.length_map]
  rfl

theorem digitCount_bounds {n : ℕ} (hn : 0 < n) : 0 < digitCount n ∧ 10 ^ (digitCount n - 1) ≤ n ∧ n < 10 ^ digitCount n := by
  induction n using digits_induction (b := 10) (by decide) with
  | hlt n hlt =>
    have hone : digitCount n = 1 := by rw [← length_asciiDigits, asciiDigits_of_lt hlt]; rfl
    rw [hone]
    omega
  | hle n hle ih =>
    have hcount : digitCount n = digitCount (n / 10) + 1 := by
      rw [← length_asciiDigits, ← length_asciiDigits, asciiDigits_of_le hle, List.length_append]
      rfl
    obtain ⟨hpos, hlow, hhigh⟩ := ih (by omega)
    have hsplit : 10 ^ digitCount (n / 10) = 10 ^ (digitCount (n / 10) - 1) * 10 := by
      rw [← Nat.pow_succ]
      congr 1
      omega
    rw [hcount, Nat.pow_succ, Nat.add_sub_cancel]
    omega

/-! ## Scanning -/

theorem scanDigits_digits (ds : Bytes) (hds : ∀ c ∈ ds, ljCharIsdigit c = true) (m k : ℕ) :
    scanDigits 10 false ⟨m, k, 0⟩ ds = some (⟨readDigits m ds, k + ds.length, 0⟩, []) := by
  induction ds generalizing m k with
  | nil => rfl
  | cons c ds ih =>
    obtain ⟨hc, hrest⟩ := List.forall_mem_cons.mp hds
    have hstep := ih hrest (m * 10 + digitValue c) (k + 1)
    have hten : ¬(10 : ℕ) = 16 := by decide
    rw [scanDigits, if_neg hten, if_pos hc]
    show scanDigits 10 false ⟨m * 10 + digitValue c, k + 1, 0⟩ ds = _
    rw [hstep, List.length_cons]
    show some (_, _) = some (_, _)
    congr 3
    omega

theorem scanRegular_asciiDigits (neg : Bool) (n : ℕ) :
    scanRegular neg (asciiDigits n) = some (if neg && !(n = 0) then -Float.ofNat n else Float.ofNat n) := by
  obtain rfl | hpos := Nat.eq_zero_or_pos n
  · cases neg <;> rfl
  · have hscan := scanDigits_digits (asciiDigits n) (asciiDigits_isdigit n) 0 0
    have hcount : ¬(0 + (asciiDigits n).length = 0) := by simp [asciiDigits_ne_nil]
    have hhead := asciiDigits_head hpos
    rw [readDigits_asciiDigits] at hscan
    unfold scanRegular
    split
    next base p heq =>
      have hdecimal : base = 10 ∧ p = asciiDigits n := by
        split at heq
        · rename_i hzero
          rw [hzero] at hhead
          exact absurd rfl hhead
        · cases heq
          exact ⟨rfl, rfl⟩
      obtain ⟨rfl, rfl⟩ := hdecimal
      have hten : ¬(10 : ℕ) = 16 := by decide
      have hzero : decide (n = 0) = false := decide_eq_false hpos.ne'
      have hexact : strscanDec n 0 0 = Float.ofNat n := rfl
      simp only [hscan, if_neg hcount, scanExponentPart, if_neg hten, hexact, hzero, Bool.and_false]
      rfl

/-- The text `sprintf` makes of an int with "%d". -/
def decimal (i : ℤ) : Bytes := if i < 0 then 45 :: asciiDigits i.natAbs else asciiDigits i.natAbs

theorem isdigit_bounds {c : UInt8} (hc : ljCharIsdigit c = true) : 48 ≤ c ∧ c ≤ 57 := by
  simpa [ljCharIsdigit] using hc

theorem cstring_asciiDigits (n : ℕ) : cstring (asciiDigits n) = asciiDigits n := by
  apply cstring_eq_self.mpr
  intro h
  exact absurd (asciiDigits_isdigit n 0 h) (by decide)

theorem cstring_decimal (i : ℤ) : cstring (decimal i) = decimal i := by
  unfold decimal
  split
  · rw [cstring, List.takeWhile_cons_of_pos (by decide)]
    exact congrArg (45 :: ·) (cstring_asciiDigits _)
  · exact cstring_asciiDigits _

theorem ljStrscanNum_asciiDigits (n : ℕ) : ljStrscanNum (asciiDigits n) = some (Float.ofNat n) := by
  obtain ⟨c, ds, hds⟩ := List.exists_cons_of_ne_nil (asciiDigits_ne_nil n)
  have hdigit : ljCharIsdigit c = true := asciiDigits_isdigit n c (by simp [hds])
  have hfirst : ((asciiDigits n).take 1).any ljCharIsdigit = true := by simp [hds, hdigit]
  rw [ljStrscanNum]
  simp only [cstring_asciiDigits, if_pos hfirst]
  exact scanRegular_asciiDigits false n

theorem ljStrscanNum_minus {n : ℕ} (hn : 0 < n) : ljStrscanNum (45 :: asciiDigits n) = some (-Float.ofNat n) := by
  obtain ⟨c, ds, hds⟩ := List.exists_cons_of_ne_nil (asciiDigits_ne_nil n)
  have hdigit : ljCharIsdigit c = true := asciiDigits_isdigit n c (by simp [hds])
  have hletter : ¬((asciiDigits n).take 1).any (65 ≤ ·) = true := by
    have hle := (isdigit_bounds hdigit).2
    simp only [hds, List.take_succ_cons, List.take_zero, List.any_cons, List.any_nil, Bool.or_false,
      decide_eq_true_eq]
    intro h
    exact absurd (UInt8.le_trans h hle) (by decide)
  have hcstring : cstring (45 :: asciiDigits n) = 45 :: asciiDigits n := by
    rw [cstring, List.takeWhile_cons_of_pos (by decide)]
    exact congrArg (45 :: ·) (cstring_asciiDigits _)
  have hminus : ¬((45 :: asciiDigits n).take 1).any ljCharIsdigit = true := by
    rw [List.take_succ_cons, List.take_zero]
    decide
  have hspace : (45 :: asciiDigits n).dropWhile ljCharIsspace = 45 :: asciiDigits n :=
    List.dropWhile_cons_of_neg (by decide)
  rw [ljStrscanNum]
  simp only [hcstring, if_neg hminus, hspace, scanSign, if_neg hletter]
  rw [scanRegular_asciiDigits, decide_eq_false hn.ne']
  rfl

theorem ljStrscanNum_decimal (i : ℤ) : ljStrscanNum (decimal i) = some (Float.ofInt i) := by
  cases i with
  | ofNat n =>
    have hpos : ¬Int.ofNat n < 0 := by
      simp
    rw [decimal, if_neg hpos]
    exact ljStrscanNum_asciiDigits n
  | negSucc n =>
    rw [decimal, if_pos (Int.negSucc_lt_zero n)]
    exact ljStrscanNum_minus (Nat.succ_pos n)

/-! ## Formatting -/

theorem digitCount_eq {n k : ℕ} (hlow : 10 ^ k ≤ n) (hhigh : n < 10 ^ (k + 1)) : digitCount n = k + 1 := by
  have hn : 0 < n := lt_of_lt_of_le (Nat.pow_pos (by decide)) hlow
  obtain ⟨hpos, hcount, hcount'⟩ := digitCount_bounds hn
  have hup : digitCount n - 1 < k + 1 :=
    (Nat.pow_lt_pow_iff_right (by decide)).mp (lt_of_le_of_lt hcount hhigh)
  have hdown : k < digitCount n := (Nat.pow_lt_pow_iff_right (by decide)).mp (lt_of_le_of_lt hlow hcount')
  omega

theorem decimalExponent_mul {n d : ℕ} (hn : 0 < n) (hd : 0 < d) :
    decimalExponent (n * d) d = (digitCount n - 1 : ℕ) := by
  have hnd : 0 < n * d := Nat.mul_pos hn hd
  obtain ⟨hb, hdlow, hdhigh⟩ := digitCount_bounds hd
  obtain ⟨ha, hlow, hhigh⟩ := digitCount_bounds hnd
  have hle : d ≤ n * d := Nat.le_mul_of_pos_left d hn
  have hcounts : digitCount d - 1 < digitCount (n * d) :=
    (Nat.pow_lt_pow_iff_right (by decide)).mp (lt_of_le_of_lt (hdlow.trans hle) hhigh)
  obtain ⟨e, he⟩ : ∃ e, digitCount (n * d) = digitCount d + e := ⟨digitCount (n * d) - digitCount d, by omega⟩
  -- the quotient has as many digits as the counts differ by, or one more
  have hquot : n < 10 ^ (e + 1) := by
    have hlt : n * 10 ^ (digitCount d - 1) < 10 ^ (e + 1) * 10 ^ (digitCount d - 1) := by
      rw [← Nat.pow_add]
      have hexp : e + 1 + (digitCount d - 1) = digitCount (n * d) := by omega
      rw [hexp]
      exact lt_of_le_of_lt (Nat.mul_le_mul_left n hdlow) hhigh
    exact Nat.lt_of_mul_lt_mul_right hlt
  have hdiff : (digitCount (n * d) : ℤ) - digitCount d = e := by omega
  simp only [decimalExponent, hdiff]
  have hneg : (-(e : ℤ)).toNat = 0 := by omega
  rw [hneg, Int.toNat_natCast, Nat.pow_zero, Nat.mul_one, Nat.mul_comm n d]
  split
  next hlt =>
    have hsmall : n < 10 ^ e := Nat.lt_of_mul_lt_mul_left hlt
    cases e with
    | zero => omega
    | succ e =>
      have hbig : 10 ^ e ≤ n := by
        have hpow : 10 ^ (digitCount (n * d) - 1) = 10 ^ e * 10 ^ digitCount d := by
          rw [← Nat.pow_add]
          congr 1
          omega
        rw [hpow] at hlow
        have hlt' : 10 ^ e * 10 ^ digitCount d ≤ n * 10 ^ digitCount d :=
          hlow.trans (Nat.mul_le_mul_left n hdhigh.le)
        exact Nat.le_of_mul_le_mul_right hlt' (Nat.pow_pos (by decide))
      rw [digitCount_eq hbig hsmall]
      omega
  next hge =>
    have hbig : 10 ^ e ≤ n := Nat.le_of_mul_le_mul_left (Nat.le_of_not_lt hge) hd
    rw [digitCount_eq hbig hquot]
    omega

theorem roundDiv_mul (q : ℕ) {d : ℕ} (hd : 0 < d) : roundDiv (q * d) d = q := by
  have hmod : q * d % d = 0 := Nat.mul_mod_left q d
  simp only [roundDiv, Nat.mul_div_cancel q hd, hmod, Nat.mul_zero, if_pos hd]

theorem dropTrailingZeros_replicate (k : ℕ) : dropTrailingZeros (List.replicate k 48) = [] := by
  rw [dropTrailingZeros, List.reverse_replicate, List.reverse_eq_nil_iff, List.dropWhile_eq_nil_iff]
  intro c hc
  rw [List.eq_of_mem_replicate hc]
  rfl

theorem formatG14_integer {n d : ℕ} (hn : 0 < n) (hmax : n < 10 ^ 14) (hd : 0 < d) :
    formatG14 (n * d) d = asciiDigits n := by
  obtain ⟨hpos, hlow, hhigh⟩ := digitCount_bounds hn
  have hcount : digitCount n - 1 < 14 :=
    (Nat.pow_lt_pow_iff_right (by decide)).mp (lt_of_le_of_lt hlow hmax)
  obtain ⟨e, he⟩ : ∃ e, digitCount n = e + 1 := ⟨digitCount n - 1, by omega⟩
  have hup : (13 - (e : ℤ)).toNat = 13 - e := by omega
  have hdown : ((e : ℤ) - 13).toNat = 0 := by omega
  have hround : roundDiv (n * d * 10 ^ (13 - e)) (d * 10 ^ 0) = n * 10 ^ (13 - e) := by
    rw [Nat.pow_zero, Nat.mul_one, Nat.mul_right_comm]
    exact roundDiv_mul _ hd
  have hfits : n * 10 ^ (13 - e) < 10 ^ 14 := by
    have hsplit : 10 ^ 14 = 10 ^ digitCount n * 10 ^ (13 - e) := by
      rw [← Nat.pow_add]
      congr 1
      omega
    rw [hsplit]
    exact Nat.mul_lt_mul_of_pos_right hhigh (Nat.pow_pos (by decide))
  have hlen : (asciiDigits n).length = e + 1 := (length_asciiDigits n).trans he
  have hfixed : ¬((e : ℤ) < -4 ∨ 14 ≤ (e : ℤ)) := by omega
  have hwhole : ¬(e : ℤ) < 0 := by omega
  have hcut : ((e : ℤ) + 1).toNat = (asciiDigits n).length := by omega
  have hexp := decimalExponent_mul hn hd
  rw [he, Nat.add_sub_cancel] at hexp
  simp only [formatG14, hexp, hup, hdown, hround, if_neg hfits.ne, if_neg hfixed, if_neg hwhole, hcut,
    asciiDigits_mul_pow n _ hn, List.take_left, List.drop_left, pointed, dropTrailingZeros_replicate]

theorem formatG14_mantissa {n : ℕ} (hn : 0 < n) (hmax : n < 10 ^ 14) :
    formatG14 (mantissa n * 2 ^ (exponent n).toNat) (2 ^ (-exponent n).toNat) = asciiDigits n := by
  have hlog : n.log2 < 53 := (Nat.log2_lt hn.ne').mpr (by omega)
  have hlow : (exponent n).toNat = 0 := by simp only [exponent]; omega
  have hhigh : (-exponent n).toNat = 52 - n.log2 := by simp only [exponent]; omega
  rw [hlow, hhigh, Nat.pow_zero, Nat.mul_one, mantissa]
  exact formatG14_integer hn hmax (Nat.two_pow_pos _)

/-- `lua_tostring` of an int is its decimal text. -/
theorem ljStrFromnum_ofInt {i : ℤ} (hi : i.natAbs < 10 ^ 14) : ljStrFromnum (Float.ofInt i) = decimal i := by
  cases i with
  | ofNat n =>
    have hmax : n < 10 ^ 14 := hi
    obtain rfl | hpos := Nat.eq_zero_or_pos n
    · rfl
    · have hunpack := unpack_ofNat hpos (by omega)
      show ljStrFromnum (Float.ofNat n) = _
      simp only [ljStrFromnum, hunpack, formatG14_mantissa hpos hmax]
      exact (if_neg (by simp)).symm
  | negSucc n =>
    have hmax : n + 1 < 10 ^ 14 := hi
    have hunpack := unpack_neg (Nat.succ_pos n) (by omega)
    show ljStrFromnum (-Float.ofNat (n + 1)) = _
    simp only [ljStrFromnum, hunpack, formatG14_mantissa (Nat.succ_pos n) hmax]
    exact (if_pos (Int.negSucc_lt_zero n)).symm

/-! ## Ints through Lua -/

theorem tostring_ofInt {i : ℤ} (hi : i.natAbs < 10 ^ 14) : (ofInt i).tostring = some (decimal i) := by
  show some (cstring (ljStrFromnum (Float.ofInt i))) = _
  rw [ljStrFromnum_ofInt hi, cstring_decimal]

/-- An int given to Lua comes back the same: the double is that int, its text is the decimal numeral, and the
text is read as the same double. -/
theorem int_returns {i : ℤ} (hi : -2 ^ 31 ≤ i ∧ i < 2 ^ 31) :
    toCInt (ofInt i).tonumber = i ∧ (ofInt i).tostring = some (decimal i) ∧
      (LuaValue.string (decimal i)).isnumber ∧ (LuaValue.string (decimal i)).tonumber = (ofInt i).tonumber := by
  have hscan := ljStrscanNum_decimal i
  refine ⟨toCInt_ofInt hi, tostring_ofInt (by omega), ?_, ?_⟩
  · show (ljStrscanNum (decimal i)).isSome = true
    rw [hscan]
    rfl
  · show (ljStrscanNum (decimal i)).getD 0 = Float.ofInt i
    rw [hscan]
    rfl

theorem int_returns_min : toCInt (ofInt (-2 ^ 31)).tonumber = -2 ^ 31 ∧
    (ofInt (-2 ^ 31)).tostring = some (decimal (-2 ^ 31)) ∧ (LuaValue.string (decimal (-2 ^ 31))).isnumber ∧
    (LuaValue.string (decimal (-2 ^ 31))).tonumber = (ofInt (-2 ^ 31)).tonumber :=
  int_returns (by decide)

end LuaTT.Lua
