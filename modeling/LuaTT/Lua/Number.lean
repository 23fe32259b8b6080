import Mathlib.Data.Nat.Notation
import Mathlib.Data.Int.Notation
import Mathlib.Data.List.TakeWhile
import Mathlib.Algebra.Group.Nat.Defs
import Mathlib.Algebra.Ring.Int.Defs

/-! `lua_Number`, its text and its conversions. A `lua_Number` is a C double, which is Lean's
`Float` bit for bit (LuaJIT, too, keeps only one NaN). Strings are byte strings: Lua's may hold any
byte, C's end at the first zero byte. -/
namespace LuaTT.Lua
set_option autoImplicit false

abbrev LuaNumber := Float

abbrev Bytes := List UInt8

/-- The bytes of a string literal. -/
def bytes (s : String) : Bytes := s.toByteArray.data.toList

/-- What a `const char *` reader sees of a Lua string: the bytes before the first zero byte. -/
def cstring (s : Bytes) : Bytes := s.takeWhile (· ≠ 0)

theorem cstring_eq_self {s : Bytes} : cstring s = s ↔ (0 : UInt8) ∉ s := by
  rw [cstring, List.takeWhile_eq_self_iff]
  constructor
  · intro h hz
    simpa using h 0 hz
  · intro h x hx
    simpa using fun hz : x = 0 => h (hz ▸ hx)

theorem zero_not_mem_cstring (s : Bytes) : (0 : UInt8) ∉ cstring s := by
  intro h
  simpa using List.mem_takeWhile_imp h

@[simp] theorem cstring_cstring (s : Bytes) : cstring (cstring s) = cstring s :=
  cstring_eq_self.mpr (zero_not_mem_cstring s)

/-! ## Characters -/

def ljCharIsspace (c : UInt8) : Bool := c = 32 || (9 ≤ c && c ≤ 13)

def ljCharIsdigit (c : UInt8) : Bool := 48 ≤ c && c ≤ 57

def ljCharIsxdigit (c : UInt8) : Bool :=
  ljCharIsdigit c || (65 ≤ c && c ≤ 70) || (97 ≤ c && c ≤ 102)

/-- Compare a character with a lower case letter, ignoring case. -/
def casecmp (c k : UInt8) : Bool := c ||| 0x20 = k

/-- The value of a digit, decimal or hexadecimal. -/
def digitValue (c : UInt8) : ℕ :=
  if c ≤ 57 then (c &&& 15).toNat else ((c + 9) &&& 15).toNat

/-! ## `lj_strscan_scan`, with the option `STRSCAN_OPT_TONUM` -/

/-- What the digit scan has read: the digits as one number, how many there are, how many of them
follow the point. -/
structure Scanned where
  mantissa : ℕ
  digits : ℕ
  fraction : ℕ

/-- Digits of the base with at most one point; `none` at a second point. -/
def scanDigits (base : ℕ) (point : Bool) (x : Scanned) : Bytes → Option (Scanned × Bytes)
  | [] => some (x, [])
  | c :: p =>
    if (if base = 16 then ljCharIsxdigit c else ljCharIsdigit c) then
      scanDigits base point ⟨x.mantissa * base + digitValue c, x.digits + 1,
        if point then x.fraction + 1 else x.fraction⟩ p
    else if c = 46 then
      if point then none else scanDigits base true x p
    else some (x, c :: p)

/-- The decimal exponent digits. They stop being added up once past 65536. -/
def scanExponent (xx : ℕ) : Bytes → ℕ × Bytes
  | [] => (xx, [])
  | c :: p =>
    if ljCharIsdigit c then
      scanExponent (if xx < 65536 then xx * 10 + digitValue c else xx) p
    else (xx, c :: p)

def scanSign : Bytes → Bool × Bytes
  | 43 :: p => (false, p)
  | 45 :: p => (true, p)
  | p => (false, p)

/-- An exponent part, if there is one: `none` where the letter has no digits after it. -/
def scanExponentPart (base : ℕ) : Bytes → Option (ℤ × Bytes)
  | [] => some (0, [])
  | c :: p =>
    if casecmp c (if base = 16 then 112 else 101) then
      match scanSign p with
      | (neg, d :: q) =>
        if ljCharIsdigit d then
          let (xx, rest) := scanExponent (digitValue d) q
          some (if neg then -(xx : ℤ) else xx, rest)
        else none
      | (_, []) => none
    else some (0, c :: p)

/-- The double next to `m * 10 ^ e`. -/
def ofDecimal (m : ℕ) (e : ℤ) : LuaNumber := Float.ofScientific m (e < 0) e.natAbs

/-- The double next to `m * 2 ^ e`; below one it is written with a power of ten. -/
def ofBinary (m : ℕ) (e : ℤ) : LuaNumber :=
  if e < 0 then Float.ofScientific (m * 5 ^ e.natAbs) true e.natAbs
  else Float.ofScientific (m * 2 ^ e.natAbs) false 0

def positiveInfinity : LuaNumber := Float.ofBits 0x7FF0000000000000

def nan : LuaNumber := Float.ofBits 0x7FF8000000000000

/-- "inf", "infinity" and "nan"; any other text is left for the check at the end to refuse. -/
def scanNonNumber (neg : Bool) (p : Bytes) : LuaNumber × Bytes :=
  let inf := if neg then -positiveInfinity else positiveInfinity
  match p with
  | a :: b :: c :: q =>
    if casecmp a 105 && casecmp b 110 && casecmp c 102 then
      match q with
      | d :: e :: f :: g :: h :: r =>
        if casecmp d 105 && casecmp e 110 && casecmp f 105 && casecmp g 116 && casecmp h 121 then
          (inf, r)
        else (inf, q)
      | _ => (inf, q)
    else if casecmp a 110 && casecmp b 97 && casecmp c 110 then (nan, q)
    else (nan, p)
  | _ => (nan, p)

/-- Only white space may follow the number; the suffixes need options that are not set. -/
def atEnd (p : Bytes) : Bool := p.all ljCharIsspace

/-- The zeros at the end of a fraction are skipped: the digits left, and how many of them follow the point. -/
def skipTrailingZeros : ℕ → ℕ → ℕ × ℕ
  | m, 0 => (m, 0)
  | m, f + 1 => if m % 10 = 0 then skipTrailingZeros (m / 10) f else (m, f + 1)

def digitCount (n : ℕ) : ℕ := (Nat.toDigits 10 n).length

/-- `strscan_dec`. A digit in an odd place is realigned after the digits have been counted, so a number of
twenty digits may be added up past 64 bits. -/
def strscanDec (m f : ℕ) (ex : ℤ) : LuaNumber :=
  let (m, f) := skipTrailingZeros m f
  let ex10 := ex - f
  let x := m * 10 ^ ex10.toNat
  if 0 < ex10 ∧ ex10 % 2 = 1 ∧ digitCount m + ex10 = 20 ∧ 2 ^ 64 ≤ x ∧ x % 2 ^ 64 < 2 ^ 63 then
    ofDecimal (x % 2 ^ 64) 0
  else ofDecimal m ex10

/-- The regular numbers, decimal or hexadecimal. -/
def scanRegular (neg : Bool) (p : Bytes) : Option LuaNumber :=
  let (base, q) : ℕ × Bytes := match p with
    | 48 :: x :: q => if casecmp x 120 then (16, q) else (10, p)
    | _ => (10, p)
  match scanDigits base false ⟨0, 0, 0⟩ q with
  | none => none
  | some (x, p) =>
    if x.digits = 0 then none
    else match scanExponentPart base p with
      | none => none
      | some (ex, p) =>
        if atEnd p then
          let n := if base = 16 then ofBinary x.mantissa (ex - 4 * x.fraction)
            else strscanDec x.mantissa x.fraction ex
          -- the fast path negates an int, so that minus zero is zero
          let zero := base = 10 && atEnd (q.dropWhile ljCharIsdigit) && x.mantissa = 0
          some (if neg && !zero then -n else n)
        else none

/-- `ljStrscanNum`: the number a string stands for, reading it up to the first zero byte. -/
def ljStrscanNum (s : Bytes) : Option LuaNumber :=
  let p := cstring s
  if (p.take 1).any ljCharIsdigit then scanRegular false p
  else
    let (neg, p) := scanSign (p.dropWhile ljCharIsspace)
    if (p.take 1).any (65 ≤ ·) then
      let (n, p) := scanNonNumber neg p
      if atEnd p then some n else none
    else scanRegular neg p

/-! ## `lj_str_bufnum`: "%.14g" -/

/-- The integer nearest to `n / d`, the even one of two. -/
def roundDiv (n d : ℕ) : ℕ :=
  let q := n / d
  let r := n % d
  if 2 * r < d then q else if d < 2 * r then q + 1 else q + q % 2

/-- The `e` with `10 ^ e ≤ n / d < 10 ^ (e + 1)`. -/
def decimalExponent (n d : ℕ) : ℤ :=
  let e : ℤ := digitCount n - digitCount d
  if n * 10 ^ (-e).toNat < d * 10 ^ e.toNat then e - 1 else e

def asciiDigits (n : ℕ) : Bytes := (Nat.toDigits 10 n).map fun c => c.toNat.toUInt8

def dropTrailingZeros (ds : Bytes) : Bytes := (ds.reverse.dropWhile (· = 48)).reverse

def pointed (whole frac : Bytes) : Bytes :=
  match dropTrailingZeros frac with
  | [] => whole
  | f => whole ++ 46 :: f

/-- The positive number `n / d` to 14 significant digits; this C library writes at least three digits of an
exponent. -/
def formatG14 (n d : ℕ) : Bytes :=
  let e := decimalExponent n d
  let m := roundDiv (n * 10 ^ (13 - e).toNat) (d * 10 ^ (e - 13).toNat)
  let (m, e) := if m = 10 ^ 14 then (10 ^ 13, e + 1) else (m, e)
  let ds := asciiDigits m
  if e < -4 ∨ 14 ≤ e then
    let x := asciiDigits e.natAbs
    pointed (ds.take 1) (ds.drop 1) ++ 101 :: (if e < 0 then 45 else 43) ::
      (List.replicate (3 - x.length) 48 ++ x)
  else if e < 0 then pointed [48] (List.replicate (-e - 1).toNat 48 ++ ds)
  else pointed (ds.take (e + 1).toNat) (ds.drop (e + 1).toNat)

open Float.Model UnpackedFloat in
def ljStrFromnum (n : LuaNumber) : Bytes :=
  let minus (s : Sign) (t : Bytes) : Bytes := match s with
    | .negative => 45 :: t
    | .positive => t
  match n.toModel.unpack with
  | .notANumber => [110, 97, 110]
  | .infinity s => minus s [105, 110, 102]
  | .zero s => minus s [48]
  | .finite s m e _ => minus s (formatG14 (m * 2 ^ e.toNat) (2 ^ (-e).toNat))

/-! ## Conversion to a C int -/

open Float.Model in
/-- Truncation towards zero, where the number is finite. -/
def truncated (n : LuaNumber) : Option ℤ :=
  match n.toModel.unpack with
  | .notANumber => none
  | .infinity _ => none
  | .zero _ => some 0
  | .finite s m e _ =>
    let a : ℤ := (m * 2 ^ e.toNat / 2 ^ (-e).toNat : ℕ)
    some (match s with | .negative => -a | .positive => a)

/-- `(int)n`: out of range, the x86 conversion gives the least int. -/
def toCInt (n : LuaNumber) : ℤ :=
  match truncated n with
  | some i => if -2 ^ 31 ≤ i ∧ i < 2 ^ 31 then i else -2 ^ 31
  | none => -2 ^ 31

/-- `(unsigned int)n`: the low 32 bits of the truncated number. -/
def toCUInt (n : LuaNumber) : ℕ := ((truncated n).getD 0 % 2 ^ 32).toNat

open Float.Model in
/-- `ljNum2int`: adding `2 ^ 52 + 2 ^ 51` leaves the nearest integer in the low bits of the
mantissa, whose low 32 are the result. -/
def ljNum2int (n : LuaNumber) : ℤ :=
  (n + Float.ofScientific 6755399441055744 false 0).toBits.toUInt32.toInt32.toInt

/-! ## Comparison -/

open Float.Model in
theorem compare_swap (a b : UnpackedFloat) : a.compare b = (b.compare a).map Ordering.swap := by
  cases a with
  | notANumber => cases b <;> rfl
  | infinity s =>
    cases b with
    | infinity t => cases s <;> cases t <;> rfl
    | _ => cases s <;> rfl
  | zero s =>
    cases b with
    | infinity t => cases s <;> cases t <;> rfl
    | finite t m e h => cases s <;> cases t <;> rfl
    | _ => rfl
  | finite s m e h =>
    cases b with
    | finite t m' e' h' =>
      have he : compare e e' = (compare e' e).swap := Std.OrientedOrd.eq_swap
      have hm : compare m m' = (compare m' m).swap := Std.OrientedOrd.eq_swap
      have hem : (compare e e').then (compare m m') = ((compare e' e).then (compare m' m)).swap := by
        rw [he, hm, Ordering.swap_then]
      cases s <;> cases t
      · exact congrArg (fun o => some o.swap) hem
      · rfl
      · rfl
      · exact congrArg some hem
    | notANumber => cases s <;> rfl
    | _ t => cases s <;> cases t <;> rfl

theorem beq_comm (a b : LuaNumber) : (a == b) = (b == a) := by
  show a.toModel.unpack.beq b.toModel.unpack = b.toModel.unpack.beq a.toModel.unpack
  unfold Float.Model.UnpackedFloat.beq
  rw [compare_swap]
  cases b.toModel.unpack.compare a.toModel.unpack with
  | none => rfl
  | some o => cases o <;> rfl

end LuaTT.Lua
