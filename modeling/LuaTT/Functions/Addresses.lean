import Mathlib.Data.Nat.Digits.Defs
import LuaTT.Lua.IntegerText

/-! Numbers of C types taken from Lua arguments, and the two functions that turn an IP address into its
octets and back. -/
namespace LuaTT.Functions
open LuaTT.Lua
set_option autoImplicit false

/-! ## Arguments -/

inductive ArgumentError
  /-- "bad argument #`narg` (number expected)" -/
  | numberExpected (narg : ℕ)
  /-- "bad argument #`narg` (table expected)" -/
  | tableExpected (narg : ℕ)
  deriving DecidableEq

def argument (stack : List LuaValue) (narg : ℕ) : LuaValue := (index2adr stack narg).getD .nil

def checknumber (stack : List LuaValue) (narg : ℕ) : Except ArgumentError LuaNumber :=
  if (argument stack narg).isnumber then .ok (argument stack narg).tonumber else .error (.numberExpected narg)

/-- `(unsigned char)n`: the low byte of the int. -/
def toUChar (n : LuaNumber) : UInt8 := (toCInt n % 256).toNat.toUInt8

def ofByte (c : UInt8) : LuaValue := .number (Float.ofNat c.toNat)

@[simp] theorem argument_one (v : LuaValue) (rest : List LuaValue) : argument (v :: rest) 1 = v := rfl

theorem checknumber_ok {stack : List LuaValue} {narg : ℕ} {n : LuaNumber} (h : checknumber stack narg = .ok n) :
    (argument stack narg).isnumber = true ∧ n = (argument stack narg).tonumber := by
  unfold checknumber at h
  split at h
  next hnum =>
    cases h
    exact ⟨hnum, rfl⟩
  next => cases h

theorem toUChar_ofByte (c : UInt8) : toUChar (ofByte c).tonumber = c := by
  have hlt := c.toNat_lt
  have hint : toCInt (Float.ofInt (c.toNat : ℤ)) = c.toNat := toCInt_ofInt (by omega)
  have hbyte : ((c.toNat : ℤ) % 256).toNat = c.toNat := by omega
  show (toCInt (Float.ofInt (c.toNat : ℤ)) % 256).toNat.toUInt8 = c
  rw [hint, hbyte]
  exact UInt8.ofNat_toNat

/-! ## `Lua_LongToIP` and `Lua_IPToLong` -/

/-- The byte at offset `k` of a word in memory. -/
def byteAt (w k : ℕ) : UInt8 := (w / 256 ^ k).toUInt8

def longToIP (stack : List LuaValue) : Except ArgumentError (List LuaValue) :=
  if stack.length < 1 then .ok []
  else do
    let lIP := toCUInt (← checknumber stack 1)
    return [ofByte (byteAt lIP 3), ofByte (byteAt lIP 2), ofByte (byteAt lIP 1), ofByte (byteAt lIP 0)]

/-- The word whose bytes in memory are these. -/
def wordOf (x : List UInt8) : ℕ := Nat.ofDigits 256 (x.map UInt8.toNat)

def ipToLong (stack : List LuaValue) : Except ArgumentError (List LuaValue) :=
  if stack.length < 4 then .ok []
  else do
    let x3 := toUChar (← checknumber stack 1)
    let x2 := toUChar (← checknumber stack 2)
    let x1 := toUChar (← checknumber stack 3)
    let x0 := toUChar (← checknumber stack 4)
    return [ofCString (some (asciiDigits (wordOf [x0, x1, x2, x3])))]

/-! ## Words and bytes -/

theorem wordOf_lt (a b c d : UInt8) : wordOf [a, b, c, d] < 2 ^ 32 := by
  have ha := a.toNat_lt
  have hb := b.toNat_lt
  have hc := c.toNat_lt
  have hd := d.toNat_lt
  simp only [wordOf, List.map_cons, List.map_nil, Nat.ofDigits_cons, Nat.ofDigits_nil]
  omega

theorem byteAt_eq {w k : ℕ} {c : UInt8} (h : w / 256 ^ k % 256 = c.toNat) : byteAt w k = c := by
  apply UInt8.toNat_inj.mp
  rw [← h]
  exact UInt8.toNat_ofNat'

theorem byteAt_wordOf (a b c d : UInt8) :
    byteAt (wordOf [a, b, c, d]) 0 = a ∧ byteAt (wordOf [a, b, c, d]) 1 = b ∧
      byteAt (wordOf [a, b, c, d]) 2 = c ∧ byteAt (wordOf [a, b, c, d]) 3 = d := by
  have ha := a.toNat_lt
  have hb := b.toNat_lt
  have hc := c.toNat_lt
  have hd := d.toNat_lt
  simp only [wordOf, List.map_cons, List.map_nil, Nat.ofDigits_cons, Nat.ofDigits_nil]
  refine ⟨byteAt_eq ?_, byteAt_eq ?_, byteAt_eq ?_, byteAt_eq ?_⟩ <;> omega

theorem wordOf_byteAt {w : ℕ} (hw : w < 2 ^ 32) :
    wordOf [byteAt w 0, byteAt w 1, byteAt w 2, byteAt w 3] = w := by
  have hbyte : ∀ k, (byteAt w k).toNat = w / 256 ^ k % 256 := fun k => UInt8.toNat_ofNat'
  simp only [wordOf, List.map_cons, List.map_nil, Nat.ofDigits_cons, Nat.ofDigits_nil, hbyte]
  omega

/-! ## There and back -/

theorem isnumber_digits (n : ℕ) : (LuaValue.string (asciiDigits n)).isnumber = true := by
  show (ljStrscanNum (asciiDigits n)).isSome = true
  rw [ljStrscanNum_asciiDigits]
  rfl

theorem toCUInt_digits {n : ℕ} (hn : n < 2 ^ 32) : toCUInt (LuaValue.string (asciiDigits n)).tonumber = n := by
  show toCUInt ((ljStrscanNum (asciiDigits n)).getD 0) = n
  rw [ljStrscanNum_asciiDigits]
  exact toCUInt_ofNat hn

theorem toCUInt_lt (n : LuaNumber) : toCUInt n < 2 ^ 32 := by
  unfold toCUInt
  omega

def octets (w : ℕ) : List LuaValue := [ofByte (byteAt w 3), ofByte (byteAt w 2), ofByte (byteAt w 1), ofByte (byteAt w 0)]

theorem longToIP_of_isnumber {v : LuaValue} (rest : List LuaValue) (h : v.isnumber = true) :
    longToIP (v :: rest) = .ok (octets (toCUInt v.tonumber)) := by
  have hcheck : checknumber (v :: rest) 1 = .ok v.tonumber := if_pos h
  have hlen : ¬(v :: rest).length < 1 := by simp
  rw [longToIP, if_neg hlen, hcheck]
  rfl

theorem ipToLong_of_isnumber {a b c d : LuaValue} (rest : List LuaValue) (ha : a.isnumber = true)
    (hb : b.isnumber = true) (hc : c.isnumber = true) (hd : d.isnumber = true) :
    ipToLong (a :: b :: c :: d :: rest) = .ok [.string (asciiDigits
      (wordOf [toUChar d.tonumber, toUChar c.tonumber, toUChar b.tonumber, toUChar a.tonumber]))] := by
  have hcheck1 : checknumber (a :: b :: c :: d :: rest) 1 = .ok a.tonumber := if_pos ha
  have hcheck2 : checknumber (a :: b :: c :: d :: rest) 2 = .ok b.tonumber := if_pos hb
  have hcheck3 : checknumber (a :: b :: c :: d :: rest) 3 = .ok c.tonumber := if_pos hc
  have hcheck4 : checknumber (a :: b :: c :: d :: rest) 4 = .ok d.tonumber := if_pos hd
  have hlen : ¬(a :: b :: c :: d :: rest).length < 4 := by
    simp only [List.length_cons]
    omega
  rw [ipToLong, if_neg hlen, hcheck1, hcheck2, hcheck3, hcheck4]
  show Except.ok [LuaValue.string (cstring (asciiDigits _))] = _
  rw [cstring_asciiDigits]

theorem ipToLong_octets {w : ℕ} (hw : w < 2 ^ 32) : ipToLong (octets w) = .ok [.string (asciiDigits w)] := by
  rw [octets, ipToLong_of_isnumber [] rfl rfl rfl rfl]
  simp only [toUChar_ofByte, wordOf_byteAt hw]

/-- The text of an address has the octets it was made of. -/
theorem longToIP_digits (a b c d : UInt8) :
    longToIP [.string (asciiDigits (wordOf [d, c, b, a]))] = .ok ([a, b, c, d].map ofByte) := by
  obtain ⟨h0, h1, h2, h3⟩ := byteAt_wordOf d c b a
  rw [longToIP_of_isnumber [] (isnumber_digits _), toCUInt_digits (wordOf_lt d c b a), octets, h0, h1, h2, h3]
  rfl

theorem longToIP_ok {stack out : List LuaValue} (h : longToIP stack = .ok out) (hout : out ≠ []) :
    out = octets (toCUInt (argument stack 1).tonumber) := by
  cases stack with
  | nil =>
    cases h
    exact absurd rfl hout
  | cons v rest =>
    cases hnum : v.isnumber with
    | true =>
      rw [longToIP_of_isnumber rest hnum] at h
      exact (Except.ok.inj h).symm
    | false =>
      have hcheck : checknumber (v :: rest) 1 = .error (.numberExpected 1) := if_neg (by simp [hnum])
      have hlen : ¬(v :: rest).length < 1 := by simp
      rw [longToIP, if_neg hlen, hcheck] at h
      cases h

theorem ipToLong_ok {stack : List LuaValue} {t : LuaValue} (h : ipToLong stack = .ok [t]) :
    t = .string (asciiDigits (wordOf [toUChar (argument stack 4).tonumber, toUChar (argument stack 3).tonumber,
      toUChar (argument stack 2).tonumber, toUChar (argument stack 1).tonumber])) := by
  unfold ipToLong at h
  split at h
  next => cases h
  next =>
    cases h1 : checknumber stack 1 with
    | error e => rw [h1] at h; cases h
    | ok n1 =>
      cases h2 : checknumber stack 2 with
      | error e => rw [h1, h2] at h; cases h
      | ok n2 =>
        cases h3 : checknumber stack 3 with
        | error e => rw [h1, h2, h3] at h; cases h
        | ok n3 =>
          cases h4 : checknumber stack 4 with
          | error e => rw [h1, h2, h3, h4] at h; cases h
          | ok n4 =>
            rw [h1, h2, h3, h4] at h
            rw [← (checknumber_ok h1).2, ← (checknumber_ok h2).2, ← (checknumber_ok h3).2,
              ← (checknumber_ok h4).2]
            have ht : ofCString (some (asciiDigits _)) = t := List.head_eq_of_cons_eq (Except.ok.inj h)
            rw [← ht]
            show LuaValue.string (cstring (asciiDigits _)) = _
            rw [cstring_asciiDigits]

/-- The octets of an address make the text of the same address, and the text of an address has the octets
it was made of, each taken as an `unsigned char`. -/
theorem address_returns (stack : List LuaValue) :
    (∀ out, longToIP stack = .ok out → out ≠ [] → ∃ t, ipToLong out = .ok [.string t] ∧
      toCUInt (LuaValue.string t).tonumber = toCUInt (argument stack 1).tonumber ∧
      longToIP [.string t] = .ok out) ∧
    ∀ t, ipToLong stack = .ok [t] →
      longToIP [t] = .ok ((List.range 4).map fun k => ofByte (toUChar (argument stack (k + 1)).tonumber)) := by
  constructor
  · intro out h hout
    have hword := toCUInt_lt (argument stack 1).tonumber
    obtain rfl := longToIP_ok h hout
    refine ⟨_, ipToLong_octets hword, toCUInt_digits hword, ?_⟩
    rw [longToIP_of_isnumber [] (isnumber_digits _), toCUInt_digits hword]
  · intro t h
    obtain rfl := ipToLong_ok h
    exact longToIP_digits _ _ _ _

theorem address_returns_sample :
    longToIP [.string (asciiDigits 3232235777)] = .ok ([192, 168, 1, 1].map ofByte) ∧
      ∃ t, ipToLong ([192, 168, 1, 1].map ofByte) = .ok [.string t] ∧
        longToIP [.string t] = .ok ([192, 168, 1, 1].map ofByte) := by
  have hword : longToIP [.string (asciiDigits 3232235777)] = .ok ([192, 168, 1, 1].map ofByte) :=
    longToIP_digits 192 168 1 1
  obtain ⟨t, ht, -, hback⟩ := (address_returns [.string (asciiDigits 3232235777)]).1 _ hword (by simp)
  exact ⟨hword, t, ht, hback⟩

end LuaTT.Functions
