import LuaTT.Functions.Addresses

/-! Bytes of the process, read into Lua tables and written from them. An address is 32 bits wide and wraps.
The tables that Lua holds lie elsewhere than the bytes a script asks for. -/
namespace LuaTT.Functions
open LuaTT.Lua
set_option autoImplicit false

abbrev Address := BitVec 32

structure Process where
  byte : Address → UInt8
  /-- The values a table has under 1, 2 and so on; beyond the list they are nil. -/
  table : ℕ → List LuaValue
  /-- The tables from here on have not been created. -/
  fresh : ℕ

/-- `MemoryWrite`, without the page protection it takes off and puts back. -/
def memoryWrite (byte : Address → UInt8) (address : Address) (c : UInt8) : Address → UInt8 :=
  fun a => if a = address then c else byte a

/-- The loop of `Lua_Memory_Write` from the key `i` on. It ends at the first nil; a value that is no number
is written as 0. -/
def writeLoop (address : Address) (i : ℕ) (byte : Address → UInt8) : List LuaValue → Address → UInt8
  | [] => byte
  | v :: vs =>
    if v = .nil then byte
    else writeLoop address (i + 1)
      (memoryWrite byte (address + BitVec.ofNat 32 i - 1) (toUChar v.tonumber)) vs

def luaMemoryWrite (P : Process) (stack : List LuaValue) : Except ArgumentError (List LuaValue × Process) :=
  if stack.length < 2 then .ok ([], P)
  else do
    let address := BitVec.ofNat 32 (toCUInt (← checknumber stack 1))
    if address = 0 then return ([], P)
    match argument stack 2 with
    | .table r => return ([], { P with byte := writeLoop address 1 P.byte (P.table r) })
    | _ => throw (.tableExpected 2)

/-- The loop of `Lua_Memory_Read`: the values stored under 1, 2 and so on. -/
def readLoop (address : Address) (byte : Address → UInt8) (count : ℕ) : List LuaValue :=
  (List.range count).map fun i => ofByte (byte (address + BitVec.ofNat 32 i))

def luaMemoryRead (P : Process) (stack : List LuaValue) : Except ArgumentError (List LuaValue × Process) :=
  if stack.length < 2 then .ok ([], P)
  else do
    let address := BitVec.ofNat 32 (toCUInt (← checknumber stack 1))
    let count := toCInt (← checknumber stack 2)
    if address = 0 ∨ count = 0 then return ([], P)
    let t := readLoop address P.byte count.toNat
    return ([.table P.fresh], { P with table := fun r => if r = P.fresh then t else P.table r, fresh := P.fresh + 1 })

/-! ## What the loop writes -/

/-- The values before the first nil. -/
def written (vs : List LuaValue) : List LuaValue := vs.takeWhile (· ≠ .nil)

/-- How far an address lies behind another one. -/
def offset (address a : Address) : ℕ := (a - address).toNat

theorem offset_self (address : Address) : offset address address = 0 := by
  simp [offset]

theorem offset_succ {address a : Address} (h : a ≠ address) :
    offset address a = offset (address + 1) a + 1 := by
  have hne : a - address ≠ 0#32 := fun heq => h (by bv_omega)
  unfold offset
  bv_omega

theorem add_offset (address a : Address) : address + BitVec.ofNat 32 (offset address a) = a := by
  unfold offset
  bv_omega

theorem offset_add {n : ℕ} (hn : n < 2 ^ 32) (address : Address) :
    offset address (address + BitVec.ofNat 32 n) = n := by
  unfold offset
  bv_omega

theorem offset_round (address : Address) : offset (address + 1) address = 2 ^ 32 - 1 := by
  unfold offset
  bv_omega

def byteWritten (byte : Address → UInt8) (start : Address) (vs : List LuaValue) (a : Address) : UInt8 :=
  ((written vs)[offset start a]?.map fun v => toUChar v.tonumber).getD (byte a)

/-- Byte after byte from the address on; nothing else is written. The bytes must fit the address space. -/
theorem writeLoop_apply (address a : Address) (i : ℕ) (byte : Address → UInt8) (vs : List LuaValue)
    (hfit : (written vs).length ≤ 2 ^ 32) :
    writeLoop address i byte vs a = byteWritten byte (address + BitVec.ofNat 32 i - 1) vs a := by
  induction vs generalizing i byte with
  | nil => rfl
  | cons v vs ih =>
    by_cases hv : v = .nil
    · subst hv
      rfl
    · have hwritten : written (v :: vs) = v :: written vs := List.takeWhile_cons_of_pos (by simpa using hv)
      have hnext : address + BitVec.ofNat 32 (i + 1) - 1 = address + BitVec.ofNat 32 i - 1 + 1 := by bv_omega
      rw [hwritten, List.length_cons] at hfit
      rw [writeLoop, if_neg hv, ih _ _ (by omega), hnext]
      generalize address + BitVec.ofNat 32 i - 1 = start
      unfold byteWritten
      rw [hwritten]
      by_cases ha : a = start
      · subst ha
        have hnone : (written vs)[offset (a + 1) a]? = none := by
          rw [offset_round]
          apply List.getElem?_eq_none
          omega
        rw [hnone, offset_self]
        exact if_pos rfl
      · rw [offset_succ ha, List.getElem?_cons_succ, memoryWrite, if_neg ha]

theorem writeLoop_from (address a : Address) (byte : Address → UInt8) (vs : List LuaValue)
    (hfit : (written vs).length ≤ 2 ^ 32) : writeLoop address 1 byte vs a = byteWritten byte address vs a := by
  have hstart : address + BitVec.ofNat 32 1 - 1 = address := by bv_omega
  rw [writeLoop_apply address a 1 byte vs hfit, hstart]

/-! ## Copying -/

theorem written_readLoop (address : Address) (byte : Address → UInt8) (count : ℕ) :
    written (readLoop address byte count) = readLoop address byte count := by
  apply List.takeWhile_eq_self_iff.mpr
  intro v hv
  obtain ⟨i, -, rfl⟩ := List.mem_map.mp hv
  rfl

theorem length_readLoop (address : Address) (byte : Address → UInt8) (count : ℕ) :
    (readLoop address byte count).length = count := by
  rw [readLoop, List.length_map, List.length_range]

/-- What has been read is written as it was, and nothing beyond it. -/
theorem writeLoop_readLoop (src dst a : Address) (byte byte' : Address → UInt8) {count : ℕ} (hcount : count ≤ 2 ^ 32) :
    writeLoop dst 1 byte' (readLoop src byte count) a =
      if offset dst a < count then byte (src + BitVec.ofNat 32 (offset dst a)) else byte' a := by
  have hfit : (written (readLoop src byte count)).length ≤ 2 ^ 32 := by
    rw [written_readLoop, length_readLoop]
    exact hcount
  rw [writeLoop_from _ _ _ _ hfit, byteWritten, written_readLoop]
  split
  next hlt =>
    have hget : (readLoop src byte count)[offset dst a]? =
        some (ofByte (byte (src + BitVec.ofNat 32 (offset dst a)))) := by
      rw [readLoop, List.getElem?_map, List.getElem?_range hlt]
      rfl
    rw [hget]
    exact toUChar_ofByte _
  next hge =>
    have hnone : (readLoop src byte count)[offset dst a]? = none := by
      apply List.getElem?_eq_none
      rw [length_readLoop]
      omega
    rw [hnone]
    rfl

/-! ## The two calls -/

def addressOf (v : LuaValue) : Address := BitVec.ofNat 32 (toCUInt v.tonumber)

theorem luaMemoryRead_ok (P : Process) {v n : LuaValue} (hv : v.isnumber = true) (hn : n.isnumber = true)
    (haddress : addressOf v ≠ 0) (hcount : toCInt n.tonumber ≠ 0) :
    luaMemoryRead P [v, n] = .ok ([.table P.fresh], { P with
      table := fun r => if r = P.fresh then readLoop (addressOf v) P.byte (toCInt n.tonumber).toNat else P.table r
      fresh := P.fresh + 1 }) := by
  have hcheck1 : checknumber [v, n] 1 = .ok v.tonumber := if_pos hv
  have hcheck2 : checknumber [v, n] 2 = .ok n.tonumber := if_pos hn
  have hlen : ¬[v, n].length < 2 := by simp
  have hguard : ¬(BitVec.ofNat 32 (toCUInt v.tonumber) = 0 ∨ toCInt n.tonumber = 0) :=
    not_or.mpr ⟨haddress, hcount⟩
  rw [luaMemoryRead, if_neg hlen, hcheck1, hcheck2]
  exact if_neg hguard

theorem luaMemoryWrite_ok (P : Process) {v : LuaValue} (r : ℕ) (hv : v.isnumber = true) (haddress : addressOf v ≠ 0) :
    luaMemoryWrite P [v, .table r] = .ok ([], { P with byte := writeLoop (addressOf v) 1 P.byte (P.table r) }) := by
  have hcheck : checknumber [v, .table r] 1 = .ok v.tonumber := if_pos hv
  have hlen : ¬[v, .table r].length < 2 := by simp
  rw [luaMemoryWrite, if_neg hlen, hcheck]
  exact if_neg haddress

theorem addressOf_ofInt {k : ℕ} (hk : k < 2 ^ 32) : addressOf (ofInt k) = BitVec.ofNat 32 k :=
  congrArg (BitVec.ofNat 32) (toCUInt_ofNat hk)

/-- Bytes read from one place and written to another: the copy is what was there before, also where the two
places overlap, and all other bytes stay as they were. -/
theorem read_then_write (P : Process) {src dst n : LuaValue} (hsrc : src.isnumber = true)
    (hdst : dst.isnumber = true) (hn : n.isnumber = true) (hsrc' : addressOf src ≠ 0) (hdst' : addressOf dst ≠ 0)
    (hpos : 0 < toCInt n.tonumber) :
    ∃ r P1 P2, luaMemoryRead P [src, n] = .ok ([.table r], P1) ∧ luaMemoryWrite P1 [dst, .table r] = .ok ([], P2) ∧
      (∀ i : ℕ, i < toCInt n.tonumber →
        P2.byte (addressOf dst + BitVec.ofNat 32 i) = P.byte (addressOf src + BitVec.ofNat 32 i)) ∧
      ∀ a, (∀ i : ℕ, i < toCInt n.tonumber → a ≠ addressOf dst + BitVec.ofNat 32 i) → P2.byte a = P.byte a := by
  have hint : toCInt n.tonumber < 2 ^ 31 := by
    unfold toCInt
    split <;> [split; skip] <;> omega
  obtain ⟨count, hcount⟩ := Int.eq_ofNat_of_zero_le hpos.le
  have hfit : count ≤ 2 ^ 32 := by omega
  refine ⟨_, _, _, luaMemoryRead_ok P hsrc hn hsrc' hpos.ne', luaMemoryWrite_ok _ _ hdst hdst', ?_, ?_⟩
  · intro i hi
    have hoffset := offset_add (n := i) (by omega) (addressOf dst)
    have hlt : i < count := by omega
    simp only [if_pos, hcount, Int.toNat_natCast, writeLoop_readLoop _ _ _ _ _ hfit, hoffset, if_pos hlt]
  · intro a ha
    have hge : ¬offset (addressOf dst) a < count := by
      intro hlt
      exact ha _ (by omega) (add_offset _ _).symm
    simp only [if_pos, hcount, Int.toNat_natCast, writeLoop_readLoop _ _ _ _ _ hfit, if_neg hge]

def counting : Process := ⟨fun a => a.toNat.toUInt8, fun _ => [], 0⟩

theorem read_then_write_overlapping :
    ∃ r P1 P2, luaMemoryRead counting [ofInt 4096, ofInt 8] = .ok ([.table r], P1) ∧
      luaMemoryWrite P1 [ofInt 4098, .table r] = .ok ([], P2) ∧
      (∀ i : ℕ, (i : ℤ) < toCInt (ofInt 8).tonumber →
        P2.byte (addressOf (ofInt 4098) + BitVec.ofNat 32 i) =
          counting.byte (addressOf (ofInt 4096) + BitVec.ofNat 32 i)) ∧
      ∀ a, (∀ i : ℕ, (i : ℤ) < toCInt (ofInt 8).tonumber → a ≠ addressOf (ofInt 4098) + BitVec.ofNat 32 i) →
        P2.byte a = counting.byte a := by
  have hsrc : addressOf (ofInt 4096) ≠ 0 := by
    rw [show (4096 : ℤ) = (4096 : ℕ) from rfl, addressOf_ofInt (by decide)]
    decide
  have hdst : addressOf (ofInt 4098) ≠ 0 := by
    rw [show (4098 : ℤ) = (4098 : ℕ) from rfl, addressOf_ofInt (by decide)]
    decide
  have hcount : 0 < toCInt (ofInt 8).tonumber := by
    have height : toCInt (ofInt 8).tonumber = 8 := toCInt_ofInt (i := 8) (by decide)
    rw [height]
    decide
  exact read_then_write counting rfl rfl rfl hsrc hdst hcount

end LuaTT.Functions
