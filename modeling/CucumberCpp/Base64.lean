import CucumberCpp.Numerals
import Mathlib.Tactic.FinCases

/-! `external/tobiaslocker/base64/include/base64.hpp`: the encoder and the decoder, with their
tables, on machines of either byte order. -/
namespace CucumberCpp.Base64

open Numerals

inductive ByteOrder where
  | little | big
  deriving DecidableEq

/-- `std::array<T, 256>`, read at a byte. -/
structure Table (α : Type) where
  entries : List α
  length_entries : entries.length = 256 := by decide +kernel

def Table.lookup {α : Type} (t : Table α) (c : UInt8) : α :=
  t.entries.get (Fin.cast t.length_entries.symm c.toFin)

def paddingChar : UInt8 := '='.toUInt8

def badChar : UInt32 := 0x01FFFFFF

/-- The layout of the decoding tables: what stands for `+`, for `/`, for the digits and for
the letters, each at its character, and everywhere else `badChar`. -/
def decodeTable (plus slash : UInt32) (digits upper lower : List UInt32)
    (h : digits.length = 10 ∧ upper.length = 26 ∧ lower.length = 26 := by decide) :
    Table UInt32 where
  entries := List.replicate 43 badChar ++ plus :: List.replicate 3 badChar ++ slash :: digits ++
    List.replicate 7 badChar ++ upper ++ List.replicate 6 badChar ++ lower ++
    List.replicate 133 badChar
  length_entries := by
    simp only [List.length_append, List.length_cons, List.length_replicate, h]

def decodeTable0 : ByteOrder → Table UInt32
  | .little => decodeTable 0xf8 0xfc
      [0xd0, 0xd4, 0xd8, 0xdc, 0xe0, 0xe4, 0xe8, 0xec, 0xf0, 0xf4]
      [0x0, 0x4, 0x8, 0xc, 0x10, 0x14, 0x18, 0x1c, 0x20, 0x24, 0x28, 0x2c, 0x30, 0x34, 0x38, 0x3c,
       0x40, 0x44, 0x48, 0x4c, 0x50, 0x54, 0x58, 0x5c, 0x60, 0x64]
      [0x68, 0x6c, 0x70, 0x74, 0x78, 0x7c, 0x80, 0x84, 0x88, 0x8c, 0x90, 0x94, 0x98, 0x9c, 0xa0,
       0xa4, 0xa8, 0xac, 0xb0, 0xb4, 0xb8, 0xbc, 0xc0, 0xc4, 0xc8, 0xcc]
  | .big => decodeTable 0xf80000 0xfc0000
      [0xd00000, 0xd40000, 0xd80000, 0xdc0000, 0xe00000, 0xe40000, 0xe80000, 0xec0000, 0xf00000,
       0xf40000]
      [0x0, 0x40000, 0x80000, 0xc0000, 0x100000, 0x140000, 0x180000, 0x1c0000, 0x200000, 0x240000,
       0x280000, 0x2c0000, 0x300000, 0x340000, 0x380000, 0x3c0000, 0x400000, 0x440000, 0x480000,
       0x4c0000, 0x500000, 0x540000, 0x580000, 0x5c0000, 0x600000, 0x640000]
      [0x680000, 0x6c0000, 0x700000, 0x740000, 0x780000, 0x7c0000, 0x800000, 0x840000, 0x880000,
       0x8c0000, 0x900000, 0x940000, 0x980000, 0x9c0000, 0xa00000, 0xa40000, 0xa80000, 0xac0000,
       0xb00000, 0xb40000, 0xb80000, 0xbc0000, 0xc00000, 0xc40000, 0xc80000, 0xcc0000]

def decodeTable1 : ByteOrder → Table UInt32
  | .little => decodeTable 0xe003 0xf003
      [0x4003, 0x5003, 0x6003, 0x7003, 0x8003, 0x9003, 0xa003, 0xb003, 0xc003, 0xd003]
      [0x0, 0x1000, 0x2000, 0x3000, 0x4000, 0x5000, 0x6000, 0x7000, 0x8000, 0x9000, 0xa000,
       0xb000, 0xc000, 0xd000, 0xe000, 0xf000, 0x1, 0x1001, 0x2001, 0x3001, 0x4001, 0x5001,
       0x6001, 0x7001, 0x8001, 0x9001]
      [0xa001, 0xb001, 0xc001, 0xd001, 0xe001, 0xf001, 0x2, 0x1002, 0x2002, 0x3002, 0x4002,
       0x5002, 0x6002, 0x7002, 0x8002, 0x9002, 0xa002, 0xb002, 0xc002, 0xd002, 0xe002, 0xf002,
       0x3, 0x1003, 0x2003, 0x3003]
  | .big => decodeTable 0x3e000 0x3f000
      [0x34000, 0x35000, 0x36000, 0x37000, 0x38000, 0x39000, 0x3a000, 0x3b000, 0x3c000, 0x3d000]
      [0x0, 0x1000, 0x2000, 0x3000, 0x4000, 0x5000, 0x6000, 0x7000, 0x8000, 0x9000, 0xa000,
       0xb000, 0xc000, 0xd000, 0xe000, 0xf000, 0x10000, 0x11000, 0x12000, 0x13000, 0x14000,
       0x15000, 0x16000, 0x17000, 0x18000, 0x19000]
      [0x1a000, 0x1b000, 0x1c000, 0x1d000, 0x1e000, 0x1f000, 0x20000, 0x21000, 0x22000, 0x23000,
       0x24000, 0x25000, 0x26000, 0x27000, 0x28000, 0x29000, 0x2a000, 0x2b000, 0x2c000, 0x2d000,
       0x2e000, 0x2f000, 0x30000, 0x31000, 0x32000, 0x33000]

def decodeTable2 : ByteOrder → Table UInt32
  | .little => decodeTable 0x800f00 0xc00f00
      [0xd00, 0x400d00, 0x800d00, 0xc00d00, 0xe00, 0x400e00, 0x800e00, 0xc00e00, 0xf00, 0x400f00]
      [0x0, 0x400000, 0x800000, 0xc00000, 0x100, 0x400100, 0x800100, 0xc00100, 0x200, 0x400200,
       0x800200, 0xc00200, 0x300, 0x400300, 0x800300, 0xc00300, 0x400, 0x400400, 0x800400,
       0xc00400, 0x500, 0x400500, 0x800500, 0xc00500, 0x600, 0x400600]
      [0x800600, 0xc00600, 0x700, 0x400700, 0x800700, 0xc00700, 0x800, 0x400800, 0x800800,
       0xc00800, 0x900, 0x400900, 0x800900, 0xc00900, 0xa00, 0x400a00, 0x800a00, 0xc00a00, 0xb00,
       0x400b00, 0x800b00, 0xc00b00, 0xc00, 0x400c00, 0x800c00, 0xc00c00]
  | .big => decodeTable 0xf80 0xfc0
      [0xd00, 0xd40, 0xd80, 0xdc0, 0xe00, 0xe40, 0xe80, 0xec0, 0xf00, 0xf40]
      [0x0, 0x40, 0x80, 0xc0, 0x100, 0x140, 0x180, 0x1c0, 0x200, 0x240, 0x280, 0x2c0, 0x300,
       0x340, 0x380, 0x3c0, 0x400, 0x440, 0x480, 0x4c0, 0x500, 0x540, 0x580, 0x5c0, 0x600, 0x640]
      [0x680, 0x6c0, 0x700, 0x740, 0x780, 0x7c0, 0x800, 0x840, 0x880, 0x8c0, 0x900, 0x940, 0x980,
       0x9c0, 0xa00, 0xa40, 0xa80, 0xac0, 0xb00, 0xb40, 0xb80, 0xbc0, 0xc00, 0xc40, 0xc80, 0xcc0]

def decodeTable3 : ByteOrder → Table UInt32
  | .little => decodeTable 0x3e0000 0x3f0000
      [0x340000, 0x350000, 0x360000, 0x370000, 0x380000, 0x390000, 0x3a0000, 0x3b0000, 0x3c0000,
       0x3d0000]
      [0x0, 0x10000, 0x20000, 0x30000, 0x40000, 0x50000, 0x60000, 0x70000, 0x80000, 0x90000,
       0xa0000, 0xb0000, 0xc0000, 0xd0000, 0xe0000, 0xf0000, 0x100000, 0x110000, 0x120000,
       0x130000, 0x140000, 0x150000, 0x160000, 0x170000, 0x180000, 0x190000]
      [0x1a0000, 0x1b0000, 0x1c0000, 0x1d0000, 0x1e0000, 0x1f0000, 0x200000, 0x210000, 0x220000,
       0x230000, 0x240000, 0x250000, 0x260000, 0x270000, 0x280000, 0x290000, 0x2a0000, 0x2b0000,
       0x2c0000, 0x2d0000, 0x2e0000, 0x2f0000, 0x300000, 0x310000, 0x320000, 0x330000]
  | .big => decodeTable 0x3e 0x3f
      [0x34, 0x35, 0x36, 0x37, 0x38, 0x39, 0x3a, 0x3b, 0x3c, 0x3d]
      [0x0, 0x1, 0x2, 0x3, 0x4, 0x5, 0x6, 0x7, 0x8, 0x9, 0xa, 0xb, 0xc, 0xd, 0xe, 0xf, 0x10, 0x11,
       0x12, 0x13, 0x14, 0x15, 0x16, 0x17, 0x18, 0x19]
      [0x1a, 0x1b, 0x1c, 0x1d, 0x1e, 0x1f, 0x20, 0x21, 0x22, 0x23, 0x24, 0x25, 0x26, 0x27, 0x28,
       0x29, 0x2a, 0x2b, 0x2c, 0x2d, 0x2e, 0x2f, 0x30, 0x31, 0x32, 0x33]

def decidx : ByteOrder → Fin 3 → Fin 4
  | .little, i => i.castSucc
  | .big, i => i.succ

def alphabet : List Char :=
  ['A', 'B', 'C', 'D', 'E', 'F', 'G', 'H', 'I', 'J', 'K', 'L', 'M', 'N', 'O', 'P', 'Q', 'R', 'S',
   'T', 'U', 'V', 'W', 'X', 'Y', 'Z', 'a', 'b', 'c', 'd', 'e', 'f', 'g', 'h', 'i', 'j', 'k', 'l',
   'm', 'n', 'o', 'p', 'q', 'r', 's', 't', 'u', 'v', 'w', 'x', 'y', 'z', '0', '1', '2', '3', '4',
   '5', '6', '7', '8', '9', '+', '/']

/-- Each character of the alphabet four times. -/
def encodeTable0 : Table UInt8 where
  entries := alphabet.flatMap fun c => List.replicate 4 c.toUInt8

/-- The alphabet four times over. -/
def encodeTable1 : Table UInt8 where
  entries := (List.replicate 4 (alphabet.map Char.toUInt8)).flatten

inductive Fault where
  | runtimeError (what : String)
  /-- A read or a write past the end of a buffer, which the C++ leaves undefined. -/
  | outOfBounds
  deriving DecidableEq

/-- A buffer of a size with a filling, after these bytes were written from its start. -/
def writeInto (size : ℕ) (filling : UInt8) (written : List UInt8) : Except Fault (List UInt8) :=
  if written.length ≤ size then .ok (written ++ List.replicate (size - written.length) filling)
  else .error .outOfBounds

/-- The loop over the groups of three bytes: what it writes and the bytes it leaves. -/
def encodeGroups : ℕ → List UInt8 → Except Fault (List UInt8 × List UInt8)
  | 0, bytes => .ok ([],bytes)
  | i+1, t1 :: t2 :: t3 :: bytes => do
    let (encoding,rest) ← encodeGroups i bytes
    .ok (encodeTable0.lookup t1 ::
      encodeTable1.lookup (((t1 &&& 0x03) <<< 4) ||| ((t2 >>> 4) &&& 0x0F)) ::
      encodeTable1.lookup (((t2 &&& 0x0F) <<< 2) ||| ((t3 >>> 6) &&& 0x03)) ::
      encodeTable1.lookup t3 :: encoding, rest)
  | _+1, _ => .error .outOfBounds

/-- The switch over how many bytes are left. -/
def encodeLast : ℕ → List UInt8 → Except Fault (List UInt8)
  | 0, _ => .ok []
  | 1, t1 :: _ => .ok [encodeTable0.lookup t1, encodeTable1.lookup ((t1 &&& 0x03) <<< 4)]
  | 2, t1 :: t2 :: _ =>
    .ok [encodeTable0.lookup t1,
      encodeTable1.lookup (((t1 &&& 0x03) <<< 4) ||| ((t2 >>> 4) &&& 0x0F)),
      encodeTable1.lookup ((t2 &&& 0x0F) <<< 2)]
  | 1, _ => .error .outOfBounds
  | 2, _ => .error .outOfBounds
  | _, _ => .error (.runtimeError "Invalid base64 encoded data")

def encodeInto (data : List UInt8) : Except Fault (List UInt8) := do
  let binarytextsize := data.length
  let encodedsize := (binarytextsize / 3 + (if binarytextsize % 3 > 0 then 1 else 0)) <<< 2
  let (encoding,bytes) ← encodeGroups (binarytextsize / 3) data
  let last ← encodeLast (binarytextsize % 3) bytes
  writeInto encodedsize paddingChar (encoding ++ last)

def toBase64 (data : List UInt8) : Except Fault (List UInt8) := encodeInto data

/-- A byte of a word in memory. -/
def bitCast : ByteOrder → UInt32 → Fin 4 → UInt8
  | .little, word, i => (word >>> (8 * i.val).toUInt32).toUInt8
  | .big, word, i => (word >>> (8 * (3 - i.val)).toUInt32).toUInt8

def invalidCharacter : Fault := .runtimeError "Invalid base64 encoded data - Invalid character"

/-- The bytes in a word of the decoding tables, unless one of the characters was bad. -/
def tempBytes (e : ByteOrder) (temp : UInt32) : Except Fault (Fin 3 → UInt8) :=
  if temp ≥ badChar then .error invalidCharacter
  else .ok fun i => bitCast e temp (decidx e i)

/-- The loop over the groups of four characters: what it writes and the characters it leaves. -/
def decodeGroups (e : ByteOrder) : ℕ → List UInt8 → Except Fault (List UInt8 × List UInt8)
  | 0, bytes => .ok ([],bytes)
  | i+1, t1 :: t2 :: t3 :: t4 :: bytes => do
    let temp ← tempBytes e ((decodeTable0 e).lookup t1 ||| (decodeTable1 e).lookup t2 |||
      (decodeTable2 e).lookup t3 ||| (decodeTable3 e).lookup t4)
    let (decoding,rest) ← decodeGroups e i bytes
    .ok (temp 0 :: temp 1 :: temp 2 :: decoding, rest)
  | _+1, _ => .error .outOfBounds

/-- The switch over the number of padding characters. -/
def decodeLast (e : ByteOrder) : ℕ → List UInt8 → Except Fault (List UInt8)
  | 0, _ => .ok []
  | 1, t1 :: t2 :: t3 :: _ => do
    let temp ← tempBytes e ((decodeTable0 e).lookup t1 ||| (decodeTable1 e).lookup t2 |||
      (decodeTable2 e).lookup t3)
    .ok [temp 0, temp 1]
  | 2, t1 :: t2 :: _ => do
    let temp ← tempBytes e ((decodeTable0 e).lookup t1 ||| (decodeTable1 e).lookup t2)
    .ok [temp 0]
  | 1, _ => .error .outOfBounds
  | 2, _ => .error .outOfBounds
  | _, _ => .error (.runtimeError "Invalid base64 encoded data - Invalid padding number")

/-- How many of the last four characters are padding. -/
def numPadding (base64Text : List UInt8) : ℕ :=
  (base64Text.reverse.take 4).count paddingChar

def decodeInto (e : ByteOrder) (base64Text : List UInt8) : Except Fault (List UInt8) :=
  if base64Text = [] then .ok []
  else if base64Text.length &&& 3 ≠ 0 then
    .error (.runtimeError "Invalid base64 encoded data - Size not divisible by 4")
  else if numPadding base64Text > 2 then
    .error (.runtimeError "Invalid base64 encoded data - Found more than 2 padding signs")
  else do
    let decodedsize := ((base64Text.length * 3) >>> 2) - numPadding base64Text
    let (decoding,bytes) ← decodeGroups e
      ((base64Text.length >>> 2) - (if numPadding base64Text ≠ 0 then 1 else 0)) base64Text
    let last ← decodeLast e (numPadding base64Text) bytes
    writeInto decodedsize '.'.toUInt8 (decoding ++ last)

def fromBase64 (e : ByteOrder) (data : List UInt8) : Except Fault (List UInt8) :=
  decodeInto e data

/-- The character of a digit. -/
def digitChar (d : Fin 64) : UInt8 := (alphabet.get d).toUInt8

/-- The digit of a character. -/
def digit? (c : UInt8) : Option (Fin 64) :=
  let n := c.toNat
  if 65 ≤ n ∧ n ≤ 90 then some (.ofNat 64 (n-65))
  else if 97 ≤ n ∧ n ≤ 122 then some (.ofNat 64 (n-71))
  else if 48 ≤ n ∧ n ≤ 57 then some (.ofNat 64 (n+4))
  else if n = 43 then some (.ofNat 64 (n+19))
  else if n = 47 then some (.ofNat 64 (n+16))
  else none

theorem digit?_digitChar (d : Fin 64) : digit? (digitChar d) = some d := by
  revert d
  decide +kernel

theorem digitChar_of_digit? {c : UInt8} {d : Fin 64} (h : digit? c = some d) :
    digitChar d = c := by
  have hall : ∀ i : Fin 256, (digit? (.ofFin i)).all (digitChar · = .ofFin i) := by
    decide +kernel
  simpa [h] using hall c.toFin

theorem digit?_eq_some_iff {c : UInt8} {d : Fin 64} : digit? c = some d ↔ digitChar d = c := by
  constructor
  · exact digitChar_of_digit?
  · rintro rfl
    exact digit?_digitChar d

theorem digitChar_ne_paddingChar (d : Fin 64) : digitChar d ≠ paddingChar := by
  intro h
  have hd := digit?_digitChar d
  rw [h] at hd
  cases hd

theorem Table.getElem?_lookup {α : Type} (t : Table α) (c : UInt8) :
    t.entries[c.toNat]? = some (t.lookup c) := by
  rw [List.getElem?_eq_some_iff]
  exact ⟨t.length_entries.symm ▸ c.toNat_lt, rfl⟩

theorem getElem?_flatMap_replicate {α β : Type} {n : ℕ} (hn : 0 < n) (f : α → β) (xs : List α)
    (i : ℕ) : (xs.flatMap fun x => List.replicate n (f x))[i]? = xs[i/n]?.map f := by
  induction xs generalizing i with
  | nil => simp
  | cons x xs ih =>
    rw [List.flatMap_cons, List.getElem?_append, List.length_replicate]
    split_ifs with hi
    · simp [Nat.div_eq_of_lt hi, hi]
    · rw [ih, Nat.div_eq_sub_div hn (Nat.le_of_not_lt hi), List.getElem?_cons_succ]

theorem getElem?_flatten_replicate {α : Type} (n : ℕ) (xs : List α) {i : ℕ}
    (hi : i < n*xs.length) : (List.replicate n xs).flatten[i]? = xs[i%xs.length]? := by
  induction n generalizing i with
  | zero => omega
  | succ n ih =>
    rw [List.replicate_succ, List.flatten_cons, List.getElem?_append]
    split_ifs with hlt
    · rw [Nat.mod_eq_of_lt hlt]
    · rw [ih (by rw [Nat.add_mul] at hi; omega), ← Nat.mod_eq_sub_mod (Nat.le_of_not_lt hlt)]

theorem encodeTable0_lookup (t : UInt8) :
    encodeTable0.lookup t = digitChar ⟨t.toNat/4, by have := t.toNat_lt; omega⟩ := by
  apply Option.some_inj.mp
  rw [← Table.getElem?_lookup, encodeTable0, getElem?_flatMap_replicate (by decide)]
  rw [List.getElem?_eq_getElem, Option.map_some]
  rfl

theorem encodeTable1_lookup (t : UInt8) :
    encodeTable1.lookup t = digitChar ⟨t.toNat%64, Nat.mod_lt _ (by decide)⟩ := by
  apply Option.some_inj.mp
  rw [← Table.getElem?_lookup, encodeTable1, getElem?_flatten_replicate]
  · rw [List.getElem?_map, List.length_map, List.getElem?_eq_getElem, Option.map_some]
    rfl
  · exact t.toNat_lt

section

variable {plus slash : UInt32} {digits upper lower : List UInt32}
  (h : digits.length = 10 ∧ upper.length = 26 ∧ lower.length = 26)

theorem decodeTable_lookup_of_none {c : UInt8} (hc : digit? c = none) :
    badChar ≤ (decodeTable plus slash digits upper lower h).lookup c := by
  obtain ⟨hd,hu,hl⟩ := h
  have hlt := c.toNat_lt
  apply UInt32.le_of_eq
  apply Eq.symm
  apply Option.some_inj.mp
  rw [← Table.getElem?_lookup]
  simp only [digit?] at hc
  split_ifs at hc
  -- a character that is no digit falls into one of the stretches of bad characters
  simp only [decodeTable, List.append_assoc, List.getElem?_append, List.length_replicate,
    List.getElem?_replicate, List.cons_append, List.getElem?_cons, hd, hu, hl]
  grind

theorem decodeTable_lookup_of_some {c : UInt8} {d : Fin 64} (hc : digit? c = some d) :
    some ((decodeTable plus slash digits upper lower h).lookup c) =
      (upper ++ lower ++ digits ++ [plus,slash])[d.val]? := by
  obtain ⟨hd,hu,hl⟩ := h
  rw [← Table.getElem?_lookup]
  simp only [decodeTable, List.append_assoc, List.getElem?_append, List.length_replicate,
    List.getElem?_replicate, List.cons_append, List.getElem?_cons, hd, hu, hl]
  simp only [digit?] at hc
  split_ifs at hc
  all_goals
    have hval := congrArg Fin.val (Option.some_inj.mp hc)
    simp only [Fin.val_ofNat] at hval
    grind

/-- A word of the decoding tables is good and holds these bytes. -/
def Holds (e : ByteOrder) (word : UInt32) (b0 b1 b2 : ℕ) : Prop :=
  word.toNat < 2^24 ∧ (bitCast e word (decidx e 0)).toNat = b0 ∧
    (bitCast e word (decidx e 1)).toNat = b1 ∧ (bitCast e word (decidx e 2)).toNat = b2

instance (e : ByteOrder) (word : UInt32) (b0 b1 b2 : ℕ) : Decidable (Holds e word b0 b1 b2) :=
  inferInstanceAs (Decidable (_ ∧ _))

theorem decodeTable_of_forall {P : Fin 64 → UInt32 → Prop}
    (hP : ∀ d : Fin 64, P d ((upper ++ lower ++ digits ++ [plus,slash]).getD d.val badChar))
    {c : UInt8} {d : Fin 64} (hc : digit? c = some d) :
    P d ((decodeTable plus slash digits upper lower h).lookup c) := by
  have hd := hP d
  rwa [List.getD_eq_getElem?_getD, ← decodeTable_lookup_of_some h hc] at hd

end

section

variable (e : ByteOrder) {c c1 c2 c3 c4 : UInt8} {d d1 d2 d3 d4 : Fin 64}

theorem holds_decodeTable0 (hc : digit? c = some d) :
    Holds e ((decodeTable0 e).lookup c) (d.val*4) 0 0 := by
  cases e <;> exact decodeTable_of_forall (P := fun d word => Holds _ word (d.val*4) 0 0)
    (by decide) (by decide +kernel) hc

theorem holds_decodeTable1 (hc : digit? c = some d) :
    Holds e ((decodeTable1 e).lookup c) (d.val/16) (d.val%16*16) 0 := by
  cases e <;> exact decodeTable_of_forall
    (P := fun d word => Holds _ word (d.val/16) (d.val%16*16) 0) (by decide) (by decide +kernel) hc

theorem holds_decodeTable2 (hc : digit? c = some d) :
    Holds e ((decodeTable2 e).lookup c) 0 (d.val/4) (d.val%4*64) := by
  cases e <;> exact decodeTable_of_forall
    (P := fun d word => Holds _ word 0 (d.val/4) (d.val%4*64)) (by decide) (by decide +kernel) hc

theorem holds_decodeTable3 (hc : digit? c = some d) :
    Holds e ((decodeTable3 e).lookup c) 0 0 d.val := by
  cases e <;> exact decodeTable_of_forall (P := fun d word => Holds _ word 0 0 d.val)
    (by decide) (by decide +kernel) hc

theorem decodeTables_of_none (hc : digit? c = none) :
    badChar ≤ (decodeTable0 e).lookup c ∧ badChar ≤ (decodeTable1 e).lookup c ∧
      badChar ≤ (decodeTable2 e).lookup c ∧ badChar ≤ (decodeTable3 e).lookup c := by
  cases e <;> exact ⟨decodeTable_lookup_of_none (by decide) hc,
    decodeTable_lookup_of_none (by decide) hc, decodeTable_lookup_of_none (by decide) hc,
    decodeTable_lookup_of_none (by decide) hc⟩

theorem bitCast_or (word word' : UInt32) (i : Fin 4) :
    bitCast e (word ||| word') i = bitCast e word i ||| bitCast e word' i := by
  apply UInt8.toNat_inj.mp
  cases e <;> simp only [bitCast, UInt8.toNat_or, UInt32.toNat_toUInt8, UInt32.toNat_shiftRight,
    UInt32.toNat_or, Nat.shiftRight_or_distrib, Nat.or_mod_two_pow]

variable {e}

theorem Holds.or {word word' : UInt32} {b0 b1 b2 b0' b1' b2' : ℕ} (h : Holds e word b0 b1 b2)
    (h' : Holds e word' b0' b1' b2') :
    Holds e (word ||| word') (b0 ||| b0') (b1 ||| b1') (b2 ||| b2') := by
  obtain ⟨hlt,h0,h1,h2⟩ := h
  obtain ⟨hlt',h0',h1',h2'⟩ := h'
  refine ⟨?_, ?_, ?_, ?_⟩
  · rw [UInt32.toNat_or]
    exact Nat.or_lt_two_pow hlt hlt'
  · rw [bitCast_or, UInt8.toNat_or, h0, h0']
  · rw [bitCast_or, UInt8.toNat_or, h1, h1']
  · rw [bitCast_or, UInt8.toNat_or, h2, h2']

theorem Holds.tempBytes {word : UInt32} {b0 b1 b2 : ℕ} (h : Holds e word b0 b1 b2) :
    tempBytes e word = .ok fun i => .ofNat ([b0,b1,b2].get i) := by
  obtain ⟨hlt,h0,h1,h2⟩ := h
  -- only a bad character sets the bit above the three bytes
  have hgood : ¬word ≥ badChar := by
    intro hbad
    have hle : badChar.toNat ≤ word.toNat := hbad
    have hval : badChar.toNat = 0x01FFFFFF := rfl
    omega
  rw [Base64.tempBytes, if_neg hgood]
  congr 1
  funext i
  fin_cases i
  · simp [← h0]
  · simp [← h1]
  · simp [← h2]

theorem tempBytes_of_bad {word : UInt32} (h : badChar ≤ word) :
    tempBytes e word = .error invalidCharacter := if_pos h

theorem le_or_left {word word' : UInt32} (h : badChar ≤ word) : badChar ≤ word ||| word' := by
  rw [UInt32.le_iff_toNat_le, UInt32.toNat_or]
  exact (UInt32.le_iff_toNat_le.mp h).trans Nat.left_le_or

theorem le_or_right {word word' : UInt32} (h : badChar ≤ word') : badChar ≤ word ||| word' := by
  rw [UInt32.le_iff_toNat_le, UInt32.toNat_or]
  exact (UInt32.le_iff_toNat_le.mp h).trans Nat.right_le_or

/-- The high bits of a byte stand beside the low ones. -/
theorem or_eq_add {a b m : ℕ} (i : ℕ) (hm : m = 2^i) (hb : b < m) : a*m ||| b = a*m + b := by
  subst hm
  rw [← Nat.shiftLeft_eq, Nat.shiftLeft_add_eq_or_of_lt hb]

theorem holds_two (h1 : digit? c1 = some d1) (h2 : digit? c2 = some d2) :
    Holds e ((decodeTable0 e).lookup c1 ||| (decodeTable1 e).lookup c2)
      (d1.val*4 + d2.val/16) (d2.val%16*16) 0 := by
  have hword := (holds_decodeTable0 e h1).or (holds_decodeTable1 e h2)
  rwa [or_eq_add (m := 4) 2 rfl (by omega), Nat.zero_or] at hword

theorem holds_three (h1 : digit? c1 = some d1) (h2 : digit? c2 = some d2)
    (h3 : digit? c3 = some d3) :
    Holds e ((decodeTable0 e).lookup c1 ||| (decodeTable1 e).lookup c2 |||
        (decodeTable2 e).lookup c3)
      (d1.val*4 + d2.val/16) (d2.val%16*16 + d3.val/4) (d3.val%4*64) := by
  have hword := (holds_two h1 h2).or (holds_decodeTable2 e h3)
  rwa [or_eq_add (m := 16) 4 rfl (by omega), Nat.or_zero, Nat.zero_or] at hword

theorem holds_four (h1 : digit? c1 = some d1) (h2 : digit? c2 = some d2)
    (h3 : digit? c3 = some d3) (h4 : digit? c4 = some d4) :
    Holds e ((decodeTable0 e).lookup c1 ||| (decodeTable1 e).lookup c2 |||
        (decodeTable2 e).lookup c3 ||| (decodeTable3 e).lookup c4)
      (d1.val*4 + d2.val/16) (d2.val%16*16 + d3.val/4) (d3.val%4*64 + d4.val) := by
  have hword := (holds_three h1 h2 h3).or (holds_decodeTable3 e h4)
  rwa [or_eq_add (m := 64) 6 rfl d4.isLt, Nat.or_zero, Nat.or_zero] at hword

end

/-- The digits of a text without padding. -/
def digits? (text : List UInt8) : Option (List (Fin 64)) := text.mapM digit?

/-- The bytes that digits stand for, without the bits that fill none. -/
def bytesOf : List (Fin 64) → List UInt8
  | d1 :: d2 :: d3 :: d4 :: ds =>
    .ofNat (d1.val*4 + d2.val/16) :: .ofNat (d2.val%16*16 + d3.val/4) ::
      .ofNat (d3.val%4*64 + d4.val) :: bytesOf ds
  | [d1, d2, d3] => [.ofNat (d1.val*4 + d2.val/16), .ofNat (d2.val%16*16 + d3.val/4)]
  | [d1, d2] => [.ofNat (d1.val*4 + d2.val/16)]
  | _ => []

theorem digits?_cons (c : UInt8) (text : List UInt8) :
    digits? (c :: text) = (digit? c).bind fun d => (digits? text).map (d :: ·) := by
  simp only [digits?, List.mapM_cons]
  cases digit? c with
  | none => rfl
  | some d => cases text.mapM digit? <;> rfl

theorem digits?_append (text text' : List UInt8) :
    digits? (text ++ text') = (digits? text).bind fun ds => (digits? text').map (ds ++ ·) := by
  simp only [digits?, List.mapM_append]
  cases text.mapM digit? with
  | none => rfl
  | some ds => cases text'.mapM digit? <;> rfl

theorem digits?_eq_some_iff {text : List UInt8} {ds : List (Fin 64)} :
    digits? text = some ds ↔ text = ds.map digitChar := by
  induction text generalizing ds with
  | nil => cases ds <;> simp [digits?]
  | cons c text ih =>
    simp only [digits?_cons, Option.bind_eq_some_iff, Option.map_eq_some_iff, ih,
      digit?_eq_some_iff]
    cases ds with
    | nil => simp
    | cons d ds => simp [eq_comm]

theorem forall₂_of_digits? {text : List UInt8} {ds : List (Fin 64)} (h : digits? text = some ds) :
    List.Forall₂ (fun c d => digit? c = some d) text ds := by
  rw [digits?_eq_some_iff.mp h, List.forall₂_map_left_iff, List.forall₂_same]
  exact fun d _ => digit?_digitChar d

theorem digits?_eq_none_iff {text : List UInt8} :
    digits? text = none ↔ ∃ c ∈ text, digit? c = none := by
  induction text with
  | nil => simp [digits?]
  | cons c text ih => cases h : digit? c <;> simp [digits?_cons, h, ih]

section

variable {e : ByteOrder} {c1 c2 c3 c4 : UInt8}

theorem tempBytes_two_of_none (h : digits? [c1, c2] = none) :
    tempBytes e ((decodeTable0 e).lookup c1 ||| (decodeTable1 e).lookup c2) =
      .error invalidCharacter := by
  apply tempBytes_of_bad
  obtain ⟨c,hc,hnone⟩ := digits?_eq_none_iff.mp h
  obtain ⟨h0,h1,_⟩ := decodeTables_of_none e hnone
  simp only [List.mem_cons, List.not_mem_nil, or_false] at hc
  rcases hc with rfl | rfl
  · exact le_or_left h0
  · exact le_or_right h1

theorem tempBytes_three_of_none (h : digits? [c1, c2, c3] = none) :
    tempBytes e ((decodeTable0 e).lookup c1 ||| (decodeTable1 e).lookup c2 |||
      (decodeTable2 e).lookup c3) = .error invalidCharacter := by
  apply tempBytes_of_bad
  obtain ⟨c,hc,hnone⟩ := digits?_eq_none_iff.mp h
  obtain ⟨h0,h1,h2,_⟩ := decodeTables_of_none e hnone
  simp only [List.mem_cons, List.not_mem_nil, or_false] at hc
  rcases hc with rfl | rfl | rfl
  · exact le_or_left (le_or_left h0)
  · exact le_or_left (le_or_right h1)
  · exact le_or_right h2

theorem tempBytes_four_of_none (h : digits? [c1, c2, c3, c4] = none) :
    tempBytes e ((decodeTable0 e).lookup c1 ||| (decodeTable1 e).lookup c2 |||
      (decodeTable2 e).lookup c3 ||| (decodeTable3 e).lookup c4) = .error invalidCharacter := by
  apply tempBytes_of_bad
  obtain ⟨c,hc,hnone⟩ := digits?_eq_none_iff.mp h
  obtain ⟨h0,h1,h2,h3⟩ := decodeTables_of_none e hnone
  simp only [List.mem_cons, List.not_mem_nil, or_false] at hc
  rcases hc with rfl | rfl | rfl | rfl
  · exact le_or_left (le_or_left (le_or_left h0))
  · exact le_or_left (le_or_left (le_or_right h1))
  · exact le_or_left (le_or_right h2)
  · exact le_or_right h3

end

/-- The loop decodes its characters, or one of them is no digit. -/
theorem decodeGroups_eq (e : ByteOrder) {n : ℕ} {text : List UInt8} (hn : 4*n ≤ text.length) :
    decodeGroups e n text = match digits? (text.take (4*n)) with
      | some ds => .ok (bytesOf ds, text.drop (4*n))
      | none => .error invalidCharacter := by
  induction n generalizing text with
  | zero => rfl
  | succ n ih =>
    match text, hn with
    | c1 :: c2 :: c3 :: c4 :: text, hn =>
      have hrest : 4*n ≤ text.length := by
        simp only [List.length_cons] at hn
        omega
      have htake : (c1 :: c2 :: c3 :: c4 :: text).take (4*(n+1)) =
          [c1, c2, c3, c4] ++ text.take (4*n) := by
        simp [Nat.mul_succ]
      rw [htake, digits?_append, decodeGroups]
      cases hfour : digits? [c1, c2, c3, c4] with
      | none =>
        rw [tempBytes_four_of_none hfour]
        rfl
      | some four =>
        obtain _ | ⟨h1, _ | ⟨h2, _ | ⟨h3, _ | ⟨h4, ⟨⟩⟩⟩⟩⟩ := forall₂_of_digits? hfour
        rw [(holds_four h1 h2 h3 h4).tempBytes, ih hrest]
        cases digits? (text.take (4*n)) with
        | none => rfl
        | some ds => rfl

theorem toNat_ofNat_of_lt {n : ℕ} (h : n < 256) : (UInt8.ofNat n).toNat = n := by
  rw [UInt8.toNat_ofNat', Nat.mod_eq_of_lt h]

theorem digits_lt (ds : List (Fin 64)) : ∀ x ∈ ds.map Fin.val, x < 2^6 := by
  intro x hx
  obtain ⟨d,_,rfl⟩ := List.mem_map.mp hx
  exact d.isLt

theorem bytes_lt (bytes : List UInt8) : ∀ y ∈ bytes.map UInt8.toNat, y < 2^8 := by
  intro y hy
  obtain ⟨t,_,rfl⟩ := List.mem_map.mp hy
  exact t.toNat_lt

/-- The bytes of digits are their bits, taken eight at a time. -/
theorem regroups_bytesOf {ds : List (Fin 64)} {p : ℕ} (hp : p ≤ 2) (h : 4 ∣ ds.length + p) :
    Regroups 6 8 (2*p) (ds.map Fin.val) ((bytesOf ds).map UInt8.toNat) := by
  induction ds using bytesOf.induct with
  | case1 d1 d2 d3 d4 ds ih =>
    have hrest : 4 ∣ ds.length + p := by
      simp only [List.length_cons] at h
      omega
    -- four digits are three bytes, with no bits left over for the ones behind them
    have hfour : Regroups 6 8 0 ([d1,d2,d3,d4].map Fin.val)
        ((bytesOf [d1,d2,d3,d4]).map UInt8.toNat) := by
      refine ⟨digits_lt _, bytes_lt _, by simp [bytesOf], ?_⟩
      have h1 := toNat_ofNat_of_lt (show d1.val*4 + d2.val/16 < 256 by omega)
      have h2 := toNat_ofNat_of_lt (show d2.val%16*16 + d3.val/4 < 256 by omega)
      have h3 := toNat_ofNat_of_lt (show d3.val%4*64 + d4.val < 256 by omega)
      simp only [bytesOf, List.map_cons, List.map_nil, h1, h2, h3, numeral_cons, numeral_nil,
        List.length_cons, List.length_nil]
      omega
    exact hfour.append (ih hrest)
  | case2 d1 d2 d3 =>
    obtain rfl : p = 1 := by
      simp only [List.length_cons, List.length_nil] at h
      omega
    refine ⟨digits_lt _, bytes_lt _, by simp [bytesOf], ?_⟩
    have h1 := toNat_ofNat_of_lt (show d1.val*4 + d2.val/16 < 256 by omega)
    have h2 := toNat_ofNat_of_lt (show d2.val%16*16 + d3.val/4 < 256 by omega)
    simp only [bytesOf, List.map_cons, List.map_nil, h1, h2, numeral_cons, numeral_nil,
      List.length_cons, List.length_nil]
    omega
  | case3 d1 d2 =>
    obtain rfl : p = 2 := by
      simp only [List.length_cons, List.length_nil] at h
      omega
    refine ⟨digits_lt _, bytes_lt _, by simp [bytesOf], ?_⟩
    have h1 := toNat_ofNat_of_lt (show d1.val*4 + d2.val/16 < 256 by omega)
    simp only [bytesOf, List.map_cons, List.map_nil, h1, numeral_cons, numeral_nil,
      List.length_cons, List.length_nil]
    omega
  | case4 ds h1 h2 h3 =>
    -- the digits are none or one, and one cannot be made up to four by the padding
    match ds, h1, h2, h3 with
    | [], _, _, _ =>
      obtain rfl : p = 0 := by
        simp only [List.length_nil] at h
        omega
      exact .nil
    | [d], _, _, _ =>
      simp only [List.length_cons, List.length_nil] at h
      omega
    | [d1, d2], _, _, h3 => exact absurd rfl (h3 d1 d2)
    | [d1, d2, d3], _, h2, _ => exact absurd rfl (h2 d1 d2 d3)
    | d1 :: d2 :: d3 :: d4 :: ds, h1, _, _ => exact absurd rfl (h1 d1 d2 d3 d4 ds)

theorem length_bytesOf (ds : List (Fin 64)) {p : ℕ} (hp : p ≤ 2) (h : 4 ∣ ds.length + p) :
    ds.length*6 = (bytesOf ds).length*8 + 2*p := by
  simpa using (regroups_bytesOf hp h).bits

theorem bytesOf_append {n : ℕ} {ds : List (Fin 64)} (h : ds.length = 4*n) (ds' : List (Fin 64)) :
    bytesOf (ds ++ ds') = bytesOf ds ++ bytesOf ds' := by
  induction n generalizing ds with
  | zero =>
    rw [List.length_eq_zero_iff.mp h]
    rfl
  | succ n ih =>
    match ds, h with
    | d1 :: d2 :: d3 :: d4 :: ds, h =>
      have hrest : ds.length = 4*n := by
        simp only [List.length_cons] at h
        omega
      simp [bytesOf, ih hrest]

/-- A decoder that knows neither tables nor byte orders. -/
def plainDecode (text : List UInt8) : Except Fault (List UInt8) :=
  match digits? text with
  | some ds => .ok (bytesOf ds)
  | none => .error invalidCharacter

theorem decodeLast_eq (e : ByteOrder) {k : ℕ} (hpos : 0 < k) (hk : k ≤ 2) {text : List UInt8}
    (hlen : text.length = 4) : decodeLast e k text = plainDecode (text.take (4-k)) := by
  match text, hlen with
  | [c1, c2, c3, c4], _ =>
    obtain rfl | rfl : k = 1 ∨ k = 2 := by omega
    · change decodeLast e 1 [c1, c2, c3, c4] = plainDecode [c1, c2, c3]
      rw [decodeLast, plainDecode]
      cases hthree : digits? [c1, c2, c3] with
      | none =>
        rw [tempBytes_three_of_none hthree]
        rfl
      | some three =>
        obtain _ | ⟨h1, _ | ⟨h2, _ | ⟨h3, ⟨⟩⟩⟩⟩ := forall₂_of_digits? hthree
        rw [(holds_three h1 h2 h3).tempBytes]
        rfl
    · change decodeLast e 2 [c1, c2, c3, c4] = plainDecode [c1, c2]
      rw [decodeLast, plainDecode]
      cases htwo : digits? [c1, c2] with
      | none =>
        rw [tempBytes_two_of_none htwo]
        rfl
      | some two =>
        obtain _ | ⟨h1, _ | ⟨h2, ⟨⟩⟩⟩ := forall₂_of_digits? htwo
        rw [(holds_two h1 h2).tempBytes]
        rfl

theorem writeInto_bytesOf {size : ℕ} (filling : UInt8) {ds : List (Fin 64)} {p : ℕ} (hp : p ≤ 2)
    (h : 4 ∣ ds.length + p) (hsize : size = (ds.length + p)*3/4 - p) :
    writeInto size filling (bytesOf ds) = .ok (bytesOf ds) := by
  have hbytes := length_bytesOf ds hp h
  have hfull : (bytesOf ds).length = size := by omega
  simp [writeInto, hfull]

theorem length_of_digits? {text : List UInt8} {ds : List (Fin 64)} (h : digits? text = some ds) :
    ds.length = text.length := by
  simpa using congrArg List.length (digits?_eq_some_iff.mp h).symm

theorem numPadding_le (text : List UInt8) : numPadding text ≤ text.length := by
  calc numPadding text ≤ (text.reverse.take 4).length := List.count_le_length
    _ ≤ text.length := by simp

/-- Without padding the loop reads all of the text. -/
theorem decode_unpadded (e : ByteOrder) {text : List UInt8} (hlen : 4 ∣ text.length)
    (filling : UInt8) :
    (decodeGroups e (text.length/4) text >>= fun (decoding,_) =>
      writeInto (text.length*3/4) filling decoding) = plainDecode text := by
  have hall : 4*(text.length/4) = text.length := Nat.mul_div_cancel' hlen
  rw [decodeGroups_eq e hall.le, hall, List.take_length, plainDecode]
  cases hds : digits? text with
  | none => rfl
  | some ds =>
    have hlength := length_of_digits? hds
    exact writeInto_bytesOf filling (Nat.zero_le 2) (hlength ▸ hlen) (by rw [hlength]; rfl)

/-- With padding the loop leaves the last four characters to the switch. -/
theorem decode_padded (e : ByteOrder) {text : List UInt8} (hlen : 4 ∣ text.length) {p : ℕ}
    (hpos : 0 < p) (hp : p ≤ 2) (hle : p ≤ text.length) (filling : UInt8) :
    (decodeGroups e (text.length/4 - 1) text >>= fun (decoding,bytes) =>
      decodeLast e p bytes >>= fun last =>
        writeInto (text.length*3/4 - p) filling (decoding ++ last)) =
      plainDecode (text.take (text.length - p)) := by
  have hfront : 4*(text.length/4 - 1) = text.length - 4 := by omega
  have hsplit : text.take (text.length - p) =
      text.take (text.length-4) ++ (text.drop (text.length-4)).take (4-p) := by
    rw [← List.take_add]
    congr 1
    omega
  rw [decodeGroups_eq e (by omega), hfront, hsplit, plainDecode, digits?_append]
  cases hds : digits? (text.take (text.length-4)) with
  | none => rfl
  | some ds =>
    simp only [bind, Except.bind, Option.bind]
    rw [decodeLast_eq e hpos hp (by rw [List.length_drop]; omega), plainDecode]
    cases hds' : digits? ((text.drop (text.length-4)).take (4-p)) with
    | none => rfl
    | some ds' =>
      have hlength := length_of_digits? hds
      have hlength' := length_of_digits? hds'
      simp only [List.length_take, List.length_drop] at hlength hlength'
      -- the loop stops at a multiple of four digits, so the switch continues its bytes
      have hall : (ds ++ ds').length + p = text.length := by
        rw [List.length_append]
        omega
      simp only [Option.map]
      rw [← bytesOf_append (n := text.length/4 - 1) (by omega)]
      exact writeInto_bytesOf filling hp (hall ▸ hlen) (by rw [hall])

theorem and_three (n : ℕ) : n &&& 3 = n%4 := Nat.and_two_pow_sub_one_eq_mod n 2

/-- Behind its checks the decoder is the plain one. -/
theorem fromBase64_eq (e : ByteOrder) {text : List UInt8} (hlen : 4 ∣ text.length)
    (hpad : numPadding text ≤ 2) :
    fromBase64 e text = plainDecode (text.take (text.length - numPadding text)) := by
  rw [fromBase64, decodeInto]
  by_cases hnil : text = []
  · subst hnil
    rfl
  have hmask := and_three text.length
  have hdiv : text.length >>> 2 = text.length/4 := Nat.shiftRight_eq_div_pow _ 2
  have hdiv' : (text.length*3) >>> 2 = text.length*3/4 := Nat.shiftRight_eq_div_pow _ 2
  rw [if_neg hnil, if_neg (by omega), if_neg (by omega), hdiv, hdiv']
  by_cases hzero : numPadding text = 0
  · simp only [hzero, ne_eq, not_true_eq_false, if_false, Nat.sub_zero, List.take_length]
    rw [← decode_unpadded e hlen '.'.toUInt8]
    cases decodeGroups e (text.length/4) text with
    | error fault => rfl
    | ok result => simp [decodeLast, bind, Except.bind]
  · simp only [ne_eq, hzero, not_false_eq_true, if_true]
    exact decode_padded e hlen (Nat.pos_of_ne_zero hzero) hpad (numPadding_le text) _

theorem toNat_highBits (t : UInt8) : ((t &&& 0x03) <<< 4).toNat = t.toNat%4*16 := by
  rw [UInt8.toNat_shiftLeft, UInt8.toNat_and]
  change ((t.toNat &&& 2^2-1) <<< 4) % 256 = _
  rw [Nat.and_two_pow_sub_one_eq_mod, Nat.shiftLeft_eq]
  omega

theorem toNat_highBits' (t : UInt8) : ((t &&& 0x0F) <<< 2).toNat = t.toNat%16*4 := by
  rw [UInt8.toNat_shiftLeft, UInt8.toNat_and]
  change ((t.toNat &&& 2^4-1) <<< 2) % 256 = _
  rw [Nat.and_two_pow_sub_one_eq_mod, Nat.shiftLeft_eq]
  omega

theorem toNat_lowBits (t : UInt8) : ((t >>> 4) &&& 0x0F).toNat = t.toNat/16 := by
  have hlt := t.toNat_lt
  rw [UInt8.toNat_and, UInt8.toNat_shiftRight]
  change (t.toNat >>> 4) &&& 2^4-1 = _
  rw [Nat.and_two_pow_sub_one_eq_mod, Nat.shiftRight_eq_div_pow]
  omega

theorem toNat_lowBits' (t : UInt8) : ((t >>> 6) &&& 0x03).toNat = t.toNat/64 := by
  have hlt := t.toNat_lt
  rw [UInt8.toNat_and, UInt8.toNat_shiftRight]
  change (t.toNat >>> 6) &&& 2^2-1 = _
  rw [Nat.and_two_pow_sub_one_eq_mod, Nat.shiftRight_eq_div_pow]
  omega

/-- The digits that bytes are written with, the last one filled up with zero bits. -/
def digitsOf : List UInt8 → List (Fin 64)
  | t1 :: t2 :: t3 :: data =>
    .ofNat 64 (t1.toNat/4) :: .ofNat 64 (t1.toNat%4*16 + t2.toNat/16) ::
      .ofNat 64 (t2.toNat%16*4 + t3.toNat/64) :: .ofNat 64 (t3.toNat%64) :: digitsOf data
  | [t1, t2] =>
    [.ofNat 64 (t1.toNat/4), .ofNat 64 (t1.toNat%4*16 + t2.toNat/16),
      .ofNat 64 (t2.toNat%16*4)]
  | [t1] => [.ofNat 64 (t1.toNat/4), .ofNat 64 (t1.toNat%4*16)]
  | [] => []

theorem digitChar_ofNat {n : ℕ} (h : n < 64) : digitChar ⟨n,h⟩ = digitChar (.ofNat 64 n) := by
  congr 1
  exact Fin.ext (Nat.mod_eq_of_lt h).symm

theorem encode_high (t : UInt8) :
    encodeTable0.lookup t = digitChar (.ofNat 64 (t.toNat/4)) := by
  rw [encodeTable0_lookup, digitChar_ofNat]

theorem encodeTable1_of_toNat {t : UInt8} {n : ℕ} (h : t.toNat = n) (hlt : n < 64) :
    encodeTable1.lookup t = digitChar (.ofNat 64 n) := by
  rw [encodeTable1_lookup, digitChar_ofNat, h, Nat.mod_eq_of_lt hlt]

theorem encode_second (t1 t2 : UInt8) :
    encodeTable1.lookup (((t1 &&& 0x03) <<< 4) ||| ((t2 >>> 4) &&& 0x0F)) =
      digitChar (.ofNat 64 (t1.toNat%4*16 + t2.toNat/16)) := by
  have hlt := t2.toNat_lt
  apply encodeTable1_of_toNat
  · rw [UInt8.toNat_or, toNat_highBits, toNat_lowBits, or_eq_add (m := 16) 4 rfl (by omega)]
  · omega

theorem encode_third (t2 t3 : UInt8) :
    encodeTable1.lookup (((t2 &&& 0x0F) <<< 2) ||| ((t3 >>> 6) &&& 0x03)) =
      digitChar (.ofNat 64 (t2.toNat%16*4 + t3.toNat/64)) := by
  have hlt := t3.toNat_lt
  apply encodeTable1_of_toNat
  · rw [UInt8.toNat_or, toNat_highBits', toNat_lowBits', or_eq_add (m := 4) 2 rfl (by omega)]
  · omega

theorem encode_fourth (t : UInt8) :
    encodeTable1.lookup t = digitChar (.ofNat 64 (t.toNat%64)) := by
  rw [encodeTable1_lookup, digitChar_ofNat]

theorem encodeGroups_eq {n : ℕ} {data : List UInt8} (hn : 3*n ≤ data.length) :
    encodeGroups n data =
      .ok ((digitsOf (data.take (3*n))).map digitChar, data.drop (3*n)) := by
  induction n generalizing data with
  | zero => rfl
  | succ n ih =>
    match data, hn with
    | t1 :: t2 :: t3 :: data, hn =>
      have hrest : 3*n ≤ data.length := by
        simp only [List.length_cons] at hn
        omega
      have htake : (t1 :: t2 :: t3 :: data).take (3*(n+1)) =
          t1 :: t2 :: t3 :: data.take (3*n) := by
        simp [Nat.mul_succ]
      have hdrop : (t1 :: t2 :: t3 :: data).drop (3*(n+1)) = data.drop (3*n) := by
        simp [Nat.mul_succ]
      rw [encodeGroups, ih hrest, htake, hdrop, encode_high, encode_second, encode_third,
        encode_fourth]
      rfl

theorem digitsOf_append {n : ℕ} {data : List UInt8} (h : data.length = 3*n)
    (data' : List UInt8) : digitsOf (data ++ data') = digitsOf data ++ digitsOf data' := by
  induction n generalizing data with
  | zero =>
    rw [List.length_eq_zero_iff.mp h]
    rfl
  | succ n ih =>
    match data, h with
    | t1 :: t2 :: t3 :: data, h =>
      have hrest : data.length = 3*n := by
        simp only [List.length_cons] at h
        omega
      simp [digitsOf, ih hrest]

theorem encodeLast_eq {data : List UInt8} (h : data.length < 3) :
    encodeLast data.length data = .ok ((digitsOf data).map digitChar) := by
  match data, h with
  | [], _ => rfl
  | [t1], _ =>
    have h1 := encodeTable1_of_toNat (toNat_highBits t1) (by omega)
    simp [encodeLast, digitsOf, encode_high, h1]
  | [t1, t2], _ =>
    have h2 := encodeTable1_of_toNat (toNat_highBits' t2) (by omega)
    simp [encodeLast, digitsOf, encode_high, encode_second, h2]

/-- How many padding characters follow the digits of so many bytes. -/
def paddingOf (size : ℕ) : ℕ := (3 - size%3)%3

theorem val_ofNat_of_lt {n : ℕ} (h : n < 64) : (Fin.ofNat 64 n).val = n := Nat.mod_eq_of_lt h

/-- The digits of bytes have their bits, and zeros behind them. -/
theorem regroups_digitsOf (data : List UInt8) :
    Regroups 6 8 (2*paddingOf data.length) ((digitsOf data).map Fin.val)
        (data.map UInt8.toNat) ∧
      2^(2*paddingOf data.length) ∣ numeral (2^6) ((digitsOf data).map Fin.val) := by
  induction data using digitsOf.induct with
  | case1 t1 t2 t3 data ih =>
    obtain ⟨hregroups,hzero⟩ := ih
    have hpadding : paddingOf (t1 :: t2 :: t3 :: data).length = paddingOf data.length := by
      simp only [paddingOf, List.length_cons]
      omega
    rw [hpadding]
    have hfour : Regroups 6 8 0 ((digitsOf [t1,t2,t3]).map Fin.val)
        ([t1,t2,t3].map UInt8.toNat) := by
      refine ⟨digits_lt _, bytes_lt _, by simp [digitsOf], ?_⟩
      have := t1.toNat_lt
      have := t2.toNat_lt
      have := t3.toNat_lt
      have h1 := val_ofNat_of_lt (show t1.toNat/4 < 64 by omega)
      have h2 := val_ofNat_of_lt (show t1.toNat%4*16 + t2.toNat/16 < 64 by omega)
      have h3 := val_ofNat_of_lt (show t2.toNat%16*4 + t3.toNat/64 < 64 by omega)
      have h4 := val_ofNat_of_lt (show t3.toNat%64 < 64 by omega)
      simp only [digitsOf, List.map_cons, List.map_nil, h1, h2, h3, h4, numeral_cons, numeral_nil,
        List.length_cons, List.length_nil]
      omega
    refine ⟨hfour.append hregroups, ?_⟩
    exact (Regroups.dvd_append_iff ((digitsOf [t1,t2,t3]).map Fin.val) hregroups).mpr hzero
  | case2 t1 t2 =>
    have := t1.toNat_lt
    have := t2.toNat_lt
    have h1 := val_ofNat_of_lt (show t1.toNat/4 < 64 by omega)
    have h2 := val_ofNat_of_lt (show t1.toNat%4*16 + t2.toNat/16 < 64 by omega)
    have h3 := val_ofNat_of_lt (show t2.toNat%16*4 < 64 by omega)
    have hnumeral : numeral (2^6) ((digitsOf [t1,t2]).map Fin.val) =
        numeral (2^8) ([t1,t2].map UInt8.toNat) * 2^2 := by
      simp only [digitsOf, List.map_cons, List.map_nil, h1, h2, h3, numeral_cons, numeral_nil,
        List.length_cons, List.length_nil]
      omega
    exact ⟨.of_numeral_eq (digits_lt _) (bytes_lt _) (by simp [digitsOf, paddingOf]) hnumeral,
      Dvd.intro_left _ hnumeral.symm⟩
  | case3 t1 =>
    have := t1.toNat_lt
    have h1 := val_ofNat_of_lt (show t1.toNat/4 < 64 by omega)
    have h2 := val_ofNat_of_lt (show t1.toNat%4*16 < 64 by omega)
    have hnumeral : numeral (2^6) ((digitsOf [t1]).map Fin.val) =
        numeral (2^8) ([t1].map UInt8.toNat) * 2^4 := by
      simp only [digitsOf, List.map_cons, List.map_nil, h1, h2, numeral_cons, numeral_nil,
        List.length_cons, List.length_nil]
      omega
    exact ⟨.of_numeral_eq (digits_lt _) (bytes_lt _) (by simp [digitsOf, paddingOf]) hnumeral,
      Dvd.intro_left _ hnumeral.symm⟩
  | case4 => exact ⟨.nil, one_dvd _⟩

/-- Digits with their padding. -/
def written (digits : List (Fin 64)) (padding : ℕ) : List UInt8 :=
  digits.map digitChar ++ List.replicate padding paddingChar

theorem toBase64_eq (data : List UInt8) :
    toBase64 data = .ok (written (digitsOf data) (paddingOf data.length)) := by
  have hrest : (data.drop (3*(data.length/3))).length = data.length%3 := by
    rw [List.length_drop]
    omega
  have hdigits : digitsOf data = digitsOf (data.take (3*(data.length/3))) ++
      digitsOf (data.drop (3*(data.length/3))) := by
    rw [← digitsOf_append (n := data.length/3) (by rw [List.length_take]; omega),
      List.take_append_drop]
  have hbits := (regroups_digitsOf data).1.bits
  simp only [List.length_map, paddingOf] at hbits
  rw [toBase64, encodeInto]
  simp only []
  rw [encodeGroups_eq (by omega)]
  simp only [bind, Except.bind]
  rw [← hrest, encodeLast_eq (by omega), hrest]
  simp only [← List.map_append, ← hdigits]
  rw [writeInto, List.length_map]
  have hsize : (data.length/3 + if data.length%3 > 0 then 1 else 0) <<< 2 =
      (digitsOf data).length + paddingOf data.length := by
    rw [Nat.shiftLeft_eq, paddingOf]
    split_ifs <;> omega
  rw [hsize, if_pos (Nat.le_add_right _ _), Nat.add_sub_cancel_left]
  rfl

/-- These digits with this padding encode these bytes: without two bits for each padding
character, the digits have the bits of the bytes. -/
structure Encodes (digits : List (Fin 64)) (padding : ℕ) (data : List UInt8) : Prop where
  padding_le : padding ≤ 2
  regroups : Regroups 6 8 (2*padding) (digits.map Fin.val) (data.map UInt8.toNat)

/-- The bits that the padding takes away are zero. -/
def Canonical (digits : List (Fin 64)) (padding : ℕ) : Prop :=
  2^(2*padding) ∣ numeral (2^6) (digits.map Fin.val)

theorem Encodes.dvd {digits : List (Fin 64)} {padding : ℕ} {data : List UInt8}
    (h : Encodes digits padding data) : 4 ∣ digits.length + padding := by
  have hbits := h.regroups.bits
  have hle := h.padding_le
  simp only [List.length_map] at hbits
  omega

theorem count_paddingChar {text : List UInt8} {ds : List (Fin 64)}
    (h : text ⊆ ds.map digitChar) : text.count paddingChar = 0 := by
  rw [List.count_eq_zero]
  intro hmem
  obtain ⟨d,_,hd⟩ := List.mem_map.mp (h hmem)
  exact digitChar_ne_paddingChar d hd

theorem numPadding_written (digits : List (Fin 64)) {padding : ℕ} (hpadding : padding ≤ 2) :
    numPadding (written digits padding) = padding := by
  rw [numPadding, written, List.reverse_append, List.reverse_replicate, List.take_append,
    List.count_append, List.take_replicate, List.count_replicate_self, Nat.min_eq_right (by omega)]
  rw [count_paddingChar, Nat.add_zero]
  intro c hc
  exact List.mem_reverse.mp (List.mem_of_mem_take hc)

/-- What stands behind digits and counts as padding is padding. -/
theorem eq_written {text : List UInt8} {ds : List (Fin 64)} (hpad : numPadding text ≤ 2)
    (h : text.take (text.length - numPadding text) = ds.map digitChar) :
    text = written ds (numPadding text) := by
  have hle := numPadding_le text
  -- the padding was counted among the last four characters, and no digit is one of it
  have hlast : text.drop (text.length-4) =
      (text.take (text.length - numPadding text)).drop (text.length-4) ++
        text.drop (text.length - numPadding text) := by
    rw [← List.drop_append_of_le_length (by rw [List.length_take]; omega), List.take_append_drop]
  have hcount : (text.drop (text.length - numPadding text)).count paddingChar =
      numPadding text := by
    have hnone : ((text.take (text.length - numPadding text)).drop (text.length-4)).count
        paddingChar = 0 := count_paddingChar fun c hc => h ▸ List.mem_of_mem_drop hc
    calc (text.drop (text.length - numPadding text)).count paddingChar
        = (text.drop (text.length-4)).count paddingChar := by
          rw [hlast, List.count_append, hnone, Nat.zero_add]
      _ = numPadding text := by rw [numPadding, List.take_reverse, List.count_reverse]
  have htail : text.drop (text.length - numPadding text) =
      List.replicate (numPadding text) paddingChar := by
    have hlength : (text.drop (text.length - numPadding text)).length = numPadding text := by
      rw [List.length_drop]
      omega
    refine List.eq_replicate_iff.mpr ⟨hlength, fun c hc => ?_⟩
    exact (List.count_eq_length.mp (hcount.trans hlength.symm) c hc).symm
  rw [written, ← h, ← htail, List.take_append_drop]

/-- What the decoder does: two checks, and then nothing that depends on the byte order. -/
theorem fromBase64_eq_ite (e : ByteOrder) (text : List UInt8) : fromBase64 e text =
    if 4 ∣ text.length then
      if numPadding text ≤ 2 then plainDecode (text.take (text.length - numPadding text))
      else .error (.runtimeError
        "Invalid base64 encoded data - Found more than 2 padding signs")
    else .error (.runtimeError "Invalid base64 encoded data - Size not divisible by 4") := by
  have hmask := and_three text.length
  split_ifs with hlen hpad
  · exact fromBase64_eq e hlen hpad
  · have hnil : text ≠ [] := by
      rintro rfl
      exact hpad (Nat.zero_le 2)
    rw [fromBase64, decodeInto, if_neg hnil, if_neg (by omega), if_pos (by omega)]
  · have hnil : text ≠ [] := by
      rintro rfl
      exact hlen (Nat.dvd_zero 4)
    rw [fromBase64, decodeInto, if_neg hnil, if_pos (by omega)]

theorem fromBase64_eq_ok_iff {e : ByteOrder} {text data : List UInt8} :
    fromBase64 e text = .ok data ↔
      ∃ digits padding, Encodes digits padding data ∧ text = written digits padding := by
  constructor
  · intro h
    rw [fromBase64_eq_ite] at h
    split_ifs at h with hlen hpad
    rw [plainDecode] at h
    cases hds : digits? (text.take (text.length - numPadding text)) with
    | none =>
      rw [hds] at h
      cases h
    | some ds =>
      simp only [hds, Except.ok.injEq] at h
      have htext := eq_written hpad (digits?_eq_some_iff.mp hds)
      refine ⟨ds, numPadding text, ⟨hpad, ?_⟩, htext⟩
      rw [← h]
      apply regroups_bytesOf hpad
      rw [htext, written, List.length_append, List.length_map, List.length_replicate] at hlen
      exact hlen
  · intro h
    obtain ⟨digits,padding,h,rfl⟩ := h
    have hdvd := h.dvd
    have hpad := numPadding_written digits h.padding_le
    have hlength : (written digits padding).length = digits.length + padding := by
      simp [written]
    rw [fromBase64_eq e (hlength ▸ hdvd) (hpad.le.trans h.padding_le), hpad, hlength,
      Nat.add_sub_cancel]
    have htake : (written digits padding).take digits.length = digits.map digitChar := by
      rw [written, List.take_left' (List.length_map _)]
    rw [htake, plainDecode, digits?_eq_some_iff.mpr rfl]
    simp only [Except.ok.injEq]
    have hregroups := regroups_bytesOf h.padding_le hdvd
    exact List.map_injective_iff.mpr (fun _ _ => UInt8.toNat_inj.mp)
      (hregroups.right_unique (by decide) h.regroups)

theorem toBase64_eq_ok_iff {text data : List UInt8} :
    toBase64 data = .ok text ↔ ∃ digits padding, Encodes digits padding data ∧
      Canonical digits padding ∧ text = written digits padding := by
  obtain ⟨hregroups,hzero⟩ := regroups_digitsOf data
  have hle : paddingOf data.length ≤ 2 := by
    rw [paddingOf]
    omega
  rw [toBase64_eq, Except.ok.injEq]
  constructor
  · intro h
    exact ⟨digitsOf data, paddingOf data.length, ⟨hle, hregroups⟩, hzero, h.symm⟩
  · intro h
    obtain ⟨digits,padding,h,hcanonical,rfl⟩ := h
    -- the number of bytes leaves no choice of the padding
    obtain rfl : padding = paddingOf data.length := by
      have hbits := h.regroups.bits
      have hpadding := h.padding_le
      simp only [List.length_map] at hbits
      rw [paddingOf]
      omega
    have heq := hregroups.left_unique (by decide) h.regroups hzero hcanonical
    rw [List.map_injective_iff.mpr Fin.val_injective heq]

theorem exists_roundTrip (e : ByteOrder) (data : List UInt8) :
    ∃ encoded, toBase64 data = .ok encoded ∧ fromBase64 e encoded = .ok data := by
  obtain ⟨digits,padding,h,_,hwritten⟩ := toBase64_eq_ok_iff.mp (toBase64_eq data)
  exact ⟨_, toBase64_eq data, fromBase64_eq_ok_iff.mpr ⟨digits, padding, h, hwritten⟩⟩

/-- Base64 is exact on machines of either byte order. The encoder writes the digits and the
padding of its data that have zeros for the bits of the padding. The decoder reads back the data
of all digits and paddings, these bits being whatever they are, and refuses every other text. -/
theorem base64_exact (e : ByteOrder) (text data : List UInt8) :
    (toBase64 data = .ok text ↔ ∃ digits padding, Encodes digits padding data ∧
      Canonical digits padding ∧ text = written digits padding) ∧
    (fromBase64 e text = .ok data ↔
      ∃ digits padding, Encodes digits padding data ∧ text = written digits padding) ∧
    (∃ encoded, toBase64 data = .ok encoded ∧ fromBase64 e encoded = .ok data) ∧
    fromBase64 e text ≠ .error .outOfBounds ∧
    fromBase64 .little text = fromBase64 .big text := by
  refine ⟨toBase64_eq_ok_iff, fromBase64_eq_ok_iff, exists_roundTrip e data, ?_, ?_⟩
  · rw [fromBase64_eq_ite, plainDecode]
    split_ifs
    · cases digits? (text.take (text.length - numPadding text)) <;> simp [invalidCharacter]
    · simp
    · simp
  · rw [fromBase64_eq_ite, fromBase64_eq_ite]

end CucumberCpp.Base64
