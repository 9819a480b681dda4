import LibretroUae.Cdrom.Parity

/-!
# LibretroUae.Cdrom.Sector

**A raw sector is made of its 2048 bytes of data.** `encode_l2` puts a sync mark and the address in
front of them, and a checksum and the two kinds of parity behind. A sector is good when its checksum
leaves nothing and all columns and diagonals are good words. What it makes is good; and as no other
good sector is near it, none of them is what becomes of it by a little damage.
-/

namespace LibretroUae.Cdrom

open Lib
open Lib.Crc (shiftUp shiftDown feedBits messageBits Burst)

/-- `EDC_crctable`. -/
def edcCrctable : List (BitVec 32) :=
  [0x00000000, 0x90910101, 0x91210201, 0x01b00300, 0x92410401, 0x02d00500, 0x03600600, 0x93f10701,
  0x94810801, 0x04100900, 0x05a00a00, 0x95310b01, 0x06c00c00, 0x96510d01, 0x97e10e01, 0x07700f00,
  0x99011001, 0x09901100, 0x08201200, 0x98b11301, 0x0b401400, 0x9bd11501, 0x9a611601, 0x0af01700,
  0x0d801800, 0x9d111901, 0x9ca11a01, 0x0c301b00, 0x9fc11c01, 0x0f501d00, 0x0ee01e00, 0x9e711f01,
  0x82012001, 0x12902100, 0x13202200, 0x83b12301, 0x10402400, 0x80d12501, 0x81612601, 0x11f02700,
  0x16802800, 0x86112901, 0x87a12a01, 0x17302b00, 0x84c12c01, 0x14502d00, 0x15e02e00, 0x85712f01,
  0x1b003000, 0x8b913101, 0x8a213201, 0x1ab03300, 0x89413401, 0x19d03500, 0x18603600, 0x88f13701,
  0x8f813801, 0x1f103900, 0x1ea03a00, 0x8e313b01, 0x1dc03c00, 0x8d513d01, 0x8ce13e01, 0x1c703f00,
  0xb4014001, 0x24904100, 0x25204200, 0xb5b14301, 0x26404400, 0xb6d14501, 0xb7614601, 0x27f04700,
  0x20804800, 0xb0114901, 0xb1a14a01, 0x21304b00, 0xb2c14c01, 0x22504d00, 0x23e04e00, 0xb3714f01,
  0x2d005000, 0xbd915101, 0xbc215201, 0x2cb05300, 0xbf415401, 0x2fd05500, 0x2e605600, 0xbef15701,
  0xb9815801, 0x29105900, 0x28a05a00, 0xb8315b01, 0x2bc05c00, 0xbb515d01, 0xbae15e01, 0x2a705f00,
  0x36006000, 0xa6916101, 0xa7216201, 0x37b06300, 0xa4416401, 0x34d06500, 0x35606600, 0xa5f16701,
  0xa2816801, 0x32106900, 0x33a06a00, 0xa3316b01, 0x30c06c00, 0xa0516d01, 0xa1e16e01, 0x31706f00,
  0xaf017001, 0x3f907100, 0x3e207200, 0xaeb17301, 0x3d407400, 0xadd17501, 0xac617601, 0x3cf07700,
  0x3b807800, 0xab117901, 0xaaa17a01, 0x3a307b00, 0xa9c17c01, 0x39507d00, 0x38e07e00, 0xa8717f01,
  0xd8018001, 0x48908100, 0x49208200, 0xd9b18301, 0x4a408400, 0xdad18501, 0xdb618601, 0x4bf08700,
  0x4c808800, 0xdc118901, 0xdda18a01, 0x4d308b00, 0xdec18c01, 0x4e508d00, 0x4fe08e00, 0xdf718f01,
  0x41009000, 0xd1919101, 0xd0219201, 0x40b09300, 0xd3419401, 0x43d09500, 0x42609600, 0xd2f19701,
  0xd5819801, 0x45109900, 0x44a09a00, 0xd4319b01, 0x47c09c00, 0xd7519d01, 0xd6e19e01, 0x46709f00,
  0x5a00a000, 0xca91a101, 0xcb21a201, 0x5bb0a300, 0xc841a401, 0x58d0a500, 0x5960a600, 0xc9f1a701,
  0xce81a801, 0x5e10a900, 0x5fa0aa00, 0xcf31ab01, 0x5cc0ac00, 0xcc51ad01, 0xcde1ae01, 0x5d70af00,
  0xc301b001, 0x5390b100, 0x5220b200, 0xc2b1b301, 0x5140b400, 0xc1d1b501, 0xc061b601, 0x50f0b700,
  0x5780b800, 0xc711b901, 0xc6a1ba01, 0x5630bb00, 0xc5c1bc01, 0x5550bd00, 0x54e0be00, 0xc471bf01,
  0x6c00c000, 0xfc91c101, 0xfd21c201, 0x6db0c300, 0xfe41c401, 0x6ed0c500, 0x6f60c600, 0xfff1c701,
  0xf881c801, 0x6810c900, 0x69a0ca00, 0xf931cb01, 0x6ac0cc00, 0xfa51cd01, 0xfbe1ce01, 0x6b70cf00,
  0xf501d001, 0x6590d100, 0x6420d200, 0xf4b1d301, 0x6740d400, 0xf7d1d501, 0xf661d601, 0x66f0d700,
  0x6180d800, 0xf111d901, 0xf0a1da01, 0x6030db00, 0xf3c1dc01, 0x6350dd00, 0x62e0de00, 0xf271df01,
  0xee01e001, 0x7e90e100, 0x7f20e200, 0xefb1e301, 0x7c40e400, 0xecd1e501, 0xed61e601, 0x7df0e700,
  0x7a80e800, 0xea11e901, 0xeba1ea01, 0x7b30eb00, 0xe8c1ec01, 0x7850ed00, 0x79e0ee00, 0xe971ef01,
  0x7700f000, 0xe791f101, 0xe621f201, 0x76b0f300, 0xe541f401, 0x75d0f500, 0x7460f600, 0xe4f1f701,
  0xe381f801, 0x7310f900, 0x72a0fa00, 0xe231fb01, 0x71c0fc00, 0xe151fd01, 0xe0e1fe01, 0x7070ff00]

def edcByte (result : BitVec 32) (byte : Byte) : BitVec 32 :=
  edcCrctable.getD ((result ^^^ byte.setWidth 32) &&& 0xff).toNat 0 ^^^ (result >>> 8)

/-- The bytes of a buffer from one place to another, the last included. -/
def bytesOf (inout : Buffer) (start upto : Nat) : List Byte :=
  (List.range (upto + 1 - start)).map fun k => inout (start + k)

/-- `build_edc`. -/
def buildEdc (inout : Buffer) (start upto : Nat) : BitVec 32 :=
  (bytesOf inout start upto).foldl edcByte 0

def tobcd (v : Byte) : Byte := ((v / 10) <<< 4) ||| (v % 10)

/-- What `encode_l2` puts in front of the data. -/
def withHeader (address : Int) (p : Buffer) : Buffer := fun k =>
  if k = 0 then 0
  else if k < 12 then 0xff
  else if k = 12 then tobcd (BitVec.ofInt 8 (address.tdiv (60 * 75)))
  else if k = 13 then tobcd (BitVec.ofInt 8 ((address.tdiv 75).tmod 60))
  else if k = 14 then tobcd (BitVec.ofInt 8 (address.tmod 75))
  else if k = 15 then 1
  else p k

/-- The checksum in four bytes, the lowest first, and eight zeros. -/
def withEdc (p : Buffer) : Buffer :=
  let v := buildEdc p 0 (16 + 2048 - 1)
  fun k =>
    if 2064 ≤ k ∧ k < 2064 + 4 then byteAt v (8 * (k - 2064))
    else if 2064 + 4 ≤ k ∧ k < 2064 + 12 then 0
    else p k

/-- A function that is passed `p + n`. -/
def behind (n : Nat) (f : Buffer → Buffer) (p : Buffer) : Buffer := fun k =>
  if k < n then p k else f (fun i => p (n + i)) (k - n)

/-- `encode_l2`. -/
def encodeL2 (p : Buffer) (address : Int) : Buffer :=
  behind 12 encodeL2Q (behind 12 encodeL2P (withEdc (withHeader address p)))

/-! ### Good sectors -/

/-- A column of a sector, with its parity. -/
def column (q : Buffer) (c i : Nat) : Byte := q (12 + (c + 86 * i))

/-- A diagonal of a sector, with its parity. -/
def diagonal (q : Buffer) (c i : Nat) : Byte :=
  if i < 43 then q (12 + (c / 2 * 86 + i * 88 + c % 2) % 2236)
  else q (12 + (2236 + 52 * (i - 43) + c))

/-- A sector that passes its checks. -/
structure GoodSector (q : Buffer) : Prop where
  edc : buildEdc q 0 2067 = 0
  columns : ∀ c < 86, factor.Codeword (column q c) 26
  diagonals : ∀ c < 52, factor.Codeword (diagonal q c) 45

/-! ### What is where -/

theorem behind_lt {n k : Nat} (hk : k < n) (f : Buffer → Buffer) (p : Buffer) :
    behind n f p k = p k := if_pos hk

theorem behind_add (n k : Nat) (f : Buffer → Buffer) (p : Buffer) :
    behind n f p (n + k) = f (fun i => p (n + i)) k := by
  rw [behind, if_neg (Nat.not_lt_of_le (Nat.le_add_right n k)), Nat.add_sub_cancel_left]

theorem encodeL2P_outside (f : Buffer) {k : Nat} (hk : k < 2064 ∨ 2236 ≤ k) :
    encodeL2P f k = f k := Layout.encode_outside f hk

theorem encodeL2Q_outside (f : Buffer) {k : Nat} (hk : k < 2236 ∨ 2340 ≤ k) :
    encodeL2Q f k = f k := Layout.encode_outside f hk

theorem withEdc_outside (p : Buffer) {k : Nat} (hk : k < 2064 ∨ 2076 ≤ k) :
    withEdc p k = p k := by
  simp only [withEdc]
  rw [if_neg (by omega), if_neg (by omega)]

theorem withEdc_add (p : Buffer) {k : Nat} (hk : k < 4) :
    withEdc p (2064 + k) = byteAt (buildEdc p 0 2063) (8 * k) := by
  simp only [withEdc]
  rw [if_pos (by omega), Nat.add_sub_cancel_left]

/-- Only the parity bytes are changed by the parity. -/
theorem encodeL2_outside (p : Buffer) (address : Int) {k : Nat} (hk : k < 2076 ∨ 2352 ≤ k) :
    encodeL2 p address k = withEdc (withHeader address p) k := by
  rw [encodeL2]
  by_cases hsync : k < 12
  · rw [behind_lt hsync, behind_lt hsync]
  · obtain ⟨i, rfl⟩ := Nat.exists_eq_add_of_le (Nat.le_of_not_lt hsync)
    rw [behind_add, encodeL2Q_outside _ (by omega), behind_add, encodeL2P_outside _ (by omega)]

theorem encodeL2_p (p : Buffer) (address : Int) {i : Nat} (hi : i < 2236) :
    encodeL2 p address (12 + i) =
      encodeL2P (fun i => withEdc (withHeader address p) (12 + i)) i := by
  rw [encodeL2, behind_add, encodeL2Q_outside _ (.inl hi), behind_add]

theorem encodeL2_columns (p : Buffer) (address : Int) {c : Nat} (hc : c < 86) :
    factor.Codeword (column (encodeL2 p address) c) 26 := by
  refine (Layout.encode_codeword layoutP (fun i => withEdc (withHeader address p) (12 + i))
    hc).congr fun i hi => ?_
  have hplace : c + 86 * i < 2236 := by
    have hi : i < 26 := hi
    omega
  rw [column, encodeL2_p p address hplace, Layout.symbols]
  have hdata : layoutP.pos (c / 2) i (c % 2) = c + 86 * i := by
    simp only [layoutP]
    omega
  have hparity : ¬ i < 24 → layoutP.cell (i - 24) c = c + 86 * i := by
    intro h
    simp only [layoutP, Layout.cell]
    omega
  split
  · rw [hdata]
    rfl
  · next h => exact congrArg _ (hparity h)

theorem encodeL2_diagonals (p : Buffer) (address : Int) {c : Nat} (hc : c < 52) :
    factor.Codeword (diagonal (encodeL2 p address) c) 45 := by
  refine (Layout.encode_codeword layoutQ
    (fun i => behind 12 encodeL2P (withEdc (withHeader address p)) (12 + i)) hc).congr
    fun i hi => ?_
  rw [diagonal, Layout.symbols]
  have hdata : layoutQ.pos (c / 2) i (c % 2) = (c / 2 * 86 + i * 88 + c % 2) % 2236 := by
    simp only [layoutQ]
    congr 1
    omega
  have hparity : layoutQ.cell (i - 43) c = 2236 + 52 * (i - 43) + c := by
    simp only [layoutQ, Layout.cell]
  have hencode : ∀ k, encodeL2 p address (12 + k) =
      layoutQ.encode (fun i => behind 12 encodeL2P (withEdc (withHeader address p)) (12 + i)) k :=
    fun k => behind_add 12 k encodeL2Q _
  have hrows : layoutQ.rows = 43 := rfl
  rw [hrows]
  split
  · rw [hdata, hencode]
  · rw [hparity, hencode]

/-! ### The checksum -/

theorem edcCrctable_getD : ∀ n : Fin 256,
    edcCrctable.getD n 0 = (shiftDown 0xd8018001)^[8] (BitVec.ofNat 32 n) := by
  decide +kernel

theorem edcByte_eq (result : BitVec 32) (byte : Byte) :
    edcByte result byte =
      (shiftDown 0xd8018001)^[8] ((result.setWidth 8 ^^^ byte).setWidth 32) ^^^ (result >>> 8) := by
  have hlookup := edcCrctable_getD ⟨(result.setWidth 8 ^^^ byte).toNat, BitVec.isLt _⟩
  rw [edcByte, Crc.toNat_and_byte (by decide), BitVec.setWidth_xor,
    BitVec.setWidth_setWidth_of_le _ (by decide), BitVec.setWidth_eq]
  exact congrArg (· ^^^ (result >>> 8)) (hlookup.trans (congrArg _ (BitVec.ofNat_toNat 32 _)))

/-- The checksum is bit-serial, the lowest bits of the bytes first. -/
theorem reverse_foldl_edcByte (result : BitVec 32) (bytes : List Byte) :
    (bytes.foldl edcByte result).reverse =
      feedBits 0x8001801b result.reverse (messageBits (bytes.map BitVec.reverse)) := by
  have hpoly : (0xd8018001 : BitVec 32).reverse = 0x8001801b := by decide +kernel
  have hlast : (0xd8018001 : BitVec 32).reverse.getLsbD 0 = true := by rw [hpoly]; decide
  induction bytes generalizing result with
  | nil => rfl
  | cons byte bytes ih =>
    rw [List.foldl_cons, ih, edcByte_eq, Crc.reverse_lookup hlast (by decide), hpoly, List.map_cons,
      messageBits, messageBits, List.flatMap_cons, Crc.feedBits_append]

/-- A byte of a checksum that follows its message is shifted out. -/
theorem edcByte_byteAt (v : BitVec 32) (n : Nat) :
    edcByte (v >>> n) (byteAt v n) = v >>> (n + 8) := by
  have hempty : (v >>> n).setWidth 8 ^^^ byteAt v n = 0#8 := BitVec.xor_self
  have hzero : (shiftDown (0xd8018001 : BitVec 32))^[8] 0 = 0 := by decide
  rw [edcByte_eq, hempty, BitVec.setWidth_zero, BitVec.shiftRight_add]
  exact (congrArg (· ^^^ (v >>> n >>> 8)) hzero).trans BitVec.zero_xor

theorem foldl_byteAt (v : BitVec 32) :
    [byteAt v 0, byteAt v 8, byteAt v 16, byteAt v 24].foldl edcByte v = 0 := by
  have hfirst : edcByte v (byteAt v 0) = v >>> 8 := edcByte_byteAt v 0
  simp only [List.foldl_cons, List.foldl_nil, hfirst, edcByte_byteAt]
  exact BitVec.ushiftRight_eq_zero (Nat.le_refl 32)

theorem encodeL2_edc (p : Buffer) (address : Int) : buildEdc (encodeL2 p address) 0 2067 = 0 := by
  have hmessage : bytesOf (encodeL2 p address) 0 2063 = bytesOf (withHeader address p) 0 2063 := by
    refine List.map_congr_left fun k hk => ?_
    have hlt : k < 2064 := List.mem_range.mp hk
    rw [Nat.zero_add, encodeL2_outside p address (.inl (by omega)), withEdc_outside _ (.inl hlt)]
  have hedc : ∀ k < 4, encodeL2 p address (2064 + k) =
      byteAt (buildEdc (withHeader address p) 0 2063) (8 * k) := by
    intro k hk
    rw [encodeL2_outside p address (.inl (by omega)), withEdc_add _ hk]
  have hsplit : bytesOf (encodeL2 p address) 0 2067 =
      bytesOf (encodeL2 p address) 0 2063 ++
        [0, 1, 2, 3].map fun k => encodeL2 p address (2064 + k) := by
    have hlength : 2067 + 1 - 0 = 2064 + 4 := by decide
    have hfour : List.range 4 = [0, 1, 2, 3] := by decide
    rw [bytesOf, hlength, List.range_add, List.map_append, List.map_map, hfour]
    simp only [bytesOf, Nat.zero_add, Function.comp_def]
  rw [buildEdc, hsplit, List.foldl_append, hmessage, ← buildEdc]
  simp only [List.map_cons, List.map_nil, hedc 0 (by decide), hedc 1 (by decide),
    hedc 2 (by decide), hedc 3 (by decide)]
  exact foldl_byteAt _

theorem goodSector_encodeL2 (p : Buffer) (address : Int) : GoodSector (encodeL2 p address) where
  edc := encodeL2_edc p address
  columns _ := encodeL2_columns p address
  diagonals _ := encodeL2_diagonals p address

/-- What is made passes its checks, with the data in it, and nothing behind it is written to. -/
theorem encodeL2_good (p : Buffer) (address : Int) :
    GoodSector (encodeL2 p address) ∧
      ∀ k, 16 ≤ k ∧ k < 16 + 2048 ∨ 2352 ≤ k → encodeL2 p address k = p k := by
  refine ⟨goodSector_encodeL2 p address, fun k hk => ?_⟩
  have hheader : 16 ≤ k := by omega
  rw [encodeL2_outside p address (by omega), withEdc_outside _ (by omega), withHeader]
  rw [if_neg (by omega), if_neg (by omega), if_neg (by omega), if_neg (by omega),
    if_neg (by omega), if_neg (by omega)]

/-! ### Damage -/

/-- Words of `n` symbols that differ in two places at most. -/
def Near (s t : Nat → Byte) (n : Nat) : Prop :=
  ∃ i j, i < j ∧ j < n ∧ ∀ k < n, k ≠ i → k ≠ j → s k = t k

theorem eq_of_near {s t : Nat → Byte} {n : Nat} (hs : factor.Codeword s n)
    (ht : factor.Codeword t n) (hn : n ≤ 255) (hnear : Near s t n) : ∀ k < n, s k = t k := by
  obtain ⟨i, j, hij, hj, hsame⟩ := hnear
  exact hs.eq_of_two ht hn hij hj hsame

theorem bytesOf_inj {q q' : Buffer} {upto : Nat} (h : bytesOf q 0 upto = bytesOf q' 0 upto)
    {k : Nat} (hk : k ≤ upto) : q k = q' k := by
  have hbyte := List.map_inj_left.mp h k (List.mem_range.mpr (Nat.lt_succ_of_le hk))
  rwa [Nat.zero_add] at hbyte

/-- The bits that the checksum is of, with it. -/
def edcBits (q : Buffer) : List Bool := messageBits ((bytesOf q 0 2067).map BitVec.reverse)

namespace GoodSector

variable {q q' : Buffer} (hq : GoodSector q) (hq' : GoodSector q')

include hq hq'

/-- Good sectors whose columns are near to each other are the same up to the Q parity. -/
theorem eq_of_columns (hnear : ∀ c < 86, Near (column q c) (column q' c) 26) :
    ∀ k < 2236, q (12 + k) = q' (12 + k) := by
  intro k hk
  have hc : k % 86 < 86 := Nat.mod_lt k (by decide)
  have hrow := eq_of_near (hq.columns _ hc) (hq'.columns _ hc) (by decide) (hnear _ hc) (k / 86)
    (by omega)
  rwa [column, column, Nat.mod_add_div] at hrow

theorem eq_of_diagonals (hnear : ∀ c < 52, Near (diagonal q c) (diagonal q' c) 45) :
    ∀ k < 2340, q (12 + k) = q' (12 + k) := by
  have hsame : ∀ c < 52, ∀ i < 45, diagonal q c i = diagonal q' c i := fun c hc =>
    eq_of_near (hq.diagonals c hc) (hq'.diagonals c hc) (by decide) (hnear c hc)
  intro k hk
  by_cases hdata : k < 2236
  · -- the byte is in row `i` of the diagonals `2 * j` and `2 * j + 1`
    obtain ⟨i, j, hi, hj, hplace⟩ : ∃ i j, i < 43 ∧ j < 26 ∧
        (j * 86 + i * 88 + k % 2) % 2236 = k := by
      refine ⟨k / 2 % 43, (k / 2 / 43 + 52 - k / 2 % 43) % 26, by omega, by omega, ?_⟩
      omega
    have hrow := hsame (2 * j + k % 2) (by omega) i (by omega)
    have hpair : (2 * j + k % 2) / 2 = j := by omega
    have hbyte : (2 * j + k % 2) % 2 = k % 2 := by omega
    rwa [diagonal, diagonal, if_pos hi, if_pos hi, hpair, hbyte, hplace] at hrow
  · obtain ⟨n, rfl⟩ := Nat.exists_eq_add_of_le (Nat.le_of_not_lt hdata)
    have hrow := hsame (n % 52) (Nat.mod_lt n (by decide)) (43 + n / 52) (by omega)
    have hparity : ¬ 43 + n / 52 < 43 := by omega
    have hplace : 52 * (43 + n / 52 - 43) + n % 52 = n := by omega
    rwa [diagonal, diagonal, if_neg hparity, if_neg hparity, Nat.add_assoc, hplace] at hrow

/-- Good sectors that differ in a burst of up to 32 bits only do so behind the checksum. -/
theorem eq_of_burst (hburst : Burst 32 (edcBits q) (edcBits q')) :
    ∀ k < 2068, q k = q' k := by
  have hfeed : ∀ q : Buffer, GoodSector q →
      feedBits (0x8001801b : BitVec 32) 0 (edcBits q) = 0 := by
    intro q hq
    have hreverse := reverse_foldl_edcByte 0 (bytesOf q 0 2067)
    have hedc : (bytesOf q 0 2067).foldl edcByte 0 = 0 := hq.edc
    have hzero : (0 : BitVec 32).reverse = 0 := by decide +kernel
    rw [hedc, hzero] at hreverse
    exact hreverse.symm
  have hbits := Crc.feedBits_burst (by decide) hburst ((hfeed q hq).trans (hfeed q' hq').symm)
  have hinjective : Function.Injective (BitVec.reverse : Byte → Byte) :=
    Function.Involutive.injective fun _ => BitVec.reverse_reverse_eq
  have hbytes := List.map_injective_iff.mpr hinjective (Crc.messageBits_injective hbits)
  exact fun k hk => bytesOf_inj hbytes (Nat.le_of_lt_succ hk)

end GoodSector

/-- No sector that passes its checks is what has become of one that was made by damage to two bytes
of each column at most, or of each diagonal, or to 32 bits in a row up to the checksum, which is
bit-serial. -/
theorem encodeL2_undamaged (p : Buffer) (address : Int) {q : Buffer} (hq : GoodSector q) :
    ((∀ c < 86, Near (column (encodeL2 p address) c) (column q c) 26) →
      ∀ k < 2236, encodeL2 p address (12 + k) = q (12 + k)) ∧
    ((∀ c < 52, Near (diagonal (encodeL2 p address) c) (diagonal q c) 45) →
      ∀ k < 2340, encodeL2 p address (12 + k) = q (12 + k)) ∧
    (Burst 32 (edcBits (encodeL2 p address)) (edcBits q) →
      ∀ k < 2068, encodeL2 p address k = q k) ∧
    ∀ (result : BitVec 32) (bytes : List Byte), (bytes.foldl edcByte result).reverse =
      feedBits 0x8001801b result.reverse (messageBits (bytes.map BitVec.reverse)) :=
  ⟨(goodSector_encodeL2 p address).eq_of_columns hq,
    (goodSector_encodeL2 p address).eq_of_diagonals hq,
    (goodSector_encodeL2 p address).eq_of_burst hq, reverse_foldl_edcByte⟩

/-- Of the sectors of two addresses, some columns or some diagonals are not near. -/
theorem encodeL2_undamaged_address :
    ¬ ((∀ c < 86, Near (column (encodeL2 (fun _ => 0) 150) c)
        (column (encodeL2 (fun _ => 0) 151) c) 26)) := by
  intro hnear
  have hsame := (encodeL2_undamaged (fun _ => 0) 150
    (goodSector_encodeL2 (fun _ => 0) 151)).1 hnear 2 (by decide)
  rw [encodeL2_outside _ _ (.inl (by decide)), encodeL2_outside _ _ (.inl (by decide)),
    withEdc_outside _ (.inl (by decide)), withEdc_outside _ (.inl (by decide))] at hsame
  exact absurd hsame (by decide)

end LibretroUae.Cdrom
