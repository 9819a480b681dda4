import LibretroUae.Lib.Image
import LibretroUae.Lib.Loop

/-!
# LibretroUae.Rom.Keyring

**Encrypted Kickstarts.** An image is decoded in place with one key of the keyring after the other.
What a key made of the image is taken back before the next one is tried, but not what the last one
made of it.
-/

namespace LibretroUae.Rom

open Lib Lib.Image

/-- A key of the keyring. `addkey` refuses empty ones. -/
structure RomKey where
  key : List Byte
  nonempty : 0 < key.length

def RomKey.size (k : RomKey) : Nat := k.key.length

def romKeyNum : Nat := 4

/-- The places of the keyring, of which there are `romKeyNum`. -/
abbrev Keyring := Nat → Option RomKey

/-- An entry of the ROM table. -/
structure RomData where
  size : Nat
  cloanto : Int
  type : BitVec 32
  group : Int
  crc32 : BitVec 32
  sha1 : List (BitVec 32)

def notcrc32 (crc32 : BitVec 32) : Bool := crc32 == 0xffffffff || crc32 == 0

/-- `cmpsha1`, true where the two are the same. -/
def cmpsha1 (s1 : List Byte) (rd : RomData) : Bool :=
  (List.range 5).all fun i =>
    word32 (s1.getD (4 * i) 0) (s1.getD (4 * i + 1) 0) (s1.getD (4 * i + 2) 0)
      (s1.getD (4 * i + 3) 0) == rd.sha1.getD i 0

def checkromdata (roms : List RomData) (sha1 : List Byte) (size : Nat) (mask : BitVec 32) :
    Option RomData :=
  roms.find? fun rd =>
    !notcrc32 rd.crc32 && decide (size ≤ rd.size) && (rd.type &&& mask != 0) && cmpsha1 sha1 rd

/-- The image, and the flag that tells the rest of the program of a Cloanto one. -/
structure RomState where
  mem : Image
  cloantoRom : Bool

/-- A byte of a pass over the image: the place in the key is counted along and starts again at
`realSize`. -/
def xorByte (k : RomKey) (realSize cnt : Nat) (s : Image × Nat) : Image × Nat :=
  let mem := fun a => if a = cnt then s.1 a ^^^ k.key.getD s.2 0 else s.1 a
  let t := if realSize = cnt + 1 then k.size - 1 else s.2
  (mem, (t + 1) % k.size)

def xorPass (k : RomKey) (size realSize : Nat) (mem : Image) : Image :=
  (loop (xorByte k realSize) size (mem, 0)).1

/-- The words a decoded image may start with. -/
def startsRight (mem : Image) : Bool :=
  mem 2 == 0x4e && mem 3 == 0xf9 || mem 0 == 0x11 && (mem 1 == 0x11 || mem 1 == 0x14)

section

variable (getSha1 : Image → Nat → List Byte) (roms : List RomData) (keyring : Keyring)
  (size realSize : Nat)

/-- The loop of `decode_cloanto_rom_do` from the key below the given place on. -/
def decodeFrom : Nat → RomState → Bool × RomState
  | 0, s => (false, s)
  | i + 1, s =>
    match keyring i with
    | none => decodeFrom i s
    | some k =>
      let mem := xorPass k size realSize s.mem
      if startsRight mem then (true, ⟨mem, true⟩)
      else
        match checkromdata roms (getSha1 mem size) size (-1) with
        | some rd => (true, ⟨mem, if rd.cloanto ≠ 0 then true else s.cloantoRom⟩)
        | none =>
          -- the last key is left without its undo pass
          if i = 0 then (false, { s with mem := mem })
          else decodeFrom i { s with mem := xorPass k size realSize mem }

/-- `decode_cloanto_rom_do`. -/
def decodeCloantoRomDo (s : RomState) : Bool × RomState :=
  decodeFrom getSha1 roms keyring size realSize romKeyNum s

end

/-! ### A pass -/

section

variable (k : RomKey) (size realSize : Nat) (mem : Image)

/-- The key stream: the key again and again, from the start and from `realSize` on. -/
def keyStream (a : Nat) : Byte :=
  k.key.getD ((if a < realSize then a else a - realSize) % k.size) 0

/-- The image XORed with the key stream. -/
def decoded : Image := fun a => if a < size then mem a ^^^ keyStream k realSize a else mem a

/-- The place in the key after `n` bytes. -/
def keyPlace (n : Nat) : Nat := (if n < realSize then n else n - realSize) % k.size

variable {k realSize}

theorem keyPlace_succ (n : Nat) :
    ((if realSize = n + 1 then k.size - 1 else keyPlace k realSize n) + 1) % k.size =
      keyPlace k realSize (n + 1) := by
  have hpos : 0 < k.size := k.nonempty
  rw [keyPlace, keyPlace]
  by_cases hend : realSize = n + 1
  · rw [if_pos hend, if_neg (by omega), hend, Nat.sub_self, Nat.sub_add_cancel hpos, Nat.mod_self,
      Nat.zero_mod]
  · rw [if_neg hend, Nat.mod_add_mod]
    by_cases hlt : n + 1 < realSize
    · rw [if_pos hlt, if_pos (by omega)]
    · have hge : realSize ≤ n := by omega
      rw [if_neg hlt, if_neg (by omega), Nat.sub_add_comm hge]

theorem xorByte_decoded (n : Nat) :
    xorByte k realSize n (decoded k n realSize mem, keyPlace k realSize n) =
      (decoded k (n + 1) realSize mem, keyPlace k realSize (n + 1)) := by
  refine Prod.ext (funext fun a => ?_) (keyPlace_succ n)
  simp only [xorByte, decoded]
  by_cases ha : a = n
  · subst ha
    rw [if_pos rfl, if_neg (Nat.lt_irrefl a), if_pos (Nat.lt_succ_self a)]
    rfl
  · have hiff : a < n + 1 ↔ a < n := by omega
    rw [if_neg ha]
    simp only [hiff]

/-- A pass XORs the image with the key stream. -/
theorem xorPass_eq : xorPass k size realSize mem = decoded k size realSize mem := by
  have h0 : (mem, 0) = (decoded k 0 realSize mem, keyPlace k realSize 0) := by
    refine Prod.ext rfl ?_
    show 0 = keyPlace k realSize 0
    rw [keyPlace, Nat.zero_sub, ite_self, Nat.zero_mod]
  have hloop : loop (xorByte k realSize) size (mem, 0) =
      (decoded k size realSize mem, keyPlace k realSize size) :=
    loop_induct (P := fun n s => s = (decoded k n realSize mem, keyPlace k realSize n)) h0
      fun n s _ hs => by rw [hs, xorByte_decoded]
  rw [xorPass, hloop]

/-- A second pass takes the first one back. -/
theorem decoded_decoded : decoded k size realSize (decoded k size realSize mem) = mem := by
  funext a
  by_cases ha : a < size
  · simp only [decoded, if_pos ha, BitVec.xor_assoc, BitVec.xor_self, BitVec.xor_zero]
  · simp only [decoded, if_neg ha]

theorem decoded_eq_self :
    decoded k size realSize mem = mem ↔ ∀ a < size, keyStream k realSize a = 0 := by
  constructor
  · intro heq a ha
    have hbyte : mem a ^^^ keyStream k realSize a = mem a := by
      have := congrFun heq a
      rwa [decoded, if_pos ha] at this
    calc keyStream k realSize a
        = mem a ^^^ (mem a ^^^ keyStream k realSize a) := by
          rw [← BitVec.xor_assoc, BitVec.xor_self, BitVec.zero_xor]
      _ = 0 := by rw [hbyte, BitVec.xor_self]; rfl
  · intro hzero
    funext a
    by_cases ha : a < size
    · rw [decoded, if_pos ha, hzero a ha]
      exact BitVec.xor_zero
    · rw [decoded, if_neg ha]

end

/-! ### The keys in turn -/

section

variable {getSha1 : Image → Nat → List Byte} {roms : List RomData} {keyring : Keyring}
  {size realSize : Nat}

/-- The image is taken for a decoded one. -/
def Recognised (getSha1 : Image → Nat → List Byte) (roms : List RomData) (size : Nat)
    (mem : Image) : Prop :=
  startsRight mem = true ∨ (checkromdata roms (getSha1 mem size) size (-1)).isSome

/-- A key below place `n` decodes the image to one that is recognised. -/
def HasKey (getSha1 : Image → Nat → List Byte) (roms : List RomData) (keyring : Keyring)
    (size realSize n : Nat) (mem : Image) : Prop :=
  ∃ i < n, ∃ k, keyring i = some k ∧ Recognised getSha1 roms size (decoded k size realSize mem)

/-- What the first key leaves of the image when no key fits. -/
def leftover (keyring : Keyring) (size realSize : Nat) (mem : Image) : Image :=
  match keyring 0 with
  | none => mem
  | some k => decoded k size realSize mem

/-- A key that fits ends the loop with its image. -/
theorem decodeFrom_hit {i : Nat} {k : RomKey} {s : RomState} (hkey : keyring i = some k)
    (hrec : Recognised getSha1 roms size (decoded k size realSize s.mem)) :
    ∃ flag, decodeFrom getSha1 roms keyring size realSize (i + 1) s =
      (true, ⟨decoded k size realSize s.mem, flag⟩) := by
  rw [decodeFrom, hkey]
  simp only [xorPass_eq]
  by_cases hstart : startsRight (decoded k size realSize s.mem) = true
  · exact ⟨true, if_pos hstart⟩
  · obtain ⟨rd, hrd⟩ := Option.isSome_iff_exists.mp (hrec.resolve_left hstart)
    rw [if_neg hstart, hrd]
    exact ⟨_, rfl⟩

/-- A key that does not fit changes the image only if it is the last one. -/
theorem decodeFrom_miss {i : Nat} {k : RomKey} {s : RomState} (hkey : keyring i = some k)
    (hrec : ¬ Recognised getSha1 roms size (decoded k size realSize s.mem)) :
    decodeFrom getSha1 roms keyring size realSize (i + 1) s =
      if i = 0 then (false, { s with mem := decoded k size realSize s.mem })
      else decodeFrom getSha1 roms keyring size realSize i s := by
  have hstart : ¬ startsRight (decoded k size realSize s.mem) = true := fun h => hrec (Or.inl h)
  have hnone : checkromdata roms (getSha1 (decoded k size realSize s.mem) size) size (-1) = none :=
    Option.not_isSome_iff_eq_none.mp fun h => hrec (Or.inr h)
  rw [decodeFrom, hkey]
  simp only [xorPass_eq, if_neg hstart, hnone, decoded_decoded]

theorem HasKey.of_succ {i : Nat} {mem : Image}
    (h : HasKey getSha1 roms keyring size realSize (i + 1) mem)
    (hno : ∀ k, keyring i = some k →
      ¬ Recognised getSha1 roms size (decoded k size realSize mem)) :
    HasKey getSha1 roms keyring size realSize i mem := by
  obtain ⟨j, hj, k, hkey, hrec⟩ := h
  rcases Nat.lt_succ_iff_lt_or_eq.mp hj with hlt | rfl
  · exact ⟨j, hlt, k, hkey, hrec⟩
  · exact absurd hrec (hno k hkey)

/-- With a key that fits the loop ends with the image one of these makes. -/
theorem decodeFrom_hasKey {n : Nat} {s : RomState}
    (h : HasKey getSha1 roms keyring size realSize n s.mem) :
    ∃ i < n, ∃ k flag, keyring i = some k ∧
      decodeFrom getSha1 roms keyring size realSize n s =
        (true, ⟨decoded k size realSize s.mem, flag⟩) := by
  induction n with
  | zero =>
    obtain ⟨i, hi, -⟩ := h
    exact absurd hi (Nat.not_lt_zero i)
  | succ i ih =>
    have hlater (hno : ∀ k, keyring i = some k →
          ¬ Recognised getSha1 roms size (decoded k size realSize s.mem))
        (hstep : decodeFrom getSha1 roms keyring size realSize (i + 1) s =
          decodeFrom getSha1 roms keyring size realSize i s) :
        ∃ j < i + 1, ∃ k flag, keyring j = some k ∧
          decodeFrom getSha1 roms keyring size realSize (i + 1) s =
            (true, ⟨decoded k size realSize s.mem, flag⟩) := by
      obtain ⟨j, hj, k, flag, hkey, heq⟩ := ih (h.of_succ hno)
      exact ⟨j, Nat.lt_succ_of_lt hj, k, flag, hkey, hstep.trans heq⟩
    cases hkey : keyring i with
    | none =>
      refine hlater (fun k hk => ?_) ?_
      · rw [hkey] at hk
        cases hk
      · rw [decodeFrom, hkey]
    | some k =>
      by_cases hrec : Recognised getSha1 roms size (decoded k size realSize s.mem)
      · obtain ⟨flag, heq⟩ := decodeFrom_hit hkey hrec
        exact ⟨i, Nat.lt_succ_self i, k, flag, hkey, heq⟩
      · have hno : ∀ k', keyring i = some k' →
            ¬ Recognised getSha1 roms size (decoded k' size realSize s.mem) := by
          intro k' hk'
          rw [hkey] at hk'
          exact Option.some.inj hk' ▸ hrec
        obtain ⟨j, hj, -⟩ := h.of_succ hno
        have hi : i ≠ 0 := Nat.ne_of_gt (Nat.zero_lt_of_lt hj)
        exact hlater hno ((decodeFrom_miss hkey hrec).trans (if_neg hi))

/-- Without one it fails, with what the first key leaves. -/
theorem decodeFrom_no_key {n : Nat} {s : RomState}
    (h : ¬ HasKey getSha1 roms keyring size realSize (n + 1) s.mem) :
    decodeFrom getSha1 roms keyring size realSize (n + 1) s =
      (false, { s with mem := leftover keyring size realSize s.mem }) := by
  have hmiss {i : Nat} {k : RomKey} (hi : i < n + 1) (hkey : keyring i = some k) :
      ¬ Recognised getSha1 roms size (decoded k size realSize s.mem) :=
    fun hrec => h ⟨i, hi, k, hkey, hrec⟩
  induction n with
  | zero =>
    cases hkey : keyring 0 with
    | none => rw [decodeFrom, hkey, leftover, hkey]; rfl
    | some k =>
      rw [decodeFrom_miss hkey (hmiss (Nat.zero_lt_one) hkey), if_pos rfl, leftover, hkey]
  | succ n ih =>
    have hrest := ih (fun ⟨j, hj, hk⟩ => h ⟨j, Nat.lt_succ_of_lt hj, hk⟩)
      fun hi hkey => hmiss (Nat.lt_succ_of_lt hi) hkey
    cases hkey : keyring (n + 1) with
    | none => rwa [decodeFrom, hkey]
    | some k =>
      rwa [decodeFrom_miss hkey (hmiss (Nat.lt_succ_self _) hkey), if_neg (Nat.succ_ne_zero n)]

/-! ### All or nothing -/

/-- Success comes with the image that one key makes, failure with the image as it was. -/
def AllOrNothing (keyring : Keyring) (size realSize : Nat) (mem : Image)
    (r : Bool × RomState) : Prop :=
  if r.1 then ∃ i < romKeyNum, ∃ k, keyring i = some k ∧ r.2.mem = decoded k size realSize mem
  else r.2.mem = mem

/-- Decoding is all or nothing exactly when a key fits, when the first place of the keyring is
empty, or when its key is all zeros as far as the image goes. -/
theorem decodeCloantoRomDo_allOrNothing (getSha1 : Image → Nat → List Byte) (roms : List RomData)
    (keyring : Keyring) (size realSize : Nat) (s : RomState) :
    AllOrNothing keyring size realSize s.mem
        (decodeCloantoRomDo getSha1 roms keyring size realSize s) ↔
      HasKey getSha1 roms keyring size realSize romKeyNum s.mem ∨
        ∀ k, keyring 0 = some k → ∀ a < size, keyStream k realSize a = 0 := by
  by_cases hhas : HasKey getSha1 roms keyring size realSize romKeyNum s.mem
  · obtain ⟨i, hi, k, flag, hkey, heq⟩ := decodeFrom_hasKey hhas
    refine iff_of_true ?_ (Or.inl hhas)
    rw [decodeCloantoRomDo, heq, AllOrNothing, if_pos rfl]
    exact ⟨i, hi, k, hkey, rfl⟩
  · rw [or_iff_right hhas, decodeCloantoRomDo, romKeyNum, decodeFrom_no_key hhas]
    show leftover keyring size realSize s.mem = s.mem ↔ _
    rw [leftover]
    cases hkey : keyring 0 with
    | none => exact iff_of_true rfl fun k hk => nomatch hk
    | some k =>
      show decoded k size realSize s.mem = s.mem ↔ _
      rw [decoded_eq_self]
      exact ⟨fun hz k' hk' => Option.some.inj hk' ▸ hz, fun hz => hz k rfl⟩

end

/-- The table's first Kickstart. -/
def kickstart10 : RomData :=
  { size := 262144, cloanto := 0, type := 0x100, group := 0, crc32 := 0x299790ff
    sha1 := [0x00c15406, 0xbeb4b8ab, 0x1a16aa66, 0xc05860e1, 0xa7c1ad79] }

/-- One key of one byte, in the first place. -/
def oneKey : Keyring
  | 0 => some ⟨[1], by decide⟩
  | _ + 1 => none

/-- The digest of four bytes of one. -/
def onesSha1 : List Byte :=
  [0xa9, 0x37, 0x55, 0xf8, 0x27, 0x3b, 0x0e, 0x8d, 0xc4, 0xb0, 0xec, 0xc1, 0x58, 0xe5, 0x85, 0x31,
    0x19, 0xa2, 0x4b, 0xf0]

/-- Four zeros are ones after a failed attempt. -/
theorem decodeCloantoRomDo_zeros :
    ¬ AllOrNothing oneKey 4 4 (fun _ => 0)
      (decodeCloantoRomDo (fun _ _ => onesSha1) [kickstart10] oneKey 4 4 ⟨fun _ => 0, false⟩) := by
  have hret : (decodeCloantoRomDo (fun _ _ => onesSha1) [kickstart10] oneKey 4 4
      ⟨fun _ => 0, false⟩).1 = false := by decide
  have hbyte : (decodeCloantoRomDo (fun _ _ => onesSha1) [kickstart10] oneKey 4 4
      ⟨fun _ => 0, false⟩).2.mem 0 = 1 := by decide
  intro h
  rw [AllOrNothing, hret] at h
  have hzero : (1 : Byte) = 0 := hbyte.symm.trans (congrFun h 0)
  exact absurd hzero (by decide)

end LibretroUae.Rom
