import LibretroUae.Disk.Mfm

/-!
# LibretroUae.Disk.Sector

One AmigaDOS sector between its sync words: as `decode_amigados` lays it out
(`sectorLongs`, `sectorWords`) and as `decode_buffer` reads it (`decodeSector`).

Everything after the sync words is a list of longs: identification, header, header
checksum, data checksum and data, each long as its odd and its even half.
`decodeSector_of_longs` is the round trip of one sector, wherever on a track it stands.
-/

namespace LibretroUae.Disk

open LibretroUae.Lib

/-! ### Encoding -/

/-- `drive_filetype`. -/
inductive FileType
  | none | normal | ext1 | ext2 | fdi | ipf | scp | catweasel | pcdos | kick | skick
  | normalHeader | floppybridge
  deriving DecidableEq, Repr

/-- The header bytes of a sector without any. -/
theorem length_zeroHead : (List.replicate 16 (0 : Byte)).length = 4 * 4 := List.length_replicate

/-- What `read_floppy_data` supplies for a sector: its bytes and its header bytes. -/
structure Sector where
  data : List Byte
  head : List Byte
  length_data : data.length = 4 * 128
  length_head : head.length = 4 * 4

namespace Sector

/-- The data as longs. -/
def dataLongs (s : Sector) : List Long := words32 s.data

/-- The header as longs. -/
def headLongs (s : Sector) : List Long := words32 s.head

theorem length_dataLongs (s : Sector) : s.dataLongs.length = 128 :=
  (flatMap_be32_words32 128 s.length_data).2

theorem length_headLongs (s : Sector) : s.headLongs.length = 4 :=
  (flatMap_be32_words32 4 s.length_head).2

theorem bytes_dataLongs (s : Sector) : s.dataLongs.flatMap be32 = s.data :=
  (flatMap_be32_words32 128 s.length_data).1

theorem bytes_headLongs (s : Sector) : s.headLongs.flatMap be32 = s.head :=
  (flatMap_be32_words32 4 s.length_head).1

end Sector

/-- `secbuf[4..7]`: format, track, sector, sectors to the gap. -/
def sectorId (tr sec left : Nat) : Long :=
  word32 0xff (BitVec.ofNat 8 tr) (BitVec.ofNat 8 sec) (BitVec.ofNat 8 left)

/-- The `^=` loops over the longs. -/
def xorAll (ls : List Long) : Long := ls.foldl (· ^^^ ·) 0

/-- Longs as their odd halves and then their even halves. -/
def halves (ls : List Long) : List Long := ls.map dodd ++ ls.map deven

/-- The longs of a sector before `mfmcode`. -/
def sectorLongs (id : Long) (head data : List Long) : List Long :=
  let hck := xorAll (halves [id] ++ halves head)
  let dck := xorAll (halves data)
  halves [id] ++ halves head ++ [hck >>> 1, hck] ++ [dck >>> 1, dck] ++ halves data

/-- `mfmbuf`: 544 words and the word behind the sector. -/
def sectorWords (prevbit : Bool) (id : Long) (head data : List Long) : List Word :=
  [if prevbit then 0x2aaa else 0xaaaa, 0xaaaa, 0x4489, 0x4489] ++
    mfmcode 0 ((sectorLongs id head data).flatMap longWords ++ [0])

/-! ### Decoding -/

/-- What `decode_buffer` is called with. -/
structure Config where
  /-- `FLOPPY_WRITE_LEN`. -/
  writeLen : Nat
  drvsec : Nat
  ddhd : Nat
  cyl : Nat
  side : Nat
  filetype : FileType
  checkmode : Bool

/-- A sector that `decode_buffer` accepts. -/
structure Decoded where
  number : Nat
  head : List Long
  data : List Long
  deriving DecidableEq, Repr

/-- The loops that read `n` longs and, `stride` words further on, their other halves. -/
def readPairs (mbuf : Track) (shift : Fin 16) (stride : Nat) : Nat → Nat → List (Long × Long)
  | _, 0 => []
  | p, n + 1 =>
    (getmfmlong mbuf p shift, getmfmlong mbuf (p + stride) shift) ::
      readPairs mbuf shift stride (p + 2) n

/-- `chksum ^= odd ^ even` over what a loop read. -/
def xorPairs (chksum : Long) (ps : List (Long × Long)) : Long :=
  ps.foldl (fun c x => c ^^^ (x.1 ^^^ x.2)) chksum

/-- The long at `p` with its other half two words on. -/
def longAt (mbuf : Track) (p : Nat) (shift : Fin 16) : Long :=
  merge (getmfmlong mbuf p shift) (getmfmlong mbuf (p + 2) shift)

/-- The part of `decode_buffer` behind the sync words: the sector, or the code that an
`ADF_EXT2` file is refused with, and the position it leaves off at. -/
def decodeSector (cfg : Config) (mbuf : Track) (p : Nat) (shift : Fin 16) :
    Except Nat Decoded × Nat :=
  let odd := getmfmlong mbuf p shift
  let even := getmfmlong mbuf (p + 2) shift
  let id := merge odd even
  let trackoffs := ((id &&& 0xff00) >>> 8).toNat
  if trackoffs + 1 > cfg.drvsec then (.error 2, p + 4)
  else
    let hdr := readPairs mbuf shift 8 (p + 4) 4
    let sechead := hdr.map fun x => merge x.1 x.2
    let issechead := sechead.any (· ≠ 0) && !cfg.checkmode
    if issechead && cfg.filetype = .ext2 then (.error 6, p + 12)
    else if longAt mbuf (p + 20) shift ≠ xorPairs (odd ^^^ even) hdr then (.error 3, p + 24)
    else if ((id &&& 0x00ff0000) >>> 16).toNat ≠ cfg.cyl * 2 + cfg.side then (.error 3, p + 24)
    else
      let data := readPairs mbuf shift 256 (p + 28) 128
      if xorPairs (longAt mbuf (p + 24) shift) data ≠ 0 then (.error 4, p + 284)
      else (.ok ⟨trackoffs, sechead, data.map fun x => merge x.1 x.2⟩, p + 540)

/-! ### Reading back -/

theorem readPairs_of_longs {mbuf : Track} {stride : Nat} {as bs : List Long}
    (hlen : as.length = bs.length) :
    ∀ {p : Nat}, HasLongs mbuf p as → HasLongs mbuf (p + stride) bs →
      readPairs mbuf 0 stride p as.length =
        List.zipWith (fun a b => (deven a, deven b)) as bs := by
  induction as generalizing bs with
  | nil => intros; rfl
  | cons a as ih =>
    intro p ha hb
    match bs, hlen, hb with
    | b :: bs, hlen, hb =>
      have hb2 : HasLongs mbuf (p + 2 + stride) bs := by
        rw [Nat.add_right_comm]
        exact hb.2
      rw [List.length_cons, readPairs, ha.1, hb.1, ih (by simpa using hlen) ha.2 hb2]
      rfl

theorem deven_dodd (l : Long) : deven (dodd l) = dodd l := by
  rw [deven, dodd, BitVec.and_assoc, BitVec.and_self]

theorem deven_deven (l : Long) : deven (deven l) = deven l := by
  rw [deven, deven, BitVec.and_assoc, BitVec.and_self]

/-- A list of longs written as halves reads back pairwise. -/
theorem readPairs_halves {mbuf : Track} {p : Nat} {ls : List Long}
    (h : HasLongs mbuf p (halves ls)) :
    readPairs mbuf 0 (2 * ls.length) p ls.length = ls.map fun l => (dodd l, deven l) := by
  rw [halves, HasLongs.append, List.length_map] at h
  have hr := readPairs_of_longs (by simp) h.1 h.2
  rw [List.length_map] at hr
  rw [hr, List.zipWith_map, List.zipWith_self]
  simp only [deven_dodd, deven_deven]

theorem map_merge_halves (ls : List Long) :
    (ls.map fun l => (dodd l, deven l)).map (fun x => merge x.1 x.2) = ls := by
  rw [List.map_map]
  calc ls.map _ = ls.map id := List.map_congr_left fun l _ => merge_split l
    _ = ls := List.map_id ls

/-! ### Checksums -/

theorem foldl_xor (ls : List Long) : ∀ c : Long, ls.foldl (· ^^^ ·) c = c ^^^ xorAll ls := by
  induction ls with
  | nil => simp [xorAll]
  | cons l ls ih =>
    intro c
    have hcons : xorAll (l :: ls) = l ^^^ xorAll ls := by
      rw [xorAll, List.foldl_cons, ih]
      simp
    rw [List.foldl_cons, ih, hcons, BitVec.xor_assoc]

theorem xorAll_append (ls ls' : List Long) : xorAll (ls ++ ls') = xorAll ls ^^^ xorAll ls' := by
  rw [xorAll, List.foldl_append, foldl_xor, ← xorAll]

/-- The decoder sums the halves pairwise, the encoder first the odd and then the even ones. -/
theorem xorPairs_halves (ls : List Long) :
    ∀ c : Long, xorPairs c (ls.map fun l => (dodd l, deven l)) = c ^^^ xorAll (halves ls) := by
  induction ls with
  | nil => simp [xorPairs, halves, xorAll]
  | cons l ls ih =>
    intro c
    rw [List.map_cons, xorPairs, List.foldl_cons, ← xorPairs, ih]
    have hcons : ∀ (a : Long) (as : List Long), xorAll (a :: as) = a ^^^ xorAll as := by
      intro a as
      rw [← List.singleton_append, xorAll_append]
      simp [xorAll]
    simp only [halves, List.map_cons, xorAll_append, hcons, List.cons_append]
    ac_rfl

/-! ### The identification long -/

theorem toNat_setWidth_ofNat {n : Nat} (h : n < 256) :
    ((BitVec.ofNat 8 n).setWidth 32).toNat = n := by
  rw [BitVec.toNat_setWidth, BitVec.toNat_ofNat]
  omega

theorem trackoffs_sectorId (tr left : Nat) {sec : Nat} (hs : sec < 256) :
    ((sectorId tr sec left &&& 0xff00) >>> 8).toNat = sec := by
  have hmask : (0xff00 : Long) = (0xff : Long) <<< 8 := by decide
  rw [hmask, ushiftRight_and_byte _ (by decide), sectorId, (byteAt_word32 ..).2,
    toNat_setWidth_ofNat hs]

theorem track_sectorId (sec left : Nat) {tr : Nat} (ht : tr < 256) :
    ((sectorId tr sec left &&& 0x00ff0000) >>> 16).toNat = tr := by
  have hmask : (0x00ff0000 : Long) = (0xff : Long) <<< 16 := by decide
  rw [hmask, ushiftRight_and_byte _ (by decide), sectorId, (byteAt_word32 ..).1,
    toNat_setWidth_ofNat ht]

/-! ### One sector -/

/-- A checksum long, stored whole behind its odd bits, reads back. -/
theorem longAt_of_longs {mbuf : Track} {p : Nat} {l : Long} (h : HasLongs mbuf p [l >>> 1, l]) :
    longAt mbuf p 0 = l := by
  rw [longAt, h.1, h.2.1]
  exact merge_split l

/-- Decoding a sector that stands on the track as `decode_amigados` writes it. -/
theorem decodeSector_of_longs {cfg : Config} {mbuf : Track} {p tr sec left : Nat} {s : Sector}
    (h : HasLongs mbuf p (sectorLongs (sectorId tr sec left) s.headLongs s.dataLongs))
    (hext : cfg.filetype ≠ .ext2) (hsec : sec < cfg.drvsec) (hsec8 : sec < 256)
    (htr : cfg.cyl * 2 + cfg.side = tr) (htr8 : tr < 256) :
    decodeSector cfg mbuf p 0 = (.ok ⟨sec, s.headLongs, s.dataLongs⟩, p + 540) := by
  have hnum := trackoffs_sectorId tr left hsec8
  have htrack := track_sectorId sec left htr8
  generalize sectorId tr sec left = id at h hnum htrack
  rw [sectorLongs] at h
  generalize hhck : xorAll (halves [id] ++ halves s.headLongs) = hck at h
  generalize hdck : xorAll (halves s.dataLongs) = dck at h
  have hlen : ∀ ls : List Long, (halves ls).length = 2 * ls.length := by
    intro ls
    rw [halves, List.length_append, List.length_map, List.length_map]
    omega
  simp only [HasLongs.append, List.length_append, hlen, s.length_headLongs, List.length_cons,
    List.length_nil] at h
  obtain ⟨⟨⟨⟨hId, hHead⟩, hHck⟩, hDck⟩, hData⟩ := h
  -- identification
  have hodd : getmfmlong mbuf p 0 = dodd id := hId.1.trans (deven_dodd id)
  have heven : getmfmlong mbuf (p + 2) 0 = deven id := hId.2.1.trans (deven_deven id)
  have hmerge : merge (dodd id) (deven id) = id := merge_split id
  -- header and its checksum
  have hhdr := readPairs_halves hHead
  rw [s.length_headLongs] at hhdr
  have hsum : xorPairs (dodd id ^^^ deven id) (s.headLongs.map fun l => (dodd l, deven l)) =
      hck := by
    have hone : xorAll (halves [id]) = dodd id ^^^ deven id := by simp [halves, xorAll]
    rw [xorPairs_halves, ← hhck, xorAll_append, hone]
  have hstored : longAt mbuf (p + 20) 0 = hck := longAt_of_longs hHck
  -- data and its checksum
  have hdat := readPairs_halves hData
  rw [s.length_dataLongs] at hdat
  have hdsum : xorPairs (longAt mbuf (p + 24) 0) (s.dataLongs.map fun l => (dodd l, deven l)) =
      0 := by
    have hstored : longAt mbuf (p + 24) 0 = dck := longAt_of_longs hDck
    rw [xorPairs_halves, hstored, hdck, BitVec.xor_self]
    rfl
  have hsec' : ¬ sec + 1 > cfg.drvsec := by omega
  have htr' : ¬ tr ≠ cfg.cyl * 2 + cfg.side := by omega
  unfold decodeSector
  dsimp only
  rw [hodd, heven, hmerge, hnum, htrack, hhdr, hdat, hstored, hsum, hdsum, if_neg hsec',
    if_neg (by simp [hext]), if_neg (by simp), if_neg htr', if_neg (by simp), map_merge_halves,
    map_merge_halves]

end LibretroUae.Disk
