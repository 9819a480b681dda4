import LibretroUae.Lib.Image

/-!
# LibretroUae.Hardfile.ModeSense

**The replies to MODE SENSE.** A reply is a header, a block descriptor unless the command
disables it, and a page or all of them, each with its code and the length of what follows. The
size is counted from the size of the header less that of its length field, but the reply is taken
to be one byte longer than that count for both forms of the command.
-/

namespace LibretroUae.Hardfile

open Lib Lib.Image

/-! ### The command -/

/-- What the command finds out about a disk. -/
structure ModeDisk where
  driveEmpty : Bool
  writeprotected : Bool
  virtsize : Nat
  blocksize : BitVec 32
  cyl : BitVec 32
  head : BitVec 32
  tracksec : BitVec 32

/-- The buffer, the position in it, and `totalsize`. -/
structure ModeState where
  r : Image
  p : Nat
  totalsize : Nat

/-- The end of a page: `psize` bytes were filled in. -/
def ModeState.wrote (s : ModeState) (r : Image) (psize : Nat) : ModeState :=
  ⟨r, s.p + psize, s.totalsize + psize⟩

/-- The page with a code; none for a code that is not there. -/
def modePage (d : ModeDisk) (pcode : Nat) (s : ModeState) : Option ModeState :=
  let p := s.p
  if pcode = 0 then some (s.wrote (s.r.blit p [0, 0, 0x20, 0]) 4)
  else if pcode = 1 then
    -- error recovery page
    let r := s.r.blit p [1, 0x0a]
    some (s.wrote r ((r (p + 1)).toNat + 2))
  else if pcode = 3 then
    -- format parameters
    let r := s.r.blit p [3, 22]
    let r := r.blit (p + 3) [1]
    let r := r.blit (p + 10) [byteAt d.tracksec 8, byteAt d.tracksec 0, byteAt d.blocksize 8,
      byteAt d.blocksize 0]
    let r := r.blit (p + 15) [1]
    let r := r.blit (p + 20) [0x80]
    some (s.wrote r ((r (p + 1)).toNat + 2))
  else if pcode = 4 then
    -- rigid drive geometry; the length is in the first byte of the cylinders
    let r := s.r.blit p [4]
    let r := r.blit (p + 1) (be32 d.cyl)
    let r := r.blit (p + 1) [22]
    let r := r.blit (p + 5) [byteAt d.head 0]
    let r := r.blit (p + 13) (be32 d.cyl)
    let r := r.blit (p + 20) (be16 5400)
    some (s.wrote r ((r (p + 1)).toNat + 2))
  else none

/-- The loop over all pages: those that are not there are left out, and page 0 is the last. -/
def modeLoop (d : ModeDisk) : Nat → Nat → ModeState → Option ModeState
  | 0, _, _ => none
  | fuel + 1, pcode, s =>
    let s := (modePage d pcode s).getD s
    if pcode = 0 then some s
    else modeLoop d fuel (if pcode + 1 = 0x3f then 0 else pcode + 1) s

/-- What is left when the command is done; `p` is where the reply ends. -/
structure ModeReply where
  r : Image
  p : Nat
  scsiLen : Nat
  lr : Nat

section

variable (cmdbuf : Nat → Byte)

def sense10 : Bool := cmdbuf 0 == 0x5a

/-- `dbd`. -/
def disablesDescriptors : Bool := cmdbuf 1 &&& 8 != 0

def pageCode : Nat := (cmdbuf 2 &&& 0x3f).toNat

def allocLength : Nat :=
  if sense10 cmdbuf then (cmdbuf 7).toNat * 256 + (cmdbuf 8).toNat else (cmdbuf 4).toNat

def bdsize : Nat := if disablesDescriptors cmdbuf then 0 else 8

/-- The header, up to the bytes that are known later. -/
def modeHeader (d : ModeDisk) (r : Image) : ModeState :=
  let protect : Byte := if d.writeprotected then 0x80 else 0
  if sense10 cmdbuf then ⟨r.blit 2 [0, protect, 0, 0, 0, 0], 8, 8 - 2⟩
  else ⟨r.blit 1 [0, protect, 0], 4, 4 - 1⟩

/-- The block descriptor. -/
def modeDescriptor (d : ModeDisk) (s : ModeState) : ModeState :=
  if disablesDescriptors cmdbuf then s
  else
    let blocks := BitVec.ofNat 32 (d.virtsize / d.blocksize.toNat)
    let blocks : BitVec 32 := if 0x00ffffff ≤ blocks then 0x00ffffff else blocks
    { s with r := (s.r.blit s.p (be32 blocks)).blit (s.p + 4) (be32 d.blocksize), p := s.p + 8 }

/-- The sizes go into the header, and the reply is cut to the allocation length. -/
def modeFinish (s : ModeState) : ModeReply :=
  let totalsize := s.totalsize + bdsize cmdbuf
  let bd : BitVec 32 := .ofNat 32 (bdsize cmdbuf)
  let total : BitVec 32 := .ofNat 32 totalsize
  let r := if sense10 cmdbuf then
      (s.r.blit 6 [byteAt bd 8, byteAt bd 0]).blit 0 [byteAt total 8, byteAt total 0]
    else (s.r.blit 3 [byteAt bd 0]).blit 0 [byteAt total 0]
  let len := totalsize + 1
  ⟨r, s.p, if len > allocLength cmdbuf then allocLength cmdbuf else len,
    if len > allocLength cmdbuf then allocLength cmdbuf else len⟩

/-- MODE SENSE of `scsi_hd_emulate`; none when the command is rejected. -/
def modeSense (d : ModeDisk) (r : Image) : Option ModeReply :=
  if d.driveEmpty then none
  else
    let s := modeDescriptor cmdbuf d (modeHeader cmdbuf d r)
    (if pageCode cmdbuf = 0x3f then modeLoop d 0x3f 1 s else modePage d (pageCode cmdbuf) s).map
      (modeFinish cmdbuf)

/-! ### Well-formed replies -/

/-- Records of a code, a length and as many bytes. -/
inductive PageRecords : List Byte → Prop
  | nil : PageRecords []
  | cons (code : Byte) (body rest : List Byte) : body.length < 256 → PageRecords rest →
      PageRecords (code :: BitVec.ofNat 8 body.length :: (body ++ rest))

/-- The size of the header. -/
def headerSize : Nat := if sense10 cmdbuf then 8 else 4

/-- The size of the length field, which does not count itself. -/
def lengthSize : Nat := if sense10 cmdbuf then 2 else 1

/-- The mode data length of a reply. -/
def modeDataLength (r : Image) : Nat :=
  if sense10 cmdbuf then (word16 (r 0) (r 1)).toNat else (r 0).toNat

/-- The length counts what follows it in the full reply, the pages fill that up, and the reply is
as long as the initiator allows. -/
structure ModeReply.WellFormed (reply : ModeReply) : Prop where
  length : modeDataLength cmdbuf reply.r + lengthSize cmdbuf = reply.p
  inside : headerSize cmdbuf + bdsize cmdbuf ≤ reply.p
  pages : PageRecords (reply.r.slice (headerSize cmdbuf + bdsize cmdbuf)
    (reply.p - (headerSize cmdbuf + bdsize cmdbuf)))
  replyLen : reply.lr = min (allocLength cmdbuf) reply.p

/-- The size of a page, and of all of them. -/
def pageSize (pcode : Nat) : Nat :=
  if pcode = 0 then 4 else if pcode = 1 then 12 else if pcode = 3 ∨ pcode = 4 then 24
  else if pcode = 0x3f then 64 else 0

/-- The size of the full reply to a command. -/
def fullSize : Nat := headerSize cmdbuf + bdsize cmdbuf + pageSize (pageCode cmdbuf)

end

variable {cmdbuf : Nat → Byte} {d : ModeDisk} {s s' : ModeState}

theorem PageRecords.append {a b : List Byte} (ha : PageRecords a) (hb : PageRecords b) :
    PageRecords (a ++ b) := by
  induction ha with
  | nil => exact hb
  | cons code body rest hlen _ ih =>
    have h := PageRecords.cons code body (rest ++ b) hlen ih
    rwa [← List.append_assoc] at h

/-- Bytes that begin with a code and their length are a record. -/
theorem pageRecords_slice {r : Image} {p n : Nat} (hn : n < 256)
    (hlen : r (p + 1) = BitVec.ofNat 8 n) : PageRecords (r.slice p (n + 2)) := by
  have hsplit : r.slice p (n + 2) =
      r p :: BitVec.ofNat 8 (r.slice (p + 2) n).length :: (r.slice (p + 2) n ++ []) := by
    rw [Nat.add_comm n 2, slice_add, length_slice, ← hlen, List.append_nil]
    rfl
  rw [hsplit]
  exact .cons (r p) _ [] (by rwa [length_slice]) .nil

/-! ### What a page adds -/

/-- `n` bytes of records were added to the reply. -/
structure Added (s s' : ModeState) (n : Nat) : Prop where
  p : s'.p = s.p + n
  totalsize : s'.totalsize = s.totalsize + n
  before : Agree s.r s'.r 0 s.p
  records : PageRecords (s'.r.slice s.p n)

theorem Added.trans {s'' : ModeState} {n m : Nat} (h : Added s s' n) (h' : Added s' s'' m) :
    Added s s'' (n + m) := by
  refine ⟨by rw [h'.p, h.p, Nat.add_assoc], by rw [h'.totalsize, h.totalsize, Nat.add_assoc],
    h.before.trans (h'.before.mono (Nat.le_refl 0) (by rw [h.p]; omega)), ?_⟩
  have hfirst : s''.r.slice s.p n = s'.r.slice s.p n :=
    (h'.before.mono (Nat.zero_le _) (by rw [h.p]; omega)).slice
  have hsecond := h'.records
  rw [h.p] at hsecond
  rw [slice_add, hfirst]
  exact h.records.append hsecond

/-- A page whose length is in place, whatever else it has behind that. -/
theorem added_wrote {r : Image} {n : Nat} (hn : n < 256) (hlen : r (s.p + 1) = BitVec.ofNat 8 n)
    (hbefore : Agree s.r r 0 s.p) : Added s (s.wrote r ((r (s.p + 1)).toNat + 2)) (n + 2) := by
  have hsize : (r (s.p + 1)).toNat = n := by
    rw [hlen, BitVec.toNat_ofNat]
    exact Nat.mod_eq_of_lt hn
  rw [hsize]
  exact ⟨rfl, rfl, hbefore, pageRecords_slice hn hlen⟩

/-- The bytes that were written. -/
theorem blit_single (r : Image) (off : Nat) (b : Byte) : r.blit off [b] off = b := by
  simp [blit]

theorem blit_pair (r : Image) (off : Nat) (b1 b0 : Byte) :
    r.blit off [b1, b0] off = b1 ∧ r.blit off [b1, b0] (off + 1) = b0 := by
  simp [blit]

theorem modePage_zero : ∃ s', modePage d 0 s = some s' ∧ Added s s' 4 := by
  refine ⟨_, rfl, rfl, rfl, agree_blit (.inl (by omega)), ?_⟩
  have hbytes := slice_blit s.r s.p [0, 0, 0x20, 0]
  change PageRecords ((s.r.blit s.p [0, 0, 0x20, 0]).slice s.p [0, 0, 0x20, (0 : Byte)].length)
  rw [hbytes]
  exact .cons 0 [] _ (by decide) (.cons 0x20 [] [] (by decide) .nil)

theorem modePage_one : ∃ s', modePage d 1 s = some s' ∧ Added s s' 12 := by
  refine ⟨_, rfl, added_wrote (by decide) ?_ (agree_blit (.inl (by omega)))⟩
  exact (blit_pair s.r s.p 1 0x0a).2

theorem modePage_three : ∃ s', modePage d 3 s = some s' ∧ Added s s' 24 := by
  refine ⟨_, rfl, added_wrote (by decide) ?_ ?_⟩
  · rw [blit_of_lt (by omega), blit_of_lt (by omega), blit_of_lt (by omega), blit_of_lt (by omega)]
    exact (blit_pair s.r s.p 3 22).2
  · have hbefore : ∀ (r : Image) off bs, s.p ≤ off → Agree r (r.blit off bs) 0 s.p :=
      fun r off bs hle => agree_blit (.inl (by omega))
    exact ((((hbefore _ _ _ (Nat.le_refl _)).trans (hbefore _ _ _ (Nat.le_add_right _ _))).trans
      (hbefore _ _ _ (Nat.le_add_right _ _))).trans (hbefore _ _ _ (Nat.le_add_right _ _))).trans
      (hbefore _ _ _ (Nat.le_add_right _ _))

theorem modePage_four : ∃ s', modePage d 4 s = some s' ∧ Added s s' 24 := by
  refine ⟨_, rfl, added_wrote (by decide) ?_ ?_⟩
  · rw [blit_of_lt (by omega), blit_of_lt (by omega), blit_of_lt (by omega)]
    exact blit_single _ _ _
  · have hbefore : ∀ (r : Image) off bs, s.p ≤ off → Agree r (r.blit off bs) 0 s.p :=
      fun r off bs hle => agree_blit (.inl (by omega))
    exact (((((hbefore _ _ _ (Nat.le_refl _)).trans (hbefore _ _ _ (Nat.le_add_right _ _))).trans
      (hbefore _ _ _ (Nat.le_add_right _ _))).trans (hbefore _ _ _ (Nat.le_add_right _ _))).trans
      (hbefore _ _ _ (Nat.le_add_right _ _))).trans (hbefore _ _ _ (Nat.le_add_right _ _))

theorem modePage_none {pcode : Nat} (h : pcode ≠ 0 ∧ pcode ≠ 1 ∧ pcode ≠ 3 ∧ pcode ≠ 4) :
    modePage d pcode s = none := by
  simp only [modePage, h.1, h.2.1, h.2.2.1, h.2.2.2, if_false]

/-- A single page adds its size. -/
theorem modePage_added {pcode : Nat} (h : modePage d pcode s = some s') :
    Added s s' (pageSize pcode) := by
  by_cases h0 : pcode = 0
  · obtain ⟨s'', hpage, hadd⟩ := @modePage_zero d s
    rw [h0, hpage] at h
    exact h0 ▸ Option.some.inj h ▸ hadd
  by_cases h1 : pcode = 1
  · obtain ⟨s'', hpage, hadd⟩ := @modePage_one d s
    rw [h1, hpage] at h
    exact h1 ▸ Option.some.inj h ▸ hadd
  by_cases h3 : pcode = 3
  · obtain ⟨s'', hpage, hadd⟩ := @modePage_three d s
    rw [h3, hpage] at h
    exact h3 ▸ Option.some.inj h ▸ hadd
  by_cases h4 : pcode = 4
  · obtain ⟨s'', hpage, hadd⟩ := @modePage_four d s
    rw [h4, hpage] at h
    exact h4 ▸ Option.some.inj h ▸ hadd
  rw [modePage_none ⟨h0, h1, h3, h4⟩] at h
  cases h

/-! ### All pages -/

theorem modeLoop_step {fuel pcode : Nat} (hcode : pcode ≠ 0) : modeLoop d (fuel + 1) pcode s =
    modeLoop d fuel (if pcode + 1 = 0x3f then 0 else pcode + 1) ((modePage d pcode s).getD s) := by
  simp only [modeLoop, if_neg hcode]

/-- Behind page 4 there is only page 0. -/
theorem modeLoop_rest {m fuel pcode : Nat} (hm : pcode + m = 0x3e) (hcode : 5 ≤ pcode)
    (hfuel : m + 1 < fuel) : modeLoop d fuel pcode s = some ((modePage d 0 s).getD s) := by
  induction m generalizing fuel pcode with
  | zero =>
    obtain ⟨fuel, rfl⟩ : ∃ k, fuel = k + 2 := ⟨fuel - 2, by omega⟩
    rw [modeLoop_step (by omega), modePage_none (by omega), if_pos (by omega)]
    simp only [modeLoop, if_true, Option.getD_none]
  | succ m ih =>
    obtain ⟨fuel, rfl⟩ : ∃ k, fuel = k + 1 := ⟨fuel - 1, by omega⟩
    rw [modeLoop_step (by omega), modePage_none (by omega), if_neg (by omega), Option.getD_none]
    exact ih (by omega) (by omega) (by omega)

/-- The loop fills in the pages 1, 3, 4 and 0. -/
theorem modeLoop_added : ∃ s', modeLoop d 0x3f 1 s = some s' ∧ Added s s' 64 := by
  obtain ⟨s1, h1, a1⟩ := @modePage_one d s
  obtain ⟨s3, h3, a3⟩ := @modePage_three d s1
  obtain ⟨s4, h4, a4⟩ := @modePage_four d s3
  obtain ⟨s0, h0, a0⟩ := @modePage_zero d s4
  refine ⟨s0, ?_, ((a1.trans a3).trans a4).trans a0⟩
  rw [modeLoop_step (by decide), h1, if_neg (by decide), Option.getD_some,
    modeLoop_step (by decide), modePage_none (by decide), if_neg (by decide), Option.getD_none,
    modeLoop_step (by decide), h3, if_neg (by decide), Option.getD_some,
    modeLoop_step (by decide), h4, if_neg (by decide), Option.getD_some,
    @modeLoop_rest d s4 57 _ _ (by decide) (by decide) (by decide), h0]
  rfl

/-! ### The whole reply -/

/-- Header and descriptors, before the pages. -/
theorem modeDescriptor_spec (r : Image) :
    let s := modeDescriptor cmdbuf d (modeHeader cmdbuf d r)
    s.p = headerSize cmdbuf + bdsize cmdbuf ∧
      s.totalsize + lengthSize cmdbuf = headerSize cmdbuf := by
  intro s
  have hheader : (modeHeader cmdbuf d r).p = headerSize cmdbuf ∧
      (modeHeader cmdbuf d r).totalsize + lengthSize cmdbuf = headerSize cmdbuf := by
    cases h : sense10 cmdbuf <;> simp [modeHeader, headerSize, lengthSize, h]
  have hp : s.p = (modeHeader cmdbuf d r).p + bdsize cmdbuf := by
    cases h : disablesDescriptors cmdbuf <;> simp [s, modeDescriptor, bdsize, h]
  have htotal : s.totalsize = (modeHeader cmdbuf d r).totalsize := by
    cases h : disablesDescriptors cmdbuf <;> simp [s, modeDescriptor, h]
  rw [hp, htotal, hheader.1]
  exact ⟨rfl, hheader.2⟩

/-- The pages of a reply that is not rejected. -/
theorem modeSense_added {r : Image} {reply : ModeReply} (h : modeSense cmdbuf d r = some reply) :
    ∃ s', reply = modeFinish cmdbuf s' ∧
      Added (modeDescriptor cmdbuf d (modeHeader cmdbuf d r)) s' (pageSize (pageCode cmdbuf)) := by
  rw [modeSense] at h
  split at h
  · cases h
  · obtain ⟨s', hs', rfl⟩ := Option.map_eq_some_iff.mp h
    refine ⟨s', rfl, ?_⟩
    split at hs'
    · rename_i hall
      obtain ⟨s'', hloop, hadd⟩ :=
        @modeLoop_added d (modeDescriptor cmdbuf d (modeHeader cmdbuf d r))
      rw [hloop] at hs'
      rw [hall]
      exact Option.some.inj hs' ▸ hadd
    · exact modePage_added hs'

theorem pageSize_le (pcode : Nat) : pageSize pcode ≤ 64 := by
  rw [pageSize]
  split_ifs <;> decide

theorem byteAt_small {t : Nat} (ht : t < 256) :
    byteAt (BitVec.ofNat 32 t) 8 = 0 ∧ (byteAt (BitVec.ofNat 32 t) 0).toNat = t := by
  have hmod : t % 2 ^ 32 = t := Nat.mod_eq_of_lt (by omega)
  constructor
  · apply BitVec.eq_of_toNat_eq
    rw [byteAt, BitVec.toNat_setWidth, BitVec.toNat_ushiftRight, BitVec.toNat_ofNat, hmod,
      Nat.shiftRight_eq_div_pow, Nat.div_eq_of_lt ht]
    rfl
  · rw [byteAt, BitVec.toNat_setWidth, BitVec.toNat_ushiftRight, BitVec.toNat_ofNat, hmod,
      Nat.shiftRight_zero, Nat.mod_eq_of_lt ht]

/-- What the sizes in the header say. -/
theorem modeDataLength_finish (hsmall : s.totalsize + bdsize cmdbuf < 256) :
    modeDataLength cmdbuf (modeFinish cmdbuf s).r = s.totalsize + bdsize cmdbuf := by
  obtain ⟨hhigh, hlow⟩ := byteAt_small hsmall
  cases hform : sense10 cmdbuf with
  | false =>
    simp only [modeDataLength, modeFinish, hform, Bool.false_eq_true, if_false]
    rw [blit_single, hlow]
  | true =>
    simp only [modeDataLength, modeFinish, hform, if_true]
    generalize (s.r.blit 6 _ : Image) = r
    obtain ⟨h0, h1⟩ := blit_pair r 0 (byteAt (BitVec.ofNat 32 (s.totalsize + bdsize cmdbuf)) 8)
      (byteAt (BitVec.ofNat 32 (s.totalsize + bdsize cmdbuf)) 0)
    rw [h0, h1, hhigh]
    have hword : (word16 0 (byteAt (BitVec.ofNat 32 (s.totalsize + bdsize cmdbuf)) 0)).toNat
        = (byteAt (BitVec.ofNat 32 (s.totalsize + bdsize cmdbuf)) 0).toNat := by
      simp only [word16]
      simp
      omega
    rw [hword, hlow]

/-- The header is not part of the pages. -/
theorem modeFinish_pages (off len : Nat) (hoff : headerSize cmdbuf ≤ off) :
    (modeFinish cmdbuf s).r.slice off len = s.r.slice off len := by
  have hframe : ∀ (r : Image) at' (bs : List Byte), at' + bs.length ≤ off →
      Agree r (r.blit at' bs) off len := fun r at' bs hle => agree_blit (.inr hle)
  cases hform : sense10 cmdbuf with
  | false =>
    simp only [headerSize, hform, Bool.false_eq_true, if_false] at hoff
    simp only [modeFinish, hform, Bool.false_eq_true, if_false]
    exact ((hframe _ 3 [_] hoff).trans (hframe _ 0 [_] (by simp; omega))).slice
  | true =>
    simp only [headerSize, hform, if_true] at hoff
    simp only [modeFinish, hform, if_true]
    exact ((hframe _ 6 [_, _] hoff).trans (hframe _ 0 [_, _] (by simp; omega))).slice

/-- A reply is well formed but for its length. -/
theorem modeSense_reply {r : Image} {reply : ModeReply} (h : modeSense cmdbuf d r = some reply) :
    reply.p = fullSize cmdbuf ∧ modeDataLength cmdbuf reply.r + lengthSize cmdbuf = reply.p ∧
      PageRecords (reply.r.slice (headerSize cmdbuf + bdsize cmdbuf)
        (reply.p - (headerSize cmdbuf + bdsize cmdbuf))) ∧
      reply.lr = min (allocLength cmdbuf) (fullSize cmdbuf + 1 - lengthSize cmdbuf) := by
  obtain ⟨s', rfl, hadd⟩ := modeSense_added h
  obtain ⟨hp, htotal⟩ := @modeDescriptor_spec cmdbuf d r
  have hsize := pageSize_le (pageCode cmdbuf)
  have hheader : headerSize cmdbuf ≤ 8 ∧ lengthSize cmdbuf ≤ headerSize cmdbuf := by
    rw [headerSize, lengthSize]
    split <;> decide
  have hbd : bdsize cmdbuf ≤ 8 := by
    rw [bdsize]
    split <;> decide
  have hend := hadd.p
  have hcount := hadd.totalsize
  have hfull : (modeFinish cmdbuf s').p = fullSize cmdbuf := by
    change s'.p = _
    rw [hend, hp, fullSize]
  refine ⟨hfull, ?_, ?_, ?_⟩
  · rw [hfull, modeDataLength_finish (by omega), fullSize]
    omega
  · rw [hfull, fullSize, Nat.add_sub_cancel_left, modeFinish_pages _ _ (Nat.le_add_right _ _), ← hp]
    exact hadd.records
  · have hlr : (modeFinish cmdbuf s').lr
        = min (allocLength cmdbuf) (s'.totalsize + bdsize cmdbuf + 1) := by
      simp only [modeFinish]
      split <;> omega
    have hone : s'.totalsize + bdsize cmdbuf + 1 = fullSize cmdbuf + 1 - lengthSize cmdbuf := by
      rw [fullSize]
      omega
    rw [hlr, hone]

/-- A reply that is not rejected is well formed, unless it is one of the long form that the
allocation length does not cut. -/
theorem modeSense_wellFormed_iff (cmdbuf : Nat → Byte) (d : ModeDisk) (r : Image)
    (reply : ModeReply) (h : modeSense cmdbuf d r = some reply) :
    reply.WellFormed cmdbuf ↔ sense10 cmdbuf = false ∨ allocLength cmdbuf < fullSize cmdbuf := by
  obtain ⟨hp, hlength, hpages, hlr⟩ := modeSense_reply h
  have hinside : headerSize cmdbuf + bdsize cmdbuf ≤ reply.p := by
    rw [hp, fullSize]
    exact Nat.le_add_right _ _
  constructor
  · intro hwell
    have hreply := hwell.replyLen
    rw [hlr, hp] at hreply
    cases hform : sense10 cmdbuf with
    | false => exact .inl rfl
    | true =>
      have hpos : 8 ≤ fullSize cmdbuf := by
        simp only [fullSize, headerSize, hform, if_true]
        omega
      simp only [lengthSize, hform, if_true] at hreply
      exact .inr (by omega)
  · intro hcond
    refine ⟨hlength, hinside, hpages, ?_⟩
    rw [hlr, hp, lengthSize]
    rcases hcond with hform | halloc
    · rw [hform]
      rfl
    · split <;> omega

/-- A command for all pages, with an allocation length of 255. -/
def allPages (cmd : Byte) : Nat → Byte := fun i =>
  if i = 0 then cmd else if i = 2 then 0x3f else if i = 4 ∨ i = 8 then 255 else 0

/-- A hardfile of 8 MiB. -/
def hardfile8 : ModeDisk := ⟨false, false, 8388608, 512, 512, 1, 32⟩

theorem modeSense_allPages (cmd : Byte) :
    ∃ reply, modeSense (allPages cmd) hardfile8 (fun _ => 0) = some reply := by
  have hcode : pageCode (allPages cmd) = 0x3f := by simp [pageCode, allPages]
  obtain ⟨s', hloop, -⟩ := @modeLoop_added hardfile8
    (modeDescriptor (allPages cmd) hardfile8 (modeHeader (allPages cmd) hardfile8 fun _ => 0))
  refine ⟨modeFinish (allPages cmd) s', ?_⟩
  rw [modeSense, if_neg (by decide)]
  simp only [hcode, if_true, hloop, Option.map_some]

/-- The short form asks for everything and gets it. -/
theorem modeSense_wellFormed_short : ∃ reply,
    modeSense (allPages 0x1a) hardfile8 (fun _ => 0) = some reply ∧
      reply.WellFormed (allPages 0x1a) := by
  obtain ⟨reply, hreply⟩ := modeSense_allPages 0x1a
  exact ⟨reply, hreply, (modeSense_wellFormed_iff _ _ _ _ hreply).mpr (.inl (by decide))⟩

/-- The long form loses the last byte. -/
theorem modeSense_not_wellFormed : ¬ ∀ (cmdbuf : Nat → Byte) (d : ModeDisk) (r : Image)
    (reply : ModeReply), modeSense cmdbuf d r = some reply → reply.WellFormed cmdbuf := by
  intro h
  obtain ⟨reply, hreply⟩ := modeSense_allPages 0x5a
  have hlen := (h _ _ _ _ hreply).replyLen
  obtain ⟨hp, -, -, hlr⟩ := modeSense_reply hreply
  have hfull : fullSize (allPages 0x5a) = 80 := by decide
  have halloc : allocLength (allPages 0x5a) = 255 := by decide
  have hsize : lengthSize (allPages 0x5a) = 2 := by decide
  rw [hlr, hp, hfull, halloc, hsize] at hlen
  exact absurd hlen (by decide)

end LibretroUae.Hardfile
