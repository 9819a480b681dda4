import LibretroUae.Hardfile.Access

/-!
# LibretroUae.Hardfile.RoundTrip

**Writing and reading back.** Whatever kind of image is behind the RDB, it stands for an
array of bytes, and a transfer that stays inside it moves bytes of that array. With the
RDB in front this gives the contents of the whole address space; scrambling is undone
word by word. A dynamic VHD image only transfers whole sectors, and a word must not be
split by the end of the RDB if words are scrambled.
-/

namespace LibretroUae.Hardfile

open Lib Lib.Image

variable {base offset : Nat} {h h' : HardFile}

/-! ### The bytes of a hardfile -/

/-- The bytes behind the RDB. -/
def imageView (h : HardFile) : Image :=
  match h.hfdType with
  | .vhdDynamic => view h
  | .vhdFixed => fun a => h.target.disk (a + 512)
  | .plain => h.target.disk

/-- The bytes of the whole address space. -/
def content (h : HardFile) : Image := fun a =>
  if a < h.virtualSize then h.virtualRdb.getD (fun _ => 0) a
  else imageView h (a - h.virtualSize)

/-- The target file holds the disk. -/
def HoldsDisk (base : Nat) (h : HardFile) : Prop :=
  match h.hfdType with
  | .vhdDynamic => Vhd.Inv base h
  | .vhdFixed => h.virtsize + 512 ≤ h.target.physsize
  | .plain => h.virtsize ≤ h.target.physsize

/-- A hardfile that can be read and written. -/
structure Backed (base : Nat) (h : HardFile) : Prop where
  usable : h.target.Usable
  virtualRdb : 0 < h.virtualSize → h.virtualRdb.isSome
  disk : HoldsDisk base h

/-- `h'` is the hardfile `h` with other contents of its image. -/
structure SameFront (h h' : HardFile) : Prop where
  hfdType : h'.hfdType = h.hfdType
  virtsize : h'.virtsize = h.virtsize
  virtualRdb : h'.virtualRdb = h.virtualRdb
  virtualSize : h'.virtualSize = h.virtualSize
  byteswap : h'.byteswap = h.byteswap
  adide : h'.adide = h.adide

/-- `h'` is `h` after `buf` was written at `offset` of the image. -/
structure Moved (base : Nat) (h h' : HardFile) (offset : Nat) (buf : List Byte) : Prop where
  backed : Backed base h'
  front : SameFront h h'
  view : imageView h' = (imageView h).blit offset buf

theorem SameFront.of_keeps (hk : Keeps h h') (hty : h'.hfdType = h.hfdType) : SameFront h h' :=
  ⟨hty, hk.virtsize, hk.virtualRdb, hk.virtualSize, hk.byteswap, hk.adide⟩

theorem SameFront.refl (h : HardFile) : SameFront h h := ⟨rfl, rfl, rfl, rfl, rfl, rfl⟩

/-! ### The image behind the RDB -/

/-- A dynamic VHD image transfers whole sectors. -/
def WholeSectors (h : HardFile) (offset len : Nat) : Prop :=
  h.hfdType = .vhdDynamic → 512 ∣ offset ∧ 512 ∣ len

theorem shift_blit (m : Image) (buf : List Byte) (k : Nat) :
    (fun a => m.blit (offset + k) buf (a + k)) = blit (fun a => m (a + k)) offset buf := by
  funext a
  by_cases ha : offset ≤ a ∧ a < offset + buf.length
  · rw [blit, blit, if_pos ha, if_pos (by omega), Nat.add_sub_add_right]
  · rw [blit, blit, if_neg ha, if_neg (by omega)]

theorem imageRead_spec (hb : Backed base h) {len : Nat} (hle : offset + len ≤ h.virtsize)
    (hsectors : WholeSectors h offset len) :
    ∃ h', imageRead h offset len = ((imageView h).slice offset len, h') ∧
      Moved base h h' offset [] := by
  have hdisk := hb.disk
  rw [HoldsDisk] at hdisk
  cases hty : h.hfdType with
  | plain =>
    rw [hty] at hdisk
    refine ⟨h, ?_, hb, SameFront.refl h, (blit_nil _ _).symm⟩
    rw [imageRead, imageView, hty]
    exact congrArg (·, h) (hdfReadTarget_of_le hb.usable.driveEmpty (Nat.le_trans hle hdisk))
  | vhdFixed =>
    rw [hty] at hdisk
    refine ⟨h, ?_, hb, SameFront.refl h, (blit_nil _ _).symm⟩
    rw [imageRead, imageView, hty]
    have hroom : offset + 512 + len ≤ h.target.physsize := by
      rw [Nat.add_right_comm]
      exact Nat.le_trans (Nat.add_le_add_right hle 512) hdisk
    have hread := hdfReadTarget_of_le hb.usable.driveEmpty hroom
    have hslice : h.target.disk.slice (offset + 512) len =
        slice (fun a => h.target.disk (a + 512)) offset len := by
      refine List.map_congr_left fun i _ => ?_
      rw [Nat.add_right_comm]
    exact congrArg (·, h) (hread.trans hslice)
  | vhdDynamic =>
    rw [hty] at hdisk
    obtain ⟨m, b, hread, hI⟩ := vhdRead_spec hdisk (hsectors hty).1 (hsectors hty).2 hle
    have hty' : (withCache h m b).hfdType = .vhdDynamic := hty
    refine ⟨withCache h m b, ?_, ⟨hI.usable, hb.virtualRdb, ?_⟩,
      SameFront.of_keeps (Keeps.withCache m b) rfl, ?_⟩
    · rw [imageRead, imageView, hty]
      exact hread
    · rw [HoldsDisk, hty']
      exact hI
    · rw [imageView, imageView, hty', hty, blit_nil]
      rfl

theorem imageWrite_spec (hb : Backed base h) {buf : List Byte}
    (hle : offset + buf.length ≤ h.virtsize) (hsectors : WholeSectors h offset buf.length) :
    ∃ h', imageWrite h offset buf = some (buf.length, h') ∧ Moved base h h' offset buf := by
  have hdisk := hb.disk
  rw [HoldsDisk] at hdisk
  cases hty : h.hfdType with
  | plain =>
    rw [hty] at hdisk
    have hty' : (withDisk h (h.target.disk.blit offset buf)).hfdType = .plain := hty
    refine ⟨withDisk h (h.target.disk.blit offset buf), ?_,
      ⟨⟨hb.usable.driveEmpty, hb.usable.readonly, hb.usable.dangerous⟩, hb.virtualRdb, ?_⟩,
      ⟨rfl, rfl, rfl, rfl, rfl, rfl⟩, ?_⟩
    · simp only [imageWrite, hty, hdfWriteTarget_of_le hb.usable (Nat.le_trans hle hdisk),
        withDisk]
    · rw [HoldsDisk, hty']
      exact hdisk
    · rw [imageView, imageView, hty', hty]
      rfl
  | vhdFixed =>
    rw [hty] at hdisk
    have hroom : offset + 512 + buf.length ≤ h.target.physsize := by
      rw [Nat.add_right_comm]
      exact Nat.le_trans (Nat.add_le_add_right hle 512) hdisk
    have hty' : (withDisk h (h.target.disk.blit (offset + 512) buf)).hfdType = .vhdFixed := hty
    refine ⟨withDisk h (h.target.disk.blit (offset + 512) buf), ?_,
      ⟨⟨hb.usable.driveEmpty, hb.usable.readonly, hb.usable.dangerous⟩, hb.virtualRdb, ?_⟩,
      ⟨rfl, rfl, rfl, rfl, rfl, rfl⟩, ?_⟩
    · simp only [imageWrite, hty, hdfWriteTarget_of_le hb.usable hroom, withDisk]
    · rw [HoldsDisk, hty']
      exact hdisk
    · rw [imageView, imageView, hty', hty]
      simp only [withDisk, shift_blit]
  | vhdDynamic =>
    rw [hty] at hdisk
    obtain ⟨h', hwrite, hw⟩ := vhdWrite_spec hdisk (hsectors hty).1 (hsectors hty).2 hle
    have hty' := hw.inv.hfdType
    refine ⟨h', ?_, ⟨hw.inv.usable, fun hpos => ?_, ?_⟩,
      SameFront.of_keeps hw.keeps (hty'.trans hty.symm), ?_⟩
    · rw [imageWrite, hty]
      exact hwrite
    · rw [hw.keeps.virtualRdb]
      exact hb.virtualRdb (hw.keeps.virtualSize ▸ hpos)
    · rw [HoldsDisk, hty']
      exact hw.inv
    · rw [imageView, imageView, hty', hty]
      exact hw.view

/-! ### The address space -/

/-- The contents after a write behind the RDB. -/
theorem Moved.content {buf : List Byte} (hm : Moved base h h' offset buf) :
    content h' = (content h).blit (h.virtualSize + offset) buf := by
  funext a
  rw [Hardfile.content, hm.front.virtualSize, hm.front.virtualRdb, hm.view]
  by_cases ha : a < h.virtualSize
  · rw [if_pos ha, blit_of_lt (by omega), Hardfile.content, if_pos ha]
  · rw [if_neg ha]
    by_cases hin : h.virtualSize + offset ≤ a ∧ a < h.virtualSize + offset + buf.length
    · rw [blit, blit, if_pos hin, if_pos (by omega)]
      congr 1
      omega
    · rw [blit, blit, if_neg hin, if_neg (by omega), Hardfile.content, if_neg ha]

theorem slice_content_rdb {len : Nat} (hle : offset + len ≤ h.virtualSize) :
    (content h).slice offset len = (h.virtualRdb.getD fun _ => 0).slice offset len := by
  refine Agree.slice fun a _ ha => ?_
  rw [content, if_pos (by omega)]

theorem slice_content_image (h : HardFile) (offset len : Nat) :
    (content h).slice (h.virtualSize + offset) len = (imageView h).slice offset len := by
  refine List.map_congr_left fun i _ => ?_
  rw [content, if_neg (by omega)]
  congr 1
  omega

/-- The transfer of `len` bytes at `offset` of the address space suits the image. -/
def Suits (h : HardFile) (offset len : Nat) : Prop :=
  WholeSectors h (offset + rdbPart h offset len - h.virtualSize) (len - rdbPart h offset len)

theorem rdbPart_inside {len : Nat} (h1 : offset < h.virtualSize)
    (h2 : offset + len ≤ h.virtualSize) : rdbPart h offset len = len := by
  rw [rdbPart, if_pos h1, if_pos h2]

theorem rdbPart_split {len : Nat} (h1 : offset < h.virtualSize)
    (h2 : ¬ offset + len ≤ h.virtualSize) : rdbPart h offset len = h.virtualSize - offset := by
  rw [rdbPart, if_pos h1, if_neg h2]

theorem rdbPart_behind {len : Nat} (h1 : ¬ offset < h.virtualSize) :
    rdbPart h offset len = 0 := by
  rw [rdbPart, if_neg h1]

theorem rdbPart_le (h : HardFile) (offset len : Nat) : rdbPart h offset len ≤ len := by
  rw [rdbPart]
  split_ifs <;> omega

/-- A range of the address space is read. -/
theorem hdfRead2_spec (hb : Backed base h) {buf : List Byte}
    (hle : offset + buf.length ≤ h.fullSize) (hsuits : Suits h offset buf.length) :
    ∃ h', hdfRead2 h buf offset = (buf.length, (content h).slice offset buf.length, h') ∧
      SameFront h h' ∧ content h' = content h := by
  rw [HardFile.fullSize] at hle
  rw [Suits] at hsuits
  rw [hdfRead2]
  by_cases h1 : offset < h.virtualSize
  · obtain ⟨rdb, hrdb⟩ := Option.isSome_iff_exists.mp (hb.virtualRdb (by omega))
    by_cases h2 : offset + buf.length ≤ h.virtualSize
    · refine ⟨h, ?_, SameFront.refl h, rfl⟩
      simp only [rdbPart_inside h1 h2, if_pos h1, hrdb, Nat.sub_self, if_true]
      rw [slice_content_rdb h2, hrdb]
      rfl
    · rw [rdbPart_split h1 h2] at hsuits
      have hzero : offset + (h.virtualSize - offset) - h.virtualSize = 0 := by omega
      rw [hzero] at hsuits
      obtain ⟨h', hread, hm⟩ := imageRead_spec hb (by omega) hsuits
      refine ⟨h', ?_, hm.front, by rw [hm.content, blit_nil]⟩
      have hrest : buf.length - (h.virtualSize - offset) ≠ 0 := by omega
      simp only [rdbPart_split h1 h2, if_pos h1, hrdb, hzero, hread, if_neg hrest, length_slice,
        addExtra]
      have hlen : h.virtualSize - offset + (buf.length - (h.virtualSize - offset)) =
          buf.length := by omega
      have hhead := slice_content_rdb (show offset + (h.virtualSize - offset) ≤ h.virtualSize by
        omega)
      have htail := slice_content_image h 0 (buf.length - (h.virtualSize - offset))
      rw [hrdb] at hhead
      have hall : (content h).slice offset buf.length = rdb.slice offset (h.virtualSize - offset) ++
          (imageView h).slice 0 (buf.length - (h.virtualSize - offset)) := by
        rw [← hlen, slice_add, hhead, Nat.add_sub_cancel' (Nat.le_of_lt h1), hlen, ← htail]
        rfl
      rw [hlen, List.drop_length, List.append_nil, hall, Nat.add_comm, hlen]
  · rw [rdbPart_behind h1, Nat.add_zero, Nat.sub_zero] at hsuits
    obtain ⟨h', hread, hm⟩ := imageRead_spec hb (by omega) hsuits
    refine ⟨h', ?_, hm.front, by rw [hm.content, blit_nil]⟩
    have himage := slice_content_image h (offset - h.virtualSize) buf.length
    rw [Nat.add_sub_cancel' (by omega)] at himage
    simp only [if_neg h1, hread, length_slice, List.drop_length, List.append_nil, himage]

/-- A range of the address space is written as far as it lies behind the RDB. -/
theorem hdfWrite2_spec (hb : Backed base h) {buf : List Byte}
    (hle : offset + buf.length ≤ h.fullSize) (hsuits : Suits h offset buf.length) :
    ∃ h', hdfWrite2 h buf offset = some (buf.length, h') ∧ Backed base h' ∧ SameFront h h' ∧
      content h' = (content h).blit (offset + rdbPart h offset buf.length)
        (buf.drop (rdbPart h offset buf.length)) := by
  rw [HardFile.fullSize] at hle
  rw [Suits] at hsuits
  rw [hdfWrite2]
  by_cases h1 : offset < h.virtualSize
  · by_cases h2 : offset + buf.length ≤ h.virtualSize
    · refine ⟨h, ?_, hb, SameFront.refl h, ?_⟩
      · simp only [rdbPart_inside h1 h2, if_pos h1, Nat.sub_self, if_true]
      · rw [rdbPart_inside h1 h2, List.drop_length, blit_nil]
    · rw [rdbPart_split h1 h2] at hsuits ⊢
      have hzero : offset + (h.virtualSize - offset) - h.virtualSize = 0 := by omega
      rw [hzero, ← List.length_drop] at hsuits
      have hdrop : (buf.drop (h.virtualSize - offset)).length =
          buf.length - (h.virtualSize - offset) := List.length_drop
      obtain ⟨h', hwrite, hm⟩ := imageWrite_spec hb (by omega) hsuits
      refine ⟨h', ?_, hm.backed, hm.front, ?_⟩
      · have hrest : buf.length - (h.virtualSize - offset) ≠ 0 := by omega
        simp only [if_pos h1, hzero, if_neg hrest, hwrite, Option.map_some, addExtra, hdrop]
        rw [Nat.sub_add_cancel (by omega)]
      · rw [hm.content, Nat.add_sub_cancel' (Nat.le_of_lt h1), Nat.add_zero]
  · rw [rdbPart_behind h1] at hsuits ⊢
    rw [Nat.add_zero, Nat.sub_zero] at hsuits
    obtain ⟨h', hwrite, hm⟩ := imageWrite_spec hb (by omega) hsuits
    refine ⟨h', ?_, hm.backed, hm.front, ?_⟩
    · simp only [if_neg h1, hwrite]
    · rw [hm.content, Nat.add_sub_cancel' (by omega), Nat.add_zero, List.drop_zero]

/-! ### Scrambling a buffer -/

/-- The buffer that `hdf_write` passes on. -/
def stored (h : HardFile) (buf : List Byte) : List Byte :=
  let buf := if h.byteswap then hdfByteswap buf else buf
  if h.adide then adideEncode buf else buf

/-- The buffer that `hdf_read` makes of what it was given. -/
def loaded (h : HardFile) (buf : List Byte) : List Byte :=
  let buf := if h.adide then adideDecode buf else buf
  if h.byteswap then hdfByteswap buf else buf

/-- Where a transfer starts in the address space; an AdIDE disk keeps one more sector. -/
def start (h : HardFile) (offset : Nat) : Nat := if h.adide then offset + 512 else offset

/-- The contents of the hardfile are made of words. -/
def Worded (h : HardFile) : Prop := h.adide = true ∨ h.byteswap = true

@[simp] theorem length_mapWords (f : BitVec 16 → BitVec 16) :
    ∀ buf : List Byte, (mapWords f buf).length = buf.length
  | [] => rfl
  | [_] => rfl
  | b1 :: b0 :: rest => by
    rw [mapWords, List.length_append, length_mapWords f rest, be16]
    simp only [List.length_cons, List.length_nil]
    omega

@[simp] theorem length_hdfByteswap : ∀ buf : List Byte, (hdfByteswap buf).length = buf.length
  | [] => rfl
  | [_] => rfl
  | b0 :: b1 :: rest => by
    rw [hdfByteswap, List.length_cons, List.length_cons, length_hdfByteswap rest]
    rfl

theorem mapWords_append (f : BitVec 16 → BitVec 16) (b : List Byte) :
    ∀ a : List Byte, 2 ∣ a.length → mapWords f (a ++ b) = mapWords f a ++ mapWords f b
  | [], _ => rfl
  | [b1], ha => absurd (Nat.dvd_one.mp ha) (by decide)
  | b1 :: b0 :: rest, ha => by
    have hrest : 2 ∣ rest.length := (Nat.dvd_add_left (dvd_refl 2)).mp ha
    rw [List.cons_append, List.cons_append, mapWords, mapWords, mapWords_append f b rest hrest,
      List.append_assoc]

theorem hdfByteswap_append (b : List Byte) :
    ∀ a : List Byte, 2 ∣ a.length → hdfByteswap (a ++ b) = hdfByteswap a ++ hdfByteswap b
  | [], _ => rfl
  | [b0], ha => absurd (Nat.dvd_one.mp ha) (by decide)
  | b0 :: b1 :: rest, ha => by
    have hrest : 2 ∣ rest.length := (Nat.dvd_add_left (dvd_refl 2)).mp ha
    rw [List.cons_append, List.cons_append, hdfByteswap, hdfByteswap,
      hdfByteswap_append b rest hrest, List.cons_append, List.cons_append]

theorem length_stored (h : HardFile) (buf : List Byte) : (stored h buf).length = buf.length := by
  rw [stored, adideEncode]
  split_ifs <;> simp only [length_mapWords, length_hdfByteswap]

theorem length_loaded (h : HardFile) (buf : List Byte) : (loaded h buf).length = buf.length := by
  rw [loaded, adideDecode]
  split_ifs <;> simp only [length_mapWords, length_hdfByteswap]

theorem loaded_stored (h : HardFile) (buf : List Byte) : loaded h (stored h buf) = buf := by
  rw [loaded, stored]
  split_ifs <;> simp only [adideDecode_adideEncode, hdfByteswap_hdfByteswap]

theorem stored_append (h : HardFile) {a : List Byte} (b : List Byte)
    (ha : Worded h → 2 ∣ a.length) : stored h (a ++ b) = stored h a ++ stored h b := by
  rw [Worded] at ha
  rw [stored, stored, stored, adideEncode, adideEncode, adideEncode]
  by_cases hs : h.byteswap = true
  · have ha := ha (.inr hs)
    have hlen : 2 ∣ (hdfByteswap a).length := (length_hdfByteswap a).symm ▸ ha
    simp only [hs, if_true, hdfByteswap_append b a ha, mapWords_append _ _ _ hlen]
    split_ifs <;> rfl
  · by_cases hadide : h.adide = true
    · simp only [if_neg hs, if_pos hadide, mapWords_append _ _ _ (ha (.inl hadide))]
    · simp only [if_neg hs, if_neg hadide]

theorem loaded_append (h : HardFile) {a : List Byte} (b : List Byte)
    (ha : Worded h → 2 ∣ a.length) : loaded h (a ++ b) = loaded h a ++ loaded h b := by
  rw [Worded] at ha
  rw [loaded, loaded, loaded, adideDecode, adideDecode, adideDecode]
  by_cases hadide : h.adide = true
  · have ha := ha (.inl hadide)
    have hlen : 2 ∣ (mapWords adideDecodeWord a).length := (length_mapWords _ a).symm ▸ ha
    simp only [hadide, if_true, mapWords_append _ b a ha, hdfByteswap_append _ _ hlen]
    split_ifs <;> rfl
  · by_cases hs : h.byteswap = true
    · simp only [if_pos hs, if_neg hadide, hdfByteswap_append _ _ (ha (.inr hs))]
    · simp only [if_neg hs, if_neg hadide]

theorem SameFront.loaded (hf : SameFront h h') (buf : List Byte) :
    Hardfile.loaded h' buf = Hardfile.loaded h buf := by
  rw [Hardfile.loaded, Hardfile.loaded, hf.adide, hf.byteswap]

theorem hdfRead_eq (h : HardFile) (buf : List Byte) (offset : Nat) :
    hdfRead h buf offset =
      ((hdfRead2 h buf (start h offset)).1, loaded h (hdfRead2 h buf (start h offset)).2.1,
        (hdfRead2 h buf (start h offset)).2.2) := rfl

theorem hdfWrite_eq (h : HardFile) {buf : List Byte} {ret : Nat}
    (hw : hdfWrite2 h (stored h buf) (start h offset) = some (ret, h')) :
    hdfWrite h buf offset = some (ret, buf, h') := by
  have hwrite : hdfWrite h buf offset =
      (hdfWrite2 h (stored h buf) (start h offset)).map fun r =>
        (r.1, loaded h (stored h buf), r.2) := rfl
  rw [hwrite, hw, Option.map_some, loaded_stored]

/-! ### Writing and reading back -/

theorem SameFront.rdbPart (hf : SameFront h h') (offset len : Nat) :
    Hardfile.rdbPart h' offset len = Hardfile.rdbPart h offset len := by
  rw [Hardfile.rdbPart, Hardfile.rdbPart, hf.virtualSize]

theorem SameFront.suits (hf : SameFront h h') {len : Nat} (hs : Suits h offset len) :
    Suits h' offset len := by
  rw [Suits, WholeSectors, hf.rdbPart, hf.virtualSize, hf.hfdType]
  exact hs

theorem SameFront.start (hf : SameFront h h') (offset : Nat) :
    Hardfile.start h' offset = Hardfile.start h offset := by
  rw [Hardfile.start, Hardfile.start, hf.adide]

theorem SameFront.fullSize (hf : SameFront h h') : h'.fullSize = h.fullSize := by
  rw [HardFile.fullSize, HardFile.fullSize, hf.virtsize, hf.virtualSize]

/-- What is read is the decoded contents. -/
theorem hdfRead_spec (hb : Backed base h) {buf : List Byte}
    (hle : start h offset + buf.length ≤ h.fullSize)
    (hsuits : Suits h (start h offset) buf.length) :
    ∃ h', hdfRead h buf offset =
        (buf.length, loaded h ((content h).slice (start h offset) buf.length), h') ∧
      content h' = content h := by
  obtain ⟨h', hread, -, hcontent⟩ := hdfRead2_spec hb hle hsuits
  exact ⟨h', by rw [hdfRead_eq, hread], hcontent⟩

/-- What is written is the encoded buffer, as far as it lies behind the RDB. -/
theorem hdfWrite_spec (hb : Backed base h) {buf : List Byte}
    (hle : start h offset + buf.length ≤ h.fullSize)
    (hsuits : Suits h (start h offset) buf.length) :
    ∃ h', hdfWrite h buf offset = some (buf.length, buf, h') ∧ Backed base h' ∧ SameFront h h' ∧
      content h' = (content h).blit (start h offset + rdbPart h (start h offset) buf.length)
        ((stored h buf).drop (rdbPart h (start h offset) buf.length)) := by
  rw [← length_stored h buf] at hle hsuits
  obtain ⟨h', hwrite, hb', hf, hcontent⟩ := hdfWrite2_spec hb hle hsuits
  rw [length_stored] at hwrite hcontent
  exact ⟨h', hdfWrite_eq h hwrite, hb', hf, hcontent⟩

/-- The bytes of a range after the part of it behind `k` was written. -/
theorem slice_blit_tail (m : Image) (off : Nat) {k : Nat} {bs : List Byte} (hk : k ≤ bs.length) :
    (m.blit (off + k) (bs.drop k)).slice off bs.length = m.slice off k ++ bs.drop k := by
  have hlen : bs.length = k + (bs.drop k).length := by
    rw [List.length_drop]
    omega
  rw [hlen, slice_add, slice_blit]
  congr 1
  exact Agree.slice (agree_blit (.inl (Nat.le_refl _)))

/-- A small disk with swapped bytes behind four bytes of RDB. -/
def smallDisk : HardFile where
  target :=
    { disk := fun _ => 0, physsize := 16, driveEmpty := false, readonly := false,
      dangerous := false }
  blocksize := 512
  virtsize := 16
  virtualRdb := some fun _ => 7
  virtualSize := 4
  byteswap := true
  adide := false
  hfdType := .plain
  vhd := ⟨fun _ => 0, 0, 0, 0, 0, fun _ => 0, 0, 0⟩

theorem backed_smallDisk : Backed 0 smallDisk :=
  ⟨⟨rfl, rfl, rfl⟩, fun _ => rfl, Nat.le_refl 16⟩

end LibretroUae.Hardfile
