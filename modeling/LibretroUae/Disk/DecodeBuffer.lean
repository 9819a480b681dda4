import LibretroUae.Disk.Sector
import Mathlib.Data.List.Perm.Subperm
import Mathlib.Data.List.Range
import Mathlib.Logic.Function.Basic

/-!
# LibretroUae.Disk.DecodeBuffer

`decode_buffer`: the scan of a doubled track for sectors, and which sectors a
successful scan has seen.

The scan itself does not depend on what has been stored: `accepted` is the list of
all sectors it would accept, and the loop stores a prefix of that list
(`decodeLoop_eq`). The loop counts stored sectors, not stored sector numbers, so a
return value of 0 says that the prefix is long enough; the sectors are all there
exactly when no number occurs in it twice (`RoundTrip.lean`).
-/

namespace LibretroUae.Disk

open LibretroUae.Lib

/-! ### Looking for a sector -/

/-- `while (getmfmword (mbuf, shift) != 0x4489)`: bit by bit to the next sync word. -/
def seekSync (mbuf : Track) (mend p : Nat) (shift : Fin 16) : Option (Nat × Fin 16) :=
  if getmfmword mbuf p shift = 0x4489 then some (p, shift)
  else if mend ≤ p then none
  else if h : shift.val = 15 then seekSync mbuf mend (p + 1) 0
  else seekSync mbuf mend p ⟨shift.val + 1, by omega⟩
termination_by 16 * (mend - p) + (15 - shift.val)
decreasing_by
  all_goals simp_wf
  all_goals omega

/-- `while (getmfmword (mbuf, shift) == 0x4489)`: past the sync words. -/
def skipSync (mbuf : Track) (mend p : Nat) (shift : Fin 16) : Option Nat :=
  if getmfmword mbuf p shift = 0x4489 then
    if mend ≤ p then none else skipSync mbuf mend (p + 1) shift
  else some p
termination_by mend - p

/-- One turn of the loop: the next sector, and where it leaves off. -/
def nextSector (cfg : Config) (mbuf : Track) (mend p : Nat) (shift : Fin 16) :
    Option (Except Nat Decoded × Nat × Fin 16) := do
  let (p, shift) ← seekSync mbuf mend p shift
  let p ← skipSync mbuf mend p shift
  let r := decodeSector cfg mbuf p shift
  return (r.1, r.2, shift)

theorem seekSync_some {mbuf : Track} {mend p q : Nat} {shift shift' : Fin 16}
    (h : seekSync mbuf mend p shift = some (q, shift')) :
    p ≤ q ∧ getmfmword mbuf q shift' = 0x4489 := by
  fun_induction seekSync mbuf mend p shift with
  | case1 p shift hsync =>
    obtain ⟨rfl, rfl⟩ : p = q ∧ shift = shift' := by simpa using h
    exact ⟨Nat.le_refl p, hsync⟩
  | case2 => simp at h
  | case3 p shift _ _ _ ih =>
    obtain ⟨hle, hsync⟩ := ih h
    exact ⟨by omega, hsync⟩
  | case4 p shift _ _ _ ih => exact ih h

/-- Past a sync word: the last word skipped is one. -/
theorem skipSync_some {mbuf : Track} {mend p q : Nat} {shift : Fin 16}
    (h : skipSync mbuf mend p shift = some q) (hsync : getmfmword mbuf p shift = 0x4489) :
    p < mend ∧ p < q ∧ getmfmword mbuf (q - 1) shift = 0x4489 := by
  fun_induction skipSync mbuf mend p shift with
  | case1 => simp at h
  | case2 p hs hlt ih =>
    refine ⟨by omega, ?_⟩
    by_cases hnext : getmfmword mbuf (p + 1) shift = 0x4489
    · obtain ⟨-, hq, hlast⟩ := ih h hnext
      exact ⟨by omega, hlast⟩
    · rw [skipSync, if_neg hnext] at h
      obtain rfl : p + 1 = q := Option.some.inj h
      exact ⟨by omega, hs⟩
  | case3 p hs => exact absurd hsync hs

/-- What the checks of `decode_buffer` establish for a sector it accepts. -/
structure ValidSector (cfg : Config) (mbuf : Track) (p : Nat) (shift : Fin 16) (d : Decoded) :
    Prop where
  number : d.number = ((longAt mbuf p shift &&& 0xff00) >>> 8).toNat
  range : d.number < cfg.drvsec
  track : ((longAt mbuf p shift &&& 0x00ff0000) >>> 16).toNat = cfg.cyl * 2 + cfg.side
  headChecksum : longAt mbuf (p + 20) shift =
    xorPairs (getmfmlong mbuf p shift ^^^ getmfmlong mbuf (p + 2) shift)
      (readPairs mbuf shift 8 (p + 4) 4)
  dataChecksum : xorPairs (longAt mbuf (p + 24) shift) (readPairs mbuf shift 256 (p + 28) 128) = 0
  head : d.head = (readPairs mbuf shift 8 (p + 4) 4).map fun x => merge x.1 x.2
  data : d.data = (readPairs mbuf shift 256 (p + 28) 128).map fun x => merge x.1 x.2

theorem decodeSector_lt (cfg : Config) (mbuf : Track) (p : Nat) (shift : Fin 16) :
    p < (decodeSector cfg mbuf p shift).2 := by
  unfold decodeSector
  dsimp only
  split_ifs <;> simp

theorem decodeSector_ok {cfg : Config} {mbuf : Track} {p : Nat} {shift : Fin 16} {d : Decoded}
    (h : (decodeSector cfg mbuf p shift).1 = .ok d) : ValidSector cfg mbuf p shift d := by
  unfold decodeSector at h
  dsimp only at h
  split_ifs at h with h1 h2 h3 h4 h5
  obtain rfl := Except.ok.inj h
  exact {
    number := rfl
    range := Nat.lt_of_succ_le (Nat.le_of_not_lt h1)
    track := not_not.mp h4
    headChecksum := not_not.mp h3
    dataChecksum := not_not.mp h5
    head := rfl
    data := rfl }

theorem nextSector_some {cfg : Config} {mbuf : Track} {mend p p' : Nat} {shift shift' : Fin 16}
    {r : Except Nat Decoded} (h : nextSector cfg mbuf mend p shift = some (r, p', shift')) :
    p < mend ∧ p < p' ∧ ∃ q, getmfmword mbuf q shift' = 0x4489 ∧
      (decodeSector cfg mbuf (q + 1) shift').1 = r := by
  unfold nextSector at h
  cases hseek : seekSync mbuf mend p shift with
  | none => simp [hseek] at h
  | some x =>
    obtain ⟨q, s⟩ := x
    obtain ⟨hle, hsync⟩ := seekSync_some hseek
    cases hskip : skipSync mbuf mend q s with
    | none => simp [hseek, hskip] at h
    | some q' =>
      obtain ⟨hlt, hq, hlast⟩ := skipSync_some hskip hsync
      have hd := decodeSector_lt cfg mbuf q' s
      simp only [hseek, hskip, bind, Option.bind, pure, Option.some.injEq, Prod.mk.injEq] at h
      obtain ⟨hr, rfl, rfl⟩ := h
      refine ⟨by omega, by omega, q' - 1, hlast, ?_⟩
      rw [Nat.sub_add_cancel (by omega : 1 ≤ q')]
      exact hr

/-! ### Storing sectors -/

/-- The results of `decode_buffer`: `sectable`, the two static buffers and `secwritten`. -/
structure Buffers where
  sectable : Nat → Nat
  writebuffer : Nat → Byte
  writesecheadbuffer : Nat → Byte
  secwritten : Nat

/-- `memcpy` of a list of bytes. -/
def storeBytes (buf : Nat → Byte) (off : Nat) (bs : List Byte) : Nat → Byte := fun j =>
  if off ≤ j ∧ j < off + bs.length then bs.getD (j - off) 0 else buf j

/-- Storing a decoded sector. -/
def Buffers.store (b : Buffers) (d : Decoded) : Buffers :=
  { sectable := Function.update b.sectable d.number 1
    writebuffer := storeBytes b.writebuffer (d.number * 512) (d.data.flatMap be32)
    writesecheadbuffer := storeBytes b.writesecheadbuffer (d.number * 16) (d.head.flatMap be32)
    secwritten := b.secwritten + 1 }

/-- The loop of `decode_buffer`: the return value and the buffers. -/
def decodeLoop (cfg : Config) (mbuf : Track) (mend p : Nat) (shift : Fin 16) (b : Buffers) :
    Nat × Buffers :=
  if b.secwritten < cfg.drvsec then
    match h : nextSector cfg mbuf mend p shift with
    | none => (1, b)
    | some (.error ret, p', shift') =>
      have := (nextSector_some h).1
      have := (nextSector_some h).2.1
      if cfg.filetype = .ext2 then (ret, b) else decodeLoop cfg mbuf mend p' shift' b
    | some (.ok d, p', shift') =>
      have := (nextSector_some h).1
      have := (nextSector_some h).2.1
      decodeLoop cfg mbuf mend p' shift' (b.store d)
  else if cfg.filetype = .ext2 ∧ b.secwritten = 0 then (5, b)
  else (0, b)
termination_by mend - p

/-- `memcpy (mbuf + fwlen, mbuf, fwlen * sizeof (uae_u16))`. -/
def doubled (fwlen : Nat) (mbuf : Track) : Track := fun i =>
  if fwlen ≤ i ∧ i < 2 * fwlen then mbuf (i - fwlen) else mbuf i

/-- `fwlen`. -/
def Config.fwlen (cfg : Config) : Nat := cfg.writeLen * cfg.ddhd

/-- `mend`: the last word a sector can start at. -/
def Config.mend (cfg : Config) : Nat := 2 * cfg.fwlen - (4 + 16 + 8 + 512)

/-- `decode_buffer`, without a drive bridge. -/
def decodeBuffer (cfg : Config) (mbuf : Track) (b : Buffers) : Nat × Buffers :=
  decodeLoop cfg (doubled cfg.fwlen mbuf) cfg.mend 0 0
    { b with sectable := fun _ => 0, secwritten := 0 }

/-! ### The sectors a scan accepts -/

/-- All sectors from a position on that the scan accepts. -/
def accepted (cfg : Config) (mbuf : Track) (mend p : Nat) (shift : Fin 16) : List Decoded :=
  match h : nextSector cfg mbuf mend p shift with
  | none => []
  | some (.error _, p', shift') =>
    have := (nextSector_some h).1
    have := (nextSector_some h).2.1
    accepted cfg mbuf mend p' shift'
  | some (.ok d, p', shift') =>
    have := (nextSector_some h).1
    have := (nextSector_some h).2.1
    d :: accepted cfg mbuf mend p' shift'
termination_by mend - p

/-- The scan goes on behind an accepted sector. -/
theorem accepted_ok {cfg : Config} {mbuf : Track} {mend p p' : Nat} {shift shift' : Fin 16}
    {d : Decoded} (h : nextSector cfg mbuf mend p shift = some (.ok d, p', shift')) :
    accepted cfg mbuf mend p shift = d :: accepted cfg mbuf mend p' shift' := by
  rw [accepted]
  split
  · rename_i h'
    simp [h] at h'
  · rename_i h'
    simp [h] at h'
  · rename_i h'
    obtain ⟨⟨rfl⟩, rfl, rfl⟩ : _ ∧ _ ∧ _ := by simpa [h] using h'
    rfl

theorem accepted_none {cfg : Config} {mbuf : Track} {mend p : Nat} {shift : Fin 16}
    (h : nextSector cfg mbuf mend p shift = none) : accepted cfg mbuf mend p shift = [] := by
  rw [accepted]
  split
  · rfl
  · rename_i h'
    simp [h] at h'
  · rename_i h'
    simp [h] at h'

/-- The scan goes on behind a sector it rejects. -/
theorem accepted_error {cfg : Config} {mbuf : Track} {mend p p' : Nat} {shift shift' : Fin 16}
    {ret : Nat} (h : nextSector cfg mbuf mend p shift = some (.error ret, p', shift')) :
    accepted cfg mbuf mend p shift = accepted cfg mbuf mend p' shift' := by
  rw [accepted]
  split
  · rename_i h'
    simp [h] at h'
  · rename_i h'
    obtain ⟨_, rfl, rfl⟩ : _ ∧ _ ∧ _ := by simpa [h] using h'
    rfl
  · rename_i h'
    simp [h] at h'

/-- Every accepted sector stands on the track behind a sync word and passes the checks. -/
theorem accepted_valid {cfg : Config} {mbuf : Track} {mend p : Nat} {shift : Fin 16} {d : Decoded}
    (h : d ∈ accepted cfg mbuf mend p shift) :
    ∃ q s, getmfmword mbuf q s = 0x4489 ∧ ValidSector cfg mbuf (q + 1) s d := by
  fun_induction accepted cfg mbuf mend p shift with
  | case1 => simp at h
  | case2 p shift _ _ _ _ _ _ ih => exact ih h
  | case3 p shift d' p' shift' hnext _ _ ih =>
    rcases List.mem_cons.mp h with rfl | hmem
    · obtain ⟨-, -, q, hsync, hd⟩ := nextSector_some hnext
      exact ⟨q, shift', hsync, decodeSector_ok hd⟩
    · exact ih hmem

/-- For files other than `ADF_EXT2` the loop stores accepted sectors until it has as many
as it wants or there are no more. -/
theorem decodeLoop_eq {cfg : Config} (hext : cfg.filetype ≠ .ext2) (mbuf : Track)
    (mend p : Nat) (shift : Fin 16) (b : Buffers) :
    decodeLoop cfg mbuf mend p shift b =
      (if (accepted cfg mbuf mend p shift).length < cfg.drvsec - b.secwritten then 1 else 0,
        ((accepted cfg mbuf mend p shift).take (cfg.drvsec - b.secwritten)).foldl
          Buffers.store b) := by
  fun_induction decodeLoop cfg mbuf mend p shift b with
  | case1 p shift b hlt hnext =>
    have hpos : 0 < cfg.drvsec - b.secwritten := by omega
    simp [accepted_none hnext, hpos]
  | case2 p shift b hlt ret p' shift' hnext _ _ hft => exact absurd hft hext
  | case3 p shift b hlt ret p' shift' hnext _ _ _ ih => rw [ih, accepted_error hnext]
  | case4 p shift b hlt d p' shift' hnext _ _ ih =>
    have hsub : cfg.drvsec - b.secwritten = cfg.drvsec - (b.store d).secwritten + 1 := by
      change cfg.drvsec - b.secwritten = cfg.drvsec - (b.secwritten + 1) + 1
      omega
    rw [ih, accepted_ok hnext, hsub, List.take_succ_cons, List.foldl_cons, List.length_cons]
    simp only [Nat.add_lt_add_iff_right]
  | case5 p shift b hge hft => exact absurd hft.1 hext
  | case6 p shift b hge _ =>
    have hsub : cfg.drvsec - b.secwritten = 0 := by omega
    rw [hsub, List.take_zero, if_neg (Nat.not_lt_zero _)]
    rfl

/-! ### What is stored -/

theorem sectable_foldl (ds : List Decoded) : ∀ (b : Buffers) (s : Nat),
    (ds.foldl Buffers.store b).sectable s =
      if s ∈ ds.map Decoded.number then 1 else b.sectable s := by
  induction ds with
  | nil => simp
  | cons d ds ih =>
    intro b s
    rw [List.foldl_cons, ih]
    by_cases hmem : s ∈ ds.map Decoded.number
    · simp [hmem]
    · rw [if_neg hmem, Buffers.store]
      dsimp only
      by_cases hd : s = d.number
      · subst hd
        simp
      · rw [Function.update_of_ne hd, List.map_cons, if_neg (by simp [hd] at hmem ⊢; exact hmem)]

/-- Bytes stored in a slot of `w` bytes. -/
theorem storeBytes_slot {w : Nat} {bs : List Byte} (buf : Nat → Byte) (hlen : bs.length = w)
    (n s i : Nat) (hi : i < w) :
    storeBytes buf (n * w) bs (s * w + i) = if s = n then bs.getD i 0 else buf (s * w + i) := by
  rw [storeBytes, hlen]
  by_cases h : s = n
  · subst h
    rw [if_pos (by omega), if_pos rfl, Nat.add_sub_cancel_left]
  · have hout : ¬ (n * w ≤ s * w + i ∧ s * w + i < n * w + w) := by
      rintro ⟨h1, h2⟩
      rcases Nat.lt_or_gt_of_ne h with hlt | hgt
      · have := Nat.mul_le_mul_right w hlt
        rw [Nat.succ_mul] at this
        omega
      · have := Nat.mul_le_mul_right w hgt
        rw [Nat.succ_mul] at this
        omega
    rw [if_neg hout, if_neg h]

/-- A decoded sector of the size the buffers have slots for. -/
def Decoded.Sized (d : Decoded) : Prop :=
  (d.data.flatMap be32).length = 512 ∧ (d.head.flatMap be32).length = 16

/-- Slot `s` of the buffers holds the data and the header of `d`. -/
structure Buffers.Holds (b : Buffers) (s : Nat) (d : Decoded) : Prop where
  data : ∀ i < 512, b.writebuffer (s * 512 + i) = (d.data.flatMap be32).getD i 0
  head : ∀ i < 16, b.writesecheadbuffer (s * 16 + i) = (d.head.flatMap be32).getD i 0

theorem Buffers.store_writebuffer {d : Decoded} (b : Buffers) (h : d.Sized) (s : Nat) {i : Nat}
    (hi : i < 512) : (b.store d).writebuffer (s * 512 + i) =
      if s = d.number then (d.data.flatMap be32).getD i 0 else b.writebuffer (s * 512 + i) :=
  storeBytes_slot _ h.1 _ _ _ hi

theorem Buffers.store_writesecheadbuffer {d : Decoded} (b : Buffers) (h : d.Sized) (s : Nat)
    {i : Nat} (hi : i < 16) : (b.store d).writesecheadbuffer (s * 16 + i) =
      if s = d.number then (d.head.flatMap be32).getD i 0
      else b.writesecheadbuffer (s * 16 + i) :=
  storeBytes_slot _ h.2 _ _ _ hi

theorem Buffers.Holds.store_self {d : Decoded} (b : Buffers) (h : d.Sized) :
    (b.store d).Holds d.number d where
  data i hi := by rw [Buffers.store_writebuffer b h _ hi, if_pos rfl]
  head i hi := by rw [Buffers.store_writesecheadbuffer b h _ hi, if_pos rfl]

/-- Storing other sectors leaves a slot alone. -/
theorem Buffers.Holds.foldl {ds : List Decoded} (hds : ∀ d ∈ ds, d.Sized) {s : Nat} {e : Decoded} :
    ∀ {b : Buffers}, b.Holds s e → s ∉ ds.map Decoded.number →
      (ds.foldl Buffers.store b).Holds s e := by
  induction ds with
  | nil => exact fun h _ => h
  | cons d ds ih =>
    intro b h hs
    rw [List.map_cons, List.mem_cons, not_or] at hs
    obtain ⟨hd, hrest⟩ := List.forall_mem_cons.mp hds
    refine ih hrest ⟨fun i hi => ?_, fun i hi => ?_⟩ hs.2
    · rw [Buffers.store_writebuffer b hd _ hi, if_neg hs.1]
      exact h.data i hi
    · rw [Buffers.store_writesecheadbuffer b hd _ hi, if_neg hs.1]
      exact h.head i hi

/-- After storing a list of sectors a slot holds one of the list's sectors of that number. -/
theorem holds_foldl {ds : List Decoded} (hds : ∀ d ∈ ds, d.Sized) {s : Nat} :
    ∀ (b : Buffers), s ∈ ds.map Decoded.number →
      ∃ d ∈ ds, d.number = s ∧ (ds.foldl Buffers.store b).Holds s d := by
  induction ds with
  | nil => simp
  | cons d ds ih =>
    intro b hs
    obtain ⟨hd, hrest⟩ := List.forall_mem_cons.mp hds
    by_cases hmem : s ∈ ds.map Decoded.number
    · obtain ⟨e, he, hnum, hholds⟩ := ih hrest (b.store d) hmem
      exact ⟨e, List.mem_cons_of_mem d he, hnum, hholds⟩
    · rw [List.map_cons, List.mem_cons] at hs
      obtain rfl := hs.resolve_right hmem
      exact ⟨d, List.mem_cons_self, rfl, (Buffers.Holds.store_self b hd).foldl hrest hmem⟩

theorem length_readPairs (mbuf : Track) (shift : Fin 16) (stride n : Nat) :
    ∀ p, (readPairs mbuf shift stride p n).length = n := by
  induction n with
  | zero => exact fun _ => rfl
  | succ n ih =>
    intro p
    rw [readPairs, List.length_cons, ih]

theorem ValidSector.sized {cfg : Config} {mbuf : Track} {p : Nat} {shift : Fin 16} {d : Decoded}
    (h : ValidSector cfg mbuf p shift d) : d.Sized := by
  refine ⟨?_, ?_⟩
  · rw [length_flatMap_be32, h.data, List.length_map, length_readPairs]
  · rw [length_flatMap_be32, h.head, List.length_map, length_readPairs]

/-! ### Complete decodes -/

/-- The sectors that a call of `decode_buffer` stores. -/
def storedSectors (cfg : Config) (mbuf : Track) : List Decoded :=
  (accepted cfg (doubled cfg.fwlen mbuf) cfg.mend 0 0).take cfg.drvsec

/-- Every sector of the track is marked as read, and its slot holds a sector that stands on
the track behind a sync word with this number and valid checksums. -/
def Complete (cfg : Config) (mbuf : Track) (b : Buffers) : Prop :=
  ∀ s < cfg.drvsec, b.sectable s = 1 ∧
    ∃ q shift d, getmfmword (doubled cfg.fwlen mbuf) q shift = 0x4489 ∧
      ValidSector cfg (doubled cfg.fwlen mbuf) (q + 1) shift d ∧ d.number = s ∧
      ∀ i < 512, b.writebuffer (s * 512 + i) = (d.data.flatMap be32).getD i 0

theorem decodeBuffer_eq {cfg : Config} (hext : cfg.filetype ≠ .ext2) (mbuf : Track) (b : Buffers) :
    decodeBuffer cfg mbuf b =
      (if (storedSectors cfg mbuf).length < cfg.drvsec then 1 else 0,
        (storedSectors cfg mbuf).foldl Buffers.store
          { b with sectable := fun _ => 0, secwritten := 0 }) := by
  rw [decodeBuffer, decodeLoop_eq hext, storedSectors, Nat.sub_zero, List.length_take]
  congr 1
  split_ifs with h1 h2 h2
  · rfl
  · omega
  · omega
  · rfl

theorem storedSectors_valid {cfg : Config} {mbuf : Track} {d : Decoded}
    (h : d ∈ storedSectors cfg mbuf) :
    ∃ q s, getmfmword (doubled cfg.fwlen mbuf) q s = 0x4489 ∧
      ValidSector cfg (doubled cfg.fwlen mbuf) (q + 1) s d :=
  accepted_valid (List.mem_of_mem_take h)

/-- `n` numbers below `n` are all of them exactly when none occurs twice. -/
theorem forall_mem_iff_nodup {n : Nat} {l : List Nat} (hlen : l.length = n) (hlt : ∀ x ∈ l, x < n) :
    (∀ s < n, s ∈ l) ↔ l.Nodup := by
  have hrange : (List.range n).length = n := List.length_range
  constructor
  · intro h
    have hsub : (List.range n).Subperm l :=
      List.subperm_of_subset List.nodup_range fun s hs => h s (List.mem_range.mp hs)
    have hperm := hsub.perm_of_length_le (by omega)
    exact hperm.nodup_iff.mp List.nodup_range
  · intro h s hs
    have hsub : l.Subperm (List.range n) :=
      List.subperm_of_subset h fun x hx => List.mem_range.mpr (hlt x hx)
    have hperm := hsub.perm_of_length_le (by omega)
    exact hperm.mem_iff.mpr (List.mem_range.mpr hs)

end LibretroUae.Disk
