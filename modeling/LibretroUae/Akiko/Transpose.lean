import LibretroUae.Akiko.Protocol
import LibretroUae.Lib.Loop
import LibretroUae.Lib.Words

/-!
# LibretroUae.Akiko.Transpose

**The converter transposes its bytes.** Thirty-two chunky pixels of a byte each go in, in eight
longwords, and eight planes of a bit for each pixel come out. The longwords are accessed byte by
byte from the last one on, and share their position: a read takes the next write back to the
first longword, a write makes the next read convert.
-/

namespace LibretroUae.Akiko

open Lib

/-! ### The bit-by-bit conversion -/

/-- One round of the loop that the precalculated conversion replaces. -/
def referenceRound (buffer : Fin 8 → BitVec 32) (i : Nat) (result : Fin 8 → BitVec 32) :
    Fin 8 → BitVec 32 :=
  if buffer (Fin.ofNat 8 (7 - i / 32)) &&& BitVec.twoPow 32 (i % 32) ≠ 0 then
    let k := Fin.ofNat 8 i
    Function.update result k (result k ||| BitVec.twoPow 32 (i / 8))
  else result

/-- `akiko_c2p_do` bit by bit. -/
def referenceC2pDo (buffer : Fin 8 → BitVec 32) : Fin 8 → BitVec 32 :=
  loop (referenceRound buffer) (8 * 32) fun _ => 0

/-- Bit `b` of plane `k`: one bit of one byte of the buffer. -/
def planeBit (buffer : Fin 8 → BitVec 32) (k b : Nat) : Bool :=
  (buffer (Fin.ofNat 8 (7 - b / 4))).getLsbD (8 * (b % 4) + k)

/-- After `n` rounds the planes have the bits that the rounds went over. -/
theorem reference_bits (buffer : Fin 8 → BitVec 32) {n : Nat} (hn : n ≤ 8 * 32) (k : Fin 8)
    (b : Nat) : (loop (referenceRound buffer) n (fun _ => 0) k).getLsbD b =
      (decide (8 * b + k < n) && planeBit buffer k b) := by
  induction n with
  | zero => simp [loop]
  | succ n ih =>
    have hk := k.isLt
    have hold := ih (by omega)
    -- the round looks at one bit of one plane
    have hround : ∀ r : Fin 8 → BitVec 32, (referenceRound buffer n r k).getLsbD b =
        ((r k).getLsbD b || (decide (8 * b + k = n) && planeBit buffer k b)) := by
      intro r
      by_cases hplane : 8 * b + k = n
      · have hbuffer : (7 - n / 32 : Nat) = 7 - b / 4 := by omega
        have hbit : n % 32 = 8 * (b % 4) + k := by omega
        have hkn : Fin.ofNat 8 n = k := Fin.ext (show n % 8 = k by omega)
        have hb : n / 8 = b := by omega
        have hb32 : b < 32 := by omega
        rw [referenceRound, hbuffer, hbit, hkn, hb]
        by_cases hset : planeBit buffer k b = true
        · rw [if_pos ((and_twoPow_ne_zero _ (by omega)).mpr hset)]
          simp [-BitVec.getLsbD_eq_getElem, hplane, hset, hb32]
        · rw [if_neg fun h => hset ((and_twoPow_ne_zero _ (by omega)).mp h)]
          simp [-BitVec.getLsbD_eq_getElem, hset]
      · have hsame : (referenceRound buffer n r k).getLsbD b = (r k).getLsbD b := by
          rw [referenceRound]
          split
          · by_cases hkn : k = Fin.ofNat 8 n
            · have hval : (k : Nat) = n % 8 := congrArg Fin.val hkn
              have hb : n / 8 ≠ b := by omega
              rw [hkn, Function.update_self, BitVec.getLsbD_or, BitVec.getLsbD_twoPow]
              simp [hb]
            · rw [Function.update_of_ne hkn]
          · rfl
        simp [hsame, hplane]
    rw [loop_succ, hround, hold]
    by_cases hlt : 8 * b + (k : Nat) < n
    · have hne : 8 * b + (k : Nat) ≠ n := by omega
      have hlt' : 8 * b + (k : Nat) < n + 1 := by omega
      simp [hlt, hne, hlt']
    · by_cases heq : 8 * b + (k : Nat) = n
      · simp [heq]
      · have hge : ¬ 8 * b + (k : Nat) < n + 1 := by omega
        simp [hlt, heq, hge]

theorem getLsbD_reference (buffer : Fin 8 → BitVec 32) (k : Fin 8) {b : Nat} (hb : b < 32) :
    (referenceC2pDo buffer k).getLsbD b = planeBit buffer k b := by
  have hk := k.isLt
  have hlt : 8 * b + (k : Nat) < 8 * 32 := by omega
  rw [referenceC2pDo, reference_bits buffer (Nat.le_refl _) k b]
  simp [hlt]

/-! ### The precalculated conversion -/

/-- Is a bit set in one of the terms. -/
theorem getLsbD_foldl_or {α : Type} (f : α → BitVec 32) (l : List α) (r : BitVec 32) (b : Nat) :
    (l.foldl (fun r a => r ||| f a) r).getLsbD b =
      (r.getLsbD b || l.any fun a => (f a).getLsbD b) := by
  induction l generalizing r with
  | nil => simp
  | cons a l ih => rw [List.foldl_cons, ih, BitVec.getLsbD_or, List.any_cons, Bool.or_assoc]

theorem getLsbD_planarBit (buffer : Fin 8 → BitVec 32) {i b : Nat} (hi : i < 32) (j : Fin 8)
    (hb : b < 32) : (planarBit buffer i j).getLsbD b =
      (decide (b = i / 8 + (7 - j) * 4) && (buffer j).getLsbD i) := by
  rw [planarBit, akikoPrecalcShift, akikoPrecalcBytenum]
  by_cases hset : (buffer j).getLsbD i = true
  · rw [if_pos ((and_twoPow_ne_zero _ hi).mpr hset), BitVec.getLsbD_twoPow, hset]
    by_cases heq : b = i / 8 + (7 - j) * 4
    · subst heq
      simp [hb]
    · simp [heq, Ne.symm heq]
  · rw [if_neg fun h => hset ((and_twoPow_ne_zero _ hi).mp h)]
    simp [-BitVec.getLsbD_eq_getElem, hset]

/-- The terms of a plane, one after the other. -/
theorem planar_eq (buffer : Fin 8 → BitVec 32) (k : Fin 8) :
    planar buffer k = ((List.range 4).flatMap fun m => (List.finRange 8).map fun j => (m, j)).foldl
      (fun r t => r ||| planarBit buffer (k + 8 * t.1) t.2) 0 := by
  simp only [planar, List.foldl_flatMap, List.foldl_map]

theorem getLsbD_planar (buffer : Fin 8 → BitVec 32) (k : Fin 8) {b : Nat} (hb : b < 32) :
    (planar buffer k).getLsbD b = planeBit buffer k b := by
  have hk := k.isLt
  have hzero : (0 : BitVec 32).getLsbD b = false := BitVec.getLsbD_zero
  rw [planar_eq, getLsbD_foldl_or, hzero, Bool.false_or, Bool.eq_iff_iff]
  simp only [List.any_eq_true, List.mem_flatMap, List.mem_map,
    List.mem_range, List.mem_finRange, true_and]
  constructor
  · rintro ⟨-, ⟨m, hm, j, rfl⟩, hbit⟩
    have hj := j.isLt
    rw [getLsbD_planarBit buffer (by omega) j hb, Bool.and_eq_true, decide_eq_true_eq] at hbit
    obtain ⟨hplace, hset⟩ := hbit
    have hm' : (k + 8 * m) / 8 = m := by omega
    have hjb : Fin.ofNat 8 (7 - b / 4) = j := Fin.ext (show (7 - b / 4) % 8 = j by omega)
    have hmb : 8 * (b % 4) + k = k + 8 * m := by omega
    rwa [planeBit, hjb, hmb]
  · intro hset
    refine ⟨_, ⟨b % 4, Nat.mod_lt _ (by omega), Fin.ofNat 8 (7 - b / 4), rfl⟩, ?_⟩
    have hj : (Fin.ofNat 8 (7 - b / 4)).val = 7 - b / 4 :=
      Nat.mod_eq_of_lt (by omega)
    have hplace : b = (k + 8 * (b % 4)) / 8 + (7 - (7 - b / 4)) * 4 := by omega
    rw [getLsbD_planarBit buffer (by omega) _ hb, hj, decide_eq_true hplace, Bool.true_and,
      Nat.add_comm]
    exact hset

/-- Both conversions are the same. -/
theorem planar_eq_reference (buffer : Fin 8 → BitVec 32) :
    planar buffer = referenceC2pDo buffer := by
  funext k
  apply BitVec.eq_of_getLsbD_eq
  intro b hb
  rw [getLsbD_planar buffer k hb, getLsbD_reference buffer k hb]

/-! ### One longword -/

/-- The bytes of a longword, put together from the last one on. -/
theorem or_bytes (v : BitVec 32) :
    (0#32 ||| (byteAt v 0).setWidth 32 <<< 0) ||| (byteAt v 8).setWidth 32 <<< 8 |||
      (byteAt v 16).setWidth 32 <<< 16 ||| (byteAt v 24).setWidth 32 <<< 24 = v := by
  have h := word32_byteAt v
  have hswap : ∀ a b c d : BitVec 32, a ||| b ||| c ||| d = d ||| c ||| b ||| a := by
    intro a b c d
    ac_rfl
  rw [word32, hswap] at h
  rw [BitVec.shiftLeft_zero, BitVec.zero_or, h]

variable {c : C2p}

theorem akikoC2pWrite_eq {i : Fin 8} (hi : c.akikoWriteOffset = i) (offset : Nat) (v : Byte) :
    akikoC2pWrite c offset v = .ok { c with
      akikoBuffer := Function.update c.akikoBuffer i
        ((if offset = 3 then 0 else c.akikoBuffer i) ||| (v.setWidth 32 <<< (8 * (3 - offset))))
      akikoWriteOffset := if offset = 0 then (i + 1) % 8 else i
      akikoReadOffset := -1 } := by
  have hlt : c.akikoWriteOffset < 8 := hi ▸ i.isLt
  have hfin : (⟨c.akikoWriteOffset, hlt⟩ : Fin 8) = i := Fin.ext hi
  rw [akikoC2pWrite, dif_pos hlt, hfin, hi]

/-- A longword goes to its place, and the next one behind it. -/
theorem c2pLput_eq {i : Fin 8} (hi : c.akikoWriteOffset = i) (v : BitVec 32) :
    c2pLput c v = .ok { c with
      akikoBuffer := Function.update c.akikoBuffer i v
      akikoWriteOffset := (i + 1) % 8
      akikoReadOffset := -1 } := by
  rw [c2pLput, akikoC2pWrite_eq hi]
  change (akikoC2pWrite _ 2 (byteAt v 8) >>= _) = _
  rw [akikoC2pWrite_eq (i := i) rfl]
  change (akikoC2pWrite _ 1 (byteAt v 16) >>= _) = _
  rw [akikoC2pWrite_eq (i := i) rfl]
  change akikoC2pWrite _ 0 (byteAt v 24) = _
  rw [akikoC2pWrite_eq (i := i) rfl]
  simp only [Function.update_self, Function.update_idem]
  exact congrArg (fun w => Except.ok { c with
    akikoBuffer := Function.update c.akikoBuffer i w
    akikoWriteOffset := (i + 1) % 8
    akikoReadOffset := -1 }) (or_bytes v)

/-- The converter when it has converted. -/
def C2p.converted (c : C2p) : C2p :=
  if c.akikoReadOffset < 0 then { akikoC2pDo c with akikoReadOffset := 0 } else c

theorem akikoC2pRead_converted (c : C2p) (offset : Nat) :
    akikoC2pRead c offset = if h : c.converted.akikoReadOffset.toNat < 8 then
      .ok ((c.converted.akikoResult ⟨c.converted.akikoReadOffset.toNat, h⟩ >>>
        (8 * (3 - offset))).setWidth 8, { c.converted with akikoWriteOffset := 0 })
    else .error .outsideResult := rfl

/-- A byte is taken from the result at the read offset. -/
theorem akikoC2pRead_eq {i : Fin 8} (hi : c.converted.akikoReadOffset = i) (offset : Nat) :
    akikoC2pRead c offset = .ok
      (((c.converted.akikoResult i) >>> (8 * (3 - offset))).setWidth 8,
        { c.converted with akikoWriteOffset := 0 }) := by
  have htoNat : c.converted.akikoReadOffset.toNat = i := by rw [hi]; rfl
  have hlt : c.converted.akikoReadOffset.toNat < 8 := htoNat ▸ i.isLt
  have hfin : (⟨c.converted.akikoReadOffset.toNat, hlt⟩ : Fin 8) = i := Fin.ext htoNat
  rw [akikoC2pRead_converted, dif_pos hlt, hfin]

/-- A read longword is the result at the read offset, which goes on to the next one. -/
theorem c2pLget_eq {i : Fin 8} (hi : c.converted.akikoReadOffset = i) :
    c2pLget c = .ok (c.converted.akikoResult i, { c.converted with
      akikoWriteOffset := 0
      akikoReadOffset := (i + 1) % 8 }) := by
  have hnonneg : ¬ c.converted.akikoReadOffset < 0 := by omega
  have hagain : ∀ w, C2p.converted { c.converted with akikoWriteOffset := w }
      = { c.converted with akikoWriteOffset := w } := fun w => if_neg hnonneg
  have hread : ∀ offset, akikoC2pRead { c.converted with akikoWriteOffset := 0 } offset = .ok
      (((c.converted.akikoResult i) >>> (8 * (3 - offset))).setWidth 8,
        { c.converted with akikoWriteOffset := 0 }) := by
    intro offset
    rw [akikoC2pRead_eq (i := i) (by rw [hagain]; exact hi), hagain]
  rw [c2pLget, akikoC2pRead_eq hi]
  change (akikoC2pRead { c.converted with akikoWriteOffset := 0 } 2 >>= _) = _
  rw [hread]
  change (akikoC2pRead { c.converted with akikoWriteOffset := 0 } 1 >>= _) = _
  rw [hread]
  change (akikoC2pRead { c.converted with akikoWriteOffset := 0 } 0 >>= _) = _
  rw [hread]
  change Except.ok (word32 _ _ _ _, checkReadC2p { c.converted with akikoWriteOffset := 0 }) = _
  rw [checkReadC2p, hi]
  exact congrArg (fun w => Except.ok (w, { c.converted with
    akikoWriteOffset := 0
    akikoReadOffset := ((i : Int) + 1) % 8 })) (word32_byteAt (c.converted.akikoResult i))

/-! ### Accesses of the processor -/

/-- `akiko_lget`, with what its four bytes find around. -/
def akikoLget (cfg : Config) (env : Nat → Env) (s : AkikoState) (addr : Nat) :
    Except Fault (BitVec 32 × AkikoState) :=
  let addr := addr % 0x10000
  if 0x8000 ≤ addr then .ok (0, s)
  else do
    let (b0, s) ← akikoBget2 cfg (env 3) s (addr + 3)
    let (b1, s) ← akikoBget2 cfg (env 2) s (addr + 2)
    let (b2, s) ← akikoBget2 cfg (env 1) s (addr + 1)
    let (b3, s) ← akikoBget2 cfg (env 0) s addr
    return (word32 b3 b2 b1 b0, if isC2p addr then { s with c2p := checkReadC2p s.c2p } else s)

/-- `akiko_lput`. -/
def akikoLput (cfg : Config) (env : Nat → Env) (s : AkikoState) (addr : Nat) (v : BitVec 32) :
    Except Fault AkikoState :=
  let addr := addr % 0x10000
  if 0x8000 ≤ addr then .ok s
  else do
    let s ← akikoBput2 cfg (env 3) s (addr + 3) (byteAt v 0)
    let s ← akikoBput2 cfg (env 2) s (addr + 2) (byteAt v 8)
    let s ← akikoBput2 cfg (env 1) s (addr + 1) (byteAt v 16)
    akikoBput2 cfg (env 0) s addr (byteAt v 24)

/-- The address of the converter. -/
def c2pAddr : Nat := 0xb80038

variable {cfg : Config} {env : Nat → Env} {s : AkikoState}

theorem akikoBget2_c2p (hcfg : cfg.csCd32c2p = true) (e : Env) {offset : Nat} (h : offset < 4) :
    akikoBget2 cfg e s (0x38 + offset)
      = (akikoC2pRead s.c2p offset).map fun r => (r.1, { s with c2p := r.2 }) := by
  have hmod : (0x38 + offset) % 0x40 = 0x38 + offset := Nat.mod_eq_of_lt (by omega)
  simp only [akikoBget2, hmod]
  rw [if_neg (by omega), if_neg (by omega), if_pos (by omega), if_pos hcfg, Nat.add_sub_cancel_left]

theorem akikoBput2_c2p (hcfg : cfg.csCd32c2p = true) (e : Env) {offset : Nat} (h : offset < 4)
    (v : Byte) : akikoBput2 cfg e s (0x38 + offset) v
      = (akikoC2pWrite s.c2p offset v).map fun c2p => { s with c2p } := by
  have hmod : (0x38 + offset) % 0x40 = 0x38 + offset := Nat.mod_eq_of_lt (by omega)
  simp only [akikoBput2, hmod]
  rw [if_neg (by omega), if_pos (by omega), if_pos hcfg, Nat.add_sub_cancel_left]

theorem akikoLget_c2p (hcfg : cfg.csCd32c2p = true) :
    akikoLget cfg env s c2pAddr = (c2pLget s.c2p).map fun r => (r.1, { s with c2p := r.2 }) := by
  have hget : ∀ (s : AkikoState) (e : Env) offset, offset < 4 →
      akikoBget2 cfg e s (0x38 + offset)
        = (akikoC2pRead s.c2p offset).map fun r => (r.1, { s with c2p := r.2 }) :=
    fun s e offset h => akikoBget2_c2p hcfg e h
  change (akikoBget2 cfg (env 3) s (0x38 + 3) >>= _) = _
  rw [hget s _ 3 (by decide), c2pLget]
  cases h0 : akikoC2pRead s.c2p 3 with
  | error => rfl
  | ok r0 =>
    change (akikoBget2 cfg (env 2) { s with c2p := r0.2 } (0x38 + 2) >>= _)
      = Except.map _ (akikoC2pRead r0.2 2 >>= _)
    rw [hget _ _ 2 (by decide)]
    cases h1 : akikoC2pRead r0.2 2 with
    | error => rfl
    | ok r1 =>
      change (akikoBget2 cfg (env 1) { s with c2p := r1.2 } (0x38 + 1) >>= _)
        = Except.map _ (akikoC2pRead r1.2 1 >>= _)
      rw [hget _ _ 1 (by decide)]
      cases h2 : akikoC2pRead r1.2 1 with
      | error => rfl
      | ok r2 =>
        change (akikoBget2 cfg (env 0) { s with c2p := r2.2 } (0x38 + 0) >>= _)
          = Except.map _ (akikoC2pRead r2.2 0 >>= _)
        rw [hget _ _ 0 (by decide)]
        cases h3 : akikoC2pRead r2.2 0 with
        | error => rfl
        | ok r3 => rfl

theorem akikoLput_c2p (hcfg : cfg.csCd32c2p = true) (v : BitVec 32) :
    akikoLput cfg env s c2pAddr v = (c2pLput s.c2p v).map fun c2p => { s with c2p } := by
  have hput : ∀ (s : AkikoState) (e : Env) offset b, offset < 4 →
      akikoBput2 cfg e s (0x38 + offset) b
        = (akikoC2pWrite s.c2p offset b).map fun c2p => { s with c2p } :=
    fun s e offset b h => akikoBput2_c2p hcfg e h b
  change (akikoBput2 cfg (env 3) s (0x38 + 3) (byteAt v 0) >>= _) = _
  rw [hput s _ 3 _ (by decide), c2pLput]
  cases h0 : akikoC2pWrite s.c2p 3 (byteAt v 0) with
  | error => rfl
  | ok c0 =>
    change (akikoBput2 cfg (env 2) { s with c2p := c0 } (0x38 + 2) (byteAt v 8) >>= _)
      = Except.map _ (akikoC2pWrite c0 2 (byteAt v 8) >>= _)
    rw [hput _ _ 2 _ (by decide)]
    cases h1 : akikoC2pWrite c0 2 (byteAt v 8) with
    | error => rfl
    | ok c1 =>
      change (akikoBput2 cfg (env 1) { s with c2p := c1 } (0x38 + 1) (byteAt v 16) >>= _)
        = Except.map _ (akikoC2pWrite c1 1 (byteAt v 16) >>= _)
      rw [hput _ _ 1 _ (by decide)]
      cases h2 : akikoC2pWrite c1 1 (byteAt v 16) with
      | error => rfl
      | ok c2 => exact hput { s with c2p := c2 } (env 0) 0 (byteAt v 24) (by decide)

/-! ### Eight longwords in and out -/

/-- The first `n` of the writes. -/
def lputs (cfg : Config) (env : Nat → Nat → Env) (w : Fin 8 → BitVec 32) :
    Nat → AkikoState → Except Fault AkikoState
  | 0, s => .ok s
  | n + 1, s => do
    let s ← lputs cfg env w n s
    akikoLput cfg (env n) s c2pAddr (w (Fin.ofNat 8 n))

/-- The first `n` of the reads, and what they returned. -/
def lgets (cfg : Config) (env : Nat → Nat → Env) :
    Nat → AkikoState → Except Fault (List (BitVec 32) × AkikoState)
  | 0, s => .ok ([], s)
  | n + 1, s => do
    let (vs, s) ← lgets cfg env n s
    let (v, s) ← akikoLget cfg (env n) s c2pAddr
    return (vs ++ [v], s)

variable {envs : Nat → Nat → Env} {w : Fin 8 → BitVec 32}

theorem lputs_spec (hcfg : cfg.csCd32c2p = true) (hstart : s.c2p.akikoWriteOffset = 0) {n : Nat}
    (hn : n ≤ 8) : ∃ s', lputs cfg envs w n s = .ok s' ∧ s'.c2p.akikoWriteOffset = n % 8 ∧
      (∀ j : Fin 8, (j : Nat) < n → s'.c2p.akikoBuffer j = w j) ∧
      (0 < n → s'.c2p.akikoReadOffset = -1) := by
  induction n with
  | zero =>
    exact ⟨s, rfl, hstart, fun j hj => absurd hj (Nat.not_lt_zero _),
      fun h => absurd h (Nat.lt_irrefl _)⟩
  | succ n ih =>
    obtain ⟨s', hrun, hwrite, hbuffer, -⟩ := ih (by omega)
    have hi : s'.c2p.akikoWriteOffset = (Fin.ofNat 8 n : Fin 8) := hwrite
    refine ⟨{ s' with c2p := { s'.c2p with
      akikoBuffer := Function.update s'.c2p.akikoBuffer (Fin.ofNat 8 n) (w (Fin.ofNat 8 n))
      akikoWriteOffset := ((Fin.ofNat 8 n : Fin 8) + 1) % 8
      akikoReadOffset := -1 } }, ?_, ?_, ?_, fun _ => rfl⟩
    · rw [lputs, hrun]
      change akikoLput cfg (envs n) s' c2pAddr _ = _
      rw [akikoLput_c2p hcfg, c2pLput_eq hi]
      rfl
    · change (n % 8 + 1) % 8 = (n + 1) % 8
      omega
    · intro j hj
      by_cases hjn : j = Fin.ofNat 8 n
      · rw [hjn]
        exact Function.update_self _ _ _
      · have hne : (j : Nat) ≠ n := fun h => hjn (Fin.ext (show (j : Nat) = n % 8 by omega))
        exact (Function.update_of_ne hjn _ _).trans (hbuffer j (by omega))

theorem lgets_spec (hcfg : cfg.csCd32c2p = true) (hread : s.c2p.akikoReadOffset = -1) {n : Nat}
    (hn : n ≤ 8) : ∃ s', lgets cfg envs n s =
        .ok ((List.range n).map fun k => planar s.c2p.akikoBuffer (Fin.ofNat 8 k), s') ∧
      s'.c2p.converted.akikoReadOffset = (n % 8 : Nat) ∧
      s'.c2p.converted.akikoResult = planar s.c2p.akikoBuffer := by
  induction n with
  | zero =>
    have hconv : s.c2p.converted = { akikoC2pDo s.c2p with akikoReadOffset := 0 } :=
      if_pos (by rw [hread]; decide)
    exact ⟨s, rfl, by rw [hconv]; rfl, by rw [hconv]; rfl⟩
  | succ n ih =>
    obtain ⟨s', hrun, hoffset, hresult⟩ := ih (by omega)
    have hi : s'.c2p.converted.akikoReadOffset = ((Fin.ofNat 8 n : Fin 8) : Nat) := hoffset
    let next : C2p := { s'.c2p.converted with
      akikoWriteOffset := 0
      akikoReadOffset := (((Fin.ofNat 8 n : Fin 8) : Nat) + 1) % 8 }
    have hnext : next.akikoReadOffset = ((n + 1) % 8 : Nat) := by
      change (((n % 8 : Nat) : Int) + 1) % 8 = _
      omega
    -- the next result is already there
    have hconv : next.converted = next := if_neg (by rw [hnext]; omega)
    refine ⟨{ s' with c2p := next }, ?_, by rw [hconv, hnext], by rw [hconv]; exact hresult⟩
    rw [lgets, hrun]
    change (akikoLget cfg (envs n) s' c2pAddr >>= _) = _
    rw [akikoLget_c2p hcfg, c2pLget_eq hi, hresult, List.range_succ, List.map_append]
    rfl

/-- Pixel `p` of the longwords, counted from the most significant byte of the first one. -/
def chunky (w : Fin 8 → BitVec 32) (p : Fin 32) : Byte :=
  byteAt (w (Fin.ofNat 8 (p / 4))) (8 * (3 - p % 4))

/-- A plane has a bit of every pixel, the first pixel in its most significant bit. -/
theorem planar_chunky (w : Fin 8 → BitVec 32) (k : Fin 8) (p : Fin 32) :
    (planar w k).getLsbD (31 - p) = (chunky w p).getLsbD k := by
  have hp := p.isLt
  have hk := k.isLt
  rw [getLsbD_planar w k (by omega), planeBit, chunky, byteAt, BitVec.getLsbD_setWidth,
    BitVec.getLsbD_ushiftRight]
  have hword : 7 - (31 - (p : Nat)) / 4 = p / 4 := by omega
  have hbit : (31 - (p : Nat)) % 4 = 3 - p % 4 := by omega
  rw [hword, hbit]
  simp [hk]

/-- A read takes the next write to the first longword. -/
theorem akikoBget2_writeOffset (hcfg : cfg.csCd32c2p = true) {e : Env} {offset : Nat}
    (h : offset < 4) {b : Byte} {s' : AkikoState}
    (hget : akikoBget2 cfg e s (0x38 + offset) = .ok (b, s')) : s'.c2p.akikoWriteOffset = 0 := by
  rw [akikoBget2_c2p hcfg e h] at hget
  cases hread : akikoC2pRead s.c2p offset with
  | error f =>
    rw [hread] at hget
    cases hget
  | ok r =>
    rw [hread] at hget
    obtain ⟨-, rfl⟩ := Prod.mk.inj (Except.ok.inj hget)
    rw [akikoC2pRead_converted] at hread
    by_cases hlt : s.c2p.converted.akikoReadOffset.toNat < 8
    · rw [dif_pos hlt] at hread
      obtain rfl := Except.ok.inj hread
      rfl
    · rw [dif_neg hlt] at hread
      cases hread

/-- The converter: the precalculated conversion is the one bit by bit, a read sets the write
offset back, and from there eight longwords written and eight read are the pixels transposed. -/
theorem akiko_chunkyToPlanar (cfg : Config) (hcfg : cfg.csCd32c2p = true) :
    (∀ buffer, planar buffer = referenceC2pDo buffer) ∧
    (∀ (s s' : AkikoState) (e : Env) (offset : Nat) (b : Byte), offset < 4 →
      akikoBget2 cfg e s (0x38 + offset) = .ok (b, s') → s'.c2p.akikoWriteOffset = 0) ∧
    ∀ (s : AkikoState) (envs envs' : Nat → Nat → Env) (w : Fin 8 → BitVec 32),
      s.c2p.akikoWriteOffset = 0 → ∃ s' s'' planes,
        lputs cfg envs w 8 s = .ok s' ∧ lgets cfg envs' 8 s' = .ok (planes, s'') ∧
        planes.length = 8 ∧ ∀ (k : Fin 8) (p : Fin 32), ∃ plane, planes[k.val]? = some plane ∧
          plane.getLsbD (31 - p) = (chunky w p).getLsbD k := by
  refine ⟨planar_eq_reference, fun s s' e offset b h hget => akikoBget2_writeOffset hcfg h hget,
    fun s envs envs' w hstart => ?_⟩
  obtain ⟨s', hputs, -, hbuffer, hread⟩ :=
    @lputs_spec cfg s envs w hcfg hstart 8 (Nat.le_refl 8)
  obtain ⟨s'', hgets, -, -⟩ :=
    @lgets_spec cfg s' envs' hcfg (hread (by decide)) 8 (Nat.le_refl 8)
  have hw : s'.c2p.akikoBuffer = w := funext fun j => hbuffer j j.isLt
  refine ⟨s', s'', _, hputs, hgets, by simp, fun k p => ⟨planar w k, ?_, planar_chunky w k p⟩⟩
  simp [hw]

/-- A machine with only the converter. -/
def converterOnly : Config := ⟨false, true⟩

theorem akiko_chunkyToPlanar_converterOnly : ∃ s' s'' planes,
    lputs converterOnly (fun _ _ => emptyDrive) (fun _ => 0x80000001#32) 8
        ⟨C2p.initial, Cd.initial⟩ = .ok s' ∧
      lgets converterOnly (fun _ _ => emptyDrive) 8 s' = .ok (planes, s'') ∧
      ∃ plane, planes[7]? = some plane ∧ plane.getLsbD 31 = true := by
  obtain ⟨s', s'', planes, hputs, hgets, -, hplanes⟩ :=
    (akiko_chunkyToPlanar converterOnly rfl).2.2 ⟨C2p.initial, Cd.initial⟩
      (fun _ _ => emptyDrive) (fun _ _ => emptyDrive) (fun _ => 0x80000001#32) rfl
  obtain ⟨plane, hplane, hbit⟩ := hplanes 7 0
  exact ⟨s', s'', planes, hputs, hgets, plane, hplane, hbit.trans (by decide)⟩

end LibretroUae.Akiko
