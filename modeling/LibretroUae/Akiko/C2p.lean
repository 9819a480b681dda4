import LibretroUae.Lib.Bytes
import Mathlib.Data.List.FinRange

/-!
# LibretroUae.Akiko.C2p

**The chunky-to-planar converter.** Eight longwords go into a buffer and eight come out
of it transposed. The result is computed by the first read after a write, which the read
offset `-1` stands for; an offset outside of the tables is a fault.
-/

namespace LibretroUae.Akiko

open Lib

inductive Fault
  | outsideResult
  | outsideBuffer
  | outsideCommand
  deriving DecidableEq, Repr

structure C2p where
  akikoBuffer : Fin 8 → BitVec 32
  akikoResult : Fin 8 → BitVec 32
  akikoReadOffset : Int
  akikoWriteOffset : Nat

/-- The converter before any access. -/
def C2p.initial : C2p := ⟨fun _ => 0, fun _ => 0, 0, 0⟩

def akikoPrecalcShift (i : Nat) : BitVec 32 := BitVec.twoPow 32 i

def akikoPrecalcBytenum (i j : Nat) : Nat := i / 8 + (7 - j) * 4

/-- Bit `i` of buffer longword `j` at its place in the result. -/
def planarBit (buffer : Fin 8 → BitVec 32) (i : Nat) (j : Fin 8) : BitVec 32 :=
  if buffer j &&& akikoPrecalcShift i ≠ 0 then BitVec.twoPow 32 (akikoPrecalcBytenum i j) else 0

/-- The result longword `i`. -/
def planar (buffer : Fin 8 → BitVec 32) (i : Fin 8) : BitVec 32 :=
  (List.range 4).foldl (fun r k =>
    (List.finRange 8).foldl (fun r j => r ||| planarBit buffer (i + 8 * k) j) r) 0

def akikoC2pDo (c : C2p) : C2p := { c with akikoResult := planar c.akikoBuffer }

def akikoC2pWrite (c : C2p) (offset : Nat) (v : Byte) : Except Fault C2p :=
  if h : c.akikoWriteOffset < 8 then
    let i : Fin 8 := ⟨c.akikoWriteOffset, h⟩
    let long := (if offset = 3 then 0 else c.akikoBuffer i) |||
      (v.setWidth 32 <<< (8 * (3 - offset)))
    .ok { c with
      akikoBuffer := Function.update c.akikoBuffer i long
      akikoWriteOffset := if offset = 0 then (c.akikoWriteOffset + 1) % 8 else c.akikoWriteOffset
      akikoReadOffset := -1 }
  else .error .outsideBuffer

def akikoC2pRead (c : C2p) (offset : Nat) : Except Fault (Byte × C2p) :=
  let c : C2p := if c.akikoReadOffset < 0 then { akikoC2pDo c with akikoReadOffset := 0 } else c
  let c : C2p := { c with akikoWriteOffset := 0 }
  if h : c.akikoReadOffset.toNat < 8 then
    .ok (((c.akikoResult ⟨c.akikoReadOffset.toNat, h⟩) >>> (8 * (3 - offset))).setWidth 8, c)
  else .error .outsideResult

/-- `check_read_c2p` for an address of the converter: the next result. -/
def checkReadC2p (c : C2p) : C2p := { c with akikoReadOffset := (c.akikoReadOffset + 1) % 8 }

/-! ### Accesses to longwords -/

/-- An access to the converter; the bytes of a longword are accessed from the last one on. -/
inductive C2pOp
  | lget
  | lput (v : BitVec 32)

def c2pLget (c : C2p) : Except Fault (BitVec 32 × C2p) := do
  let (b0, c) ← akikoC2pRead c 3
  let (b1, c) ← akikoC2pRead c 2
  let (b2, c) ← akikoC2pRead c 1
  let (b3, c) ← akikoC2pRead c 0
  return (word32 b3 b2 b1 b0, checkReadC2p c)

def c2pLput (c : C2p) (v : BitVec 32) : Except Fault C2p := do
  let c ← akikoC2pWrite c 3 (byteAt v 0)
  let c ← akikoC2pWrite c 2 (byteAt v 8)
  let c ← akikoC2pWrite c 1 (byteAt v 16)
  akikoC2pWrite c 0 (byteAt v 24)

/-- The values that a sequence of accesses reads. -/
def c2pRun : C2p → List C2pOp → Except Fault (List (BitVec 32))
  | _, [] => .ok []
  | c, .lget :: ops => do
    let (v, c) ← c2pLget c
    return v :: (← c2pRun c ops)
  | c, .lput v :: ops => do
    c2pRun (← c2pLput c v) ops

/-! ### The converter in its range -/

/-- The offsets are in their tables, and the result is that of the buffer unless a write
came after it. -/
structure C2p.Inv (c : C2p) : Prop where
  readOffset : -1 ≤ c.akikoReadOffset ∧ c.akikoReadOffset < 8
  writeOffset : c.akikoWriteOffset < 8
  result : 0 ≤ c.akikoReadOffset → c.akikoResult = planar c.akikoBuffer

variable {c c' : C2p}

theorem C2p.inv_initial : C2p.initial.Inv := by
  refine ⟨by decide, by decide, fun _ => funext fun i => ?_⟩
  have hbit : ∀ k j, planarBit (fun _ => 0#32) k j = 0#32 := fun k j => by simp [planarBit]
  change 0#32 = planar (fun _ => 0#32) i
  simp [planar, hbit, List.range_succ, List.finRange_succ]

theorem akikoC2pWrite_inv (hc : c.Inv) (offset : Nat) (v : Byte) :
    ∃ c', akikoC2pWrite c offset v = .ok c' ∧ c'.Inv ∧ c'.akikoReadOffset = -1 := by
  have hw := hc.writeOffset
  have hneg : ¬ (0 : Int) ≤ -1 := by decide
  rw [akikoC2pWrite, dif_pos hw]
  refine ⟨_, rfl, ⟨⟨Int.le_refl _, show (-1 : Int) < 8 by decide⟩, ?_, fun h => absurd h hneg⟩, rfl⟩
  dsimp only
  split_ifs <;> omega

theorem akikoC2pRead_inv (hc : c.Inv) (offset : Nat) :
    ∃ b c', akikoC2pRead c offset = .ok (b, c') ∧ c'.Inv ∧ 0 ≤ c'.akikoReadOffset := by
  obtain ⟨hlo, hhi⟩ := hc.readOffset
  rw [akikoC2pRead]
  by_cases hneg : c.akikoReadOffset < 0
  · simp only [if_pos hneg]
    refine ⟨_, _, dif_pos (show (0 : Int).toNat < 8 by decide), ⟨⟨show -1 ≤ (0 : Int) by decide,
      show (0 : Int) < 8 by decide⟩, Nat.zero_lt_succ _, fun _ => rfl⟩, Int.le_refl _⟩
  · simp only [if_neg hneg]
    exact ⟨_, _, dif_pos (show c.akikoReadOffset.toNat < 8 by omega),
      ⟨hc.readOffset, Nat.zero_lt_succ _, hc.result⟩, Int.not_lt.mp hneg⟩

theorem checkReadC2p_inv (hc : c.Inv) (hread : 0 ≤ c.akikoReadOffset) : (checkReadC2p c).Inv := by
  refine ⟨?_, hc.writeOffset, fun _ => hc.result hread⟩
  rw [checkReadC2p]
  dsimp only
  omega

theorem c2pLget_inv (hc : c.Inv) : ∃ v c', c2pLget c = .ok (v, c') ∧ c'.Inv := by
  obtain ⟨b0, c0, h0, hc0, -⟩ := akikoC2pRead_inv hc 3
  obtain ⟨b1, c1, h1, hc1, -⟩ := akikoC2pRead_inv hc0 2
  obtain ⟨b2, c2, h2, hc2, -⟩ := akikoC2pRead_inv hc1 1
  obtain ⟨b3, c3, h3, hc3, hread⟩ := akikoC2pRead_inv hc2 0
  refine ⟨word32 b3 b2 b1 b0, checkReadC2p c3, ?_, checkReadC2p_inv hc3 hread⟩
  rw [c2pLget, h0]
  change (akikoC2pRead c0 2 >>= _) = _
  rw [h1]
  change (akikoC2pRead c1 1 >>= _) = _
  rw [h2]
  change (akikoC2pRead c2 0 >>= _) = _
  rw [h3]
  rfl

theorem c2pLput_inv (hc : c.Inv) (v : BitVec 32) : ∃ c', c2pLput c v = .ok c' ∧ c'.Inv := by
  obtain ⟨c0, h0, hc0, -⟩ := akikoC2pWrite_inv hc 3 (byteAt v 0)
  obtain ⟨c1, h1, hc1, -⟩ := akikoC2pWrite_inv hc0 2 (byteAt v 8)
  obtain ⟨c2, h2, hc2, -⟩ := akikoC2pWrite_inv hc1 1 (byteAt v 16)
  obtain ⟨c3, h3, hc3, -⟩ := akikoC2pWrite_inv hc2 0 (byteAt v 24)
  refine ⟨c3, ?_, hc3⟩
  rw [c2pLput, h0]
  change (akikoC2pWrite c0 2 (byteAt v 8) >>= _) = _
  rw [h1]
  change (akikoC2pWrite c1 1 (byteAt v 16) >>= _) = _
  rw [h2]
  exact h3

/-- No sequence of accesses leaves the tables. -/
theorem c2pRun_ok (ops : List C2pOp) (hc : c.Inv) : ∃ vs, c2pRun c ops = .ok vs := by
  induction ops generalizing c with
  | nil => exact ⟨[], rfl⟩
  | cons op ops ih =>
    cases op with
    | lget =>
      obtain ⟨v, c', hget, hc'⟩ := c2pLget_inv hc
      obtain ⟨vs, hrun⟩ := ih hc'
      refine ⟨v :: vs, ?_⟩
      rw [c2pRun, hget]
      change (c2pRun c' ops >>= _) = _
      rw [hrun]
      rfl
    | lput v =>
      obtain ⟨c', hput, hc'⟩ := c2pLput_inv hc v
      obtain ⟨vs, hrun⟩ := ih hc'
      exact ⟨vs, by rw [c2pRun, hput]; exact hrun⟩

end LibretroUae.Akiko
