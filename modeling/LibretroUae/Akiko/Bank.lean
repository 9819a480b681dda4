import LibretroUae.Akiko.Drive
import LibretroUae.Lib.Machine

/-!
# LibretroUae.Akiko.Bank

**The registers of Akiko and its runs.** Words and longwords are accessed byte by byte
from the last one on. Every access to a register of the drive lets the firmware go on. The
NVRAM is left out: its registers have no effect here.
-/

namespace LibretroUae.Akiko

open Lib Lib.Image

/-- Which parts of Akiko a machine has. -/
structure Config where
  csCd32cd : Bool
  csCd32c2p : Bool

structure AkikoState where
  c2p : C2p
  cd : Cd

/-! ### Registers of the drive -/

/-- `akiko_get_long`. -/
def akikoGetLong (v : BitVec 32) (offset : Nat) : Byte := byteAt v ((3 - offset) * 8)

/-- `akiko_put_long`. -/
def akikoPutLong (p : BitVec 32) (offset : Nat) (v : Byte) : BitVec 32 :=
  (p &&& ~~~ ((0xff : BitVec 32) <<< ((3 - offset) * 8))) ||| (v.setWidth 32 <<< ((3 - offset) * 8))

/-- A read of the register that takes the bytes of the response. -/
def receiveByte (cd : Cd) : Cd :=
  if flagSet cd.cdromFlags cdflagRxd = false ∧ cd.cdromReceiveOffset < cd.cdromReceiveLength then
    let cd := nextByte cd
    if cd.cdromReceiveOffset = cd.cdromReceiveLength then
      setStatus { clearStatus cd cdinterruptDriverecv with cdromReceiveLength := 0 }
        cdinterruptDrivexmit
    else cd
  else clearStatus cd cdinterruptDriverecv

/-- The value of a register of the drive and what reading it does. -/
def cdGet (cd : Cd) (addr : Nat) : Byte × Cd :=
  if 0x04 ≤ addr ∧ addr ≤ 0x07 then (akikoGetLong cd.cdromIntreq (addr - 0x04), cd)
  else if 0x08 ≤ addr ∧ addr ≤ 0x0b then (akikoGetLong cd.cdromIntena (addr - 0x08), cd)
  else if 0x0c ≤ addr ∧ addr ≤ 0x0f then (akikoGetLong cd.cdromIntena (addr - 0x0c), cd)
  else if addr = 0x18 ∨ addr = 0x10 ∨ addr = 0x14 ∨ addr = 0x1c then (cd.cdromSubcodeoffset, cd)
  else if addr = 0x19 ∨ addr = 0x11 ∨ addr = 0x15 ∨ addr = 0x1d then (cd.cdcomtxinx, cd)
  else if addr = 0x1a ∨ addr = 0x12 ∨ addr = 0x16 ∨ addr = 0x1e then (cd.cdcomrxinx, cd)
  else if addr = 0x1b ∨ addr = 0x13 ∨ addr = 0x17 ∨ addr = 0x1f then (0, cd)
  else if addr = 0x20 ∨ addr = 0x21 then (akikoGetLong cd.cdromPbx (addr - 0x20 + 2), cd)
  else if 0x24 ≤ addr ∧ addr ≤ 0x27 then (akikoGetLong cd.cdromFlags (addr - 0x24), cd)
  else if addr = 0x28 then ((receiveByte cd).cdromLastRx, receiveByte cd)
  else (0, cd)

/-- What a program reads of the response. -/
def noteRead (addr : Nat) (v : Byte) (cd : Cd) : Cd :=
  if addr = 0x28 then { cd with log := cd.log ++ [.read (flagSet cd.cdromFlags cdflagRxd) v] }
  else cd

/-- The drive takes more bytes. -/
def noteMore (cd : Cd) : Cd :=
  if canSendCommand cd then setStatus cd cdinterruptDrivexmit else cd

/-- A command byte comes through the register. -/
def sendByte (cd : Cd) (v : Byte) : Except Fault Cd :=
  if flagSet cd.cdromFlags cdflagTxd = false then
    let cd := clearStatus cd cdinterruptDrivexmit
    if canSendCommand cd then (cdromAddCommandByte cd v).map noteMore
    else .ok cd
  else .ok cd

/-- The slots for sectors, and their register. -/
def putPbx (cd : Cd) (addr : Nat) (v : Byte) : Cd :=
  let pbx := (akikoPutLong cd.cdromPbx (addr - 0x20 + 2) v ||| cd.cdromPbx) &&& 0xffff
  clearStatus { cd with cdromPbx := if flagSet cd.cdromFlags cdflagPbx then pbx else 0 }
    cdinterruptPbx

/-- Data transfers are enabled. -/
def noteEnable (flags : BitVec 32) (cd : Cd) : Cd :=
  if flagSet flags cdflagEnable && !flagSet cd.cdromFlags cdflagEnable then
    clearStatus cd cdinterruptOverflow
  else cd

def storeFlags (flags : BitVec 32) (cd : Cd) : Cd :=
  { cd with
    cdromPbx := if flagSet flags cdflagPbx then cd.cdromPbx else 0
    cdromFlags := flags &&& 0xff800000 }

def putFlags (cd : Cd) (addr : Nat) (v : Byte) : Cd :=
  let flags := akikoPutLong cd.cdromFlags (addr - 0x24) v
  storeFlags flags (noteEnable flags cd)

/-- What writing a register of the drive does. -/
def cdPut (cd : Cd) (addr : Nat) (v : Byte) : Except Fault Cd :=
  if 0x08 ≤ addr ∧ addr ≤ 0x0b then
    .ok { cd with cdromIntena := akikoPutLong cd.cdromIntena (addr - 0x08) v &&& 0xff000000 }
  else if 0x10 ≤ addr ∧ addr ≤ 0x13 then
    .ok { cd with cdromAddressdata :=
      akikoPutLong cd.cdromAddressdata (addr - 0x10) v &&& 0x00fff000 }
  else if 0x14 ≤ addr ∧ addr ≤ 0x17 then
    .ok { cd with cdromAddressmisc :=
      akikoPutLong cd.cdromAddressmisc (addr - 0x14) v &&& 0x00fffc00 }
  else if addr = 0x18 then .ok (clearStatus cd cdinterruptSubcode)
  else if addr = 0x1d then
    .ok (clearStatus { cd with cdcomtxcmp := v, cdromTxDmaDelay := 3 } cdinterruptTxdmadone)
  else if addr = 0x1f then
    .ok (clearStatus { cd with cdcomrxcmp := v, cdromRxDmaDelay := 3 } cdinterruptRxdmadone)
  else if addr = 0x20 ∨ addr = 0x21 then .ok (putPbx cd addr v)
  else if 0x24 ≤ addr ∧ addr ≤ 0x27 then .ok (putFlags cd addr v)
  else if addr = 0x28 then sendByte cd v
  else .ok cd

/-! ### Accesses -/

/-- "C0CACAFE", the identification. -/
def identification (addr : Nat) : Byte :=
  if addr = 0 then 0xC0 else if addr = 3 then 0xFE else 0xCA

def akikoBget2 (cfg : Config) (env : Env) (s : AkikoState) (addr : Nat) : Except Fault (Byte × AkikoState) :=
  let addr := addr % 0x40
  if addr < 4 then .ok (identification addr, s)
  else if 0x30 ≤ addr ∧ addr ≤ 0x33 then .ok (0, s)
  else if 0x38 ≤ addr ∧ addr ≤ 0x3b then
    if cfg.csCd32c2p then
      (akikoC2pRead s.c2p (addr - 0x38)).map fun r => (r.1, { s with c2p := r.2 })
    else .ok (0, s)
  else if cfg.csCd32cd = false then .ok (0, s)
  else
    let (v, cd) := cdGet s.cd addr
    (akikoInternal env (noteRead addr v cd)).map fun cd => (v, { s with cd })

def akikoBput2 (cfg : Config) (env : Env) (s : AkikoState) (addr : Nat) (v : Byte) :
    Except Fault AkikoState :=
  let addr := addr % 0x40
  if 0x30 ≤ addr ∧ addr ≤ 0x33 then .ok s
  else if 0x38 ≤ addr ∧ addr ≤ 0x3b then
    if cfg.csCd32c2p then (akikoC2pWrite s.c2p (addr - 0x38) v).map fun c2p => { s with c2p }
    else .ok s
  else if cfg.csCd32cd = false then .ok s
  else do
    let cd ← cdPut s.cd addr v
    let cd ← akikoInternal env cd
    return { s with cd }

/-- Reads the `n` bytes at `addr`, each with what it finds around. -/
def getBytes (cfg : Config) : List Env → AkikoState → Nat → Except Fault AkikoState
  | [], s, _ => .ok s
  | env :: envs, s, addr => do
    let (_, s) ← akikoBget2 cfg env s (addr + envs.length)
    getBytes cfg envs s addr

/-- Writes bytes at `addr`, the last one first. -/
def putBytes (cfg : Config) : List (Env × Byte) → AkikoState → Nat → Except Fault AkikoState
  | [], s, _ => .ok s
  | (env, v) :: rest, s, addr => do
    let s ← akikoBput2 cfg env s (addr + rest.length) v
    putBytes cfg rest s addr

/-- Is `addr` one of the converter for `check_read_c2p`. -/
def isC2p (addr : Nat) : Prop := 0x38 ≤ addr ∧ addr < 0x3c

instance (addr : Nat) : Decidable (isC2p addr) := inferInstanceAs (Decidable (_ ∧ _))

/-! ### Runs -/

/-- What happens to Akiko. The buffering thread changes some variables at any time. -/
inductive Input
  | get (addr : Nat) (env : Env) (envs : List Env)
  | put (addr : Nat) (bytes : List (Env × Byte))
  | hsync (env : Env)
  | reset
  | thread (disk playing audiotimeout : Int) (mediachanged : Bool)

def akikoReset (s : AkikoState) : AkikoState := { s with cd := cdReset s.cd }

def step (cfg : Config) (s : AkikoState) : Input → Except Fault AkikoState
  | .get addr env envs => do
    let s ← getBytes cfg (env :: envs) s addr
    return if isC2p addr then { s with c2p := checkReadC2p s.c2p } else s
  | .put addr bytes => putBytes cfg bytes s addr
  | .hsync env =>
    if cfg.csCd32cd then (akikoHsyncHandler env s.cd).map fun cd => { s with cd } else .ok s
  | .reset => .ok (akikoReset s)
  | .thread cdromDisk cdromPlaying cdromAudiotimeout mediachanged =>
    .ok { s with cd := { s.cd with cdromDisk, cdromPlaying, cdromAudiotimeout, mediachanged } }

/-- The drive when the emulator starts. -/
def Cd.initial : Cd where
  cdromIntreq := 0
  cdromIntena := 0
  cdromSubcodeoffset := 0
  cdromAddressdata := 0
  cdromAddressmisc := 0
  cdromFlags := 0
  cdromPbx := 0
  cdcomtxinx := 0
  cdcomrxinx := 0
  cdcomtxcmp := 0
  cdcomrxcmp := 0
  cdromResultBuffer := fun _ => 0
  cdromCommandBuffer := fun _ => 0
  cdromCommand := 0
  cdromLastRx := 0
  cdromTocCounter := 0
  tocPoints := 0
  tocBuffer := fun _ => 0
  cdromDisk := 0
  cdromPaused := 0
  cdromPlaying := 0
  cdromCommandActive := 0
  cdromCommandLength := 0
  cdromChecksumError := false
  cdromUnknownCommand := false
  cdromAudiotimeout := 0
  ledActive := false
  cdromReceiveLength := 0
  cdromReceiveOffset := 0
  cdInitialized := 0
  cdromTxDmaDelay := 0
  cdromRxDmaDelay := 0
  mediachanged := false
  log := []

/-- Akiko after `akiko_init` and the first reset. -/
def AkikoState.initial : AkikoState := akikoReset ⟨C2p.initial, Cd.initial⟩

end LibretroUae.Akiko
