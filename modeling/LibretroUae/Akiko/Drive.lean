import LibretroUae.Akiko.C2p
import LibretroUae.Lib.Image
import Mathlib.Data.BitVec

/-!
# LibretroUae.Akiko.Drive

**The CD-ROM firmware behind Akiko.** Command bytes come one by one, by DMA from memory or
through a register; a complete command is run at once and leaves a response, which goes
out by DMA or through the same register. Some responses are not asked for.

What the drive, its disc and the memory hold is the environment of a step. A log of what
passed the ports since the last reset is kept beside the state; nothing reads it: the bytes
written to memory and the values that programs read are in it as they come out.
-/

namespace LibretroUae.Akiko

open Lib Lib.Image

/-! ### The state -/

/-- What passes the ports. -/
inductive Event
  /-- A command byte was taken. -/
  | accept (b : Byte)
  /-- These bytes were taken for a command. -/
  | dispatch (bytes : List Byte)
  /-- A response was started. -/
  | respond (bytes : List Byte)
  /-- A byte was put to memory. -/
  | write (addr : Nat) (b : Byte)
  /-- The register of the response was read, while responses went by DMA or not. -/
  | read (rxd : Bool) (v : Byte)
  deriving DecidableEq, Repr

structure Cd where
  cdromIntreq : BitVec 32
  cdromIntena : BitVec 32
  cdromSubcodeoffset : Byte
  cdromAddressdata : BitVec 32
  cdromAddressmisc : BitVec 32
  cdromFlags : BitVec 32
  cdromPbx : BitVec 32
  cdcomtxinx : Byte
  cdcomrxinx : Byte
  cdcomtxcmp : Byte
  cdcomrxcmp : Byte
  cdromResultBuffer : Image
  cdromCommandBuffer : Image
  cdromCommand : Byte
  cdromLastRx : Byte
  cdromTocCounter : Int
  /-- The number of entries of the table of contents, and the entries of 13 bytes. -/
  tocPoints : Nat
  tocBuffer : Image
  cdromDisk : Int
  cdromPaused : Int
  cdromPlaying : Int
  cdromCommandActive : Nat
  cdromCommandLength : Nat
  cdromChecksumError : Bool
  cdromUnknownCommand : Bool
  cdromAudiotimeout : Int
  ledActive : Bool
  cdromReceiveLength : Nat
  cdromReceiveOffset : Nat
  cdInitialized : Nat
  cdromTxDmaDelay : Nat
  cdromRxDmaDelay : Nat
  mediachanged : Bool
  log : List Event

/-- What a step finds outside of Akiko. -/
structure Env where
  /-- Is there a drive, and a disc in it? -/
  unit : Bool
  ismedia : Bool
  /-- The table of contents, if it can be read. -/
  toc : Option (Nat × Image)
  /-- The bytes that `cd_qcode` stores. -/
  qcode : Fin 11 → Byte
  playStarts : Bool
  memory : Nat → Byte
  /-- Has the next data sector been buffered, and subchannel data? -/
  sectorReady : Bool
  subcodeReady : Bool
  framesync : Bool

def cdinterruptSubcode : BitVec 32 := 0x80000000
def cdinterruptDrivexmit : BitVec 32 := 0x40000000
def cdinterruptDriverecv : BitVec 32 := 0x20000000
def cdinterruptRxdmadone : BitVec 32 := 0x10000000
def cdinterruptTxdmadone : BitVec 32 := 0x08000000
def cdinterruptPbx : BitVec 32 := 0x04000000
def cdinterruptOverflow : BitVec 32 := 0x02000000

def cdflagSubcode : BitVec 32 := 0x80000000
def cdflagTxd : BitVec 32 := 0x40000000
def cdflagRxd : BitVec 32 := 0x20000000
def cdflagPbx : BitVec 32 := 0x08000000
def cdflagEnable : BitVec 32 := 0x04000000

def flagSet (v flag : BitVec 32) : Bool := v &&& flag ≠ 0

/-- `cdrom_door`: always closed. -/
def cdromDoor : Byte := 1

def setStatus (cd : Cd) (status : BitVec 32) : Cd :=
  { cd with cdromIntreq := cd.cdromIntreq ||| status }

def clearStatus (cd : Cd) (status : BitVec 32) : Cd :=
  { cd with cdromIntreq := cd.cdromIntreq &&& ~~~ status }

/-- Bytes of the response. -/
def putResults (cd : Cd) (i : Nat) (bytes : List Byte) : Cd :=
  { cd with cdromResultBuffer := cd.cdromResultBuffer.blit i bytes }

/-- A byte of the response. -/
def putResult (cd : Cd) (i : Nat) (b : Byte) : Cd := putResults cd i [b]

def setTocCounter (cd : Cd) (v : Int) : Cd := { cd with cdromTocCounter := v }
def setPaused (cd : Cd) (v : Int) : Cd := { cd with cdromPaused := v }
def setPlaying (cd : Cd) (v : Int) : Cd := { cd with cdromPlaying := v }
def setAudiotimeout (cd : Cd) (v : Int) : Cd := { cd with cdromAudiotimeout := v }
def setInitialized (cd : Cd) (v : Nat) : Cd := { cd with cdInitialized := v }

/-! ### Responses -/

def cdromCanReturnData (cd : Cd) : Bool := !decide (0 < cd.cdromReceiveLength)

/-- What the bytes of a response lack to `0xff`. -/
def checksumOf (bytes : List Byte) : Byte := bytes.foldl (· - ·) 0xff

def cdromStartReturnData (cd : Cd) (len : Nat) : Cd :=
  if cdromCanReturnData cd = false then cd
  else if len = 0 then cd
  else
    let checksum := checksumOf (cd.cdromResultBuffer.slice 0 len)
    let result := cd.cdromResultBuffer.blit len [checksum]
    setStatus { cd with
      cdromResultBuffer := result
      cdromReceiveLength := len + 1
      cdromReceiveOffset := 0
      log := cd.log ++ [.respond (result.slice 0 (len + 1))] } cdinterruptDriverecv

/-- The next byte of the response. -/
def nextByte (cd : Cd) : Cd :=
  { cd with
    cdromLastRx := cd.cdromResultBuffer cd.cdromReceiveOffset
    cdromReceiveOffset := cd.cdromReceiveOffset + 1 }

/-- `cdrx_address`. -/
def cdrxAddress (cd : Cd) : Nat := cd.cdromAddressmisc.toNat

/-- `put_byte` of the last byte of the response to its place in memory. -/
def putReceived (cd : Cd) : Cd :=
  { cd with
    cdcomrxinx := cd.cdcomrxinx + 1
    log := cd.log ++ [.write (cdrxAddress cd + cd.cdcomrxinx.toNat) cd.cdromLastRx] }

/-- The loop of `cdrom_return_data`; the first number is that of the bytes left. -/
def returnLoop : Nat → Cd → Cd
  | 0, cd => cd
  | n + 1, cd =>
    let cd := putReceived (nextByte cd)
    if cd.cdcomrxinx = cd.cdcomrxcmp then setStatus cd cdinterruptRxdmadone
    else returnLoop n cd

def cdromReturnData (cd : Cd) : Cd :=
  if cd.cdromReceiveLength = 0 then cd
  else if flagSet cd.cdromFlags cdflagRxd = false then cd
  else if cd.cdcomrxinx = cd.cdcomrxcmp then cd
  else if cd.cdromRxDmaDelay > 0 then cd
  else
    let cd := returnLoop (cd.cdromReceiveLength - cd.cdromReceiveOffset) cd
    if cd.cdromReceiveOffset = cd.cdromReceiveLength then
      setStatus (clearStatus { cd with cdromReceiveLength := 0, cdromReceiveOffset := 0 }
        cdinterruptDriverecv) cdinterruptDrivexmit
    else cd

/-! ### Commands -/

/-- A command leaves the length of its response without the checksum. -/
abbrev Handler := Cd → Nat × Cd

def frombcd (v : Byte) : Nat := v.toNat / 16 * 10 + v.toNat % 16

def tobcd (v : Nat) : Byte := .ofNat 8 (v % 256 / 10 * 16 + v % 256 % 10)

/-- `msf2lsn (fromlongbcd (p))`. -/
def lsnAt (p : Image) (i : Nat) : Int :=
  (frombcd (p i) * 60 * 75 + frombcd (p (i + 1)) * 75 + frombcd (p (i + 2)) : Nat) - 150

def checkerr (cd : Cd) : Option Cd :=
  if cd.cdromDisk = 0 then some (putResult cd 1 (0xf8 ||| cdromDoor)) else none

def getCdromToc (env : Env) (cd : Cd) : Cd :=
  match env.toc with
  | none => setTocCounter cd (-1)
  | some (points, buffer) =>
    { cd with cdromTocCounter := -1, tocPoints := points, tocBuffer := buffer }

def cdaudiostop (cd : Cd) : Cd :=
  { cd with cdromAudiotimeout := 0, cdromPaused := 0, cdromPlaying := 0 }

/-- The answer that tells whether audio is played. -/
def playingStatus (cd : Cd) : Cd :=
  putResult cd 1 ((if cd.cdromPlaying ≠ 0 then 0x08 else 0) ||| cdromDoor)

def cdromCommandStop : Handler := fun cd =>
  let cd := putResult (setAudiotimeout cd 0) 0 cd.cdromCommand
  match checkerr cd with
  | some cd => (2, cd)
  | none => (2, cdaudiostop (putResult cd 1 0))

def cdromCommandPause : Handler := fun cd =>
  let cd := putResult (setTocCounter (setAudiotimeout cd 0) (-1)) 0 cd.cdromCommand
  match checkerr cd with
  | some cd => (2, cd)
  | none => (2, setPaused (playingStatus cd) (if cd.cdromPaused ≠ 0 then cd.cdromPaused else 1))

def cdromCommandUnpause : Handler := fun cd =>
  let cd := putResult cd 0 cd.cdromCommand
  match checkerr cd with
  | some cd => (2, cd)
  | none => (2, setPaused (playingStatus cd) 0)

/-- Audio starts, or an error is to be reported. -/
def startPlaying (env : Env) (cd : Cd) : Cd :=
  setAudiotimeout (setPlaying (setTocCounter cd (-1)) 1) (if env.playStarts then 10 else -3)

def cdromCommandMulti (env : Env) : Handler := fun cd =>
  let seekpos := lsnAt cd.cdromCommandBuffer 1
  let cd := setPaused (if cd.cdromPlaying ≠ 0 then cdaudiostop cd else cd) 0
  let cd := putResult (putResult cd 0 cd.cdromCommand) 1 0
  if cd.cdromDisk = 0 then (2, putResult cd 1 1)
  else if cd.cdromCommandBuffer 7 &&& 0x80 ≠ 0 then (2, putResult cd 1 0x02)
  else if seekpos < 0 then (2, setTocCounter cd 0)
  else (2, putResult (startPlaying env cd) 1 0x42)

def cdromCommandLed : Handler := fun cd =>
  let v := cd.cdromCommandBuffer 1
  let cd : Cd := { cd with ledActive := decide (v &&& 1 ≠ 0) }
  if v &&& 0x80 ≠ 0 then (2, putResult (putResult cd 0 cd.cdromCommand) 1 (v &&& 1))
  else (0, cd)

def cdromCommandSubq (env : Env) : Handler := fun cd =>
  (15, putResults (putResult (putResult cd 0 cd.cdromCommand) 1 0) 2 (List.ofFn env.qcode))

/-- "CHINON  O-658-2 24" with its end. -/
def firmwareversion : List Byte :=
  [0x43, 0x48, 0x49, 0x4e, 0x4f, 0x4e, 0x20, 0x20, 0x4f, 0x2d, 0x36, 0x35, 0x38, 0x2d, 0x32,
   0x20, 0x32, 0x34, 0]

def cdromCommandStatus (env : Env) : Handler := fun cd =>
  let cd := putResult cd 1 cdromDoor
  let cd := if env.unit then getCdromToc env cd else cd
  (20, setInitialized (putResult (putResults cd 2 firmwareversion) 0 cd.cdromCommand) 2)

def cdromCommandMediaStatus (env : Env) : Handler := fun cd =>
  (2, putResult (putResult cd 0 0x0a) 1 (if env.ismedia then 0x01 else 0x00))

def cdromPlayendNotify (status : Int) : Handler := fun cd =>
  let b : Byte := if status < 0 then 0x80 else if status = 0 then 0x08 ||| 2 else 0
  (2, putResult (putResult cd 0 4) 1 (b ||| cdromDoor))

def tocRepeat : Nat := 3

/-- The entry whose turn it is, and the place on the disc. -/
def putTocEntry (cd : Cd) : Cd :=
  let counter := cd.cdromTocCounter.toNat
  let cd := putResults cd 2 (cd.tocBuffer.slice (counter / tocRepeat * 13) 13)
  putResult (putResult (putResult cd 6 (tobcd 99)) 7 (tobcd (24 + counter / 75))) 8
    (tobcd (counter % 75))

/-- The counter after an entry. -/
def nextTocCounter (cd : Cd) : Int :=
  let next := cd.cdromTocCounter.toNat + 1
  if next / tocRepeat ≥ cd.tocPoints then -1 else next

def cdromReturnTocEntry : Handler := fun cd =>
  if cd.tocPoints = 0 then (15, putResult (putResult cd 0 6) 1 (0x80 ||| cdromDoor))
  else (15, setTocCounter (putTocEntry (putResult (putResult cd 0 6) 1 0x0a)) (nextTocCounter cd))

/-- The lengths of the commands without checksum; `none` is an unknown one. -/
def commandLengths (b : Byte) : Option Nat :=
  ([1, 2, 1, 1, 12, 2, 1, 1, 4, 1, 2] : List Nat)[b.toNat % 16]?

def cdromAddCommandByte (cd : Cd) (b : Byte) : Except Fault Cd :=
  if 32 ≤ cd.cdromCommandLength then .error .outsideCommand
  else
    let buffer := cd.cdromCommandBuffer.blit cd.cdromCommandLength [b]
    let length := cd.cdromCommandLength + 1
    let cd : Cd := { cd with
      cdromCommandBuffer := buffer
      cdromCommandLength := length
      cdromCommand := buffer 0
      cdromChecksumError := false
      cdromUnknownCommand := false
      log := cd.log ++ [.accept b] }
    match commandLengths (buffer 0) with
    | none =>
      .ok { cd with
        cdromUnknownCommand := true
        cdromCommandActive := 1
        log := cd.log ++ [.dispatch (buffer.slice 0 length)] }
    | some cmdLen =>
      if cmdLen + 1 > length then .ok cd
      else
        .ok { cd with
          cdromChecksumError := decide ((buffer.slice 0 (cmdLen + 1)).sum ≠ 0xff)
          cdromCommandActive := 1
          cdromCommandLength := cmdLen
          log := cd.log ++ [.dispatch (buffer.slice 0 length)] }

def canSendCommand (cd : Cd) : Bool :=
  cd.cdInitialized ≠ 0 && cd.cdromCommandActive = 0 && cd.cdromReceiveLength = 0

/-- The byte came by DMA. -/
def countTxByte (cd : Cd) : Cd :=
  let cd : Cd := { cd with cdcomtxinx := cd.cdcomtxinx + 1 }
  if cd.cdcomtxinx = cd.cdcomtxcmp then setStatus cd cdinterruptTxdmadone else cd

/-- `cdtx_address`. -/
def cdtxAddress (cd : Cd) : Nat := (cd.cdromAddressmisc ||| 0x200).toNat

def cdromRunCommand (env : Env) (cd : Cd) : Except Fault Cd :=
  if flagSet cd.cdromFlags cdflagTxd = false then .ok cd
  else if flagSet cd.cdromFlags cdflagEnable then .ok cd
  else if cd.cdcomtxinx = cd.cdcomtxcmp then .ok cd
  else if cd.cdromTxDmaDelay > 0 then .ok cd
  else if canSendCommand cd = false then .ok cd
  else
    (cdromAddCommandByte cd (env.memory (cdtxAddress cd + cd.cdcomtxinx.toNat))).map countTxByte

/-- The command of a number. -/
def commandHandler (env : Env) (command : Byte) : Handler :=
  match command.toNat % 16 with
  | 0 => fun cd => (1, putResult cd 0 cd.cdromCommand)
  | 1 => cdromCommandStop
  | 2 => cdromCommandPause
  | 3 => cdromCommandUnpause
  | 4 => cdromCommandMulti env
  | 5 => cdromCommandLed
  | 6 => cdromCommandSubq env
  | 7 => cdromCommandStatus env
  | _ => fun cd => (0, cd)

/-- The response to a command that is not one. -/
def commandError : Handler := fun cd =>
  let b : Byte := if cd.cdromChecksumError then 0x88 else 0x80
  (2, putResult (putResult cd 0 ((cd.cdromCommand &&& 0xf0) ||| 5)) 1 (b ||| cdromDoor))

def cdromRunCommandRun (env : Env) (cd : Cd) : Cd :=
  let cd : Cd := { cd with
    cdromCommandLength := 0
    cdromCommandActive := 0
    cdromResultBuffer := cd.cdromResultBuffer.blit 0 (List.replicate 32 0) }
  if cd.cdromChecksumError || cd.cdromUnknownCommand then
    let (len, cd) := commandError cd
    cdromStartReturnData cd len
  else
    let (len, cd) := commandHandler env cd.cdromCommand cd
    if len = 0 then setStatus cd cdinterruptDrivexmit else cdromStartReturnData cd len

/-- A command that is complete is run when its time has come. -/
def runActive (env : Env) (cd : Cd) : Cd :=
  if cd.cdromCommandActive > 0 then
    let cd : Cd := { cd with cdromCommandActive := cd.cdromCommandActive - 1 }
    if cd.cdromCommandActive = 0 then cdromRunCommandRun env cd else cd
  else cd

def akikoInternal (env : Env) (cd : Cd) : Except Fault Cd :=
  (cdromRunCommand env (cdromReturnData cd)).map (runActive env)

/-! ### The handler -/

/-- A response that was not asked for. -/
def notify (handler : Handler) (cd : Cd) : Cd :=
  let (len, cd) := handler cd
  cdromStartReturnData cd len

def countAudiotimeout (cd : Cd) : Cd :=
  if cd.cdromAudiotimeout > 1 then setAudiotimeout cd (cd.cdromAudiotimeout - 1) else cd

def notifyPlayStart (cd : Cd) : Cd :=
  if cd.cdromPlaying = 1 then notify (cdromPlayendNotify 0) cd else cd

/-- Play start. -/
def audioStarts (cd : Cd) : Cd :=
  if cd.cdromAudiotimeout = 1 ∧ cdromCanReturnData cd = true then
    let cd := notifyPlayStart (if cd.cdromPlaying = 0 then setPlaying cd 1 else cd)
    setAudiotimeout (setPlaying cd 2) 0
  else cd

/-- Play finished, or end of the disc. -/
def audioEnds (cd : Cd) : Cd :=
  if cd.cdromAudiotimeout = -1 then
    if cd.cdromPlaying ≠ 0 then setAudiotimeout (cdaudiostop cd) (-2) else setAudiotimeout cd 0
  else cd

/-- A notification that waits for the timeout to be `at'`. -/
def audioNotify (at' status : Int) (cd : Cd) : Cd :=
  if cd.cdromAudiotimeout = at' ∧ cdromCanReturnData cd = true then
    setAudiotimeout (notify (cdromPlayendNotify status) cd) 0
  else cd

/-- The part of `akiko_handler` for audio that starts or ends. -/
def audioHandler (cd : Cd) : Cd :=
  audioNotify (-3) (-1) (audioNotify (-2) 1 (audioEnds (audioStarts (countAudiotimeout cd))))

/-- The notification of another disc. -/
def mediaHandler (env : Env) (cd : Cd) : Cd :=
  if cdromCanReturnData cd then
    getCdromToc env { notify (cdromCommandMediaStatus env) cd with mediachanged := false }
  else cd

/-- One entry of the table of contents a frame. -/
def tocHandler (env : Env) (cd : Cd) : Cd :=
  if 0 ≤ cd.cdromTocCounter ∧ cd.cdromCommandActive = 0 ∧ env.framesync = true ∧
      cdromCanReturnData cd = true then
    notify cdromReturnTocEntry cd
  else cd

def akikoHandler (env : Env) (cd : Cd) : Cd :=
  if env.unit = false then cd
  else if cd.cdromReceiveLength ≠ 0 then cd
  else if cd.cdInitialized = 0 then
    setInitialized (if env.ismedia then notify (cdromCommandMediaStatus env) cd else cd) 1
  else if cd.cdInitialized < 2 then cd
  else if cd.mediachanged then mediaHandler env cd
  else tocHandler env (audioHandler cd)

/-! ### Sectors and subcodes -/

/-- The next half of the subcode buffer. -/
def nextSubcode (cd : Cd) : Cd :=
  let offset : Byte := if cd.cdromSubcodeoffset.toNat ≥ 128 then 0 else 128
  setStatus { cd with cdromSubcodeoffset := offset + 100 } cdinterruptSubcode

/-- The highest slot that is asked for. -/
def highestSlot (pbx : BitVec 32) : Nat :=
  ((List.range 16).reverse.find? fun i => pbx.getLsbD i).getD 0

def takeSlot (cd : Cd) : Cd :=
  let pbx := cd.cdromPbx &&& ~~~ BitVec.twoPow 32 (highestSlot cd.cdromPbx)
  setStatus { cd with cdromPbx := pbx } cdinterruptPbx

/-- The subchannel data of a data sector. -/
def sectorSubcode (cd : Cd) : Cd :=
  if flagSet cd.cdromFlags cdflagSubcode then nextSubcode cd else cd

def cdromRunRead (env : Env) (cd : Cd) : Cd :=
  if flagSet cd.cdromFlags cdflagEnable = false then cd
  else if cd.cdromPbx = 0 then cd
  else if flagSet cd.cdromFlags cdflagPbx = false then cd
  else if env.sectorReady then sectorSubcode (takeSlot cd)
  else cd

def countDmaDelays (cd : Cd) : Cd :=
  { cd with
    cdromTxDmaDelay := cd.cdromTxDmaDelay - 1
    cdromRxDmaDelay := cd.cdromRxDmaDelay - 1 }

/-- The subchannel data that was buffered while audio is played. -/
def returnSubcode (env : Env) (cd : Cd) : Cd :=
  if flagSet cd.cdromFlags cdflagSubcode = true ∧ cd.cdromPlaying ≠ 0 ∧ env.subcodeReady = true then
    nextSubcode cd
  else cd

/-- `AKIKO_hsync_handler`. -/
def akikoHsyncHandler (env : Env) (cd : Cd) : Except Fault Cd :=
  (akikoInternal env (returnSubcode env (countDmaDelays (cdromRunRead env cd)))).map
    (akikoHandler env)

/-- What `akiko_reset` does to the drive. -/
def cdReset (cd : Cd) : Cd :=
  { cd with
    cdcomtxinx := 0
    cdcomrxinx := 0
    cdcomtxcmp := 0
    cdromLastRx := 0
    cdromIntreq := cdinterruptSubcode
    cdromSubcodeoffset := 0xc2
    cdromIntena := 0
    cdromFlags := 0
    ledActive := false
    cdromReceiveLength := 0
    cdromReceiveOffset := 0
    cdInitialized := 0
    log := [] }

end LibretroUae.Akiko
