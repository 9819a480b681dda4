import LibretroUae.Akiko.Protocol

/-!
# LibretroUae.Akiko.SaveState

The Akiko chunk of a savestate: `save_akiko`, `restore_akiko` and `restore_akiko_finish`.

The read offset of the converter is written as a byte and read back as an unsigned one, so
the offset `-1` comes back as 255. The counter of the table of contents is a byte as well,
and reading the table again sets it to `-1`. The values of the playing, paused and disk
flags come back as 0 or 1. `restoreAkiko_saveAkiko_iff` says where nothing of this shows.
-/

namespace LibretroUae.Akiko

open Lib Lib.Image

/-! ### Writing -/

/-- What is saved beside the state of the protocol; `lastPlayPos` is as `cd_qcode` leaves it. -/
structure PlayState where
  i2cDirection : Byte
  lastPlayPos : Int
  lastPlayEnd : Int
  cdromSpeed : Int
  cdromCurrentSector : Int
  cdromTocCrc : BitVec 32
  lastaddress : Int

def lsn2msf (sectors : Int) : BitVec 32 :=
  let sectors := sectors + 150
  (BitVec.ofInt 32 (sectors.tdiv (75 * 60)) <<< 16) |||
    (BitVec.ofInt 32 ((sectors.tdiv 75).tmod 60) <<< 8) ||| BitVec.ofInt 32 (sectors.tmod 75)

def msf2lsn (msf : BitVec 32) : Int :=
  ((byteAt msf 16).toNat * 60 * 75 + (byteAt msf 8).toNat * 75 + (byteAt msf 0).toNat : Nat) - 150

/-- The registers. -/
def registerBytes (cd : Cd) (p : PlayState) : List Byte :=
  be16 0 ++ (be16 0xCAFE ++ (be32 cd.cdromIntreq ++ (be32 cd.cdromIntena ++ (be32 0 ++
    (be32 cd.cdromAddressdata ++ (be32 cd.cdromAddressmisc ++ (cd.cdromSubcodeoffset ::
    cd.cdcomtxinx :: cd.cdcomrxinx :: 0 :: 0 :: cd.cdcomtxcmp :: 0 :: cd.cdcomrxcmp ::
    (be16 (cd.cdromPbx.setWidth 16) ++ (be16 0 ++ (be32 cd.cdromFlags ++ (be32 0 ++ (be32 0 ++
    (be32 (p.i2cDirection.setWidth 32 <<< 8) ++ (be32 0 ++ be32 0))))))))))))))

/-- The converter. -/
def c2pBytes (c : C2p) : List Byte :=
  ((List.finRange 8).map c.akikoBuffer).flatMap be32 ++
    [BitVec.ofInt 8 c.akikoReadOffset, .ofNat 8 c.akikoWriteOffset]

def playFlags (playing paused disk : Int) : BitVec 32 :=
  (if playing ≠ 0 then 1 else 0) ||| (if paused ≠ 0 then 2 else 0) ||| (if disk ≠ 0 then 4 else 0)

/-- The drive. -/
def playBytes (cd : Cd) (p : PlayState) : List Byte :=
  be32 (playFlags cd.cdromPlaying cd.cdromPaused cd.cdromDisk) ++ (be32 (lsn2msf p.lastPlayPos) ++
    (be32 (lsn2msf p.lastPlayEnd) ++ (BitVec.ofInt 8 cd.cdromTocCounter ::
    BitVec.ofInt 8 p.cdromSpeed :: BitVec.ofInt 8 p.cdromCurrentSector :: (be32 p.cdromTocCrc ++
    (.ofNat 8 cd.tocPoints :: be32 (.ofInt 32 p.lastaddress))))))

/-- Without any part of Akiko there is no chunk. -/
def saveAkiko (cfg : Config) (csCd32nvram : Bool) (p : PlayState) (s : AkikoState) :
    Option (List Byte) :=
  if !cfg.csCd32cd && !cfg.csCd32c2p && !csCd32nvram then none
  else some (registerBytes s.cd p ++ (c2pBytes s.c2p ++ playBytes s.cd p))

/-! ### Reading -/

def restoreRegisters (cd : Cd) : Reader (Byte × Cd) := do
  let _ ← Reader.u16
  let _ ← Reader.u16
  let cdromIntreq ← Reader.u32
  let cdromIntena ← Reader.u32
  let _ ← Reader.u32
  let cdromAddressdata ← Reader.u32
  let cdromAddressmisc ← Reader.u32
  let cdromSubcodeoffset ← Reader.u8
  let cdcomtxinx ← Reader.u8
  let cdcomrxinx ← Reader.u8
  let _ ← Reader.u8
  let _ ← Reader.u8
  let cdcomtxcmp ← Reader.u8
  let _ ← Reader.u8
  let cdcomrxcmp ← Reader.u8
  let pbx ← Reader.u16
  let _ ← Reader.u16
  let cdromFlags ← Reader.u32
  let _ ← Reader.u32
  let _ ← Reader.u32
  let v ← Reader.u32
  let _ ← Reader.u32
  let _ ← Reader.u32
  return (byteAt v 8, { cd with
    cdromIntreq, cdromIntena, cdromAddressdata, cdromAddressmisc, cdromSubcodeoffset,
    cdcomtxinx, cdcomrxinx, cdcomtxcmp, cdcomrxcmp, cdromFlags
    cdromPbx := pbx.setWidth 32 })

def restoreC2p (c : C2p) : Reader C2p := do
  let buffer ← Reader.u32s 8
  let readOffset ← Reader.u8
  let writeOffset ← Reader.u8
  return { c with
    akikoBuffer := fun i => buffer.getD i 0
    akikoReadOffset := readOffset.toNat
    akikoWriteOffset := writeOffset.toNat }

def flagOf (v mask : BitVec 32) : Int := if v &&& mask ≠ 0 then 1 else 0

def restorePlay (i2cDirection : Byte) (cd : Cd) : Reader (PlayState × Cd) := do
  let v ← Reader.u32
  let lastPlayPos ← Reader.u32
  let lastPlayEnd ← Reader.u32
  let tocCounter ← Reader.u8
  let speed ← Reader.u8
  let currentSector ← Reader.u8
  let cdromTocCrc ← Reader.u32
  let _ ← Reader.u8
  let lastaddress ← Reader.u32
  return (⟨i2cDirection, msf2lsn lastPlayPos, msf2lsn lastPlayEnd, speed.toNat,
    currentSector.toInt, cdromTocCrc, lastaddress.toInt⟩, { cd with
    cdromPlaying := flagOf v 1
    cdromPaused := flagOf v 2
    cdromDisk := flagOf v 4
    cdromTocCounter := tocCounter.toInt })

/-- `akiko_free`: audio that a thread plays is stopped. -/
def akikoFree (running : Bool) (cd : Cd) : Cd := if running then cdaudiostop cd else cd

/-- `restore_akiko` over the state `s`. -/
def restoreAkiko (running : Bool) (s : AkikoState) : Reader (PlayState × AkikoState) := do
  let (i2cDirection, cd) ← restoreRegisters (akikoFree running s.cd)
  let c2p ← restoreC2p s.c2p
  let (p, cd) ← restorePlay i2cDirection cd
  return (p, ⟨c2p, cd⟩)

/-- `akiko_reset` while a state is restored. -/
def cdResetRestoring (cd : Cd) : Cd :=
  { cd with
    ledActive := false
    cdromReceiveLength := 0
    cdromReceiveOffset := 0
    cdInitialized := 0
    log := [] }

/-- `akiko_init` while a state is restored; a first registration resets at once. -/
def akikoInitRestoring (registered : Bool) (cd : Cd) : Cd :=
  if registered then cd else cdResetRestoring cd

def restoreAkikoFinish (cfg : Config) (env : Env) (registered : Bool) (s : AkikoState) :
    AkikoState :=
  let cd := akikoInitRestoring registered s.cd
  ⟨akikoC2pDo s.c2p, if cfg.csCd32cd then getCdromToc env cd else cd⟩

/-! ### What the bytes hold -/

/-- The registers of `cd` come back. -/
def setRegisters (old cd : Cd) : Cd :=
  { old with
    cdromIntreq := cd.cdromIntreq
    cdromIntena := cd.cdromIntena
    cdromAddressdata := cd.cdromAddressdata
    cdromAddressmisc := cd.cdromAddressmisc
    cdromSubcodeoffset := cd.cdromSubcodeoffset
    cdcomtxinx := cd.cdcomtxinx
    cdcomrxinx := cd.cdcomrxinx
    cdcomtxcmp := cd.cdcomtxcmp
    cdcomrxcmp := cd.cdcomrxcmp
    cdromFlags := cd.cdromFlags
    cdromPbx := (cd.cdromPbx.setWidth 16).setWidth 32 }

def setPlay (old cd : Cd) : Cd :=
  { old with
    cdromPlaying := if cd.cdromPlaying ≠ 0 then 1 else 0
    cdromPaused := if cd.cdromPaused ≠ 0 then 1 else 0
    cdromDisk := if cd.cdromDisk ≠ 0 then 1 else 0
    cdromTocCounter := (BitVec.ofInt 8 cd.cdromTocCounter).toInt }

def restoredC2p (old c : C2p) : C2p :=
  { old with
    akikoBuffer := c.akikoBuffer
    akikoReadOffset := (BitVec.ofInt 8 c.akikoReadOffset).toNat
    akikoWriteOffset := (BitVec.ofNat 8 c.akikoWriteOffset).toNat }

theorem playFlags_decode (playing paused disk : Int) :
    flagOf (playFlags playing paused disk) 1 = (if playing ≠ 0 then 1 else 0) ∧
    flagOf (playFlags playing paused disk) 2 = (if paused ≠ 0 then 1 else 0) ∧
    flagOf (playFlags playing paused disk) 4 = (if disk ≠ 0 then 1 else 0) := by
  rw [playFlags]
  split_ifs <;> decide

theorem restoreRegisters_run (old cd : Cd) (p : PlayState) (rest : List Byte) :
    (restoreRegisters old).run (registerBytes cd p ++ rest) =
      some ((byteAt (p.i2cDirection.setWidth 32 <<< 8) 8, setRegisters old cd), rest) := by
  simp only [restoreRegisters, registerBytes, List.cons_append, List.append_assoc, Reader.u8_bind,
    Reader.u16_bind, Reader.u32_bind, Reader.run_pure, setRegisters]

theorem restoreC2p_run (old c : C2p) (rest : List Byte) :
    (restoreC2p old).run (c2pBytes c ++ rest) = some (restoredC2p old c, rest) := by
  have hbuffer : (fun i : Fin 8 => ((List.finRange 8).map c.akikoBuffer).getD i 0) = c.akikoBuffer := by
    funext i
    simp [List.getD_eq_getElem?_getD, i.isLt]
  rw [restoreC2p, c2pBytes, List.append_assoc, Reader.u32s_bind _ _ _ (by simp), List.cons_append,
    Reader.u8_bind, List.cons_append, Reader.u8_bind, Reader.run_pure, hbuffer]
  rfl

theorem restorePlay_run (i2c : Byte) (old cd : Cd) (p : PlayState) (rest : List Byte) :
    ∃ p', (restorePlay i2c old).run (playBytes cd p ++ rest) = some ((p', setPlay old cd), rest) := by
  obtain ⟨hplaying, hpaused, hdisk⟩ := playFlags_decode cd.cdromPlaying cd.cdromPaused cd.cdromDisk
  refine ⟨⟨i2c, msf2lsn (lsn2msf p.lastPlayPos), msf2lsn (lsn2msf p.lastPlayEnd),
    (BitVec.ofInt 8 p.cdromSpeed).toNat, (BitVec.ofInt 8 p.cdromCurrentSector).toInt, p.cdromTocCrc,
    (BitVec.ofInt 32 p.lastaddress).toInt⟩, ?_⟩
  simp only [restorePlay, playBytes, List.cons_append, List.append_assoc, Reader.u8_bind,
    Reader.u32_bind, Reader.run_pure, hplaying, hpaused, hdisk, setPlay]

/-- Exactly the bytes that were written are read. -/
theorem restoreAkiko_run (cfg : Config) (csCd32nvram running : Bool) (p : PlayState)
    (old s : AkikoState) {bytes : List Byte} (hsave : saveAkiko cfg csCd32nvram p s = some bytes)
    (rest : List Byte) : ∃ p', (restoreAkiko running old).run (bytes ++ rest) = some ((p',
      ⟨restoredC2p old.c2p s.c2p, setPlay (setRegisters (akikoFree running old.cd) s.cd) s.cd⟩),
      rest) := by
  rw [saveAkiko] at hsave
  split_ifs at hsave
  obtain rfl := Option.some.inj hsave
  obtain ⟨p', hplay⟩ := restorePlay_run (byteAt (p.i2cDirection.setWidth 32 <<< 8) 8)
    (setRegisters (akikoFree running old.cd) s.cd) s.cd p rest
  refine ⟨p', ?_⟩
  rw [restoreAkiko, List.append_assoc, List.append_assoc,
    Reader.bind_run (restoreRegisters_run ..)]
  dsimp only
  rw [Reader.bind_run (restoreC2p_run ..), Reader.bind_run hplay]
  rfl

/-! ### The slots for sectors stay 16 bits wide -/

/-- A step that keeps the slots in their 16 bits. -/
def Keeps16 (cd cd' : Cd) : Prop := cd.cdromPbx.toNat < 2 ^ 16 → cd'.cdromPbx.toNat < 2 ^ 16

variable {cd cd' : Cd} {cfg : Config} {s s' : AkikoState}

theorem keeps16_of_eq (h : cd'.cdromPbx = cd.cdromPbx) : Keeps16 cd cd' := fun hp => h ▸ hp

theorem startReturnData_pbx (cd : Cd) (len : Nat) :
    (cdromStartReturnData cd len).cdromPbx = cd.cdromPbx := by
  rw [cdromStartReturnData]
  split_ifs <;> rfl

theorem Answers.notify_pbx {handler : Handler} (h : Answers handler) (cd : Cd) :
    (Akiko.notify handler cd).cdromPbx = cd.cdromPbx :=
  (startReturnData_pbx _ _).trans (h.quiet cd).pbx

theorem returnLoop_pbx (n : Nat) (cd : Cd) : (returnLoop n cd).cdromPbx = cd.cdromPbx := by
  induction n generalizing cd with
  | zero => rfl
  | succ n ih =>
    rw [returnLoop]
    split_ifs
    · rfl
    · exact ih _

theorem returnData_pbx (cd : Cd) : (cdromReturnData cd).cdromPbx = cd.cdromPbx := by
  have hloop := returnLoop_pbx (cd.cdromReceiveLength - cd.cdromReceiveOffset) cd
  rw [cdromReturnData]
  split_ifs
  · rfl
  · rfl
  · rfl
  · rfl
  · dsimp only
    split_ifs
    · exact hloop
    · exact hloop

theorem addCommandByte_pbx {b : Byte} (h : cdromAddCommandByte cd b = .ok cd') :
    cd'.cdromPbx = cd.cdromPbx := by
  rw [cdromAddCommandByte] at h
  split_ifs at h
  dsimp only at h
  split at h
  · cases h
    rfl
  · split_ifs at h <;> (cases h; rfl)

theorem countTxByte_pbx (cd : Cd) : (countTxByte cd).cdromPbx = cd.cdromPbx := by
  rw [countTxByte]
  dsimp only
  split_ifs <;> rfl

theorem runCommand_pbx {env : Env} (h : cdromRunCommand env cd = .ok cd') :
    cd'.cdromPbx = cd.cdromPbx := by
  rw [cdromRunCommand] at h
  split_ifs at h
  · cases h; rfl
  · cases h; rfl
  · cases h; rfl
  · cases h; rfl
  · cases h; rfl
  · cases hadd : cdromAddCommandByte cd (env.memory (cdtxAddress cd + cd.cdcomtxinx.toNat)) with
    | error e => simp [hadd, Except.map] at h
    | ok cd₁ =>
      rw [hadd] at h
      cases h
      exact (countTxByte_pbx cd₁).trans (addCommandByte_pbx hadd)

theorem runCommandRun_pbx (env : Env) (cd : Cd) :
    (cdromRunCommandRun env cd).cdromPbx = cd.cdromPbx := by
  rw [cdromRunCommandRun]
  dsimp only
  split_ifs
  · exact commandError_answers.notify_pbx _
  · exact ((commandHandler_answers env _).quiet _).pbx
  · exact (commandHandler_answers env _).notify_pbx _

theorem runActive_pbx (env : Env) (cd : Cd) : (runActive env cd).cdromPbx = cd.cdromPbx := by
  rw [runActive]
  dsimp only
  split_ifs
  · exact runCommandRun_pbx env _
  · rfl
  · rfl

theorem akikoInternal_pbx {env : Env} (h : akikoInternal env cd = .ok cd') :
    cd'.cdromPbx = cd.cdromPbx := by
  rw [akikoInternal] at h
  cases hrun : cdromRunCommand env (cdromReturnData cd) with
  | error e => simp [hrun, Except.map] at h
  | ok cd₁ =>
    rw [hrun] at h
    cases h
    exact (runActive_pbx env cd₁).trans ((runCommand_pbx hrun).trans (returnData_pbx cd))

theorem audioNotify_pbx (at' status : Int) (cd : Cd) :
    (audioNotify at' status cd).cdromPbx = cd.cdromPbx := by
  rw [audioNotify]
  split_ifs
  · exact (playendNotify_answers status).notify_pbx cd
  · rfl

theorem notifyPlayStart_pbx (cd : Cd) : (notifyPlayStart cd).cdromPbx = cd.cdromPbx := by
  rw [notifyPlayStart]
  split_ifs
  · exact (playendNotify_answers 0).notify_pbx cd
  · rfl

theorem audioHandler_pbx (cd : Cd) : (audioHandler cd).cdromPbx = cd.cdromPbx := by
  have hcount : (countAudiotimeout cd).cdromPbx = cd.cdromPbx := by
    rw [countAudiotimeout]
    split_ifs <;> rfl
  have hstarts : ∀ cd : Cd, (audioStarts cd).cdromPbx = cd.cdromPbx := by
    intro cd
    rw [audioStarts]
    dsimp only
    split_ifs
    · exact notifyPlayStart_pbx _
    · exact notifyPlayStart_pbx _
    · rfl
  have hends : ∀ cd : Cd, (audioEnds cd).cdromPbx = cd.cdromPbx := by
    intro cd
    rw [audioEnds]
    split_ifs <;> rfl
  rw [audioHandler, audioNotify_pbx, audioNotify_pbx, hends, hstarts, hcount]

theorem mediaHandler_pbx (env : Env) (cd : Cd) : (mediaHandler env cd).cdromPbx = cd.cdromPbx := by
  rw [mediaHandler]
  split_ifs
  · exact (getCdromToc_quiet env _).pbx.trans ((mediaStatus_answers env).notify_pbx cd)
  · rfl

theorem akikoHandler_pbx (env : Env) (cd : Cd) : (akikoHandler env cd).cdromPbx = cd.cdromPbx := by
  rw [akikoHandler]
  split_ifs
  · rfl
  · rfl
  · exact (mediaStatus_answers env).notify_pbx cd
  · rfl
  · rfl
  · exact mediaHandler_pbx env cd
  · rw [tocHandler]
    split_ifs
    · exact (returnTocEntry_answers.notify_pbx _).trans (audioHandler_pbx cd)
    · exact audioHandler_pbx cd

theorem akikoHsyncHandler_keeps16 {env : Env} (h : akikoHsyncHandler env cd = .ok cd') :
    Keeps16 cd cd' := by
  have hsubcode : ∀ cd : Cd, (returnSubcode env cd).cdromPbx = cd.cdromPbx := by
    intro cd
    rw [returnSubcode]
    split_ifs <;> rfl
  have hread : Keeps16 cd (cdromRunRead env cd) := by
    rw [cdromRunRead]
    split_ifs
    · exact id
    · exact id
    · exact id
    · rw [sectorSubcode]
      split_ifs <;> exact and_lt_of_lt _
    · exact id
  intro hp
  rw [akikoHsyncHandler] at h
  cases hinternal : akikoInternal env (returnSubcode env (countDmaDelays (cdromRunRead env cd))) with
  | error e => simp [hinternal, Except.map] at h
  | ok cd₁ =>
    rw [hinternal] at h
    cases h
    rw [akikoHandler_pbx, akikoInternal_pbx hinternal, hsubcode]
    exact hread hp

/-- Reads change nothing but by taking a byte. -/
theorem cdGet_state (cd : Cd) (addr : Nat) :
    (cdGet cd addr).2 = cd ∨ (cdGet cd addr).2 = receiveByte cd := by
  rw [cdGet]
  repeat' split
  all_goals first
    | exact Or.inl rfl
    | exact Or.inr rfl

theorem cdGet_pbx (cd : Cd) (addr : Nat) : (cdGet cd addr).2.cdromPbx = cd.cdromPbx := by
  have hreceive : (receiveByte cd).cdromPbx = cd.cdromPbx := by
    rw [receiveByte]
    dsimp only
    split_ifs <;> rfl
  rcases cdGet_state cd addr with h | h
  · rw [h]
  · rw [h, hreceive]

theorem noteRead_pbx (addr : Nat) (v : Byte) (cd : Cd) :
    (noteRead addr v cd).cdromPbx = cd.cdromPbx := by
  rw [noteRead]
  split_ifs <;> rfl

theorem sendByte_pbx {v : Byte} (h : sendByte cd v = .ok cd') : cd'.cdromPbx = cd.cdromPbx := by
  have hnote : ∀ cd : Cd, (noteMore cd).cdromPbx = cd.cdromPbx := by
    intro cd
    rw [noteMore]
    split_ifs <;> rfl
  rw [sendByte] at h
  dsimp only at h
  split_ifs at h
  · cases hadd : cdromAddCommandByte (clearStatus cd cdinterruptDrivexmit) v with
    | error e => simp [hadd, Except.map] at h
    | ok cd₁ =>
      rw [hadd] at h
      cases h
      have hpbx := addCommandByte_pbx hadd
      exact (hnote cd₁).trans hpbx
  · cases h
    rfl
  · cases h
    rfl

theorem cdPut_keeps16 {addr : Nat} {v : Byte} (h : cdPut cd addr v = .ok cd') : Keeps16 cd cd' := by
  rw [cdPut] at h
  repeat' split at h
  · cases h; exact id
  · cases h; exact id
  · cases h; exact id
  · cases h; exact id
  · cases h; exact id
  · cases h; exact id
  · cases h
    intro _
    change (if flagSet cd.cdromFlags cdflagPbx then _ else _ : BitVec 32).toNat < 2 ^ 16
    split_ifs
    · rw [BitVec.toNat_and]
      exact Nat.lt_of_le_of_lt Nat.and_le_right (by decide)
    · decide
  · cases h
    intro hp
    change (if flagSet (akikoPutLong cd.cdromFlags (addr - 0x24) v) cdflagPbx then
      (noteEnable _ cd).cdromPbx else 0 : BitVec 32).toNat < 2 ^ 16
    have hnote : (noteEnable (akikoPutLong cd.cdromFlags (addr - 0x24) v) cd).cdromPbx =
        cd.cdromPbx := by
      rw [noteEnable]
      split_ifs <;> rfl
    split_ifs
    · rw [hnote]
      exact hp
    · decide
  · exact keeps16_of_eq (sendByte_pbx h)
  · cases h; exact id

/-! ### What holds in every state of a run -/

/-- The runs of Akiko with resets at any time. -/
def akikoRuns (cfg : Config) : Machine AkikoState Input Fault where
  legal := fun _ _ => True
  step := step cfg

/-- What the format of the chunk depends on. -/
structure Reached (cfg : Config) (s : AkikoState) : Prop where
  c2p : s.c2p.Inv
  unused : cfg.csCd32c2p = false → 0 ≤ s.c2p.akikoReadOffset
  slots : s.cd.cdromPbx.toNat < 2 ^ 16
  noDrive : cfg.csCd32cd = false → s.cd.cdromTocCounter = 0

theorem akikoBget2_reached (hs : Reached cfg s) {env : Env} {addr : Nat} {v : Byte}
    (h : akikoBget2 cfg env s addr = .ok (v, s')) :
    Reached cfg s' ∧ (isC2p (addr % 0x40) → 0 ≤ s'.c2p.akikoReadOffset) := by
  rw [akikoBget2] at h
  split_ifs at h with h1 h2 h3 h4 h5
  · cases h
    exact ⟨hs, fun hc => absurd hc.1 (by omega)⟩
  · cases h
    exact ⟨hs, fun hc => absurd hc.1 (by omega)⟩
  · obtain ⟨b, c, hread, hc, hoffset⟩ := akikoC2pRead_inv hs.c2p (addr % 0x40 - 0x38)
    rw [hread] at h
    cases h
    exact ⟨⟨hc, fun _ => hoffset, hs.slots, hs.noDrive⟩, fun _ => hoffset⟩
  · cases h
    exact ⟨hs, fun _ => hs.unused (Bool.not_eq_true _ ▸ h4)⟩
  · cases h
    exact ⟨hs, fun hc => absurd ⟨hc.1, Nat.le_of_lt_succ hc.2⟩ h3⟩
  · have hget := cdGet_pbx s.cd (addr % 0x40)
    generalize cdGet s.cd (addr % 0x40) = r at h hget
    obtain ⟨b, cd₀⟩ := r
    dsimp only at h hget
    cases hinternal : akikoInternal env (noteRead (addr % 0x40) b cd₀) with
    | error e => simp [hinternal, Except.map] at h
    | ok cd₁ =>
      rw [hinternal] at h
      cases h
      refine ⟨⟨hs.c2p, hs.unused, ?_, fun hno => absurd hno h5⟩,
        fun hc => absurd ⟨hc.1, Nat.le_of_lt_succ hc.2⟩ h3⟩
      change cd₁.cdromPbx.toNat < 2 ^ 16
      rw [akikoInternal_pbx hinternal, noteRead_pbx, hget]
      exact hs.slots

theorem akikoBput2_reached (hs : Reached cfg s) {env : Env} {addr : Nat} {v : Byte}
    (h : akikoBput2 cfg env s addr v = .ok s') : Reached cfg s' := by
  rw [akikoBput2] at h
  split_ifs at h with h1 h2 h3 h4
  · cases h
    exact hs
  · obtain ⟨c, hwrite, hc, -⟩ := akikoC2pWrite_inv hs.c2p (addr % 0x40 - 0x38) v
    rw [hwrite] at h
    cases h
    exact ⟨hc, fun hno => absurd (h3.symm.trans hno) (by decide), hs.slots, hs.noDrive⟩
  · cases h
    exact hs
  · cases h
    exact hs
  · cases hput : cdPut s.cd (addr % 0x40) v with
    | error e => simp [hput, bind, Except.bind] at h
    | ok cd₁ =>
      rw [hput] at h
      change (akikoInternal env cd₁ >>= _) = _ at h
      cases hinternal : akikoInternal env cd₁ with
      | error e => simp [hinternal, bind, Except.bind] at h
      | ok cd₂ =>
        rw [hinternal] at h
        cases h
        refine ⟨hs.c2p, hs.unused, ?_, fun hno => absurd hno h4⟩
        change cd₂.cdromPbx.toNat < 2 ^ 16
        rw [akikoInternal_pbx hinternal]
        exact cdPut_keeps16 hput hs.slots

theorem getBytes_reached (envs : List Env) (addr : Nat) (hs : Reached cfg s)
    (h : getBytes cfg envs s addr = .ok s') :
    Reached cfg s' ∧ (envs ≠ [] → isC2p addr → 0 ≤ s'.c2p.akikoReadOffset) := by
  induction envs generalizing s with
  | nil =>
    cases h
    exact ⟨hs, fun hne => absurd rfl hne⟩
  | cons env envs ih =>
    cases hget : akikoBget2 cfg env s (addr + envs.length) with
    | error e => simp [getBytes, hget, bind, Except.bind] at h
    | ok r =>
      rw [getBytes, hget] at h
      obtain ⟨hs₁, hlast⟩ := akikoBget2_reached hs hget
      obtain ⟨hs', hread⟩ := ih hs₁ h
      refine ⟨hs', fun _ hc => ?_⟩
      cases envs with
      | nil =>
        cases h
        refine hlast ?_
        rw [List.length_nil, Nat.add_zero, Nat.mod_eq_of_lt (Nat.lt_trans hc.2 (by decide))]
        exact hc
      | cons _ _ => exact hread (List.cons_ne_nil _ _) hc

theorem putBytes_reached (bytes : List (Env × Byte)) (addr : Nat) (hs : Reached cfg s)
    (h : putBytes cfg bytes s addr = .ok s') : Reached cfg s' := by
  induction bytes generalizing s with
  | nil =>
    cases h
    exact hs
  | cons b rest ih =>
    cases hput : akikoBput2 cfg b.1 s (addr + rest.length) b.2 with
    | error e => simp [putBytes, hput, bind, Except.bind] at h
    | ok s₁ =>
      rw [putBytes, hput] at h
      exact ih (akikoBput2_reached hs hput) h

theorem step_reached {i : Input} (hs : Reached cfg s) (h : step cfg s i = .ok s') :
    Reached cfg s' := by
  cases i with
  | get addr env envs =>
    cases hget : getBytes cfg (env :: envs) s addr with
    | error e => simp [step, hget, bind, Except.bind] at h
    | ok s₁ =>
      rw [step, hget] at h
      obtain ⟨hs₁, hread⟩ := getBytes_reached (env :: envs) addr hs hget
      cases h
      split_ifs with hc
      · have hoffset := hread (List.cons_ne_nil _ _) hc
        refine ⟨checkReadC2p_inv hs₁.c2p hoffset, fun _ => ?_, hs₁.slots, hs₁.noDrive⟩
        change 0 ≤ (s₁.c2p.akikoReadOffset + 1) % 8
        omega
      · exact hs₁
  | put addr bytes => exact putBytes_reached bytes addr hs h
  | hsync env =>
    rw [step] at h
    split_ifs at h with hdrive
    · cases hsync : akikoHsyncHandler env s.cd with
      | error e => simp [hsync, Except.map] at h
      | ok cd₁ =>
        rw [hsync] at h
        cases h
        exact ⟨hs.c2p, hs.unused, akikoHsyncHandler_keeps16 hsync hs.slots,
          fun hno => absurd (hdrive.symm.trans hno) (by decide)⟩
    · cases h
      exact hs
  | reset =>
    cases h
    exact ⟨hs.c2p, hs.unused, hs.slots, hs.noDrive⟩
  | thread disk playing audiotimeout mediachanged =>
    cases h
    exact ⟨hs.c2p, hs.unused, hs.slots, hs.noDrive⟩

theorem reached (hreach : (akikoRuns cfg).Reachable AkikoState.initial s) : Reached cfg s :=
  hreach.induct (fun hs _ h => step_reached hs h) ⟨C2p.inv_initial, fun _ => Int.le_refl 0, by decide, fun _ => rfl⟩

/-! ### What is kept -/

/-- Two states that give the same values to sequences of accesses to the converter, and
hold the same in what the drive shows. -/
structure SameObservable (s s' : AkikoState) : Prop where
  c2p : ∀ ops, c2pRun s'.c2p ops = c2pRun s.c2p ops
  inside : ∀ ops, ∃ vs, c2pRun s'.c2p ops = .ok vs
  tocCounter : s'.cd.cdromTocCounter = s.cd.cdromTocCounter
  txinx : s'.cd.cdcomtxinx = s.cd.cdcomtxinx
  rxinx : s'.cd.cdcomrxinx = s.cd.cdcomrxinx
  txcmp : s'.cd.cdcomtxcmp = s.cd.cdcomtxcmp
  rxcmp : s'.cd.cdcomrxcmp = s.cd.cdcomrxcmp
  intreq : s'.cd.cdromIntreq = s.cd.cdromIntreq
  intena : s'.cd.cdromIntena = s.cd.cdromIntena
  flags : s'.cd.cdromFlags = s.cd.cdromFlags
  pbx : s'.cd.cdromPbx = s.cd.cdromPbx
  subcodeoffset : s'.cd.cdromSubcodeoffset = s.cd.cdromSubcodeoffset
  playing : s'.cd.cdromPlaying = s.cd.cdromPlaying
  paused : s'.cd.cdromPaused = s.cd.cdromPaused
  disk : s'.cd.cdromDisk = s.cd.cdromDisk

/-- No result is outstanding in the converter, no table of contents is being sent, and the
flags are what a bit of the chunk can hold. -/
structure Storable (cfg : Config) (s : AkikoState) : Prop where
  readOffset : 0 ≤ s.c2p.akikoReadOffset
  tocCounter : cfg.csCd32cd = true → s.cd.cdromTocCounter = -1
  playing : s.cd.cdromPlaying = 0 ∨ s.cd.cdromPlaying = 1
  paused : s.cd.cdromPaused = 0 ∨ s.cd.cdromPaused = 1
  disk : s.cd.cdromDisk = 0 ∨ s.cd.cdromDisk = 1

/-- A flag comes back as 0 or 1. -/
theorem flag_eq_iff (v : Int) : (if v ≠ 0 then 1 else 0 : Int) = v ↔ v = 0 ∨ v = 1 := by
  split_ifs <;> omega

theorem byte_of_small {v : Int} (hlo : 0 ≤ v) (hhi : v < 8) : ((BitVec.ofInt 8 v).toNat : Int) = v := by
  rw [BitVec.toNat_ofInt]
  omega

/-- With a result of its buffer the converter comes back as it was. -/
theorem restoredC2p_eq {c : C2p} (old : C2p) (hc : c.Inv) (hread : 0 ≤ c.akikoReadOffset) :
    akikoC2pDo (restoredC2p old c) = c := by
  have hreadOffset := byte_of_small hread hc.readOffset.2
  have hwriteOffset : (BitVec.ofNat 8 c.akikoWriteOffset).toNat = c.akikoWriteOffset := by
    have hlt := hc.writeOffset
    rw [BitVec.toNat_ofNat]
    omega
  rw [restoredC2p, hreadOffset, hwriteOffset, akikoC2pDo]
  dsimp only
  rw [← hc.result hread]

/-- With an outstanding result the first read is outside of the results. -/
theorem restoredC2p_faults {c : C2p} (old : C2p) (hc : c.Inv) (hread : c.akikoReadOffset < 0) :
    c2pRun (akikoC2pDo (restoredC2p old c)) [.lget] = .error .outsideResult := by
  have hneg : c.akikoReadOffset = -1 := by
    have hlo := hc.readOffset.1
    omega
  have hoffset : (akikoC2pDo (restoredC2p old c)).akikoReadOffset = 255 := by
    change ((BitVec.ofInt 8 c.akikoReadOffset).toNat : Int) = 255
    rw [hneg]
    rfl
  have hfault : akikoC2pRead (akikoC2pDo (restoredC2p old c)) 3 = .error .outsideResult := by
    rw [akikoC2pRead]
    simp [hoffset]
  rw [c2pRun, c2pLget, hfault]
  rfl

/-- What `restore_akiko_finish` leaves as it is. -/
structure Finished (cd cd' : Cd) : Prop where
  txinx : cd'.cdcomtxinx = cd.cdcomtxinx
  rxinx : cd'.cdcomrxinx = cd.cdcomrxinx
  txcmp : cd'.cdcomtxcmp = cd.cdcomtxcmp
  rxcmp : cd'.cdcomrxcmp = cd.cdcomrxcmp
  intreq : cd'.cdromIntreq = cd.cdromIntreq
  intena : cd'.cdromIntena = cd.cdromIntena
  flags : cd'.cdromFlags = cd.cdromFlags
  pbx : cd'.cdromPbx = cd.cdromPbx
  subcodeoffset : cd'.cdromSubcodeoffset = cd.cdromSubcodeoffset
  playing : cd'.cdromPlaying = cd.cdromPlaying
  paused : cd'.cdromPaused = cd.cdromPaused
  disk : cd'.cdromDisk = cd.cdromDisk

theorem restoreAkikoFinish_finished (cfg : Config) (env : Env) (registered : Bool) (s : AkikoState) :
    Finished s.cd (restoreAkikoFinish cfg env registered s).cd := by
  have hinit : Finished s.cd (akikoInitRestoring registered s.cd) := by
    cases registered <;> exact ⟨rfl, rfl, rfl, rfl, rfl, rfl, rfl, rfl, rfl, rfl, rfl, rfl⟩
  rw [restoreAkikoFinish, getCdromToc]
  split_ifs
  · rcases env.toc with _ | ⟨points, buffer⟩ <;> exact ⟨hinit.txinx, hinit.rxinx, hinit.txcmp,
      hinit.rxcmp, hinit.intreq, hinit.intena, hinit.flags, hinit.pbx, hinit.subcodeoffset,
      hinit.playing, hinit.paused, hinit.disk⟩
  · exact hinit

/-- With a drive the table of contents starts again. -/
theorem restoreAkikoFinish_tocCounter (cfg : Config) (env : Env) (registered : Bool)
    (s : AkikoState) : (restoreAkikoFinish cfg env registered s).cd.cdromTocCounter =
      if cfg.csCd32cd then -1 else s.cd.cdromTocCounter := by
  rw [restoreAkikoFinish, getCdromToc]
  split_ifs
  · rcases env.toc with _ | ⟨points, buffer⟩ <;> rfl
  · cases registered <;> rfl

/-- Reading back what was written gives the same observable state exactly if the state is
one that the chunk can hold. -/
theorem restoreAkiko_saveAkiko_iff (cfg : Config) (csCd32nvram running registered : Bool) (env : Env)
    (p : PlayState) (old : AkikoState) {s : AkikoState} {bytes : List Byte} (rest : List Byte)
    (hreach : (akikoRuns cfg).Reachable AkikoState.initial s)
    (hsave : saveAkiko cfg csCd32nvram p s = some bytes) :
    ∃ p' s', (restoreAkiko running old).run (bytes ++ rest) = some ((p', s'), rest) ∧
      (SameObservable s (restoreAkikoFinish cfg env registered s') ↔ Storable cfg s) := by
  obtain ⟨p', hrun⟩ := restoreAkiko_run cfg csCd32nvram running p old s hsave rest
  refine ⟨p', _, hrun, ?_⟩
  have hs := reached hreach
  generalize hcd : setPlay (setRegisters (akikoFree running old.cd) s.cd) s.cd = cd
  have hfinished := restoreAkikoFinish_finished cfg env registered ⟨restoredC2p old.c2p s.c2p, cd⟩
  have htoc := restoreAkikoFinish_tocCounter cfg env registered ⟨restoredC2p old.c2p s.c2p, cd⟩
  have hplaying : cd.cdromPlaying = if s.cd.cdromPlaying ≠ 0 then 1 else 0 := hcd ▸ rfl
  have hpaused : cd.cdromPaused = if s.cd.cdromPaused ≠ 0 then 1 else 0 := hcd ▸ rfl
  have hdisk : cd.cdromDisk = if s.cd.cdromDisk ≠ 0 then 1 else 0 := hcd ▸ rfl
  have hpbx : cd.cdromPbx = s.cd.cdromPbx := by
    have hwide : cd.cdromPbx = (s.cd.cdromPbx.setWidth 16).setWidth 32 := hcd ▸ rfl
    rw [hwide]
    apply BitVec.eq_of_toNat_eq
    have hslots := hs.slots
    rw [BitVec.toNat_setWidth, BitVec.toNat_setWidth]
    omega
  constructor
  · intro h
    refine ⟨?_, fun hdrive => ?_, ?_, ?_, ?_⟩
    · by_contra hneg
      obtain ⟨vs, hvs⟩ := h.inside [.lget]
      have hfaults := restoredC2p_faults old.c2p hs.c2p (Int.not_le.mp hneg)
      exact absurd (hfaults.symm.trans hvs) (by simp)
    · rw [if_pos hdrive] at htoc
      exact h.tocCounter.symm.trans htoc
    · exact (flag_eq_iff _).mp (hplaying.symm.trans (hfinished.playing.symm.trans h.playing))
    · exact (flag_eq_iff _).mp (hpaused.symm.trans (hfinished.paused.symm.trans h.paused))
    · exact (flag_eq_iff _).mp (hdisk.symm.trans (hfinished.disk.symm.trans h.disk))
  · intro h
    have hc2p : (restoreAkikoFinish cfg env registered ⟨restoredC2p old.c2p s.c2p, cd⟩).c2p = s.c2p :=
      restoredC2p_eq old.c2p hs.c2p h.readOffset
    refine ⟨fun ops => by rw [hc2p], fun ops => by rw [hc2p]; exact c2pRun_ok ops hs.c2p, ?_,
      hfinished.txinx.trans (hcd ▸ rfl), hfinished.rxinx.trans (hcd ▸ rfl),
      hfinished.txcmp.trans (hcd ▸ rfl), hfinished.rxcmp.trans (hcd ▸ rfl),
      hfinished.intreq.trans (hcd ▸ rfl), hfinished.intena.trans (hcd ▸ rfl),
      hfinished.flags.trans (hcd ▸ rfl), hfinished.pbx.trans hpbx,
      hfinished.subcodeoffset.trans (hcd ▸ rfl), ?_, ?_, ?_⟩
    · rw [htoc]
      split_ifs with hdrive
      · exact (h.tocCounter hdrive).symm
      · have hzero := hs.noDrive (Bool.not_eq_true _ ▸ hdrive)
        have hcounter : cd.cdromTocCounter = (BitVec.ofInt 8 s.cd.cdromTocCounter).toInt := hcd ▸ rfl
        rw [hcounter, hzero]
        rfl
    · exact (hfinished.playing.trans hplaying).trans ((flag_eq_iff _).mpr h.playing)
    · exact (hfinished.paused.trans hpaused).trans ((flag_eq_iff _).mpr h.paused)
    · exact (hfinished.disk.trans hdisk).trans ((flag_eq_iff _).mpr h.disk)

def stoppedPlay : PlayState := ⟨0, 0, 0, 1, -1, 0, 0⟩

/-- A longword for the converter. -/
def convertLong (v : BitVec 32) : Input :=
  .put 0x38 [(emptyDrive, v.extractLsb' 24 8), (emptyDrive, v.extractLsb' 16 8),
    (emptyDrive, v.extractLsb' 8 8), (emptyDrive, v.extractLsb' 0 8)]

/-- A command and its response, a whole conversion of which one longword is read, and a disc that
starts to play. -/
def playingInputs : List Input :=
  pauseCommand ++ (List.range 8).map (fun i => convertLong (.ofNat 32 (0x01020304 * i))) ++
    [.get 0x38 emptyDrive [emptyDrive, emptyDrive, emptyDrive], .thread 1 1 0 false]

theorem restoreAkiko_saveAkiko_playing : ∃ s bytes p' s',
    (akikoRuns ⟨true, true⟩).Reachable AkikoState.initial s ∧
    (s.c2p.akikoReadOffset = 1 ∧ s.cd.cdcomrxinx = 2 ∧ s.cd.cdromDisk = 1) ∧
    saveAkiko ⟨true, true⟩ true stoppedPlay s = some bytes ∧
    (restoreAkiko false AkikoState.initial).run (bytes ++ []) = some ((p', s'), []) ∧
    SameObservable s (restoreAkikoFinish ⟨true, true⟩ emptyDrive false s') := by
  have hend : (playingInputs.foldlM (step ⟨true, true⟩) AkikoState.initial).toOption.any (fun s =>
      (s.c2p.akikoReadOffset = 1 ∧ s.cd.cdcomrxinx = 2 ∧ s.cd.cdromDisk = 1) ∧
        s.cd.cdromTocCounter = -1 ∧ s.cd.cdromPlaying = 1 ∧ s.cd.cdromPaused = 0 ∧
        (saveAkiko ⟨true, true⟩ true stoppedPlay s).isSome) = true := by
    decide +kernel
  obtain ⟨s, hs, hend⟩ := (Option.any_eq_true _ _).mp hend
  obtain ⟨hdata, htoc, hplaying, hpaused, hsaved⟩ := of_decide_eq_true hend
  obtain ⟨bytes, hbytes⟩ := Option.isSome_iff_exists.mp hsaved
  have hok : playingInputs.foldlM (step ⟨true, true⟩) AkikoState.initial = .ok s := by
    cases hrun : playingInputs.foldlM (step ⟨true, true⟩) AkikoState.initial with
    | error e =>
      rw [hrun] at hs
      cases hs
    | ok t =>
      rw [hrun] at hs
      exact congrArg Except.ok (Option.some.inj hs)
  have hreach : (akikoRuns ⟨true, true⟩).Reachable AkikoState.initial s :=
    ⟨playingInputs, hok ▸ Machine.Run.foldlM (M := akikoRuns ⟨true, true⟩) fun _ _ _ => trivial⟩
  obtain ⟨p', s', hrun, hiff⟩ := restoreAkiko_saveAkiko_iff ⟨true, true⟩ true false false
    emptyDrive stoppedPlay AkikoState.initial [] hreach hbytes
  refine ⟨s, bytes, p', s', hreach, hdata, hbytes, hrun, hiff.mpr ⟨?_, fun _ => htoc,
    .inr hplaying, .inl hpaused, .inr hdata.2.2⟩⟩
  rw [hdata.1]
  decide

theorem restoreAkiko_loses_readOffset : ∃ s bytes p' s',
    (akikoRuns ⟨false, true⟩).Reachable AkikoState.initial s ∧
    saveAkiko ⟨false, true⟩ false stoppedPlay s = some bytes ∧
    (restoreAkiko false AkikoState.initial).run (bytes ++ []) = some ((p', s'), []) ∧
    (∃ vs, c2pRun s.c2p [.lget] = .ok vs) ∧
    c2pRun (restoreAkikoFinish ⟨false, true⟩ emptyDrive false s').c2p [.lget] =
      .error .outsideResult ∧
    ¬ SameObservable s (restoreAkikoFinish ⟨false, true⟩ emptyDrive false s') := by
  obtain ⟨s, hstep, hoffset⟩ :
      ∃ s, step ⟨false, true⟩ AkikoState.initial (convertLong 0x12345678) = .ok s ∧
      s.c2p.akikoReadOffset < 0 := ⟨_, rfl, by decide⟩
  have hreach : (akikoRuns ⟨false, true⟩).Reachable AkikoState.initial s :=
    ⟨[convertLong 0x12345678], .cons trivial hstep (.nil s)⟩
  have hs := reached hreach
  obtain ⟨p', hrun⟩ := restoreAkiko_run ⟨false, true⟩ false false stoppedPlay AkikoState.initial s
    rfl []
  have hfaults := restoredC2p_faults AkikoState.initial.c2p hs.c2p hoffset
  refine ⟨s, _, p', _, hreach, rfl, hrun, c2pRun_ok [.lget] hs.c2p, hfaults, fun h => ?_⟩
  obtain ⟨vs, hvs⟩ := h.inside [.lget]
  exact absurd (hfaults.symm.trans hvs) (by simp)

end LibretroUae.Akiko
