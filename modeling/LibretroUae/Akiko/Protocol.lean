import LibretroUae.Akiko.Bank

/-!
# LibretroUae.Akiko.Protocol

**Commands and responses on the wire.** The bytes of a command are those from its first
one up to the length that this one prescribes. A response sums up to `0xff`; its bytes are
what is put to memory and what the register gives, in order, each once, and no response
starts before the one before it is out. In memory they fill a circle of 256 bytes.

A reset forgets the response but not the bytes of a command that is not complete yet:
these stand in front of the next command. `akiko_follows_protocol` is for runs in which
no reset comes within a command.
-/

namespace LibretroUae.Akiko

open Lib Lib.Image

/-! ### The wire -/

/-- The bytes of a command that starts with `b`, with its checksum. -/
def needed (b : Byte) : Nat := (commandLengths b).elim 1 (· + 1)

/-- Complete commands, and the bytes of one that is not complete. -/
abbrev Split := List (List Byte) × List Byte

def pushByte (s : Split) (b : Byte) : Split :=
  let bytes := s.2 ++ [b]
  if bytes.length = needed (bytes.headD 0) then (s.1 ++ [bytes], []) else (s.1, bytes)

def splitCommands (bytes : List Byte) : Split := bytes.foldl pushByte ([], [])

def Event.accepted? : Event → Option Byte
  | .accept b => some b
  | _ => none

def Event.dispatched? : Event → Option (List Byte)
  | .dispatch bytes => some bytes
  | _ => none

def Event.written? : Event → Option Nat
  | .write addr _ => some addr
  | _ => none

def accepted (log : List Event) : List Byte := log.filterMap Event.accepted?

def dispatched (log : List Event) : List (List Byte) := log.filterMap Event.dispatched?

/-- Where bytes were put to memory. -/
def written (log : List Event) : List Nat := log.filterMap Event.written?

/-- What is to go out after an event: only whole responses start, when nothing is left of
the last one; only the next byte is put to memory, and the register gives the next byte, if there
is one and responses do not go by DMA. -/
def outstandingStep (pending : List Byte) : Event → Option (List Byte)
  | .respond bytes => if pending = [] ∧ bytes.sum = 0xff then some bytes else none
  | .write _ b =>
    match pending with
    | [] => none
    | b' :: rest => if b = b' then some rest else none
  | .read false v =>
    match pending with
    | [] => some []
    | b :: rest => if v = b then some rest else none
  | _ => some pending

def outstanding (log : List Event) : Option (List Byte) := log.foldlM outstandingStep []

/-- The bytes of the response that have not gone out. -/
def pending (cd : Cd) : List Byte :=
  if cd.cdromReceiveLength = 0 then []
  else cd.cdromResultBuffer.slice cd.cdromReceiveOffset
    (cd.cdromReceiveLength - cd.cdromReceiveOffset)

/-- What holds on the wire since the last reset. -/
structure Protocol (cd : Cd) : Prop where
  index : cd.cdromCommandLength < 32
  commands : (dispatched cd.log, cd.cdromCommandBuffer.slice 0 cd.cdromCommandLength) =
    splitCommands (accepted cd.log)
  responses : outstanding cd.log = some (pending cd)
  places : (written cd.log).map (· % 1024) = (List.range (written cd.log).length).map (· % 256)

/-! ### The wire, event by event -/

@[simp] theorem accepted_append (log log' : List Event) :
    accepted (log ++ log') = accepted log ++ accepted log' := List.filterMap_append

@[simp] theorem dispatched_append (log log' : List Event) :
    dispatched (log ++ log') = dispatched log ++ dispatched log' := List.filterMap_append

@[simp] theorem written_append (log log' : List Event) :
    written (log ++ log') = written log ++ written log' := List.filterMap_append

theorem outstanding_append {log : List Event} {bytes : List Byte} (h : outstanding log = some bytes)
    (e : Event) : outstanding (log ++ [e]) = outstandingStep bytes e := by
  rw [outstanding] at h ⊢
  rw [List.foldlM_append, h]
  change (List.foldlM outstandingStep bytes [e]) = _
  rw [List.foldlM_cons]
  cases outstandingStep bytes e <;> rfl

theorem splitCommands_append (bytes : List Byte) (b : Byte) :
    splitCommands (bytes ++ [b]) = pushByte (splitCommands bytes) b := by
  rw [splitCommands, splitCommands, List.foldl_append]
  rfl

theorem needed_bounds (b : Byte) : 1 ≤ needed b ∧ needed b ≤ 13 := by
  have hlengths : ∀ n < 16, ∀ len ∈ ([1, 2, 1, 1, 12, 2, 1, 1, 4, 1, 2] : List Nat)[n]?,
      len ≤ 12 := by decide
  rw [needed]
  cases hlen : commandLengths b with
  | none => exact ⟨Nat.le_refl _, by decide⟩
  | some len =>
    have := hlengths (b.toNat % 16) (Nat.mod_lt _ (by decide)) len hlen
    exact ⟨Nat.le_add_left 1 len, Nat.add_le_add_right this 1⟩

/-- A command that is not complete has fewer bytes than it needs. -/
theorem splitCommands_partial (bytes : List Byte) :
    (splitCommands bytes).2 = [] ∨
      (splitCommands bytes).2.length < needed ((splitCommands bytes).2.headD 0) := by
  induction bytes using List.reverseRecOn with
  | nil => exact .inl rfl
  | append_singleton bytes b ih =>
    rw [splitCommands_append, pushByte]
    split_ifs with hfull
    · exact .inl rfl
    · refine .inr (lt_of_le_of_ne ?_ hfull)
      rw [List.length_append, List.length_singleton]
      rcases ih with hnil | hlt
      · rw [hnil]
        exact (needed_bounds _).1
      · cases hbytes : (splitCommands bytes).2 with
        | nil => exact (needed_bounds _).1
        | cons b' rest =>
          rw [hbytes] at hlt
          exact hlt

/-! ### What the parts of the firmware keep -/

/-- Bytes were put to memory in a circle, and the next one goes on with it. -/
structure Placed (cd : Cd) : Prop where
  misc : cd.cdromAddressmisc.toNat % 1024 = 0
  index : cd.cdcomrxinx = BitVec.ofNat 8 (written cd.log).length
  places : (written cd.log).map (· % 1024) = (List.range (written cd.log).length).map (· % 256)

/-- The response in progress is what is to go out. -/
structure ResponseInv (cd : Cd) : Prop where
  inside : cd.cdromReceiveLength ≠ 0 →
    cd.cdromReceiveOffset ≤ cd.cdromReceiveLength ∧ cd.cdromReceiveLength ≤ 32
  responses : outstanding cd.log = some (pending cd)
  pbx : cd.cdromPbx.toNat < 2 ^ 16
  placed : Placed cd

/-- A step that takes no command bytes. -/
structure Responds (cd cd' : Cd) : Prop where
  commandActive : cd'.cdromCommandActive = cd.cdromCommandActive
  commandLength : cd'.cdromCommandLength = cd.cdromCommandLength
  commandBuffer : cd'.cdromCommandBuffer = cd.cdromCommandBuffer
  accepted : accepted cd'.log = accepted cd.log
  dispatched : dispatched cd'.log = dispatched cd.log
  response : ResponseInv cd → ResponseInv cd'

/-- A step that changes nothing on the wire, but maybe the bytes of the next response. -/
structure Quiet (cd cd' : Cd) : Prop where
  commandActive : cd'.cdromCommandActive = cd.cdromCommandActive
  commandLength : cd'.cdromCommandLength = cd.cdromCommandLength
  commandBuffer : cd'.cdromCommandBuffer = cd.cdromCommandBuffer
  receiveLength : cd'.cdromReceiveLength = cd.cdromReceiveLength
  receiveOffset : cd'.cdromReceiveOffset = cd.cdromReceiveOffset
  pbx : cd'.cdromPbx = cd.cdromPbx
  misc : cd'.cdromAddressmisc = cd.cdromAddressmisc
  index : cd'.cdcomrxinx = cd.cdcomrxinx
  log : cd'.log = cd.log

variable {cd cd' cd'' : Cd} {env : Env} {handler : Handler}

theorem Responds.refl (cd : Cd) : Responds cd cd := ⟨rfl, rfl, rfl, rfl, rfl, id⟩

theorem Responds.trans (h : Responds cd cd') (h' : Responds cd' cd'') : Responds cd cd'' :=
  ⟨h'.commandActive.trans h.commandActive, h'.commandLength.trans h.commandLength,
    h'.commandBuffer.trans h.commandBuffer, h'.accepted.trans h.accepted,
    h'.dispatched.trans h.dispatched, h'.response ∘ h.response⟩

theorem Quiet.refl (cd : Cd) : Quiet cd cd := ⟨rfl, rfl, rfl, rfl, rfl, rfl, rfl, rfl, rfl⟩

theorem Quiet.trans (h : Quiet cd cd') (h' : Quiet cd' cd'') : Quiet cd cd'' :=
  ⟨h'.commandActive.trans h.commandActive, h'.commandLength.trans h.commandLength,
    h'.commandBuffer.trans h.commandBuffer, h'.receiveLength.trans h.receiveLength,
    h'.receiveOffset.trans h.receiveOffset, h'.pbx.trans h.pbx, h'.misc.trans h.misc,
    h'.index.trans h.index, h'.log.trans h.log⟩

/-- Nothing else was put to memory. -/
theorem Placed.same (h : Placed cd) (hmisc : cd'.cdromAddressmisc = cd.cdromAddressmisc)
    (hindex : cd'.cdcomrxinx = cd.cdcomrxinx) (hwritten : written cd'.log = written cd.log) :
    Placed cd' := by
  refine ⟨hmisc ▸ h.misc, ?_, ?_⟩
  · rw [hwritten, hindex]
    exact h.index
  · rw [hwritten]
    exact h.places

theorem Quiet.placed (h : Quiet cd cd') (hp : Placed cd) : Placed cd' :=
  hp.same h.misc h.index (congrArg _ h.log)

/-- Without a response in progress nothing more is needed. -/
theorem Quiet.idle (h : Quiet cd cd') (hidle : cd.cdromReceiveLength = 0) : Responds cd cd' := by
  have hidle' := h.receiveLength.trans hidle
  refine ⟨h.commandActive, h.commandLength, h.commandBuffer, congrArg _ h.log,
    congrArg _ h.log, fun hr =>
      ⟨fun hne => absurd hidle' hne, ?_, h.pbx ▸ hr.pbx, h.placed hr.placed⟩⟩
  rw [h.log, hr.responses, pending, pending, if_pos hidle, if_pos hidle']

/-- A response in progress stays if its bytes do. -/
theorem Quiet.sameResult (h : Quiet cd cd') (hsame : cd'.cdromResultBuffer = cd.cdromResultBuffer) :
    Responds cd cd' := by
  refine ⟨h.commandActive, h.commandLength, h.commandBuffer, congrArg _ h.log,
    congrArg _ h.log, fun hr => ⟨?_, ?_, h.pbx ▸ hr.pbx, h.placed hr.placed⟩⟩
  · rw [h.receiveLength, h.receiveOffset]
    exact hr.inside
  · rw [h.log, hr.responses, pending, pending, h.receiveLength, h.receiveOffset, hsame]

theorem setStatus_responds (cd : Cd) (status : BitVec 32) : Responds cd (setStatus cd status) :=
  Quiet.sameResult ⟨rfl, rfl, rfl, rfl, rfl, rfl, rfl, rfl, rfl⟩ rfl

theorem clearStatus_responds (cd : Cd) (status : BitVec 32) : Responds cd (clearStatus cd status) :=
  Quiet.sameResult ⟨rfl, rfl, rfl, rfl, rfl, rfl, rfl, rfl, rfl⟩ rfl

theorem putResults_quiet (cd : Cd) (i : Nat) (bytes : List Byte) : Quiet cd (putResults cd i bytes) :=
  ⟨rfl, rfl, rfl, rfl, rfl, rfl, rfl, rfl, rfl⟩

theorem putResult_quiet (cd : Cd) (i : Nat) (b : Byte) : Quiet cd (putResult cd i b) :=
  ⟨rfl, rfl, rfl, rfl, rfl, rfl, rfl, rfl, rfl⟩

/-! ### Starting a response -/

theorem foldl_sub_sum (bytes : List Byte) (c : Byte) :
    bytes.foldl (· - ·) c + bytes.sum = c := by
  induction bytes generalizing c with
  | nil => simp
  | cons b bytes ih =>
    rw [List.foldl_cons, List.sum_cons]
    have hb := ih (c - b)
    generalize bytes.foldl (· - ·) (c - b) = x at *
    generalize bytes.sum = y at *
    bv_omega

/-- With its checksum a response sums up to `0xff`. -/
theorem sum_response (result : Image) (len : Nat) :
    ((result.blit len [checksumOf (result.slice 0 len)]).slice 0 (len + 1)).sum = 0xff := by
  have hhead : (result.blit len [checksumOf (result.slice 0 len)]).slice 0 len =
      result.slice 0 len := Agree.slice (agree_blit (.inl (Nat.le_of_eq (Nat.zero_add len))))
  have htail : (result.blit len [checksumOf (result.slice 0 len)]).slice (0 + len) 1 =
      [checksumOf (result.slice 0 len)] := by
    rw [Nat.zero_add]
    exact slice_blit result len [checksumOf (result.slice 0 len)]
  rw [slice_add, hhead, htail, List.sum_append, List.sum_singleton, BitVec.add_comm]
  exact foldl_sub_sum _ _

theorem startReturnData_responds (hidle : cd.cdromReceiveLength = 0) {len : Nat} (hlen : len < 32) :
    Responds cd (cdromStartReturnData cd len) := by
  rw [cdromStartReturnData]
  have hcan : ¬ cdromCanReturnData cd = false := by
    rw [cdromCanReturnData, hidle]
    decide
  rw [if_neg hcan]
  by_cases hzero : len = 0
  · rw [if_pos hzero]
    exact Responds.refl cd
  · rw [if_neg hzero]
    dsimp only
    refine Responds.trans ?_ (setStatus_responds _ _)
    refine ⟨rfl, rfl, rfl, ?_, ?_, fun hr => ⟨fun _ => ⟨Nat.zero_le _, hlen⟩, ?_, hr.pbx,
      hr.placed.same rfl rfl ?_⟩⟩
    · rw [accepted_append]
      exact List.append_nil _
    · rw [dispatched_append]
      exact List.append_nil _
    · have hpending : pending cd = [] := if_pos hidle
      rw [outstanding_append (hpending ▸ hr.responses), outstandingStep,
        if_pos ⟨rfl, sum_response _ _⟩, pending, if_neg (Nat.succ_ne_zero len)]
      rfl
    · exact (written_append _ _).trans (List.append_nil _)

theorem notify_responds (hquiet : Quiet cd (handler cd).2) (hlen : (handler cd).1 < 32)
    (hidle : cd.cdromReceiveLength = 0) : Responds cd (notify handler cd) :=
  (hquiet.idle hidle).trans
    (startReturnData_responds (hquiet.receiveLength.trans hidle) hlen)

/-! ### Bytes that go out -/

theorem pending_eq_cons (hmore : cd.cdromReceiveOffset < cd.cdromReceiveLength) :
    pending cd = cd.cdromResultBuffer cd.cdromReceiveOffset :: pending (nextByte cd) := by
  have hne : cd.cdromReceiveLength ≠ 0 := by omega
  have hone : cd.cdromReceiveLength - cd.cdromReceiveOffset =
      1 + (cd.cdromReceiveLength - (cd.cdromReceiveOffset + 1)) := by omega
  have hne' : ¬ (nextByte cd).cdromReceiveLength = 0 := hne
  rw [pending, if_neg hne, hone, slice_add, pending, if_neg hne']
  rfl

/-- An event that takes the next byte. -/
theorem outstanding_nextByte (hmore : cd.cdromReceiveOffset < cd.cdromReceiveLength)
    (hout : outstanding cd.log = some (pending cd)) {e : Event}
    (he : ∀ rest, outstandingStep (cd.cdromResultBuffer cd.cdromReceiveOffset :: rest) e =
      some rest) :
    outstanding (cd.log ++ [e]) = some (pending (nextByte cd)) := by
  rw [pending_eq_cons hmore] at hout
  rw [outstanding_append hout, he]

/-- The next byte is put behind the one before. -/
theorem Placed.putReceived (h : Placed cd) : Placed (putReceived cd) := by
  have hindex := congrArg BitVec.toNat h.index
  rw [BitVec.toNat_ofNat] at hindex
  have hplace : (cdrxAddress cd + cd.cdcomrxinx.toNat) % 1024 = (written cd.log).length % 256 := by
    rw [cdrxAddress, hindex]
    have hmisc := h.misc
    omega
  have hwritten : written (Akiko.putReceived cd).log =
      written cd.log ++ [cdrxAddress cd + cd.cdcomrxinx.toNat] := written_append _ _
  refine ⟨h.misc, ?_, ?_⟩
  · rw [hwritten, List.length_append, List.length_singleton, BitVec.ofNat_add]
    change cd.cdcomrxinx + 1 = _
    rw [h.index]
    rfl
  · rw [hwritten, List.map_append, h.places, List.length_append, List.length_singleton,
      List.range_succ, List.map_append, List.map_singleton, List.map_singleton, hplace]

theorem putReceived_responds (hmore : cd.cdromReceiveOffset < cd.cdromReceiveLength) :
    Responds cd (putReceived (nextByte cd)) := by
  refine ⟨rfl, rfl, rfl, ?_, ?_, fun hr =>
    ⟨fun hne => ⟨hmore, (hr.inside hne).2⟩, ?_, hr.pbx, ?_⟩⟩
  · exact (accepted_append _ _).trans (List.append_nil _)
  · exact (dispatched_append _ _).trans (List.append_nil _)
  · exact outstanding_nextByte hmore hr.responses fun _ => if_pos rfl
  · exact Placed.putReceived (hr.placed.same rfl rfl rfl)

/-- The response is out. -/
theorem finish_responds (hend : cd.cdromReceiveOffset = cd.cdromReceiveLength) (offset : Nat) :
    Responds cd { cd with cdromReceiveLength := 0, cdromReceiveOffset := offset } := by
  refine ⟨rfl, rfl, rfl, rfl, rfl, fun hr => ⟨fun hne => absurd rfl hne, ?_, hr.pbx,
    hr.placed.same rfl rfl rfl⟩⟩
  have hpending : pending cd = [] := by
    rw [pending, hend, Nat.sub_self]
    exact ite_self _
  have hout := hr.responses
  rw [hpending] at hout
  exact hout

theorem returnLoop_responds (n : Nat) {cd : Cd}
    (hn : cd.cdromReceiveOffset + n = cd.cdromReceiveLength) : Responds cd (returnLoop n cd) := by
  induction n generalizing cd with
  | zero => exact Responds.refl cd
  | succ n ih =>
    have hnext := putReceived_responds
      (show cd.cdromReceiveOffset < cd.cdromReceiveLength by omega)
    rw [returnLoop]
    split_ifs
    · exact hnext.trans (setStatus_responds _ _)
    · refine hnext.trans (ih ?_)
      change cd.cdromReceiveOffset + 1 + n = cd.cdromReceiveLength
      omega

theorem cdromReturnData_responds (hinside : cd.cdromReceiveLength ≠ 0 →
    cd.cdromReceiveOffset ≤ cd.cdromReceiveLength) : Responds cd (cdromReturnData cd) := by
  rw [cdromReturnData]
  split_ifs with h1 h2 h3 h4
  · exact Responds.refl cd
  · exact Responds.refl cd
  · exact Responds.refl cd
  · exact Responds.refl cd
  · have hloop := returnLoop_responds (cd.cdromReceiveLength - cd.cdromReceiveOffset)
      (Nat.add_sub_cancel' (hinside h1))
    dsimp only
    split_ifs with hend
    · exact (hloop.trans (finish_responds hend 0)).trans
        ((clearStatus_responds _ _).trans (setStatus_responds _ _))
    · exact hloop

/-- A read of the register: the program sees the next byte of the response. -/
theorem receiveByte_responds (cd : Cd) :
    Responds cd (noteRead 0x28 (receiveByte cd).cdromLastRx (receiveByte cd)) := by
  have hlog : ∀ (rxd : Bool) (v : Byte), accepted (cd.log ++ [.read rxd v]) = accepted cd.log ∧
      dispatched (cd.log ++ [.read rxd v]) = dispatched cd.log ∧
      written (cd.log ++ [.read rxd v]) = written cd.log := fun rxd v =>
    ⟨(accepted_append _ _).trans (List.append_nil _),
      (dispatched_append _ _).trans (List.append_nil _),
      (written_append _ _).trans (List.append_nil _)⟩
  by_cases hmore : flagSet cd.cdromFlags cdflagRxd = false ∧
      cd.cdromReceiveOffset < cd.cdromReceiveLength
  · have hdeliver : Responds cd { nextByte cd with
        log := cd.log ++ [.read false (nextByte cd).cdromLastRx] } := by
      obtain ⟨haccepted, hdispatched, hwritten⟩ := hlog false (nextByte cd).cdromLastRx
      refine ⟨rfl, rfl, rfl, haccepted, hdispatched, fun hr =>
        ⟨fun hne => ⟨hmore.2, (hr.inside hne).2⟩, ?_, hr.pbx, hr.placed.same rfl rfl hwritten⟩⟩
      exact outstanding_nextByte hmore.2 hr.responses fun _ => if_pos rfl
    have hrxd : flagSet (nextByte cd).cdromFlags cdflagRxd = false := hmore.1
    rw [noteRead, if_pos rfl, receiveByte, if_pos hmore]
    by_cases hend : (nextByte cd).cdromReceiveOffset = (nextByte cd).cdromReceiveLength
    · have hfinish := @finish_responds { nextByte cd with
        log := cd.log ++ [.read false (nextByte cd).cdromLastRx] } hend
        (nextByte cd).cdromReceiveOffset
      dsimp only
      rw [if_pos hend]
      refine (hdeliver.trans hfinish).trans ?_
      refine ((clearStatus_responds _ cdinterruptDriverecv).trans
        (setStatus_responds _ cdinterruptDrivexmit)).trans (Quiet.sameResult ?_ rfl)
      exact ⟨rfl, rfl, rfl, rfl, rfl, rfl, rfl, rfl, hrxd ▸ rfl⟩
    · dsimp only
      rw [if_neg hend, hrxd]
      exact hdeliver
  · obtain ⟨haccepted, hdispatched, hwritten⟩ := hlog (flagSet cd.cdromFlags cdflagRxd)
      cd.cdromLastRx
    rw [noteRead, if_pos rfl, receiveByte, if_neg hmore]
    refine ⟨rfl, rfl, rfl, haccepted, hdispatched, fun hr =>
      ⟨hr.inside, ?_, hr.pbx, hr.placed.same rfl rfl hwritten⟩⟩
    change outstanding (cd.log ++ [.read (flagSet cd.cdromFlags cdflagRxd) cd.cdromLastRx]) =
      some (pending cd)
    rw [outstanding_append hr.responses]
    cases hrxd : flagSet cd.cdromFlags cdflagRxd with
    | true => rfl
    | false =>
      -- Nothing is left to go out.
      have hnone : pending cd = [] := by
        have hend : ¬ cd.cdromReceiveOffset < cd.cdromReceiveLength := fun h => hmore ⟨hrxd, h⟩
        rw [pending, Nat.sub_eq_zero_of_le (Nat.le_of_not_lt hend)]
        exact ite_self _
      rw [hnone]
      rfl

/-! ### The commands -/

theorem setTocCounter_quiet (cd : Cd) (v : Int) : Quiet cd (setTocCounter cd v) :=
  ⟨rfl, rfl, rfl, rfl, rfl, rfl, rfl, rfl, rfl⟩

theorem setPaused_quiet (cd : Cd) (v : Int) : Quiet cd (setPaused cd v) :=
  ⟨rfl, rfl, rfl, rfl, rfl, rfl, rfl, rfl, rfl⟩

theorem setPlaying_quiet (cd : Cd) (v : Int) : Quiet cd (setPlaying cd v) :=
  ⟨rfl, rfl, rfl, rfl, rfl, rfl, rfl, rfl, rfl⟩

theorem setAudiotimeout_quiet (cd : Cd) (v : Int) : Quiet cd (setAudiotimeout cd v) :=
  ⟨rfl, rfl, rfl, rfl, rfl, rfl, rfl, rfl, rfl⟩

theorem setInitialized_quiet (cd : Cd) (v : Nat) : Quiet cd (setInitialized cd v) :=
  ⟨rfl, rfl, rfl, rfl, rfl, rfl, rfl, rfl, rfl⟩

theorem cdaudiostop_quiet (cd : Cd) : Quiet cd (cdaudiostop cd) :=
  ⟨rfl, rfl, rfl, rfl, rfl, rfl, rfl, rfl, rfl⟩

theorem checkerr_quiet {cd₁ : Cd} (h : checkerr cd = some cd₁) : Quiet cd cd₁ := by
  rw [checkerr] at h
  split_ifs at h
  cases h
  exact putResult_quiet _ _ _

theorem getCdromToc_quiet (env : Env) (cd : Cd) : Quiet cd (getCdromToc env cd) := by
  rw [getCdromToc]
  rcases env.toc with _ | ⟨points, buffer⟩ <;> exact ⟨rfl, rfl, rfl, rfl, rfl, rfl, rfl, rfl, rfl⟩

/-- A handler that only fills the response, which has room for it. -/
structure Answers (handler : Handler) : Prop where
  quiet : ∀ cd, Quiet cd (handler cd).2
  length : ∀ cd, (handler cd).1 < 32

/-- The bytes that every answer to a command starts with. -/
theorem answer_quiet (h : Quiet cd cd') (i j : Nat) (b c : Byte) :
    Quiet cd (putResult (putResult cd' i b) j c) :=
  h.trans ((putResult_quiet cd' i b).trans (putResult_quiet _ j c))

theorem commandStop_answers : Answers cdromCommandStop := by
  refine ⟨fun cd => ?_, fun cd => ?_⟩
  · have hquiet := (setAudiotimeout_quiet cd 0).trans (putResult_quiet _ 0 cd.cdromCommand)
    rw [cdromCommandStop]
    split
    · rename_i cd₁ herr
      exact hquiet.trans (checkerr_quiet herr)
    · exact hquiet.trans ((putResult_quiet _ 1 0).trans (cdaudiostop_quiet _))
  · rw [cdromCommandStop]
    split <;> exact (show 2 < 32 by decide)

theorem commandPause_answers : Answers cdromCommandPause := by
  refine ⟨fun cd => ?_, fun cd => ?_⟩
  · have hquiet := ((setAudiotimeout_quiet cd 0).trans (setTocCounter_quiet _ (-1))).trans
      (putResult_quiet _ 0 cd.cdromCommand)
    rw [cdromCommandPause]
    split
    · rename_i cd₁ herr
      exact hquiet.trans (checkerr_quiet herr)
    · exact hquiet.trans ((putResult_quiet _ 1 _).trans (setPaused_quiet _ _))
  · rw [cdromCommandPause]
    split <;> exact (show 2 < 32 by decide)

theorem commandUnpause_answers : Answers cdromCommandUnpause := by
  refine ⟨fun cd => ?_, fun cd => ?_⟩
  · have hquiet := putResult_quiet cd 0 cd.cdromCommand
    rw [cdromCommandUnpause]
    split
    · rename_i cd₁ herr
      exact hquiet.trans (checkerr_quiet herr)
    · exact hquiet.trans ((putResult_quiet _ 1 _).trans (setPaused_quiet _ _))
  · rw [cdromCommandUnpause]
    split <;> exact (show 2 < 32 by decide)

theorem commandMulti_answers (env : Env) : Answers (cdromCommandMulti env) := by
  refine ⟨fun cd => ?_, fun cd => ?_⟩
  · have hstop : Quiet cd (if cd.cdromPlaying ≠ 0 then cdaudiostop cd else cd) := by
      split_ifs
      · exact cdaudiostop_quiet cd
      · exact Quiet.refl cd
    have hquiet := fun b => answer_quiet (hstop.trans (setPaused_quiet _ 0)) 0 1 b 0
    rw [cdromCommandMulti]
    generalize (if cd.cdromPlaying ≠ 0 then cdaudiostop cd else cd) = cd₁ at *
    split_ifs
    · exact (hquiet _).trans (putResult_quiet _ 1 1)
    · exact (hquiet _).trans (putResult_quiet _ 1 2)
    · exact (hquiet _).trans (setTocCounter_quiet _ 0)
    · exact (hquiet _).trans ((setTocCounter_quiet _ (-1)).trans ((setPlaying_quiet _ 1).trans
        ((setAudiotimeout_quiet _ _).trans (putResult_quiet _ 1 0x42))))
  · rw [cdromCommandMulti]
    split_ifs <;> exact (show 2 < 32 by decide)

theorem commandLed_answers : Answers cdromCommandLed := by
  refine ⟨fun cd => ?_, fun cd => ?_⟩
  · have hled : Quiet cd { cd with ledActive := decide (cd.cdromCommandBuffer 1 &&& 1 ≠ 0) } :=
      ⟨rfl, rfl, rfl, rfl, rfl, rfl, rfl, rfl, rfl⟩
    rw [cdromCommandLed]
    split_ifs
    · exact answer_quiet hled 0 1 _ _
    · exact hled
  · rw [cdromCommandLed]
    split_ifs
    · exact (show 2 < 32 by decide)
    · exact (show 0 < 32 by decide)

theorem commandSubq_answers (env : Env) : Answers (cdromCommandSubq env) :=
  ⟨fun cd => (answer_quiet (Quiet.refl cd) 0 1 _ _).trans (putResults_quiet _ 2 _),
    fun _ => show 15 < 32 by decide⟩

theorem commandStatus_answers (env : Env) : Answers (cdromCommandStatus env) := by
  refine ⟨fun cd => ?_, fun cd => show 20 < 32 by decide⟩
  have hdoor := putResult_quiet cd 1 cdromDoor
  have htoc : Quiet cd (if env.unit then getCdromToc env (putResult cd 1 cdromDoor)
      else putResult cd 1 cdromDoor) := by
    split_ifs
    · exact hdoor.trans (getCdromToc_quiet env _)
    · exact hdoor
  exact htoc.trans ((putResults_quiet _ 2 _).trans ((putResult_quiet _ 0 _).trans
    (setInitialized_quiet _ 2)))

theorem mediaStatus_answers (env : Env) : Answers (cdromCommandMediaStatus env) :=
  ⟨fun cd => answer_quiet (Quiet.refl cd) 0 1 _ _, fun _ => show 2 < 32 by decide⟩

theorem playendNotify_answers (status : Int) : Answers (cdromPlayendNotify status) :=
  ⟨fun cd => answer_quiet (Quiet.refl cd) 0 1 _ _, fun _ => show 2 < 32 by decide⟩

theorem putTocEntry_quiet (cd : Cd) : Quiet cd (putTocEntry cd) :=
  (putResults_quiet cd 2 _).trans ((putResult_quiet _ 6 _).trans
    ((putResult_quiet _ 7 _).trans (putResult_quiet _ 8 _)))

theorem returnTocEntry_answers : Answers cdromReturnTocEntry := by
  refine ⟨fun cd => ?_, fun cd => ?_⟩
  · have hquiet := answer_quiet (Quiet.refl cd) 0 1 6
    rw [cdromReturnTocEntry]
    split_ifs
    · exact hquiet _
    · exact (hquiet _).trans ((putTocEntry_quiet _).trans (setTocCounter_quiet _ _))
  · rw [cdromReturnTocEntry]
    split_ifs <;> exact (show 15 < 32 by decide)

theorem commandError_answers : Answers commandError :=
  ⟨fun cd => answer_quiet (Quiet.refl cd) 0 1 _ _, fun _ => show 2 < 32 by decide⟩

theorem commandHandler_answers (env : Env) (command : Byte) :
    Answers (commandHandler env command) := by
  rw [commandHandler]
  split
  · exact ⟨fun _ => putResult_quiet _ _ _, fun _ => show 1 < 32 by decide⟩
  · exact commandStop_answers
  · exact commandPause_answers
  · exact commandUnpause_answers
  · exact commandMulti_answers env
  · exact commandLed_answers
  · exact commandSubq_answers env
  · exact commandStatus_answers env
  · exact ⟨Quiet.refl, fun _ => show 0 < 32 by decide⟩

theorem Answers.notify (h : Answers handler) (hidle : cd.cdromReceiveLength = 0) :
    Responds cd (Akiko.notify handler cd) := notify_responds (h.quiet cd) (h.length cd) hidle

/-! ### Command bytes -/

/-- The bytes taken so far are split into commands. -/
def Commands (cd : Cd) (rest : List Byte) : Prop :=
  (dispatched cd.log, rest) = splitCommands (accepted cd.log)

/-- The command buffer holds the bytes of the command that is not complete. -/
structure CommandInv (cd : Cd) : Prop where
  active : cd.cdromCommandActive = 0
  commands : Commands cd (cd.cdromCommandBuffer.slice 0 cd.cdromCommandLength)

/-- A command is complete and about to be run. -/
structure Complete (cd : Cd) : Prop where
  active : cd.cdromCommandActive = 1
  idle : cd.cdromReceiveLength = 0
  commands : Commands cd []

theorem CommandInv.length_lt (h : CommandInv cd) : cd.cdromCommandLength < 13 := by
  have hcommands := h.commands
  rw [Commands] at hcommands
  have hpartial := splitCommands_partial (accepted cd.log)
  rw [← hcommands, ← List.length_eq_zero_iff, length_slice] at hpartial
  dsimp only at hpartial
  have := (needed_bounds ((cd.cdromCommandBuffer.slice 0 cd.cdromCommandLength).headD 0)).2
  omega

theorem Responds.commandInv (h : Responds cd cd') (hc : CommandInv cd) : CommandInv cd' := by
  refine ⟨h.commandActive.trans hc.active, ?_⟩
  rw [Commands, h.accepted, h.dispatched, h.commandBuffer, h.commandLength]
  exact hc.commands

theorem slice_blit_succ (m : Image) (n : Nat) (b : Byte) :
    (m.blit n [b]).slice 0 (n + 1) = m.slice 0 n ++ [b] := by
  have hhead : (m.blit n [b]).slice 0 n = m.slice 0 n :=
    Agree.slice (agree_blit (.inl (Nat.le_of_eq (Nat.zero_add n))))
  have htail : (m.blit n [b]).slice (0 + n) 1 = [b] := by
    rw [Nat.zero_add]
    exact slice_blit m n [b]
  rw [slice_add, hhead, htail]

theorem headD_slice_succ (m : Image) (n : Nat) : (m.slice 0 (n + 1)).headD 0 = m 0 := by
  rw [slice, List.range_succ_eq_map]
  rfl

/-- A byte more does not go beyond the length of its command. -/
theorem CommandInv.succ_le (hc : CommandInv cd) (b : Byte) : cd.cdromCommandLength + 1 ≤
    needed (cd.cdromCommandBuffer.blit cd.cdromCommandLength [b] 0) := by
  by_cases hzero : cd.cdromCommandLength = 0
  · rw [hzero]
    exact (needed_bounds _).1
  · have hpartial := splitCommands_partial (accepted cd.log)
    have hcommands := hc.commands
    rw [Commands] at hcommands
    rw [← hcommands, ← List.length_eq_zero_iff, length_slice] at hpartial
    dsimp only at hpartial
    obtain ⟨n, hn⟩ := Nat.exists_eq_succ_of_ne_zero hzero
    rw [hn, headD_slice_succ] at hpartial
    rw [hn, blit_of_lt (Nat.succ_pos n)]
    rcases hpartial with h | h
    · exact absurd h (Nat.succ_ne_zero n)
    · exact h

/-- One more byte: the command goes on or is complete. -/
theorem addCommandByte_spec (hc : CommandInv cd) (hr : ResponseInv cd)
    (hidle : cd.cdromReceiveLength = 0) (b : Byte) :
    ∃ cd', cdromAddCommandByte cd b = .ok cd' ∧ ResponseInv cd' ∧ (CommandInv cd' ∨ Complete cd') := by
  have hlt := hc.length_lt
  have hle := hc.succ_le b
  have hslice := slice_blit_succ cd.cdromCommandBuffer cd.cdromCommandLength b
  have hhead := headD_slice_succ (cd.cdromCommandBuffer.blit cd.cdromCommandLength [b])
    cd.cdromCommandLength
  have hsplit : splitCommands (accepted (cd.log ++ [.accept b])) =
      pushByte (dispatched cd.log, cd.cdromCommandBuffer.slice 0 cd.cdromCommandLength) b := by
    rw [hc.commands, ← splitCommands_append, accepted_append]
    rfl
  rw [pushByte] at hsplit
  dsimp only at hsplit
  rw [← hslice, hhead, length_slice] at hsplit
  have hout : outstanding (cd.log ++ [.accept b]) = some [] := by
    rw [outstanding_append hr.responses, pending, if_pos hidle]
    rfl
  have houtDispatch : ∀ bytes, outstanding (cd.log ++ [.accept b] ++ [.dispatch bytes]) = some [] :=
    fun bytes => outstanding_append hout _
  have hdispatched : dispatched (cd.log ++ [.accept b]) = dispatched cd.log := by
    rw [dispatched_append]
    exact List.append_nil _
  have hwritten : written (cd.log ++ [.accept b]) = written cd.log :=
    (written_append _ _).trans (List.append_nil _)
  have hwrittenDispatch : ∀ bytes, written (cd.log ++ [.accept b] ++ [.dispatch bytes]) =
      written cd.log := fun bytes =>
    ((written_append _ _).trans (List.append_nil _)).trans hwritten
  rw [cdromAddCommandByte, if_neg (by omega)]
  dsimp only
  generalize cd.cdromCommandBuffer.blit cd.cdromCommandLength [b] = buffer at *
  have hfull : cd.cdromCommandLength + 1 = needed (buffer 0) →
      (dispatched (cd.log ++ [.accept b] ++ [.dispatch (buffer.slice 0 (cd.cdromCommandLength + 1))]),
        []) = splitCommands (accepted (cd.log ++ [.accept b] ++
          [.dispatch (buffer.slice 0 (cd.cdromCommandLength + 1))])) := by
    intro heq
    have hsame : accepted (cd.log ++ [.accept b] ++
        [.dispatch (buffer.slice 0 (cd.cdromCommandLength + 1))]) =
        accepted (cd.log ++ [.accept b]) := (accepted_append _ _).trans (List.append_nil _)
    rw [hsame, hsplit, if_pos heq, dispatched_append, hdispatched]
    rfl
  cases hlen : commandLengths (buffer 0) with
  | none =>
    have hneed : needed (buffer 0) = 1 := by rw [needed, hlen]; rfl
    refine ⟨_, rfl, ⟨fun hne => absurd hidle hne, ?_, hr.pbx,
      hr.placed.same rfl rfl (hwrittenDispatch _)⟩, .inr ⟨rfl, hidle, ?_⟩⟩
    · exact (houtDispatch _).trans (congrArg some (if_pos hidle).symm)
    · exact hfull (by omega)
  | some cmdLen =>
    have hneed : needed (buffer 0) = cmdLen + 1 := by rw [needed, hlen]; rfl
    dsimp only
    by_cases hmore : cmdLen + 1 > cd.cdromCommandLength + 1
    · rw [if_pos hmore]
      refine ⟨_, rfl, ⟨fun hne => absurd hidle hne, ?_, hr.pbx,
        hr.placed.same rfl rfl hwritten⟩, .inl ⟨hc.active, ?_⟩⟩
      · exact hout.trans (congrArg some (if_pos hidle).symm)
      · change (dispatched (cd.log ++ [.accept b]), buffer.slice 0 (cd.cdromCommandLength + 1)) =
          splitCommands (accepted (cd.log ++ [.accept b]))
        rw [hsplit, if_neg (by omega), hdispatched]
    · rw [if_neg hmore]
      refine ⟨_, rfl, ⟨fun hne => absurd hidle hne, ?_, hr.pbx,
        hr.placed.same rfl rfl (hwrittenDispatch _)⟩, .inr ⟨rfl, hidle, ?_⟩⟩
      · exact (houtDispatch _).trans (congrArg some (if_pos hidle).symm)
      · exact hfull (by omega)

/-! ### Running -/

theorem runCommandRun_spec (env : Env) (hidle : cd.cdromReceiveLength = 0)
    (hcommands : Commands cd []) (hr : ResponseInv cd) :
    CommandInv (cdromRunCommandRun env cd) ∧ ResponseInv (cdromRunCommandRun env cd) := by
  have hclear : ∀ cd₁ : Cd, cd₁.log = cd.log → cd₁.cdromReceiveLength = 0 →
      cd₁.cdromPbx = cd.cdromPbx → cd₁.cdromAddressmisc = cd.cdromAddressmisc →
      cd₁.cdcomrxinx = cd.cdcomrxinx → cd₁.cdromCommandActive = 0 →
      cd₁.cdromCommandLength = 0 → CommandInv cd₁ ∧ ResponseInv cd₁ := by
    intro cd₁ hlog hidle₀ hpbx hmisc hindex hactive hlength
    refine ⟨⟨hactive, ?_⟩, fun hne => absurd hidle₀ hne, ?_, hpbx ▸ hr.pbx,
      hr.placed.same hmisc hindex (congrArg _ hlog)⟩
    · rw [Commands, hlog, hlength]
      exact hcommands
    · rw [hlog, hr.responses, pending, pending, if_pos hidle, if_pos hidle₀]
  rw [cdromRunCommandRun]
  generalize hcd₁ : ({ cd with
    cdromCommandLength := 0
    cdromCommandActive := 0
    cdromResultBuffer := cd.cdromResultBuffer.blit 0 (List.replicate 32 0) } : Cd) = cd₁
  obtain ⟨hc₁, hr₁⟩ := hclear cd₁ (hcd₁ ▸ rfl) (hcd₁ ▸ hidle) (hcd₁ ▸ rfl) (hcd₁ ▸ rfl)
    (hcd₁ ▸ rfl) (hcd₁ ▸ rfl) (hcd₁ ▸ rfl)
  have hidle₁ : cd₁.cdromReceiveLength = 0 := hcd₁ ▸ hidle
  have hdone : ∀ {cd₂ : Cd}, Responds cd₁ cd₂ → CommandInv cd₂ ∧ ResponseInv cd₂ :=
    fun h => ⟨h.commandInv hc₁, h.response hr₁⟩
  dsimp only
  split_ifs
  · exact hdone (commandError_answers.notify hidle₁)
  · have hquiet := (commandHandler_answers env cd₁.cdromCommand).quiet cd₁
    exact hdone ((hquiet.idle hidle₁).trans (setStatus_responds _ _))
  · exact hdone ((commandHandler_answers env cd₁.cdromCommand).notify hidle₁)

/-- What holds between any two steps. -/
structure Inv (cd : Cd) : Prop where
  command : CommandInv cd
  response : ResponseInv cd

theorem Responds.inv (h : Responds cd cd') (hi : Inv cd) : Inv cd' :=
  ⟨h.commandInv hi.command, h.response hi.response⟩

theorem Inv.protocol (hi : Inv cd) : Protocol cd :=
  ⟨Nat.lt_trans hi.command.length_lt (by decide), hi.command.commands, hi.response.responses,
    hi.response.placed.places⟩

theorem canSendCommand_idle (h : canSendCommand cd = true) : cd.cdromReceiveLength = 0 := by
  rw [canSendCommand, Bool.and_eq_true] at h
  exact of_decide_eq_true h.2

theorem countTxByte_quiet (cd : Cd) : Quiet cd (countTxByte cd) := by
  rw [countTxByte]
  split_ifs <;> exact ⟨rfl, rfl, rfl, rfl, rfl, rfl, rfl, rfl, rfl⟩

theorem countTxByte_responds (cd : Cd) : Responds cd (countTxByte cd) := by
  refine (countTxByte_quiet cd).sameResult ?_
  rw [countTxByte]
  split_ifs <;> rfl

theorem Quiet.complete (h : Quiet cd cd') (hc : Complete cd) : Complete cd' := by
  refine ⟨h.commandActive.trans hc.active, h.receiveLength.trans hc.idle, ?_⟩
  rw [Commands, h.log]
  exact hc.commands

/-- Between two steps, or with a complete command. -/
def Ready (cd : Cd) : Prop := ResponseInv cd ∧ (CommandInv cd ∨ Complete cd)

theorem Inv.ready (hi : Inv cd) : Ready cd := ⟨hi.response, .inl hi.command⟩

theorem runCommand_spec (env : Env) (hi : Ready cd) :
    ∃ cd', cdromRunCommand env cd = .ok cd' ∧ Ready cd' := by
  rw [cdromRunCommand]
  split_ifs with h1 h2 h3 h4 h5
  · exact ⟨cd, rfl, hi⟩
  · exact ⟨cd, rfl, hi⟩
  · exact ⟨cd, rfl, hi⟩
  · exact ⟨cd, rfl, hi⟩
  · exact ⟨cd, rfl, hi⟩
  · have hcan : canSendCommand cd = true := Bool.not_eq_false _ ▸ h5
    rcases hi.2 with hc | hcomplete
    · obtain ⟨cd₁, hadd, hr, hc₁⟩ := addCommandByte_spec hc hi.1 (canSendCommand_idle hcan)
        (env.memory (cdtxAddress cd + cd.cdcomtxinx.toNat))
      have hcount := countTxByte_responds cd₁
      rw [hadd]
      exact ⟨_, rfl, hcount.response hr, hc₁.imp hcount.commandInv (countTxByte_quiet cd₁).complete⟩
    · rw [canSendCommand, hcomplete.active] at hcan
      simp at hcan

theorem runActive_spec (env : Env) (hi : Ready cd) : Inv (runActive env cd) := by
  rw [runActive]
  rcases hi.2 with hc | hcomplete
  · rw [if_neg (by rw [hc.active]; decide)]
    exact ⟨hc, hi.1⟩
  · have hpos : cd.cdromCommandActive > 0 := by
      rw [hcomplete.active]
      decide
    rw [if_pos hpos]
    dsimp only
    rw [if_pos (show cd.cdromCommandActive - 1 = 0 by rw [hcomplete.active])]
    have hquiet : Responds cd { cd with cdromCommandActive := cd.cdromCommandActive } :=
      Responds.refl cd
    obtain ⟨hc, hr⟩ := runCommandRun_spec env
      (show ({ cd with cdromCommandActive := cd.cdromCommandActive - 1 } : Cd).cdromReceiveLength = 0
        from hcomplete.idle) hcomplete.commands ⟨hi.1.inside, hi.1.responses, hi.1.pbx,
        hi.1.placed.same rfl rfl rfl⟩
    exact ⟨hc, hr⟩

theorem returnData_ready (hi : Ready cd) : Ready (cdromReturnData cd) := by
  rcases hi.2 with hc | hcomplete
  · have hreturn := cdromReturnData_responds fun hne => (hi.1.inside hne).1
    exact ⟨hreturn.response hi.1, .inl (hreturn.commandInv hc)⟩
  · rw [cdromReturnData, if_pos hcomplete.idle]
    exact hi

theorem akikoInternal_spec (env : Env) (hi : Ready cd) :
    ∃ cd', akikoInternal env cd = .ok cd' ∧ Inv cd' := by
  obtain ⟨cd₁, hrun, hready⟩ := runCommand_spec env (returnData_ready hi)
  exact ⟨runActive env cd₁, by rw [akikoInternal, hrun]; rfl, runActive_spec env hready⟩

/-! ### The handler -/

theorem setAudiotimeout_responds (cd : Cd) (v : Int) : Responds cd (setAudiotimeout cd v) :=
  (setAudiotimeout_quiet cd v).sameResult rfl

theorem setPlaying_responds (cd : Cd) (v : Int) : Responds cd (setPlaying cd v) :=
  (setPlaying_quiet cd v).sameResult rfl

theorem setInitialized_responds (cd : Cd) (v : Nat) : Responds cd (setInitialized cd v) :=
  (setInitialized_quiet cd v).sameResult rfl

theorem canReturnData_idle (h : cdromCanReturnData cd = true) : cd.cdromReceiveLength = 0 := by
  rw [cdromCanReturnData, Bool.not_eq_true', decide_eq_false_iff_not] at h
  exact Nat.eq_zero_of_not_pos h

theorem countAudiotimeout_responds (cd : Cd) : Responds cd (countAudiotimeout cd) := by
  rw [countAudiotimeout]
  split_ifs
  · exact setAudiotimeout_responds cd _
  · exact Responds.refl cd

theorem notifyPlayStart_responds (hidle : cd.cdromReceiveLength = 0) :
    Responds cd (notifyPlayStart cd) := by
  rw [notifyPlayStart]
  split_ifs
  · exact (playendNotify_answers 0).notify hidle
  · exact Responds.refl cd

theorem audioStarts_responds (cd : Cd) : Responds cd (audioStarts cd) := by
  rw [audioStarts]
  by_cases h : cd.cdromAudiotimeout = 1 ∧ cdromCanReturnData cd = true
  · rw [if_pos h]
    have hidle := canReturnData_idle h.2
    have hplaying : Quiet cd (if cd.cdromPlaying = 0 then setPlaying cd 1 else cd) := by
      split_ifs
      · exact setPlaying_quiet cd 1
      · exact Quiet.refl cd
    exact ((hplaying.idle hidle).trans
      (notifyPlayStart_responds (hplaying.receiveLength.trans hidle))).trans
      ((setPlaying_responds _ 2).trans (setAudiotimeout_responds _ 0))
  · rw [if_neg h]
    exact Responds.refl cd

theorem audioEnds_responds (cd : Cd) : Responds cd (audioEnds cd) := by
  rw [audioEnds]
  split_ifs
  · exact ((cdaudiostop_quiet cd).sameResult rfl).trans (setAudiotimeout_responds _ _)
  · exact setAudiotimeout_responds cd 0
  · exact Responds.refl cd

theorem audioNotify_responds (at' status : Int) (cd : Cd) :
    Responds cd (audioNotify at' status cd) := by
  rw [audioNotify]
  split_ifs with h
  · exact Responds.trans ((playendNotify_answers status).notify (canReturnData_idle h.2))
      (setAudiotimeout_responds _ 0)
  · exact Responds.refl cd

theorem getCdromToc_responds (env : Env) (cd : Cd) : Responds cd (getCdromToc env cd) := by
  refine (getCdromToc_quiet env cd).sameResult ?_
  rw [getCdromToc]
  rcases env.toc with _ | ⟨points, buffer⟩ <;> rfl

theorem mediaHandler_responds (env : Env) (cd : Cd) : Responds cd (mediaHandler env cd) := by
  rw [mediaHandler]
  split_ifs with h
  · have hnotify := (mediaStatus_answers env).notify (canReturnData_idle h)
    have hseen : Responds (notify (cdromCommandMediaStatus env) cd)
        { notify (cdromCommandMediaStatus env) cd with mediachanged := false } :=
      Quiet.sameResult ⟨rfl, rfl, rfl, rfl, rfl, rfl, rfl, rfl, rfl⟩ rfl
    exact (hnotify.trans hseen).trans (getCdromToc_responds env _)
  · exact Responds.refl cd

theorem tocHandler_responds (env : Env) (cd : Cd) : Responds cd (tocHandler env cd) := by
  rw [tocHandler]
  split_ifs with h
  · exact returnTocEntry_answers.notify (canReturnData_idle h.2.2.2)
  · exact Responds.refl cd

theorem akikoHandler_responds (env : Env) (cd : Cd) : Responds cd (akikoHandler env cd) := by
  rw [akikoHandler]
  split_ifs with h1 h2 h3 h4 h5 h6
  · exact Responds.refl cd
  · exact Responds.refl cd
  · exact Responds.trans ((mediaStatus_answers env).notify (not_not.mp h2))
      (setInitialized_responds _ 1)
  · exact setInitialized_responds cd 1
  · exact Responds.refl cd
  · exact mediaHandler_responds env cd
  · exact ((((countAudiotimeout_responds cd).trans (audioStarts_responds _)).trans
      (audioEnds_responds _)).trans ((audioNotify_responds _ _ _).trans
        (audioNotify_responds _ _ _))).trans (tocHandler_responds env _)

/-! ### Sectors and registers -/

theorem and_lt_of_lt {a : BitVec 32} (b : BitVec 32) (ha : a.toNat < 2 ^ 16) :
    (a &&& b).toNat < 2 ^ 16 := by
  rw [BitVec.toNat_and]
  exact Nat.lt_of_le_of_lt Nat.and_le_left ha

/-- Only the slots for sectors change. -/
theorem pbx_responds {cd' : Cd} (pbx : BitVec 32) (hpbx : cd.cdromPbx.toNat < 2 ^ 16 → pbx.toNat < 2 ^ 16)
    (h : Quiet { cd with cdromPbx := pbx } cd') (hsame : cd'.cdromResultBuffer = cd.cdromResultBuffer) :
    Responds cd cd' := by
  refine Responds.trans ?_ (h.sameResult hsame)
  exact ⟨rfl, rfl, rfl, rfl, rfl, fun hr =>
    ⟨hr.inside, hr.responses, hpbx hr.pbx, hr.placed.same rfl rfl rfl⟩⟩

theorem nextSubcode_responds (cd : Cd) : Responds cd (nextSubcode cd) :=
  Quiet.sameResult ⟨rfl, rfl, rfl, rfl, rfl, rfl, rfl, rfl, rfl⟩ rfl

theorem takeSlot_responds (cd : Cd) : Responds cd (takeSlot cd) :=
  pbx_responds _ (and_lt_of_lt _) ⟨rfl, rfl, rfl, rfl, rfl, rfl, rfl, rfl, rfl⟩ rfl

theorem sectorSubcode_responds (cd : Cd) : Responds cd (sectorSubcode cd) := by
  rw [sectorSubcode]
  split_ifs
  · exact nextSubcode_responds cd
  · exact Responds.refl cd

theorem cdromRunRead_responds (env : Env) (cd : Cd) : Responds cd (cdromRunRead env cd) := by
  rw [cdromRunRead]
  split_ifs
  · exact Responds.refl cd
  · exact Responds.refl cd
  · exact Responds.refl cd
  · exact (takeSlot_responds cd).trans (sectorSubcode_responds _)
  · exact Responds.refl cd

theorem returnSubcode_responds (env : Env) (cd : Cd) : Responds cd (returnSubcode env cd) := by
  rw [returnSubcode]
  split_ifs
  · exact nextSubcode_responds cd
  · exact Responds.refl cd

theorem akikoHsyncHandler_spec (env : Env) (hi : Inv cd) :
    ∃ cd', akikoHsyncHandler env cd = .ok cd' ∧ Inv cd' := by
  have hdelays : ∀ cd, Responds cd (countDmaDelays cd) := fun _ =>
    Quiet.sameResult ⟨rfl, rfl, rfl, rfl, rfl, rfl, rfl, rfl, rfl⟩ rfl
  have hbefore := ((cdromRunRead_responds env cd).trans (hdelays _)).trans
    (returnSubcode_responds env _)
  obtain ⟨cd₁, hinternal, hi₁⟩ := akikoInternal_spec env (hbefore.inv hi).ready
  exact ⟨akikoHandler env cd₁, by rw [akikoHsyncHandler, hinternal]; rfl,
    (akikoHandler_responds env cd₁).inv hi₁⟩

/-- Only the register of the response is noted. -/
theorem cdGet_responds (cd : Cd) (addr : Nat) :
    Responds cd (noteRead addr (cdGet cd addr).1 (cdGet cd addr).2) := by
  by_cases haddr : addr = 0x28
  · subst haddr
    exact receiveByte_responds cd
  · rw [noteRead, if_neg haddr, cdGet]
    repeat' split
    all_goals exact Responds.refl cd

theorem noteMore_ready (hi : Ready cd) : Ready (noteMore cd) := by
  rw [noteMore]
  split_ifs
  · have hset := setStatus_responds cd cdinterruptDrivexmit
    have hquiet : Quiet cd (setStatus cd cdinterruptDrivexmit) :=
      ⟨rfl, rfl, rfl, rfl, rfl, rfl, rfl, rfl, rfl⟩
    exact ⟨hset.response hi.1, hi.2.imp hset.commandInv hquiet.complete⟩
  · exact hi

theorem sendByte_spec (hi : Inv cd) (v : Byte) : ∃ cd', sendByte cd v = .ok cd' ∧ Ready cd' := by
  have hi' := (clearStatus_responds cd cdinterruptDrivexmit).inv hi
  rw [sendByte]
  by_cases h1 : flagSet cd.cdromFlags cdflagTxd = false
  · rw [if_pos h1]
    by_cases h2 : canSendCommand (clearStatus cd cdinterruptDrivexmit) = true
    · obtain ⟨cd₁, hadd, hready⟩ := addCommandByte_spec hi'.command hi'.response
        (canSendCommand_idle h2) v
      dsimp only
      rw [if_pos h2, hadd]
      exact ⟨noteMore cd₁, rfl, noteMore_ready hready⟩
    · dsimp only
      rw [if_neg h2]
      exact ⟨_, rfl, hi'.ready⟩
  · rw [if_neg h1]
    exact ⟨cd, rfl, hi.ready⟩

theorem putPbx_responds (cd : Cd) (addr : Nat) (v : Byte) : Responds cd (putPbx cd addr v) := by
  refine pbx_responds (if flagSet cd.cdromFlags cdflagPbx then
    (akikoPutLong cd.cdromPbx (addr - 0x20 + 2) v ||| cd.cdromPbx) &&& 0xffff else 0)
    (fun _ => ?_) ⟨rfl, rfl, rfl, rfl, rfl, rfl, rfl, rfl, rfl⟩ rfl
  split_ifs
  · rw [BitVec.toNat_and]
    exact Nat.lt_of_le_of_lt Nat.and_le_right (by decide)
  · decide

/-- The receive buffer begins at a multiple of 1024. -/
theorem putAddressmisc_responds (cd : Cd) (misc : BitVec 32) :
    Responds cd { cd with cdromAddressmisc := misc &&& 0x00fffc00 } := by
  refine ⟨rfl, rfl, rfl, rfl, rfl, fun hr =>
    ⟨hr.inside, hr.responses, hr.pbx, ?_, hr.placed.index, hr.placed.places⟩⟩
  change (misc &&& 0x00fffc00).toNat % 2 ^ 10 = 0
  rw [BitVec.toNat_and, Nat.and_mod_two_pow]
  exact Nat.and_zero _

theorem noteEnable_responds (flags : BitVec 32) (cd : Cd) : Responds cd (noteEnable flags cd) := by
  rw [noteEnable]
  split_ifs
  · exact clearStatus_responds cd _
  · exact Responds.refl cd

theorem storeFlags_responds (flags : BitVec 32) (cd : Cd) : Responds cd (storeFlags flags cd) := by
  refine pbx_responds (if flagSet flags cdflagPbx then cd.cdromPbx else 0)
    (fun h => ?_) ⟨rfl, rfl, rfl, rfl, rfl, rfl, rfl, rfl, rfl⟩ rfl
  split_ifs
  · exact h
  · decide

theorem putFlags_responds (cd : Cd) (addr : Nat) (v : Byte) : Responds cd (putFlags cd addr v) :=
  (noteEnable_responds _ cd).trans (storeFlags_responds _ _)

theorem cdPut_spec (hi : Inv cd) (addr : Nat) (v : Byte) :
    ∃ cd', cdPut cd addr v = .ok cd' ∧ Ready cd' := by
  have hquiet : ∀ {cd' : Cd}, Responds cd cd' → ∃ cd'', (.ok cd' : Except Fault Cd) = .ok cd'' ∧
      Ready cd'' := fun h => ⟨_, rfl, (h.inv hi).ready⟩
  rw [cdPut]
  repeat' split
  · exact hquiet (Quiet.sameResult ⟨rfl, rfl, rfl, rfl, rfl, rfl, rfl, rfl, rfl⟩ rfl)
  · exact hquiet (Quiet.sameResult ⟨rfl, rfl, rfl, rfl, rfl, rfl, rfl, rfl, rfl⟩ rfl)
  · exact hquiet (putAddressmisc_responds cd _)
  · exact hquiet (clearStatus_responds cd _)
  · exact hquiet (Quiet.sameResult ⟨rfl, rfl, rfl, rfl, rfl, rfl, rfl, rfl, rfl⟩ rfl)
  · exact hquiet (Quiet.sameResult ⟨rfl, rfl, rfl, rfl, rfl, rfl, rfl, rfl, rfl⟩ rfl)
  · exact hquiet (putPbx_responds cd addr v)
  · exact hquiet (putFlags_responds cd addr v)
  · exact sendByte_spec hi v
  · exact hquiet (Responds.refl cd)

/-! ### Runs -/

/-- The invariant of Akiko. Without a converter nothing is ever written to it. -/
structure AkikoInv (cfg : Config) (s : AkikoState) : Prop where
  c2p : s.c2p.Inv
  unused : cfg.csCd32c2p = false → 0 ≤ s.c2p.akikoReadOffset
  cd : Inv s.cd

variable {cfg : Config} {s s' : AkikoState}

theorem akikoBget2_spec (hs : AkikoInv cfg s) (env : Env) (addr : Nat) :
    ∃ v s', akikoBget2 cfg env s addr = .ok (v, s') ∧ AkikoInv cfg s' ∧
      (isC2p (addr % 0x40) → 0 ≤ s'.c2p.akikoReadOffset) := by
  rw [akikoBget2]
  by_cases h1 : addr % 0x40 < 4
  · rw [if_pos h1]
    exact ⟨_, s, rfl, hs, fun hc => absurd hc.1 (by omega)⟩
  rw [if_neg h1]
  by_cases h2 : 0x30 ≤ addr % 0x40 ∧ addr % 0x40 ≤ 0x33
  · rw [if_pos h2]
    exact ⟨_, s, rfl, hs, fun hc => absurd hc.1 (by omega)⟩
  rw [if_neg h2]
  by_cases h3 : 0x38 ≤ addr % 0x40 ∧ addr % 0x40 ≤ 0x3b
  · rw [if_pos h3]
    cases hcfg : cfg.csCd32c2p with
    | false => exact ⟨_, s, rfl, hs, fun _ => hs.unused hcfg⟩
    | true =>
      obtain ⟨v, c, hread, hc, hoffset⟩ := akikoC2pRead_inv hs.c2p (addr % 0x40 - 0x38)
      rw [hread]
      exact ⟨v, { s with c2p := c }, rfl, ⟨hc, fun _ => hoffset, hs.cd⟩, fun _ => hoffset⟩
  rw [if_neg h3]
  have hno : isC2p (addr % 0x40) → 0 ≤ s.c2p.akikoReadOffset := fun hc =>
    absurd ⟨hc.1, Nat.le_of_lt_succ hc.2⟩ h3
  by_cases h4 : cfg.csCd32cd = false
  · rw [if_pos h4]
    exact ⟨_, s, rfl, hs, hno⟩
  rw [if_neg h4]
  have hget := cdGet_responds s.cd (addr % 0x40)
  generalize cdGet s.cd (addr % 0x40) = r at hget ⊢
  obtain ⟨v, cd₀⟩ := r
  obtain ⟨cd, hinternal, hcd⟩ := akikoInternal_spec env (hget.inv hs.cd).ready
  dsimp only at hinternal ⊢
  rw [hinternal]
  exact ⟨v, { s with cd }, rfl, ⟨hs.c2p, hs.unused, hcd⟩, hno⟩

theorem akikoBput2_spec (hs : AkikoInv cfg s) (env : Env) (addr : Nat) (v : Byte) :
    ∃ s', akikoBput2 cfg env s addr v = .ok s' ∧ AkikoInv cfg s' := by
  rw [akikoBput2]
  split_ifs with h1 h2 h3 h4
  · exact ⟨s, rfl, hs⟩
  · obtain ⟨c, hwrite, hc, -⟩ := akikoC2pWrite_inv hs.c2p (addr % 0x40 - 0x38) v
    rw [hwrite]
    exact ⟨{ s with c2p := c }, rfl, hc, fun h => absurd (h3.symm.trans h) (by decide), hs.cd⟩
  · exact ⟨s, rfl, hs⟩
  · exact ⟨s, rfl, hs⟩
  · obtain ⟨cd₁, hput, hready⟩ := cdPut_spec hs.cd (addr % 0x40) v
    obtain ⟨cd₂, hinternal, hcd⟩ := akikoInternal_spec env hready
    refine ⟨{ s with cd := cd₂ }, ?_, hs.c2p, hs.unused, hcd⟩
    rw [hput]
    change (akikoInternal env cd₁ >>= _) = _
    rw [hinternal]
    rfl

theorem getBytes_spec (envs : List Env) (addr : Nat) (hs : AkikoInv cfg s) :
    ∃ s', getBytes cfg envs s addr = .ok s' ∧ AkikoInv cfg s' ∧
      (envs ≠ [] → isC2p addr → 0 ≤ s'.c2p.akikoReadOffset) := by
  induction envs generalizing s with
  | nil => exact ⟨s, rfl, hs, fun h => absurd rfl h⟩
  | cons env envs ih =>
    obtain ⟨v, s₁, hget, hs₁, hlast⟩ := akikoBget2_spec hs env (addr + envs.length)
    obtain ⟨s₂, hrest, hs₂, hread⟩ := ih hs₁
    refine ⟨s₂, ?_, hs₂, fun _ hc => ?_⟩
    · rw [getBytes, hget]
      exact hrest
    · cases envs with
      | nil =>
        cases hrest
        refine hlast ?_
        rw [List.length_nil, Nat.add_zero, Nat.mod_eq_of_lt (Nat.lt_trans hc.2 (by decide))]
        exact hc
      | cons _ _ => exact hread (List.cons_ne_nil _ _) hc

theorem putBytes_spec (bytes : List (Env × Byte)) (addr : Nat) (hs : AkikoInv cfg s) :
    ∃ s', putBytes cfg bytes s addr = .ok s' ∧ AkikoInv cfg s' := by
  induction bytes generalizing s with
  | nil => exact ⟨s, rfl, hs⟩
  | cons b rest ih =>
    obtain ⟨s₁, hput, hs₁⟩ := akikoBput2_spec hs b.1 (addr + rest.length) b.2
    obtain ⟨s₂, hrest, hs₂⟩ := ih hs₁
    refine ⟨s₂, ?_, hs₂⟩
    rw [putBytes, hput]
    exact hrest

theorem cdReset_inv (cd : Cd) (hi : Inv cd) (hlength : cd.cdromCommandLength = 0) :
    Inv (cdReset cd) := by
  refine ⟨⟨hi.command.active, ?_⟩, fun hne => absurd rfl hne, rfl, hi.response.pbx,
    hi.response.placed.misc, rfl, rfl⟩
  change ([], cd.cdromCommandBuffer.slice 0 cd.cdromCommandLength) = ([], [])
  rw [hlength, slice_zero]

/-- No reset comes within a command. -/
def NoneCut (s : AkikoState) (i : Input) : Prop := i = .reset → s.cd.cdromCommandLength = 0

def akikoMachine (cfg : Config) : Machine AkikoState Input Fault where
  legal := NoneCut
  step := step cfg

theorem akikoInv_invariant (cfg : Config) : (akikoMachine cfg).Invariant (AkikoInv cfg) := by
  intro s i hs hlegal
  cases i with
  | get addr env envs =>
    obtain ⟨s₁, hget, hs₁, hread⟩ := getBytes_spec (env :: envs) addr hs
    refine ⟨if isC2p addr then { s₁ with c2p := checkReadC2p s₁.c2p } else s₁, ?_, ?_⟩
    · change (getBytes cfg (env :: envs) s addr >>= _) = _
      rw [hget]
      rfl
    · split_ifs with hc
      · have hoffset := hread (List.cons_ne_nil _ _) hc
        have hnext := checkReadC2p_inv hs₁.c2p hoffset
        refine ⟨hnext, fun _ => ?_, hs₁.cd⟩
        change 0 ≤ (s₁.c2p.akikoReadOffset + 1) % 8
        omega
      · exact hs₁
  | put addr bytes => exact putBytes_spec bytes addr hs
  | hsync env =>
    change ∃ s', (if cfg.csCd32cd then _ else _) = _ ∧ _
    split_ifs
    · obtain ⟨cd, hsync, hcd⟩ := akikoHsyncHandler_spec env hs.cd
      rw [hsync]
      exact ⟨{ s with cd }, rfl, hs.c2p, hs.unused, hcd⟩
    · exact ⟨s, rfl, hs⟩
  | reset => exact ⟨_, rfl, hs.c2p, hs.unused, cdReset_inv s.cd hs.cd (hlegal rfl)⟩
  | thread disk playing audiotimeout mediachanged =>
    have hthread : Responds s.cd { s.cd with
        cdromDisk := disk, cdromPlaying := playing, cdromAudiotimeout := audiotimeout,
        mediachanged } := Quiet.sameResult ⟨rfl, rfl, rfl, rfl, rfl, rfl, rfl, rfl, rfl⟩ rfl
    exact ⟨_, rfl, hs.c2p, hs.unused, hthread.inv hs.cd⟩

theorem akikoInv_initial (cfg : Config) : AkikoInv cfg AkikoState.initial := by
  refine ⟨C2p.inv_initial, fun _ => Int.le_refl 0, ⟨rfl, rfl⟩, fun hne => absurd rfl hne, rfl, ?_,
    rfl, rfl, rfl⟩
  decide

/-- A drive without a disc. -/
def emptyDrive : Env where
  unit := true
  ismedia := false
  toc := none
  qcode := fun _ => 0
  playStarts := false
  memory := fun _ => 0
  sectorReady := false
  subcodeReady := false
  framesync := false

/-- A pause command, a byte of its response that a program reads, and the rest by DMA. -/
def pauseCommand : List Input :=
  [.hsync emptyDrive, .put 0x28 [(emptyDrive, 0x02)], .put 0x28 [(emptyDrive, 0xfd)],
   .get 0x28 emptyDrive [], .put 0x16 [(emptyDrive, 0x10)], .put 0x1f [(emptyDrive, 2)],
   .put 0x24 [(emptyDrive, 0x20)], .hsync emptyDrive, .hsync emptyDrive, .hsync emptyDrive]

/-- One byte of a command, then a reset, then a whole command: the byte stands in front of it. -/
def cutCommand : List Input :=
  [.hsync emptyDrive, .put 0x28 [(emptyDrive, 0x05)], .reset, .hsync emptyDrive,
   .put 0x28 [(emptyDrive, 0x03)], .put 0x28 [(emptyDrive, 0xfc)]]

end LibretroUae.Akiko
