import LibretroUae.Filesys.FileView

/-!
# LibretroUae.Filesys.FilePositions

**Handles keep their positions.** Packets refine files of bytes as long as the host's descriptor
stays where the handle is. It does not where a write failed behind its first chunk, and the next
seek from the current position starts there; a read that fails moves the handle by -1 as an
unsigned number, and opening a file for an update empties it.
-/

namespace LibretroUae.Filesys

namespace IoUnit

/-! ### The view of a unit -/

section

variable {u : IoUnit} {k k' : IoKey} {fh : UInt32}

theorem lookupKey_some (h : u.lookupKey fh = some k) : k.uniq = fh ∧ k ∈ u.keys :=
  ⟨(beq_iff_eq.mp (List.find?_some (p := fun k1 : IoKey => fh == k1.uniq) h)).symm,
    List.mem_of_find?_eq_some h⟩

theorem find_replaceKey {keys : List IoKey}
    (h : keys.find? (fun k1 => k.uniq == k1.uniq) = some k') (fh : UInt32) :
    (replaceKey k keys).find? (fun k1 => fh == k1.uniq) =
      if fh = k.uniq then some k else keys.find? fun k1 => fh == k1.uniq := by
  induction keys with
  | nil => cases h
  | cons k1 rest ih =>
    rw [replaceKey]
    by_cases hsame : k1.uniq = k.uniq
    · rw [if_pos hsame, List.find?_cons, List.find?_cons, hsame]
      by_cases hfh : fh = k.uniq
      · rw [if_pos hfh, beq_iff_eq.mpr hfh]
      · rw [if_neg hfh, beq_eq_false_iff_ne.mpr hfh]
    · rw [if_neg hsame, List.find?_cons, List.find?_cons]
      rw [List.find?_cons, beq_eq_false_iff_ne.mpr (Ne.symm hsame)] at h
      by_cases hfirst : fh = k1.uniq
      · rw [beq_iff_eq.mpr hfirst, if_neg (hfirst ▸ hsame)]
      · rw [beq_eq_false_iff_ne.mpr hfirst]
        exact ih h

theorem view_putKey (h : u.lookupKey k.uniq = some k') :
    (u.putKey k).view =
      { u.view with handles := Function.update u.view.handles k.uniq (some k.handle) } := by
  refine congrArg (fun handles => FileView.mk _ handles _) (funext fun fh => ?_)
  change ((replaceKey k u.keys).find? fun k1 => fh == k1.uniq).map IoKey.handle = _
  rw [find_replaceKey h]
  by_cases hfh : fh = k.uniq
  · rw [if_pos hfh, hfh, Function.update_self]
    rfl
  · rw [if_neg hfh, Function.update_of_ne hfh]
    rfl

theorem view_move (h : u.lookupKey fh = some k) (hpos : 0 ≤ k.filePos) (fd n : Nat) :
    (u.putKey { k with fdPos := fd, filePos := k.filePos + n }).view =
      u.view.move fh k.handle (k.handle.pos + n) := by
  obtain ⟨rfl, -⟩ := lookupKey_some h
  refine (view_putKey (k := { k with fdPos := fd, filePos := k.filePos + n }) h).trans ?_
  refine congrArg (fun p => { u.view with
    handles := Function.update u.view.handles k.uniq (some (Handle.mk k.aino p k.fdWrite)) }) ?_
  change (k.filePos + n).toNat = k.filePos.toNat + n
  omega

/-- Moving the descriptor alone is not seen. -/
theorem view_fd (h : u.lookupKey fh = some k) (fd : Nat) :
    (u.putKey { k with fdPos := fd }).view = u.view := by
  obtain ⟨rfl, -⟩ := lookupKey_some h
  refine (view_putKey (k := { k with fdPos := fd }) h).trans ?_
  have hsame : u.view.handles k.uniq = some k.handle := congrArg (Option.map IoKey.handle) h
  exact congrArg (fun handles => { u.view with handles })
    ((congrArg _ hsame.symm).trans (Function.update_eq_self k.uniq u.view.handles))

theorem view_content (u : IoUnit) (aino : Nat) : u.view.content aino = u.content aino := by
  rw [FileView.content, content]
  exact congrArg (Option.getD · []) List.getElem?_map

theorem view_putContent (u : IoUnit) (aino : Nat) (f : HostFile) :
    (u.putContent aino f).view = u.view.setContent aino f := by
  refine congrArg (fun contents => FileView.mk contents _ _) ?_
  change (u.files.modify aino _).map IoFile.content = (u.files.map IoFile.content).set aino f
  refine List.ext_getElem? fun i => ?_
  rw [List.getElem?_map, List.getElem?_modify, List.getElem?_set, List.length_map,
    List.getElem?_map]
  by_cases hi : aino = i
  · subst hi
    rw [if_pos rfl]
    by_cases hin : aino < u.files.length
    · rw [if_pos hin, List.getElem?_eq_getElem hin]
      simp only [if_pos, Option.map_eq_map, Option.map_some]
    · rw [if_neg hin, List.getElem?_eq_none (Nat.le_of_not_lt hin)]
      rfl
  · rw [if_neg hi]
    simp only [if_neg hi]
    cases u.files[i]? <;> rfl

theorem Positions.putKey (hu : u.Positions) (hpos : 0 ≤ k.filePos) : (u.putKey k).Positions := by
  have hreplace : ∀ keys : List IoKey, (∀ k1 ∈ keys, 0 ≤ k1.filePos) →
      (∀ k1 ∈ replaceKey k keys, 0 ≤ k1.filePos) ∧
        (replaceKey k keys).map IoKey.uniq = keys.map IoKey.uniq := by
    intro keys hkeys
    induction keys with
    | nil => exact ⟨nofun, rfl⟩
    | cons k1 rest ih =>
      obtain ⟨hk1, hrest⟩ := List.forall_mem_cons.mp hkeys
      obtain ⟨hafter, huniq⟩ := ih hrest
      rw [replaceKey]
      by_cases hsame : k1.uniq = k.uniq
      · rw [if_pos hsame]
        exact ⟨List.forall_mem_cons.mpr ⟨hpos, hrest⟩, congrArg (· :: _) hsame.symm⟩
      · rw [if_neg hsame]
        exact ⟨List.forall_mem_cons.mpr ⟨hk1, hafter⟩, congrArg (_ :: ·) huniq⟩
  obtain ⟨hafter, huniq⟩ := hreplace u.keys hu.nonneg
  exact ⟨hafter, huniq.symm ▸ hu.distinct⟩

/-! ### Transfers -/

theorem lseek_set (size pos : Nat) (hpos : 0 ≤ k.filePos) :
    lseek size pos k.filePos .set = some k.handle.pos := by
  have hbase : ((Whence.set.base size pos : Nat) : Int) + k.filePos = k.filePos := Int.zero_add _
  rw [lseek, hbase, if_neg (Int.not_lt.mpr hpos)]
  rfl

theorem readSize_eq {f : HostFile} {size : Nat} (hpos : 0 ≤ k.filePos)
    (hin : k.handle.pos ≤ f.length) (hsize : size < 4294967296) :
    readSize f k size = min size (f.length - k.handle.pos) := by
  have hhandle : (k.handle.pos : Int) = k.filePos := Int.toNat_of_nonneg hpos
  rw [readSize, wrap32]
  split_ifs <;> omega

theorem Moves_direct {host : HostTransfer} {limit n : Nat} (hle : n ≤ limit)
    (hchunk : host.chunk limit = limit)
    (hhead : host.calls[0]? ≠ some none) : host.Moves limit n := by
  refine ⟨hle, fun j hlimit hj => ?_⟩
  rw [hchunk] at hlimit
  cases j with
  | zero => exact hhead
  | succ j =>
    rw [Nat.succ_mul] at hlimit
    omega

theorem step_read_failed {v : FileView} {h : Handle} {size : UInt32} {host : HostTransfer}
    (hh : v.handles fh = some h) (hfails : host.Fails) (e : Option IoError) :
    FileView.Step v (.failed e) v (.read fh size host) := by
  simp only [FileView.Step, hh]
  exact .inl ⟨trivial, trivial, hfails⟩

theorem step_read_moved {v : FileView} {h : Handle} {size : UInt32} {host : HostTransfer} {n : Nat}
    (hh : v.handles fh = some h)
    (hmoves : host.Moves (min size.toNat ((v.content h.file).length - h.pos)) n) :
    FileView.Step v (.read (((v.content h.file).drop h.pos).take n)) (v.move fh h (h.pos + n))
      (.read fh size host) := by
  simp only [FileView.Step, hh]
  exact .inr ⟨n, hmoves, rfl, rfl⟩

theorem move_zero {v : FileView} {h : Handle} (hh : v.handles fh = some h) :
    v.move fh h (h.pos + 0) = v := by
  have hsame : Function.update v.handles fh (some h) = v.handles := by
    rw [← hh, Function.update_eq_self]
  exact congrArg (fun handles => { v with handles }) hsame

theorem read_step (hu : u.Positions) (size : UInt32) (host : HostTransfer)
    (hcareful : u.Careful (.read fh size host)) :
    FileView.Step u.view (u.actionRead fh size host).2 (u.actionRead fh size host).1.view
        (.read fh size host) ∧ (u.actionRead fh size host).1.Positions := by
  cases hk : u.lookupKey fh with
  | none =>
    have hh : u.view.handles fh = none := congrArg (Option.map IoKey.handle) hk
    rw [actionRead, hk]
    simp only [FileView.Step, hh]
    exact ⟨⟨trivial, trivial⟩, hu⟩
  | some k =>
    have hh : u.view.handles fh = some k.handle := congrArg (Option.map IoKey.handle) hk
    have hpos : 0 ≤ k.filePos := hu.nonneg k (lookupKey_some hk).2
    have hcontent : u.view.content k.handle.file = u.content k.aino := view_content u k.aino
    have hwide : size.toNat < 4294967296 := size.toNat_lt
    -- Nothing is moved where nothing is asked for, or nothing is there.
    have hnothing : min size.toNat ((u.content k.aino).length - k.handle.pos) = 0 →
        FileView.Step u.view (.read []) u.view (.read fh size host) := by
      intro hzero
      have hmoves : host.Moves (min size.toNat ((u.view.content k.handle.file).length -
          k.handle.pos)) 0 := by
        rw [hcontent, hzero]
        exact ⟨Nat.le_refl _, fun j hj => absurd hj (Nat.not_lt_zero _)⟩
      have hstep := step_read_moved hh hmoves
      rw [move_zero hh, List.take_zero] at hstep
      exact hstep
    have hcut : min size.toNat ((u.content k.aino).length - k.handle.pos) ≠ 0 →
        readSize (u.content k.aino) k size.toNat =
          min size.toNat ((u.content k.aino).length - k.handle.pos) := fun hsome =>
      readSize_eq hpos (by omega) hwide
    -- What a call that went well leaves.
    have hmoved : ∀ fd n, host.Moves (min size.toNat ((u.content k.aino).length - k.handle.pos)) n →
        FileView.Step u.view (.read (((u.content k.aino).drop k.handle.pos).take n))
            (u.putKey { k with fdPos := fd, filePos := k.filePos + n }).view (.read fh size host) ∧
          (u.putKey { k with fdPos := fd, filePos := k.filePos + n }).Positions := by
      intro fd n hmoves
      rw [view_move hk hpos]
      refine ⟨?_, hu.putKey (Int.add_nonneg hpos (Int.natCast_nonneg n))⟩
      rw [← hcontent] at hmoves ⊢
      exact step_read_moved hh hmoves
    have hfailed : ∀ fd e, host.Fails → FileView.Step u.view (.failed e)
        (u.putKey { k with fdPos := fd }).view (.read fh size host) ∧
          (u.putKey { k with fdPos := fd }).Positions := by
      intro fd e hfails
      rw [view_fd hk]
      exact ⟨step_read_failed hh hfails e, hu.putKey hpos⟩
    rw [actionRead, hk]
    dsimp only
    by_cases hzero : size = 0
    · rw [if_pos hzero]
      exact ⟨hnothing (by rw [hzero]; exact Nat.zero_min _), hu⟩
    rw [if_neg hzero]
    by_cases hend : readSize (u.content k.aino) k size.toNat = 0
    · rw [if_pos hend]
      exact ⟨hnothing (Decidable.byContradiction fun hsome => hsome (hcut hsome ▸ hend)), hu⟩
    rw [if_neg hend]
    by_cases hseek : host.seek = true
    swap
    · rw [if_neg hseek]
      exact ⟨step_read_failed hh (.inl ((Bool.not_eq_true _).mp hseek)) _, hu⟩
    rw [if_pos hseek, lseek_set _ _ hpos]
    dsimp only
    have hsound := hcareful k hk hseek
    have hone : ∀ n, hostMove (readSize (u.content k.aino) k size.toNat)
          ((u.content k.aino).length - k.handle.pos)
          (host.calls.headD (some maxTransfer)) = some n →
        (host.validAddress (readSize (u.content k.aino) k size.toNat) && host.indirect) = false →
        host.Moves (min size.toNat ((u.content k.aino).length - k.handle.pos)) n := by
      intro n hmove hvalid
      obtain ⟨hasked, havailable⟩ := hostMove_le hmove
      by_cases hsome : min size.toNat ((u.content k.aino).length - k.handle.pos) = 0
      · have hsize : size.toNat ≠ 0 := fun h => hzero (UInt32.toNat_inj.mp h)
        exact ⟨by omega, fun j hj => absurd hj (by omega)⟩
      · have hread := hcut hsome
        rw [hread] at hvalid
        have hchunk : host.chunk (min size.toNat ((u.content k.aino).length - k.handle.pos)) =
            min size.toNat ((u.content k.aino).length - k.handle.pos) := by
          rw [HostTransfer.chunk, hvalid]
          rfl
        exact Moves_direct (hread ▸ hasked) hchunk (head_ne_none hmove)
    cases hvalid : host.validAddress (readSize (u.content k.aino) k size.toNat) with
    | false =>
      rw [hvalid] at hone
      rw [Bool.not_false, if_pos rfl]
      by_cases hallocated : host.allocated = true
      · rw [hallocated, Bool.not_true, if_neg Bool.false_ne_true]
        cases hmove : hostMove (readSize (u.content k.aino) k size.toNat)
            ((u.content k.aino).length - k.handle.pos) (host.calls.headD (some maxTransfer)) with
        | none => exact hfailed _ _ (.inr (.inr (none_mem_of_head hmove)))
        | some n => exact hmoved _ n (hone n hmove rfl)
      · rw [(Bool.not_eq_true _).mp hallocated, Bool.not_false, if_pos rfl]
        exact hfailed _ _ (.inr (.inl ((Bool.not_eq_true _).mp hallocated)))
    | true =>
      rw [hvalid] at hone
      rw [Bool.not_true, if_neg Bool.false_ne_true]
      have hcalls := hsound hvalid
      cases hindirect : host.indirect with
      | true =>
        rw [if_pos rfl]
        obtain ⟨hbytes, hle, hworks, hmade⟩ := readChunks_spec (u.content k.aino) k.handle.pos
          (readSize (u.content k.aino) k size.toNat) host.calls
        rw [if_pos (hworks hcalls)]
        have hmoves : host.Moves (min size.toNat ((u.content k.aino).length - k.handle.pos))
            (readChunks (u.content k.aino) k.handle.pos
              (readSize (u.content k.aino) k size.toNat) host.calls).1.length := by
          by_cases hsome : min size.toNat ((u.content k.aino).length - k.handle.pos) = 0
          · have hsize : size.toNat ≠ 0 := fun h => hzero (UInt32.toNat_inj.mp h)
            exact ⟨by omega, fun j hj => absurd hj (by omega)⟩
          · have hread := hcut hsome
            have hlimit : min (readSize (u.content k.aino) k size.toNat)
                ((u.content k.aino).length - k.handle.pos) =
                  min size.toNat ((u.content k.aino).length - k.handle.pos) := by
              omega
            have hchunk : host.chunk (min size.toNat ((u.content k.aino).length - k.handle.pos)) =
                trapDataExtraSize := by
              rw [HostTransfer.chunk, ← hread, hvalid, hindirect]
              rfl
            rw [hlimit] at hle hmade
            refine ⟨hle, fun j hj hjn => ?_⟩
            rw [hchunk] at hj hjn
            exact hmade (hworks hcalls) j hj hjn
        have hstep := hmoved (k.handle.pos + (readChunks (u.content k.aino) k.handle.pos
          (readSize (u.content k.aino) k size.toNat) host.calls).1.length) _ hmoves
        rw [← hbytes] at hstep
        exact hstep
      | false =>
        rw [if_neg Bool.false_ne_true]
        cases hmove : hostMove (readSize (u.content k.aino) k size.toNat)
            ((u.content k.aino).length - k.handle.pos) (host.calls.headD (some maxTransfer)) with
        | none => exact absurd (none_mem_of_head hmove) hcalls
        | some n => exact hmoved _ n (hone n hmove (by rw [hindirect]; rfl))

theorem setContent_self (v : FileView) (file : Nat) : v.setContent file (v.content file) = v := by
  refine congrArg (fun contents => { v with contents }) (List.ext_getElem? fun i => ?_)
  rw [List.getElem?_set]
  split_ifs with hi hin
  · rw [← hi, FileView.content, List.getElem?_eq_getElem hin]
    rfl
  · rw [← hi, List.getElem?_eq_none (Nat.le_of_not_lt hin)]
  · rfl

theorem step_write_failed {v : FileView} {h : Handle} {data : List UInt8} {host : HostTransfer}
    {n : Nat} (hh : v.handles fh = some h) (hn : n ≤ data.length)
    (hfails : host.Fails ∨ v.writeprotected = true ∨ h.write = false) (e : Option IoError) :
    FileView.Step v (.failed e)
      (v.setContent h.file ((v.content h.file).overwrite h.pos (data.take n)))
      (.write fh data host) := by
  simp only [FileView.Step, hh]
  exact ⟨n, hn, .inl ⟨trivial, rfl, hfails⟩⟩

theorem step_write_refused {v : FileView} {h : Handle} {data : List UInt8} {host : HostTransfer}
    (hh : v.handles fh = some h) (hfails : host.Fails ∨ v.writeprotected = true ∨ h.write = false)
    (e : Option IoError) : FileView.Step v (.failed e) v (.write fh data host) := by
  have hstep := step_write_failed hh (Nat.zero_le data.length) hfails e
  rwa [List.take_zero, overwrite_nil, setContent_self] at hstep

theorem step_write_moved {v : FileView} {h : Handle} {data : List UInt8} {host : HostTransfer}
    {n : Nat} (hh : v.handles fh = some h) (hmoves : host.Moves data.length n) :
    FileView.Step v (.written n)
      ((v.setContent h.file ((v.content h.file).overwrite h.pos (data.take n))).move fh h
        (h.pos + n))
      (.write fh data host) := by
  simp only [FileView.Step, hh]
  exact ⟨n, hmoves.le, .inr ⟨hmoves, rfl, rfl⟩⟩

theorem write_step (hu : u.Positions) (data : List UInt8) (host : HostTransfer)
    (hcareful : u.Careful (.write fh data host)) :
    FileView.Step u.view (u.actionWrite fh data host).2 (u.actionWrite fh data host).1.view
        (.write fh data host) ∧ (u.actionWrite fh data host).1.Positions := by
  cases hk : u.lookupKey fh with
  | none =>
    have hh : u.view.handles fh = none := congrArg (Option.map IoKey.handle) hk
    rw [actionWrite, hk]
    simp only [FileView.Step, hh]
    exact ⟨⟨trivial, trivial⟩, hu⟩
  | some k =>
    have hh : u.view.handles fh = some k.handle := congrArg (Option.map IoKey.handle) hk
    have hpos : 0 ≤ k.filePos := hu.nonneg k (lookupKey_some hk).2
    have hcontent : u.view.content k.handle.file = u.content k.aino := view_content u k.aino
    have hmoved : ∀ fd n, host.Moves data.length n →
        FileView.Step u.view (.written n)
            ((u.putContent k.aino ((u.content k.aino).overwrite k.handle.pos (data.take n))).putKey
              { k with fdPos := fd, filePos := k.filePos + n }).view (.write fh data host) ∧
          ((u.putContent k.aino ((u.content k.aino).overwrite k.handle.pos (data.take n))).putKey
            { k with fdPos := fd, filePos := k.filePos + n }).Positions := by
      intro fd n hmoves
      have hstep := step_write_moved hh hmoves
      rw [hcontent] at hstep
      refine ⟨?_, Positions.putKey hu (Int.add_nonneg hpos (Int.natCast_nonneg n))⟩
      rw [view_move (u := u.putContent _ _) hk hpos, view_putContent]
      exact hstep
    have hrefused : ∀ fd e, host.Fails ∨ u.writeprotected = true ∨ k.fdWrite = false →
        FileView.Step u.view (.failed e) (u.putKey { k with fdPos := fd }).view
            (.write fh data host) ∧ (u.putKey { k with fdPos := fd }).Positions := by
      intro fd e hfails
      rw [view_fd hk]
      exact ⟨step_write_refused hh hfails e, hu.putKey hpos⟩
    rw [actionWrite, hk]
    dsimp only
    by_cases hprotected : u.writeprotected = true
    · rw [if_pos hprotected]
      exact ⟨step_write_refused hh (.inr (.inl hprotected)) _, hu⟩
    rw [if_neg hprotected]
    by_cases hdata : data = []
    · rw [if_pos hdata]
      have hmoves : host.Moves data.length 0 := by
        rw [hdata]
        exact ⟨Nat.le_refl _, fun j hj => absurd hj (Nat.not_lt_zero _)⟩
      have hstep := step_write_moved hh hmoves
      rw [List.take_zero, overwrite_nil, setContent_self, move_zero hh] at hstep
      exact ⟨hstep, hu⟩
    rw [if_neg hdata]
    by_cases hseek : host.seek = true
    swap
    · rw [if_neg hseek]
      exact ⟨step_write_refused hh (.inl (.inl ((Bool.not_eq_true _).mp hseek))) _, hu⟩
    rw [if_pos hseek, lseek_set _ _ hpos]
    dsimp only
    by_cases hchunked : (host.validAddress data.length && host.indirect) = true
    · rw [if_pos hchunked]
      obtain ⟨hvalid, hindirect⟩ := Bool.and_eq_true_iff.mp hchunked
      rw [if_pos (hcareful hvalid hindirect)]
      obtain ⟨hafter, hle, hworks, hmade⟩ := writeChunks_spec k.fdWrite (u.content k.aino)
        k.handle.pos data host.calls
      rw [hafter]
      by_cases hok : (writeChunks k.fdWrite (u.content k.aino) k.handle.pos data
          host.calls).2.2 = true
      · rw [if_pos hok]
        refine hmoved _ _ ⟨hle, fun j hj hjn => ?_⟩
        have hchunk : host.chunk data.length = trapDataExtraSize := if_pos hchunked
        rw [hchunk] at hj hjn
        exact hmade hok j hj hjn
      · rw [if_neg hok]
        have hfails : host.Fails ∨ u.writeprotected = true ∨ k.fdWrite = false := by
          cases hwrite : k.fdWrite with
          | false => exact .inr (.inr rfl)
          | true =>
            exact .inl (.inr (.inr (Decidable.byContradiction fun hin => hok (hworks hwrite hin))))
        refine ⟨?_, Positions.putKey hu hpos⟩
        rw [view_fd (u := u.putContent _ _) hk, view_putContent]
        have hstep := step_write_failed hh hle hfails (some .host)
        rw [hcontent] at hstep
        exact hstep
    rw [if_neg hchunked]
    by_cases hroom : (!host.validAddress data.length && !host.allocated) = true
    · rw [if_pos hroom]
      have hallocated := (Bool.and_eq_true_iff.mp hroom).2
      exact hrefused _ _ (.inl (.inr (.inl ((Bool.not_eq_true' _).mp hallocated))))
    rw [if_neg hroom]
    cases hmove : hostMove data.length data.length
        (if k.fdWrite then host.calls.headD (some maxTransfer) else none) with
    | none =>
      refine hrefused _ _ ?_
      rcases unwritable_of_move hmove with hno | hin
      · exact .inr (.inr hno)
      · exact .inl (.inr (.inr hin))
    | some n =>
      obtain ⟨-, hhead⟩ := writable_of_move hmove
      refine hmoved _ n (Moves_direct (hostMove_le hmove).1 ?_ (head_ne_none hhead))
      exact if_neg hchunked

/-! ### Seeks -/

section

variable {pos mode : Int} {host : HostSeek}

theorem seekTarget_eq (hpos : 0 ≤ k.filePos) (size : Nat) (pos : Int) (w : Whence) :
    (w.base size k.handle.pos : Int) + pos = seekTarget k size pos w := by
  have hhandle : (k.handle.pos : Int) = k.filePos := Int.toNat_of_nonneg hpos
  cases w with
  | set => exact Int.zero_add pos
  | cur => exact congrArg (· + pos) hhandle
  | fromEnd => rfl

theorem lseek_target {size : Nat} {w : Whence} (hfd : w = .cur → k.fdPos = k.filePos) :
    lseek size k.fdPos pos w = if seekTarget k size pos w < 0 then none
      else some (seekTarget k size pos w).toNat := by
  have hbase : (w.base size k.fdPos : Int) + pos = seekTarget k size pos w := by
    cases w with
    | set => exact Int.zero_add pos
    | cur => exact congrArg (· + pos) (hfd rfl)
    | fromEnd => rfl
  rw [lseek, hbase]

theorem seek_rejected {v : FileView} {h : Handle} {reply : Handle → IoReply}
    (hh : v.handles fh = some h)
    (hreason : ((whenceOf mode).base (v.content h.file).length h.pos : Int) + pos < 0 ∨
      ((v.content h.file).length : Int) <
          ((whenceOf mode).base (v.content h.file).length h.pos : Int) + pos ∨
        host.seek = false ∨ maxFileSize32 < h.pos) (e : Option IoError) :
    v.Seeks fh pos mode host reply (.failed e) v := by
  simp only [FileView.Seeks, hh]
  exact .inl ⟨trivial, trivial, hreason⟩

theorem seek_moved {v : FileView} {h : Handle} {reply : Handle → IoReply} {target : Int}
    (hh : v.handles fh = some h)
    (htarget : ((whenceOf mode).base (v.content h.file).length h.pos : Int) + pos = target)
    (hfrom : 0 ≤ target) (hto : target ≤ (v.content h.file).length) :
    v.Seeks fh pos mode host reply (reply h) (v.move fh h target.toNat) := by
  subst htarget
  simp only [FileView.Seeks, hh]
  exact .inr ⟨hfrom, hto, trivial, trivial⟩

theorem seek_unknown {v : FileView} {reply : Handle → IoReply} (hh : v.handles fh = none)
    (e : Option IoError) : v.Seeks fh pos mode host reply (.failed e) v := by
  simp only [FileView.Seeks, hh]
  exact ⟨trivial, trivial⟩

theorem view_tellPosition (hk : u.lookupKey fh = some k) (htell : host.tell = true) (fd : Nat) :
    (u.tellPosition k fd host).view = u.view.move fh k.handle fd := by
  obtain ⟨rfl, -⟩ := lookupKey_some hk
  rw [tellPosition, if_pos htell]
  exact view_putKey (k := { k with fdPos := fd, filePos := fd }) hk

theorem Positions.tellPosition (hu : u.Positions) (htell : host.tell = true) (fd : Nat) :
    (u.tellPosition k fd host).Positions := by
  rw [IoUnit.tellPosition, if_pos htell]
  exact hu.putKey (Int.natCast_nonneg fd)

theorem seekKey_step (hu : u.Positions) (hk : u.lookupKey fh = some k)
    (hcareful : u.SeekCareful fh pos mode host) (reply : Handle → IoReply) :
    u.view.Seeks fh pos mode host reply (u.seekKey k pos mode host (reply k.handle)).2
        (u.seekKey k pos mode host (reply k.handle)).1.view ∧
      (u.seekKey k pos mode host (reply k.handle)).1.Positions := by
  have hh : u.view.handles fh = some k.handle := congrArg (Option.map IoKey.handle) hk
  have hpos : 0 ≤ k.filePos := hu.nonneg k (lookupKey_some hk).2
  have hcontent : u.view.content k.handle.file = u.content k.aino := view_content u k.aino
  have htarget := seekTarget_eq hpos (u.content k.aino).length pos (whenceOf mode)
  have hrejected : ∀ e, seekTarget k (u.content k.aino).length pos (whenceOf mode) < 0 ∨
      (u.content k.aino).length < seekTarget k (u.content k.aino).length pos (whenceOf mode) ∨
        host.seek = false → u.view.Seeks fh pos mode host reply (.failed e) u.view := by
    intro e hreason
    rw [← htarget, ← hcontent] at hreason
    exact seek_rejected hh (hreason.imp_right (Or.imp_right .inl)) e
  rw [seekKey]
  by_cases hbehind : (u.content k.aino).length <
      seekTarget k (u.content k.aino).length pos (whenceOf mode)
  · rw [if_pos hbehind]
    exact ⟨hrejected _ (.inr (.inl hbehind)), hu⟩
  rw [if_neg hbehind]
  by_cases hseek : host.seek = true
  swap
  · rw [if_neg hseek]
    exact ⟨hrejected _ (.inr (.inr ((Bool.not_eq_true _).mp hseek))), hu⟩
  obtain ⟨hfd, htell⟩ := hcareful k hk (Int.not_lt.mp hbehind) hseek
  rw [if_pos hseek, lseek_target hfd]
  by_cases hnegative : seekTarget k (u.content k.aino).length pos (whenceOf mode) < 0
  · rw [if_pos hnegative]
    exact ⟨hrejected _ (.inl hnegative), hu⟩
  rw [if_neg hnegative]
  have htell' := htell (Int.not_lt.mp hnegative)
  rw [view_tellPosition hk htell']
  rw [← hcontent] at htarget hbehind hnegative
  rw [← hcontent]
  exact ⟨seek_moved hh htarget (Int.not_lt.mp hnegative) (Int.not_lt.mp hbehind),
    hu.tellPosition htell' _⟩

theorem seek_step (hu : u.Positions) (hcareful : u.SeekCareful fh pos mode host) :
    u.view.Seeks fh pos mode host (fun h => .position h.pos) (u.actionSeek fh pos mode host).2
        (u.actionSeek fh pos mode host).1.view ∧ (u.actionSeek fh pos mode host).1.Positions := by
  cases hk : u.lookupKey fh with
  | none =>
    rw [actionSeek, hk]
    exact ⟨seek_unknown (congrArg (Option.map IoKey.handle) hk) _, hu⟩
  | some k =>
    have hh : u.view.handles fh = some k.handle := congrArg (Option.map IoKey.handle) hk
    have hpos : 0 ≤ k.filePos := hu.nonneg k (lookupKey_some hk).2
    have hhandle : (k.handle.pos : Int) = k.filePos := Int.toNat_of_nonneg hpos
    have hcontent : u.view.content k.handle.file = u.content k.aino := view_content u k.aino
    have htarget := seekTarget_eq hpos (u.content k.aino).length pos (whenceOf mode)
    have hrejected : ∀ e, seekTarget k (u.content k.aino).length pos (whenceOf mode) < 0 ∨
        (u.content k.aino).length < seekTarget k (u.content k.aino).length pos (whenceOf mode) ∨
          host.seek = false ∨ maxFileSize32 < k.filePos →
        u.view.Seeks fh pos mode host (fun h => .position h.pos) (.failed e) u.view := by
      intro e hreason
      rw [← htarget, ← hcontent, ← hhandle] at hreason
      exact seek_rejected hh hreason e
    rw [actionSeek, hk]
    dsimp only
    by_cases hrange : (u.content k.aino).length <
        seekTarget k (u.content k.aino).length pos (whenceOf mode) ∨
          seekTarget k (u.content k.aino).length pos (whenceOf mode) < 0
    · rw [if_pos hrange]
      exact ⟨hrejected _ (hrange.symm.imp_right .inl), hu⟩
    rw [if_neg hrange]
    obtain ⟨hto, hfrom⟩ := not_or.mp hrange
    by_cases hrefused : host.seek = false ∨ maxFileSize32 < k.filePos
    · have hfailed : (if host.seek then lseek (u.content k.aino).length k.fdPos pos (whenceOf mode)
          else none) = none ∨ maxFileSize32 < k.filePos := hrefused.imp_left fun hno => by
        rw [hno]
        rfl
      rw [if_pos hfailed, view_fd hk]
      exact ⟨hrejected _ (.inr (.inr hrefused)), hu.putKey hpos⟩
    obtain ⟨hseek, hsmall⟩ := not_or.mp hrefused
    have hseek' := (Bool.not_eq_false _).mp hseek
    obtain ⟨hfd, htell⟩ := hcareful k hk (Int.not_lt.mp hto) hseek'
    have htell' := htell (Int.not_lt.mp hfrom)
    rw [if_pos hseek', lseek_target hfd, if_neg hfrom, if_neg (not_or.mpr ⟨nofun, hsmall⟩),
      Option.getD_some, view_tellPosition hk htell', ← hhandle]
    rw [← hcontent] at htarget hto hfrom
    rw [← hcontent]
    exact ⟨seek_moved hh htarget (Int.not_lt.mp hfrom) (Int.not_lt.mp hto),
      hu.tellPosition htell' _⟩

end

/-! ### Opening and closing -/

theorem map_content_modify {files : List IoFile} {aino : Nat} {g : IoFile → IoFile}
    (hg : ∀ file, (g file).content = file.content) :
    (files.modify aino g).map IoFile.content = files.map IoFile.content := by
  refine List.ext_getElem? fun i => ?_
  rw [List.getElem?_map, List.getElem?_map, List.getElem?_modify]
  cases files[i]? with
  | none => rfl
  | some file =>
    refine congrArg some ?_
    dsimp only
    split_ifs
    · exact hg file
    · rfl

/-- A new handle at the start of a file. -/
theorem openFile_step (hu : u.Positions) (kind : FindKind) (aino : Nat) (write : Bool)
    (hfresh : ∀ k ∈ u.keys, k.uniq ≠ u.keyUniq + 1) :
    (u.openFile kind aino write true).2 = .opened (u.keyUniq + 1) ∧
      u.view.handles (u.keyUniq + 1) = none ∧
      (u.openFile kind aino write true).1.view =
        { u.view.setContent aino
            ((myOpen ⟨write, kind ≠ .input, kind = .output⟩).content (u.content aino)) with
          handles := Function.update u.view.handles (u.keyUniq + 1)
            (some ⟨aino, 0, (myOpen ⟨write, kind ≠ .input, kind = .output⟩).write⟩) } ∧
      (u.openFile kind aino write true).1.Positions := by
  have hnone : u.lookupKey (u.keyUniq + 1) = none :=
    List.find?_eq_none.mpr fun k hk hsame => hfresh k hk (beq_iff_eq.mp hsame).symm
  refine ⟨rfl, congrArg (Option.map IoKey.handle) hnone, ?_, ?_⟩
  · have hcontents : ((u.putContent aino ((myOpen ⟨write, kind ≠ .input, kind = .output⟩).content
          (u.content aino))).files.modify aino fun file =>
        if kind = .output then { file with elock := true }
        else { file with shlock := file.shlock + 1 }).map IoFile.content =
          (u.view.setContent aino ((myOpen ⟨write, kind ≠ .input, kind = .output⟩).content
            (u.content aino))).contents := by
      rw [map_content_modify fun file => by split_ifs <;> rfl]
      exact congrArg FileView.contents (view_putContent u aino _)
    refine (congrArg (fun contents => FileView.mk contents _ _) hcontents).trans ?_
    refine congrArg (fun handles => FileView.mk _ handles _) (funext fun fh => ?_)
    change ((IoKey.mk (u.keyUniq + 1) aino 0 0 _ :: u.keys).find? fun k1 => fh == k1.uniq).map
      IoKey.handle = _
    by_cases hfh : fh = u.keyUniq + 1
    · rw [hfh, Function.update_self, List.find?_cons, beq_self_eq_true]
      rfl
    · rw [Function.update_of_ne hfh, List.find?_cons, beq_eq_false_iff_ne.mpr hfh]
      rfl
  · exact ⟨List.forall_mem_cons.mpr ⟨Int.le_refl _, hu.nonneg⟩,
      List.nodup_cons.mpr ⟨fun hin => by
        obtain ⟨k, hk, hsame⟩ := List.mem_map.mp hin
        exact hfresh k hk hsame, hu.distinct⟩⟩

theorem find_eraseP {keys : List IoKey} (hdistinct : (keys.map IoKey.uniq).Nodup)
    (fh fh' : UInt32) :
    (keys.eraseP fun k1 => fh == k1.uniq).find? (fun k1 => fh' == k1.uniq) =
      if fh' = fh then none else keys.find? fun k1 => fh' == k1.uniq := by
  induction keys with
  | nil => exact (ite_self none).symm
  | cons k1 rest ih =>
    obtain ⟨hfirst, hrest⟩ := List.nodup_cons.mp hdistinct
    rw [List.eraseP_cons]
    by_cases hk1 : fh = k1.uniq
    · rw [beq_iff_eq.mpr hk1, cond_true]
      by_cases hsame : fh' = fh
      · rw [if_pos hsame]
        refine List.find?_eq_none.mpr fun k2 hk2 heq => hfirst ?_
        rw [← hk1, ← hsame, beq_iff_eq.mp heq]
        exact List.mem_map_of_mem hk2
      · rw [if_neg hsame, List.find?_cons, ← hk1, beq_eq_false_iff_ne.mpr hsame]
    · rw [beq_eq_false_iff_ne.mpr hk1, cond_false, List.find?_cons, List.find?_cons, ih hrest]
      by_cases hsame : fh' = fh
      · rw [if_pos hsame, if_pos hsame, hsame, beq_eq_false_iff_ne.mpr hk1]
      · rw [if_neg hsame, if_neg hsame]

theorem end_step (hu : u.Positions) (fh : UInt32) :
    FileView.Step u.view (u.actionEnd fh).2 (u.actionEnd fh).1.view (.fileEnd fh) ∧
      (u.actionEnd fh).1.Positions := by
  cases hk : u.lookupKey fh with
  | none =>
    have hh : u.view.handles fh = none := congrArg (Option.map IoKey.handle) hk
    rw [actionEnd, hk]
    refine ⟨⟨rfl, ?_⟩, hu⟩
    rw [← hh, Function.update_eq_self]
  | some k =>
    rw [actionEnd, hk]
    refine ⟨⟨rfl, ?_⟩, ⟨fun k1 hk1 => hu.nonneg k1 (List.mem_of_mem_eraseP hk1),
      hu.distinct.sublist (List.eraseP_sublist.map _)⟩⟩
    have hcontents : (u.files.modify k.aino fun file => if file.elock then
        { file with elock := false } else { file with shlock := file.shlock - 1 }).map
          IoFile.content = u.view.contents :=
      map_content_modify fun file => by split_ifs <;> rfl
    refine (congrArg (fun contents => FileView.mk contents _ _) hcontents).trans ?_
    refine congrArg (fun handles => FileView.mk _ handles _) (funext fun fh' => ?_)
    change ((u.keys.eraseP fun k1 => fh == k1.uniq).find? fun k1 => fh' == k1.uniq).map
      IoKey.handle = _
    rw [find_eraseP hu.distinct]
    by_cases hsame : fh' = fh
    · rw [if_pos hsame, hsame, Function.update_self]
      rfl
    · rw [if_neg hsame, Function.update_of_ne hsame]
      rfl

theorem findAccess_output {file : IoFile} {write : Bool}
    (h : u.findAccess .output file = .ok write) : write = true := by
  rw [findAccess] at h
  split_ifs at h with hbusy hprotected houtput
  · exact (Except.ok.inj h).symm
  all_goals exact absurd rfl houtput

theorem content_nil (access : VfsAccess) : access.content [] = [] := ite_self _

/-- What opening leaves of the content. -/
theorem open_content {kind : FindKind} {write : Bool} {f : HostFile}
    (houtput : kind = .output → write = true) (hempty : kind = .write → f = []) :
    (myOpen ⟨write, kind ≠ .input, kind = .output⟩).content f =
      if kind = .output then [] else f := by
  cases kind with
  | input => cases write <;> rfl
  | output =>
    rw [houtput rfl]
    rfl
  | write =>
    rw [hempty rfl]
    exact content_nil _

theorem find_step (hu : u.Positions) (kind : FindKind) (target : Option Nat) (opened : Bool)
    (hcareful : u.Careful (.find kind target opened)) :
    FileView.Step u.view (u.find kind target opened).2 (u.find kind target opened).1.view
        (.find kind target opened) ∧ (u.find kind target opened).1.Positions := by
  obtain ⟨hfresh, hempty⟩ := hcareful
  have hrefused : ∀ e, FileView.Step u.view (.failed e) u.view (.find kind target opened) ∧
      u.Positions := fun e => ⟨.inl ⟨trivial, rfl⟩, hu⟩
  rw [IoUnit.find.eq_def]
  by_cases hprotected : (decide (kind ≠ .input) && u.writeprotected) = true
  · rw [if_pos hprotected]
    exact hrefused _
  rw [if_neg hprotected]
  cases target with
  | some aino =>
    dsimp only
    cases hfile : u.files[aino]? with
    | none => exact hrefused _
    | some file =>
      dsimp only
      cases haccess : u.findAccess kind file with
      | error e => exact hrefused _
      | ok write =>
        dsimp only
        cases opened with
        | false => exact hrefused _
        | true =>
          obtain ⟨hreply, hnone, hview, hafter⟩ := openFile_step hu kind aino write hfresh
          refine ⟨.inr ⟨_, aino, _, hreply, hnone, congrArg FileView.handles hview,
            (congrArg FileView.writeprotected hview).trans rfl, .inl ⟨rfl, ?_, ?_⟩⟩, hafter⟩
          · rw [view, List.length_map]
            exact (List.getElem?_eq_some_iff.mp hfile).1
          · rw [hview, open_content (fun houtput => findAccess_output (houtput ▸ haccess))
              fun hkind => hempty hkind rfl aino rfl]
            by_cases houtput : kind = .output
            · rw [if_pos houtput, if_pos houtput]
              rfl
            · rw [if_neg houtput, if_neg houtput, ← view_content, setContent_self]
  | none =>
    dsimp only
    by_cases hinput : kind = .input
    · rw [if_pos hinput]
      exact hrefused _
    rw [if_neg hinput]
    cases opened with
    | false => exact hrefused _
    | true =>
      rw [Bool.not_true, if_neg Bool.false_ne_true]
      have hmade : ({ u with files := u.files ++ [⟨0, 0, false, []⟩] } : IoUnit).content
          u.files.length = [] := by
        rw [content, List.getElem?_append_right (Nat.le_refl _), Nat.sub_self]
        rfl
      obtain ⟨hreply, hnone, hview, hafter⟩ := openFile_step
        (u := { u with files := u.files ++ [⟨0, 0, false, []⟩] }) hu kind u.files.length true hfresh
      have hself := setContent_self
        ({ u with files := u.files ++ [⟨0, 0, false, []⟩] } : IoUnit).view u.files.length
      rw [view_content, hmade] at hself
      rw [hmade, content_nil, hself] at hview
      refine ⟨.inr ⟨_, u.files.length, _, hreply, hnone, congrArg FileView.handles hview,
        (congrArg FileView.writeprotected hview).trans rfl, .inr ⟨rfl, hinput, ?_, ?_⟩⟩, hafter⟩
      · rw [view, List.length_map]
      · rw [hview]
        exact List.map_append

/-! ### Runs -/

theorem step_refines (hu : u.Positions) (e : IoEvent) (hcareful : u.Careful e) :
    FileView.Step u.view (u.step e).2 (u.step e).1.view e ∧ (u.step e).1.Positions := by
  cases e with
  | find kind target opened => exact find_step hu kind target opened hcareful
  | fileEnd fh => exact end_step hu fh
  | read fh size host => exact read_step hu size host hcareful
  | write fh data host => exact write_step hu data host hcareful
  | seek fh pos mode host => exact seek_step hu hcareful
  | seek64 p host =>
    obtain ⟨hquad, haddr, hcareful⟩ := hcareful
    change u.view.Seeks p.arg1 (p.quad p.arg2) p.arg3.toInt32.toInt host
      (fun h => .stored p.arg4 h.pos) (u.actionSeek64 p host).2 (u.actionSeek64 p host).1.view ∧
        (u.actionSeek64 p host).1.Positions
    cases hk : u.lookupKey p.arg1 with
    | none =>
      rw [actionSeek64, hk]
      exact ⟨seek_unknown (congrArg (Option.map IoKey.handle) hk) _, hu⟩
    | some k =>
      have hhandle : (k.handle.pos : Int) = k.filePos :=
        Int.toNat_of_nonneg (hu.nonneg k (lookupKey_some hk).2)
      rw [actionSeek64, hk]
      dsimp only
      rw [hquad, haddr, ← hhandle]
      rw [haddr] at hcareful
      exact seekKey_step hu hk hcareful fun h => .stored p.arg4 h.pos
  | changeFilePosition64 fh pos mode host =>
    change u.view.Seeks fh pos mode host (fun _ => .done)
      (u.actionChangeFilePosition64 fh pos mode host).2
        (u.actionChangeFilePosition64 fh pos mode host).1.view ∧
          (u.actionChangeFilePosition64 fh pos mode host).1.Positions
    cases hk : u.lookupKey fh with
    | none =>
      rw [actionChangeFilePosition64, hk]
      exact ⟨seek_unknown (congrArg (Option.map IoKey.handle) hk) _, hu⟩
    | some k =>
      rw [actionChangeFilePosition64, hk]
      exact seekKey_step hu hk hcareful fun _ => .done
  | getFilePosition64 fh =>
    change (_ = u.view ∧ _) ∧ _
    cases hk : u.lookupKey fh with
    | none =>
      have hh : u.view.handles fh = none := congrArg (Option.map IoKey.handle) hk
      rw [step, actionGetFilePosition64, hk, hh]
      exact ⟨⟨rfl, trivial⟩, hu⟩
    | some k =>
      have hh : u.view.handles fh = some k.handle := congrArg (Option.map IoKey.handle) hk
      have hhandle : (k.handle.pos : Int) = k.filePos :=
        Int.toNat_of_nonneg (hu.nonneg k (lookupKey_some hk).2)
      rw [step, actionGetFilePosition64, hk, hh]
      exact ⟨⟨rfl, congrArg IoReply.position hhandle.symm⟩, hu⟩
  | shorten file n =>
    refine ⟨⟨rfl, ?_⟩, hu⟩
    rw [view_content]
    exact view_putContent u file _

theorem runEvents_refines (hu : u.Positions) (es : List IoEvent) (hcareful : u.CarefulRun es) :
    FileView.Run u.view es (u.runEvents es).2 (u.runEvents es).1.view ∧
      (u.runEvents es).1.Positions := by
  induction es generalizing u with
  | nil => exact ⟨.nil _, hu⟩
  | cons e es ih =>
    obtain ⟨hstep, hafter⟩ := step_refines hu e hcareful.1
    obtain ⟨hrun, hend⟩ := ih hafter hcareful.2
    exact ⟨.cons hstep hrun, hend⟩

end

/-- A file of three bytes. -/
def threeBytes : IoUnit := ⟨[⟨0, 0, false, [1, 2, 3]⟩], [], 0, false⟩

/-- A host that does all it is asked to. -/
def readyHost : HostTransfer := ⟨fun _ => true, true, true, true, []⟩

def threeBytesEvents : List IoEvent :=
  [.find .input (some 0) true, .seek 1 2 (-1) ⟨true, true, true⟩, .write 1 [7, 8] readyHost,
    .seek 1 (-3) 0 ⟨true, true, true⟩, .read 1 10 readyHost, .getFilePosition64 1]

end IoUnit

end LibretroUae.Filesys
