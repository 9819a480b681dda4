import LibretroUae.Flash.Microwire

/-!
# LibretroUae.Flash.MicrowireCommands

**The commands of a Microwire part.** What the part is for: words that are read, and written
and erased while that is enabled. The chip does this for the parts that have as many words as
their address has values. On the other two the address is reduced before the command in its
upper two bits is looked at, and writes are never enabled.
-/

namespace LibretroUae.Flash

open Eeprom93xx

/-- The words of a part. -/
structure Cells where
  contents : Nat → BitVec 16
  enabled : Bool

/-- The commands, with the bits that the part does not care about. -/
inductive Command
  | enable (low : Nat) (data : List Bool)
  | disable (low : Nat) (data : List Bool)
  | write (address : Nat) (v : BitVec 16)
  | erase (address : Nat) (data : List Bool)
  | read (address : Nat) (data : List Bool)

namespace Command

def Legal (nwords addrbits : Nat) : Command → Prop
  | enable low data | disable low data => low < 2 ^ (addrbits - 2) ∧ data.length ≤ 16
  | write a _ => a < nwords
  | erase a data | read a data => a < nwords ∧ data.length ≤ 16

/-- The bits of a command on the lines. -/
def bits (addrbits : Nat) : Command → List Bool
  | enable low data => headed addrbits false false (3 * 2 ^ (addrbits - 2) + low) ++ data
  | disable low data => headed addrbits false false low ++ data
  | write a v => headed addrbits false true a ++ msbFirst 16 v.toNat
  | erase a data => headed addrbits true true a ++ data
  | read a data => headed addrbits true false a ++ data

/-- What a command is for. -/
def apply (s : Cells) : Command → Cells
  | enable _ _ => { s with enabled := true }
  | disable _ _ => { s with enabled := false }
  | write a v =>
    if s.enabled then { s with contents := Function.update s.contents a (s.contents a &&& v) }
    else s
  | erase a _ =>
    if s.enabled then { s with contents := Function.update s.contents a 0xffff } else s
  | read _ _ => s

end Command

/-- Cycles of commands, with calls between them that leave the chip unselected. -/
inductive Session (addrbits : Nat) : List Command → List Pins → Prop
  | nil : Session addrbits [] []
  | cycle {c : Command} {cmds : List Command} {calls rest : List Pins} :
      Cycle (c.bits addrbits) calls → Session addrbits cmds rest →
      Session addrbits (c :: cmds) (calls ++ rest)
  | idle {esk edi : Bool} {cmds : List Command} {rest : List Pins} :
      Session addrbits cmds rest → Session addrbits cmds (⟨false, esk, edi⟩ :: rest)

/-- A part does what the commands are for: after every session of legal commands it holds the
words it should, and a read shows each bit of its word after the rise of the clock. -/
def Obeys (nwords : Nat) : Prop :=
  ∀ (memory : Nat → BitVec 8) (e : Eeprom93xx), eeprom93xxNew memory nwords = some e →
  ∀ (cmds : List Command) (calls : List Pins),
    (∀ c ∈ cmds, c.Legal nwords e.addrbits) → Session e.addrbits cmds calls →
    let s := cmds.foldl Command.apply ⟨e.contents, false⟩
    (lines e calls).contents = s.contents ∧
    ∀ (a : Nat) (data : List Bool) (b esk edi : Bool) (cs : List Pins), a < nwords →
      data.length < 16 → Carries (headed e.addrbits true false a ++ (data ++ [b])) cs →
      eeprom93xxRead (lines e (calls ++ ⟨true, esk, edi⟩ :: cs)) =
        (s.contents a).getMsbD data.length

/-! ### One command -/

/-- The chip is the part with those words. -/
structure Holds (e : Eeprom93xx) (nwords addrbits : Nat) (s : Cells) : Prop where
  part : Part e nwords addrbits
  contents : e.contents = s.contents
  writeable : e.writeable = s.enabled

variable {e f : Eeprom93xx} {nwords addrbits a : Nat} {s : Cells} {bits : List Bool}

theorem commit_part (f : Eeprom93xx) : f.commit.size = f.size ∧ f.commit.addrbits = f.addrbits ∧
    f.commit.writeable = f.writeable := by
  simp only [commit, forAll]
  split_ifs <;> exact ⟨rfl, rfl, rfl⟩

theorem commit_protected (h : f.writeable = false) : f.commit.contents = f.contents := by
  simp [commit, h]

/-- The commands that only enable and disable writes. -/
theorem commit_extended (hc : f.command = 0) (hs : f.subcommand = 0 ∨ f.subcommand = 3) :
    f.commit.contents = f.contents := by
  have h1 : ¬ f.subcommand = 1 := by omega
  have h2 : ¬ f.subcommand = 2 := by omega
  simp only [commit, hc, h1, h2]
  split_ifs <;> simp_all

theorem commit_write (hw : f.writeable = true) (hc : f.command = 1)
    (ht : 4 + f.addrbits + 16 ≤ f.tick) : f.commit.contents =
      Function.update f.contents f.address (f.contents f.address &&& f.data) := by
  simp [commit, hw, hc, ht]

theorem commit_erase (hw : f.writeable = true) (hc : f.command = 3) :
    f.commit.contents = Function.update f.contents f.address 0xffff := by
  simp [commit, hw, hc]

theorem commit_read (hc : f.command = 2) : f.commit.contents = f.contents := by
  simp [commit, hc]

theorem holds_deselect (h : Part e nwords addrbits) {c : Nat} (hf : Shifted e c a bits f)
    (esk : Bool) (hcontents : f.commit.contents = s.contents) (hw : f.writeable = s.enabled) :
    Holds (deselect f esk) nwords addrbits s := by
  obtain ⟨hsize, hbits, hwrite⟩ := commit_part f
  exact ⟨⟨rfl, hsize.trans (hf.size.trans h.size), hbits.trans (hf.addrbits.trans h.addrbits)⟩,
    hcontents, hwrite.trans hw⟩

/-- The words of a write, read back from its bits. -/
theorem ofNat_spelled (d : Nat) (v : BitVec 16) :
    BitVec.ofNat 16 (spelled d (msbFirst 16 v.toNat)) = v := by
  apply BitVec.eq_of_toNat_eq
  rw [spelled_msbFirst, BitVec.toNat_ofNat]
  have := v.isLt
  omega

/-- The upper two bits of an address. -/
theorem upper_bits {k low : Nat} (hlow : low < 2 ^ (addrbits - 2)) :
    (k * 2 ^ (addrbits - 2) + low) / 2 ^ (addrbits - 2) = k := by
  rw [Nat.add_comm, Nat.add_mul_div_right _ _ (by positivity), Nat.div_eq_of_lt hlow,
    Nat.zero_add]

theorem address_lt (hbits : 2 ≤ addrbits) {k low : Nat} (hk : k < 4)
    (hlow : low < 2 ^ (addrbits - 2)) : k * 2 ^ (addrbits - 2) + low < 2 ^ addrbits := by
  have hpow : (2 : Nat) ^ addrbits = 4 * 2 ^ (addrbits - 2) := by
    rw [show (4 : Nat) = 2 ^ 2 from rfl, ← pow_add]
    congr 1
    omega
  rw [hpow]
  nlinarith

/-- A command on a part whose addresses are all words. -/
theorem holds_cycle (hg : Geometry nwords addrbits) (hfull : nwords = 2 ^ addrbits)
    (h : Holds e nwords addrbits s) {c : Command} (hc : c.Legal nwords addrbits)
    {calls : List Pins} (hcalls : Cycle (c.bits addrbits) calls) :
    Holds (lines e calls) nwords addrbits (c.apply s) := by
  obtain ⟨h2, -, -, hle, -⟩ := hg.bounds
  have hmod : ∀ {a : Nat}, a < nwords → a % e.size = a := fun ha => by
    rw [h.part.size, Nat.mod_eq_of_lt ha]
  cases c with
  | enable low data =>
    have haddr := address_lt h2 (by omega : 3 < 4) hc.1
    obtain ⟨f, esk, hf, hlines⟩ := lines_cycle h.part hg haddr hc.2 hcalls
    have hsub : f.subcommand = 3 := by
      rw [subcommand, hf.address, hmod (hfull ▸ haddr), hf.addrbits, h.part.addrbits,
        upper_bits hc.1]
    rw [hlines]
    refine holds_deselect h.part hf esk ?_ ?_
    · rw [commit_extended hf.command (.inr hsub), hf.contents, h.contents]
      rfl
    · rw [subcommand, hf.address, hf.addrbits] at hsub
      rw [hf.writeable]
      simp [writeableAfter, subcommand, hsub, Command.apply]
  | disable low data =>
    have haddr := address_lt (k := 0) h2 (by omega) hc.1
    rw [Nat.zero_mul, Nat.zero_add] at haddr
    obtain ⟨f, esk, hf, hlines⟩ := lines_cycle h.part hg haddr hc.2 hcalls
    have hsub : f.subcommand = 0 := by
      rw [subcommand, hf.address, hmod (hfull ▸ haddr), hf.addrbits, h.part.addrbits,
        Nat.div_eq_of_lt hc.1]
    rw [hlines]
    refine holds_deselect h.part hf esk ?_ ?_
    · rw [commit_extended hf.command (.inl hsub), hf.contents, h.contents]
      rfl
    · rw [subcommand, hf.address, hf.addrbits] at hsub
      rw [hf.writeable]
      simp [writeableAfter, subcommand, hsub, Command.apply]
  | write a v =>
    obtain ⟨f, esk, hf, hlines⟩ := lines_cycle h.part hg (lt_of_lt_of_le hc hle)
      (by rw [length_msbFirst]) hcalls
    have hw : f.writeable = s.enabled := by rw [hf.writeable, if_neg (by simp), h.writeable]
    have hdata : f.data = v := by rw [hf.data (by simp), ofNat_spelled]
    rw [hlines]
    cases hs : s.enabled with
    | false =>
      rw [Command.apply, hs, if_neg (by simp)]
      exact holds_deselect h.part hf esk
        ((commit_protected (hw.trans hs)).trans (hf.contents.trans h.contents)) hw
    | true =>
      rw [Command.apply, hs, if_pos rfl]
      refine holds_deselect h.part hf esk ?_ (hw.trans hs)
      rw [commit_write (hw.trans hs) hf.command (by rw [hf.tick, hf.addrbits, length_msbFirst]),
        hdata, hf.address, hf.contents, h.contents, hmod hc]
  | erase a data =>
    obtain ⟨f, esk, hf, hlines⟩ := lines_cycle h.part hg (lt_of_lt_of_le hc.1 hle) hc.2 hcalls
    have hw : f.writeable = s.enabled := by rw [hf.writeable, if_neg (by simp), h.writeable]
    rw [hlines]
    cases hs : s.enabled with
    | false =>
      rw [Command.apply, hs, if_neg (by simp)]
      exact holds_deselect h.part hf esk
        ((commit_protected (hw.trans hs)).trans (hf.contents.trans h.contents)) hw
    | true =>
      rw [Command.apply, hs, if_pos rfl]
      refine holds_deselect h.part hf esk ?_ (hw.trans hs)
      rw [commit_erase (hw.trans hs) hf.command, hf.address, hf.contents, h.contents, hmod hc.1]
  | read a data =>
    obtain ⟨f, esk, hf, hlines⟩ := lines_cycle h.part hg (lt_of_lt_of_le hc.1 hle) hc.2 hcalls
    have hw : f.writeable = s.enabled := by rw [hf.writeable, if_neg (by simp), h.writeable]
    rw [hlines]
    exact holds_deselect h.part hf esk
      ((commit_read hf.command).trans (hf.contents.trans h.contents)) hw

/-! ### Sessions -/

theorem holds_idle (h : Holds e nwords addrbits s) (esk edi : Bool) :
    Holds (eeprom93xxWrite e ⟨false, esk, edi⟩) nwords addrbits s := by
  obtain ⟨⟨hecs, hsize, hbits⟩, hcontents, hw⟩ := h
  refine ⟨⟨rfl, ?_, ?_⟩, ?_, ?_⟩ <;> simpa [eeprom93xxWrite, hecs]

theorem holds_session (hg : Geometry nwords addrbits) (hfull : nwords = 2 ^ addrbits)
    {cmds : List Command} {calls : List Pins} (hcalls : Session addrbits cmds calls) :
    ∀ {e : Eeprom93xx} {s : Cells}, Holds e nwords addrbits s →
      (∀ c ∈ cmds, c.Legal nwords addrbits) →
      Holds (lines e calls) nwords addrbits (cmds.foldl Command.apply s) := by
  induction hcalls with
  | nil => exact fun h _ => h
  | @cycle c cmds calls rest hcycle _ ih =>
    intro e s h hlegal
    rw [lines_append, List.foldl_cons]
    exact ih (holds_cycle hg hfull h (hlegal c (by simp)) hcycle)
      fun d hd => hlegal d (by simp [hd])
  | idle _ ih => exact fun h hlegal => ih (holds_idle h _ _) hlegal

/-- A read shows the bits of its word. -/
theorem read_shows (hg : Geometry nwords addrbits) (h : Holds e nwords addrbits s)
    (ha : a < nwords) {data : List Bool} (b esk edi : Bool) {cs : List Pins}
    (hdata : data.length < 16) (hcs : Carries (headed addrbits true false a ++ (data ++ [b])) cs) :
    eeprom93xxRead (lines e (⟨true, esk, edi⟩ :: cs)) = (s.contents a).getMsbD data.length := by
  obtain ⟨h2, -, hpos, hle, hmax⟩ := hg.bounds
  have hsel : Selected { e.start with eecs := true, eesk := esk } := ⟨rfl, by simp [start]⟩
  have hcl : ∀ x, addressed x 2 a = clocked (addressed x 2 a) := fun _ => rfl
  rw [lines, List.foldl_cons, lines_select h.part, ← lines, lines_carries hcs hsel,
    List.foldl_append, foldl_headed h.part hg esk true false (lt_of_lt_of_le ha hle)]
  have hword : (addressed (opened e esk 2) 2 a).data = s.contents a := by
    rw [addressed_data _ _ _ (by decide)]
    change e.contents (a % e.size) = _
    rw [h.part.size, Nat.mod_eq_of_lt ha, h.contents]
  change eeprom93xxRead ((data ++ [b]).foldl clockIn (addressed (opened e esk 2) 2 a)) = _
  rw [hcl, eeprom93xxRead, eedo_clockIn_data b _ _ _ _ hdata, hword]
  · rw [addressed_tick, addressed_addrbits]
  · rw [addressed_addrbits]
    exact h.part.addrbits ▸ h2
  · rw [addressed_address]
    exact lt_of_lt_of_le (Nat.mod_lt _ (h.part.size ▸ hpos)) (h.part.size ▸ hmax)
  · rw [addressed_command]

theorem holds_new {memory : Nat → BitVec 8} (h : eeprom93xxNew memory nwords = some e) :
    Geometry nwords e.addrbits ∧ Holds e nwords e.addrbits ⟨e.contents, false⟩ := by
  unfold eeprom93xxNew at h
  split at h <;> first
    | (cases h; exact ⟨by constructor, ⟨rfl, rfl, rfl⟩, rfl, rfl⟩)
    | cases h

/-- On a part with fewer words than addresses the enable command does not enable. -/
theorem enable_reduced (hg : Geometry nwords addrbits) (hless : nwords ≠ 2 ^ addrbits)
    (h : Holds e nwords addrbits s) (hs : s.enabled = false) {calls : List Pins}
    (hcalls : Cycle ((Command.enable 0 []).bits addrbits) calls) :
    Holds (lines e calls) nwords addrbits s := by
  obtain ⟨h2, -, -, -, -⟩ := hg.bounds
  obtain ⟨f, esk, hf, hlines⟩ := lines_cycle h.part hg
    (address_lt h2 (by omega : 3 < 4) (Nat.two_pow_pos _)) (by simp) hcalls
  have hw : f.writeable = s.enabled := by
    rw [hf.writeable, if_pos (by rfl), writeableAfter, subcommand, h.part.size, h.part.addrbits]
    cases hg <;> simp_all [h.writeable]
  rw [hlines]
  exact holds_deselect h.part hf esk
    ((commit_protected (hw.trans hs)).trans (hf.contents.trans h.contents)) hw

/-- One bit as two calls. -/
def clockPulse (b : Bool) : List Pins := [⟨true, false, b⟩, ⟨true, true, b⟩]

/-- A cycle with the clock at its fastest. -/
def cycleCalls (bits : List Bool) : List Pins :=
  ⟨true, false, false⟩ :: bits.flatMap clockPulse ++ [⟨false, false, false⟩]

theorem cycle_calls (bits : List Bool) : Cycle bits (cycleCalls bits) := by
  refine .mk ?_
  induction bits with
  | nil => exact .nil
  | cons b bs ih => exact .cons (@CarriesBit.mk b b [] []) ih

/-- Such a part loses a write that follows the enable command. -/
theorem not_obeys_reduced (memory : Nat → BitVec 8) (hnew : eeprom93xxNew memory nwords = some e)
    (hless : nwords ≠ 2 ^ e.addrbits) (hword : e.contents 0 ≠ 0) : ¬ Obeys nwords := by
  obtain ⟨hg, h⟩ := holds_new hnew
  obtain ⟨-, -, hpos, hle, -⟩ := hg.bounds
  intro hobeys
  have hlegal : ∀ c ∈ [Command.enable 0 [], .write 0 0], c.Legal nwords e.addrbits := by
    simp [Command.Legal, hpos]
  have hsession : Session e.addrbits [Command.enable 0 [], .write 0 0] _ :=
    .cycle (cycle_calls _) (.cycle (cycle_calls _) .nil)
  have hafter := (hobeys memory e hnew _ _ hlegal hsession).1
  have hfirst := enable_reduced hg hless h rfl (cycle_calls _)
  obtain ⟨f, esk, hf, hlines⟩ := lines_cycle hfirst.part hg (lt_of_lt_of_le hpos hle)
    (by rw [length_msbFirst]) (cycle_calls ((Command.write 0 0).bits e.addrbits))
  have hw : f.writeable = false := by rw [hf.writeable, if_neg (by simp), hfirst.writeable]
  rw [List.append_nil, lines_append, hlines] at hafter
  have hkept : (deselect f esk).contents = e.contents :=
    (commit_protected hw).trans (hf.contents.trans hfirst.contents)
  rw [hkept] at hafter
  exact hword (by simpa [Command.apply] using congrFun hafter 0)

/-- **Microwire commands.** A part does what its commands are for exactly if it has 64 or 256
words. -/
theorem obeys_iff (h : nwords ∈ [16, 64, 128, 256]) : Obeys nwords ↔ nwords = 64 ∨ nwords = 256 := by
  constructor
  · intro hobeys
    by_contra hne
    simp only [List.mem_cons, List.not_mem_nil, or_false] at h
    rcases h with rfl | rfl | rfl | rfl
    · exact not_obeys_reduced (fun _ => 0xff) rfl (by decide) (by decide) hobeys
    · exact hne (.inl rfl)
    · exact not_obeys_reduced (fun _ => 0xff) rfl (by decide) (by decide) hobeys
    · exact hne (.inr rfl)
  · intro hfull memory e hnew cmds calls hlegal hsession
    obtain ⟨hg, h⟩ := holds_new hnew
    have hpow : nwords = 2 ^ e.addrbits := by
      generalize e.addrbits = n at hg
      rcases hfull with rfl | rfl <;> cases hg <;> rfl
    have hs := holds_session hg hpow hsession h hlegal
    refine ⟨hs.contents, fun a data b esk edi cs ha hdata hcs => ?_⟩
    rw [lines_append]
    exact read_shows hg hs ha b esk edi hdata hcs

theorem obeys_iff_words64 : Obeys 64 ↔ 64 = 64 ∨ 64 = 256 := obeys_iff (by decide)

/-- A part of 16 words, all ones: after the enable command the write of 0 to word 0 is lost. -/
theorem words16_not_written : ¬ Obeys 16 :=
  not_obeys_reduced (fun _ => 0xff) rfl (by decide) (by decide)

end LibretroUae.Flash
