import LibretroUae.Filesys.Database
import Mathlib.Data.List.Nodup
import Mathlib.Data.List.Perm.Basic

/-!
# LibretroUae.Filesys.DatabaseKept

**The database keeps every record.** A child owns the record it remembers. As long as the file
is only removed when no child remembers a record of it, and a record is only taken over by its
name when no child owns it, every write leaves the records of the other children alone, and
after each writeback the file says of the children what there is to say.
-/

namespace LibretroUae.Filesys

open Lib

/-! ### When it does -/

/-- Nothing of the child is cut off in a record. -/
structure DbAino.Fits (c : DbAino) : Prop where
  aname : c.aname.length ≤ 256
  nname : c.nname.length ≤ 256
  comment : ∀ comment ∈ c.comment, comment.length ≤ 80 ∧ comment ≠ []

/-- The file is removed only when no child that stays remembers a record of it; a record that
is found by its name is no other child's, or one that its child has just given up; and
names and comments fit. -/
structure DbDir.WritebackCareful (d : DbDir) : Prop where
  removed : (∀ c ∈ d.children, c.needs = false) →
    ∀ c ∈ d.children, c.deleted = false → c.hasDbentry = false
  reused : ∀ pre c post, d.children = pre ++ c :: post → c.dirty = true → c.hasDbentry = false →
    c.needs = true → ∀ i ∈ slotOf d.records c.aname,
      (∀ a ∈ pre, a.hasDbentry = true → a.dbOffset = i → a.dirty = true ∧ a.needs = false) ∧
      ∀ a ∈ post, a.hasDbentry = true → a.dbOffset ≠ i
  fits : ∀ c ∈ d.children, c.dirty = true → c.needs = true → c.Fits

/-- What is found on the host needs no record, and what is read from the database is no
other child's. -/
def DbEvent.Careful (d : DbDir) : DbEvent → Prop
  | .change .. => True
  | .found uniq aname nname mode => (newDbAino uniq aname nname mode false).needs = false
  | .created .. => True
  | .lookupAname uniq aname => ∀ c ∈ fsdbLookupAinoAname d uniq aname, ¬ Owned d.children c.dbOffset
  | .lookupNname uniq nname => ∀ c ∈ fsdbLookupAinoNname d uniq nname, ¬ Owned d.children c.dbOffset
  | .front _ => True
  | .writeback => d.WritebackCareful
  | .delete uniq => (d.modify uniq DbAino.doomed).WritebackCareful
  | .dispose uniq => (d.children.any fun c => c.uniq = uniq && c.dirty) = true → d.WritebackCareful

def carefulDbMachine : Machine DbDir DbEvent Empty :=
  { dbMachine with legal := fun d e => e.Legal d ∧ e.Careful d }

/-! ### Records and children that agree -/

/-- A valid record that belongs to no child. -/
structure Foreign (f : List DbRecord) (l : List DbAino) (i : Nat) (r : DbRecord) : Prop where
  get : f[i]? = some r
  valid : r.valid = true
  unowned : ¬ Owned l i

/-- No name and no record is two children's, and what is clean is in step with the file. -/
structure Steady (f : List DbRecord) (l : List DbAino) : Prop where
  uniqs : (l.map DbAino.uniq).Nodup
  anames : ∀ a ∈ l, ∀ b ∈ l, a.aname = b.aname → a.uniq = b.uniq
  nnames : ∀ a ∈ l, ∀ b ∈ l, a.nname = b.nname → a.uniq = b.uniq
  slots : ∀ a ∈ l, ∀ b ∈ l, a.hasDbentry = true → b.hasDbentry = true →
    a.dbOffset = b.dbOffset → a.uniq = b.uniq
  bound : ∀ c ∈ l, c.hasDbentry = true → c.dbOffset < f.length
  synced : ∀ c ∈ l, c.dirty = false → c.hasDbentry = true →
    ∃ r, f[c.dbOffset]? = some r ∧ r.Holds c
  unneeded : ∀ c ∈ l, c.dirty = false → c.hasDbentry = false → c.needs = false

/-- Records that belong to no child are of different files, none of them a child's. -/
structure Consistent (f : List DbRecord) (l : List DbAino) : Prop extends Steady f l where
  foreign : ∀ i r, Foreign f l i r → ∀ c ∈ l, r.nname ≠ c.nname
  single : ∀ i j r r', Foreign f l i r → Foreign f l j r' → r.nname = r'.nname → i = j

section

variable {f f' : List DbRecord} {l l' : List DbAino} {c c' : DbAino}

theorem Steady.eq_of_uniq (h : Steady f l) {a b : DbAino} (ha : a ∈ l) (hb : b ∈ l)
    (huniq : a.uniq = b.uniq) : a = b :=
  List.inj_on_of_nodup_map h.uniqs ha hb huniq

theorem Owned.perm (hperm : l.Perm l') (i : Nat) : Owned l i ↔ Owned l' i := by
  simp only [Owned, hperm.mem_iff]

theorem Consistent.perm (h : Consistent f l) (hperm : l.Perm l') : Consistent f l' := by
  have hmem : ∀ {c}, c ∈ l' → c ∈ l := fun hc => hperm.mem_iff.mpr hc
  have hforeign : ∀ {i r}, Foreign f l' i r → Foreign f l i r := fun hr =>
    ⟨hr.get, hr.valid, fun ho => hr.unowned ((Owned.perm hperm _).mp ho)⟩
  exact {
    uniqs := (hperm.map _).nodup_iff.mp h.uniqs
    anames := fun a ha b hb => h.anames a (hmem ha) b (hmem hb)
    nnames := fun a ha b hb => h.nnames a (hmem ha) b (hmem hb)
    slots := fun a ha b hb => h.slots a (hmem ha) b (hmem hb)
    bound := fun c hc => h.bound c (hmem hc)
    synced := fun c hc => h.synced c (hmem hc)
    unneeded := fun c hc => h.unneeded c (hmem hc)
    foreign := fun i r hr c hc => h.foreign i r (hforeign hr) c (hmem hc)
    single := fun i j r r' hr hr' => h.single i j r r' (hforeign hr) (hforeign hr') }

/-! ### One child more, less, or different -/

theorem forall_mem_cons_pair {α : Type} {P : α → α → Prop} {x : α} {l : List α} (hself : P x x)
    (hleft : ∀ b ∈ l, P x b) (hright : ∀ a ∈ l, P a x) (hl : ∀ a ∈ l, ∀ b ∈ l, P a b) :
    ∀ a ∈ x :: l, ∀ b ∈ x :: l, P a b :=
  List.forall_mem_cons.mpr ⟨List.forall_mem_cons.mpr ⟨hself, hleft⟩,
    fun a ha => List.forall_mem_cons.mpr ⟨hright a ha, hl a ha⟩⟩

theorem owned_cons {i : Nat} :
    Owned (c :: l) i ↔ (c.hasDbentry = true ∧ c.dbOffset = i) ∨ Owned l i := by
  simp [Owned]

theorem Steady.tail (h : Steady f (c :: l)) : Steady f l := by
  have htail : ∀ {a}, a ∈ l → a ∈ c :: l := fun ha => List.mem_cons_of_mem c ha
  exact {
    uniqs := (List.nodup_cons.mp h.uniqs).2
    anames := fun a ha b hb => h.anames a (htail ha) b (htail hb)
    nnames := fun a ha b hb => h.nnames a (htail ha) b (htail hb)
    slots := fun a ha b hb => h.slots a (htail ha) b (htail hb)
    bound := fun a ha => h.bound a (htail ha)
    synced := fun a ha => h.synced a (htail ha)
    unneeded := fun a ha => h.unneeded a (htail ha) }

theorem Steady.uniq_ne (h : Steady f (c :: l)) : ∀ a ∈ l, a.uniq ≠ c.uniq := fun _ ha heq =>
  (List.nodup_cons.mp h.uniqs).1 (heq ▸ List.mem_map_of_mem ha)

/-- The records of the children stay when the file is written elsewhere. -/
theorem Steady.write (h : Steady f l) (hlength : f.length ≤ f'.length)
    (hsame : ∀ i, Owned l i → f'[i]? = f[i]?) : Steady f' l :=
  { h with
    bound := fun c hc hhas => Nat.lt_of_lt_of_le (h.bound c hc hhas) hlength
    synced := fun c hc hclean hhas => by
      rw [hsame c.dbOffset ⟨c, hc, hhas, rfl⟩]
      exact h.synced c hc hclean hhas }

/-- A child that has no record, or one that belongs to no other. -/
theorem Steady.cons (h : Steady f l) (huniq : ∀ a ∈ l, a.uniq ≠ c.uniq)
    (haname : ∀ a ∈ l, a.aname ≠ c.aname) (hnname : ∀ a ∈ l, a.nname ≠ c.nname)
    (hslot : c.hasDbentry = true → c.dbOffset < f.length ∧ ¬ Owned l c.dbOffset)
    (hsynced : c.dirty = false → c.hasDbentry = true → ∃ r, f[c.dbOffset]? = some r ∧ r.Holds c)
    (hneeds : c.dirty = false → c.hasDbentry = false → c.needs = false) : Steady f (c :: l) where
  uniqs := List.nodup_cons.mpr ⟨fun hin => by
    obtain ⟨a, ha, heq⟩ := List.mem_map.mp hin
    exact huniq a ha heq, h.uniqs⟩
  anames := forall_mem_cons_pair (fun _ => rfl) (fun b hb heq => absurd heq.symm (haname b hb))
    (fun a ha heq => absurd heq (haname a ha)) h.anames
  nnames := forall_mem_cons_pair (fun _ => rfl) (fun b hb heq => absurd heq.symm (hnname b hb))
    (fun a ha heq => absurd heq (hnname a ha)) h.nnames
  slots := forall_mem_cons_pair (fun _ _ _ => rfl)
    (fun b hb hhas hhas' heq => absurd ⟨b, hb, hhas', heq.symm⟩ (hslot hhas).2)
    (fun a ha hhas hhas' heq => absurd ⟨a, ha, hhas, heq⟩ (hslot hhas').2) h.slots
  bound := List.forall_mem_cons.mpr ⟨fun hhas => (hslot hhas).1, h.bound⟩
  synced := List.forall_mem_cons.mpr ⟨hsynced, h.synced⟩
  unneeded := List.forall_mem_cons.mpr ⟨hneeds, h.unneeded⟩

theorem Foreign.tail {i : Nat} {r : DbRecord} (h : Foreign f (c :: l) i r) : Foreign f l i r :=
  ⟨h.get, h.valid, fun ho => h.unowned (owned_cons.mpr (.inr ho))⟩

theorem Steady.aname_ne (h : Steady f (c :: l)) : ∀ a ∈ l, a.aname ≠ c.aname := fun a ha heq =>
  h.uniq_ne a ha (h.anames a (List.mem_cons_of_mem c ha) c List.mem_cons_self heq)

theorem Steady.nname_ne (h : Steady f (c :: l)) : ∀ a ∈ l, a.nname ≠ c.nname := fun a ha heq =>
  h.uniq_ne a ha (h.nnames a (List.mem_cons_of_mem c ha) c List.mem_cons_self heq)

/-- A child is added. -/
theorem Consistent.add (h : Consistent f l) (hsteady : Steady f (c :: l))
    (hforeign : ∀ i r, Foreign f (c :: l) i r → r.nname ≠ c.nname) : Consistent f (c :: l) where
  toSteady := hsteady
  foreign i r hr := List.forall_mem_cons.mpr ⟨hforeign i r hr, h.foreign i r hr.tail⟩
  single i j r r' hr hr' := h.single i j r r' hr.tail hr'.tail

/-- A child and the file change, but no record becomes nobody's. -/
theorem Consistent.replace (h : Consistent f (c :: l)) (hsteady : Steady f' (c' :: l))
    (hforeign : ∀ i r, Foreign f' (c' :: l) i r → Foreign f (c :: l) i r ∧ r.nname ≠ c'.nname) :
    Consistent f' (c' :: l) where
  toSteady := hsteady
  foreign i r hr := List.forall_mem_cons.mpr ⟨(hforeign i r hr).2,
    fun a ha => h.foreign i r (hforeign i r hr).1 a (List.mem_cons_of_mem c ha)⟩
  single i j r r' hr hr' := h.single i j r r' (hforeign i r hr).1 (hforeign j r' hr').1

/-- A child that is in step with the file is taken away: its record is nobody's now. -/
theorem Consistent.remove (h : Consistent f (c :: l)) (hclean : c.dirty = false) :
    Consistent f l := by
  have hold : ∀ {i r}, Foreign f l i r → (c.dbOffset = i ∧ r.nname = c.nname) ∨
      Foreign f (c :: l) i r := by
    intro i r hr
    by_cases hslot : c.hasDbentry = true ∧ c.dbOffset = i
    · obtain ⟨hhas, rfl⟩ := hslot
      obtain ⟨r', hget, hholds⟩ := h.synced c List.mem_cons_self hclean hhas
      obtain rfl := Option.some.inj (hr.get.symm.trans hget)
      exact .inl ⟨rfl, hholds.nname⟩
    · exact .inr ⟨hr.get, hr.valid, fun ho => (owned_cons.mp ho).elim hslot hr.unowned⟩
  refine ⟨h.toSteady.tail, fun i r hr a ha => ?_, fun i j r r' hr hr' heq => ?_⟩
  · have ha' := List.mem_cons_of_mem c ha
    rcases hold hr with ⟨-, hname⟩ | hr
    · exact fun heq => h.toSteady.uniq_ne a ha
        (h.nnames a ha' c List.mem_cons_self (heq.symm.trans hname))
    · exact h.foreign i r hr a ha'
  · rcases hold hr with ⟨hi, hname⟩ | hr <;> rcases hold hr' with ⟨hj, hname'⟩ | hr'
    · exact hi.symm.trans hj
    · exact absurd (heq.symm.trans hname) (h.foreign j r' hr' c List.mem_cons_self)
    · exact absurd (heq.trans hname') (h.foreign i r hr c List.mem_cons_self)
    · exact h.single i j r r' hr hr' heq

end

/-! ### Writing a record -/

theorem putRecord_of_lt {f : List DbRecord} {i : Nat} {r : DbRecord} (hi : i < f.length) :
    putRecord f i r = f.set i r := if_pos hi

theorem putRecord_end (f : List DbRecord) (r : DbRecord) : putRecord f f.length r = f ++ [r] := by
  rw [putRecord, if_neg (Nat.lt_irrefl _), Nat.sub_self, List.replicate_zero, List.append_nil]

section

variable {f : List DbRecord} {i j : Nat} {r : DbRecord}

theorem length_putRecord (hi : i ≤ f.length) : f.length ≤ (putRecord f i r).length := by
  rcases Nat.lt_or_eq_of_le hi with hi | rfl
  · exact Nat.le_of_eq (putRecord_of_lt hi ▸ List.length_set.symm)
  · rw [putRecord_end, List.length_append]
    exact Nat.le_add_right _ _

theorem getElem?_putRecord (hi : i ≤ f.length) : (putRecord f i r)[i]? = some r := by
  rcases Nat.lt_or_eq_of_le hi with hi | rfl
  · rw [putRecord_of_lt hi, List.getElem?_set_self hi]
  · rw [putRecord_end, List.getElem?_concat_length]

theorem getElem?_putRecord_ne (hi : i ≤ f.length) (hne : i ≠ j) :
    (putRecord f i r)[j]? = f[j]? := by
  rcases Nat.lt_or_eq_of_le hi with hi | rfl
  · rw [putRecord_of_lt hi, List.getElem?_set_ne hne]
  · rw [putRecord_end]
    rcases Nat.lt_or_gt_of_ne hne with hj | hj
    · rw [List.getElem?_eq_none (by simpa using Nat.succ_le_of_lt hj),
        List.getElem?_eq_none (Nat.le_of_lt hj)]
    · exact List.getElem?_append_left hj

end

theorem DbAino.record_holds {c : DbAino} (hneeds : c.needsDbentry = true) (h : c.Fits) :
    c.record.Holds c := by
  refine ⟨hneeds, rfl, List.take_of_length_le h.aname, List.take_of_length_le h.nname, ?_⟩
  change c.comment = if (c.comment.getD []).take 80 = [] then none
    else some ((c.comment.getD []).take 80)
  cases hcomment : c.comment with
  | none => rfl
  | some comment =>
    obtain ⟨hlength, hne⟩ := h.comment comment hcomment
    rw [Option.getD_some, List.take_of_length_le hlength, if_neg hne]

section

variable {f snapshot : List DbRecord} {l todo done : List DbAino} {c : DbAino} {i : Nat}

/-- A child is written where no other child's record is. -/
theorem Consistent.writeChild (h : Consistent f (c :: l)) (hi : i ≤ f.length)
    (hown : c.hasDbentry = true → i = c.dbOffset) (hfree : ¬ Owned l i)
    (hneeds : c.needsDbentry = c.needs) (hfits : c.needs = true → c.Fits) :
    Consistent (putRecord f i c.record) (c.written i :: l) := by
  have hsteady : Steady (putRecord f i c.record) (c.written i :: l) := by
    refine (h.tail.write (length_putRecord hi) fun j hj => ?_).cons h.uniq_ne h.aname_ne
      h.nname_ne (fun _ => ⟨?_, hfree⟩) (fun _ hhas => ?_) fun _ hhas => ?_
    · exact getElem?_putRecord_ne hi fun heq => hfree (heq ▸ hj)
    · exact (List.getElem?_eq_some_iff.mp (getElem?_putRecord hi)).1
    · have hholds := DbAino.record_holds hhas (hfits (hneeds ▸ hhas))
      exact ⟨c.record, getElem?_putRecord hi,
        ⟨hholds.valid, hholds.mode, hholds.aname, hholds.nname, hholds.comment⟩⟩
    · exact hneeds ▸ hhas
  refine h.replace hsteady fun j r hr => ?_
  have hne : i ≠ j := by
    rintro rfl
    obtain rfl := Option.some.inj ((getElem?_putRecord hi).symm.trans hr.get)
    exact hr.unowned (owned_cons.mpr (.inl ⟨hr.valid, rfl⟩))
  have hold : Foreign f (c :: l) j r := by
    refine ⟨(getElem?_putRecord_ne hi hne).symm.trans hr.get, hr.valid, fun ho => ?_⟩
    rcases owned_cons.mp ho with ⟨hhas, hj⟩ | ho
    · exact hne ((hown hhas).trans hj)
    · exact hr.unowned (owned_cons.mpr (.inr ho))
  exact ⟨hold, h.foreign j r hold c List.mem_cons_self⟩

theorem slotOf_some {aname : List UInt8} (h : slotOf snapshot aname = some i) :
    i < snapshot.length ∧ ∃ r, snapshot[i]? = some r ∧ r.aname = aname := by
  obtain ⟨hi, hname, -⟩ := List.findIdx?_eq_some_iff_getElem.mp h
  exact ⟨hi, snapshot[i], List.getElem?_eq_getElem hi, by simpa using hname⟩

/-- What is left to write takes over no record of another child. -/
def Reusable (snapshot : List DbRecord) (done todo : List DbAino) : Prop :=
  ∀ pre c post, todo = pre ++ c :: post → c.dirty = true → c.hasDbentry = false →
    ∀ i, slotOf snapshot c.aname = some i →
      (∀ a ∈ done, a.hasDbentry = true → a.dbOffset ≠ i) ∧
      (∀ a ∈ pre, a.hasDbentry = true → a.dbOffset = i → a.dirty = true ∧ a.needsDbentry = false) ∧
      ∀ a ∈ post, a.hasDbentry = true → a.dbOffset ≠ i

theorem position_free (h : Consistent f (c :: (done ++ todo))) (hlength : snapshot.length ≤ f.length)
    (hreuse : Reusable snapshot done (c :: todo)) (hdirty : c.dirty = true) :
    c.position snapshot f ≤ f.length ∧ ¬ Owned (done ++ todo) (c.position snapshot f) := by
  rw [DbAino.position]
  split_ifs with hhas
  · refine ⟨Nat.le_of_lt (h.bound c List.mem_cons_self hhas), fun ⟨a, ha, hahas, heq⟩ => ?_⟩
    exact h.uniq_ne a ha (h.slots a (List.mem_cons_of_mem c ha) c List.mem_cons_self hahas hhas heq)
  · cases hslot : slotOf snapshot c.aname with
    | none =>
      refine ⟨Nat.le_refl _, fun ⟨a, ha, hahas, heq⟩ => ?_⟩
      exact Nat.ne_of_lt (h.bound a (List.mem_cons_of_mem c ha) hahas) heq
    | some i =>
      obtain ⟨hdone, -, htodo⟩ := hreuse [] c todo rfl hdirty (by simpa using hhas) i hslot
      refine ⟨Nat.le_trans (Nat.le_of_lt (slotOf_some hslot).1) hlength,
        fun ⟨a, ha, hahas, heq⟩ => ?_⟩
      rcases List.mem_append.mp ha with ha | ha
      · exact hdone a ha hahas heq
      · exact htodo a ha hahas heq

/-- The records that later children take over by their names are not those of a child that
was just written. -/
theorem Reusable.written (hreuse : Reusable snapshot done (c :: todo))
    (h : Consistent f (c :: (done ++ todo))) (hlength : snapshot.length ≤ f.length) :
    Reusable snapshot (done ++ [c.written (c.position snapshot f)]) todo := by
  intro pre c₂ post htodo hdirty₂ hhas₂ i hslot₂
  obtain ⟨hdone, hpre, hpost⟩ := hreuse (c :: pre) c₂ post (by rw [htodo]; rfl) hdirty₂ hhas₂ i hslot₂
  refine ⟨fun a ha hahas => ?_, fun a ha => hpre a (List.mem_cons_of_mem c ha), hpost⟩
  rcases List.mem_append.mp ha with ha | ha
  · exact hdone a ha hahas
  obtain rfl := List.mem_singleton.mp ha
  change c.needsDbentry = true at hahas
  change c.position snapshot f ≠ i
  rw [DbAino.position]
  split_ifs with hhas
  · intro heq
    have hgiven := (hpre c List.mem_cons_self hhas heq).2
    rw [hahas] at hgiven
    cases hgiven
  · obtain ⟨hi, r₂, hget₂, hname₂⟩ := slotOf_some hslot₂
    cases hslot : slotOf snapshot c.aname with
    | none => exact fun heq => Nat.not_lt_of_le hlength ((show f.length = i from heq) ▸ hi)
    | some j =>
      rintro rfl
      obtain ⟨-, r, hget, hname⟩ := slotOf_some hslot
      obtain rfl := Option.some.inj (hget.symm.trans hget₂)
      refine h.aname_ne c₂ (List.mem_append_right _ ?_) (hname₂.symm.trans hname)
      rw [htodo]
      exact List.mem_append_right _ List.mem_cons_self

theorem Reusable.skip (hreuse : Reusable snapshot done (c :: todo)) (hclean : c.dirty = false) :
    Reusable snapshot (done ++ [c]) todo := by
  intro pre c₂ post htodo hdirty₂ hhas₂ i hslot₂
  obtain ⟨hdone, hpre, hpost⟩ := hreuse (c :: pre) c₂ post (by rw [htodo]; rfl) hdirty₂ hhas₂ i hslot₂
  refine ⟨fun a ha hahas => ?_, fun a ha => hpre a (List.mem_cons_of_mem c ha), hpost⟩
  rcases List.mem_append.mp ha with ha | ha
  · exact hdone a ha hahas
  obtain rfl := List.mem_singleton.mp ha
  intro heq
  rw [(hpre a List.mem_cons_self hahas heq).1] at hclean
  cases hclean

/-- The loop leaves every child in step with the file. -/
theorem writeChildren_consistent (h : Consistent f (done ++ todo))
    (hlength : snapshot.length ≤ f.length) (hdone : ∀ c ∈ done, c.dirty = false)
    (hneeds : ∀ c ∈ todo, c.needsDbentry = c.needs)
    (hfits : ∀ c ∈ todo, c.dirty = true → c.needs = true → c.Fits)
    (hreuse : Reusable snapshot done todo) :
    Consistent (writeChildren snapshot f todo).1 (done ++ (writeChildren snapshot f todo).2) ∧
      ∀ c ∈ done ++ (writeChildren snapshot f todo).2, c.dirty = false := by
  induction todo generalizing done f with
  | nil => exact ⟨h, by simpa [writeChildren] using hdone⟩
  | cons c todo ih =>
    have hneeds' := fun a ha => hneeds a (List.mem_cons_of_mem c ha)
    have hfits' := fun a ha => hfits a (List.mem_cons_of_mem c ha)
    rw [writeChildren]
    by_cases hdirty : c.dirty = true
    · rw [if_pos hdirty]
      have hfirst := h.perm List.perm_middle
      obtain ⟨hi, hfree⟩ := position_free hfirst hlength hreuse hdirty
      have hwritten := hfirst.writeChild hi (fun hhas => if_pos hhas) hfree
        (hneeds c List.mem_cons_self) (hfits c List.mem_cons_self hdirty)
      have hdone' : ∀ a ∈ done ++ [c.written (c.position snapshot f)], a.dirty = false :=
        List.forall_mem_append.mpr ⟨hdone, List.forall_mem_singleton.mpr rfl⟩
      rw [List.append_cons]
      refine ih ?_ (Nat.le_trans hlength (length_putRecord hi)) hdone' hneeds' hfits'
        (hreuse.written hfirst hlength)
      rw [← List.append_cons]
      exact hwritten.perm List.perm_middle.symm
    · rw [if_neg hdirty]
      have hclean : c.dirty = false := by simpa using hdirty
      have hdone' : ∀ a ∈ done ++ [c], a.dirty = false :=
        List.forall_mem_append.mpr ⟨hdone, List.forall_mem_singleton.mpr hclean⟩
      rw [List.append_cons]
      refine ih ?_ hlength hdone' hneeds' hfits' (hreuse.skip hclean)
      rw [← List.append_cons]
      exact h

end

/-! ### The writeback -/

section

variable {f : List DbRecord} {l xs : List DbAino}

/-- Every child changes in what does not matter for its record, or becomes dirty. -/
theorem Consistent.map (h : Consistent f l) {φ : DbAino → DbAino}
    (huniq : ∀ c, (φ c).uniq = c.uniq) (hhas : ∀ c, (φ c).hasDbentry = c.hasDbentry)
    (hoffset : ∀ c, (φ c).dbOffset = c.dbOffset)
    (hanames : ∀ a ∈ l, ∀ b ∈ l, (φ a).aname = (φ b).aname → a.uniq = b.uniq)
    (hnnames : ∀ a ∈ l, ∀ b ∈ l, (φ a).nname = (φ b).nname → a.uniq = b.uniq)
    (hsynced : ∀ c ∈ l, (φ c).dirty = false → c.hasDbentry = true →
      c.dirty = false ∧ ∀ r : DbRecord, r.Holds c → r.Holds (φ c))
    (hunneeded : ∀ c ∈ l, (φ c).dirty = false → c.hasDbentry = false → (φ c).needs = false)
    (hforeign : ∀ i r, Foreign f l i r → ∀ c ∈ l, r.nname ≠ (φ c).nname) :
    Consistent f (l.map φ) := by
  have howned : ∀ i, Owned (l.map φ) i ↔ Owned l i := fun i => by
    simp only [Owned, List.mem_map, exists_exists_and_eq_and, hhas, hoffset]
  have hold : ∀ {i r}, Foreign f (l.map φ) i r → Foreign f l i r := fun hr =>
    ⟨hr.get, hr.valid, fun ho => hr.unowned ((howned _).mpr ho)⟩
  exact {
    uniqs := by
      have hsame : (l.map φ).map DbAino.uniq = l.map DbAino.uniq := by
        rw [List.map_map]
        exact List.map_congr_left fun c _ => huniq c
      rw [hsame]
      exact h.uniqs
    anames := by simpa only [List.forall_mem_map, huniq] using hanames
    nnames := by simpa only [List.forall_mem_map, huniq] using hnnames
    slots := by simpa only [List.forall_mem_map, huniq, hhas, hoffset] using h.slots
    bound := by simpa only [List.forall_mem_map, hhas, hoffset] using h.bound
    synced := by
      simp only [List.forall_mem_map, hhas, hoffset]
      intro c hc hclean hentry
      obtain ⟨hclean', hholds⟩ := hsynced c hc hclean hentry
      obtain ⟨r, hget, hr⟩ := h.synced c hc hclean' hentry
      exact ⟨r, hget, hholds r hr⟩
    unneeded := by simpa only [List.forall_mem_map, hhas] using hunneeded
    foreign := fun i r hr => by
      simpa only [List.forall_mem_map] using hforeign i r (hold hr)
    single := fun i j r r' hr hr' => h.single i j r r' (hold hr) (hold hr') }

theorem Consistent.firstPass (h : Consistent f l) : Consistent f (l.map DbAino.firstPass) := by
  refine h.map (fun _ => rfl) (fun _ => rfl) (fun _ => rfl) h.anames h.nnames
    (fun c _ hclean hhas => ⟨?_, fun r hr => ⟨hr.valid, hr.mode, hr.aname, hr.nname, hr.comment⟩⟩)
    (fun c hc hclean hhas => ?_) h.foreign
  · change (c.dirty && (c.needs || c.hasDbentry)) = false at hclean
    simpa [hhas] using hclean
  · change (c.dirty && (c.needs || c.hasDbentry)) = false at hclean
    change c.needs = false
    cases hdirty : c.dirty with
    | false => exact h.unneeded c hc hdirty hhas
    | true => simpa [hdirty, hhas] using hclean

/-- One child becomes dirty, perhaps under new names. -/
theorem Consistent.modify (h : Consistent f l) {uniq : UInt32} {φ : DbAino → DbAino}
    (huniq : ∀ c, (φ c).uniq = c.uniq) (hhas : ∀ c, (φ c).hasDbentry = c.hasDbentry)
    (hoffset : ∀ c, (φ c).dbOffset = c.dbOffset) (hdirty : ∀ c, (φ c).dirty = true)
    (hnames : ∀ a ∈ l, ∀ c ∈ l, a.uniq ≠ uniq → c.uniq = uniq →
      a.aname ≠ (φ c).aname ∧ a.nname ≠ (φ c).nname)
    (hforeign : ∀ i r, Foreign f l i r → ∀ c ∈ l, c.uniq = uniq → r.nname ≠ (φ c).nname) :
    Consistent f (l.map fun c => if c.uniq = uniq then φ c else c) := by
  refine h.map (fun c => ?_) (fun c => ?_) (fun c => ?_) (fun a ha b hb heq => ?_)
    (fun a ha b hb heq => ?_) (fun c hc hclean hentry => ?_) (fun c hc hclean hentry => ?_)
    fun i r hr c hc => ?_
  · split_ifs
    · exact huniq c
    · rfl
  · split_ifs
    · exact hhas c
    · rfl
  · split_ifs
    · exact hoffset c
    · rfl
  · split_ifs at heq with ha' hb' hb'
    · exact ha'.trans hb'.symm
    · exact absurd heq.symm (hnames b hb a ha hb' ha').1
    · exact absurd heq (hnames a ha b hb ha' hb').1
    · exact h.anames a ha b hb heq
  · split_ifs at heq with ha' hb' hb'
    · exact ha'.trans hb'.symm
    · exact absurd heq.symm (hnames b hb a ha hb' ha').2
    · exact absurd heq (hnames a ha b hb ha' hb').2
    · exact h.nnames a ha b hb heq
  · by_cases hc' : c.uniq = uniq
    · rw [if_pos hc', hdirty] at hclean
      cases hclean
    · rw [if_neg hc'] at hclean ⊢
      exact ⟨hclean, fun _ hr => hr⟩
  · by_cases hc' : c.uniq = uniq
    · rw [if_pos hc', hdirty] at hclean
      cases hclean
    · rw [if_neg hc'] at hclean ⊢
      exact h.unneeded c hc hclean hentry
  · split_ifs with hc'
    · exact hforeign i r hr c hc hc'
    · exact h.foreign i r hr c hc

/-- Children in step with the file are taken away. -/
theorem Consistent.removes (h : Consistent f (xs ++ l)) (hclean : ∀ c ∈ xs, c.dirty = false) :
    Consistent f l := by
  induction xs with
  | nil => exact h
  | cons c xs ih =>
    obtain ⟨hc, hxs⟩ := List.forall_mem_cons.mp hclean
    exact ih (Consistent.remove h hc) hxs

/-- Without a file, children that need no record are in step with it. -/
theorem Consistent.bare (h : Consistent f l) {p : DbAino → Bool}
    (hbare : ∀ c ∈ l, p c = true → c.hasDbentry = false ∧ c.needs = false) :
    Consistent [] (l.filter p) := by
  have hmem : ∀ {c}, c ∈ l.filter p → c ∈ l := fun hc => (List.mem_filter.mp hc).1
  have hnone : ∀ c ∈ l.filter p, c.hasDbentry = false ∧ c.needs = false := fun c hc =>
    hbare c (hmem hc) (List.mem_filter.mp hc).2
  have hno : ∀ {c}, c ∈ l.filter p → ¬ c.hasDbentry = true := fun hc => by simp [(hnone _ hc).1]
  exact {
    uniqs := h.uniqs.sublist (List.filter_sublist.map _)
    anames := fun a ha b hb => h.anames a (hmem ha) b (hmem hb)
    nnames := fun a ha b hb => h.nnames a (hmem ha) b (hmem hb)
    slots := fun a ha b _ hhas => absurd hhas (hno ha)
    bound := fun c hc hhas => absurd hhas (hno hc)
    synced := fun c hc _ hhas => absurd hhas (hno hc)
    unneeded := fun c hc _ _ => (hnone c hc).2
    foreign := fun i r hr => nomatch hr.get
    single := fun i j r r' hr => nomatch hr.get }

end

section

variable {d : DbDir} {c : DbAino}

/-- The two ways a writeback ends: every child is in step with the file, or the file is gone and
no child that stays needs a record or remembers one. -/
def DbDir.Settled (d w : DbDir) : Prop :=
  (Consistent w.records w.children ∧ ∀ c ∈ w.children, c.dirty = false) ∨
    (w.file = none ∧ Consistent d.records w.children ∧ (∀ c ∈ w.children, c.needs = false) ∧
      ∀ c ∈ w.children, c.deleted = false → c.hasDbentry = false)

theorem DbDir.WritebackCareful.reusable (h : d.WritebackCareful) :
    Reusable d.records [] (d.children.map DbAino.firstPass) := by
  intro pre c post hsplit hdirty hhas i hslot
  obtain ⟨pre', rest, hchildren, rfl, hrest⟩ := List.map_eq_append_iff.mp hsplit
  obtain ⟨c', post', rfl, rfl, rfl⟩ := List.map_eq_cons_iff.mp hrest
  change c'.hasDbentry = false at hhas
  change (c'.dirty && (c'.needs || c'.hasDbentry)) = true at hdirty
  rw [hhas, Bool.or_false, Bool.and_eq_true_iff] at hdirty
  obtain ⟨hpre, hpost⟩ := h.reused pre' c' post' hchildren hdirty.1 hhas hdirty.2 i hslot
  refine ⟨List.forall_mem_nil _, ?_, ?_⟩
  · simp only [List.forall_mem_map]
    intro a ha hahas hoffset
    obtain ⟨hadirty, hneeds⟩ := hpre a ha hahas hoffset
    refine ⟨?_, hneeds⟩
    change (a.dirty && (a.needs || a.hasDbentry)) = true
    rw [hadirty, show a.hasDbentry = true from hahas, Bool.or_true, Bool.and_true]
  · simp only [List.forall_mem_map]
    exact hpost

theorem writeback_settled (h : Consistent d.records d.children) (hno : d.noUaefsdb = false)
    (hcareful : d.WritebackCareful) : d.Settled (fsdbDirWriteback d) := by
  have hfirst := h.firstPass
  have hneeds : ∀ c ∈ d.children.map DbAino.firstPass, c.needsDbentry = c.needs := by
    simp only [List.forall_mem_map]
    exact fun _ _ => rfl
  rw [fsdbDirWriteback]
  dsimp only
  by_cases hentries : (d.children.map DbAino.firstPass).any DbAino.needsDbentry = true
  · rw [if_neg (by simp [hentries])]
    by_cases hchanges : (d.children.map DbAino.firstPass).any DbAino.dirty = true
    · rw [if_neg (by simp [hchanges]), if_neg (by simp [hno])]
      refine .inl (writeChildren_consistent hfirst (Nat.le_refl _) (List.forall_mem_nil _) hneeds
        (fun c hc hdirty => ?_) hcareful.reusable)
      obtain ⟨a, ha, rfl⟩ := List.mem_map.mp hc
      have hdirty' : a.dirty = true := (Bool.and_eq_true_iff.mp hdirty).1
      exact fun hneed => ⟨(hcareful.fits a ha hdirty' hneed).aname,
        (hcareful.fits a ha hdirty' hneed).nname, (hcareful.fits a ha hdirty' hneed).comment⟩
    · rw [if_pos (by simpa using hchanges)]
      exact .inl ⟨hfirst, fun c hc => by simpa using List.any_eq_false.mp (by simpa using hchanges) c hc⟩
  · rw [if_pos (by simpa using hentries)]
    have hnone : ∀ c ∈ d.children, c.needs = false := fun c hc =>
      Bool.of_not_eq_true fun hneed => hentries
        (List.any_eq_true.mpr ⟨c.firstPass, List.mem_map_of_mem hc, hneed⟩)
    refine .inr ⟨rfl, hfirst, ?_, ?_⟩
    · simp only [List.forall_mem_map]
      exact hnone
    · simp only [List.forall_mem_map]
      exact hcareful.removed hnone

/-- A child that needs a record and is in step with the file. -/
theorem Consistent.lookupNname (h : Consistent d.records d.children) (hc : c ∈ d.children)
    (hclean : ∀ a ∈ d.children, a.dirty = false) (hneeds : c.needs = true) :
    c.hasDbentry = true ∧ ∃ r, d.records[c.dbOffset]? = some r ∧ r.Holds c ∧
      (∀ (i : Nat) (r' : DbRecord), d.records[i]? = some r' → r'.valid = true →
        r'.nname = c.nname → i = c.dbOffset) ∧
      ∀ uniq, fsdbLookupAinoNname d uniq c.nname = some (ainoFromBuf uniq r c.dbOffset) := by
  have hhas : c.hasDbentry = true := by
    refine Bool.of_not_eq_false fun hhas => ?_
    rw [h.unneeded c hc (hclean c hc) hhas] at hneeds
    cases hneeds
  obtain ⟨r, hget, hholds⟩ := h.synced c hc (hclean c hc) hhas
  have honly : ∀ (i : Nat) (r' : DbRecord), d.records[i]? = some r' → r'.valid = true →
      r'.nname = c.nname → i = c.dbOffset := by
    intro i r' hget' hvalid hname
    by_cases howned : Owned d.children i
    · obtain ⟨a, ha, hahas, rfl⟩ := howned
      obtain ⟨r'', hget'', hholds'⟩ := h.synced a ha (hclean a ha) hahas
      obtain rfl := Option.some.inj (hget'.symm.trans hget'')
      rw [h.eq_of_uniq ha hc (h.nnames a ha c hc (hholds'.nname.symm.trans hname))]
    · exact absurd hname (h.foreign i r' ⟨hget', hvalid, howned⟩ c hc)
  refine ⟨hhas, r, hget, hholds, honly, fun uniq => ?_⟩
  obtain ⟨hlt, rfl⟩ := List.getElem?_eq_some_iff.mp hget
  have hfind : d.records.findIdx? (fun r => r.valid && r.nname == c.nname) = some c.dbOffset := by
    refine List.findIdx?_eq_some_iff_getElem.mpr ⟨hlt, ?_, fun j hj => ?_⟩
    · rw [hholds.valid, hholds.nname, beq_self_eq_true, Bool.and_self]
    · have hjlt := Nat.lt_trans hj hlt
      simp only [Bool.and_eq_true, beq_iff_eq, not_and]
      exact fun hvalid hname => Nat.ne_of_lt hj
        (honly j _ (List.getElem?_eq_getElem hjlt) hvalid hname)
  rw [fsdbLookupAinoNname, DbDir.lookup, hfind, Option.bind_some, hget, Option.map_some]

theorem DbDir.Settled.kept {w : DbDir} (h : d.Settled w) : w.Kept := by
  rcases h with ⟨h, hclean⟩ | ⟨-, h, hneeds, -⟩
  · exact ⟨fun c hc _ hneeds => h.lookupNname hc hclean hneeds, h.slots⟩
  · refine ⟨fun c hc _ hneed => ?_, h.slots⟩
    rw [hneeds c hc] at hneed
    cases hneed

/-- After a writeback a child may be taken away. -/
theorem DbDir.Settled.drop {w : DbDir} (h : d.Settled w) (p : DbAino → Bool)
    (hlive : ∀ c ∈ w.children, p c = true → c.deleted = false) :
    Consistent w.records (w.children.filter p) := by
  rcases h with ⟨h, hclean⟩ | ⟨hfile, h, hneeds, hbare⟩
  · refine (h.perm (List.filter_append_perm (fun c => !p c) w.children).symm).removes ?_ |>.perm ?_
    · exact fun c hc => hclean c (List.mem_filter.mp hc).1
    · simp
  · rw [DbDir.records, hfile]
    exact h.bare fun c hc hp => ⟨hbare c hc (hlive c hc hp), hneeds c hc⟩

/-- The writeback moves records about; it does not rename or delete children. -/
def DbAino.mark (c : DbAino) : UInt32 × Bool := (c.uniq, c.deleted)

theorem map_mark_writeChildren (snapshot : List DbRecord) (f : List DbRecord) (l : List DbAino) :
    (writeChildren snapshot f l).2.map DbAino.mark = l.map DbAino.mark := by
  induction l generalizing f with
  | nil => rfl
  | cons c l ih =>
    rw [writeChildren]
    split_ifs
    · rw [List.map_cons, ih, List.map_cons]
      rfl
    · rw [List.map_cons, ih, List.map_cons]

theorem map_mark_writeback (d : DbDir) :
    (fsdbDirWriteback d).children.map DbAino.mark = d.children.map DbAino.mark := by
  have hfirst : (d.children.map DbAino.firstPass).map DbAino.mark = d.children.map DbAino.mark :=
    List.map_map.trans rfl
  rw [fsdbDirWriteback]
  dsimp only
  split_ifs
  · exact hfirst
  · exact hfirst
  · rw [← hfirst]
    exact List.map_map.trans rfl
  · exact (map_mark_writeChildren _ _ _).trans hfirst

theorem noUaefsdb_writeback (d : DbDir) : (fsdbDirWriteback d).noUaefsdb = d.noUaefsdb := by
  rw [fsdbDirWriteback]
  dsimp only
  split_ifs <;> rfl

/-- A child after the writeback was one before, deleted or not. -/
theorem mem_writeback (hc : c ∈ (fsdbDirWriteback d).children) :
    ∃ a ∈ d.children, a.uniq = c.uniq ∧ a.deleted = c.deleted := by
  have hmark := List.mem_map_of_mem (f := DbAino.mark) hc
  rw [map_mark_writeback] at hmark
  obtain ⟨a, ha, heq⟩ := List.mem_map.mp hmark
  obtain ⟨huniq, hdeleted⟩ := Prod.mk.inj heq
  exact ⟨a, ha, huniq, hdeleted⟩

/-! ### Runs -/

/-- What holds between the calls. -/
structure DbDir.Inv (d : DbDir) : Prop where
  noUaefsdb : d.noUaefsdb = false
  consistent : Consistent d.records d.children
  live : ∀ c ∈ d.children, c.deleted = false

theorem DbDir.NameFree.foreign {uniq : UInt32} {aname nname : List UInt8}
    (h : d.NameFree uniq aname nname) {i : Nat} {r : DbRecord}
    (hr : Foreign d.records d.children i r) : r.nname ≠ nname :=
  h.2 (r, i) (List.mem_zipIdx_iff_getElem?.mpr hr.get) hr.valid hr.unowned

/-- A changed child. -/
theorem DbDir.Inv.change (h : d.Inv) {uniq : UInt32} {aname nname : List UInt8} {mode : UInt32}
    {comment : Option (List UInt8)} (hname : d.NameFree uniq aname nname) :
    (d.modify uniq fun c => c.changed aname nname mode comment).Inv := by
  refine ⟨h.noUaefsdb, h.consistent.modify (fun _ => rfl) (fun _ => rfl) (fun _ => rfl)
    (fun _ => rfl) (fun a ha _ _ hne _ => hname.1 a ha hne) fun i r hr _ _ _ => hname.foreign hr, ?_⟩
  simp only [DbDir.modify, List.forall_mem_map]
  intro c hc
  split_ifs <;> exact h.live c hc

/-- A new child, with a record of its own or without. -/
theorem DbDir.Inv.add (h : d.Inv) (hlive : c.deleted = false) (huniq : d.FreshUniq c.uniq)
    (hanames : ∀ a ∈ d.children, a.aname ≠ c.aname) (hnnames : ∀ a ∈ d.children, a.nname ≠ c.nname)
    (hslot : c.hasDbentry = true → ¬ Owned d.children c.dbOffset ∧
      ∃ r, d.records[c.dbOffset]? = some r ∧ r.Holds c)
    (hneeds : c.dirty = false → c.hasDbentry = false → c.needs = false)
    (hforeign : ∀ i r, Foreign d.records (c :: d.children) i r → r.nname ≠ c.nname) :
    (d.add c).Inv := by
  refine ⟨h.noUaefsdb, h.consistent.add (h.consistent.toSteady.cons huniq hanames hnnames
    (fun hhas => ?_) (fun _ hhas => (hslot hhas).2) hneeds) hforeign,
    List.forall_mem_cons.mpr ⟨hlive, h.live⟩⟩
  obtain ⟨hfree, r, hget, -⟩ := hslot hhas
  exact ⟨(List.getElem?_eq_some_iff.mp hget).1, hfree⟩

/-- A child found on the host, or made there. -/
theorem DbDir.Inv.addNew (h : d.Inv) {uniq : UInt32} {aname nname : List UInt8} {mode : UInt32}
    {dirty : Bool} (huniq : d.FreshUniq uniq) (hname : d.NameFree uniq aname nname)
    (hneeds : dirty = false → (newDbAino uniq aname nname mode dirty).needs = false) :
    (d.add (newDbAino uniq aname nname mode dirty)).Inv :=
  h.add rfl huniq (fun a ha => (hname.1 a ha (huniq a ha)).1)
    (fun a ha => (hname.1 a ha (huniq a ha)).2) (fun hhas => nomatch hhas)
    (fun hclean _ => hneeds hclean) fun _ _ hr => hname.foreign hr.tail

theorem lookup_some {uniq : UInt32} {p : DbRecord → Bool} (hfound : d.lookup uniq p = some c) :
    ∃ i r, d.records[i]? = some r ∧ p r = true ∧ c = ainoFromBuf uniq r i := by
  obtain ⟨i, hfind, hmap⟩ := Option.bind_eq_some_iff.mp hfound
  obtain ⟨r, hget, rfl⟩ := Option.map_eq_some_iff.mp hmap
  obtain ⟨hlt, hp, -⟩ := List.findIdx?_eq_some_iff_getElem.mp hfind
  obtain rfl := Option.some.inj ((List.getElem?_eq_getElem hlt).symm.trans hget)
  exact ⟨i, _, hget, hp, rfl⟩

/-- A child read from a record that is no other's. -/
theorem DbDir.Inv.addRead (h : d.Inv) {uniq : UInt32} {i : Nat} {r : DbRecord}
    (hget : d.records[i]? = some r) (hvalid : r.valid = true) (huniq : d.FreshUniq uniq)
    (hanames : ∀ a ∈ d.children, a.aname ≠ r.aname) (hfree : ¬ Owned d.children i) :
    (d.add (ainoFromBuf uniq r i)).Inv := by
  have hr : Foreign d.records d.children i r := ⟨hget, hvalid, hfree⟩
  refine h.add rfl huniq hanames (fun a ha => (h.consistent.foreign i r hr a ha).symm)
    (fun _ => ⟨hfree, r, hget, hvalid, rfl, rfl, rfl, rfl⟩) (fun _ hhas => nomatch hhas)
    fun j r' hr' heq => ?_
  exact hr'.unowned (owned_cons.mpr (.inl ⟨rfl, h.consistent.single i j r r' hr hr'.tail heq.symm⟩))

/-- `delete_aino` has marked a child. -/
theorem DbDir.Inv.doomed (h : d.Inv) (uniq : UInt32) :
    Consistent (d.modify uniq DbAino.doomed).records (d.modify uniq DbAino.doomed).children :=
  h.consistent.modify (fun _ => rfl) (fun _ => rfl) (fun _ => rfl) (fun _ => rfl)
    (fun a ha c hc hne heq => ⟨fun hname => hne ((h.consistent.anames a ha c hc hname).trans heq),
      fun hname => hne ((h.consistent.nnames a ha c hc hname).trans heq)⟩)
    fun i r hr c hc _ => h.consistent.foreign i r hr c hc

/-- What a writeback leaves, less some children. -/
theorem DbDir.Inv.writtenDrop {e : DbDir} (h : Consistent e.records e.children)
    (hno : e.noUaefsdb = false) (hcareful : e.WritebackCareful) (p : DbAino → Bool)
    (hlive : ∀ a ∈ e.children, ∀ c : DbAino, a.uniq = c.uniq → p c = true → a.deleted = false) :
    DbDir.Inv { fsdbDirWriteback e with
      children := (fsdbDirWriteback e).children.filter p } := by
  have hstays : ∀ c ∈ (fsdbDirWriteback e).children, p c = true → c.deleted = false := by
    intro c hc hp
    obtain ⟨a, ha, huniq, hdeleted⟩ := mem_writeback hc
    exact hdeleted ▸ hlive a ha c huniq hp
  refine ⟨(noUaefsdb_writeback e).trans hno, (writeback_settled h hno hcareful).drop p hstays, ?_⟩
  exact fun c hc => hstays c (List.mem_filter.mp hc).1 (List.mem_filter.mp hc).2

theorem DbDir.Inv.step (h : d.Inv) {e : DbEvent} (hlegal : e.Legal d) (hcareful : e.Careful d) :
    (d.step e).Inv := by
  cases e with
  | change uniq aname nname mode comment => exact h.change hlegal.2
  | found uniq aname nname mode => exact h.addNew hlegal.1 hlegal.2 fun _ => hcareful
  | created uniq aname nname => exact h.addNew hlegal.1 hlegal.2 fun hclean => nomatch hclean
  | lookupAname uniq aname =>
    change (((fsdbLookupAinoAname d uniq aname).map d.add).getD d).Inv
    cases hfound : fsdbLookupAinoAname d uniq aname with
    | none => exact h
    | some c =>
      have hfree := hcareful c hfound
      obtain ⟨i, r, hget, hp, rfl⟩ := lookup_some hfound
      obtain ⟨hvalid, hname⟩ := Bool.and_eq_true_iff.mp hp
      exact h.addRead hget hvalid hlegal.1 (eq_of_beq hname ▸ hlegal.2) hfree
  | lookupNname uniq nname =>
    change (((fsdbLookupAinoNname d uniq nname).map d.add).getD d).Inv
    cases hfound : fsdbLookupAinoNname d uniq nname with
    | none => exact h
    | some c =>
      have hfree := hcareful c hfound
      have hanames := hlegal.2 c hfound
      obtain ⟨i, r, hget, hp, rfl⟩ := lookup_some hfound
      exact h.addRead hget (Bool.and_eq_true_iff.mp hp).1 hlegal.1 hanames hfree
  | front uniq =>
    have hperm := (List.filter_append_perm (fun c => decide (c.uniq = uniq)) d.children).symm
    have hsame : (d.step (.front uniq)).children = (d.children.filter fun c => decide (c.uniq = uniq))
        ++ d.children.filter fun c => !decide (c.uniq = uniq) := by
      simp only [DbDir.step, ne_eq, decide_not]
    refine ⟨h.noUaefsdb, ?_, ?_⟩
    · rw [hsame]
      exact h.consistent.perm hperm
    · rw [hsame]
      exact fun c hc => h.live c (hperm.mem_iff.mpr hc)
  | writeback =>
    have hwritten := DbDir.Inv.writtenDrop h.consistent h.noUaefsdb hcareful (fun _ => true)
      fun a ha _ _ _ => h.live a ha
    rw [List.filter_true] at hwritten
    exact hwritten
  | delete uniq =>
    refine DbDir.Inv.writtenDrop (h.doomed uniq) h.noUaefsdb hcareful _ ?_
    simp only [DbDir.modify, List.forall_mem_map]
    intro a ha c huniq hp
    split_ifs at huniq ⊢ with ha'
    · exact absurd (huniq.symm.trans ha') (by simpa using hp)
    · exact h.live a ha
  | dispose uniq =>
    by_cases hdirty : (d.children.any fun c => c.uniq = uniq && c.dirty) = true
    · change DbDir.Inv (((if _ then some (fsdbDirWriteback d) else none).getD d).drop uniq)
      rw [if_pos hdirty]
      exact DbDir.Inv.writtenDrop h.consistent h.noUaefsdb (hcareful hdirty) _
        fun a ha _ _ _ => h.live a ha
    · change DbDir.Inv (((if _ then some (fsdbDirWriteback d) else none).getD d).drop uniq)
      rw [if_neg hdirty]
      refine ⟨h.noUaefsdb, ?_, fun c hc => h.live c (List.mem_filter.mp hc).1⟩
      refine (h.consistent.perm (List.filter_append_perm (fun c => decide (c.uniq = uniq))
        d.children).symm).removes (fun c hc => ?_) |>.perm ?_
      · obtain ⟨hc, huniq⟩ := List.mem_filter.mp hc
        refine Bool.of_not_eq_true fun hcdirty => hdirty (List.any_eq_true.mpr ⟨c, hc, ?_⟩)
        rw [huniq, hcdirty, Bool.and_self]
      · simp only [DbDir.drop, ne_eq, decide_not]
        exact List.Perm.refl _

theorem DbDir.Start.inv (h : d.Start) : d.Inv := by
  refine ⟨h.noUaefsdb, ?_, ?_⟩
  · rw [h.children]
    refine ⟨⟨List.nodup_nil, ?_, ?_, ?_, ?_, ?_, ?_⟩, fun _ _ _ => ?_, fun i j r r' hr hr' heq => ?_⟩
    · exact List.forall_mem_nil _
    · exact List.forall_mem_nil _
    · exact List.forall_mem_nil _
    · exact List.forall_mem_nil _
    · exact List.forall_mem_nil _
    · exact List.forall_mem_nil _
    · exact List.forall_mem_nil _
    · exact h.single i j r r' hr.get hr'.get hr.valid hr'.valid heq
  · rw [h.children]
    exact List.forall_mem_nil _

/-- In every careful run, every writeback keeps the database. -/
theorem database_kept {d₀ d w : DbDir} {e : DbEvent} (hstart : d₀.Start)
    (hrun : carefulDbMachine.Reachable d₀ d) (hlegal : e.Legal d) (hcareful : e.Careful d)
    (hwritten : e.written d = some w) : w.Kept := by
  have hinv : d.Inv := by
    refine hrun.induct (fun hinv hlegal hstep => ?_) hstart.inv
    obtain rfl := Except.ok.inj hstep
    exact hinv.step hlegal.1 hlegal.2
  cases e with
  | writeback =>
    obtain rfl := Option.some.inj hwritten
    exact (writeback_settled hinv.consistent hinv.noUaefsdb hcareful).kept
  | delete uniq =>
    obtain rfl := Option.some.inj hwritten
    exact (writeback_settled (hinv.doomed uniq) hinv.noUaefsdb hcareful).kept
  | dispose uniq =>
    by_cases hdirty : (d.children.any fun c => c.uniq = uniq && c.dirty) = true
    · change (if _ then some (fsdbDirWriteback d) else none) = _ at hwritten
      rw [if_pos hdirty] at hwritten
      obtain rfl := Option.some.inj hwritten
      exact (writeback_settled hinv.consistent hinv.noUaefsdb (hcareful hdirty)).kept
    · change (if _ then some (fsdbDirWriteback d) else none) = _ at hwritten
      rw [if_neg hdirty] at hwritten
      cases hwritten
  | change | found | created | lookupAname | lookupNname | front => cases hwritten

end

/-! ### One file with a comment, and another -/

def emptyDir : DbDir := ⟨none, false, []⟩

theorem emptyDir_start : emptyDir.Start := by
  refine ⟨rfl, rfl, fun i j r r' hr => ?_⟩
  cases hr

def commentEvents : List DbEvent :=
  [.found 1 [65] [65] 0, .change 1 [65] [65] 0 (some [120])]

/-- A file that was given a comment. -/
def commented : DbDir where
  file := none
  noUaefsdb := false
  children := [(newDbAino 1 [65] [65] 0 false).changed [65] [65] 0 (some [120])]

theorem commented_careful : commented.WritebackCareful where
  removed hnone := by
    have hneeds := hnone _ List.mem_cons_self
    revert hneeds
    decide
  reused _ _ _ _ _ _ _ _ hslot := by cases hslot
  fits := List.forall_mem_singleton.mpr fun _ _ => ⟨by decide, by decide, by decide⟩

theorem database_kept_commented : (fsdbDirWriteback commented).Kept := by
  have hrun : carefulDbMachine.Reachable emptyDir commented := by
    refine ⟨commentEvents, .cons ⟨by decide, ?_⟩ rfl (.cons ⟨by decide, trivial⟩ rfl (.nil _))⟩
    change (newDbAino 1 [65] [65] 0 false).needs = false
    decide
  exact database_kept (e := .writeback) emptyDir_start hrun trivial commented_careful rfl

/-- The comment is taken away again, which removes the file, and a new file gets one. -/
def staleEvents : List DbEvent :=
  commentEvents ++ [.writeback, .change 1 [65] [65] 0 none, .writeback, .created 2 [67] [67],
    .change 2 [67] [67] 0 (some [99])]

def stale : DbDir where
  file := none
  noUaefsdb := false
  children :=
    [(newDbAino 2 [67] [67] 0 true).changed [67] [67] 0 (some [99]),
      { newDbAino 1 [65] [65] 0 true with hasDbentry := true }]

/-- The first file writes what it remembers over the record of the second. -/
theorem stale_overwrites : emptyDir.Start ∧ dbMachine.Reachable emptyDir stale ∧
    DbEvent.writeback.Legal stale ∧ ¬ (fsdbDirWriteback stale).Kept := by
  have hexec : dbMachine.exec emptyDir staleEvents = some stale := by decide
  refine ⟨emptyDir_start, Machine.reachable_of_exec hexec, trivial, fun h => ?_⟩
  obtain ⟨-, r, hget, hholds, -⟩ := h.kept _ List.mem_cons_self rfl (by decide)
  have hinvalid : r.valid = false := by
    obtain rfl := Option.some.inj hget
    rfl
  rw [hholds.valid] at hinvalid
  cases hinvalid

end LibretroUae.Filesys
