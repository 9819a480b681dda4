import LibretroUae.Archive.Lookup
import LibretroUae.Lib.ExchangeSort

/-!
# LibretroUae.Archive.Listing

**A directory of an archive is listed.** It is opened at a node that has children. The names of the
children are fetched when the first is asked for, and sorted by exchanges; each call then returns
the next one. The listing can be started again, and counts its names, but no more when it is at its
end.

The volume is one that is open already, and none of its nodes is the root of another one.
-/

namespace LibretroUae.Archive

open Lib

/-- `_tcscmp`. -/
def tcscmp : Name → Name → Int
  | [], [] => 0
  | [], _ :: _ => -1
  | _ :: _, [] => 1
  | c :: cs, d :: ds => if c = d then tcscmp cs ds else c.toNat - d.toNat

structure Zdirectory where
  parentpath : Name
  first : Option Nat
  n : Option Nat
  cnt : Nat
  offset : Nat
  filenames : Option (List Name)

/-- What a call returns, and what it writes to `out`. -/
abbrev Listed := Nat × Option Name

/-- What is called on a directory. `out` is `NULL` when the names are counted. -/
inductive ListOp
  | read (fullpath : Bool)
  | count
  | reset

namespace Zvolume

variable (zv : Zvolume)

/-- The names of a node and of the siblings that follow. -/
def siblingNames : Nat → Option Nat → List Name
  | 0, _ => []
  | _, none => []
  | fuel + 1, some i => zv.name i :: siblingNames fuel (zv.sibling i)

/-- `zfile_opendir_archive_flags`. -/
def opendirArchive (path : Name) : Option Zdirectory := do
  let zn ← zv.getZnode path
  let child ← zv.child zn
  return ⟨path, some child, some child, 0, 0, none⟩

end Zvolume

namespace Zdirectory

variable (zv : Zvolume) (zd : Zdirectory)

/-- The names are fetched and sorted if they have not been. -/
def fetchNames : Zdirectory :=
  match zd.filenames with
  | some _ => zd
  | none =>
    let names := zv.siblingNames zv.nodes.length zd.first
    { zd with
      filenames := some (exchangeSort (fun a b => decide (0 < tcscmp a b)) names)
      cnt := names.length }

/-- `zfile_readdir_archive_3`. -/
def readdirArchive3 (out fullpath : Bool) : Listed × Zdirectory :=
  if zd.n = none ∨ zd.filenames ≠ none ∧ zd.cnt ≤ zd.offset then
    ((0, if out then some [] else none), zd)
  else
    let zd := zd.fetchNames zv
    if out = false then ((zd.cnt, none), zd)
    else
      let dir := if fullpath then zd.parentpath ++ [separator] else []
      ((1, some (dir ++ (zd.filenames.getD []).getD zd.offset [])),
        { zd with offset := zd.offset + 1 })

/-- `zfile_resetdir_archive`. -/
def resetdirArchive : Zdirectory := { zd with offset := 0, n := zd.first }

/-- What the calls return. -/
def list (zd : Zdirectory) : List ListOp → List Listed
  | [] => []
  | .read fullpath :: ops =>
    (zd.readdirArchive3 zv true fullpath).1 :: list (zd.readdirArchive3 zv true fullpath).2 ops
  | .count :: ops =>
    (zd.readdirArchive3 zv false false).1 :: list (zd.readdirArchive3 zv false false).2 ops
  | .reset :: ops => list zd.resetdirArchive ops

end Zdirectory

/-! ### What a listing is for -/

/-- The names of a directory, of which some are still to come. -/
structure Cursor where
  path : Name
  names : List Name
  rest : List Name

namespace Cursor

def read (k : Cursor) (fullpath : Bool) : Listed × Cursor :=
  match k.rest with
  | [] => ((0, some []), k)
  | c :: cs =>
    ((1, some (if fullpath then k.path ++ separator :: c else c)), { k with rest := cs })

def count (k : Cursor) : Listed := (if k.rest = [] then 0 else k.names.length, none)

def list (k : Cursor) : List ListOp → List Listed
  | [] => []
  | .read fullpath :: ops => (k.read fullpath).1 :: list (k.read fullpath).2 ops
  | .count :: ops => k.count :: list k ops
  | .reset :: ops => list { k with rest := k.names } ops

end Cursor

/-! ### The order of names -/

theorem tcscmp_pos (a b : Name) : 0 < tcscmp a b ↔ b < a := by
  induction a generalizing b with
  | nil => cases b <;> simp [tcscmp]
  | cons c cs ih =>
    cases b with
    | nil => simp [tcscmp]
    | cons d ds =>
      rw [tcscmp, List.cons_lt_cons_iff]
      split
      · next heq => simp [heq, ih]
      · next hne =>
        have hlt : (0 : Int) < c.toNat - d.toNat ↔ d < c := by
          rw [UInt8.lt_iff_toNat_lt]
          omega
        rw [hlt]
        simp [Ne.symm hne]

/-- The names in the order of their bytes. -/
def sortedNames (names : List Name) : List Name := names.mergeSort fun a b => decide (a ≤ b)

theorem exchangeSort_eq (names : List Name) :
    exchangeSort (fun a b => decide (0 < tcscmp a b)) names = sortedNames names := by
  have hle : ∀ a b : Name, decide (0 < tcscmp a b) = false ↔ a ≤ b := by
    intro a b
    rw [decide_eq_false_iff_not, tcscmp_pos]
    exact List.not_lt
  have hanti : ∀ a b : Name, a ≤ b → b ≤ a → a = b := fun _ _ => List.le_antisymm
  refine List.Perm.eq_of_pairwise (fun a b _ _ => hanti a b) ?_ ?_
    ((exchangeSort_perm names).trans (List.mergeSort_perm names _).symm)
  · refine List.Pairwise.imp (fun {a b} h => (hle a b).mp h) (exchangeSort_pairwise ?_ ?_ names)
    · intro a b hgt
      rw [hle]
      exact List.le_of_lt ((tcscmp_pos a b).mp (of_decide_eq_true hgt))
    · intro a b c hab hbc
      rw [hle] at hab hbc ⊢
      exact List.le_trans hab hbc
  · refine List.Pairwise.imp (fun {a b} h => of_decide_eq_true h)
      (List.pairwise_mergeSort (fun a b c hab hbc => ?_) (fun a b => ?_) names)
    · exact decide_eq_true (List.le_trans (of_decide_eq_true hab) (of_decide_eq_true hbc))
    · simpa using List.le_total a b

/-! ### The children of a node -/

namespace Zvolume

variable {zv : Zvolume}

/-- The children of a node, in their order. -/
def children (zv : Zvolume) (p : Nat) : List Nat :=
  (List.range zv.nodes.length).filter fun j => zv.parent j == some p

theorem childNames_eq (p : Nat) : zv.childNames p = (zv.children p).map zv.name := rfl

theorem child_eq_head (p : Nat) : zv.child p = (zv.children p).head? := List.head?_filter.symm

theorem mem_children {p j : Nat} (h : j ∈ zv.children p) : zv.parent j = some p := by
  simpa using (List.mem_filter.mp h).2

theorem children_lt (p : Nat) : (zv.children p).Pairwise (· < ·) :=
  List.pairwise_lt_range.filter _

/-- The sibling is the child that follows. -/
theorem sibling_eq_head {p j : Nat} {before after : List Nat}
    (h : zv.children p = before ++ j :: after) : zv.sibling j = after.head? := by
  have hp : zv.parent j = some p := mem_children (by simp [h])
  have horder := zv.children_lt p
  rw [h, List.pairwise_append, List.pairwise_cons] at horder
  obtain ⟨-, ⟨hafter, -⟩, hbefore⟩ := horder
  have hkept : (zv.children p).filter (fun k => decide (j < k)) = after := by
    have hnone : before.filter (fun k => decide (j < k)) = [] := by
      simp only [List.filter_eq_nil_iff, decide_eq_true_eq, Nat.not_lt]
      exact fun k hk => Nat.le_of_lt (hbefore k hk j (List.mem_cons_self ..))
    have hall : after.filter (fun k => decide (j < k)) = after := by
      simp only [List.filter_eq_self, decide_eq_true_eq]
      exact hafter
    rw [h, List.filter_append, hnone, List.filter_cons, hall]
    simp
  rw [sibling, hp, ← hkept, children, List.filter_filter, List.head?_filter]

theorem siblingNames_eq {p : Nat} (after : List Nat) : ∀ (before : List Nat) (fuel : Nat),
    zv.children p = before ++ after → after.length ≤ fuel →
    zv.siblingNames fuel after.head? = after.map zv.name := by
  induction after with
  | nil =>
    intro before fuel _ _
    cases fuel <;> rfl
  | cons j after ih =>
    intro before fuel h hfuel
    cases fuel with
    | zero => simp at hfuel
    | succ fuel =>
      have hrest := ih (before ++ [j]) fuel (by simpa using h) (by simpa using hfuel)
      rw [List.head?_cons, siblingNames, sibling_eq_head h, hrest, List.map_cons]

theorem siblingNames_child (p : Nat) :
    zv.siblingNames zv.nodes.length (zv.child p) = zv.childNames p := by
  have hlen : (zv.children p).length ≤ zv.nodes.length := by
    simpa [children] using List.length_filter_le (fun j => zv.parent j == some p)
      (List.range zv.nodes.length)
  rw [child_eq_head, siblingNames_eq (zv.children p) [] _ rfl hlen, childNames_eq]

end Zvolume

/-! ### Listing -/

/-- A directory has the state of a listing. Its names are fetched before the first is returned. -/
structure Lists (zv : Zvolume) (zd : Zdirectory) (k : Cursor) : Prop where
  node : zd.n ≠ none
  first : zd.first ≠ none
  path : zd.parentpath = k.path
  names : k.names = sortedNames (zv.siblingNames zv.nodes.length zd.first)
  nonempty : k.names ≠ []
  rest : k.rest = k.names.drop zd.offset
  unread : zd.filenames = none → zd.offset = 0
  fetched : ∀ l, zd.filenames = some l → l = k.names ∧ zd.cnt = k.names.length

namespace Lists

variable {zv : Zvolume} {zd : Zdirectory} {k : Cursor}

theorem fetchNames_eq (h : Lists zv zd k) :
    zd.fetchNames zv = { zd with filenames := some k.names, cnt := k.names.length } := by
  rw [Zdirectory.fetchNames]
  cases hfiles : zd.filenames with
  | some l =>
    obtain ⟨rfl, hcnt⟩ := h.fetched l hfiles
    simp only [← hcnt, ← hfiles]
  | none =>
    have hlen : k.names.length = (zv.siblingNames zv.nodes.length zd.first).length := by
      rw [h.names, sortedNames, List.length_mergeSort]
    simp only [exchangeSort_eq, ← h.names, hlen]

/-- The listing is at its end when no name is left. -/
theorem ended_iff (h : Lists zv zd k) :
    (zd.n = none ∨ zd.filenames ≠ none ∧ zd.cnt ≤ zd.offset) ↔ k.rest = [] := by
  have hrest : k.rest = [] ↔ k.names.length ≤ zd.offset := by
    rw [h.rest, List.drop_eq_nil_iff]
  rw [hrest]
  constructor
  · rintro (hn | ⟨hfiles, hcnt⟩)
    · exact absurd hn h.node
    · obtain ⟨l, hl⟩ := Option.ne_none_iff_exists'.mp hfiles
      rwa [(h.fetched l hl).2] at hcnt
  · intro hle
    have hfiles : zd.filenames ≠ none := fun hnone => by
      rw [h.unread hnone, Nat.le_zero, List.length_eq_zero_iff] at hle
      exact h.nonempty hle
    obtain ⟨l, hl⟩ := Option.ne_none_iff_exists'.mp hfiles
    exact .inr ⟨hfiles, by rwa [(h.fetched l hl).2]⟩

theorem read (h : Lists zv zd k) (fullpath : Bool) :
    (zd.readdirArchive3 zv true fullpath).1 = (k.read fullpath).1 ∧
      Lists zv (zd.readdirArchive3 zv true fullpath).2 (k.read fullpath).2 := by
  rw [Zdirectory.readdirArchive3, Cursor.read]
  cases hrest : k.rest with
  | nil =>
    rw [if_pos (h.ended_iff.mpr hrest)]
    exact ⟨rfl, h⟩
  | cons c cs =>
    have hnext : zd.offset < k.names.length ∧ k.names[zd.offset]? = some c ∧
        k.names.drop (zd.offset + 1) = cs := by
      have hdrop := h.rest.symm.trans hrest
      have hhead : k.names[zd.offset]? = some c := by
        rw [← List.head?_drop, hdrop, List.head?_cons]
      exact ⟨(List.getElem?_eq_some_iff.mp hhead).1, hhead, by rw [← List.tail_drop, hdrop]; rfl⟩
    obtain ⟨hlt, hhead, htail⟩ := hnext
    rw [if_neg fun hend => by simp [h.ended_iff.mp hend] at hrest]
    rw [h.fetchNames_eq]
    constructor
    · cases fullpath <;> simp [List.getD_eq_getElem?_getD, hhead, h.path]
    · exact {
        node := h.node
        first := h.first
        path := h.path
        names := h.names
        nonempty := h.nonempty
        rest := htail.symm
        unread := nofun
        fetched := by
          rintro l ⟨⟩
          exact ⟨rfl, rfl⟩ }

theorem count (h : Lists zv zd k) :
    (zd.readdirArchive3 zv false false).1 = k.count ∧
      Lists zv (zd.readdirArchive3 zv false false).2 k := by
  rw [Zdirectory.readdirArchive3, Cursor.count]
  by_cases hrest : k.rest = []
  · rw [if_pos (h.ended_iff.mpr hrest), if_pos hrest]
    exact ⟨rfl, h⟩
  · rw [if_neg (hrest ∘ h.ended_iff.mp), if_neg hrest, h.fetchNames_eq]
    refine ⟨rfl, { h with unread := nofun, fetched := ?_ }⟩
    rintro l ⟨⟩
    exact ⟨rfl, rfl⟩

theorem reset (h : Lists zv zd k) : Lists zv zd.resetdirArchive { k with rest := k.names } :=
  { h with node := h.first, rest := rfl, unread := fun _ => rfl }

theorem list_eq (ops : List ListOp) : ∀ {zd : Zdirectory} {k : Cursor}, Lists zv zd k →
    zd.list zv ops = k.list ops := by
  induction ops with
  | nil => exact fun _ => rfl
  | cons op ops ih =>
    intro zd k h
    cases op with
    | read fullpath =>
      rw [Zdirectory.list, Cursor.list, (h.read fullpath).1, ih (h.read fullpath).2]
    | count => rw [Zdirectory.list, Cursor.list, h.count.1, ih h.count.2]
    | reset => rw [Zdirectory.list, Cursor.list, ih h.reset]

end Lists

namespace Zvolume

variable {zv : Zvolume}

/-- An opened directory is at the start of a listing of its children. -/
theorem lists_opendirArchive {path : Name} {zn : Nat} {zd : Zdirectory}
    (hzn : zv.getZnode path = some zn) (hopen : zv.opendirArchive path = some zd) :
    Lists zv zd ⟨path, sortedNames (zv.childNames zn), sortedNames (zv.childNames zn)⟩ := by
  rw [opendirArchive, hzn] at hopen
  obtain ⟨c, hchild, rfl⟩ : ∃ c, zv.child zn = some c ∧
      ⟨path, some c, some c, 0, 0, none⟩ = zd := by
    simpa [Option.bind_eq_some_iff] using hopen
  have hnames : zv.childNames zn ≠ [] := by
    rw [childNames_eq]
    intro hnil
    rw [child_eq_head, List.map_eq_nil_iff.mp hnil] at hchild
    cases hchild
  constructor
  · nofun
  · nofun
  · rfl
  · rw [← siblingNames_child, hchild]
  · intro hnil
    have hlen := congrArg List.length hnil
    rw [sortedNames, List.length_mergeSort] at hlen
    exact hnames (List.length_eq_zero_iff.mp hlen)
  · rfl
  · exact fun _ => rfl
  · nofun

/-- The path of a directory and the name of a child lead to the child. -/
theorem Good.getZnode_listed (hg : zv.Good) {path : Name} {zn : Nat}
    (hzn : zv.getZnode path = some zn) {j : Nat} (hj : j ∈ zv.children zn) :
    zv.getZnode (path ++ separator :: zv.name j) = some j := by
  have hp := mem_children hj
  obtain ⟨hlt, hpath⟩ := walk_some _ _ (by rintro k ⟨⟩; exact isDir_lt hg.root.2.1) hzn
  have hfold : fold (path ++ separator :: zv.name j) =
      fold (zv.recurparent zn ++ separator :: zv.name j) := by
    rw [fold_append, fold_append, hpath]
  rw [getZnode, walk_congr zv hfold]
  exact (hg.getZnode_child hlt (hg.slashFree j zn hp) j).mpr ⟨hp, rfl⟩

end Zvolume

theorem splitPath_of_noSeparator : ∀ {t : Name}, t.any isSeparator = false → splitPath t = ([], t)
  | [], _ => rfl
  | c :: cs, h => by
    rw [List.any_cons, Bool.or_eq_false_iff] at h
    rw [splitPath, h.1, splitPath_of_noSeparator h.2]

namespace Zvolume

/-- Files of different names can be added below the root. -/
theorem Good.callsOk_files : ∀ {zv : Zvolume} (names : List Name), zv.Good →
    (∀ t ∈ names, t.any isSeparator = false ∧ t ≠ [] ∧ t ≠ zv.name 0) → (names.map fold).Nodup →
      (∀ t ∈ names, ∀ j, zv.parent j = some 0 → fold (zv.name j) ≠ fold t) →
        zv.CallsOk (names.map .addfile)
  | _, [], _, _, _, _ => trivial
  | zv, t :: ts, hg, hnames, hdistinct, hnew => by
    obtain ⟨hsep, hempty, hroot⟩ := hnames t List.mem_cons_self
    have hsplit := splitPath_of_noSeparator hsep
    have hdir := hg.root.2.1
    have hslash : separator ∉ t := by
      have hfree := (splitPath_slashFree t).2
      rwa [hsplit] at hfree
    have hfits : zv.Fits 0 t := ⟨hslash, hnew t List.mem_cons_self, fun _ => hroot⟩
    rw [List.map_cons, List.nodup_cons] at hdistinct
    refine ⟨?_, fun fuel zv' hcall => ?_⟩
    · rw [CallOk, hsplit]
      exact fun _ => ⟨0, by simp, hfits⟩
    · have hpos : 0 < fuel := by
        refine Nat.pos_of_ne_zero ?_
        rintro rfl
        simp [Zvolume.call, zvolumeAddfileAbs, hsplit, hempty, addDirs, znodeAllocChild,
          freeName] at hcall
      have halloc := @znodeAllocChild_tried _ 0 fuel 0 .file t (by simp) hfits hpos
      obtain rfl : zv.withChild 0 .file t = zv' := by
        simpa [Zvolume.call, zvolumeAddfileAbs, hsplit, hempty, addDirs, halloc] using hcall
      refine (hg.withChild hdir hfits).callsOk_files ts (fun u hu => ?_) hdistinct.2
        fun u hu j hj => ?_
      · rw [withChild_name (isDir_lt hdir)]
        exact hnames u (List.mem_cons_of_mem t hu)
      · rcases withChild_parent hj with ⟨hlt, hj⟩ | ⟨rfl, -⟩
        · rw [withChild_name hlt]
          exact hnew u (List.mem_cons_of_mem t hu) j hj
        · rw [withChild_name_new]
          exact fun heq => hdistinct.1 (heq ▸ List.mem_map_of_mem hu)

end Zvolume

/-- In a volume whose calls meet their conditions look-ups end, and a directory that is opened is
listed as its children's names in order, however it is read, counted and started again; and the
names, behind its path, lead to its children, each to another one. -/
theorem archiveListing {name : Name} {calls : List Call} (hname : name ≠ [])
    (hstart : rootStart name = 0) (hok : (zvolumeAlloc name).CallsOk calls) :
    ∃ zv, (∃ least, ∀ fuel, least ≤ fuel → (zvolumeAlloc name).run fuel calls = some zv) ∧
      (∀ path fuel, zv.nodes.length ≤ fuel → zv.walk path fuel (some 0) = zv.getZnode path) ∧
      ∀ path zn zd, zv.getZnode path = some zn → zv.opendirArchive path = some zd →
        (∀ ops, zd.list zv ops = Cursor.list
          ⟨path, sortedNames (zv.childNames zn), sortedNames (zv.childNames zn)⟩ ops) ∧
        ((sortedNames (zv.childNames zn)).map fun c =>
          zv.getZnode (path ++ separator :: c)).Perm ((zv.children zn).map some) := by
  obtain ⟨zv, hrun, hg⟩ := (zvolumeAlloc_good hname hstart).run calls hok
  refine ⟨zv, hrun, fun path _ => hg.getZnode_fuel path,
    fun path zn zd hzn hopen => ⟨fun ops => ?_, ?_⟩⟩
  · exact Lists.list_eq ops (Zvolume.lists_opendirArchive hzn hopen)
  · refine ((List.mergeSort_perm _ _).map _).trans (List.Perm.of_eq ?_)
    rw [Zvolume.childNames_eq, List.map_map]
    exact List.map_congr_left fun j hj => hg.getZnode_listed hzn hj

/-- A volume with three files. -/
theorem archiveListing_files :
    ∃ zv, (∃ least, ∀ fuel, least ≤ fuel → (zvolumeAlloc [0x76]).run fuel
        [.addfile [0x63], .addfile [0x61], .addfile [0x62]] = some zv) ∧
      (∀ path fuel, zv.nodes.length ≤ fuel → zv.walk path fuel (some 0) = zv.getZnode path) ∧
      ∀ path zn zd, zv.getZnode path = some zn → zv.opendirArchive path = some zd →
        (∀ ops, zd.list zv ops = Cursor.list
          ⟨path, sortedNames (zv.childNames zn), sortedNames (zv.childNames zn)⟩ ops) ∧
        ((sortedNames (zv.childNames zn)).map fun c =>
          zv.getZnode (path ++ separator :: c)).Perm ((zv.children zn).map some) := by
  have hchildless : ∀ j, (zvolumeAlloc [0x76]).parent j ≠ some 0 := fun j hj => by
    obtain rfl : j = 0 := Nat.lt_one_iff.mp (Zvolume.lt_length_of_parent hj)
    cases hj
  exact archiveListing (by decide) (by decide)
    ((zvolumeAlloc_good (by decide) (by decide)).callsOk_files [[0x63], [0x61], [0x62]]
      (by decide) (by decide) fun _ _ j hj => absurd hj (hchildless j))

/-- The names of a volume come sorted, and then no more. -/
example : ((zvolumeAlloc [0x76]).run 1 [.addfile [0x62], .addfile [0x61]]).bind (fun zv =>
    (zv.opendirArchive [0x76]).map fun zd => zd.list zv [.read false, .read true, .read true]) =
    some [(1, some [0x61]), (1, some [0x76, 0x2f, 0x62]), (0, some [])] := by
  decide +kernel

end LibretroUae.Archive
