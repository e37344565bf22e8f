import NanoS32.Inv.Change
import NanoS32.Lib.FileTree

/-!
# What is in the files

The heads of a disk with the format are a tree of files: a head of a file has as contents the bytes of the blocks that its live
references are. As long as no block is a live reference twice, a write to one file does not show in another.
-/

namespace NanoS32

/-- The contents of a head: nothing if it is a directory. -/
def Vol.headData (V : Vol) (C : Nat → List Nat) (h : Nat) : Option (List UInt8) :=
  if (V.ent h).flags = tFile then some (V.fileBytes (C h) 0 (V.ent h).size.toNat) else none

/-- The heads of a disk, with their parents, names and contents. -/
def Vol.fileTree (V : Vol) (C : Nat → List Nat) : FileTree Nat CStr UInt8 := { V.tree C with data := V.headData C }

@[simp] theorem Vol.fileTree_names (V : Vol) (C : Nat → List Nat) : (V.fileTree C).toNameTree = V.tree C := rfl

@[simp] theorem Vol.fileTree_node (V : Vol) (C : Nat → List Nat) (n : Nat) : (V.fileTree C).node n = (C n ≠ []) := rfl

@[simp] theorem Vol.fileTree_data (V : Vol) (C : Nat → List Nat) : (V.fileTree C).data = V.headData C := rfl

/-- No block of the data area is a reference twice, of one file or of two, and the references of a file past its size are 0. -/
structure Vol.Apart (V : Vol) (C : Nat → List Nat) : Prop where
  distinct : ∀ h h', C h ≠ [] → C h' ≠ [] → (V.ent h).flags = tFile → (V.ent h').flags = tFile →
    ∀ i i', V.firstData ≤ V.fref (C h) i → V.fref (C h) i = V.fref (C h') i' → h = h' ∧ i = i'
  tidy : ∀ h, C h ≠ [] → (V.ent h).flags = tFile → ∀ i, V.blocks h ≤ i → V.fref (C h) i = 0

/-- The file `h` with chain `ch` is as it was. -/
structure Vol.SameFile (V : Vol) (h : Nat) (ch : List Nat) (V' : Vol) : Prop where
  size : (V'.ent h).size = (V.ent h).size
  refs : ∀ i, V'.fref ch i = V.fref ch i
  data : ∀ i, V' (V.fref ch i) = V (V.fref ch i)

theorem Vol.SameFile.fileBytes {V V' : Vol} {h : Nat} {ch : List Nat} (hs : V.SameFile h ch V') :
    V'.fileBytes ch 0 (V'.ent h).size.toNat = V.fileBytes ch 0 (V.ent h).size.toNat := by
  rw [hs.size]
  refine List.map_congr_left fun j _ => ?_
  rw [Vol.fileByte, Vol.fileByte, hs.refs, hs.data]

/-- The heads that are left are what they were, the files among them outside `S` have the contents they had, and new heads are
empty. -/
structure Vol.KeepsFiles (V : Vol) (C : Nat → List Nat) (S : Nat → Prop) (V' : Vol) (C' : Nat → List Nat) : Prop where
  super : V' 1 = V 1
  flags : ∀ h, C h ≠ [] → C' h ≠ [] → (V'.ent h).flags = (V.ent h).flags
  files : ∀ h, C h ≠ [] → C' h ≠ [] → (V.ent h).flags = tFile → ¬S h → C' h = C h ∧ V.SameFile h (C h) V'
  new : ∀ h, C h = [] → C' h ≠ [] → (V'.ent h).size.toNat = 0 ∧ ∀ i, V'.fref (C' h) i = 0

/-- Blocks of the data area are none of the first two. -/
theorem Vol.firstData_pos (V : Vol) : 0 < V.firstData := by
  rw [Vol.firstData]
  omega

/-- A reference that a file may have is not an entry. -/
theorem Vol.RefOk.ne_ent {V : Vol} {k n : Nat} (hk : V.RefOk k) (hn : n < V.nent) : k ≠ 2 + n := by
  rcases hk with rfl | ⟨h, -⟩
  · omega
  · rw [Vol.firstData] at h
    omega

namespace Vol.KeepsFiles

variable {V V' : Vol} {C C' : Nat → List Nat} {S : Nat → Prop}

theorem firstData (hk : V.KeepsFiles C S V' C') : V'.firstData = V.firstData := by
  rw [Vol.firstData, Vol.nent_of_super hk.super, Vol.firstData]

/-- The contents of the heads that are left. -/
theorem headData (hk : V.KeepsFiles C S V' C') {h : Nat} (hh : C h ≠ []) (hh' : C' h ≠ []) (hS : ¬S h) :
    V'.headData C' h = V.headData C h := by
  have hflags := hk.flags h hh hh'
  rw [Vol.headData, Vol.headData, hflags]
  split_ifs with hfile
  · obtain ⟨hch, hs⟩ := hk.files h hh hh' hfile hS
    rw [hch, hs.fileBytes]
  · rfl

/-- A block that is a reference of a file was one of it before. -/
theorem ref (hk : V.KeepsFiles C S V' C') {h : Nat} (hh' : C' h ≠ []) (hfile : (V'.ent h).flags = tFile) (hS : ¬S h) {i : Nat}
    (hi : V.firstData ≤ V'.fref (C' h) i) :
    C h ≠ [] ∧ (V.ent h).flags = tFile ∧ V'.fref (C' h) i = V.fref (C h) i := by
  by_cases hh : C h = []
  · rw [(hk.new h hh hh').2] at hi
    exact absurd hi (Nat.not_le.2 V.firstData_pos)
  · have hfile₀ : (V.ent h).flags = tFile := (hk.flags h hh hh').symm.trans hfile
    obtain ⟨hch, hs⟩ := hk.files h hh hh' hfile₀ hS
    exact ⟨hh, hfile₀, by rw [hch, hs.refs]⟩

/-- The references of a file past its size stay 0. -/
theorem tidy (hk : V.KeepsFiles C S V' C') (ha : V.Apart C) {h : Nat} (hh' : C' h ≠ []) (hfile : (V'.ent h).flags = tFile) (hS : ¬S h)
    {i : Nat} (hi : V'.blocks h ≤ i) : V'.fref (C' h) i = 0 := by
  by_cases hh : C h = []
  · exact (hk.new h hh hh').2 i
  · have hfile₀ : (V.ent h).flags = tFile := (hk.flags h hh hh').symm.trans hfile
    obtain ⟨hch, hs⟩ := hk.files h hh hh' hfile₀ hS
    rw [Vol.blocks, hs.size] at hi
    rw [hch, hs.refs]
    exact ha.tidy h hh hfile₀ i hi

/-- The references stay apart when no file gets new ones. -/
theorem apart (hk : V.KeepsFiles C (fun _ => False) V' C') (ha : V.Apart C) : V'.Apart C' := by
  refine ⟨fun g h hg' hh' hgfile hhfile i i' hi heq => ?_, fun h hh' hfile i hi => hk.tidy ha hh' hfile not_false hi⟩
  rw [hk.firstData] at hi
  obtain ⟨hg, hgfile₀, href⟩ := hk.ref hg' hgfile not_false hi
  obtain ⟨hh, hhfile₀, href'⟩ := hk.ref hh' hhfile not_false (heq ▸ hi)
  rw [href] at hi
  exact ha.distinct g h hg hh hgfile₀ hhfile₀ i i' hi (by rw [← href, ← href', heq])

/-- One change after another, in which no heads are made. -/
theorem trans {W : Vol} (h : V.KeepsFiles C S W C') (hs : W.KeepsFiles C' S V' C') (hheads : ∀ h, C' h ≠ [] → C h ≠ []) :
    V.KeepsFiles C S V' C' := by
  refine ⟨hs.super.trans h.super, fun g hg hg' => (hs.flags g hg' hg').trans (h.flags g hg hg'), fun g hg hg' hfile hS => ?_,
    fun g hg hg' => absurd hg (hheads g hg')⟩
  obtain ⟨hch, h1⟩ := h.files g hg hg' hfile hS
  obtain ⟨-, h2⟩ := hs.files g hg' hg' ((h.flags g hg hg').trans hfile) hS
  rw [hch] at h2
  refine ⟨hch, h2.size.trans h1.size, fun i => (h2.refs i).trans (h1.refs i), fun i => ?_⟩
  have hblock := h2.data i
  rw [h1.refs] at hblock
  exact hblock.trans (h1.data i)

/-- A change of the names that keeps the files. -/
theorem step (hk : V.KeepsFiles C (fun _ => False) V' C') {c : FileTree.Change Nat CStr UInt8}
    (hnames : (V.tree C).Step c.names (V'.tree C')) (hcontents : c.Contents (V.headData C) (V'.headData C')) :
    (V.fileTree C).Step c (V'.fileTree C') :=
  ⟨hnames, fun _ hm hm' _ => hk.headData hm hm' not_false, hcontents⟩

/-- Entries that change in nothing that a file is made of. -/
theorem of_entries {P : Nat → Prop} (hf : V.Format C P) (super : V' 1 = V 1) (data : ∀ k, V.RefOk k → V' k = V k)
    (chains : ∀ h, C h ≠ [] → C' h ≠ [] → C' h = C h)
    (entries : ∀ h, C h ≠ [] → C' h ≠ [] → (V'.ent h).flags = (V.ent h).flags ∧ ((V.ent h).flags = tFile →
      ∀ n ∈ C h, (V'.ent n).size = (V.ent n).size ∧ (V'.ent n).refAt = (V.ent n).refAt))
    (new : ∀ h, C h = [] → C' h ≠ [] → (V'.ent h).size.toNat = 0 ∧ ∀ i, V'.fref (C' h) i = 0) : V.KeepsFiles C S V' C' := by
  refine ⟨super, fun h hh hh' => (entries h hh hh').1, fun h hh hh' hfile _ => ⟨chains h hh hh', ?_⟩, new⟩
  have hsame := (entries h hh hh').2 hfile
  exact ⟨(hsame h (hf.mem_head hh)).1, Vol.fref_congr fun n hn => (hsame n hn).2, fun i => data _ (hf.refs h hh hfile i)⟩

/-- Entries of directories that change, and new ones. -/
theorem of_agreeOff {P : Nat → Prop} {l : List Nat} (hf : V.Format C P) (hagree : V.AgreeOff l V') (hl : ∀ x ∈ l, x < V.nent)
    (chains : ∀ h, C h ≠ [] → C' h ≠ [] → C' h = C h)
    (entries : ∀ h, C h ≠ [] → ∀ n ∈ C h, n ∈ l → (V'.ent n).flags = (V.ent n).flags ∧ ((V.ent h).flags = tFile →
      (V'.ent n).size = (V.ent n).size ∧ (V'.ent n).refAt = (V.ent n).refAt))
    (new : ∀ h, C h = [] → C' h ≠ [] → (V'.ent h).size.toNat = 0 ∧ ∀ i, V'.fref (C' h) i = 0) : V.KeepsFiles C S V' C' := by
  refine .of_entries hf (hagree 1 fun x _ => by omega) (fun k hk => hagree k fun x hx => hk.ne_ent (hl x hx)) chains
    (fun h hh _ => ⟨?_, fun hfile n hn => ?_⟩) new
  · by_cases hin : h ∈ l
    · exact (entries h hh h (hf.mem_head hh) hin).1
    · rw [hagree.ent hin]
  · by_cases hin : n ∈ l
    · exact (entries h hh n hn hin).2 hfile
    · rw [hagree.ent hin]
      exact ⟨rfl, rfl⟩

/-- An entry that changes in nothing that a file is made of. -/
theorem setEnt {P : Nat → Prop} {a : Nat} {e : SfsEntry} (hf : V.Format C P) (ha : C a ≠ []) (hflags : e.flags = (V.ent a).flags)
    (hfile : (V.ent a).flags = tFile → e.size = (V.ent a).size ∧ e.refAt = (V.ent a).refAt) :
    V.KeepsFiles C S (V.setEnt a e) C := by
  refine .of_agreeOff hf (V.agreeOff_setEnt a e) (fun x hx => ?_) (fun _ _ _ => rfl) (fun h hh m hm hin => ?_)
    fun h hh hh' => absurd hh hh'
  · rw [List.mem_singleton.1 hx]
    exact hf.head_lt ha
  · obtain rfl := List.mem_singleton.1 hin
    obtain rfl := hf.head_unique ha hm
    rw [Vol.ent_setEnt_self]
    exact ⟨hflags, hfile⟩

end Vol.KeepsFiles

/-- How a disk with the format changes: it keeps the format, and its tree as it is to be kept. While no block is a reference twice, its
tree of files changes by `cs`; and no block becomes one if the changes are safe. -/
structure Vol.Changes (K : Kept) (safe : Prop) (V : Vol) (C : Nat → List Nat) (cs : List (FileTree.Change Nat CStr UInt8)) (V' : Vol)
    (C' : Nat → List Nat) : Prop where
  format : V'.Format C' fun _ => False
  kept : K.Holds (V.tree C) → K.Holds (V'.tree C')
  steps : V.Apart C → (V.fileTree C).Steps cs (V'.fileTree C')
  apart : safe → V.Apart C → V'.Apart C'

namespace Vol.Changes

variable {K : Kept} {safe : Prop} {V V₁ V' : Vol} {C C₁ C' : Nat → List Nat} {cs cs' : List (FileTree.Change Nat CStr UInt8)}

theorem refl (hf : V.Format C fun _ => False) : V.Changes K safe C [] V C := ⟨hf, fun h => h, fun _ => .nil _, fun _ ha => ha⟩

theorem trans (h : V.Changes K True C cs V₁ C₁) (h' : V₁.Changes K safe C₁ cs' V' C') : V.Changes K safe C (cs ++ cs') V' C' :=
  ⟨h'.format, fun hk => h'.kept (h.kept hk), fun ha => (h.steps ha).append (h'.steps (h.apart trivial ha)),
    fun hs ha => h'.apart hs (h.apart trivial ha)⟩

/-- A change of the names. -/
theorem of_keeps {c : FileTree.Change Nat CStr UInt8} (hf' : V'.Format C' fun _ => False)
    (hkept : K.Holds (V.tree C) → K.Holds (V'.tree C')) (hk : V.KeepsFiles C (fun _ => False) V' C')
    (hnames : (V.tree C).Step c.names (V'.tree C')) (hcontents : c.Contents (V.headData C) (V'.headData C')) :
    V.Changes K True C [c] V' C' :=
  ⟨hf', hkept, fun _ => (hk.step hnames hcontents).single, fun _ ha => hk.apart ha⟩

end Vol.Changes

end NanoS32
