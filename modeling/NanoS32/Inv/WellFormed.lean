import NanoS32.Inv.Format
import NanoS32.Lib.Forest
import NanoS32.Fs.Small

/-!
# Well-formed disks

The format of a disk as `fs.h` describes it, for files and directories of any size: the used entries are the disjoint chains of
the heads, the heads are a tree below the root, and the references of a directory are its items. `C h` is the chain of head `h`,
and empty where there is no head.
-/

namespace NanoS32

/-- What one entry holds before a chained entry is needed: bytes of a file, or items of a directory. -/
def Block.capacity (e : SfsEntry) : Nat := if e.flags = tFile then 61440 else 120

/-- The items of the directory with chain `ch`: its references, as many as its size says. -/
def Vol.dirItems (V : Vol) (ch : List Nat) (size : Nat) : List Nat := (List.range size).map (V.fref ch)

/-- A well-formed disk with the chains `C`. -/
structure Vol.WellFormed (V : Vol) (C : Nat → List Nat) : Prop where
  geo : V.Geo
  head : ∀ h, C h ≠ [] → (C h).head? = some h
  chain : ∀ h, C h ≠ [] → V.IsChain (C h)
  disjoint : ∀ h h' n, n ∈ C h → n ∈ C h' → h = h'
  used : ∀ n < V.nent, (V.ent n).used = true → ∃ h, n ∈ C h
  flags : ∀ h n, n ∈ C h → (V.ent n).flags = (V.ent h).flags
  names : ∀ h n, n ∈ C h → (V.ent n).nameStr = (V.ent h).nameStr
  kind : ∀ h, C h ≠ [] → (V.ent h).flags = tDir ∨ (V.ent h).flags = tFile
  sizes : ∀ h k n, (C h)[k]? = some n → (V.ent n).size.toNat = (V.ent h).size.toNat - (V.ent h).capacity * k
  fits : ∀ h, C h ≠ [] → (V.ent h).size.toNat ≤ (V.ent h).capacity * (C h).length
  refs : ∀ h, C h ≠ [] → (V.ent h).flags = tFile → V.RefsInRange (C h)
  root : C 0 ≠ [] ∧ (V.ent 0).flags = tDir ∧ V.par 0 = 0 ∧ (V.ent 0).nameStr = rootDirName
  parent : ∀ h, C h ≠ [] → C (V.par h) ≠ [] ∧ (V.ent (V.par h)).flags = tDir
  tree : ∀ h, C h ≠ [] → Forest.Under V.par 0 h
  name : ∀ h, C h ≠ [] → (V.ent h).nameStr ≠ [] ∧ (V.ent h).nameStr.length < sfsNameSize ∧
    pathSeparator ∉ (V.ent h).nameStr
  unique : ∀ h h', C h ≠ [] → C h' ≠ [] → V.par h = V.par h' → (V.ent h).nameStr = (V.ent h').nameStr → h = h'
  nodup : ∀ h, C h ≠ [] → (V.ent h).flags = tDir → (V.dirItems (C h) (V.ent h).size.toNat).Nodup
  items : ∀ h, C h ≠ [] → (V.ent h).flags = tDir →
    ∀ m, m ∈ V.dirItems (C h) (V.ent h).size.toNat ↔ C m ≠ [] ∧ m ≠ 0 ∧ V.par m = h

namespace Vol.WellFormed

variable {V : Vol} {C : Nat → List Nat}

theorem mem_head (hw : V.WellFormed C) {h : Nat} (hh : C h ≠ []) : h ∈ C h := List.mem_of_head? (hw.head h hh)

/-- The chain of a head starts with the head. -/
theorem cons (hw : V.WellFormed C) {h : Nat} (hh : C h ≠ []) : ∃ l, C h = h :: l := by
  have h1 := hw.head h hh
  cases hc : C h with
  | nil => exact absurd hc hh
  | cons a l =>
    rw [hc] at h1
    obtain rfl := Option.some.inj h1
    exact ⟨l, rfl⟩

theorem lt (hw : V.WellFormed C) {h n : Nat} (hn : n ∈ C h) : n < V.nent :=
  (hw.chain h (List.ne_nil_of_mem hn)).lt n hn

theorem head_lt (hw : V.WellFormed C) {h : Nat} (hh : C h ≠ []) : h < V.nent := hw.lt (hw.mem_head hh)

theorem used_of_mem (hw : V.WellFormed C) {h n : Nat} (hn : n ∈ C h) : (V.ent n).used = true := by
  have h1 := hw.flags h n hn
  rcases hw.kind h (List.ne_nil_of_mem hn) with hk | hk
  · exact Block.used_of_isDir (Block.isDir_of_flags (h1.trans hk)).1
  · exact Block.used_of_isFile (Block.isFile_of_flags (h1.trans hk)).1

/-- The references of the first entry of a chain are its items when there is no other. -/
theorem dirItems_single (h n : Nat) (hn : n ≤ 120) : V.dirItems [h] n = (List.range n).map (V.ent h).refAt := by
  refine List.map_congr_left fun i hi => ?_
  rw [List.mem_range] at hi
  have h1 := V.fref_of_get (show [h][0]? = some h from rfl) i (by omega)
  rwa [Nat.mul_zero, Nat.zero_add] at h1

/-- On a well-formed disk where each directory is one entry, the invariant of the calls holds. -/
theorem format (hw : V.WellFormed C) (hdirs : ∀ h, C h ≠ [] → (V.ent h).flags = tDir → C h = [h]) :
    V.Format C (fun _ => False) := by
  have hfile : ∀ h, (V.ent h).flags = tFile → (V.ent h).capacity = 61440 := fun h hk => if_pos hk
  have hdir : ∀ h, (V.ent h).flags = tDir → (V.ent h).capacity = 120 := fun h hk =>
    if_neg fun hk' => Format.tDir_ne_tFile (hk.symm.trans hk')
  have hsmall : ∀ h, C h ≠ [] → (V.ent h).flags = tDir → (V.ent h).size.toNat ≤ 120 := by
    intro h hh hk
    have h1 := hw.fits h hh
    rw [hdirs h hh hk, hdir h hk] at h1
    exact h1
  have hitems : ∀ h, C h ≠ [] → (V.ent h).flags = tDir → V.dirItems (C h) (V.ent h).size.toNat = (V.ent h).items := by
    intro h hh hk
    rw [hdirs h hh hk, dirItems_single h _ (hsmall h hh hk), Block.items]
  refine
    { geo := hw.geo
      head := hw.head
      chain := hw.chain
      disjoint := hw.disjoint
      used := hw.used
      flags := hw.flags
      kind := hw.kind
      sizes := ?_
      fits := fun h hh hk => hfile h hk ▸ hw.fits h hh
      refs := hw.refs
      single := fun h hh hk => ⟨hdirs h hh hk, hsmall h hh hk⟩
      root := hw.root
      parent := hw.parent
      nodup := fun h hh hk => hitems h hh hk ▸ hw.nodup h hh hk
      items := ?_ }
  · intro h k n hn
    have hh : C h ≠ [] := List.ne_nil_of_mem (List.mem_of_getElem? hn)
    have hsize := hw.sizes h k n hn
    rcases hw.kind h hh with hk | hk
    · rw [hdirs h hh hk] at hn
      obtain rfl : k = 0 := by
        have := (List.getElem?_eq_some_iff.1 hn).1
        simpa using this
      rw [Nat.mul_zero] at hsize ⊢
      exact hsize
    · rwa [hfile h hk] at hsize
  · intro h hh hk m
    rw [← hitems h hh hk, hw.items h hh hk m]
    constructor
    · rintro ⟨h1, h2, h3⟩
      exact ⟨h1, h2, h3, not_false⟩
    · rintro ⟨h1, h2, h3, -⟩
      exact ⟨h1, h2, h3⟩

end Vol.WellFormed

/-- A disk with the invariant of the calls is well-formed when its heads are a tree with names that are valid and distinct. -/
theorem Vol.Format.wellFormed {V : Vol} {C : Nat → List Nat} (hf : V.Format C fun _ => False)
    (names : ∀ h n, n ∈ C h → (V.ent n).nameStr = (V.ent h).nameStr) (tree : ∀ h, C h ≠ [] → Forest.Under V.par 0 h)
    (name : ∀ h, C h ≠ [] → (V.ent h).nameStr ≠ [] ∧ (V.ent h).nameStr.length < sfsNameSize ∧ pathSeparator ∉ (V.ent h).nameStr)
    (unique : ∀ h h', C h ≠ [] → C h' ≠ [] → V.par h = V.par h' → (V.ent h).nameStr = (V.ent h').nameStr → h = h') :
    V.WellFormed C := by
  have hfile : ∀ h, (V.ent h).flags = tFile → (V.ent h).capacity = 61440 := fun h hk => if_pos hk
  have hdir : ∀ h, (V.ent h).flags = tDir → (V.ent h).capacity = 120 := fun h hk =>
    if_neg fun hk' => Vol.Format.tDir_ne_tFile (hk.symm.trans hk')
  have hitems : ∀ h, C h ≠ [] → (V.ent h).flags = tDir → V.dirItems (C h) (V.ent h).size.toNat = (V.ent h).items := by
    intro h hh hk
    obtain ⟨hsingle, hsmall⟩ := hf.single h hh hk
    rw [hsingle, Vol.WellFormed.dirItems_single h _ hsmall, Block.items]
  refine
    { geo := hf.geo
      head := hf.head
      chain := hf.chain
      disjoint := hf.disjoint
      used := hf.used
      flags := hf.flags
      names := names
      kind := hf.kind
      sizes := fun h k n hn => ?_
      fits := fun h hh => ?_
      refs := hf.refs
      root := hf.root
      parent := hf.parent
      tree := tree
      name := name
      unique := unique
      nodup := fun h hh hk => hitems h hh hk ▸ hf.nodup h hh hk
      items := fun h hh hk m => ?_ }
  · have hh : C h ≠ [] := List.ne_nil_of_mem (List.mem_of_getElem? hn)
    have hsize := hf.sizes h k n hn
    rcases hf.kind h hh with hk | hk
    · rw [(hf.single h hh hk).1] at hn
      obtain ⟨hlt, -⟩ := List.getElem?_eq_some_iff.1 hn
      obtain rfl : k = 0 := Nat.lt_one_iff.1 hlt
      exact hsize
    · rw [hfile h hk]
      exact hsize
  · rcases hf.kind h hh with hk | hk
    · obtain ⟨hsingle, hsmall⟩ := hf.single h hh hk
      rw [hdir h hk, hsingle]
      exact hsmall
    · rw [hfile h hk]
      exact hf.fits h hh hk
  · rw [hitems h hh hk, hf.items h hh hk m]
    exact ⟨fun h => ⟨h.1, h.2.1, h.2.2.1⟩, fun h => ⟨h.1, h.2.1, h.2.2, not_false⟩⟩

/-! ## Disks with no chained entries -/

/-- Each used entry by itself. -/
def Vol.flatChains (V : Vol) (n : Nat) : List Nat := if n < V.nent ∧ (V.ent n).used = true then [n] else []

/-- What one used entry of a disk with no chained entries fulfils. -/
structure Vol.FlatEntry (V : Vol) (n : Nat) : Prop where
  kind : (V.ent n).flags = tDir ∨ (V.ent n).flags = tFile
  next : V.next n = 0
  parent : V.par n < V.nent ∧ (V.ent (V.par n)).flags = tDir
  size : (V.ent n).size.toNat ≤ (V.ent n).capacity
  name : (V.ent n).nameStr ≠ [] ∧ (V.ent n).nameStr.length < sfsNameSize ∧ pathSeparator ∉ (V.ent n).nameStr
  tree : V.par^[V.nent] n = 0
  refs : (V.ent n).flags = tFile →
    ∀ i < 120, (V.ent n).refAt i = 0 ∨ (V.firstData ≤ (V.ent n).refAt i ∧ (V.ent n).refAt i < V.dataEnd)
  unique : ∀ m < V.nent, (V.ent m).used = true → V.par n = V.par m → (V.ent n).nameStr = (V.ent m).nameStr → n = m
  nodup : (V.ent n).flags = tDir → (V.ent n).items.Nodup
  items : (V.ent n).flags = tDir → (∀ m ∈ (V.ent n).items, m < V.nent) ∧
    ∀ m < V.nent, m ∈ (V.ent n).items ↔ (V.ent m).used = true ∧ m ≠ 0 ∧ V.par m = n

set_option synthInstance.maxSize 512 in
instance (V : Vol) (n : Nat) : Decidable (V.FlatEntry n) :=
  decidable_of_iff
    (((V.ent n).flags = tDir ∨ (V.ent n).flags = tFile) ∧ V.next n = 0 ∧
      (V.par n < V.nent ∧ (V.ent (V.par n)).flags = tDir) ∧ (V.ent n).size.toNat ≤ (V.ent n).capacity ∧
      ((V.ent n).nameStr ≠ [] ∧ (V.ent n).nameStr.length < sfsNameSize ∧ pathSeparator ∉ (V.ent n).nameStr) ∧
      V.par^[V.nent] n = 0 ∧
      ((V.ent n).flags = tFile →
        ∀ i < 120, (V.ent n).refAt i = 0 ∨ (V.firstData ≤ (V.ent n).refAt i ∧ (V.ent n).refAt i < V.dataEnd)) ∧
      (∀ m < V.nent, (V.ent m).used = true → V.par n = V.par m → (V.ent n).nameStr = (V.ent m).nameStr → n = m) ∧
      ((V.ent n).flags = tDir → (V.ent n).items.Nodup) ∧
      ((V.ent n).flags = tDir → (∀ m ∈ (V.ent n).items, m < V.nent) ∧
        ∀ m < V.nent, m ∈ (V.ent n).items ↔ (V.ent m).used = true ∧ m ≠ 0 ∧ V.par m = n))
    ⟨fun ⟨h1, h2, h3, h4, h5, h6, h7, h8, h9, h10⟩ => ⟨h1, h2, h3, h4, h5, h6, h7, h8, h9, h10⟩,
      fun ⟨h1, h2, h3, h4, h5, h6, h7, h8, h9, h10⟩ => ⟨h1, h2, h3, h4, h5, h6, h7, h8, h9, h10⟩⟩

/-- A disk with no chained entries is well-formed when its root and its used entries are. -/
theorem Vol.WellFormed.of_flat {V : Vol} (geo : V.Geo)
    (root : (V.ent 0).flags = tDir ∧ V.par 0 = 0 ∧ (V.ent 0).nameStr = rootDirName)
    (entries : ∀ n < V.nent, (V.ent n).used = true → V.FlatEntry n) : V.WellFormed V.flatChains := by
  have hne : ∀ n, V.flatChains n ≠ [] ↔ n < V.nent ∧ (V.ent n).used = true := by
    intro n
    rw [Vol.flatChains]
    split_ifs with h <;> simp [h]
  have heq : ∀ n, V.flatChains n ≠ [] → V.flatChains n = [n] := fun n h => if_pos ((hne n).1 h)
  have hmem : ∀ {h n}, n ∈ V.flatChains h → n = h ∧ V.flatChains h ≠ [] := by
    intro h n hn
    have hh : V.flatChains h ≠ [] := List.ne_nil_of_mem hn
    rw [heq h hh, List.mem_singleton] at hn
    exact ⟨hn, hh⟩
  have hent : ∀ n, V.flatChains n ≠ [] → V.FlatEntry n := fun n h => entries n ((hne n).1 h).1 ((hne n).1 h).2
  have hdir : ∀ n, (V.ent n).flags = tDir → (V.ent n).used = true := fun n h =>
    Block.used_of_isDir (Block.isDir_of_flags h).1
  have hcap : ∀ n, (V.ent n).flags = tDir → (V.ent n).capacity = 120 := fun n hk =>
    if_neg fun hk' => Vol.Format.tDir_ne_tFile (hk.symm.trans hk')
  have hitems : ∀ h, V.flatChains h ≠ [] → (V.ent h).flags = tDir →
      V.dirItems (V.flatChains h) (V.ent h).size.toNat = (V.ent h).items := by
    intro h hh hk
    rw [heq h hh, Vol.WellFormed.dirItems_single h _ (hcap h hk ▸ (hent h hh).size), Block.items]
  refine
    { geo := geo
      head := fun h hh => by rw [heq h hh, List.head?_cons]
      chain := ?_
      disjoint := fun h h' n hn hn' => (hmem hn).1.symm.trans (hmem hn').1
      used := fun n hn hu => ⟨n, by rw [heq n ((hne n).2 ⟨hn, hu⟩)]; exact List.mem_singleton_self n⟩
      flags := fun h n hn => by rw [(hmem hn).1]
      names := fun h n hn => by rw [(hmem hn).1]
      kind := fun h hh => (hent h hh).kind
      sizes := ?_
      fits := fun h hh => by rw [heq h hh, List.length_singleton, Nat.mul_one]; exact (hent h hh).size
      refs := ?_
      root := ⟨(hne 0).2 ⟨geo.root, hdir 0 root.1⟩, root⟩
      parent := fun h hh => ⟨(hne _).2 ⟨(hent h hh).parent.1, hdir _ (hent h hh).parent.2⟩, (hent h hh).parent.2⟩
      tree := fun h hh => ⟨V.nent, (hent h hh).tree⟩
      name := fun h hh => (hent h hh).name
      unique := fun h h' hh hh' hp hn =>
        (hent h hh).unique h' ((hne h').1 hh').1 ((hne h').1 hh').2 hp hn
      nodup := fun h hh hk => hitems h hh hk ▸ (hent h hh).nodup hk
      items := ?_ }
  · intro h hh
    rw [heq h hh]
    refine ⟨(hent h hh).next, List.nodup_singleton h, fun n hn => ?_⟩
    rw [List.mem_singleton.1 hn]
    exact ((hne h).1 hh).1
  · intro h k n hn
    have hh : V.flatChains h ≠ [] := List.ne_nil_of_mem (List.mem_of_getElem? hn)
    rw [heq h hh] at hn
    cases k with
    | zero =>
      obtain rfl : h = n := Option.some.inj hn
      rw [Nat.mul_zero, Nat.sub_zero]
    | succ k => cases hn
  · intro h hh hk i
    rw [heq h hh]
    by_cases hi : i < 120
    · have h1 := V.fref_of_get (show [h][0]? = some h from rfl) i hi
      rw [Nat.mul_zero, Nat.zero_add] at h1
      rw [h1]
      exact (hent h hh).refs hk i hi
    · exact Or.inl (V.fref_of_le (by rw [List.length_singleton]; omega))
  · intro h hh hk m
    rw [hitems h hh hk, hne m]
    obtain ⟨h1, h2⟩ := (hent h hh).items hk
    constructor
    · intro hm
      obtain ⟨hu, h0, hp⟩ := (h2 m (h1 m hm)).1 hm
      exact ⟨⟨h1 m hm, hu⟩, h0, hp⟩
    · rintro ⟨⟨hlt, hu⟩, h0, hp⟩
      exact (h2 m hlt).2 ⟨hu, h0, hp⟩

/-- A disk with an empty root and nothing else is well-formed. -/
theorem Vol.WellFormed.of_root {V : Vol} (geo : V.Geo)
    (root : (V.ent 0).flags = tDir ∧ V.par 0 = 0 ∧ (V.ent 0).nameStr = rootDirName) (hempty : (V.ent 0).size.toNat = 0)
    (hnext : V.next 0 = 0) (hused : ∀ n < V.nent, (V.ent n).used = true → n = 0) : V.WellFormed V.flatChains := by
  have hitems : (V.ent 0).items = [] := by rw [Block.items, hempty, List.range_zero, List.map_nil]
  refine Vol.WellFormed.of_flat geo root fun n hn hu => ?_
  obtain rfl := hused n hn hu
  exact
    { kind := Or.inl root.1
      next := hnext
      parent := ⟨root.2.1.symm ▸ hn, root.2.1.symm ▸ root.1⟩
      size := by
        rw [hempty]
        exact Nat.zero_le _
      name := by
        rw [root.2.2]
        decide
      tree := Function.iterate_fixed root.2.1 _
      refs := fun hfile => absurd (root.1.symm.trans hfile) Vol.Format.tDir_ne_tFile
      unique := fun m hm hu' _ _ => (hused m hm hu').symm
      nodup := fun _ => hitems ▸ List.nodup_nil
      items := fun _ => by
        rw [hitems]
        exact ⟨fun m hm => absurd hm List.not_mem_nil, fun m hm =>
          ⟨fun h => absurd h List.not_mem_nil, fun h => absurd (hused m hm h.1) h.2.1⟩⟩ }

/-! ## The small machine -/

theorem sampleSys_ready : Ready sampleEnv sampleSys 2 :=
  ⟨by decide, by decide, List.isEmpty_iff.1 (by decide +kernel), Nat.le_refl _⟩

theorem sampleSys_wellFormed : Vol.WellFormed (sampleSys.disk 2) (Vol.flatChains (sampleSys.disk 2)) :=
  Vol.WellFormed.of_flat ⟨by decide +kernel, by decide +kernel, by decide +kernel⟩ (by decide +kernel) (by decide +kernel)

end NanoS32
