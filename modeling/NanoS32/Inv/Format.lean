import NanoS32.Lemmas.Data
import NanoS32.Lemmas.Items

/-!
# The format of a disk

The format `fs.h` describes, as far as every call keeps it: the used entries are the disjoint chains of the heads, a file's
size fits its chain, a directory is one entry, its items are the heads below it, and a file's references are 0 or data blocks.
`C h` is the chain of head `h`, and empty where there is no head. While `delete_n` is at work, the heads in `P` are not items
of their directory any more.
-/

namespace NanoS32

/-- The format of a disk with the chains `C`. -/
structure Vol.Format (V : Vol) (C : Nat → List Nat) (P : Nat → Prop) : Prop where
  geo : V.Geo
  head : ∀ h, C h ≠ [] → (C h).head? = some h
  chain : ∀ h, C h ≠ [] → V.IsChain (C h)
  disjoint : ∀ h h' n, n ∈ C h → n ∈ C h' → h = h'
  used : ∀ n < V.nent, (V.ent n).used = true → ∃ h, n ∈ C h
  flags : ∀ h n, n ∈ C h → (V.ent n).flags = (V.ent h).flags
  kind : ∀ h, C h ≠ [] → (V.ent h).flags = tDir ∨ (V.ent h).flags = tFile
  sizes : ∀ h k n, (C h)[k]? = some n → (V.ent n).size.toNat = (V.ent h).size.toNat - 61440 * k
  fits : ∀ h, C h ≠ [] → (V.ent h).flags = tFile → (V.ent h).size.toNat ≤ 61440 * (C h).length
  refs : ∀ h, C h ≠ [] → (V.ent h).flags = tFile → V.RefsInRange (C h)
  single : ∀ h, C h ≠ [] → (V.ent h).flags = tDir → C h = [h] ∧ (V.ent h).size.toNat ≤ 120
  root : C 0 ≠ [] ∧ (V.ent 0).flags = tDir ∧ V.par 0 = 0 ∧ (V.ent 0).nameStr = rootDirName
  parent : ∀ h, C h ≠ [] → C (V.par h) ≠ [] ∧ (V.ent (V.par h)).flags = tDir
  nodup : ∀ h, C h ≠ [] → (V.ent h).flags = tDir → (V.ent h).items.Nodup
  items : ∀ h, C h ≠ [] → (V.ent h).flags = tDir →
    ∀ m, m ∈ (V.ent h).items ↔ C m ≠ [] ∧ m ≠ 0 ∧ V.par m = h ∧ ¬P m

/-- A head: a used entry that does not continue another. -/
def Vol.IsHead (V : Vol) (n : Nat) : Prop :=
  n < V.nent ∧ (V.ent n).used = true ∧ ∀ m < V.nent, (V.ent m).used = true → V.next m = n → n = 0

instance (V : Vol) (n : Nat) : Decidable (V.IsHead n) :=
  inferInstanceAs (Decidable (n < V.nent ∧ (V.ent n).used = true ∧ ∀ m < V.nent, (V.ent m).used = true → V.next m = n → n = 0))

namespace Vol.Format

variable {V : Vol} {C : Nat → List Nat} {P : Nat → Prop}

/-! ## Heads and chains -/

theorem mem_head (hf : V.Format C P) {h : Nat} (hh : C h ≠ []) : h ∈ C h := List.mem_of_head? (hf.head h hh)

/-- The chain of a head starts with the head. -/
theorem cons (hf : V.Format C P) {h : Nat} (hh : C h ≠ []) : ∃ l, C h = h :: l := by
  have h1 := hf.head h hh
  cases hc : C h with
  | nil => exact absurd hc hh
  | cons a l =>
    rw [hc] at h1
    obtain rfl := Option.some.inj h1
    exact ⟨l, rfl⟩

theorem lt (hf : V.Format C P) {h n : Nat} (hn : n ∈ C h) : n < V.nent :=
  (hf.chain h (List.ne_nil_of_mem hn)).lt n hn

theorem head_lt (hf : V.Format C P) {h : Nat} (hh : C h ≠ []) : h < V.nent := hf.lt (hf.mem_head hh)

theorem used_of_mem (hf : V.Format C P) {h n : Nat} (hn : n ∈ C h) : (V.ent n).used = true := by
  have h1 := hf.flags h n hn
  rcases hf.kind h (List.ne_nil_of_mem hn) with hk | hk
  · exact Block.used_of_isDir (Block.isDir_of_flags (h1.trans hk)).1
  · exact Block.used_of_isFile (Block.isFile_of_flags (h1.trans hk)).1

/-- A head is not in the chain of another. -/
theorem head_unique (hf : V.Format C P) {h h' : Nat} (hh : C h ≠ []) (hm : h ∈ C h') : h = h' :=
  hf.disjoint h h' h (hf.mem_head hh) hm

theorem tDir_ne_tFile : tDir ≠ tFile := by decide

/-- An entry whose parent is a directory is a head: the entry before a chained entry is one of a file. -/
theorem head_of_par (hf : V.Format C P) {n : Nat} (hn : n < V.nent) (hu : (V.ent n).used = true)
    (hp : (V.ent (V.par n)).flags = tDir) : C n ≠ [] := by
  obtain ⟨h, hm⟩ := hf.used n hn hu
  have hh : C h ≠ [] := List.ne_nil_of_mem hm
  obtain ⟨l₁, l₂, hl⟩ := List.append_of_mem hm
  rcases List.eq_nil_or_concat l₁ with rfl | ⟨l, b, rfl⟩
  · obtain ⟨l, hc⟩ := hf.cons hh
    rw [hc] at hl
    obtain rfl : h = n := (List.cons.inj hl).1
    exact hh
  · -- `b` comes before `n` in the chain of `h`, so `h` is a directory with a chain
    have hlink := (hf.chain h hh).linked
    rw [hl, List.concat_eq_append, List.append_assoc] at hlink
    have hpar : V.par n = b := hlink.suffix.2.2.1
    have hb : b ∈ C h := by
      rw [hl, List.concat_eq_append]
      simp
    rw [hpar, hf.flags h b hb] at hp
    have hs := (hf.single h hh hp).1
    rw [hs] at hm hb
    obtain rfl := List.mem_singleton.1 hm
    exact hh

/-- What a search below a directory finds is a head below it. -/
theorem head_of_lookup (hf : V.Format C P) {p n : Nat} {name : CStr} (hp : (V.ent p).flags = tDir)
    (hl : V.lookup p name = some n) : C n ≠ [] ∧ V.par n = p ∧ (V.ent n).nameStr = name := by
  obtain ⟨hn, hm, -⟩ := Vol.lookup_eq_some.1 hl
  simp only [Block.matches, Bool.and_eq_true, beq_iff_eq] at hm
  obtain ⟨⟨hu, hpar⟩, hname⟩ := hm
  have hpar' : V.par n = p := hpar
  exact ⟨hf.head_of_par hn hu (hpar'.symm ▸ hp), hpar', hname⟩

/-- A used entry with the flags of a directory is a head. -/
theorem head_of_isDir (hf : V.Format C P) {n : Nat} (hn : n < V.nent) (hd : (V.ent n).flags = tDir) : C n ≠ [] := by
  obtain ⟨h, hm⟩ := hf.used n hn (Block.used_of_isDir (Block.isDir_of_flags hd).1)
  have hh : C h ≠ [] := List.ne_nil_of_mem hm
  have hfl := hf.flags h n hm
  rw [(hf.single h hh (hfl ▸ hd)).1] at hm
  obtain rfl := List.mem_singleton.1 hm
  exact hh

/-- The heads of the chains are the entries that do not continue another. -/
theorem isHead_iff (hf : V.Format C P) {n : Nat} : V.IsHead n ↔ C n ≠ [] := by
  constructor
  · rintro ⟨hn, hu, hlast⟩
    obtain ⟨h, hm⟩ := hf.used n hn hu
    have hh : C h ≠ [] := List.ne_nil_of_mem hm
    obtain ⟨l₁, l₂, hl⟩ := List.append_of_mem hm
    rcases List.eq_nil_or_concat l₁ with rfl | ⟨l, b, rfl⟩
    · obtain ⟨l, hc⟩ := hf.cons hh
      rw [hc] at hl
      obtain rfl : h = n := (List.cons.inj hl).1
      exact hh
    · -- the entry before `n` in the chain of `h` is continued by it
      rw [List.concat_eq_append, List.append_assoc] at hl
      have hb : b ∈ C h := by simp [hl]
      have hlink := (hf.chain h hh).linked
      rw [hl] at hlink
      obtain ⟨hnext, hn0, -, -⟩ := hlink.suffix
      exact absurd (hlast b (hf.lt hb) (hf.used_of_mem hb) hnext) hn0
  · intro hn
    refine ⟨hf.head_lt hn, hf.used_of_mem (hf.mem_head hn), fun m hm hu hnext => ?_⟩
    by_contra hn0
    obtain ⟨g, hg⟩ := hf.used m hm hu
    have hgc := hf.chain g (List.ne_nil_of_mem hg)
    obtain ⟨l₁, l₂, hl⟩ := List.append_of_mem hg
    have hlink := hgc.linked
    rw [hl] at hlink
    have hsucc : l₂.headD 0 = n := hlink.next_of_split.symm.trans hnext
    cases l₂ with
    | nil => exact hn0 hsucc.symm
    | cons b l =>
      obtain rfl : b = n := hsucc
      have hb : b ∈ C g := by simp [hl]
      obtain rfl := hf.head_unique hn hb
      -- so the head of the chain comes again after `m`
      have hnodup := hgc.nodup
      have hhead := hf.head b hn
      rw [hl] at hnodup hhead
      cases l₁ with
      | nil =>
        obtain rfl : m = b := Option.some.inj hhead
        exact (List.nodup_cons.1 hnodup).1 List.mem_cons_self
      | cons a l₁ =>
        obtain rfl : a = b := Option.some.inj hhead
        exact (List.nodup_cons.1 hnodup).1 (by simp)

/-- A free entry is in no chain. -/
theorem not_mem_of_unused (hf : V.Format C P) {n : Nat} (hu : (V.ent n).used = false) (h : Nat) : n ∉ C h := by
  intro hn
  rw [hf.used_of_mem hn] at hu
  cases hu

theorem root_used (hf : V.Format C P) : (V.ent 0).used = true := hf.used_of_mem (hf.mem_head hf.root.1)

/-- The parents of heads are heads. -/
theorem parent_head (hf : V.Format C P) {h : Nat} (hh : C h ≠ []) : C (V.par h) ≠ [] := (hf.parent h hh).1

/-! ## Changing one file -/

/-- A file can be changed in its own chain, the chain can be cut or lengthened with free entries, and its data changed. -/
theorem updateFile (hf : V.Format C P) {h : Nat} (hh : C h ≠ []) (hfile : (V.ent h).flags = tFile) {c' : List Nat}
    {V' : Vol} (super : V' 1 = V 1) (table : ∀ n < V.nent, n ∉ C h → n ∉ c' → V'.ent n = V.ent n)
    (chain : V'.IsChain c') (head : c'.head? = some h) (fresh : ∀ n ∈ c', n ∉ C h → (V.ent n).used = false)
    (dropped : ∀ n ∈ C h, n ∉ c' → (V'.ent n).used = false) (flags : ∀ n ∈ c', (V'.ent n).flags = tFile)
    (par : V'.par h = V.par h)
    (sizes : ∀ k n, c'[k]? = some n → (V'.ent n).size.toNat = (V'.ent h).size.toNat - 61440 * k)
    (fits : (V'.ent h).size.toNat ≤ 61440 * c'.length) (refs : V'.RefsInRange c') :
    V'.Format (Function.update C h c') P := by
  have hc' : c' ≠ [] := by
    rintro rfl
    simp at head
  have hhc : h ∈ c' := List.mem_of_head? head
  have hnent : V'.nent = V.nent := by rw [Vol.nent, super, Vol.nent]
  have hnblk : V'.nblk = V.nblk := by rw [Vol.nblk, super, Vol.nblk]
  have hfd : V'.firstData = V.firstData := by rw [Vol.firstData, hnent, Vol.firstData]
  have hend : V'.dataEnd = V.dataEnd := by rw [Vol.dataEnd, hnblk, Vol.dataEnd]
  have hC : ∀ m, Function.update C h c' m = if m = h then c' else C m := fun m => by rw [Function.update_apply]
  have hne : ∀ m, Function.update C h c' m ≠ [] ↔ C m ≠ [] := by
    intro m
    rw [hC]
    split_ifs with hm
    · subst hm
      exact ⟨fun _ => hh, fun _ => hc'⟩
    · rfl
  -- the entries of the other chains are as they were
  have hother : ∀ m n, m ≠ h → n ∈ C m → V'.ent n = V.ent n := by
    intro m n hm hn
    refine table n (hf.lt hn) (fun hn' => hm (hf.disjoint m h n hn hn')) fun hn' => ?_
    have hu := fresh n hn' fun hn'' => hm (hf.disjoint m h n hn hn'')
    exact hf.not_mem_of_unused hu m hn
  have hhead : ∀ m, C m ≠ [] → m ≠ h → V'.ent m = V.ent m := fun m hm hmh => hother m m hmh (hf.mem_head hm)
  have hpar : ∀ m, C m ≠ [] → V'.par m = V.par m := by
    intro m hm
    by_cases hmh : m = h
    · rw [hmh, par]
    · rw [Vol.par, hhead m hm hmh, Vol.par]
  have hflags : ∀ m, C m ≠ [] → (V'.ent m).flags = (V.ent m).flags := by
    intro m hm
    by_cases hmh : m = h
    · rw [hmh, flags h hhc, hfile]
    · rw [hhead m hm hmh]
  have hdir : ∀ m, C m ≠ [] → (V'.ent m).flags = tDir → m ≠ h := by
    rintro m hm hd rfl
    rw [flags m hhc] at hd
    exact absurd hd (by decide)
  constructor
  · exact hf.geo.of_super super
  · intro m hm
    rw [hne] at hm
    rw [hC]
    split_ifs with hmh
    · rw [hmh]
      exact head
    · exact hf.head m hm
  · intro m hm
    rw [hne] at hm
    rw [hC]
    split_ifs with hmh
    · exact chain
    · obtain ⟨l, hl⟩ := hf.cons hm
      have hch := hf.chain m hm
      rw [hl] at hch ⊢
      refine hch.congr hnent ?_ ?_
      · exact fun x hx => by rw [hother m x hmh (hl ▸ hx)]
      · exact fun x hx => by rw [hother m x hmh (hl ▸ List.mem_cons_of_mem _ hx)]
  · intro m m' n hn hn'
    rw [hC] at hn hn'
    split_ifs at hn hn' with h1 h2 h2
    · rw [h1, h2]
    · by_cases hnh : n ∈ C h
      · rw [h1]
        exact hf.disjoint h m' n hnh hn'
      · exact absurd hn' (hf.not_mem_of_unused (fresh n hn hnh) m')
    · by_cases hnh : n ∈ C h
      · rw [h2]
        exact hf.disjoint m h n hn hnh
      · exact absurd hn (hf.not_mem_of_unused (fresh n hn' hnh) m)
    · exact hf.disjoint m m' n hn hn'
  · intro n hn hu
    rw [hnent] at hn
    by_cases hnc : n ∈ c'
    · exact ⟨h, by rw [hC, if_pos rfl]; exact hnc⟩
    · by_cases hnh : n ∈ C h
      · rw [dropped n hnh hnc] at hu
        cases hu
      · rw [table n hn hnh hnc] at hu
        obtain ⟨m, hm⟩ := hf.used n hn hu
        have hmh : m ≠ h := by
          rintro rfl
          exact hnh hm
        exact ⟨m, by rw [hC, if_neg hmh]; exact hm⟩
  · intro m n hn
    rw [hC] at hn
    split_ifs at hn with hmh
    · rw [hmh, flags n hn, flags h hhc]
    · have hm : C m ≠ [] := List.ne_nil_of_mem hn
      rw [hother m n hmh hn, hhead m hm hmh]
      exact hf.flags m n hn
  · intro m hm
    rw [hne] at hm
    rw [hflags m hm]
    exact hf.kind m hm
  · intro m k n hn
    rw [hC] at hn
    split_ifs at hn with hmh
    · rw [hmh]
      exact sizes k n hn
    · have hnm : n ∈ C m := List.mem_of_getElem? hn
      rw [hother m n hmh hnm, hhead m (List.ne_nil_of_mem hnm) hmh]
      exact hf.sizes m k n hn
  · intro m hm hfl
    rw [hne] at hm
    rw [hC]
    split_ifs with hmh
    · rw [hmh]
      exact fits
    · rw [hhead m hm hmh] at hfl ⊢
      exact hf.fits m hm hfl
  · intro m hm hfl
    rw [hne] at hm
    rw [hC]
    split_ifs with hmh
    · exact refs
    · rw [hhead m hm hmh] at hfl
      intro i
      have hfr : V'.fref (C m) i = V.fref (C m) i := Vol.fref_congr (fun n hn => by rw [hother m n hmh hn]) i
      rw [hfr, hfd, hend]
      exact hf.refs m hm hfl i
  · intro m hm hd
    rw [hne] at hm
    have hmh := hdir m hm hd
    rw [hC, if_neg hmh]
    rw [hhead m hm hmh] at hd ⊢
    exact hf.single m hm hd
  · obtain ⟨h0, h1, h2, h3⟩ := hf.root
    have h0h : 0 ≠ h := by
      rintro rfl
      rw [hfile] at h1
      exact absurd h1 (by decide)
    rw [hne, hpar 0 h0, hhead 0 h0 h0h]
    exact ⟨h0, h1, h2, h3⟩
  · intro m hm
    rw [hne] at hm
    obtain ⟨h1, h2⟩ := hf.parent m hm
    rw [hpar m hm, hne, hflags _ h1]
    exact ⟨h1, h2⟩
  · intro m hm hd
    rw [hne] at hm
    have hmh := hdir m hm hd
    rw [hhead m hm hmh] at hd ⊢
    exact hf.nodup m hm hd
  · intro m hm hd n
    rw [hne] at hm
    have hmh := hdir m hm hd
    rw [hhead m hm hmh] at hd ⊢
    rw [hf.items m hm hd n, hne]
    constructor
    · rintro ⟨h1, h2, h3, h4⟩
      exact ⟨h1, h2, by rw [hpar n h1, h3], h4⟩
    · rintro ⟨h1, h2, h3, h4⟩
      rw [hpar n h1] at h3
      exact ⟨h1, h2, h3, h4⟩

/-! ## Changing directories -/

/-- The pending heads matter only among the heads. -/
theorem congrPending (hf : V.Format C P) {P' : Nat → Prop} (h : ∀ m, C m ≠ [] → (P' m ↔ P m)) : V.Format C P' := by
  refine { hf with items := ?_ }
  intro d hd hfl m
  rw [hf.items d hd hfl m]
  constructor
  · rintro ⟨h1, h2, h3, h4⟩
    exact ⟨h1, h2, h3, fun hp => h4 ((h m h1).1 hp)⟩
  · rintro ⟨h1, h2, h3, h4⟩
    exact ⟨h1, h2, h3, fun hp => h4 ((h m h1).2 hp)⟩

/-- A change that leaves the chains and the files, and keeps what is said of directories. -/
theorem updateDirs (hf : V.Format C P) {P' : Nat → Prop} {V' : Vol} (super : V' 1 = V 1)
    (flags : ∀ n < V.nent, (V'.ent n).flags = (V.ent n).flags) (next : ∀ n < V.nent, (V'.ent n).next = (V.ent n).next)
    (chained : ∀ h, ∀ n ∈ C h, n ≠ h → (V'.ent n).parent = (V.ent n).parent)
    (files : ∀ h, C h ≠ [] → (V.ent h).flags = tFile →
      ∀ n ∈ C h, (V'.ent n).size = (V.ent n).size ∧ (V'.ent n).refAt = (V.ent n).refAt)
    (small : ∀ h, C h ≠ [] → (V.ent h).flags = tDir → (V'.ent h).size.toNat ≤ 120)
    (root : V'.par 0 = 0 ∧ (V'.ent 0).nameStr = rootDirName)
    (parent : ∀ h, C h ≠ [] → C (V'.par h) ≠ [] ∧ (V.ent (V'.par h)).flags = tDir)
    (nodup : ∀ h, C h ≠ [] → (V.ent h).flags = tDir → (V'.ent h).items.Nodup)
    (items : ∀ h, C h ≠ [] → (V.ent h).flags = tDir →
      ∀ m, m ∈ (V'.ent h).items ↔ C m ≠ [] ∧ m ≠ 0 ∧ V'.par m = h ∧ ¬P' m) : V'.Format C P' := by
  have hnent : V'.nent = V.nent := by rw [Vol.nent, super, Vol.nent]
  have hnblk : V'.nblk = V.nblk := by rw [Vol.nblk, super, Vol.nblk]
  have hfd : V'.firstData = V.firstData := by rw [Vol.firstData, hnent, Vol.firstData]
  have hend : V'.dataEnd = V.dataEnd := by rw [Vol.dataEnd, hnblk, Vol.dataEnd]
  have hfl : ∀ h, C h ≠ [] → (V'.ent h).flags = (V.ent h).flags := fun h hh => flags h (hf.head_lt hh)
  constructor
  · exact hf.geo.of_super super
  · exact hf.head
  · intro h hh
    obtain ⟨l, hl⟩ := hf.cons hh
    have hch := hf.chain h hh
    rw [hl] at hch ⊢
    refine hch.congr hnent (fun x hx => next x (hch.lt x hx)) fun x hx => ?_
    refine chained h x (hl ▸ List.mem_cons_of_mem _ hx) ?_
    rintro rfl
    exact (List.nodup_cons.1 hch.nodup).1 hx
  · exact hf.disjoint
  · intro n hn hu
    rw [hnent] at hn
    rw [Block.used, flags n hn] at hu
    exact hf.used n hn hu
  · intro h n hn
    rw [flags n (hf.lt hn), hfl h (List.ne_nil_of_mem hn)]
    exact hf.flags h n hn
  · intro h hh
    rw [hfl h hh]
    exact hf.kind h hh
  · intro h k n hn
    have hnm : n ∈ C h := List.mem_of_getElem? hn
    have hh : C h ≠ [] := List.ne_nil_of_mem hnm
    rcases hf.kind h hh with hd | hd
    · obtain ⟨hs, -⟩ := hf.single h hh hd
      rw [hs] at hn
      obtain ⟨hk, rfl⟩ := List.getElem?_eq_some_iff.1 hn
      simp only [List.length_singleton] at hk
      obtain rfl : k = 0 := by omega
      simp
    · rw [(files h hh hd n hnm).1, (files h hh hd h (hf.mem_head hh)).1]
      exact hf.sizes h k n hn
  · intro h hh hd
    rw [hfl h hh] at hd
    rw [(files h hh hd h (hf.mem_head hh)).1]
    exact hf.fits h hh hd
  · intro h hh hd i
    rw [hfl h hh] at hd
    have hfr : V'.fref (C h) i = V.fref (C h) i := Vol.fref_congr (fun n hn => (files h hh hd n hn).2) i
    rw [hfr, hfd, hend]
    exact hf.refs h hh hd i
  · intro h hh hd
    rw [hfl h hh] at hd
    exact ⟨(hf.single h hh hd).1, small h hh hd⟩
  · rw [hfl 0 hf.root.1]
    exact ⟨hf.root.1, hf.root.2.1, root.1, root.2⟩
  · intro h hh
    rw [hfl _ (parent h hh).1]
    exact parent h hh
  · intro h hh hd
    rw [hfl h hh] at hd
    exact nodup h hh hd
  · intro h hh hd
    rw [hfl h hh] at hd
    exact items h hh hd

/-- One entry changes: what the other entries keep. -/
theorem ent_setEnt_or (V : Vol) (n m : Nat) (e : SfsEntry) :
    (m = n ∧ (V.setEnt n e).ent m = e) ∨ (m ≠ n ∧ (V.setEnt n e).ent m = V.ent m) := by
  by_cases h : m = n
  · exact Or.inl ⟨h, by rw [h, Vol.ent_setEnt_self]⟩
  · exact Or.inr ⟨h, Vol.ent_setEnt_ne V e h⟩

/-- Changing the items of a directory. -/
theorem updateDir (hf : V.Format C P) {P' : Nat → Prop} {d : Nat} (hd : C d ≠ []) (hdir : (V.ent d).flags = tDir)
    {e : SfsEntry} (hflags : e.flags = (V.ent d).flags) (hnext : e.next = (V.ent d).next)
    (hparent : e.parent = (V.ent d).parent) (hname : e.nameStr = (V.ent d).nameStr) (hsize : e.size.toNat ≤ 120)
    (hnodup : e.items.Nodup) (hitems : ∀ m, m ∈ e.items ↔ C m ≠ [] ∧ m ≠ 0 ∧ V.par m = d ∧ ¬P' m)
    (hothers : ∀ m, C m ≠ [] → V.par m ≠ d → (P' m ↔ P m)) : (V.setEnt d e).Format C P' := by
  have hpar : ∀ m, (V.setEnt d e).par m = V.par m := by
    intro m
    rcases ent_setEnt_or V d m e with ⟨rfl, h⟩ | ⟨-, h⟩
    · rw [Vol.par, h, hparent, Vol.par]
    · rw [Vol.par, h, Vol.par]
  refine hf.updateDirs ?_ ?_ ?_ ?_ ?_ ?_ ?_ ?_ ?_ ?_
  · simp [Vol.setEnt, show (1 : Nat) ≠ 2 + d by omega]
  · intro n _
    rcases ent_setEnt_or V d n e with ⟨rfl, h⟩ | ⟨-, h⟩
    · rw [h, hflags]
    · rw [h]
  · intro n _
    rcases ent_setEnt_or V d n e with ⟨rfl, h⟩ | ⟨-, h⟩
    · rw [h, hnext]
    · rw [h]
  · intro h n hn hnh
    rcases ent_setEnt_or V d n e with ⟨rfl, h⟩ | ⟨-, h⟩
    · rw [h, hparent]
    · rw [h]
  · intro h hh hfile n hn
    rcases ent_setEnt_or V d n e with ⟨rfl, -⟩ | ⟨-, h'⟩
    · rw [hf.flags h n hn, hfile] at hdir
      exact absurd hdir (by decide)
    · rw [h']
      exact ⟨rfl, rfl⟩
  · intro h hh hd'
    rcases ent_setEnt_or V d h e with ⟨rfl, h'⟩ | ⟨-, h'⟩
    · rw [h']
      exact hsize
    · rw [h']
      exact (hf.single h hh hd').2
  · rw [hpar]
    refine ⟨hf.root.2.2.1, ?_⟩
    rcases ent_setEnt_or V d 0 e with ⟨h0, h⟩ | ⟨-, h⟩
    · rw [h, hname, ← h0]
      exact hf.root.2.2.2
    · rw [h]
      exact hf.root.2.2.2
  · intro h hh
    rw [hpar]
    exact hf.parent h hh
  · intro h hh hd'
    rcases ent_setEnt_or V d h e with ⟨rfl, h'⟩ | ⟨-, h'⟩
    · rw [h']
      exact hnodup
    · rw [h']
      exact hf.nodup h hh hd'
  · intro h hh hd' m
    rw [hpar]
    rcases ent_setEnt_or V d h e with ⟨rfl, h'⟩ | ⟨hne, h'⟩
    · rw [h']
      exact hitems m
    · rw [h', hf.items h hh hd' m]
      constructor
      · rintro ⟨h1, h2, h3, h4⟩
        exact ⟨h1, h2, h3, fun hp => h4 ((hothers m h1 (h3.trans_ne hne)).1 hp)⟩
      · rintro ⟨h1, h2, h3, h4⟩
        exact ⟨h1, h2, h3, fun hp => h4 ((hothers m h1 (h3.trans_ne hne)).2 hp)⟩

/-- A pending head becomes an item of its directory. -/
theorem link (hf : V.Format C P) {d n : Nat} (hn : C n ≠ []) (hn0 : n ≠ 0) (hpar : V.par n = d) (hP : P n)
    (hroom : (V.ent d).size.toNat < 120) :
    (V.setEnt d ((V.ent d).addItem n)).Format C fun m => P m ∧ m ≠ n := by
  obtain ⟨hd, hdir⟩ := hpar ▸ hf.parent n hn
  have hbound := hf.geo.nent_lt
  have hnlt := hf.head_lt hn
  have hitems := Block.items_addItem (V.ent d) hroom (show n < 4294967296 by omega)
  refine hf.updateDir hd hdir rfl rfl rfl rfl ?_ ?_ ?_ ?_
  · rw [Block.size_addItem _ _ hroom]
    omega
  · rw [hitems]
    refine List.nodup_append.2 ⟨hf.nodup d hd hdir, List.nodup_singleton n, ?_⟩
    rintro m hm m' hm' rfl
    obtain rfl := List.mem_singleton.1 hm'
    exact ((hf.items d hd hdir m).1 hm).2.2.2 hP
  · intro m
    rw [hitems, List.mem_append, List.mem_singleton, hf.items d hd hdir m]
    constructor
    · rintro (⟨h1, h2, h3, h4⟩ | rfl)
      · exact ⟨h1, h2, h3, fun h => h4 h.1⟩
      · exact ⟨hn, hn0, hpar, fun h => h.2 rfl⟩
    · rintro ⟨h1, h2, h3, h4⟩
      by_cases hmn : m = n
      · exact Or.inr hmn
      · exact Or.inl ⟨h1, h2, h3, fun h => h4 ⟨h, hmn⟩⟩
  · intro m _ hmd
    have hmn : m ≠ n := by
      rintro rfl
      exact hmd hpar
    exact ⟨fun h => h.1, fun h => ⟨h, hmn⟩⟩

/-- The place of a head in its directory. -/
theorem place (hf : V.Format C P) {n : Nat} (hn : C n ≠ []) (hn0 : n ≠ 0) (hP : ¬P n) :
    ∃ j, j < (V.ent (V.par n)).size.toNat ∧ (V.ent (V.par n)).refAt j = n ∧
      ∀ i < j, (V.ent (V.par n)).refAt i ≠ n := by
  obtain ⟨hd, hdir⟩ := hf.parent n hn
  obtain ⟨j, hj, href⟩ := Block.mem_items.1 ((hf.items _ hd hdir n).2 ⟨hn, hn0, rfl, hP⟩)
  refine ⟨j, hj, href, fun i hi hin => ?_⟩
  have hnd := hf.nodup _ hd hdir
  have hinj := List.nodup_iff_injective_get.1 hnd
  have hlen : (V.ent (V.par n)).items.length = (V.ent (V.par n)).size.toNat := by simp [Block.items]
  have h := @hinj ⟨i, by omega⟩ ⟨j, by omega⟩ (by simp [Block.items, hin, href])
  simp only [Fin.mk.injEq] at h
  omega

/-- A head stops being an item of its directory. -/
theorem unlink (hf : V.Format C P) {d n j : Nat} (hn : C n ≠ []) (hpar : V.par n = d)
    (hj : j < (V.ent d).size.toNat) (href : (V.ent d).refAt j = n) :
    (V.setEnt d ((V.ent d).removeItem j)).Format C fun m => P m ∨ m = n := by
  obtain ⟨hd, hdir⟩ := hpar ▸ hf.parent n hn
  have hsize := (hf.single d hd hdir).2
  have hnd := hf.nodup d hd hdir
  have hlen : j < (V.ent d).items.length := by simpa [Block.items] using hj
  have hget : (V.ent d).items[j] = n := by simp [Block.items, href]
  have hitems : ((V.ent d).removeItem j).items = (V.ent d).items.erase n := by
    rw [Block.items_removeItem _ hsize hj, ← hget, hnd.erase_getElem]
  have hnext : ((V.ent d).removeItem j).next = (V.ent d).next := by
    apply UInt32.toNat_inj.1
    have hz : (V.ent d).next.toNat = 0 := by
      have hc := (hf.chain d hd).linked
      rw [(hf.single d hd hdir).1] at hc
      exact hc
    rw [hz]
    rfl
  refine hf.updateDir hd hdir rfl hnext rfl rfl ?_ ?_ ?_ ?_
  · rw [Block.size_removeItem _ _ hsize]
    omega
  · rw [hitems]
    exact hnd.erase n
  · intro m
    rw [hitems, hnd.mem_erase_iff, hf.items d hd hdir m]
    constructor
    · rintro ⟨h0, h1, h2, h3, h4⟩
      exact ⟨h1, h2, h3, by rintro (h | h) <;> contradiction⟩
    · rintro ⟨h1, h2, h3, h4⟩
      exact ⟨fun h => h4 (Or.inr h), h1, h2, h3, fun h => h4 (Or.inl h)⟩
  · intro m _ hmd
    have hmn : m ≠ n := by
      rintro rfl
      exact hmd hpar
    exact ⟨fun h => h.resolve_right hmn, Or.inl⟩

/-- A pending head gets another name and another directory. -/
theorem reparent (hf : V.Format C P) {d n : Nat} (hn : C n ≠ []) (hn0 : n ≠ 0) (hP : P n) (hd : C d ≠ [])
    (hdir : (V.ent d).flags = tDir) (name : CStr) :
    (V.setEnt n (((V.ent n).setName name).setParent d)).Format C P := by
  have hbound := hf.geo.nent_lt
  have hdlt := hf.head_lt hd
  obtain ⟨e, he⟩ : ∃ e, e = ((V.ent n).setName name).setParent d := ⟨_, rfl⟩
  have hep : e.parent.toNat = d := by rw [he, Block.toNat_setParent _ (by omega)]
  have hpar : ∀ m, (V.setEnt n e).par m = if m = n then d else V.par m := by
    intro m
    rcases ent_setEnt_or V n m e with ⟨rfl, h⟩ | ⟨hmn, h⟩
    · rw [if_pos rfl, Vol.par, h, hep]
    · rw [if_neg hmn, Vol.par, h, Vol.par]
  have hsame : ∀ m, ((V.setEnt n e).ent m).flags = (V.ent m).flags ∧ ((V.setEnt n e).ent m).next = (V.ent m).next ∧
      ((V.setEnt n e).ent m).size = (V.ent m).size ∧ ((V.setEnt n e).ent m).refAt = (V.ent m).refAt := by
    intro m
    rcases ent_setEnt_or V n m e with ⟨rfl, h⟩ | ⟨-, h⟩
    · rw [h, he]
      exact ⟨rfl, rfl, rfl, rfl⟩
    · rw [h]
      exact ⟨rfl, rfl, rfl, rfl⟩
  have hitems : ∀ m, ((V.setEnt n e).ent m).items = (V.ent m).items := by
    intro m
    rw [Block.items, (hsame m).2.2.1, (hsame m).2.2.2, Block.items]
  rw [← he]
  refine hf.updateDirs ?_ (fun m _ => (hsame m).1) (fun m _ => (hsame m).2.1) ?_
    (fun _ _ _ m _ => ⟨(hsame m).2.2.1, (hsame m).2.2.2⟩) ?_ ?_ ?_ ?_ ?_
  · simp [Vol.setEnt, show (1 : Nat) ≠ 2 + n by omega]
  · intro h m hm hmh
    have hmn : m ≠ n := by
      rintro rfl
      exact hmh (hf.head_unique hn hm)
    rw [Vol.ent_setEnt_ne _ _ hmn]
  · intro h hh hd'
    rw [(hsame h).2.2.1]
    exact (hf.single h hh hd').2
  · rw [hpar, if_neg (Ne.symm hn0), Vol.ent_setEnt_ne _ _ (Ne.symm hn0)]
    exact ⟨hf.root.2.2.1, hf.root.2.2.2⟩
  · intro h hh
    rw [hpar]
    split_ifs
    · exact ⟨hd, hdir⟩
    · exact hf.parent h hh
  · intro h hh hd'
    rw [hitems]
    exact hf.nodup h hh hd'
  · intro h hh hd' m
    rw [hitems, hf.items h hh hd' m, hpar]
    by_cases hmn : m = n
    · subst hmn
      simp [hP]
    · rw [if_neg hmn]

end Vol.Format

end NanoS32
