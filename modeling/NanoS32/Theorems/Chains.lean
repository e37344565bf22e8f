import NanoS32.Lemmas.Recount
import NanoS32.Lemmas.Rewrite
import NanoS32.Theorems.Delete

/-!
# The length of a chain

What `set_entry_refcount` and `set_entry_size` do on the chain of one file or directory. The references are cut or lengthened
at a multiple of 120, and only the last reference of the last entry is always cleared with them.
-/

namespace NanoS32

/-- The number of references of the chain `ch`, as `get_entry_refcount` gives it for its head. -/
def Vol.refcount (V : Vol) (ch : List Nat) : Nat := getEntryRefcount (V.ent (ch.headD 0))

/-- The entries `ch` are the chain of a file or of a directory: as many as its references need, with the size that is left noted in
each, and with the references that it does not use 0. The root entry is used. -/
structure Vol.WellChained (V : Vol) (ch : List Nat) : Prop where
  geo : V.Geo
  root : (V.ent 0).used = true
  chain : V.IsChain ch
  kind : (V.ent (ch.headD 0)).flags = tDir ∨ (V.ent (ch.headD 0)).flags = tFile
  flags : ∀ n ∈ ch, (V.ent n).flags = (V.ent (ch.headD 0)).flags
  sizes : ∀ k n, ch[k]? = some n →
    (V.ent n).size.toNat = (V.ent (ch.headD 0)).size.toNat - (V.ent (ch.headD 0)).capacity * k
  length : ch.length = max 1 ((V.refcount ch + 119) / 120)
  unused : ∀ i, V.refcount ch ≤ i → V.fref ch i = 0

/-- The references of a chain have been cut to `r`, or filled up to `r` with 0. -/
structure Vol.Recounted (V : Vol) (ch : List Nat) (r : Nat) (ch' : List Nat) (V' : Vol) : Prop where
  head : ch'.head? = ch.head?
  chain : V'.IsChain ch'
  length : ch'.length = max 1 ((r + 119) / 120)
  refs : ∀ i, V'.fref ch' i = if i < min (V.refcount ch) r then V.fref ch i else 0
  removed : ∀ n ∈ ch, n ∉ ch' → V'.ent n = Block.zero
  added : ∀ n ∈ ch', n ∉ ch → (V.ent n).used = false
  others : V.AgreeOff (ch ++ ch') V'

/-- The references that are cleared with those from `r` on are not wanted, and those that are left are 0 already. -/
def Vol.TailFits (V : Vol) (ch : List Nat) (r : Nat) : Prop :=
  r < 120 ∨ (∀ i, r ≤ i → i < 120 * ((r + 119) / 120) - 1 → V.fref ch i = 0) ∧ (r % 120 = 0 → V.fref ch (r - 1) = 0)

/-- A chain has no references behind those of its entries. -/
theorem Vol.unused_of_lt {V : Vol} {ch : List Nat} {r : Nat} (h : ∀ i < 120 * ch.length, r ≤ i → V.fref ch i = 0) :
    ∀ i, r ≤ i → V.fref ch i = 0 := by
  intro i hi
  by_cases hlt : i < 120 * ch.length
  · exact h i hlt hi
  · exact V.fref_of_le (Nat.le_of_not_lt hlt)

theorem chainEntries_eq (r : Nat) : chainEntries r = max 1 ((r + 119) / 120) := by
  rw [chainEntries, neededEntries_eq]
  omega

/-- A state has one disk. -/
theorem Sys.withVol_inj {s : Sys} {d : Nat} {V V' : Vol} (h : s.withVol d V = s.withVol d V') : V = V' := by
  have hdisk := congrArg (fun s => s.disk d) h
  rwa [Sys.withVol_disk, Sys.withVol_disk] at hdisk

section Run

variable {env : Env} {s : Sys} {d : Nat} {V : Vol} {ch : List Nat}

namespace Vol.WellChained

theorem cons (hw : V.WellChained ch) : ∃ l, ch = ch.headD 0 :: l := by
  obtain ⟨a, l, rfl⟩ := List.exists_cons_of_ne_nil hw.chain.linked.ne_nil
  exact ⟨l, rfl⟩

theorem used (hw : V.WellChained ch) : ∀ n ∈ ch, (V.ent n).used = true := by
  intro n hn
  rcases hw.kind with hk | hk
  · exact Block.used_of_isDir (Block.isDir_of_flags ((hw.flags n hn).trans hk)).1
  · exact Block.used_of_isFile (Block.isFile_of_flags ((hw.flags n hn).trans hk)).1

end Vol.WellChained

/-! ## The references -/

/-- With enough free entries, `set_entry_refcount` gives the chain the length that it needs, whatever it clears. -/
theorem setEntryRefcount_rechain (hr : Ready env s d) (hw : V.WellChained ch) {r : Nat}
    (hfree : max 1 ((r + 119) / 120) ≤ ch.length + V.freeCount) :
    ∃ ch' V', ch'.length = max 1 ((r + 119) / 120) ∧ V.Rechain ch (keptRefs r) ch' V' ∧
      (setEntryRefcount env d (ch.headD 0) r).run (s.withVol d V) = .ok () (s.withVol d V') := by
  obtain ⟨a, l, rfl⟩ := List.exists_cons_of_ne_nil hw.chain.linked.ne_nil
  have hcount := chainEntries_eq r
  rw [List.length_cons] at hfree
  rcases Nat.lt_or_ge (l.length + 1) (chainEntries r) with hlt | hle
  · rcases setEntryRefcount_extend hr hw.geo hw.root hw.chain hw.used hlt with
      ⟨ch', V', hlen, hc, hrun⟩ | ⟨ch', V', -, -, -, hfew, -⟩
    · exact ⟨ch', V', hlen.trans hcount, hc, hrun⟩
    · omega
  · obtain ⟨V', hc, hrun⟩ := setEntryRefcount_cut hr hw.geo hw.chain hle
    refine ⟨_, V', ?_, hc, hrun⟩
    rw [List.length_take, List.length_cons]
    omega

/-- The head of a chain stays its head. -/
theorem Vol.Rechain.head {V' : Vol} {m : Nat} {ch' : List Nat} (hc : V.Rechain ch m ch' V') (hne : ch ≠ []) :
    ch'.head? = ch.head? := by
  obtain ⟨a, l, rfl⟩ := List.exists_cons_of_ne_nil hne
  obtain ⟨b, t, rfl⟩ := List.exists_cons_of_ne_nil hc.chain.linked.ne_nil
  rcases hc.shape with ⟨u, hu⟩ | ⟨u, hu⟩
  · exact congrArg some (List.cons.inj hu).1
  · exact congrArg some (List.cons.inj hu).1.symm

/-- The references that are kept are those that are wanted, just when the tail fits. -/
theorem Vol.WellChained.tailFits_iff (hw : V.WellChained ch) (r : Nat) :
    (∀ i, (if i < keptRefs r then V.fref ch i else 0) = if i < min (V.refcount ch) r then V.fref ch i else 0) ↔
      V.TailFits ch r := by
  have hkept : keptRefs r = 120 * (max 1 ((r + 119) / 120) - 1) + min 119 r := by rw [keptRefs, chainEntries_eq]
  have hcut : ∀ i, (if i < min (V.refcount ch) r then V.fref ch i else 0) = if i < r then V.fref ch i else 0 := by
    intro i
    by_cases hi : i < V.refcount ch
    · by_cases hr : i < r
      · rw [if_pos (by omega), if_pos hr]
      · rw [if_neg (by omega), if_neg hr]
    · rw [if_neg (by omega), hw.unused i (by omega), ite_self]
  simp only [hcut]
  constructor
  · intro h
    by_cases hsmall : r < 120
    · exact Or.inl hsmall
    · refine Or.inr ⟨fun i hge hlt => ?_, fun hmod => ?_⟩
      · have hi := h i
        rwa [if_pos (by omega), if_neg (by omega)] at hi
      · have hi := h (r - 1)
        rw [if_neg (by omega), if_pos (by omega)] at hi
        exact hi.symm
  · intro h i
    rcases h with hsmall | ⟨hstale, hlost⟩
    · rw [show keptRefs r = r by omega]
    · by_cases hk : i < keptRefs r
      · rw [if_pos hk]
        split_ifs with hi
        · rfl
        · exact hstale i (by omega) (by omega)
      · rw [if_neg hk]
        split_ifs with hi
        · obtain rfl : i = r - 1 := by omega
          exact (hlost (by omega)).symm
        · rfl

/-- What `set_entry_refcount` leaves is the chain that is wanted just when the tail of the references fits. -/
theorem Vol.WellChained.recounted_iff (hw : V.WellChained ch) {r : Nat} {ch' : List Nat} {V' : Vol}
    (hlen : ch'.length = max 1 ((r + 119) / 120)) (hc : V.Rechain ch (keptRefs r) ch' V')
    (hrun : (setEntryRefcount env d (ch.headD 0) r).run (s.withVol d V) = .ok () (s.withVol d V')) :
    (∃ V' ch', (setEntryRefcount env d (ch.headD 0) r).run (s.withVol d V) = .ok () (s.withVol d V') ∧
      V.Recounted ch r ch' V') ↔ V.TailFits ch r := by
  have hhead := hc.head hw.chain.linked.ne_nil
  rw [← hw.tailFits_iff r]
  constructor
  · rintro ⟨W, cw, hrun', hre⟩ i
    obtain rfl : V' = W := by
      rw [hrun] at hrun'
      exact Sys.withVol_inj (Prog.Outcome.ok.inj hrun').2
    have hsame : cw = ch' := by
      obtain ⟨a, l, rfl⟩ := List.exists_cons_of_ne_nil hre.chain.linked.ne_nil
      obtain ⟨b, t, rfl⟩ := List.exists_cons_of_ne_nil hc.chain.linked.ne_nil
      obtain rfl : a = b := Option.some.inj (hre.head.trans hhead.symm)
      rw [hre.chain.linked.unique hc.chain.linked]
    rw [← hc.refs i, ← hsame]
    exact hre.refs i
  · intro h
    refine ⟨V', ch', hrun, hhead, hc.chain, hlen, fun i => ?_, hc.dropped, fun n hn hout => (hc.added n hn hout).1, hc.agree⟩
    rw [hc.refs i, h i]

/-- On a well-formed chain, with enough free entries, `set_entry_refcount` leaves the chain that is wanted just when the tail of the
references fits. -/
theorem set_entry_refcount_recounts (hr : Ready env s d) (hw : V.WellChained ch) {r : Nat}
    (hfree : max 1 ((r + 119) / 120) ≤ ch.length + V.freeCount) :
    (∃ V' ch', (setEntryRefcount env d (ch.headD 0) r).run (s.withVol d V) = .ok () (s.withVol d V') ∧
      V.Recounted ch r ch' V') ↔ V.TailFits ch r := by
  obtain ⟨ch', V', hlen, hc, hrun⟩ := setEntryRefcount_rechain hr hw hfree
  exact hw.recounted_iff hlen hc hrun

/-! ## The sizes -/

theorem Vol.WellChained.fileChained (hw : V.WellChained ch) (hfile : (V.ent (ch.headD 0)).flags = tFile) :
    V.FileChained (ch.headD 0) ch := by
  obtain ⟨l, hl⟩ := hw.cons
  refine ⟨hw.geo, ?_, hw.chain, fun n hn => (hw.flags n hn).trans hfile⟩
  rw [hl]
  rfl

/-- With enough free entries, the length that `set_entry_refcount` gives the chain of a file for a size is the one that
`set_entry_size` expects, and the sizes along the chain are those of the file. -/
theorem set_entry_size_agrees (hr : Ready env s d) (hw : V.WellChained ch) (hfile : (V.ent (ch.headD 0)).flags = tFile) {size : Nat}
    (hsize : size < 2 ^ 32) (hfree : max 1 ((size + 61439) / 61440) ≤ ch.length + V.freeCount) :
    ∃ V' ch', (setEntryRefcount env d (ch.headD 0) (neededBlocks size) >>= fun _ => setEntrySize env d (ch.headD 0) size).run
        (s.withVol d V) = .ok () (s.withVol d V') ∧
      V'.IsChain ch' ∧ ch'.head? = ch.head? ∧ ch'.length = max 1 ((size + 61439) / 61440) ∧
      ∀ k n, ch'[k]? = some n → (V'.ent n).size.toNat = size - 61440 * k := by
  have hblocks : (neededBlocks size + 119) / 120 = (size + 61439) / 61440 := by
    rw [neededBlocks_eq]
    omega
  obtain ⟨ch', V₁, hlen, hc, hrun⟩ := setEntryRefcount_rechain hr hw (r := neededBlocks size) (by rw [hblocks]; exact hfree)
  have hf₁ := ((hw.fileChained hfile).rechain hc).2
  obtain ⟨V₂, -, hf₂, hhead, hrun₂⟩ := setEntrySize_file hr hf₁ hsize (hlen.trans (chainEntries_eq _).symm)
  refine ⟨V₂, ch', ?_, hf₂.chain, hc.head hw.chain.linked.ne_nil, hblocks ▸ hlen, fun k n hn => ?_⟩
  · rw [Prog.bind_ok hrun, hrun₂]
  · rw [hf₂.sizes k n hn, hhead]

end Run

/-! ## Chains of well-formed disks -/

/-- On a well-formed disk, the chain of a head is such a chain when it is not longer than it needs to be, and 0 behind its
references. -/
theorem Vol.WellFormed.wellChained {V : Vol} {C : Nat → List Nat} (hw : V.WellFormed C) {h : Nat} (hh : C h ≠ [])
    (hlen : (C h).length = max 1 ((getEntryRefcount (V.ent h) + 119) / 120))
    (hunused : ∀ i, getEntryRefcount (V.ent h) ≤ i → V.fref (C h) i = 0) : V.WellChained (C h) := by
  obtain ⟨l, hl⟩ := hw.cons hh
  have hhead : (C h).headD 0 = h := by
    rw [hl]
    rfl
  refine
    { geo := hw.geo
      root := hw.used_of_mem (hw.mem_head hw.root.1)
      chain := hw.chain h hh
      kind := hhead.symm ▸ hw.kind h hh
      flags := hhead.symm ▸ hw.flags h
      sizes := hhead.symm ▸ hw.sizes h
      length := ?_
      unused := ?_ }
  · rw [Vol.refcount, hhead]
    exact hlen
  · rw [Vol.refcount, hhead]
    exact hunused

theorem sampleSys_wellChained : Vol.WellChained (sampleSys.disk 2) [1] := by
  obtain ⟨V, hV⟩ : ∃ V : Vol, V = sampleSys.disk 2 := ⟨_, rfl⟩
  have hw : V.WellFormed V.flatChains := hV ▸ sampleSys_wellFormed
  have hone : V.flatChains 1 = [1] := if_pos (by rw [hV]; decide +kernel)
  have hcount : getEntryRefcount (V.ent 1) = 1 := by rw [hV]; decide +kernel
  have hrefs : ∀ i < 120, 1 ≤ i → V.fref [1] i = 0 := by rw [hV]; decide +kernel
  rw [← hV, ← hone]
  refine hw.wellChained (by rw [hone]; exact List.cons_ne_nil _ _) (by rw [hone, hcount]; rfl) ?_
  rw [hone, hcount]
  exact Vol.unused_of_lt hrefs

theorem set_entry_refcount_recounts_small :
    (∃ V' ch', (setEntryRefcount sampleEnv 2 1 5).run (sampleSys.withVol 2 (sampleSys.disk 2)) = .ok () (sampleSys.withVol 2 V') ∧
      Vol.Recounted (sampleSys.disk 2) [1] 5 ch' V') ↔ Vol.TailFits (sampleSys.disk 2) [1] 5 :=
  set_entry_refcount_recounts sampleSys_ready sampleSys_wellChained (by decide +kernel)

theorem set_entry_size_agrees_two : ∃ V' ch',
    (setEntryRefcount sampleEnv 2 1 (neededBlocks 100000) >>= fun _ => setEntrySize sampleEnv 2 1 100000).run
        (sampleSys.withVol 2 (sampleSys.disk 2)) = .ok () (sampleSys.withVol 2 V') ∧
      V'.IsChain ch' ∧ ch'.head? = [1].head? ∧ ch'.length = max 1 ((100000 + 61439) / 61440) ∧
      ∀ k n, ch'[k]? = some n → (V'.ent n).size.toNat = 100000 - 61440 * k :=
  set_entry_size_agrees sampleSys_ready sampleSys_wellChained (by decide +kernel) (by decide) (by decide +kernel)

theorem longSys_wellChained : Vol.WellChained (longSys.disk 2) [1, 2] := by
  obtain ⟨V, hV⟩ : ∃ V : Vol, V = longSys.disk 2 := ⟨_, rfl⟩
  have hw : V.WellFormed longChains := hV ▸ longSys_wellFormed
  have hcount : getEntryRefcount (V.ent 1) = 121 := by rw [hV]; decide +kernel
  have hrefs : ∀ i < 240, 121 ≤ i → V.fref [1, 2] i = 0 := by rw [hV]; decide +kernel
  rw [← hV]
  refine hw.wellChained (h := 1) (List.cons_ne_nil _ _) (by rw [hcount]; rfl) ?_
  rw [hcount]
  exact Vol.unused_of_lt hrefs

/-- A file of 121 blocks cut to 120 loses the last of these as well. -/
theorem set_entry_refcount_loses : Vol.WellChained (longSys.disk 2) [1, 2] ∧ 1 ≤ 2 + Vol.freeCount (longSys.disk 2) ∧
    ¬∃ V' ch', (setEntryRefcount sampleEnv 2 1 120).run (longSys.withVol 2 (longSys.disk 2)) = .ok () (longSys.withVol 2 V') ∧
      Vol.Recounted (longSys.disk 2) [1, 2] 120 ch' V' := by
  refine ⟨longSys_wellChained, Nat.le_add_right_of_le (by decide), fun h => ?_⟩
  obtain ⟨ch', V', hlen, hc, hrun⟩ := setEntryRefcount_rechain (r := 120) longSys_ready longSys_wellChained
    (Nat.le_add_right_of_le (by decide))
  have hiff := longSys_wellChained.recounted_iff hlen hc hrun
  rw [List.headD_cons] at hiff
  rcases hiff.1 h with hsmall | ⟨-, hlost⟩
  · exact absurd hsmall (by decide)
  · exact absurd (hlost rfl) (by decide +kernel)

end NanoS32
