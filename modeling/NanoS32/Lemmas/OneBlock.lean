import NanoS32.Theorems.Path

/-!
# A file of one block

What `fs_write_file` does when it writes the whole of a file that fits in one block: the file gets its size, the bytes are the ones
that have been written, and the names in the table stay as they are.
-/

namespace NanoS32

open Prog

/-! ## Names -/

/-- The entry `n` keeps its kind, name and parent, and no other entry gets new ones. -/
structure Vol.SameNames (V : Vol) (n : Nat) (V' : Vol) : Prop where
  super : V' 1 = V 1
  self : (V'.ent n).flags = (V.ent n).flags ∧ (V'.ent n).name = (V.ent n).name ∧ (V'.ent n).parent = (V.ent n).parent
  others : ∀ m < V.nent, m ≠ n → (V'.ent m).used = false ∨
    ((V'.ent m).flags = (V.ent m).flags ∧ (V'.ent m).name = (V.ent m).name ∧ (V'.ent m).parent = (V.ent m).parent)

theorem Block.matches_congr {e e' : SfsEntry} (h : e'.flags = e.flags ∧ e'.name = e.name ∧ e'.parent = e.parent) (p : Nat)
    (name : CStr) : e'.matches p name = e.matches p name := by
  unfold Block.matches Block.used Block.nameStr
  rw [h.1, h.2.1, h.2.2]

namespace Vol.SameNames

variable {V V' V'' : Vol} {n : Nat}

theorem nent (h : V.SameNames n V') : V'.nent = V.nent := by rw [Vol.nent, h.super, Vol.nent]

theorem trans (h : V.SameNames n V') (h' : V'.SameNames n V'') : V.SameNames n V'' := by
  refine ⟨h'.super.trans h.super, ⟨h'.self.1.trans h.self.1, h'.self.2.1.trans h.self.2.1, h'.self.2.2.trans h.self.2.2⟩,
    fun m hm hne => ?_⟩
  rcases h'.others m (h.nent ▸ hm) hne with hu | ⟨h1, h2, h3⟩
  · exact Or.inl hu
  · rcases h.others m hm hne with hu | ⟨h4, h5, h6⟩
    · left
      unfold Block.used at hu ⊢
      rw [h1, hu]
    · exact Or.inr ⟨h1.trans h4, h2.trans h5, h3.trans h6⟩

/-- A table where only other fields of some entries differ. -/
theorem of_fields (hsuper : V' 1 = V 1) (h : ∀ m < V.nent, (V'.ent m).flags = (V.ent m).flags ∧
    (V'.ent m).name = (V.ent m).name ∧ (V'.ent m).parent = (V.ent m).parent) (hn : n < V.nent) : V.SameNames n V' :=
  ⟨hsuper, h n hn, fun m hm _ => Or.inr (h m hm)⟩

/-- What is found under a name is found again. -/
theorem lookup (h : V.SameNames n V') {p : Nat} {name : CStr} (hl : V.lookup p name = some n) : V'.lookup p name = some n := by
  obtain ⟨hn, hm, hleast⟩ := Vol.lookup_eq_some.1 hl
  refine Vol.lookup_eq_some.2 ⟨h.nent ▸ hn, (Block.matches_congr h.self p name).trans hm, fun m hmn hm' => ?_⟩
  rcases h.others m (Nat.lt_trans hmn hn) (Nat.ne_of_lt hmn) with hu | hsame
  · rw [Block.matches, hu] at hm'
    cases hm'
  · exact hleast m hmn ((Block.matches_congr hsame p name).symm.trans hm')

end Vol.SameNames

/-! ## Resizing -/

/-- The file `n` with chain `ch` and `size` bytes. -/
structure Vol.FileOf (V : Vol) (n : Nat) (ch : List Nat) (size : Nat) : Prop where
  geo : V.Geo
  head : ch.head? = some n
  chain : V.IsChain ch
  flags : ∀ x ∈ ch, (V.ent x).flags = tFile
  refs : V.RefsInRange ch
  size : (V.ent n).size.toNat = size

section Run

variable {env : Env} {s : Sys} {d : Nat}

theorem Vol.FileOf.cons {V : Vol} {n size : Nat} {ch : List Nat} (h : V.FileOf n ch size) : ∃ l, ch = n :: l := by
  have hh := h.head
  cases ch with
  | nil => cases hh
  | cons a l =>
    obtain rfl := Option.some.inj hh
    exact ⟨l, rfl⟩

theorem Vol.FileOf.lt {V : Vol} {n size : Nat} {ch : List Nat} (h : V.FileOf n ch size) : n < V.nent :=
  h.chain.lt n (List.mem_of_head? h.head)

/-- Cutting the chain to one entry, with one reference. -/
theorem setEntryRefcount_one (hr : Ready env s d) {V : Vol} {n size : Nat} {ch : List Nat} (hf : V.FileOf n ch size) :
    ∃ V', V.SameNames n V' ∧ V'.FileOf n [n] size ∧
      (setEntryRefcount env d n 1).run (s.withVol d V) = .ok () (s.withVol d V') := by
  obtain ⟨l, rfl⟩ := hf.cons
  have hone : chainEntries 1 = 1 := rfl
  obtain ⟨V', hc, hrun⟩ := setEntryRefcount_cut hr hf.geo hf.chain (r := 1) (by rw [hone]; omega)
  rw [hone, List.take_succ_cons, List.take_zero] at hc
  have hkept := hc.kept n (by simp) (by simp)
  have hend := hc.agree.dataEnd
  have hfd := hc.agree.firstData
  refine ⟨V', ⟨hc.agree.low (by omega), ⟨hkept.1, hkept.2.1, hkept.2.2.2.2⟩, fun m hm hne => ?_⟩, ?_, hrun⟩
  · by_cases hml : m ∈ n :: l
    · left
      rw [hc.dropped m hml fun h => hne (List.mem_singleton.1 h)]
      rfl
    · right
      have hout : m ∉ n :: l ++ [n] := by simpa [hne] using hml
      rw [hc.agree.ent hout]
      exact ⟨rfl, rfl, rfl⟩
  · refine ⟨hc.agree.geo hf.geo, rfl, hc.chain, fun x hx => ?_, fun i => ?_, ?_⟩
    · rw [List.mem_singleton.1 hx, hkept.1]
      exact hf.flags n (by simp)
    · rw [hc.refs i, hend, hfd]
      split_ifs
      · exact hf.refs i
      · exact Or.inl rfl
    · rw [hkept.2.2.2.1]
      exact hf.size

/-- Setting the size of a file of one entry. -/
theorem setEntrySize_one (hr : Ready env s d) {V : Vol} {n size : Nat} (hf : V.FileOf n [n] size) {last : Nat}
    (hlast : last ≤ 512) :
    ∃ V', V.SameNames n V' ∧ V'.FileOf n [n] last ∧
      (setEntrySize env d n last).run (s.withVol d V) = .ok () (s.withVol d V') := by
  have hfuel := hr.fuel
  have hunit : ∀ x ∈ [n], (V.ent x).unit = 61440 := by
    intro x hx
    obtain ⟨hisFile, -⟩ := Block.isFile_of_flags (hf.flags x hx)
    rw [Block.unit, hisFile, if_pos rfl]
    rfl
  have hrun := setSizeLoop_run hr 61440 env.fuel n [] V last hf.geo hf.chain (by rw [List.length_nil]; omega) hunit
    (by rw [List.length_nil]; omega) (fun h => absurd rfl h)
  have hset : V.updEnts [n] (fun x e => e.setSize (last - 61440 * [n].idxOf x)) = V.setEnt n ((V.ent n).setSize last) := by
    rw [← Vol.updEnts_cons _ (by simp), Vol.updEnts_nil]
    simp
  rw [hset] at hrun
  refine ⟨_, ?_, ?_, hrun⟩
  · refine Vol.SameNames.of_fields ((Vol.agreeOff_setEnt V n _).low (by omega)) (fun m _ => ?_) hf.lt
    rw [Vol.ent_setEnt]
    split_ifs with hm
    · rw [hm]
      exact ⟨rfl, rfl, rfl⟩
    · exact ⟨rfl, rfl, rfl⟩
  · refine ⟨hf.geo.setEnt _ _, rfl, hf.chain.setEnt_single rfl, fun x hx => ?_, fun i => ?_, ?_⟩
    · rw [List.mem_singleton.1 hx, Vol.ent_setEnt_self]
      exact hf.flags n (by simp)
    · have hrefs : (V.setEnt n ((V.ent n).setSize last)).fref [n] i = V.fref [n] i := by
        refine Vol.fref_congr (fun x hx => ?_) i
        rw [List.mem_singleton.1 hx, Vol.ent_setEnt_self]
        exact (Block.setSize_fields (V.ent n) last).2.2.2.2.2.2.2.2.2
      rw [hrefs, Vol.firstData_setEnt, Vol.dataEnd_setEnt]
      exact hf.refs i
    · rw [Vol.ent_setEnt_self]
      exact Block.toNat_setSize _ (by omega)

/-- The allocation for a file of one entry. -/
theorem growLoop_one (hr : Ready env s d) {V : Vol} {n size : Nat} (hf : V.FileOf n [n] size) {lo k : Nat} (hlo : lo < 120)
    (hk : k ≤ 120 - lo) {s' : Sys}
    (h : (growLoop env d k lo n (V.ent n) >>= fun p => writeEntry env d p.1 p.2).run (s.withVol d V) = .ok () s') :
    ∃ V', s' = s.withVol d V' ∧ V.SameNames n V' ∧ V'.FileOf n [n] size := by
  rw [growLoop_run hr [] n V lo k hf.geo hf.chain hlo (by rw [List.length_nil]; omega)] at h
  obtain ⟨k', blk, halloc, -⟩ := Vol.alloc_spec [n] V lo k hf.geo (List.nodup_singleton n) (fun a ha => hf.chain.lt a ha) hlo
    (by rw [List.length_singleton]; omega)
  split_ifs at h
  cases h
  have hfields : ∀ m, ((V.alloc [n] lo k).1.ent m).flags = (V.ent m).flags ∧
      ((V.alloc [n] lo k).1.ent m).name = (V.ent m).name ∧ ((V.alloc [n] lo k).1.ent m).parent = (V.ent m).parent ∧
        ((V.alloc [n] lo k).1.ent m).size = (V.ent m).size ∧ ((V.alloc [n] lo k).1.ent m).next = (V.ent m).next := by
    intro m
    obtain ⟨r, hr'⟩ := halloc.refsOnly m
    rw [hr']
    exact ⟨rfl, rfl, rfl, rfl, rfl⟩
  refine ⟨_, rfl, ?_, ?_⟩
  · exact Vol.SameNames.of_fields (halloc.agree.low (by omega))
      (fun m _ => ⟨(hfields m).1, (hfields m).2.1, (hfields m).2.2.1⟩) hf.lt
  · refine ⟨halloc.agree.geo hf.geo, rfl, ?_, fun x hx => (hfields x).1.trans (hf.flags x hx), fun i => ?_, ?_⟩
    · exact hf.chain.congr halloc.agree.nent (fun x _ => (hfields x).2.2.2.2) fun x _ => (hfields x).2.2.1
    · rw [halloc.refs i, halloc.agree.firstData, halloc.agree.dataEnd]
      split_ifs with hi
      · have hdiv : 120 * (i / 120) ≤ i := Nat.mul_div_le i 120
        exact Or.inr (halloc.data (i / 120) (by omega) (by omega))
      · exact hf.refs i
    · rw [(hfields n).2.2.2.1]
      exact hf.size

/-- `fs_write_file` makes the file as long as what is to be written. -/
theorem resizeFile_one (hr : Ready env s d) {V : Vol} {n size : Nat} {ch : List Nat} (hf : V.FileOf n ch size) {last : Nat}
    (hpos : 0 < last) (hlast : last ≤ 512) {e : SfsEntry} {s' : Sys}
    (h : (resizeFile env d n (V.ent n) last (wfCreate ||| wfTruncate)).run (s.withVol d V) = .ok e s') :
    ∃ V' ch', s' = s.withVol d V' ∧ e = V'.ent n ∧ V.SameNames n V' ∧ V'.FileOf n ch' last := by
  have hnent := hf.geo.nent_lt
  have hlt := hf.lt
  have hneeded : neededBlocks last = 1 := by
    rw [neededBlocks_eq]
    omega
  have hsize := hf.size
  obtain ⟨V₁, hsame₁, hf₁, hrun₁⟩ := setEntryRefcount_one hr hf
  obtain ⟨V₂, hsame₂, hf₂, hrun₂⟩ := setEntrySize_one hr hf₁ hlast
  have hget : ∀ {W : Vol}, W.nent = V.nent → (getEntryN env d n).run (s.withVol d W) = .ok (W.ent n) (s.withVol d W) :=
    fun _ => getEntryN_run hr _ (by omega)
  have hnent₂ : V₂.nent = V.nent := hsame₂.nent.trans hsame₁.nent
  rcases Nat.lt_trichotomy size last with hgrow | rfl | hshrink
  · -- the file becomes longer
    have hfree : neededBlocks size < 120 := by
      rw [neededBlocks_eq]
      omega
    have heq : growFile env d n (V.ent n) last = setEntryRefcount env d n (neededBlocks last) >>= fun _ =>
        setEntrySize env d n last >>= fun _ => getEntryN env d n >>= fun t =>
          (growLoop env d (neededBlocks last - neededBlocks (V.ent n).size.toNat) (neededBlocks (V.ent n).size.toNat) n t >>=
            fun p => writeEntry env d p.1 p.2) >>= fun _ => getEntryN env d n := by
      unfold growFile
      simp only [bind_assoc]
    unfold resizeFile at h
    rw [if_pos (by omega)] at h
    obtain ⟨e₁, s₁, h₁, h₂⟩ := bind_eq_ok h
    rw [heq, hneeded, hsize, bind_ok hrun₁, bind_ok hrun₂, bind_ok (hget hnent₂)] at h₁
    obtain ⟨u, s₂, h₃, h₄⟩ := bind_eq_ok h₁
    obtain ⟨V₃, rfl, hsame₃, hf₃⟩ := growLoop_one hr hf₂ hfree (by omega) h₃
    rw [hget (hsame₃.nent.trans hnent₂)] at h₄
    cases h₄
    have hnot : ¬(last < (V₃.ent n).size.toNat ∧ (wfCreate ||| wfTruncate) &&& wfTruncate ≠ 0) := by
      rw [hf₃.size]
      exact fun hlt => Nat.lt_irrefl _ hlt.1
    dsimp only at h₂
    rw [if_neg hnot] at h₂
    cases h₂
    exact ⟨V₃, [n], rfl, rfl, (hsame₁.trans hsame₂).trans hsame₃, hf₃⟩
  · -- the file has the right length
    unfold resizeFile at h
    rw [hsize, if_neg (Nat.lt_irrefl _)] at h
    obtain ⟨e₁, s₁, h₁, h₂⟩ := bind_eq_ok h
    cases h₁
    dsimp only at h₂
    rw [hsize, if_neg fun hlt => Nat.lt_irrefl _ hlt.1] at h₂
    cases h₂
    exact ⟨V, ch, rfl, rfl, ⟨rfl, ⟨rfl, rfl, rfl⟩, fun _ _ _ => Or.inr ⟨rfl, rfl, rfl⟩⟩, hf⟩
  · -- the file becomes shorter
    unfold resizeFile at h
    rw [hsize, if_neg (by omega)] at h
    obtain ⟨e₁, s₁, h₁, h₂⟩ := bind_eq_ok h
    cases h₁
    dsimp only at h₂
    rw [hsize, if_pos ⟨hshrink, by decide⟩] at h₂
    unfold shrinkFile at h₂
    rw [hneeded, bind_ok hrun₁, bind_ok hrun₂, hget hnent₂] at h₂
    cases h₂
    exact ⟨V₂, [n], rfl, rfl, hsame₁.trans hsame₂, hf₂⟩

/-! ## Writing -/

/-- The bytes of the file `n`. -/
structure Vol.Holds (V : Vol) (n : Nat) (ch : List Nat) (buff : List UInt8) : Prop where
  file : V.FileOf n ch buff.length
  bytes : V.fileBytes ch 0 buff.length = buff

/-- Setting the time of a file. -/
theorem Vol.Holds.setTime {V : Vol} {n : Nat} {ch : List Nat} {buff : List UInt8} (h : V.Holds n ch buff)
    (hdata : ∀ i < buff.length, V.firstData ≤ V.fref ch (i / 512)) (t : Nat) :
    V.SameNames n (V.updEnts ch fun _ e => e.setTime t) ∧ (V.updEnts ch fun _ e => e.setTime t).Holds n ch buff := by
  obtain ⟨V', hV'⟩ : ∃ V' : Vol, V' = V.updEnts ch fun _ e => e.setTime t := ⟨_, rfl⟩
  rw [← hV']
  have hagree : V.AgreeOff ch V' := hV' ▸ Vol.agreeOff_updEnts V ch _
  have hfields : ∀ m, (V'.ent m).flags = (V.ent m).flags ∧ (V'.ent m).name = (V.ent m).name ∧
      (V'.ent m).parent = (V.ent m).parent ∧ (V'.ent m).size = (V.ent m).size ∧ (V'.ent m).next = (V.ent m).next ∧
        (V'.ent m).refAt = (V.ent m).refAt := by
    intro m
    rw [hV', Vol.ent_updEnts]
    split_ifs
    · exact ⟨rfl, rfl, rfl, rfl, rfl, rfl⟩
    · exact ⟨rfl, rfl, rfl, rfl, rfl, rfl⟩
  have hrefs : ∀ i, V'.fref ch i = V.fref ch i := Vol.fref_congr fun m _ => (hfields m).2.2.2.2.2
  obtain ⟨l, rfl⟩ := h.file.cons
  refine ⟨Vol.SameNames.of_fields (hagree.low (by omega)) (fun m _ => ⟨(hfields m).1, (hfields m).2.1, (hfields m).2.2.1⟩)
    h.file.lt, ⟨⟨hagree.geo h.file.geo, rfl, ?_, fun x hx => (hfields x).1.trans (h.file.flags x hx), fun i => ?_, ?_⟩, ?_⟩⟩
  · exact h.file.chain.congr hagree.nent (fun x _ => (hfields x).2.2.2.2.1) fun x _ => (hfields x).2.2.1
  · rw [hrefs, hagree.firstData, hagree.dataEnd]
    exact h.file.refs i
  · rw [(hfields n).2.2.2.1]
    exact h.file.size
  · refine Eq.trans (List.map_congr_left fun i hi => ?_) h.bytes
    rw [List.mem_range] at hi
    unfold Vol.fileByte
    rw [hrefs, Nat.zero_add, hagree.data (fun x hx => h.file.chain.lt x hx) (hdata i hi)]

/-- `fs_write_file` of a file that fits in one block. -/
theorem writeFileAt_one (hr : Ready env s d) {V : Vol} {n size : Nat} {ch : List Nat} (hf : V.FileOf n ch size)
    {buff : List UInt8} (hpos : buff ≠ []) (hlen : buff.length ≤ 512) {written : Nat} {s' : Sys}
    (h : (writeFileAt env buff d n (V.ent n) 0 (wfCreate ||| wfTruncate)).run (s.withVol d V) = .ok written s') :
    ∃ s₁ V' ch', s' = s₁.withVol d V' ∧ Ready env s₁ d ∧ V.SameNames n V' ∧ V'.Holds n ch' buff := by
  have hlen0 := List.length_pos_iff.2 hpos
  have hlast : wrap32 (0 + buff.length) = buff.length := by
    rw [Nat.zero_add]
    exact wrap32_of_lt (by omega)
  unfold writeFileAt at h
  rw [hlast] at h
  obtain ⟨e, s₁, h₁, h₂⟩ := bind_eq_ok h
  obtain ⟨V₁, ch₁, rfl, rfl, hsame₁, hf₁⟩ := resizeFile_one hr hf hlen0 hlen h₁
  obtain ⟨l, rfl⟩ := hf₁.cons
  obtain ⟨t, -, hdata, -, hloop⟩ := writeLoop_run hr buff.length 0 0 buff V₁ (show 0 < (n :: l).length from Nat.succ_pos _)
    hf₁.geo hf₁.chain (fun i _ => hf₁.refs _) (Nat.le_refl _) (Nat.le_refl _) (by decide)
  obtain ⟨status, s₂, h₃, h₄⟩ := bind_eq_ok h₂
  have hall : t = buff.length := by
    by_contra hne
    rw [if_neg hne] at hloop
    have := hloop.symm.trans h₃
    cases this
  rw [if_pos hall, hall, List.take_length] at hloop
  rw [hall] at hdata
  simp only [Nat.zero_add] at hdata
  have hsys := hloop.symm.trans h₃
  cases hsys
  obtain ⟨V₂, hV₂⟩ : ∃ V₂ : Vol, V₂ = V₁.poke (V₁.fref (n :: l)) 0 buff := ⟨_, rfl⟩
  have hin : ∀ i < buff.length, V₁.firstData ≤ V₁.fref (n :: l) ((0 + i) / 512) := by
    intro i hi
    rw [Nat.zero_add]
    exact hdata i hi
  obtain ⟨hent, hsuper, hfref⟩ := Vol.poke_table hf₁.chain hin
  obtain ⟨hgeo, hchain, hfirst, hend⟩ := Vol.poke_keeps hf₁.geo hf₁.chain hin
  rw [← hV₂] at hent hsuper hfref hgeo hchain hfirst hend h₄
  have hrefs : V₂.RefsInRange (n :: l) := fun i => by
    rw [hfref, hfirst, hend]
    exact hf₁.refs i
  have hsame₂ : V₁.SameNames n V₂ :=
    Vol.SameNames.of_fields hsuper (fun m hm => by rw [hent m hm]; exact ⟨rfl, rfl, rfl⟩) hf₁.lt
  have hbytes : V₂.fileBytes (n :: l) 0 buff.length = buff := by
    refine List.ext_getElem (by simp [Vol.fileBytes]) fun i hi hi' => ?_
    have hlast := Vol.poke_byte_last (V₁.fref (n :: l)) buff V₁ 0 i hi' fun j hj hij _ => by omega
    rw [List.getD_eq_getElem _ _ hi', Nat.zero_add, ← hV₂] at hlast
    simp only [Vol.fileBytes, List.getElem_map, List.getElem_range, Vol.fileByte, hfref, Nat.zero_add]
    exact hlast
  have hholds : V₂.Holds n (n :: l) buff := by
    refine ⟨⟨hgeo, rfl, hchain, fun x hx => ?_, hrefs, ?_⟩, hbytes⟩
    · rw [hent x (hf₁.chain.lt x hx)]
      exact hf₁.flags x hx
    · rw [hent n hf₁.lt]
      exact hf₁.size
  obtain ⟨hsame₃, hholds₃⟩ := hholds.setTime (fun i hi => by rw [hfirst, hfref]; exact hdata i hi) (s.clock 0)
  have hready : Ready env { s with clock := fun k => s.clock (k + 1) } d := ⟨hr.disk, hr.present, hr.faults, hr.fuel⟩
  have hfuel := hr.fuel
  have hnent := hgeo.nent_lt
  have hchlen := hchain.length_le
  rw [List.length_cons] at hchlen
  have htime := setTimeLoop_run hready (s.clock 0) env.fuel n l V₂ hgeo hchain (by omega)
  have hset : (setEntryTimeToCurrent env d n).run (s.withVol d V₂) = .ok ()
      (Sys.withVol { s with clock := fun k => s.clock (k + 1) } d (V₂.updEnts (n :: l) fun _ e => e.setTime (s.clock 0))) := htime
  simp only at h₄
  rw [bind_ok hset, run_pure] at h₄
  cases h₄
  exact ⟨_, _, n :: l, rfl, hready, (hsame₁.trans hsame₂).trans hsame₃, hholds₃⟩

/-! ## Reading -/

/-- `fs_read_file` of a file that is found under its name in the root directory. -/
theorem fsReadFile_holds (hr : Ready env s env.systemDisk) {V : Vol} {n : Nat} {ch : List Nat} {buff : List UInt8}
    (h : V.Holds n ch buff) {name : CStr} (hdisk : stringIsDisk name = false) (hsep : pathSeparator ∉ name)
    (hlook : V.lookup 0 name = some n) (hfits : buff.length ≤ 512) (offset count : Nat) :
    (fsReadFile env name offset count).run (s.withVol env.systemDisk V) =
      .ok ((buff.drop offset).take count) (s.withVol env.systemDisk V) := by
  obtain ⟨l, rfl⟩ := h.file.cons
  have hsize := h.file.size
  have hd : pathGetDisk env name = env.systemDisk := pathGetDisk_of_not_mem env hdisk hsep
  have hres : V.resolve env name = some n := by
    rw [Vol.resolve, hdisk, if_neg Bool.false_ne_true, if_neg hsep, hlook]
  have hget := fsGetEntry_run hr h.file.geo hd
  rw [hres] at hget
  have hisFile : (V.ent n).isFile = true := (Block.isFile_of_flags (h.file.flags n (by simp))).1
  have hrun := fsReadFile_run hr h.file.geo h.file.chain h.file.refs hd hget hisFile (by omega) offset count
  rwa [hsize, h.bytes] at hrun

/-! ## A new item of the root directory -/

/-- `set_entry_size` fails on a chain that is longer than the size needs. -/
theorem setSizeLoop_long (hr : Ready env s d) (u : Nat) :
    ∀ (l : List Nat) (fuel a size : Nat) (V : Vol), V.Geo → V.IsChain (a :: l) → (∀ x ∈ a :: l, (V.ent x).unit = u) → l ≠ [] →
      size ≤ u * l.length → ∀ s', (setSizeLoop env d fuel a size).run (s.withVol d V) ≠ .ok () s' := by
  intro l
  induction l with
  | nil => exact fun _ _ _ _ _ _ _ h => absurd rfl h
  | cons b l ih =>
    intro fuel a size V hg hc hu _ hsize s' h
    have hn := hg.nent_lt
    have ha : a < V.nent := hc.lt a (by simp)
    obtain ⟨hab, hnd⟩ := List.nodup_cons.1 hc.nodup
    have hnext : (V.ent a).next.toNat = b := hc.linked.1
    have hb : b ≠ 0 := hc.linked.2.1
    have hua : ((V.ent a).setSize size).unit = u := hu a (by simp)
    cases fuel with
    | zero => cases h
    | succ fuel =>
      rw [setSizeLoop, bind_ok (getEntryN_run hr V (by omega))] at h
      simp only [sizeLeft_eq, hua] at h
      rw [bind_ok (writeEntry_run hr V (by omega) _)] at h
      simp only [Block.setSize_fields, hnext, run_failIf_bind] at h
      split_ifs at h with hfail
      have hlen : u < size := by omega
      have hlt : ∀ x ∈ b :: l, x ≠ a := fun x hx hxa => hab (hxa ▸ hx)
      have hc' : (V.setEnt a ((V.ent a).setSize size)).IsChain (b :: l) := by
        refine hc.tail.congr (by simp) (fun x hx => ?_) fun x hx => ?_
        · rw [Vol.ent_setEnt_ne _ _ (hlt x hx)]
        · rw [Vol.ent_setEnt_ne _ _ (hlt x (List.mem_cons_of_mem _ hx))]
      have hu' : ∀ x ∈ b :: l, ((V.setEnt a ((V.ent a).setSize size)).ent x).unit = u := by
        intro x hx
        rw [Vol.ent_setEnt_ne _ _ (hlt x hx)]
        exact hu x (List.mem_cons_of_mem _ hx)
      have hsize' : size - u ≤ u * l.length := by
        rw [List.length_cons, Nat.mul_succ] at hsize
        omega
      have hl : l ≠ [] := by
        rintro rfl
        rw [List.length_nil, Nat.mul_zero] at hsize'
        omega
      exact ih fuel b (size - u) _ (hg.setEnt _ _) hc' hu' hl hsize' s' h

/-- `set_entry_size` of a directory, when it does not fail, changes the sizes of the chain and nothing else. -/
theorem setEntrySize_dirs (hr : Ready env s d) {V : Vol} (hg : V.Geo) {a size : Nat} {l : List Nat} (hc : V.IsChain (a :: l))
    (hdir : ∀ x ∈ a :: l, (V.ent x).flags = tDir) (hsize : size ≤ 120 * (l.length + 1)) {s' : Sys}
    (h : (setEntrySize env d a size).run (s.withVol d V) = .ok () s') :
    ∃ V', s' = s.withVol d V' ∧ V.AgreeOff (a :: l) V' ∧ ∀ x, (V'.ent x).name = (V.ent x).name := by
  have hfuel := hr.fuel
  have hn := hg.nent_lt
  have hlen := hc.length_le
  rw [List.length_cons] at hlen
  have hunit : ∀ x ∈ a :: l, (V.ent x).unit = 120 := by
    intro x hx
    obtain ⟨hisDir, hisFile⟩ := Block.isDir_of_flags (hdir x hx)
    rw [Block.unit, hisFile, hisDir, if_neg Bool.false_ne_true, if_pos rfl]
    rfl
  by_cases hlong : l ≠ [] ∧ size ≤ 120 * l.length
  · exact absurd h (setSizeLoop_long hr 120 l env.fuel a size V hg hc hunit hlong.1 hlong.2 s')
  · have hrun := setSizeLoop_run hr 120 env.fuel a l V size hg hc (by omega) hunit hsize fun hl => by
      by_contra hle
      exact hlong ⟨hl, by omega⟩
    have hsys := hrun.symm.trans h
    cases hsys
    refine ⟨_, rfl, Vol.agreeOff_updEnts _ _ _, fun x => ?_⟩
    rw [Vol.ent_updEnts]
    split_ifs
    · rfl
    · rfl

/-- A new item of the root directory: the entries of its chain change, but not their names, and the chain may get another entry
that was free. -/
theorem addRefInEntry_root (hr : Ready env s d) {V : Vol} (hg : V.Geo) {l : List Nat} (hc : V.IsChain (0 :: l))
    (hdir : ∀ x ∈ 0 :: l, (V.ent x).flags = tDir) {name : CStr} (hname : ∀ x ∈ 0 :: l, (V.ent x).nameStr = name)
    (hsize : (V.ent 0).size.toNat ≤ 120 * (l.length + 1)) {ref : Nat} {s' : Sys}
    (h : (addRefInEntry env d 0 ref).run (s.withVol d V) = .ok () s') :
    ∃ V' c', s' = s.withVol d V' ∧ V.AgreeOff c' V' ∧ (∀ x ∈ c', x ∈ 0 :: l ∨ (V.ent x).used = false) ∧
      ∀ x ∈ c', (V'.ent x).nameStr = name := by
  have hn := hg.nent_lt
  have hlen := hc.length_le
  rw [List.length_cons] at hlen
  obtain ⟨hisDir, hisFile⟩ := Block.isDir_of_flags (hdir 0 (by simp))
  obtain ⟨z, hz⟩ : ∃ z, z = (V.ent 0).size.toNat := ⟨_, rfl⟩
  rw [← hz] at hsize
  have hcount : getEntryRefcount (V.ent 0) = z := by
    rw [getEntryRefcount, hisFile, hisDir, if_neg Bool.false_ne_true, if_pos rfl, hz]
  have hwrap : wrap32 (z + 1) = z + 1 := wrap32_of_lt (by omega)
  have hroot : (V.ent 0).used = true := Block.used_of_isDir hisDir
  have hget := getNrefEntryFromEntry_run hr hg hc z
  rw [addRefInEntry, bind_ok (getEntryN_run hr V (by omega)), hcount] at h
  cases hplace : (0 :: l)[z / 120]? with
  | some b =>
    -- the chain has room
    have hb : b ∈ 0 :: l := List.mem_of_getElem? hplace
    have hbl := hc.lt b hb
    have hz120 := (List.getElem?_eq_some_iff.1 hplace).1
    rw [List.length_cons] at hz120
    rw [hplace] at hget
    rw [bind_ok (attempt_ok hget)] at h
    simp only at h
    rw [bind_ok (run_pure _ _)] at h
    simp only at h
    rw [bind_ok (writeEntry_run hr V (by omega) _), hisDir, if_pos rfl, ← hz, hwrap] at h
    obtain ⟨V₁, hV₁⟩ : ∃ V₁ : Vol, V₁ = V.setEnt b ((V.ent b).setRef (z % sfsEntryRefs) ref) := ⟨_, rfl⟩
    have hfields : ∀ x, (V₁.ent x).flags = (V.ent x).flags ∧ (V₁.ent x).name = (V.ent x).name ∧
        (V₁.ent x).next = (V.ent x).next ∧ (V₁.ent x).parent = (V.ent x).parent := by
      intro x
      rw [hV₁, Vol.ent_setEnt]
      split_ifs with hx
      · rw [hx]
        exact ⟨rfl, rfl, rfl, rfl⟩
      · exact ⟨rfl, rfl, rfl, rfl⟩
    have hagree₁ : V.AgreeOff (0 :: l) V₁ := by
      rw [hV₁]
      exact (Vol.agreeOff_setEnt V b _).mono fun x hx => List.mem_singleton.1 hx ▸ hb
    rw [← hV₁] at h
    obtain ⟨V', rfl, hagree, hnames⟩ := setEntrySize_dirs hr (hagree₁.geo hg)
      (hc.congr hagree₁.nent (fun x _ => (hfields x).2.2.1) fun x _ => (hfields x).2.2.2)
      (fun x hx => (hfields x).1.trans (hdir x hx)) (by omega) h
    refine ⟨V', 0 :: l, rfl, hagree₁.trans hagree, fun x hx => Or.inl hx, fun x hx => ?_⟩
    have hsame : (V'.ent x).nameStr = (V.ent x).nameStr := by
      unfold Block.nameStr
      rw [hnames x, (hfields x).2.1]
    rw [hsame]
    exact hname x hx
  | none =>
    -- the chain is full, and gets another entry
    have hz120 := List.getElem?_eq_none_iff.1 hplace
    rw [List.length_cons] at hz120
    have hzlen : z = 120 * (l.length + 1) := by omega
    rw [hplace] at hget
    rw [bind_ok (attempt_error hget)] at h
    simp only at h
    rw [run_failIf_bind, if_neg (not_not.2 rfl), hwrap] at h
    obtain ⟨u, s₂, h₃, h₂⟩ := bind_eq_ok h
    have hneeded : chainEntries (z + 1) = l.length + 2 := by
      unfold chainEntries
      rw [neededEntries_eq]
      omega
    have hused : ∀ x ∈ 0 :: l, (V.ent x).used = true := fun x hx => Block.used_of_isDir (Block.isDir_of_flags (hdir x hx)).1
    rcases setEntryRefcount_extend hr hg hroot hc hused (r := z + 1) (by omega) with
      ⟨c', V₁, hlen', hre, hrun⟩ | ⟨c', V₁, -, -, -, -, hrun⟩
    · have hsys := hrun.symm.trans h₃
      cases hsys
      have hpre : 0 :: l <+: c' := by
        rcases hre.shape with hle | hle
        · have := hle.length_le
          rw [List.length_cons] at this
          omega
        · exact hle
      obtain ⟨new, rfl⟩ := hpre
      have hg₁ := hre.agree.geo hg
      have hn₁ := hg₁.nent_lt
      rw [bind_ok (getEntryN_run hr V₁ (show noError < 8388606 by decide)), bind_ok (run_pure _ _)] at h₂
      simp only at h₂
      rw [bind_ok (writeEntry_run hr V₁ (show noError < 8388606 by decide) _), hisDir, if_pos rfl, ← hz, hwrap] at h₂
      obtain ⟨V₂, hV₂⟩ : ∃ V₂ : Vol, V₂ = V₁.setEnt noError ((V₁.ent noError).setRef (z % sfsEntryRefs) ref) := ⟨_, rfl⟩
      rw [← hV₂] at h₂
      have hfields : ∀ x, (V₂.ent x).flags = (V₁.ent x).flags ∧ (V₂.ent x).name = (V₁.ent x).name ∧
          (V₂.ent x).next = (V₁.ent x).next ∧ (V₂.ent x).parent = (V₁.ent x).parent := by
        intro x
        rw [hV₂, Vol.ent_setEnt]
        split_ifs with hx
        · rw [hx]
          exact ⟨rfl, rfl, rfl, rfl⟩
        · exact ⟨rfl, rfl, rfl, rfl⟩
      have hkind : ∀ x ∈ 0 :: l ++ new, (V₁.ent x).flags = tDir ∧ (V₁.ent x).nameStr = name := by
        intro x hx
        unfold Block.nameStr at hname ⊢
        by_cases hxl : x ∈ 0 :: l
        · obtain ⟨h1, h2, -⟩ := hre.kept x hx hxl
          rw [h1, h2]
          exact ⟨hdir x hxl, hname x hxl⟩
        · obtain ⟨-, -, b, hb, h1, h2, -⟩ := hre.added x hx hxl
          have hbl := List.mem_of_getLast? hb
          rw [h1, h2]
          exact ⟨hdir b hbl, hname b hbl⟩
      have hagree₂ : V₁.AgreeOff (0 :: l ++ new) V₂ := by
        rw [hV₂]
        exact (Vol.agreeOff_setEnt V₁ noError _).mono fun x hx => by
          rw [List.mem_singleton.1 hx]
          exact List.mem_append_left _ List.mem_cons_self
      have hchain : V₂.IsChain (0 :: (l ++ new)) := by
        rw [List.cons_append] at hre
        exact hre.chain.congr hagree₂.nent (fun x _ => (hfields x).2.2.1) fun x _ => (hfields x).2.2.2
      rw [List.length_append, List.length_cons] at hlen'
      obtain ⟨V', rfl, hagree, hnames⟩ := setEntrySize_dirs hr (hagree₂.geo hg₁) hchain
        (fun x hx => (hfields x).1.trans (hkind x hx).1) (by rw [List.length_append]; omega) h₂
      have hfirst : V.AgreeOff (0 :: l ++ new) V₁ := hre.agree.mono fun x hx => by
        rcases List.mem_append.1 hx with hx | hx
        · exact List.mem_append_left _ hx
        · exact hx
      refine ⟨V', 0 :: l ++ new, rfl, (hfirst.trans hagree₂).trans hagree, fun x hx => ?_, fun x hx => ?_⟩
      · by_cases hxl : x ∈ 0 :: l
        · exact Or.inl hxl
        · exact Or.inr (hre.added x hx hxl).1
      · have hsame : (V'.ent x).nameStr = (V₁.ent x).nameStr := by
          unfold Block.nameStr
          rw [hnames x, (hfields x).2.1]
        rw [hsame]
        exact (hkind x hx).2
    · have hsys := hrun.symm.trans h₃
      cases hsys

/-! ## The call -/

/-- A name that `string_to_name` leaves as it is, and that is not the name of a disk. -/
structure IsName (name : CStr) : Prop where
  ne : name ≠ []
  length : name.length < sfsNameSize
  chars : stringToName name = name
  notDisk : stringIsDisk name = false

theorem IsName.not_mem {name : CStr} (h : IsName name) : pathSeparator ∉ name ∧ 0 ∉ name := by
  have hno := stringToName_not_mem name
  rwa [h.chars] at hno

/-- The parts of a path that is a name. -/
theorem Vol.parse_name (env : Env) (V : Vol) {name : CStr} (h : IsName name) :
    V.parse env name = some { disk := env.systemDisk, parent := 0, name := 0 } := by
  have hlen := h.length
  unfold sfsNameSize at hlen
  have hpos := List.length_pos_iff.2 h.ne
  have htok : tokPath name = name := List.take_of_length_le (by omega)
  obtain ⟨fuel, hfuel⟩ : ∃ fuel, name.length = fuel + 1 := ⟨name.length - 1, by omega⟩
  have hlast := @Vol.parseLoop_last V fuel 0 0 name [] { disk := env.systemDisk, parent := 0, name := 0 }
    ⟨h.ne, h.not_mem.1⟩ (fun _ => h.notDisk) (Or.inl rfl)
  rw [List.append_nil] at hlast
  rw [Vol.parse, htok, hfuel]
  exact hlast

/-- The fields of a new entry. -/
theorem newEntry_fields (flags : UInt8) {parent : Nat} (hp : parent < 4294967296) {name : CStr} (hlen : name.length < 15)
    (h0 : 0 ∉ name) :
    (newEntry flags parent name).flags = flags ∧ (newEntry flags parent name).parent.toNat = parent ∧
      (newEntry flags parent name).nameStr = name ∧ (newEntry flags parent name).size.toNat = 0 ∧
        (newEntry flags parent name).next.toNat = 0 ∧ ∀ i, (newEntry flags parent name).refAt i = 0 := by
  refine ⟨rfl, Block.toNat_setParent { Block.zero with flags := flags } hp, Block.nameStr_setName _ hlen h0, rfl, rfl, fun i => ?_⟩
  exact congrFun Block.zero_fields.2.2.2.2.2.2.2.2 i

/-- The file that `fs_write_file` finds under a name in the root directory. -/
theorem openFile_found {C : Nat → List Nat} (hr : Ready env s env.systemDisk) {V : Vol} (hw : V.WellFormed C) {name : CStr}
    (hname : IsName name) {n : Nat} (hlook : V.lookup 0 name = some n) (flags : Nat) {r : Nat × Nat × SfsEntry × CStr} {s' : Sys}
    (h : (openFile env name flags).run (s.withVol env.systemDisk V) = .ok r s') :
    r = (env.systemDisk, n, V.ent n, name) ∧ s' = s.withVol env.systemDisk V ∧ V.FileOf n (C n) (V.ent n).size.toNat := by
  obtain ⟨hsep, -⟩ := hname.not_mem
  have hd : pathGetDisk env name = env.systemDisk := pathGetDisk_of_not_mem env hname.notDisk hsep
  have hres : V.resolve env name = some n := by
    rw [Vol.resolve, hname.notDisk, if_neg Bool.false_ne_true, if_neg hsep, hlook]
  have hget := fsGetEntry_run hr hw.geo hd
  rw [hres] at hget
  rw [openFile, bind_ok (attempt_ok hget)] at h
  simp only [run_failIf_bind, hd] at h
  split_ifs at h with hdir
  cases h
  have hnotDir : (V.ent n).flags ≠ tDir := fun hk => hdir (Block.isDir_of_flags hk).1
  obtain ⟨hn, hmatch, -⟩ := Vol.lookup_eq_some.1 hlook
  rcases (hw.matches_iff (hw.place_head hw.root.1)).1 ⟨hn, hmatch⟩ with ⟨-, hne, -⟩ | ⟨hq, -⟩
  · refine ⟨rfl, rfl, hw.geo, hw.head n hne, hw.chain n hne, fun x hx => ?_, ?_, rfl⟩
    · rcases hw.kind n hne with hk | hk
      · exact absurd hk hnotDir
      · exact (hw.flags n x hx).trans hk
    · rcases hw.kind n hne with hk | hk
      · exact absurd hk hnotDir
      · exact hw.refs n hne hk
  · exact absurd ((hw.flags 0 n (List.mem_of_getElem? hq)).trans hw.root.2.1) hnotDir

/-- The file that `fs_write_file` creates under a name in the root directory. -/
theorem openFile_created {C : Nat → List Nat} (hr : Ready env s env.systemDisk) {V : Vol} (hw : V.WellFormed C) {name : CStr}
    (hname : IsName name) (hlook : V.lookup 0 name = none) (flags : Nat) {r : Nat × Nat × SfsEntry × CStr} {s' : Sys}
    (h : (openFile env name flags).run (s.withVol env.systemDisk V) = .ok r s') :
    ∃ V' n, r = (env.systemDisk, n, V'.ent n, name) ∧ s' = s.withVol env.systemDisk V' ∧ V'.FileOf n [n] 0 ∧
      V'.lookup 0 name = some n := by
  obtain ⟨hsep, hzero⟩ := hname.not_mem
  have hnent := hw.geo.nent_lt
  have hd : pathGetDisk env name = env.systemDisk := pathGetDisk_of_not_mem env hname.notDisk hsep
  have hres : V.resolve env name = none := by
    rw [Vol.resolve, hname.notDisk, if_neg Bool.false_ne_true, if_neg hsep, hlook]
  have hget := fsGetEntry_run hr hw.geo hd
  rw [hres] at hget
  have hparse := pathParse_run hr hw.geo hd
  rw [Vol.parse_name env V hname] at hparse
  rw [openFile, bind_ok (attempt_error hget)] at h
  simp only [run_failIf_bind] at h
  split_ifs at h
  rw [createFile, bind_ok hparse] at h
  simp only [List.drop_zero, hname.chars] at h
  rw [run_bind, findFreeEntry_run hr hw.geo] at h
  cases hfree : V.freeEntry with
  | none =>
    rw [hfree] at h
    cases h
  | some f =>
    rw [hfree] at h
    simp only at h
    obtain ⟨hf, hunused, -⟩ := Vol.freeEntry_eq_some.1 hfree
    obtain ⟨l, hl⟩ := hw.cons hw.root.1
    have hrootDir : ∀ x ∈ 0 :: l, (V.ent x).flags = tDir := fun x hx => (hw.flags 0 x (hl ▸ hx)).trans hw.root.2.1
    have hrootName : ∀ x ∈ 0 :: l, (V.ent x).nameStr = rootDirName := fun x hx =>
      (hw.names 0 x (hl ▸ hx)).trans hw.root.2.2.2
    have hchain : V.IsChain (0 :: l) := hl ▸ hw.chain 0 hw.root.1
    have hfout : f ∉ 0 :: l := fun hm => by
      have := Block.used_of_isDir (Block.isDir_of_flags (hrootDir f hm)).1
      rw [hunused] at this
      cases this
    obtain ⟨e, he⟩ : ∃ e : SfsEntry, e = newEntry tFile 0 name := ⟨_, rfl⟩
    obtain ⟨heflags, heparent, hename, hesize, henext, herefs⟩ :=
      newEntry_fields tFile (show 0 < 4294967296 by decide) hname.length hzero
    rw [← he] at heflags heparent hename hesize henext herefs
    have heused : e.used = true := Block.used_of_isFile (Block.isFile_of_flags heflags).1
    rw [← he, bind_ok (writeEntry_run hr V (by omega) _), heparent] at h
    obtain ⟨V₁, hV₁⟩ : ∃ V₁ : Vol, V₁ = V.setEnt f e := ⟨_, rfl⟩
    rw [← hV₁] at h
    have hself : V₁.ent f = e := by rw [hV₁, Vol.ent_setEnt_self]
    have hother : ∀ x ≠ f, V₁.ent x = V.ent x := fun x hx => by rw [hV₁, Vol.ent_setEnt_ne _ _ hx]
    have hroot : ∀ x ∈ 0 :: l, V₁.ent x = V.ent x := fun x hx => hother x fun hxf => hfout (hxf ▸ hx)
    have hgeo₁ : V₁.Geo := hV₁ ▸ hw.geo.setEnt f e
    have hnent₁ : V₁.nent = V.nent := by rw [hV₁, Vol.nent_setEnt]
    have hsize := hw.fits 0 hw.root.1
    rw [Block.capacity, hw.root.2.1, if_neg (by decide), hl, List.length_cons] at hsize
    obtain ⟨u, s₁, h₁, h₂⟩ := bind_eq_ok h
    obtain ⟨V₂, ch, rfl, hagree, hshape, hnames⟩ := addRefInEntry_root hr hgeo₁
      (hchain.congr hnent₁ (fun x hx => by rw [hroot x hx]) fun x hx => by rw [hroot x (List.mem_cons_of_mem _ hx)])
      (fun x hx => by rw [hroot x hx]; exact hrootDir x hx) (fun x hx => by rw [hroot x hx]; exact hrootName x hx)
      (by rw [hroot 0 List.mem_cons_self]; exact hsize) h₁
    cases h₂
    have hfch : f ∉ ch := fun hm => by
      rcases hshape f hm with hr0 | hu
      · exact hfout hr0
      · rw [hself, heused] at hu
        cases hu
    have hent : V₂.ent f = e := (hagree.ent hfch).trans hself
    have hne : name ≠ rootDirName := by
      rintro rfl
      refine Vol.lookup_eq_none.1 hlook 0 hw.geo.root ?_
      have hpar : (V.ent 0).parent.toNat = 0 := hw.root.2.2.1
      unfold Block.matches
      rw [Block.used_of_isDir (Block.isDir_of_flags hw.root.2.1).1, hpar, hw.root.2.2.2]
      rfl
    have hnent₂ : V₂.nent = V.nent := hagree.nent.trans hnent₁
    refine ⟨V₂, f, ?_, rfl, ⟨hagree.geo hgeo₁, rfl, ⟨?_, List.nodup_singleton f, ?_⟩, ?_, fun i => Or.inl ?_, ?_⟩,
      Vol.lookup_eq_some.2 ⟨hnent₂ ▸ hf, ?_, fun m hm hmatch => ?_⟩⟩
    · rw [hent, renamedPath, List.take_zero, List.drop_zero, hname.chars, List.nil_append]
    · rw [Linked, Vol.next, hent, henext]
    · intro x hx
      rw [List.mem_singleton.1 hx, hnent₂]
      exact hf
    · intro x hx
      rw [List.mem_singleton.1 hx, hent, heflags]
    · by_cases hi : i < 120
      · have hget := V₂.fref_of_get (show [f][0]? = some f from rfl) i hi
        rw [Nat.mul_zero, Nat.zero_add] at hget
        rw [hget, hent, herefs]
      · exact V₂.fref_of_le (by rw [List.length_singleton]; omega)
    · rw [hent, hesize]
    · unfold Block.matches
      rw [hent, heused, heparent, hename]
      simp
    · by_cases hmc : m ∈ ch
      · unfold Block.matches at hmatch
        rw [hnames m hmc] at hmatch
        simp only [Bool.and_eq_true, beq_iff_eq] at hmatch
        exact hne hmatch.2.symm
      · rw [hagree.ent hmc, hother m (Nat.ne_of_lt hm)] at hmatch
        exact Vol.lookup_eq_none.1 hlook m (Nat.lt_trans hm hf) hmatch

/-- `fs_write_file` of a file in the root directory of the system disk, when it is all the file and fits in one block: if it does not
fail, the file is found with the bytes that have been written. -/
theorem fsWriteFile_one {C : Nat → List Nat} (hr : Ready env s env.systemDisk) {V : Vol} (hw : V.WellFormed C) {name : CStr}
    (hname : IsName name) {buff : List UInt8} (hpos : buff ≠ []) (hlen : buff.length ≤ 512) {r : Nat × CStr} {s' : Sys}
    (h : (fsWriteFile env buff name 0 (wfCreate ||| wfTruncate)).run (s.withVol env.systemDisk V) = .ok r s') :
    ∃ s₁ V' n ch, s' = s₁.withVol env.systemDisk V' ∧ Ready env s₁ env.systemDisk ∧ V'.lookup 0 name = some n ∧
      V'.Holds n ch buff := by
  rw [fsWriteFile] at h
  obtain ⟨p, s₁, h₁, h₂⟩ := bind_eq_ok h
  obtain ⟨V₁, n, ch, size, rfl, rfl, hf, hfound⟩ : ∃ V₁ n ch size, p = (env.systemDisk, n, V₁.ent n, name) ∧
      s₁ = s.withVol env.systemDisk V₁ ∧ V₁.FileOf n ch size ∧ V₁.lookup 0 name = some n := by
    cases hlook : V.lookup 0 name with
    | none =>
      obtain ⟨V₁, n, h3, h4, h5, h6⟩ := openFile_created hr hw hname hlook _ h₁
      exact ⟨V₁, n, [n], 0, h3, h4, h5, h6⟩
    | some n =>
      obtain ⟨h3, h4, h5⟩ := openFile_found hr hw hname hlook _ h₁
      exact ⟨V, n, C n, _, h3, h4, h5, hlook⟩
  obtain ⟨written, s₂, h₃, h₄⟩ := bind_eq_ok h₂
  obtain ⟨s₃, V₂, ch', rfl, hr₃, hsame, hholds⟩ := writeFileAt_one hr hf hpos hlen h₃
  cases h₄
  exact ⟨s₃, V₂, n, ch', rfl, hr₃, hsame.lookup hfound, hholds⟩

end Run

end NanoS32
