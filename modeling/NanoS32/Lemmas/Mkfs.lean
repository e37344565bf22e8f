import NanoS32.Fstools.Mkfs
import NanoS32.Lemmas.Data

/-!
# The entries and blocks of an image

What the loops of `mkfs` leave in the table and in the image. A file takes entries and blocks that follow each other. While it is
read, the table holds the entries that a file of the bytes read so far has.
-/

namespace NanoS32

/-- The number of blocks of a file. -/
def fileBlocks (len : Nat) : Nat := (len + 511) / 512

/-- The number of entries of a file. -/
def fileEntries (len : Nat) : Nat := max 1 ((fileBlocks len + 119) / 120)

/-- Entry `k` of a file of `len` bytes whose entries and blocks start at `e` and `b`. -/
def imageEntry (name : CStr) (e b len k : Nat) : SfsEntry :=
  { flags := tFile
    name := (Block.zero.copyName name).name
    time := 0
    size := UInt32.ofNat (len - 61440 * k)
    parent := UInt32.ofNat (if k = 0 then 0 else e + k - 1)
    next := UInt32.ofNat (if k + 1 < fileEntries len then e + k + 1 else 0)
    ref := fun i => UInt32.ofNat (if 120 * k + i.val < fileBlocks len then b + 120 * k + i.val else 0) }

/-- The table with the entries of a file put into it. -/
def placeFile (table : Nat → SfsEntry) (name : CStr) (e b len : Nat) : Nat → SfsEntry := fun n =>
  if e ≤ n ∧ n < e + fileEntries len then imageEntry name e b len (n - e) else table n

/-! ## One block -/

theorem addSizes_apply (e cc : Nat) : ∀ (k : Nat) (table : Nat → SfsEntry) (n : Nat),
    addSizes e cc k table n = if e ≤ n ∧ n < e + k then (table n).setSize ((table n).size.toNat + cc) else table n := by
  intro k
  induction k with
  | zero =>
    intro table n
    rw [addSizes, if_neg (by omega)]
  | succ k ih =>
    intro table n
    rw [addSizes, ih]
    by_cases hn : n = e + k
    · rw [hn, Function.update_self, if_neg (by omega), if_pos (by omega)]
    · rw [Function.update_of_ne hn]
      by_cases h : e ≤ n ∧ n < e + k
      · rw [if_pos h, if_pos (by omega)]
      · rw [if_neg h, if_neg (by omega)]

/-- The blocks of a file after one block more. -/
theorem fileBlocks_add {j cc : Nat} (h1 : 0 < cc) (h2 : cc ≤ 512) : fileBlocks (512 * j + cc) = j + 1 := by
  unfold fileBlocks
  omega

theorem fileBlocks_mul (j : Nat) : fileBlocks (512 * j) = j := by
  unfold fileBlocks
  omega

theorem fileEntries_add {j cc : Nat} (h1 : 0 < cc) (h2 : cc ≤ 512) : fileEntries (512 * j + cc) = j / 120 + 1 := by
  rw [fileEntries, fileBlocks_add h1 h2]
  omega

/-- The name of an entry, as it is copied. -/
theorem Block.copyName_zero (str : CStr) : (Block.zero.copyName str).name = (Block.zero.setName str).name := by
  funext k
  change (if k.val < 14 then (str.take 14).getD k 0 else 0) = (str.take 14).getD k 0
  by_cases hk : k.val < 14
  · rw [if_pos hk]
  · rw [if_neg hk, List.getD_eq_default _ _ (by rw [List.length_take]; omega)]

/-- Only 14 characters of a name are copied. -/
theorem Block.copyName_take (entry : SfsEntry) (str : CStr) : entry.copyName (str.take 14) = entry.copyName str := by
  rw [Block.copyName, Block.copyName, show sfsNameSize - 1 = 14 from rfl, List.take_take]
  rfl

section Names

variable {name : CStr} (hlen : name.length < 15) (hzero : 0 ∉ name) (e b len k : Nat)

include hlen hzero

theorem nameStr_imageEntry : (imageEntry name e b len k).nameStr = name := by
  have h : (imageEntry name e b len k).nameStr = (Block.zero.setName name).nameStr := by
    rw [Block.nameStr, Block.nameStr]
    exact congrArg (fun f => (List.ofFn f).takeWhile (· != 0)) (Block.copyName_zero name)
  rw [h, Block.nameStr_setName _ hlen hzero]

theorem name_imageEntry (hne : name ≠ []) : (imageEntry name e b len k).name 0 ≠ 0 := by
  intro h
  have hname := nameStr_imageEntry hlen hzero e b len k
  rw [Block.nameStr, List.ofFn_succ, h] at hname
  exact hne hname.symm

end Names

/-- The entry that is chained to a file. -/
theorem setFile_zero (name : CStr) (parent : Nat) :
    Block.zero.setFile name parent =
      { flags := tFile, name := (Block.zero.copyName name).name, time := 0, size := 0, parent := UInt32.ofNat parent, next := 0,
        ref := fun _ => 0 } := rfl

/-- A new entry does not change what is not the table. -/
theorem chainEntry_fields (st : MkfsState) (ec : Nat) :
    (chainEntry st ec).e = st.e ∧ (chainEntry st ec).b = st.b ∧ (chainEntry st ec).buf = st.buf ∧
      (chainEntry st ec).image = st.image := by
  rw [chainEntry]
  split_ifs <;> exact ⟨rfl, rfl, rfl, rfl⟩

section Chunk

variable {T : Nat → SfsEntry} {name : CStr} {e b j : Nat} (hlen : name.length < 15) (hzero : 0 ∉ name) (hne : name ≠ [])
  (hT : ∀ n, e < n → T n = Block.zero)

include hlen hzero hne hT

/-- The table of `chainEntry` and the next reference in it, when the entries for `j` blocks are there. -/
theorem chainEntry_spec {st : MkfsState} (he : st.e = e) (htable : st.table = placeFile T name e b (512 * j))
    (hi : st.i = if j = 0 then 0 else (j - 1) % 120 + 1) :
    (chainEntry st (e + j / 120)).i = j % 120 ∧
      ∀ n, (chainEntry st (e + j / 120)).table n =
        if e ≤ n ∧ n ≤ e + j / 120 then
          { imageEntry name e b (512 * j) (n - e) with next := UInt32.ofNat (if n < e + j / 120 then n + 1 else 0) }
        else T n := by
  obtain ⟨k, hk⟩ : ∃ k, k = j / 120 := ⟨_, rfl⟩
  have hentries : fileEntries (512 * j) = max 1 ((j + 119) / 120) := by rw [fileEntries, fileBlocks_mul]
  have hname : ∀ n, e ≤ n → n < e + fileEntries (512 * j) → (st.table n).name 0 ≠ 0 := by
    intro n h1 h2
    rw [htable, placeFile, if_pos ⟨h1, h2⟩]
    exact name_imageEntry hlen hzero _ _ _ _ hne
  have hfree : ∀ n, e < n → e + fileEntries (512 * j) ≤ n → st.table n = Block.zero := by
    intro n h1 h2
    rw [htable, placeFile, if_neg (by omega), hT n h1]
  rw [← hk]
  by_cases hnew : st.e ≠ e + k ∧ (st.table (e + k)).name 0 = 0
  · -- a new entry: those that are there are full
    have hk0 : k ≠ 0 := by
      rintro rfl
      exact hnew.1 (by rw [he, Nat.add_zero])
    have hfull : fileEntries (512 * j) = k := by
      by_contra h
      exact hname (e + k) (by omega) (by omega) hnew.2
    rw [chainEntry, if_pos hnew]
    refine ⟨by simp only; omega, fun n => ?_⟩
    have hec : Function.update st.table (e + k - 1) ((st.table (e + k - 1)).setNext (e + k)) (e + k) = Block.zero := by
      rw [Function.update_of_ne (by omega), hfree _ (by omega) (by omega)]
    have hstr : (Function.update st.table (e + k - 1) ((st.table (e + k - 1)).setNext (e + k)) st.e).nameStr = name := by
      have hat : (st.table e).nameStr = name := by
        rw [htable, placeFile, if_pos ⟨Nat.le_refl _, by omega⟩]
        exact nameStr_imageEntry hlen hzero _ _ _ _
      by_cases h : e = e + k - 1
      · rw [he, ← h, Function.update_self]
        exact hat
      · rw [he, Function.update_of_ne h]
        exact hat
    dsimp only
    rw [hec, hstr, setFile_zero]
    by_cases hn : n = e + k
    · rw [hn, Function.update_self, if_pos (by omega), if_neg (by omega), Nat.add_sub_cancel_left, imageEntry, fileBlocks_mul, if_neg hk0,
        show 512 * j - 61440 * k = 0 by omega]
      have href : ∀ i : Fin 120, ¬120 * k + i.val < j := fun i => by omega
      simp only [href, if_false]
      rfl
    · rw [Function.update_of_ne hn]
      by_cases hin : e ≤ n ∧ n ≤ e + k
      · have hat : st.table n = imageEntry name e b (512 * j) (n - e) := by rw [htable, placeFile, if_pos (by omega)]
        rw [if_pos hin, if_pos (by omega)]
        by_cases hlast : n = e + k - 1
        · rw [hlast, Function.update_self, ← hlast, hat, show e + k = n + 1 by omega]
          rfl
        · have hnext : (if n - e + 1 < k then e + (n - e) + 1 else 0) = n + 1 := by
            rw [if_pos (by omega)]
            omega
          rw [Function.update_of_ne hlast, hat, imageEntry, hfull, hnext]
      · rw [if_neg hin, Function.update_of_ne (by omega), htable, placeFile, if_neg (by omega)]
  · have hmore : fileEntries (512 * j) = k + 1 := by
      by_contra h
      have hk0 : k ≠ 0 := by
        rintro rfl
        omega
      refine hnew ⟨by rw [he]; omega, ?_⟩
      rw [hfree _ (by omega) (by omega)]
      rfl
    rw [chainEntry, if_neg hnew]
    refine ⟨?_, fun n => ?_⟩
    · rw [hi]
      split_ifs with hj <;> omega
    · rw [htable, placeFile, hmore]
      by_cases hn : e ≤ n ∧ n ≤ e + k
      · have hnext : (if n - e + 1 < k + 1 then e + (n - e) + 1 else 0) = if n < e + k then n + 1 else 0 := by
          split_ifs <;> omega
        rw [if_pos (by omega), if_pos hn, imageEntry, hmore, hnext]
      · rw [if_neg (by omega), if_neg hn]

/-- The body of the loop over the blocks of a file. -/
theorem mkfsChunk_spec {st : MkfsState} (he : st.e = e) (htable : st.table = placeFile T name e b (512 * j))
    (hi : st.i = if j = 0 then 0 else (j - 1) % 120 + 1) (hb : st.b = b + j) (numentries : Nat) (hfit : e + j / 120 < numentries)
    (hsmall : 512 * j < 4294967296) (chunk : List UInt8) (h1 : 0 < chunk.length) (h2 : chunk.length ≤ 512) :
    ∃ st', mkfsChunk numentries st chunk = some st' ∧ st'.e = e ∧ st'.table = placeFile T name e b (512 * j + chunk.length) ∧
      st'.i = j % 120 + 1 ∧ st'.b = b + (j + 1) ∧ st'.image = wblock st.image (b + j) (readInto st.buf chunk) := by
  obtain ⟨ec, hec⟩ : ∃ ec, ec = st.e + (st.table st.e).size.toNat / (sfsEntryRefs * blockSize) := ⟨_, rfl⟩
  have hec' : ec = e + j / 120 := by
    have hsize : (st.table e).size.toNat = 512 * j := by
      have hpos : 0 < fileEntries (512 * j) := Nat.lt_of_lt_of_le Nat.one_pos (Nat.le_max_left _ _)
      rw [htable, placeFile, if_pos ⟨Nat.le_refl _, by omega⟩, Nat.sub_self, imageEntry, Nat.mul_zero, Nat.sub_zero]
      exact UInt32.toNat_ofNat_of_lt' (show 512 * j < 4294967296 by omega)
    rw [hec, he, hsize]
    simp only [sfsEntryRefs, blockSize]
    omega
  obtain ⟨st₁, hst₁⟩ : ∃ st₁, st₁ = chainEntry { st with buf := readInto st.buf chunk } ec := ⟨_, rfl⟩
  have he₀ : ({ st with buf := readInto st.buf chunk } : MkfsState).e = e := he
  obtain ⟨hi₁, htable₁⟩ := chainEntry_spec hlen hzero hne hT he₀ htable hi
  obtain ⟨he₁, hb₁, hbuf₁, himage₁⟩ := chainEntry_fields { st with buf := readInto st.buf chunk } ec
  rw [← hec', ← hst₁] at hi₁ htable₁
  rw [← hst₁] at he₁ hb₁ hbuf₁ himage₁
  rw [mkfsChunk]
  dsimp only
  rw [← hec, ← hst₁, if_neg (by rw [hi₁]; simp only [sfsEntryRefs]; omega), himage₁, hbuf₁, hb₁, he₁]
  dsimp only
  rw [he, hb, hi₁]
  have htables : addSizes e chunk.length (ec + 1 - e) (Function.update st₁.table ec ((st₁.table ec).setRef (j % 120) (b + j))) =
      placeFile T name e b (512 * j + chunk.length) := by
    funext n
    have hentries := fileEntries_add (j := j) h1 h2
    rw [addSizes_apply, placeFile, hentries]
    by_cases hn : e ≤ n ∧ n < e + (j / 120 + 1)
    · obtain ⟨m, rfl⟩ : ∃ m, n = e + m := ⟨n - e, by omega⟩
      have hsize : (UInt32.ofNat (512 * j - 61440 * m)).toNat + chunk.length = 512 * j + chunk.length - 61440 * m := by
        rw [UInt32.toNat_ofNat_of_lt' (show 512 * j - 61440 * m < 4294967296 by omega)]
        omega
      have hnext : (if e + m < ec then e + m + 1 else 0) = if m + 1 < j / 120 + 1 then e + m + 1 else 0 := by
        split_ifs <;> omega
      have htab := htable₁ (e + m)
      rw [if_pos (by omega), Nat.add_sub_cancel_left, imageEntry, hnext, fileBlocks_mul] at htab
      dsimp only at htab
      rw [if_pos (by omega), if_pos hn, Nat.add_sub_cancel_left, imageEntry, fileBlocks_add h1 h2, hentries]
      by_cases hm : e + m = ec
      · -- the last entry gets the reference
        rw [← hm, Function.update_self, htab]
        simp only [Block.setSize, Block.setRef, hsize]
        congr 1
        funext i
        have hj : j = 120 * m + j % 120 := by omega
        by_cases hij : i.val = j % 120
        · rw [if_pos hij, if_pos (by omega)]
          congr 1
          omega
        · have hlt : 120 * m + i.val < j ↔ 120 * m + i.val < j + 1 := by omega
          rw [if_neg hij]
          simp only [hlt]
      · rw [Function.update_of_ne hm, htab]
        simp only [Block.setSize, hsize]
        congr 1
        funext i
        rw [if_pos (by omega), if_pos (by omega)]
    · rw [if_neg (by omega), if_neg hn, Function.update_of_ne (by omega), htable₁, if_neg (by omega)]
  exact ⟨_, rfl, rfl, htables, rfl, rfl, rfl⟩

omit hlen hzero hne hT in
theorem wblock_eq {image : Nat → Block} {k : Nat} (hk : k < 8388608) (buf : List UInt8) :
    wblock image k buf = Function.update image k (Block.ofBytes fun i => buf.getD i 0) := by
  have hpos : wrap32 (k * blockSize) / blockSize = k := by
    simp only [wrap32, blockSize]
    omega
  rw [wblock, hpos]

omit hlen hzero hne hT in
theorem mkfsRead_nil (numentries fuel : Nat) (st : MkfsState) : mkfsRead numentries fuel [] st = some st := by
  cases fuel with
  | zero => rfl
  | succ fuel => rfl

/-- The loop over the blocks of a file, when `j` of them have been read. -/
theorem mkfsRead_eq (numentries : Nat) : ∀ (fuel : Nat) (data : List UInt8) (j : Nat) (st : MkfsState), data.length ≤ fuel →
    st.e = e → st.table = placeFile T name e b (512 * j) → (st.i = if j = 0 then 0 else (j - 1) % 120 + 1) → st.b = b + j →
    e + fileEntries (512 * j + data.length) ≤ numentries → b + fileBlocks (512 * j + data.length) ≤ 8388608 →
    ∃ st', mkfsRead numentries fuel data st = some st' ∧ st'.e = e ∧
      st'.table = placeFile T name e b (512 * j + data.length) ∧ st'.b = b + fileBlocks (512 * j + data.length) ∧
      (∀ k, (k < b + j ∨ st'.b ≤ k) → st'.image k = st.image k) ∧
      ∀ i < data.length, (st'.image (b + j + i / 512)).byte (i % 512) = data.getD i 0 := by
  intro fuel
  induction fuel with
  | zero =>
    intro data j st hfuel he htable _ hb _ _
    obtain rfl := List.eq_nil_of_length_eq_zero (Nat.le_zero.1 hfuel)
    refine ⟨st, rfl, he, htable, ?_, fun k _ => rfl, fun i hi => absurd hi (Nat.not_lt_zero i)⟩
    rw [List.length_nil, Nat.add_zero, fileBlocks_mul, hb]
  | succ fuel ih =>
    intro data j st hfuel he htable hi hb hfit hblocks
    rw [mkfsRead]
    by_cases hnil : data = []
    · rw [hnil, if_pos (by rfl)]
      refine ⟨st, rfl, he, htable, ?_, fun k _ => rfl, fun i hi => absurd hi (Nat.not_lt_zero i)⟩
      rw [List.length_nil, Nat.add_zero, fileBlocks_mul, hb]
    · have hpos : 0 < data.length := List.length_pos_of_ne_nil hnil
      have htake : (data.take blockSize).length = min 512 data.length := List.length_take
      rw [if_neg (by rw [← List.length_eq_zero_iff, htake]; omega)]
      have hj : j < fileBlocks (512 * j + data.length) := by
        unfold fileBlocks
        omega
      have hj' : j / 120 < fileEntries (512 * j + data.length) := by
        unfold fileEntries
        omega
      obtain ⟨st₁, hrun, he₁, htable₁, hi₁, hb₁, himage₁⟩ := mkfsChunk_spec hlen hzero hne hT he htable hi hb numentries
        (by omega) (by omega) (data.take blockSize) (by omega) (by omega)
      rw [htake] at htable₁
      rw [wblock_eq (by omega)] at himage₁
      rw [hrun]
      change ∃ st', mkfsRead numentries fuel (data.drop blockSize) st₁ = some st' ∧ _
      have hbyte : ∀ i < data.length, i < 512 → (st₁.image (b + j)).byte i = data.getD i 0 := by
        intro i hi hi'
        have hin : i < (data.take blockSize).length := by omega
        rw [himage₁, Function.update_self, Block.byte_ofBytes _ hi', readInto, List.getD_append _ _ _ _ hin,
          List.getD_eq_getElem _ _ hin, List.getElem_take, List.getD_eq_getElem]
      have hother : ∀ k, k ≠ b + j → st₁.image k = st.image k := fun k hk => by rw [himage₁, Function.update_of_ne hk]
      by_cases hlast : data.length ≤ 512
      · rw [Nat.min_eq_right hlast] at htable₁
        have hblocks' : fileBlocks (512 * j + data.length) = j + 1 := fileBlocks_add hpos hlast
        refine ⟨st₁, ?_, he₁, htable₁, by rw [hb₁, hblocks'], fun k hk => hother k (by omega), fun i hi => ?_⟩
        · rw [List.drop_eq_nil_of_le (by simp only [blockSize]; omega), mkfsRead_nil]
        · have hi' : i < 512 := Nat.lt_of_lt_of_le hi hlast
          rw [Nat.div_eq_of_lt hi', Nat.mod_eq_of_lt hi', Nat.add_zero]
          exact hbyte i hi hi'
      · have hdrop : (data.drop blockSize).length = data.length - 512 := List.length_drop
        have htotal : 512 * (j + 1) + (data.drop blockSize).length = 512 * j + data.length := by omega
        rw [Nat.min_eq_left (by omega), show 512 * j + 512 = 512 * (j + 1) by omega] at htable₁
        obtain ⟨st', hrun', he', htable', hb', hrest', hbytes'⟩ := ih (data.drop blockSize) (j + 1) st₁ (by omega) he₁ htable₁
          (by rw [hi₁, if_neg (Nat.succ_ne_zero j), Nat.add_sub_cancel]) hb₁ (by rw [htotal]; exact hfit)
          (by rw [htotal]; exact hblocks)
        rw [htotal] at htable' hb'
        refine ⟨st', hrun', he', htable', hb', fun k hk => ?_, fun i hi => ?_⟩
        · rw [hrest' k (by omega), hother k (by omega)]
        · by_cases hi' : i < 512
          · rw [Nat.div_eq_of_lt hi', Nat.mod_eq_of_lt hi', Nat.add_zero, hrest' _ (by omega)]
            exact hbyte i hi hi'
          · have hat := hbytes' (i - 512) (by omega)
            rw [show b + (j + 1) + (i - 512) / 512 = b + j + i / 512 by omega, show (i - 512) % 512 = i % 512 by omega,
              List.getD_eq_getElem _ _ (by omega), List.getElem_drop] at hat
            rw [hat, List.getD_eq_getElem _ _ hi]
            have hindex : blockSize + (i - 512) = i := by
              simp only [blockSize]
              omega
            simp only [hindex]

end Chunk

/-! ## One file -/

/-- The name that an image has for a file. -/
def HostFile.name (file : HostFile) : CStr := file.baseName.take 14

/-- A file has a name, and it is a string. -/
structure HostFile.Named (file : HostFile) : Prop where
  nonempty : file.baseName ≠ []
  zero : 0 ∉ file.baseName

theorem HostFile.Named.name {file : HostFile} (h : file.Named) : file.name.length < 15 ∧ 0 ∉ file.name ∧ file.name ≠ [] := by
  refine ⟨?_, fun h0 => h.zero (List.mem_of_mem_take h0), fun hnil => h.nonempty ?_⟩
  · rw [HostFile.name, List.length_take]
    omega
  · exact (List.take_eq_nil_iff.1 hnil).resolve_left (by decide)

/-- The scan for an entry with no name, after `m` entries that have one. -/
theorem skipNamed_eq (past : Nat) (table : Nat → SfsEntry) : ∀ (m k e : Nat), m ≤ k →
    (∀ n, e ≤ n → n < e + m → (table n).name 0 ≠ 0) → (m < k → (table (e + m)).name 0 = 0) →
      skipNamed past table k e = if m < k then e + m else e + m + past := by
  intro m
  induction m with
  | zero =>
    intro k e _ _ hfree
    cases k with
    | zero => rfl
    | succ k =>
      have hat : (table e).name 0 = 0 := hfree (Nat.succ_pos k)
      rw [skipNamed, if_pos hat, if_pos (Nat.succ_pos k), Nat.add_zero]
  | succ m ih =>
    intro k e hm hnamed hfree
    cases k with
    | zero => omega
    | succ k =>
      rw [skipNamed, if_neg (hnamed e (Nat.le_refl e) (by omega)),
        ih k (e + 1) (by omega) (fun n h1 h2 => hnamed n (by omega) (by omega)) fun h => by
          rw [show e + 1 + m = e + (m + 1) by omega]
          exact hfree (by omega)]
      split_ifs <;> omega

/-- The body of the loop over the files. -/
theorem mkfsFile_spec (numentries past : Nat) {f e b : Nat} {file : HostFile} {st : MkfsState} (hnamed : file.Named) (he : st.e = e)
    (hb : st.b = b) (he1 : 0 < e) (hf : f < 120) (hT : ∀ n, e ≤ n → st.table n = Block.zero)
    (hfit : e + fileEntries file.data.length ≤ numentries) (hblocks : b + fileBlocks file.data.length ≤ 8388608) :
    ∃ st', mkfsFile numentries past f file st = some st' ∧
      st'.table = placeFile (Function.update st.table 0 ((st.table 0).setRef f e)) file.name e b file.data.length ∧
      st'.b = b + fileBlocks file.data.length ∧
      (e + fileEntries file.data.length < numentries → st'.e = e + fileEntries file.data.length) ∧
      (∀ k, (k < b ∨ st'.b ≤ k) → st'.image k = st.image k) ∧
      ∀ i < file.data.length, (st'.image (b + i / 512)).byte (i % 512) = file.data.getD i 0 := by
  subst he
  obtain ⟨hlen, hzero, hne⟩ := hnamed.name
  obtain ⟨T, hT'⟩ : ∃ T, T = Function.update st.table 0 ((st.table 0).setRef f st.e) := ⟨_, rfl⟩
  have hTzero : ∀ n, st.e ≤ n → T n = Block.zero := fun n hn => by rw [hT', Function.update_of_ne (by omega), hT n hn]
  have hpos : 0 < fileEntries file.data.length := Nat.lt_of_lt_of_le Nat.one_pos (Nat.le_max_left _ _)
  have hfirst : Function.update T st.e ((T st.e).setFile file.baseName 0) = placeFile T file.name st.e b (512 * 0) := by
    funext n
    by_cases hn : n = st.e
    · rw [hn, Function.update_self, hTzero st.e (Nat.le_refl st.e), placeFile, if_pos ⟨Nat.le_refl st.e, Nat.lt_add_of_pos_right (by decide)⟩,
        setFile_zero, Nat.sub_self, imageEntry, HostFile.name, Block.copyName_take]
      rfl
    · rw [Function.update_of_ne hn, placeFile, if_neg]
      rw [show fileEntries (512 * 0) = 1 from rfl]
      omega
  obtain ⟨st', hrun, he', htable', hb', hrest', hbytes'⟩ := mkfsRead_eq hlen hzero hne (fun n hn => hTzero n (Nat.le_of_lt hn))
    (b := b) numentries file.data.length file.data 0
    { st with table := Function.update T st.e ((T st.e).setFile file.baseName 0), i := 0 } (Nat.le_refl _) rfl hfirst rfl hb
    (by rw [Nat.mul_zero, Nat.zero_add]; exact hfit) (by rw [Nat.mul_zero, Nat.zero_add]; exact hblocks)
  rw [Nat.mul_zero, Nat.zero_add] at htable' hb'
  rw [mkfsFile, if_neg (by simp only [sfsEntryRefs]; omega)]
  dsimp only
  rw [← hT', hrun]
  refine ⟨_, rfl, htable', hb', fun hmore => ?_, fun k hk => hrest' k (by rw [Nat.add_zero]; exact hk), hbytes'⟩
  have hskip := skipNamed_eq past st'.table (fileEntries file.data.length) (numentries - st.e) st.e (by omega) (fun n h1 h2 => by
    rw [htable', placeFile, if_pos ⟨h1, h2⟩]
    exact name_imageEntry hlen hzero _ _ _ _ hne) fun _ => by
      rw [htable', placeFile, if_neg (by omega), hTzero _ (by omega)]
      rfl
  rw [if_pos (by omega)] at hskip
  dsimp only
  rw [he', hskip]

/-! ## All files -/

/-- A file in an image, with its first entry and its first block. -/
structure Placed where
  file : HostFile
  e : Nat
  b : Nat

/-- The numbers of entries and of blocks that a file takes. -/
def Placed.entries (p : Placed) : Nat := fileEntries p.file.data.length
def Placed.blocks (p : Placed) : Nat := fileBlocks p.file.data.length

/-- Where the files of an image are: one after the other, from entry `e` and block `b` on. -/
def placements (e b : Nat) : List HostFile → List Placed
  | [] => []
  | file :: files =>
    { file := file, e := e, b := b } :: placements (e + fileEntries file.data.length) (b + fileBlocks file.data.length) files

/-- The entries that files take. -/
def totalEntries : List HostFile → Nat
  | [] => 0
  | file :: files => fileEntries file.data.length + totalEntries files

/-- The blocks that files take. -/
def totalBlocks : List HostFile → Nat
  | [] => 0
  | file :: files => fileBlocks file.data.length + totalBlocks files

/-- The references from `f` on set to the entries of files. -/
def Block.listRefs (entry : SfsEntry) (f : Nat) (l : List Nat) : SfsEntry :=
  { entry with ref := fun i => if f ≤ i.val ∧ i.val < f + l.length then UInt32.ofNat (l.getD (i.val - f) 0) else entry.ref i }

theorem Block.listRefs_nil (entry : SfsEntry) (f : Nat) : entry.listRefs f [] = entry := by
  have hno : ∀ i : Fin 120, ¬(f ≤ i.val ∧ i.val < f + ([] : List Nat).length) := fun i => by
    rw [List.length_nil]
    omega
  simp only [Block.listRefs, hno, if_false]

theorem Block.listRefs_cons (entry : SfsEntry) (f a : Nat) (l : List Nat) :
    entry.listRefs f (a :: l) = (entry.setRef f a).listRefs (f + 1) l := by
  simp only [Block.listRefs, Block.setRef]
  congr 1
  funext i
  by_cases hi : i.val = f
  · rw [if_pos (by rw [List.length_cons]; omega), if_neg (by omega), if_pos hi, hi, Nat.sub_self]
    rfl
  · by_cases hin : f + 1 ≤ i.val ∧ i.val < f + 1 + l.length
    · rw [if_pos (by rw [List.length_cons]; omega), if_pos hin, show i.val - f = (i.val - (f + 1)) + 1 by omega]
      rfl
    · rw [if_neg (by rw [List.length_cons]; omega), if_neg hin, if_neg hi]

/-- The files of an image are one after the other. -/
theorem mem_placements : ∀ {files : List HostFile} {e b : Nat} {p : Placed}, p ∈ placements e b files →
    p.file ∈ files ∧ e ≤ p.e ∧ p.e + p.entries ≤ e + totalEntries files ∧ b ≤ p.b ∧
      p.b + p.blocks ≤ b + totalBlocks files := by
  intro files
  induction files with
  | nil =>
    intro e b p hp
    cases hp
  | cons file files ih =>
    intro e b p hp
    rw [totalEntries, totalBlocks]
    rcases List.mem_cons.1 hp with rfl | hp
    · exact ⟨List.mem_cons_self, Nat.le_refl _, by simp only [Placed.entries]; omega, Nat.le_refl _,
        by simp only [Placed.blocks]; omega⟩
    · obtain ⟨h1, h2, h3, h4, h5⟩ := ih hp
      exact ⟨List.mem_cons_of_mem _ h1, by omega, by omega, by omega, by omega⟩

/-- Two files of an image have no entry and no block in common. -/
theorem placements_apart : ∀ {files : List HostFile} {e b : Nat} {p q : Placed}, p ∈ placements e b files →
    q ∈ placements e b files →
      p = q ∨ (p.e + p.entries ≤ q.e ∧ p.b + p.blocks ≤ q.b) ∨ (q.e + q.entries ≤ p.e ∧ q.b + q.blocks ≤ p.b) := by
  intro files
  induction files with
  | nil =>
    intro e b p q hp
    cases hp
  | cons file files ih =>
    intro e b p q hp hq
    rcases List.mem_cons.1 hp with rfl | hp
    · rcases List.mem_cons.1 hq with rfl | hq
      · exact Or.inl rfl
      · obtain ⟨-, h1, -, h2, -⟩ := mem_placements hq
        exact Or.inr (Or.inl ⟨h1, h2⟩)
    · rcases List.mem_cons.1 hq with rfl | hq
      · obtain ⟨-, h1, -, h2, -⟩ := mem_placements hp
        exact Or.inr (Or.inr ⟨h1, h2⟩)
      · exact ih hp hq

/-- Each entry from the first to the last is one of a file. -/
theorem placements_cover : ∀ {files : List HostFile} {e b n : Nat}, e ≤ n → n < e + totalEntries files →
    ∃ p ∈ placements e b files, p.e ≤ n ∧ n < p.e + p.entries := by
  intro files
  induction files with
  | nil =>
    intro e b n h1 h2
    exact absurd h2 (Nat.not_lt.2 h1)
  | cons file files ih =>
    intro e b n h1 h2
    rw [totalEntries] at h2
    by_cases hn : n < e + fileEntries file.data.length
    · exact ⟨_, List.mem_cons_self, h1, hn⟩
    · obtain ⟨p, hp, h⟩ := ih (b := b + fileBlocks file.data.length) (Nat.le_of_not_lt hn) (by omega)
      exact ⟨p, List.mem_cons_of_mem _ hp, h⟩

theorem map_file_placements : ∀ (files : List HostFile) (e b : Nat), (placements e b files).map Placed.file = files := by
  intro files
  induction files with
  | nil => exact fun _ _ => rfl
  | cons file files ih => exact fun e b => by rw [placements, List.map_cons, ih]

theorem Placed.entries_pos (p : Placed) : 0 < p.entries := Nat.lt_of_lt_of_le Nat.one_pos (Nat.le_max_left _ _)

/-- The first entries of the files come one after the other. -/
theorem pairwise_placements : ∀ (files : List HostFile) (e b : Nat), ((placements e b files).map Placed.e).Pairwise (· < ·) := by
  intro files
  induction files with
  | nil => exact fun _ _ => List.Pairwise.nil
  | cons file files ih =>
    intro e b
    rw [placements, List.map_cons]
    refine List.pairwise_cons.2 ⟨fun n hn => ?_, ih _ _⟩
    obtain ⟨p, hp, rfl⟩ := List.mem_map.1 hn
    obtain ⟨-, h, -⟩ := mem_placements hp
    have hpos : 0 < fileEntries file.data.length := Nat.lt_of_lt_of_le Nat.one_pos (Nat.le_max_left _ _)
    dsimp only
    omega

/-- The loop over the files. -/
theorem mkfsFiles_spec (numentries past : Nat) : ∀ (files : List HostFile) (f e b : Nat) (st : MkfsState),
    (∀ file ∈ files, file.Named) → st.e = e ∨ files = [] → st.b = b → 0 < e → f + files.length ≤ 120 →
    (∀ n, e ≤ n → st.table n = Block.zero) → e + totalEntries files ≤ numentries → b + totalBlocks files ≤ 8388608 →
    ∃ st', mkfsFiles numentries past f files st = some st' ∧
      st'.table 0 = (st.table 0).listRefs f ((placements e b files).map Placed.e) ∧
      (∀ n, 0 < n → (n < e ∨ e + totalEntries files ≤ n) → st'.table n = st.table n) ∧
      (∀ k, (k < b ∨ b + totalBlocks files ≤ k) → st'.image k = st.image k) ∧
      ∀ p ∈ placements e b files,
        (∀ k < p.entries, st'.table (p.e + k) = imageEntry p.file.name p.e p.b p.file.data.length k) ∧
        ∀ i < p.file.data.length, (st'.image (p.b + i / 512)).byte (i % 512) = p.file.data.getD i 0 := by
  intro files
  induction files with
  | nil =>
    intro f e b st _ _ _ _ _ _ _ _
    refine ⟨st, rfl, ?_, fun _ _ _ => rfl, fun _ _ => rfl, fun p hp => ?_⟩
    · rw [placements, List.map_nil, Block.listRefs_nil]
    · cases hp
  | cons file files ih =>
    intro f e b st hnamed he hb he1 hf hT hfit hblocks
    have he := he.resolve_right (List.cons_ne_nil _ _)
    have hpos : 0 < fileEntries file.data.length := Nat.lt_of_lt_of_le Nat.one_pos (Nat.le_max_left _ _)
    have htotal : totalEntries (file :: files) = fileEntries file.data.length + totalEntries files := rfl
    have htotal' : totalBlocks (file :: files) = fileBlocks file.data.length + totalBlocks files := rfl
    rw [List.length_cons] at hf
    rw [htotal] at hfit ⊢
    rw [htotal'] at hblocks ⊢
    obtain ⟨st₁, hrun, htable, hb₁, he₁, himage, hbytes⟩ := mkfsFile_spec numentries past (hnamed file List.mem_cons_self) he
      hb he1 (show f < 120 by omega) hT (by omega) (by omega)
    have hmore : st₁.e = e + fileEntries file.data.length ∨ files = [] := by
      cases files with
      | nil => exact Or.inr rfl
      | cons g files =>
        have hmore : 0 < totalEntries (g :: files) := by
          rw [totalEntries]
          exact Nat.lt_of_lt_of_le (Nat.lt_of_lt_of_le Nat.one_pos (Nat.le_max_left _ _)) (Nat.le_add_right _ _)
        exact Or.inl (he₁ (by omega))
    have hother : ∀ n, 0 < n → (n < e ∨ e + fileEntries file.data.length ≤ n) → st₁.table n = st.table n := by
      intro n hn h
      rw [htable, placeFile, if_neg (by omega), Function.update_of_ne (by omega)]
    obtain ⟨st', hrun', hroot, htable', himage', hplaced⟩ := ih (f + 1) (e + fileEntries file.data.length)
      (b + fileBlocks file.data.length) st₁ (fun g hg => hnamed g (List.mem_cons_of_mem _ hg)) hmore hb₁ (by omega) (by omega)
      (fun n hn => by rw [hother n (by omega) (Or.inr hn), hT n (by omega)]) (by omega) (by omega)
    refine ⟨st', ?_, ?_, ?_, ?_, ?_⟩
    · rw [mkfsFiles, hrun]
      exact hrun'
    · rw [hroot, htable, placeFile, if_neg (by omega), Function.update_self, placements, List.map_cons, Block.listRefs_cons]
    · intro n hn h
      rw [htable' n hn (by omega), hother n hn (by omega)]
    · intro k hk
      rw [himage' k (by omega), himage k (by omega)]
    · intro p hp
      rcases List.mem_cons.1 hp with rfl | hp
      · refine ⟨fun k hk => ?_, fun i hi => ?_⟩
        · simp only [Placed.entries] at hk ⊢
          rw [htable' _ (by omega) (by omega), htable, placeFile, if_pos (by omega), Nat.add_sub_cancel_left]
        · have hblock : i / 512 < fileBlocks file.data.length := by
            simp only at hi
            unfold fileBlocks
            omega
          simp only at hi ⊢
          rw [himage' _ (by omega)]
          exact hbytes i hi
      · exact hplaced p hp

end NanoS32
