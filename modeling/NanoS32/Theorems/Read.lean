import NanoS32.Inv.WellFormed
import NanoS32.Lemmas.Path

/-!
# Reading a file

What `fs_read_file` returns and stores: a range of the contents of the file, which are its data blocks along the whole chain, cut
to its size.
-/

namespace NanoS32

open Prog

/-- The data blocks of a chain, in order. -/
def Vol.dataBlocks (V : Vol) (ch : List Nat) : List Nat := ch.flatMap fun n => (List.range 120).map (V.ent n).refAt

/-- The contents of the file with chain `ch` and this size. -/
def Vol.contents (V : Vol) (ch : List Nat) (size : Nat) : List UInt8 :=
  ((V.dataBlocks ch).flatMap fun b => (V b).bytes).take size

/-! ## The contents, byte by byte -/

theorem Vol.dataBlocks_eq (V : Vol) (ch : List Nat) : V.dataBlocks ch = (List.range (120 * ch.length)).map (V.fref ch) := by
  unfold Vol.dataBlocks
  induction ch with
  | nil => rfl
  | cons a l ih =>
    have hlen : 120 * (a :: l).length = 120 + 120 * l.length := by
      rw [List.length_cons]
      omega
    have hfirst : (List.range 120).map (V.ent a).refAt = (List.range 120).map (V.fref (a :: l)) := by
      refine List.map_congr_left fun i hi => ?_
      rw [Vol.fref_cons, if_pos (List.mem_range.1 hi)]
    have hrest : (List.range (120 * l.length)).map (V.fref l) =
        (List.range (120 * l.length)).map (V.fref (a :: l) ∘ fun x => 120 + x) := by
      refine List.map_congr_left fun i _ => ?_
      rw [Function.comp, Vol.fref_cons, if_neg (by omega), Nat.add_sub_cancel_left]
    rw [List.flatMap_cons, ih, hlen, List.range_add, List.map_append, List.map_map, hfirst, hrest]

/-- The first `n` blocks of a file are its first `512 * n` bytes. -/
theorem Vol.fileBytes_blocks (V : Vol) (ch : List Nat) (n : Nat) :
    ((List.range n).map (V.fref ch)).flatMap (fun b => (V b).bytes) = V.fileBytes ch 0 (512 * n) := by
  induction n with
  | zero => rfl
  | succ n ih =>
    have hblock := V.fileBytes_inside ch n (show 0 + 512 ≤ 512 by omega)
    rw [Nat.add_zero, List.drop_zero, List.take_of_length_le (by rw [Block.length_bytes])] at hblock
    rw [List.range_succ, List.map_append, List.flatMap_append, ih, Nat.mul_succ, Vol.fileBytes_add, Nat.zero_add, hblock]
    simp

/-- The contents of a file whose size fits its chain. -/
theorem Vol.contents_eq (V : Vol) {ch : List Nat} {size : Nat} (h : size ≤ 61440 * ch.length) :
    V.contents ch size = V.fileBytes ch 0 size := by
  have hle : size ≤ 512 * (120 * ch.length) := by omega
  rw [Vol.contents, Vol.dataBlocks_eq, Vol.fileBytes_blocks, Vol.take_fileBytes V ch 0 hle]

/-- A range of the contents. -/
theorem Vol.contents_range (V : Vol) {ch : List Nat} {size : Nat} (h : size ≤ 61440 * ch.length) (offset count : Nat) :
    ((V.contents ch size).drop offset).take count =
      V.fileBytes ch (min offset size) (min count (size - min offset size)) := by
  rw [Vol.contents_eq V h, Vol.fileBytes_range]

/-! ## The call -/

/-- `fs_read_file` of a regular file returns the bytes of the range that are in the file, in number and value, and leaves the
state. -/
theorem fs_read_file_contents {env : Env} {s : Sys} {d : Nat} {C : Nat → List Nat} (hr : Ready env s d)
    (hw : Vol.WellFormed (s.disk d) C) {path : CStr} (hd : pathGetDisk env path = d) {h : Nat} {entry : SfsEntry}
    (hfind : (fsGetEntry env path unknownValue unknownValue).run s = .ok (h, entry) s) (hh : C h ≠ [])
    (hfile : entry.flags = tFile) (offset count : Nat) :
    ∃ bytes, (fsReadFile env path offset count).run s = .ok bytes s ∧
      bytes.length = min count (entry.size.toNat - min offset entry.size.toNat) ∧
        bytes = ((Vol.contents (s.disk d) (C h) entry.size.toNat).drop (min offset entry.size.toNat)).take bytes.length := by
  obtain ⟨V, hV⟩ : ∃ V : Vol, V = s.disk d := ⟨_, rfl⟩
  have hs : s.withVol d V = s := by rw [hV, Sys.withVol_self]
  have hget := fsGetEntry_run hr (V := V) (hV ▸ hw.geo) hd
  rw [hs, hfind] at hget
  rw [← hV] at hw ⊢
  obtain ⟨l, hl⟩ := hw.cons hh
  have hent : entry = V.ent h := by
    cases hres : V.resolve env path with
    | none =>
      rw [hres] at hget
      cases hget
    | some n =>
      rw [hres] at hget
      cases hget
      rfl
  have hcap : (V.ent h).capacity = 61440 := if_pos (hent ▸ hfile)
  have hfits : entry.size.toNat ≤ 61440 * (C h).length := by
    have h1 := hw.fits h hh
    rwa [hcap, ← hent] at h1
  obtain ⟨o, ho⟩ : ∃ o, o = min offset entry.size.toNat := ⟨_, rfl⟩
  obtain ⟨n, hn⟩ : ∃ n, n = min count (entry.size.toNat - o) := ⟨_, rfl⟩
  have hread : (fsReadFile env path offset count).run s = .ok (V.fileBytes (C h) o n) s := by
    have hisFile : (V.ent h).isFile = true := (Block.isFile_of_flags (hent ▸ hfile)).1
    have hfind' : (fsGetEntry env path unknownValue unknownValue).run (s.withVol d V) = .ok (h, V.ent h) (s.withVol d V) := by
      rw [hs, ← hent]
      exact hfind
    have hrun := fsReadFile_run hr hw.geo (hl ▸ hw.chain h hh) (hl ▸ hw.refs h hh (hent ▸ hfile)) hd hfind' hisFile
      (by rw [hl, List.length_cons, hent] at hfits; exact hfits) offset count
    rw [Vol.fileBytes_range, ← hl, hs, ← hent, ← ho, ← hn] at hrun
    exact hrun
  refine ⟨_, hread, ?_, ?_⟩
  · rw [Vol.length_fileBytes, hn, ho]
  · have ho' : min (min offset entry.size.toNat) entry.size.toNat = o := by omega
    have hn' : min n (entry.size.toNat - o) = n := by omega
    rw [Vol.length_fileBytes, Vol.contents_range V hfits, ho', hn']

theorem fs_read_file_contents_sample :
    ∃ bytes, (fsReadFile sampleEnv [102] 1 5).run sampleSys = .ok bytes sampleSys ∧ bytes.length = 2 ∧ bytes = [20, 30] := by
  have hdisk : pathGetDisk sampleEnv [102] = 2 := by decide
  have hfind : (fsGetEntry sampleEnv [102] unknownValue unknownValue).run sampleSys =
      .ok (1, Vol.ent (sampleSys.disk 2) 1) sampleSys := by
    have hrun := fsGetEntry_run sampleSys_ready sampleSys_wellFormed.geo hdisk
    have hres : Vol.resolve (sampleSys.disk 2) sampleEnv [102] = some 1 := by decide +kernel
    rwa [hres, Sys.withVol_self] at hrun
  obtain ⟨bytes, hrun, hlen, hbytes⟩ :=
    fs_read_file_contents sampleSys_ready sampleSys_wellFormed hdisk hfind (by decide +kernel)
      (by decide +kernel) 1 5
  have hsize : (Vol.ent (sampleSys.disk 2) 1).size.toNat = 3 := by decide +kernel
  rw [hsize] at hlen hbytes
  rw [hlen] at hbytes
  refine ⟨bytes, hrun, hlen, hbytes.trans ?_⟩
  decide +kernel

end NanoS32
