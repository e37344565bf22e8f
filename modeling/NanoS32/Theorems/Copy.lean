import NanoS32.Theorems.Contents

/-!
# Copying a file

`fs_copy` of a file reads its source and appends to its destination, a block at a time. Each of these writes is safe, so that the
destination ends with the bytes of the source, and what else is on the disk stays as it is, whichever way the call ends.
-/

namespace NanoS32

open Prog

/-- A write of at most a block at the end of a file that has whole blocks. -/
theorem SafeWrite.append {size count flags : Nat} (hmod : size % 512 = 0) (hcount : count ≤ 512) (hlt : size + count < 4294967296) :
    SafeWrite size size count flags := by
  refine ⟨hlt, fun hresize => ⟨fun i h1 h2 => ?_, fun hle => ?_⟩⟩
  · rw [neededBlocks_eq] at h1 h2
    omega
  · rw [neededBlocks_eq, neededBlocks_eq] at hle
    omega

/-- What was on the disk is still there: the heads that its paths resolve to, and their contents. -/
structure Vol.Preserves (V : Vol) (C : Nat → List Nat) (V' : Vol) (C' : Nat → List Nat) : Prop where
  tree : (V.fileTree C).Extends (V'.fileTree C')
  data : ∀ m, C m ≠ [] → V'.headData C' m = V.headData C m

theorem Vol.Preserves.refl (V : Vol) (C : Nat → List Nat) : V.Preserves C V C := ⟨.refl _, fun _ _ => rfl⟩

/-- The calls write to `path` as `fs_write_file` does, when it meets its conditions and is safe. -/
def CopyCalls.WritesTo (calls : CopyCalls) (env : Env) (d : Nat) (path : CStr) : Prop :=
  ∀ (s : Sys) (buff : List UInt8) (offset : Nat), WritesFile Kept.names env (s.disk d) path wfCreate →
    SafeWrite (Vol.sizeAt (s.disk d) env path) offset buff.length wfCreate →
      (calls.writeFile buff path offset wfCreate).run s = (fsWriteFile env buff path offset wfCreate).run s

/-- A copy after its first `offset` bytes: the destination has been created with the first of them. -/
structure PartlyCopied (env : Env) (V₀ : Vol) (C₀ : Nat → List Nat) (dst : CStr) (data : List UInt8) (offset : Nat) (V : Vol)
    (C : Nat → List Nat) : Prop where
  format : V.Format C fun _ => False
  apart : V.Apart C
  preserves : V₀.Preserves C₀ V C
  created : (offset = 0 ∧ V.resolve env dst = none ∧ CreatesFile Kept.names env V dst ∧ V.Named env dst) ∨
    0 < offset ∧ ∃ n, C₀ n = [] ∧ C n ≠ [] ∧ V.resolve env dst = some n ∧ V.headData C n = some (data.take offset)

/-- The disk after a copy that has failed: what was there is there, and maybe a part of the destination. -/
structure CopyFailed (V₀ : Vol) (C₀ : Nat → List Nat) (V : Vol) (C : Nat → List Nat) : Prop where
  format : V.Format C fun _ => False
  apart : V.Apart C
  preserves : V₀.Preserves C₀ V C

section Copy

variable {env : Env} {s s₀ : Sys} {d : Nat} {V V₀ : Vol} {C C₀ : Nat → List Nat} {src dst : CStr} {data : List UInt8} {offset : Nat}
  {calls : CopyCalls}

namespace PartlyCopied

/-- What a write to the destination needs. -/
theorem writes (h : PartlyCopied env V₀ C₀ dst data offset V C) : WritesFile Kept.names env V dst wfCreate := by
  rcases h.created with ⟨-, hres, hcreate, -⟩ | ⟨-, n, -, hn, hres, -⟩
  · exact ⟨fun m hm => absurd (hm.symm.trans hres) (Option.some_ne_none m), fun _ _ => hcreate⟩
  · refine ⟨fun m hm => ?_, fun hnone => absurd (hres.symm.trans hnone) (Option.some_ne_none n)⟩
    obtain rfl := Option.some.inj (hm.symm.trans hres)
    exact h.format.isHead_iff.2 hn

theorem named (h : PartlyCopied env V₀ C₀ dst data offset V C) : V.Named env dst := by
  rcases h.created with ⟨-, -, -, hnamed⟩ | ⟨-, n, -, -, hres, -⟩
  · exact hnamed
  · exact fun hnone => absurd (hres.symm.trans hnone) (Option.some_ne_none n)

/-- The destination is none of the heads that were there. -/
theorem ne_old (h : PartlyCopied env V₀ C₀ dst data offset V C) {m : Nat} (hm : C₀ m ≠ []) : V.resolve env dst ≠ some m := by
  intro hres
  rcases h.created with ⟨-, hnone, -⟩ | ⟨-, n, hn, -, hres', -⟩
  · exact Option.some_ne_none m (hres.symm.trans hnone)
  · obtain rfl := Option.some.inj (hres.symm.trans hres')
    exact hm hn

/-- The size of the destination. -/
theorem sizeAt (h : PartlyCopied env V₀ C₀ dst data offset V C) (ho : offset ≤ data.length) : V.sizeAt env dst = offset := by
  rw [Vol.sizeAt]
  rcases h.created with ⟨rfl, hres, -⟩ | ⟨-, n, -, hn, hres, hdata⟩
  · rw [hres]
    rfl
  · rw [hres]
    have hlen : (V.ent n).size.toNat = (data.take offset).length := by
      rw [Vol.headData] at hdata
      split_ifs at hdata
      rw [← Option.some.inj hdata, Vol.length_fileBytes]
    rw [List.length_take, Nat.min_eq_left ho] at hlen
    exact hlen

theorem failed (h : PartlyCopied env V₀ C₀ dst data offset V C) : CopyFailed V₀ C₀ V C := ⟨h.format, h.apart, h.preserves⟩

/-- One turn of the loop: a block that is appended to the destination. -/
theorem write (h : PartlyCopied env V₀ C₀ dst data offset V C) (hr : Ready env s d) (hd : pathGetDisk env dst = d)
    (hcalls : calls.WritesTo env d dst) (hmod : offset % 512 = 0) (hlt : offset < data.length) (hsize : data.length < 4294967296)
    {buff : List UInt8} (hbuff : buff = (data.drop offset).take 512) :
    ∃ s' V' C', Ready env s' d ∧ s'.disk = s.disk ∧
      ((PartlyCopied env V₀ C₀ dst data (offset + buff.length) V' C' ∧
          (calls.writeFile buff dst offset wfCreate).run (s.withVol d V) = .ok (buff.length, dst) (s'.withVol d V')) ∨
        (CopyFailed V₀ C₀ V' C' ∧ ∃ code,
          (calls.writeFile buff dst offset wfCreate).run (s.withVol d V) = .error code (s'.withVol d V'))) := by
  have hlen : buff.length = min 512 (data.length - offset) := by rw [hbuff, List.length_take, List.length_drop]
  have hsafe : SafeWrite (V.sizeAt env dst) offset buff.length wfCreate := by
    rw [h.sizeAt (Nat.le_of_lt hlt)]
    exact .append hmod (by omega) (by omega)
  have hwrite := hcalls (s.withVol d V) buff offset
  rw [Sys.withVol_disk] at hwrite
  rw [hwrite h.writes hsafe]
  have hoffset : offset < 4294967296 := by omega
  obtain ⟨s', V', C', cs, hr', hdisk, hchanges, hend⟩ := fsWriteFile_changes hr h.format hd h.writes hoffset buff
  have hf' := hchanges.format
  have hsteps := hchanges.steps h.apart
  have hapart := hchanges.apart hsafe h.apart
  have hpreserves : ∀ {ok}, WriteMakes env V dst offset buff wfCreate ok cs → V₀.Preserves C₀ V' C' := fun hmakes => by
    refine ⟨h.preserves.tree.trans (hmakes.extends h.format h.writes trivial hsteps), fun m hm => ?_⟩
    have hm' : C m ≠ [] := h.preserves.tree.nodes m hm
    rw [hmakes.others h.format hsteps hm' (h.ne_old hm), h.preserves.data m hm]
  refine ⟨s', V', C', hr', hdisk, ?_⟩
  rcases hend with ⟨hmakes, hrun⟩ | ⟨hmakes, hrun⟩
  · rw [h.named.openedPath] at hrun
    refine Or.inl ⟨⟨hf', hapart, hpreserves hmakes, Or.inr ?_⟩, hrun⟩
    obtain ⟨n, old, new, hold, hres, hn, hnew, hover⟩ := hmakes.contents hsafe h.format hf' h.writes trivial hsteps h.named
    have hfirst : C₀ n = [] ∧ old = data.take offset := by
      rcases h.created with ⟨rfl, hnone, -⟩ | ⟨-, n', hn', -, hres', hdata⟩
      · rcases hold with ⟨hres', -⟩ | ⟨-, hn', rfl⟩
        · exact absurd (hres'.symm.trans hnone) (Option.some_ne_none n)
        · refine ⟨?_, List.take_zero.symm⟩
          by_contra hne
          exact h.preserves.tree.nodes n hne hn'
      · rcases hold with ⟨hres'', hdata'⟩ | ⟨hnone, -⟩
        · obtain rfl := Option.some.inj (hres'.symm.trans hres'')
          exact ⟨hn', Option.some.inj (hdata'.symm.trans hdata)⟩
        · exact absurd (hres'.symm.trans hnone) (Option.some_ne_none n')
    obtain ⟨hn', rfl⟩ := hfirst
    have hlen' : (data.take offset).length = offset := List.length_take_of_le (Nat.le_of_lt hlt)
    have hnew' := hover.eq (Nat.le_of_eq hlen'.symm)
    rw [List.take_of_length_le (Nat.le_of_eq hlen'), List.drop_of_length_le (by omega), ite_self, List.append_nil] at hnew'
    have hbuff' : buff = (data.drop offset).take buff.length :=
      List.prefix_iff_eq_take.1 (hbuff ▸ List.take_prefix 512 (data.drop offset))
    refine ⟨by omega, n, hn', hn, hres, hnew.trans (congrArg some ?_)⟩
    rw [hnew', List.take_add, ← hbuff']
  · exact Or.inr ⟨⟨hf', hapart, hpreserves hmakes⟩, hrun⟩

end PartlyCopied

/-- The source has these contents in every state of the copy. -/
def Vol.Reads (V₀ : Vol) (C₀ : Nat → List Nat) (env : Env) (d : Nat) (src : CStr) (data : List UInt8) (s₀ : Sys) : Prop :=
  ∀ s V C, Ready env s d → s.disk = s₀.disk → CopyFailed V₀ C₀ V C → HasContents env src data (s.withVol d V)

theorem CopyCalls.WritesTo.self : (fsCopyCalls env).WritesTo env d dst := fun _ _ _ _ _ => rfl

theorem CopyCalls.WritesTo.copyGuards : (copyGuards Kept.names env d).WritesTo env d dst := fun _ _ _ hw _ => if_pos fun _ => hw

theorem CopyCalls.WritesTo.safeGuards : (safeGuards Kept.names env d).WritesTo env d dst :=
  fun _ _ _ hw hsafe => if_pos fun _ => ⟨hw, hsafe⟩

/-- The heads that were there are read as before. -/
theorem CopyFailed.reads (h : CopyFailed V₀ C₀ V C) (hr₀ : Ready env s₀ d) (hf₀ : V₀.Format C₀ fun _ => False) (hr : Ready env s d)
    {path : CStr} (hd : pathGetDisk env path = d) {n : Nat} (hres : V₀.resolve env path = some n) (hn : V₀.IsHead n)
    (offset count : Nat) :
    ((fsReadFile env path offset count).run (s.withVol d V)).value =
      ((fsReadFile env path offset count).run (s₀.withVol d V₀)).value := by
  have hn' := hf₀.isHead_iff.1 hn
  have hres' := hf₀.resolve_extends h.format h.preserves.tree hres hn'
  rw [fsReadFile_head hr₀ hf₀ hd hres hn', fsReadFile_head hr h.format hd hres' (h.preserves.tree.nodes n hn'), h.preserves.data n hn']
  cases V₀.headData C₀ n with
  | none => rfl
  | some data => rfl

end Copy

end NanoS32
