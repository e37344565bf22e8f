import NanoS32.Lib.Walk
import NanoS32.Theorems.Sound

/-!
# Looking for chunks

The two loops of `sb_play` go from the header of a chunk to the next one, at a position that is computed in 32 bits from a length
in the file. Each of them is a walk through the positions of the file.
-/

namespace NanoS32

namespace Sound

/-- What `fs_read_file` stores of a file with the given content. -/
def served (content : List UInt8) (pos n : Nat) : List UInt8 := (content.drop pos).take n

/-- The position behind a chunk. -/
def nextPos (chunk : List UInt8) (pos : Nat) : Nat := wrap32 (pos + wrap32 (word32 chunk 4 + 8))

/-- Where a loop that looks for a chunk goes on: nowhere, when it cannot read `size` bytes or has found the chunk. -/
def chunkNext (content : List UInt8) (size tag pos : Nat) : Option Nat :=
  if (served content pos size).length = size ∧ word32 (served content pos size) 0 ≠ tag then
    some (nextPos (served content pos size) pos)
  else none

/-- The file begins as a WAV file. -/
def IsRiff (content : List UInt8) : Prop :=
  (served content 0 12).length = 12 ∧ word32 (served content 0 12) 0 = wavRiff ∧ word32 (served content 0 12) 8 = wavWave

/-- There is a fmt chunk at a position, with a format that is supported. -/
def FmtAt (content : List UInt8) (pos : Nat) : Prop :=
  (served content pos 24).length = 24 ∧ word32 (served content pos 24) 0 = wavFmt ∧
    (word16 (served content pos 24) 22 = 8 ∨ word16 (served content pos 24) 22 = 16) ∧
    (word16 (served content pos 24) 10 = 1 ∨ word16 (served content pos 24) 10 = 2)

/-- The lengths in the file lead no search back to a position where it has been: not the search for the fmt chunk, and not the
search for the data chunk that begins behind a supported fmt chunk. -/
def ChunksEnd (content : List UInt8) : Prop :=
  IsRiff content → Walk.Acyclic (chunkNext content 24 wavFmt) 12 ∧
    ∀ q, Walk.Reaches (chunkNext content 24 wavFmt) 12 q → FmtAt content q →
      Walk.Acyclic (chunkNext content 8 wavData) (nextPos (served content q 24) q)

/-- A search can only go on from positions inside the file. -/
theorem chunkNext_finite (content : List UInt8) {size : Nat} (hsize : 0 < size) (tag : Nat) :
    {pos | chunkNext content size tag pos ≠ none}.Finite := by
  refine (Set.finite_lt_nat content.length).subset fun pos hpos => ?_
  by_contra hout
  have hnil : served content pos size = [] := by
    rw [served, List.drop_eq_nil_of_le (Nat.le_of_not_lt hout), List.take_nil]
  refine hpos (if_neg fun h => ?_)
  rw [hnil, List.length_nil] at h
  omega

section Loops

variable (env : SoundEnv) (content : List UInt8) (s : Sound)

/-- The environment in which the file has the given content, and loops have the bound `fuel`. -/
def withFile (fuel : Nat) : SoundEnv := { env with fsReadFile := served content, fuel := fuel }

theorem withFile_read (fuel : Nat) : (withFile env content fuel).fsReadFile = served content := rfl

/-- Where the search for the fmt chunk stops, it returns the chunk and the position behind it. -/
def fmtStop (pos : Nat) : Prog.Outcome Sound (List UInt8 × Nat) :=
  if (served content pos 24).length ≠ 24 then .error errorIo s
  else .ok (served content pos 24, nextPos (served content pos 24) pos) s

/-- Where the search for the data chunk stops, it returns the length of the data and the position of the chunk. -/
def dataStop (pos : Nat) : Prog.Outcome Sound (Nat × Nat) :=
  if (served content pos 8).length ≠ 8 then .error errorIo s else .ok (word32 (served content pos 8) 4, pos) s

theorem findFmt_step (bound fuel pos : Nat) :
    (findFmt (withFile env content bound) (fuel + 1) pos).run s = (chunkNext content 24 wavFmt pos).elim (fmtStop content s pos)
      fun next => (findFmt (withFile env content bound) fuel next).run s := by
  rw [findFmt, Prog.run_failIf_bind, chunkNext, fmtStop]
  rw [withFile_read]
  by_cases hlen : (served content pos 24).length ≠ 24
  · rw [if_pos hlen, if_pos hlen, if_neg fun h => hlen h.1]
    rfl
  · rw [if_neg hlen, if_neg hlen]
    by_cases htag : word32 (served content pos 24) 0 ≠ wavFmt
    · rw [if_pos htag, if_pos ⟨not_not.1 hlen, htag⟩]
      rfl
    · rw [if_neg htag, if_neg fun h => htag h.2]
      rfl

theorem findData_step (bound fuel pos : Nat) :
    (findData (withFile env content bound) (fuel + 1) pos).run s = (chunkNext content 8 wavData pos).elim (dataStop content s pos)
      fun next => (findData (withFile env content bound) fuel next).run s := by
  rw [findData, Prog.run_failIf_bind, chunkNext, dataStop]
  rw [withFile_read]
  by_cases hlen : (served content pos 8).length ≠ 8
  · rw [if_pos hlen, if_pos hlen, if_neg fun h => hlen h.1]
    rfl
  · rw [if_neg hlen, if_neg hlen]
    by_cases htag : word32 (served content pos 8) 0 ≠ wavData
    · rw [if_pos htag, if_pos ⟨not_not.1 hlen, htag⟩]
      rfl
    · rw [if_neg htag, if_neg fun h => htag h.2]
      rfl

/-- The search for the fmt chunk, as a walk. -/
theorem findFmt_walk (bound fuel pos : Nat) :
    (Walk.after (chunkNext content 24 wavFmt) fuel pos ≠ none → (findFmt (withFile env content bound) fuel pos).run s = .stuck s) ∧
      (Walk.after (chunkNext content 24 wavFmt) fuel pos = none →
        ∃ q, Walk.Reaches (chunkNext content 24 wavFmt) pos q ∧ chunkNext content 24 wavFmt q = none ∧
          (findFmt (withFile env content bound) fuel pos).run s = fmtStop content s q) :=
  Walk.loop_spec (fun fuel pos => (findFmt (withFile env content bound) fuel pos).run s) (fun _ => rfl)
    (findFmt_step env content s bound) fuel pos

/-- The search for the data chunk, as a walk. -/
theorem findData_walk (bound fuel pos : Nat) :
    (Walk.after (chunkNext content 8 wavData) fuel pos ≠ none → (findData (withFile env content bound) fuel pos).run s = .stuck s) ∧
      (Walk.after (chunkNext content 8 wavData) fuel pos = none →
        ∃ q, Walk.Reaches (chunkNext content 8 wavData) pos q ∧ chunkNext content 8 wavData q = none ∧
          (findData (withFile env content bound) fuel pos).run s = dataStop content s q) :=
  Walk.loop_spec (fun fuel pos => (findData (withFile env content bound) fuel pos).run s) (fun _ => rfl)
    (findData_step env content s bound) fuel pos

/-- The first part of `sb_play` returns within the bound. -/
def Returns (fuel : Nat) : Prop := ∀ s', (readChunks (withFile env content fuel)).run s ≠ .stuck s'

/-- The first part of `sb_play` on a file that does not begin as a WAV file. -/
theorem readChunks_not_riff (fuel : Nat) (h : ¬IsRiff content) : Returns env content s fuel := by
  intro s'
  rw [readChunks, Prog.run_failIf_bind, if_pos]
  · intro h
    cases h
  · by_contra hnot
    simp only [not_or, not_not] at hnot
    exact h hnot

theorem readChunks_run (fuel : Nat) (h : IsRiff content) :
    (readChunks (withFile env content fuel)).run s =
      (findFmt (withFile env content fuel) fuel 12 >>= fun p =>
        Prog.failIf (word16 p.1 22 ≠ 8 ∧ word16 p.1 22 ≠ 16) errorIo >>= fun _ =>
          Prog.failIf (word16 p.1 10 ≠ 1 ∧ word16 p.1 10 ≠ 2) errorIo >>= fun _ =>
            findData (withFile env content fuel) fuel p.2 >>= fun r =>
              pure ({ pos := r.2, bits := word16 p.1 22, rate := word32 p.1 12, channels := word16 p.1 10,
                      bytesPerSample := word16 p.1 22 / 8 }, r.1)).run s := by
  rw [readChunks, Prog.run_failIf_bind, if_neg]
  · rfl
  · rintro (h1 | h1 | h1)
    · exact h1 h.1
    · exact h1 h.2.1
    · exact h1 h.2.2

/-- The part of `sb_play` behind the fmt chunk at `q`. -/
theorem readChunks_stop (fuel : Nat) {q : Nat} (h : IsRiff content)
    (hrun : (findFmt (withFile env content fuel) fuel 12).run s = fmtStop content s q) (hstop : chunkNext content 24 wavFmt q = none) :
    Returns env content s fuel ↔
      (FmtAt content q → Walk.after (chunkNext content 8 wavData) fuel (nextPos (served content q 24) q) = none) := by
  have hdata := findData_walk env content s fuel fuel (nextPos (served content q 24) q)
  unfold Returns
  rw [readChunks_run env content s fuel h, Prog.run_bind, hrun, fmtStop]
  by_cases hlen : (served content q 24).length ≠ 24
  · rw [if_pos hlen]
    exact iff_of_true (fun _ h => by cases h) fun hfmt => absurd hfmt.1 hlen
  · rw [if_neg hlen]
    have htag : word32 (served content q 24) 0 = wavFmt := by
      by_contra htag
      rw [chunkNext, if_pos ⟨not_not.1 hlen, htag⟩] at hstop
      exact absurd hstop (Option.some_ne_none _)
    simp only [Prog.run_failIf_bind]
    by_cases hbits : word16 (served content q 24) 22 ≠ 8 ∧ word16 (served content q 24) 22 ≠ 16
    · rw [if_pos hbits]
      exact iff_of_true (fun _ h => by cases h) fun hfmt => absurd hfmt.2.2.1 (not_or.2 hbits)
    · by_cases hchannels : word16 (served content q 24) 10 ≠ 1 ∧ word16 (served content q 24) 10 ≠ 2
      · rw [if_neg hbits, if_pos hchannels]
        exact iff_of_true (fun _ h => by cases h) fun hfmt => absurd hfmt.2.2.2 (not_or.2 hchannels)
      · have hfmt : FmtAt content q := ⟨not_not.1 hlen, htag, by omega, by omega⟩
        rw [if_neg hbits, if_neg hchannels, Prog.run_bind]
        by_cases hend : Walk.after (chunkNext content 8 wavData) fuel (nextPos (served content q 24) q) = none
        · obtain ⟨r, -, -, hr⟩ := hdata.2 hend
          refine iff_of_true (fun s' => ?_) fun _ => hend
          rw [hr, dataStop]
          by_cases hshort : (served content r 8).length ≠ 8
          · rw [if_pos hshort]
            intro h
            cases h
          · rw [if_neg hshort]
            intro h
            cases h
        · refine iff_of_false (fun hret => ?_) fun hall => hend (hall hfmt)
          refine hret s ?_
          rw [hdata.1 hend]

/-- The searches stop for a bound exactly when the lengths in the file lead none of them back to where it has been. -/
theorem returns_iff : (∃ fuel, Returns env content s fuel) ↔ ChunksEnd content := by
  have hfmt := Walk.ends_iff (chunkNext_finite content (show 0 < 24 by decide) wavFmt)
  have hdata := Walk.ends_iff (chunkNext_finite content (show 0 < 8 by decide) wavData)
  by_cases h : IsRiff content
  · constructor
    · rintro ⟨fuel, hret⟩ _
      have hend : Walk.after (chunkNext content 24 wavFmt) fuel 12 = none := by
        by_contra hgo
        refine hret s ?_
        rw [readChunks_run env content s fuel h, Prog.run_bind, (findFmt_walk env content s fuel fuel 12).1 hgo]
      refine ⟨(hfmt 12).1 ⟨fuel, hend⟩, fun q hq hfmtq => ?_⟩
      obtain ⟨q', hq', hstop, hrun⟩ := (findFmt_walk env content s fuel fuel 12).2 hend
      have hnone : chunkNext content 24 wavFmt q = none := if_neg fun hgo => hgo.2 hfmtq.2.1
      obtain rfl := Walk.reaches_end_unique hq hnone hq' hstop
      exact (hdata _).1 ⟨fuel, (readChunks_stop env content s fuel h hrun hstop).1 hret hfmtq⟩
    · intro hall
      obtain ⟨hacyclic, hbehind⟩ := hall h
      obtain ⟨n, hn⟩ := (hfmt 12).2 hacyclic
      obtain ⟨q, hq, hstop, -⟩ := (findFmt_walk env content s n n 12).2 hn
      have hbound : ∃ m, FmtAt content q →
          Walk.after (chunkNext content 8 wavData) m (nextPos (served content q 24) q) = none := by
        by_cases hfmtq : FmtAt content q
        · obtain ⟨m, hm⟩ := (hdata _).2 (hbehind q hq hfmtq)
          exact ⟨m, fun _ => hm⟩
        · exact ⟨0, fun h => absurd h hfmtq⟩
      obtain ⟨m, hm⟩ := hbound
      refine ⟨max n m, ?_⟩
      have hend := Walk.after_none_of_le hn (Nat.le_max_left n m)
      obtain ⟨q', hq', hstop', hrun⟩ := (findFmt_walk env content s (max n m) (max n m) 12).2 hend
      obtain rfl := Walk.reaches_end_unique hq hstop hq' hstop'
      exact (readChunks_stop env content s (max n m) h hrun hstop).2 fun hfmtq =>
        Walk.after_none_of_le (hm hfmtq) (Nat.le_max_right n m)
  · exact iff_of_true ⟨0, readChunks_not_riff env content s 0 h⟩ fun hriff => absurd hriff h

end Loops

end Sound

open Sound

/-- Whatever the file holds, both searches of `sb_play` for a chunk stop after finitely many reads exactly when the lengths in
the file lead none of them back to a position where it has been. -/
theorem chunk_search_stops (env : SoundEnv) (content : List UInt8) (s : Sound) :
    (∃ fuel, Returns env content s fuel) ↔ ChunksEnd content :=
  returns_iff env content s

/-- A file whose first chunk has the length 0xFFFFFFF8: the position behind it is its own. -/
def loopingWav : List UInt8 :=
  [0x52, 0x49, 0x46, 0x46, 28, 0, 0, 0, 0x57, 0x41, 0x56, 0x45, 0x4C, 0x49, 0x53, 0x54, 0xF8, 0xFF, 0xFF, 0xFF] ++
    List.replicate 16 0

theorem chunk_search_loops : ¬∃ fuel, Returns shortEnv loopingWav silent fuel := by
  rw [returns_iff]
  intro h
  have hriff : IsRiff loopingWav := by
    unfold IsRiff
    decide
  exact (h hriff).1 12 ⟨0, rfl⟩ ⟨0, by decide⟩

end NanoS32
