import NanoS32.Hwio.Disk

/-!
# Transfers of one sector

How the next transfer of a sector ends: the status it returns, what it does to the disk or to the buffer, and that it is then
over.
-/

namespace NanoS32

/-- The status of the next transfer. -/
def pending (faults : List Fault) : Nat := (faults.head?.map Fault.status).getD noError

/-- Whether the next transfer, a write, reaches the sector. -/
def reaches (faults : List Fault) : Bool :=
  match faults with
  | [] => true
  | f :: _ => f.status = noError || f.stored

/-- What the next transfer, a read, leaves in the buffer when the sector holds `b`. -/
def delivered (faults : List Fault) (b : Block) : Block :=
  match faults with
  | [] => b
  | f :: _ => if f.status = noError then b else f.buff

theorem reaches_of_pending {faults : List Fault} (h : pending faults = noError) : reaches faults = true := by
  cases faults with
  | nil => rfl
  | cons f rest =>
    have hf : f.status = noError := h
    simp [reaches, hf]

theorem delivered_of_pending {faults : List Fault} (h : pending faults = noError) (b : Block) : delivered faults b = b := by
  cases faults with
  | nil => rfl
  | cons f rest => exact if_pos h

/-- The machine when the next transfer is over, but for what the transfer has done. -/
def Sys.past (s : Sys) : Sys := { s with faults := s.faults.drop 1 }

@[simp] theorem Sys.past_faults (s : Sys) : s.past.faults = s.faults.drop 1 := rfl

@[simp] theorem Sys.past_disk (s : Sys) : s.past.disk = s.disk := rfl

theorem Sys.past_of_nil {s : Sys} (h : s.faults = []) : s.past = s := by
  rw [past, h, List.drop_nil, ← h]

theorem readSector_eq (d k : Nat) (s : Sys) :
    (readSector d k).run s = .ok (pending s.faults, delivered s.faults (s.disk d k)) s.past := by
  cases hf : s.faults with
  | nil =>
    rw [Sys.past_of_nil hf]
    simp only [readSector, hf]
    rfl
  | cons f rest =>
    have hpast : s.past = { s with faults := rest } := by rw [Sys.past, hf]; rfl
    rw [hpast]
    by_cases h : f.status = noError
    · simp only [readSector, delivered, hf, if_pos h]
      rw [pending, List.head?_cons, Option.map_some, h]
      rfl
    · simp only [readSector, delivered, hf, if_neg h]
      rfl

theorem writeSector_eq (d k : Nat) (b : Block) (s : Sys) :
    (writeSector d k b).run s = .ok (pending s.faults) (if reaches s.faults then s.past.setBlock d k b else s.past) := by
  cases hf : s.faults with
  | nil =>
    rw [Sys.past_of_nil hf]
    simp only [writeSector, hf]
    rfl
  | cons f rest =>
    have hpast : s.past = { s with faults := rest } := by rw [Sys.past, hf]; rfl
    rw [hpast]
    by_cases h : f.status = noError
    · have hreaches : reaches (f :: rest) = true := by simp [reaches, h]
      rw [if_pos hreaches]
      simp only [writeSector, hf, if_pos h]
      rw [pending, List.head?_cons, Option.map_some, h]
      rfl
    · have hreaches : reaches (f :: rest) = f.stored := by simp [reaches, h]
      rw [hreaches]
      simp only [writeSector, hf, if_neg h]
      by_cases hs : f.stored = true
      · rw [if_pos hs, if_pos hs]
        rfl
      · rw [if_neg hs, if_neg hs]
        rfl

theorem readSector_quiet {s : Sys} (hs : s.faults = []) (d k : Nat) :
    (readSector d k).run s = .ok (noError, s.disk d k) s := by
  simp only [readSector, hs]

@[simp] theorem Sys.setBlock_faults (s : Sys) (d k : Nat) (b : Block) : (s.setBlock d k b).faults = s.faults := rfl

/-- A transfer of a sector, a read, returns the next status. -/
theorem readSector_pending (d k : Nat) (s : Sys) :
    ∃ b s', (readSector d k).run s = .ok (pending s.faults, b) s' ∧ s'.faults = s.faults.drop 1 :=
  ⟨_, _, readSector_eq d k s, rfl⟩

/-- A transfer of a sector, a write, returns the next status. -/
theorem writeSector_pending (d k : Nat) (b : Block) (s : Sys) :
    ∃ s', (writeSector d k b).run s = .ok (pending s.faults) s' ∧ s'.faults = s.faults.drop 1 := by
  refine ⟨_, writeSector_eq d k b s, ?_⟩
  split
  · rfl
  · rfl

end NanoS32
