import Mathlib.Logic.Function.Basic
import Mathlib.Tactic.Common

/-!
# Writing through a shadow

A device that is slow to write, and a shadow of it in memory: the device is written only where the shadow has another value. While
the shadow agrees with it, a run of writes leaves on the device what the plain writes would.
-/

/-- A device with cells, and the values that the shadow has for them. -/
structure Shadow (ι α β : Type) where
  shadow : ι → α
  device : ι → β

namespace Shadow

variable {ι α β : Type} [DecidableEq ι] {encode : α → β}

/-- The writes of a run that go to the device whatever is there. -/
def plain (encode : α → β) (writes : List (ι × α)) (device : ι → β) : ι → β :=
  writes.foldl (fun d w => Function.update d w.1 (encode w.2)) device

section Writes

variable [DecidableEq α] {blank : α} {inside : ι → Prop} {s : Shadow ι α β}

/-- A write that leaves the device where the shadow has the value already. -/
def write (encode : α → β) (s : Shadow ι α β) (i : ι) (a : α) : Shadow ι α β :=
  if a ≠ s.shadow i then { shadow := Function.update s.shadow i a, device := Function.update s.device i (encode a) } else s

/-- A run of such writes. -/
def run (encode : α → β) (s : Shadow ι α β) (writes : List (ι × α)) : Shadow ι α β :=
  writes.foldl (fun s w => s.write encode w.1 w.2) s

/-- Inside, the device has the value of the shadow, but for those that are blank: of these nothing is known. -/
def Agrees (encode : α → β) (blank : α) (inside : ι → Prop) (s : Shadow ι α β) : Prop :=
  ∀ i, inside i → s.shadow i ≠ blank → s.device i = encode (s.shadow i)

/-- The device after a write is the one after the plain write. -/
theorem device_write (h : s.Agrees encode blank inside) {i : ι} (hi : inside i) {a : α} (ha : a ≠ blank) :
    (s.write encode i a).device = Function.update s.device i (encode a) := by
  unfold write
  split_ifs with hne
  · rfl
  · obtain rfl := not_not.1 hne
    rw [← h i hi ha, Function.update_eq_self]

theorem Agrees.write (h : s.Agrees encode blank inside) {i : ι} (hi : inside i) {a : α} (ha : a ≠ blank) :
    (s.write encode i a).Agrees encode blank inside := by
  intro k hk hne
  rw [device_write h hi ha]
  by_cases hki : k = i
  · subst hki
    have hshadow : (s.write encode k a).shadow k = a := by
      unfold Shadow.write
      split_ifs with hwrite
      · exact Function.update_self k a s.shadow
      · exact (not_not.1 hwrite).symm
    rw [hshadow, Function.update_self]
  · have hshadow : (s.write encode i a).shadow k = s.shadow k := by
      unfold Shadow.write
      split_ifs
      · exact Function.update_of_ne hki a s.shadow
      · rfl
    rw [hshadow] at hne ⊢
    rw [Function.update_of_ne hki]
    exact h k hk hne

/-- A run through the shadow leaves the device as the plain run does, and the shadow in agreement with it. -/
theorem Agrees.run {writes : List (ι × α)} (h : s.Agrees encode blank inside) (hwrites : ∀ w ∈ writes, inside w.1 ∧ w.2 ≠ blank) :
    (s.run encode writes).Agrees encode blank inside ∧ (s.run encode writes).device = plain encode writes s.device := by
  induction writes generalizing s with
  | nil => exact ⟨h, rfl⟩
  | cons w writes ih =>
    obtain ⟨hw, hne⟩ := hwrites w List.mem_cons_self
    obtain ⟨hagrees, hdevice⟩ := ih (h.write hw hne) fun w' hw' => hwrites w' (List.mem_cons_of_mem w hw')
    rw [device_write h hw hne] at hdevice
    exact ⟨hagrees, hdevice⟩

end Writes

end Shadow
