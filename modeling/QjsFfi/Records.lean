import Mathlib.Data.List.Basic
import Mathlib.Data.List.Induction
import Mathlib.Tactic.Common
import QjsFfi.Numerals

namespace Buffers

def slice (b : List α) (start n : ℕ) : List α := (b.drop start).take n
def patch (b : List α) (start : ℕ) (new : List α) : List α := b.take start++new++b.drop (start+new.length)

-- A view of n elements from start on; there is none past the end.
def view (b : List α) (start n : ℕ) : Option (List α) := if start+n ≤ b.length then some (slice b start n) else none

theorem patch_length {b new : List α} (inside : start+new.length ≤ b.length) : (patch b start new).length = b.length := by
  simp [patch]
  omega

theorem patch_middle (front old new back : List α) (same : new.length = old.length) :
    patch (front++old++back) front.length new = front++new++back := by
  have gone : (front++old++back).drop (front.length+new.length) = back := by
    rw [same,← List.length_append,List.drop_left]
  have kept : (front++old++back).take front.length = front := by
    rw [List.append_assoc,List.take_left]
  simp only [patch,gone,kept]

theorem slice_middle (front middle back : List α) : slice (front++middle++back) front.length middle.length = middle := by
  unfold slice
  rw [List.append_assoc,List.drop_left,List.take_left]

theorem view_middle (front middle back : List α) : view (front++middle++back) front.length middle.length = some middle := by
  rw [view,if_pos (by simp),slice_middle]

theorem take_patch {b : List α} (inside : start ≤ b.length) (new : List α) :
    (patch b start new).take (start+new.length) = b.take start++new := by
  have front : (b.take start++new).length = start+new.length := by
    simp
    omega
  unfold patch
  rw [← front,List.take_left]

theorem patch_outside {b new : List α} (inside : start+new.length ≤ b.length) (outside : i < start ∨ start+new.length ≤ i) :
    (patch b start new)[i]? = b[i]? := by
  have front : (b.take start).length = start := by
    simp
    omega
  unfold patch
  rcases outside with below | above
  · rw [List.append_assoc,List.getElem?_append_left (by omega),List.getElem?_take_of_lt below]
  · rw [List.getElem?_append_right (by simp; omega),List.getElem?_drop]
    congr 1
    simp
    omega

end Buffers

namespace Records
open Buffers Numerals

structure Field where
  start : ℕ
  width : ℕ

def Field.Holds (f : Field) (i : ℕ) : Prop := f.start ≤ i ∧ i < f.start+f.width

-- The fields of a record, each in it and no two of them overlapping.
structure Layout (κ : Type u) where
  size : ℕ
  field : κ → Field
  inside : ∀ k, (field k).start+(field k).width ≤ size
  apart : ∀ j k, j ≠ k → (field j).start+(field j).width ≤ (field k).start ∨ (field k).start+(field k).width ≤ (field j).start

@[ext] structure Image (L : Layout κ) where
  bytes : List UInt8
  whole : bytes.length = L.size

def Image.zeros (L : Layout κ) : Image L := ⟨List.replicate L.size 0,List.length_replicate⟩

def Image.read {L : Layout κ} (b : Image L) (k : κ) : ℕ := value (slice b.bytes (L.field k).start (L.field k).width)

def Image.store {L : Layout κ} (b : Image L) (w : κ × ℕ) : Image L :=
  ⟨patch b.bytes (L.field w.1).start (Numerals.bytes (L.field w.1).width w.2),by
    rw [patch_length (by rw [bytes_length,b.whole]; exact L.inside w.1),b.whole]⟩

section Stretches
variable {b : List α}

theorem slice_patch (new : List α) (inside : start ≤ b.length) : slice (patch b start new) start new.length = new := by
  have front : (b.take start).length = start := List.length_take_of_le inside
  have middle := slice_middle (b.take start) new (b.drop (start+new.length))
  rwa [front] at middle

end Stretches

section Images
variable {L : Layout κ} {b : Image L}

theorem slice_length (b : Image L) (k : κ) : (slice b.bytes (L.field k).start (L.field k).width).length = (L.field k).width := by
  have inside := L.inside k
  have whole := b.whole
  rw [slice,List.length_take,List.length_drop]
  omega

theorem read_small (b : Image L) (k : κ) : b.read k < 256^(L.field k).width := by
  have inside : ∀ u : List UInt8, value u < 256^u.length := by
    intro u
    induction u with
    | nil => exact Nat.one_pos
    | cons x rest ih =>
      have small := x.toNat_lt
      rw [value,List.length_cons,Nat.pow_succ]
      omega
  have bound := inside (slice b.bytes (L.field k).start (L.field k).width)
  rwa [slice_length] at bound

theorem store_frame (b : Image L) (outside : ¬ (L.field w.1).Holds i) : (b.store w).bytes[i]? = b.bytes[i]? := by
  have inside := L.inside w.1
  have whole := b.whole
  unfold Field.Holds at outside
  apply patch_outside
  · rw [bytes_length,whole]
    exact inside
  · rw [bytes_length]
    omega

theorem store_own (b : Image L) (k : κ) (n : ℕ) : (b.store (k,n)).read k = n % 256^(L.field k).width := by
  have inside := L.inside k
  have whole := b.whole
  have read := slice_patch (bytes (L.field k).width n) (show (L.field k).start ≤ b.bytes.length by omega)
  rw [bytes_length] at read
  exact (congrArg value read).trans (value_bytes _ n)

end Images

end Records
