import Mathlib.Data.Nat.Bitwise
import Mathlib.Data.List.Range
import Mathlib.Tactic.Common

namespace Bitmaps

-- Bit k of a map is bit k % 8 of byte k / 8.
def member (b : List UInt8) (k : ℕ) : Bool := (b[k/8]?).any (fun byte => byte.toBitVec.getLsbD (k%8))

def update (b : List UInt8) (k : ℕ) (f : UInt8 → UInt8) : List UInt8 := b.modify (k/8) f

structure Writes (f : UInt8 → UInt8) (j : ℕ) (value : Bool) : Prop where
  own : ∀ byte : UInt8, (f byte).toBitVec.getLsbD j = value
  others : ∀ byte : UInt8, ∀ i < 8, i ≠ j → (f byte).toBitVec.getLsbD i = byte.toBitVec.getLsbD i

theorem member_inside (present : member b k = true) : k < 8*b.length := by
  unfold member at present
  rw [Option.any_eq_true] at present
  obtain ⟨byte,found,_⟩ := present
  have inside := (List.getElem?_eq_some_iff.mp found).1
  omega

theorem member_update (writes : Writes f (k%8) value) (inside : k < 8*b.length) (i : ℕ) :
    member (update b k f) i = if i = k then value else member b i := by
  have within : k/8 < b.length := by omega
  unfold member update
  rw [List.getElem?_modify]
  by_cases own : i = k
  · subst own
    simp [within,writes.own]
  · rw [if_neg own]
    by_cases shared : k/8 = i/8
    · have other : i%8 ≠ k%8 := by omega
      have kept := fun byte => writes.others byte (i%8) (Nat.mod_lt _ (Nat.succ_pos 7)) other
      cases found : b[i/8]? with
      | none => simp
      | some byte => simpa [found,shared] using kept byte
    · simp [shared]

@[simp] theorem member_zero (n k : ℕ) : member (List.replicate n 0) k = false := by
  unfold member
  rw [List.getElem?_replicate]
  split <;> simp

def members (b : List UInt8) : List ℕ :=
  (List.range b.length).flatMap (fun i => ((List.range 8).filter (fun j => member b (i*8+j))).map (fun j => i*8+j))

theorem mem_members : k ∈ members b ↔ member b k = true := by
  simp only [members,List.mem_flatMap,List.mem_range,List.mem_map,List.mem_filter]
  constructor
  · rintro ⟨i,_,j,⟨_,present⟩,rfl⟩
    exact present
  · intro present
    have inside := member_inside present
    have split : k/8*8+k%8 = k := by omega
    exact ⟨k/8,by omega,k%8,⟨Nat.mod_lt _ (by decide),split.symm ▸ present⟩,split⟩

theorem members_sorted (b : List UInt8) : (members b).Pairwise (· < ·) := by
  unfold members
  rw [List.pairwise_flatMap]
  refine ⟨?_,?_⟩
  · intro i _
    rw [List.pairwise_map]
    exact (List.pairwise_lt_range.filter _).imp (fun below => by omega)
  · refine List.pairwise_lt_range.imp ?_
    intro i k below x first y second
    simp only [List.mem_map,List.mem_filter,List.mem_range] at first second
    obtain ⟨p,⟨small,_⟩,rfl⟩ := first
    obtain ⟨q,_,rfl⟩ := second
    omega

theorem sorted_last {l : List ℕ} (sorted : l.Pairwise (· < ·)) : l.getLast? = some m ↔ m ∈ l ∧ ∀ k ∈ l, k ≤ m := by
  constructor
  · intro last
    obtain ⟨front,rfl⟩ := List.getLast?_eq_some_iff.mp last
    refine ⟨by simp,?_⟩
    intro k member
    rcases List.mem_append.mp member with early | own
    · exact Nat.le_of_lt ((List.pairwise_append.mp sorted).2.2 k early m List.mem_cons_self)
    · exact Nat.le_of_eq (List.mem_singleton.mp own)
  · intro ⟨member,greatest⟩
    obtain ⟨n,last⟩ : ∃ n, l.getLast? = some n := by
      cases l with
      | nil => cases member
      | cons x rest => exact ⟨_,List.getLast?_eq_some_getLast (List.cons_ne_nil x rest)⟩
    obtain ⟨front,rfl⟩ := List.getLast?_eq_some_iff.mp last
    rcases List.mem_append.mp member with early | own
    · have below := (List.pairwise_append.mp sorted).2.2 m early n List.mem_cons_self
      have above := greatest n (by simp)
      omega
    · rw [last,List.mem_singleton.mp own]

end Bitmaps
