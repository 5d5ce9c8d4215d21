import Mathlib.Data.Nat.Digits.Lemmas
import Mathlib.Tactic.Ring

namespace Numerals

def bytes : ℕ → ℕ → List UInt8
  | 0,_ => []
  | count+1,n => UInt8.ofNat (n % 256) :: bytes count (n / 256)

def value : List UInt8 → ℕ
  | [] => 0
  | b :: rest => b.toNat+256*value rest

theorem bytes_take (kept : k ≤ count) : (bytes count n).take k = bytes k n := by
  induction k generalizing count n with
  | zero => rfl
  | succ k ih =>
    obtain ⟨more,rfl⟩ : ∃ more, count = more+1 := ⟨count-1,by omega⟩
    simp only [bytes,List.take_succ_cons]
    rw [ih (by omega)]

theorem value_bytes (count n : ℕ) : value (bytes count n) = n % 256^count := by
  induction count generalizing n with
  | zero => simp [bytes,value,Nat.mod_one]
  | succ count ih =>
    have low : (UInt8.ofNat (n % 256)).toNat = n % 256 := by simp
    rw [bytes,value,ih,low,Nat.pow_succ,Nat.mul_comm (256^count) 256,Nat.mod_mul]

theorem value_take (kept : k ≤ count) : value ((bytes count n).take k) = n % 256^k := by
  rw [bytes_take kept,value_bytes]

theorem bytes_four (first : a < 256) (second : b < 256) (third : c < 256) (fourth : d < 256) :
    bytes 4 (a*2^24+b*2^16+c*2^8+d) = [.ofNat d,.ofNat c,.ofNat b,.ofNat a] := by
  have one : (a*2^24+b*2^16+c*2^8+d)%256 = d := by omega
  have two : (a*2^24+b*2^16+c*2^8+d)/256%256 = c := by omega
  have three : (a*2^24+b*2^16+c*2^8+d)/256/256%256 = b := by omega
  have four : (a*2^24+b*2^16+c*2^8+d)/256/256/256%256 = a := by omega
  simp only [bytes,one,two,three,four]

def bigEndian (count n : ℕ) : List UInt8 := (bytes count n).reverse
def bigEndianValue (b : List UInt8) : ℕ := value b.reverse

@[simp] theorem bytes_length (count n : ℕ) : (bytes count n).length = count := by
  induction count generalizing n with
  | zero => rfl
  | succ count ih => simp [bytes,ih]

@[simp] theorem bigEndian_length (count n : ℕ) : (bigEndian count n).length = count := by
  simp [bigEndian]

theorem bigEndianValue_bigEndian (small : n < 256^count) : bigEndianValue (bigEndian count n) = n := by
  rw [bigEndianValue,bigEndian,List.reverse_reverse,value_bytes,Nat.mod_eq_of_lt small]

-- Hexadecimal text: lowercase when written, either case when read.
def hexDigit (c : Char) : Option ℕ :=
  if '0' ≤ c ∧ c ≤ '9' then some (c.toNat - '0'.toNat)
  else if 'a' ≤ c ∧ c ≤ 'f' then some (c.toNat - 'a'.toNat + 10)
  else if 'A' ≤ c ∧ c ≤ 'F' then some (c.toNat - 'A'.toNat + 10)
  else none

def hexText (n : ℕ) : List Char :=
  if n = 0 then ['0'] else (Nat.digits 16 n).reverse.map Nat.digitChar

def readHex (text : List Char) : Option ℕ :=
  if text = [] then none
  else (text.mapM hexDigit).map (fun digits => Nat.ofDigits 16 digits.reverse)

theorem hexDigit_digitChar (small : d < 16) : hexDigit (Nat.digitChar d) = some d := by
  interval_cases d <;> rfl

theorem mapM_digits (digits : List ℕ) (small : ∀ d ∈ digits, d < 16) :
    (digits.map Nat.digitChar).mapM hexDigit = some digits := by
  induction digits with
  | nil => rfl
  | cons d rest ih =>
    have tail := ih (fun x member => small x (List.mem_cons_of_mem _ member))
    simp [hexDigit_digitChar (small d List.mem_cons_self),tail]

theorem readHex_hexText (n : ℕ) : readHex (hexText n) = some n := by
  by_cases zero : n = 0
  · subst n; rfl
  · have present : (Nat.digits 16 n).reverse.map Nat.digitChar ≠ [] := by
      simpa [Nat.digits_eq_nil_iff_eq_zero] using zero
    have small : ∀ d ∈ (Nat.digits 16 n).reverse, d < 16 := by
      intro d member
      exact Nat.digits_lt_base (by decide) (List.mem_reverse.mp member)
    simp only [hexText,if_neg zero,readHex,if_neg present,mapM_digits _ small]
    simp [Nat.ofDigits_digits]

end Numerals
