import QjsFfi.DescriptorSets
import QjsFfi.Records

namespace QjsFfi
open Buffers

inductive AppendArgument where
  | number (n : JSNumber)
  | string (codes : List UInt16)

def AppendArgument.size : AppendArgument → ℕ | .number _ => 1 | .string codes => codes.length
def AppendArgument.bytes : AppendArgument → List UInt8 | .number n => [ToUint8 n] | .string codes => codes.map UInt16.toUInt8

def AvailableBytes (buf : List UInt8) (numBytes : ℤ) : ℤ := buf.length-numBytes

section Memory
-- The bytes of the process behind the data of a buffer.
variable (memory : List UInt8 → ℕ → UInt8)

-- toArrayBuffer(toPointer(buf), n) copies n bytes from where the data begins.
def CloneBuf (buf : List UInt8) (newLen : ℤ) : Option (List UInt8) :=
  if newLen < 0 then none
  else some ((buf++(List.range (newLen.toNat-buf.length)).map (memory buf)).take newLen.toNat)

def roomFor (buf : List UInt8) (numBytes : ℤ) (n : ℕ) : Option (List UInt8) :=
  if AvailableBytes buf numBytes < n then CloneBuf memory buf (numBytes+n) else some buf

-- new Uint8Array(buf, numBytes, n) throws a RangeError outside the buffer.
def Append (buf : List UInt8) (numBytes : ℤ) (chars : List AppendArgument) : Option (List UInt8 × ℤ) := do
  let n : ℕ := (chars.map AppendArgument.size).sum
  let buf ← roomFor memory buf numBytes n
  if 0 ≤ numBytes ∧ numBytes+n ≤ buf.length then
    some (patch buf numBytes.toNat (chars.flatMap AppendArgument.bytes),numBytes+n)
  else none

end Memory

theorem AppendArgument.bytes_length (chars : List AppendArgument) :
    (chars.flatMap AppendArgument.bytes).length = (chars.map AppendArgument.size).sum := by
  rw [List.length_flatMap]
  congr 1
  refine List.map_congr_left ?_
  intro c _
  cases c <;> simp [AppendArgument.bytes,AppendArgument.size]

theorem CloneBuf_grows (memory : List UInt8 → ℕ → UInt8) {buf : List UInt8} {newLen : ℤ} (longer : (buf.length : ℤ) ≤ newLen) :
    ∃ more, CloneBuf memory buf newLen = some (buf++more) ∧ ((buf++more).length : ℤ) = newLen := by
  have positive : ¬newLen < 0 := by omega
  have whole : (buf++(List.range (newLen.toNat-buf.length)).map (memory buf)).length = newLen.toNat := by
    simp
    omega
  refine ⟨(List.range (newLen.toNat-buf.length)).map (memory buf),?_,?_⟩
  · rw [CloneBuf,if_neg positive,List.take_of_length_le (Nat.le_of_eq whole)]
  · rw [whole]
    omega

theorem roomFor_gives (memory : List UInt8 → ℕ → UInt8) (buf : List UInt8) (numBytes n : ℕ) :
    ∃ more, roomFor memory buf numBytes n = some (buf++more) ∧ numBytes+n ≤ (buf++more).length := by
  unfold roomFor AvailableBytes
  split
  · rename_i short
    obtain ⟨more,grown,long⟩ := CloneBuf_grows memory (show (buf.length : ℤ) ≤ numBytes+n by omega)
    exact ⟨more,grown,by omega⟩
  · rename_i enough
    refine ⟨[],by rw [List.append_nil],?_⟩
    rw [List.append_nil]
    omega

theorem Append_gives (memory : List UInt8 → ℕ → UInt8) {buf : List UInt8} {numBytes : ℕ} (filled : numBytes ≤ buf.length) (chars : List AppendArgument) :
    ∃ next : List UInt8, Append memory buf numBytes chars = some (next,((numBytes+(chars.flatMap AppendArgument.bytes).length : ℕ) : ℤ)) ∧
      buf.length ≤ next.length ∧ numBytes+(chars.flatMap AppendArgument.bytes).length ≤ next.length ∧
      next.take (numBytes+(chars.flatMap AppendArgument.bytes).length) = buf.take numBytes++chars.flatMap AppendArgument.bytes := by
  have size := AppendArgument.bytes_length chars
  obtain ⟨more,grown,enough⟩ := roomFor_gives memory buf numBytes (chars.flatMap AppendArgument.bytes).length
  have inside : (0 : ℤ) ≤ numBytes ∧ (numBytes : ℤ)+(chars.flatMap AppendArgument.bytes).length ≤ (buf++more).length := by omega
  refine ⟨patch (buf++more) numBytes (chars.flatMap AppendArgument.bytes),?_,?_,?_,?_⟩
  · simp only [Append,← size,grown,Option.bind_eq_bind,Option.bind_some,if_pos inside,Int.toNat_natCast,Int.natCast_add]
  · rw [patch_length enough,List.length_append]
    omega
  · rw [patch_length enough]
    exact enough
  · rw [take_patch (by simp; omega),List.take_append_of_le_length filled]

end QjsFfi
