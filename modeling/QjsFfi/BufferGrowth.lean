import QjsFfi.TelnetBuffers
import QjsFfi.Syscalls

namespace QjsFfi
open BinaryFloat Activation Histories Buffers

structure Stretch where
  start : Word
  size : ℕ
  deriving DecidableEq

def Stretch.addresses (s : Stretch) : List Word := (List.range s.size).map (fun i => s.start+BitVec.ofNat 64 i)

def LiveBuffer.own (b : LiveBuffer) : Stretch := ⟨b.data,b.bytes.length⟩
def LiveBuffer.argument (b : LiveBuffer) : JSValueConst := (JSValue.arrayBuffer ⟨some b.data,b.bytes⟩).argument

structure Copied where
  source : Stretch
  buffer : LiveBuffer

def toArrayBuffer (host : Host) (given : List JSValueConst) : Option Copied :=
  match (argAt given 0).toInt64,(argAt given 1).toInt64 with
  | some p,some n =>
    if n.toInt < 0 then none
    else (host.malloc n.toNat).map (fun address => ⟨⟨p,n.toNat⟩,⟨address.word,host.bytesAt p n.toNat,address.present⟩⟩)
  | _,_ => none

theorem toArrayBuffer_value (host : Host) (given : List JSValueConst) :
    toarraybufferValue host given =
      match toArrayBuffer host given with
      | some c => .arrayBuffer ⟨some c.buffer.data,c.buffer.bytes⟩
      | none => .exception := by
  unfold toarraybufferValue toArrayBuffer
  cases (argAt given 0).toInt64 with
  | none => rfl
  | some p =>
    cases (argAt given 1).toInt64 with
    | none => rfl
    | some n =>
      by_cases negative : n.toInt < 0
      · simp [negative]
      · simp only [negative,if_false,JS_NewArrayBufferCopy]
        cases host.malloc n.toNat <;> rfl

theorem toArrayBuffer_reads (made : toArrayBuffer host given = some c) :
    c.buffer.bytes = c.source.addresses.map host.memory ∧ c.source.size < 2^64 := by
  unfold toArrayBuffer at made
  split at made
  · rename_i p n _ _
    split at made
    · cases made
    · obtain ⟨address,_,rfl⟩ := Option.map_eq_some_iff.mp made
      exact ⟨by simp [Stretch.addresses,Host.bytesAt],n.isLt⟩
  · cases made

theorem addresses_length (s : Stretch) : s.addresses.length = s.size := by simp [Stretch.addresses]

theorem addresses_nodup {s : Stretch} (bound : s.size < 2^64) : s.addresses.Nodup := by
  refine List.Nodup.map_on ?_ List.nodup_range
  intro i inside j within same
  have left := List.mem_range.mp inside
  have right := List.mem_range.mp within
  have low : BitVec.ofNat 64 i = BitVec.ofNat 64 j := (BitVec.add_right_inj s.start).mp same
  have equal := congrArg BitVec.toNat low
  simp only [BitVec.toNat_ofNat] at equal
  omega

-- More addresses than the buffer has bytes are not all its own.
theorem overread {s t : Stretch} (bound : s.size < 2^64) (inside : ∀ a ∈ s.addresses, a ∈ t.addresses) : s.size ≤ t.size := by
  have fewer := ((addresses_nodup bound).subperm inside).length_le
  rwa [addresses_length,addresses_length] at fewer

-- The text that stands for an address; a text that is no numeral, such as (nil), is NaN.
def textArgument (p : JSValue) : JSValueConst := ⟨p,none,some ⟨.nan,trivial⟩,none⟩
def numberArgument (n : ℤ) : JSValueConst := (JS_NewFloat64 (.ofInt binary64 n)).argument

structure Appended where
  buf : LiveBuffer
  numBytes : ℤ
  copied : List Stretch

namespace Process

-- CloneBuf of telnet.js with the functions of the module: toArrayBuffer(toPointer(buf), newLen).
def CloneBuf (host : Host) (buf : LiveBuffer) (newLen : ℤ) : Option Copied :=
  let p := topointerValue [buf.argument]
  if p = .exception then none else toArrayBuffer host [textArgument p,numberArgument newLen]

def roomFor (host : Host) (buf : LiveBuffer) (numBytes : ℤ) (n : ℕ) : Option (LiveBuffer × List Stretch) :=
  if AvailableBytes buf.bytes numBytes < n then (CloneBuf host buf (numBytes+n)).map (fun c => (c.buffer,[c.source]))
  else some (buf,[])

def Append (host : Host) (buf : LiveBuffer) (numBytes : ℤ) (chars : List AppendArgument) : Option Appended := do
  let n : ℕ := (chars.map AppendArgument.size).sum
  let (buf,copied) ← roomFor host buf numBytes n
  if 0 ≤ numBytes ∧ numBytes+n ≤ buf.bytes.length then
    some ⟨⟨buf.data,patch buf.bytes numBytes.toNat (chars.flatMap AppendArgument.bytes),buf.present⟩,numBytes+n,copied⟩
  else none

end Process

theorem CloneBuf_runs (host : Host) (buf : LiveBuffer) (newLen : ℤ) (s : Ctx) :
    ∃ p t, Gives (js_topointer [buf.argument]) s p t [] ∧
      ∃ u, Gives (js_toarraybuffer host [textArgument p,numberArgument newLen]) t
        (match Process.CloneBuf host buf newLen with
          | some c => .arrayBuffer ⟨some c.buffer.data,c.buffer.bytes⟩
          | none => .exception) u [] := by
  have text : topointerValue [buf.argument] = .string (pointerText buf.data) := rfl
  have present : ¬ JSValue.string (pointerText buf.data) = .exception := nofun
  have ran := js_toarraybuffer_gives host [textArgument (topointerValue [buf.argument]),numberArgument newLen]
    (s.bump 0 (topointerRaises [buf.argument]))
  rw [toArrayBuffer_value] at ran
  have cloned : Process.CloneBuf host buf newLen =
      toArrayBuffer host [textArgument (topointerValue [buf.argument]),numberArgument newLen] := by
    simp only [Process.CloneBuf,text,if_neg present]
  rw [cloned]
  exact ⟨_,_,js_topointer_gives [buf.argument] s,_,ran⟩

def AppendArgument.IsBytes : AppendArgument → Prop
  | .number n => ∃ byte : UInt8, n = some (byte.toNat : ℤ)
  | .string codes => ∀ code ∈ codes, code.toNat < 256

def AppendArgument.codes : AppendArgument → List ℕ
  | .number n => [(n.getD 0).toNat]
  | .string codes => codes.map UInt16.toNat

-- Append for a caller: the bytes it keeps and adds, the count, and nothing read past the buffer.
def AppendsInside (host : Host) (buf : LiveBuffer) (numBytes : ℕ) (chars : List AppendArgument) : Prop :=
  let new := chars.flatMap AppendArgument.codes
  ∃ a, Process.Append host buf numBytes chars = some a ∧ a.numBytes = ((numBytes+new.length : ℕ) : ℤ) ∧
    (a.buf.bytes.take (numBytes+new.length)).map UInt8.toNat = (buf.bytes.take numBytes).map UInt8.toNat++new ∧
    ∀ s ∈ a.copied, ∀ address ∈ s.addresses, address ∈ buf.own.addresses

theorem AppendArgument.bytes_codes {c : AppendArgument} (plain : c.IsBytes) : c.bytes.map UInt8.toNat = c.codes := by
  cases c with
  | number n =>
    obtain ⟨byte,rfl⟩ := plain
    simp [AppendArgument.bytes,AppendArgument.codes,ToUint8]
  | string codes =>
    simp only [AppendArgument.bytes,AppendArgument.codes,List.map_map]
    refine List.map_congr_left ?_
    intro code member
    have small := plain code member
    simp only [Function.comp_apply,UInt16.toNat_toUInt8]
    omega

theorem bytes_codes {chars : List AppendArgument} (plain : ∀ c ∈ chars, c.IsBytes) :
    (chars.flatMap AppendArgument.bytes).map UInt8.toNat = chars.flatMap AppendArgument.codes := by
  rw [List.map_flatMap]
  exact List.flatMap_congr (fun c member => AppendArgument.bytes_codes (plain c member))

theorem codes_length {chars : List AppendArgument} : (chars.flatMap AppendArgument.codes).length = (chars.map AppendArgument.size).sum := by
  rw [List.length_flatMap]
  congr 1
  refine List.map_congr_left ?_
  intro c _
  cases c <;> simp [AppendArgument.codes,AppendArgument.size]

theorem fitting_inside {host : Host} {buf : LiveBuffer} {chars : List AppendArgument} (plain : ∀ c ∈ chars, c.IsBytes)
    (fits : numBytes+(chars.map AppendArgument.size).sum ≤ buf.bytes.length) : AppendsInside host buf numBytes chars := by
  have enough : ¬ AvailableBytes buf.bytes numBytes < ((chars.map AppendArgument.size).sum : ℕ) := by
    unfold AvailableBytes
    omega
  have room : (0 : ℤ) ≤ numBytes ∧ (numBytes : ℤ)+(chars.map AppendArgument.size).sum ≤ buf.bytes.length := by omega
  have size := AppendArgument.bytes_length chars
  refine ⟨⟨⟨buf.data,patch buf.bytes numBytes (chars.flatMap AppendArgument.bytes),buf.present⟩,
    numBytes+(chars.map AppendArgument.size).sum,[]⟩,?_,?_,?_,by simp⟩
  · simp only [Process.Append,Process.roomFor,if_neg enough,Option.bind_eq_bind,Option.bind_some,if_pos room,Int.toNat_natCast]
  · rw [codes_length,Int.natCast_add]
  · rw [codes_length,← size,take_patch (by omega),List.map_append,bytes_codes plain]

-- A copy that makes room is longer than the buffer, so some of it is read from past the end.
theorem inside_fits {host : Host} {buf : LiveBuffer} {chars : List AppendArgument}
    (inside : AppendsInside host buf numBytes chars) : numBytes+(chars.map AppendArgument.size).sum ≤ buf.bytes.length := by
  obtain ⟨a,ran,_,_,own⟩ := inside
  by_contra short
  have grows : AvailableBytes buf.bytes numBytes < ((chars.map AppendArgument.size).sum : ℕ) := by
    unfold AvailableBytes
    omega
  simp only [Process.Append,Process.roomFor,if_pos grows,Option.bind_eq_bind,Option.bind_eq_some_iff,Option.map_eq_some_iff] at ran
  obtain ⟨_,⟨c,cloned,rfl⟩,ran⟩ := ran
  split at ran
  · rename_i room
    cases ran
    have made : toArrayBuffer host [textArgument (topointerValue [buf.argument]),numberArgument (numBytes+(chars.map AppendArgument.size).sum)] = some c := by
      unfold Process.CloneBuf at cloned
      dsimp only at cloned
      split at cloned
      · cases cloned
      · exact cloned
    obtain ⟨bytes,bound⟩ := toArrayBuffer_reads made
    have long : c.buffer.bytes.length = c.source.size := by rw [bytes,List.length_map,addresses_length]
    have fewer : c.source.size ≤ buf.bytes.length := overread (t := buf.own) bound (own c.source List.mem_cons_self)
    have room' := room.2
    dsimp only at room'
    omega
  · cases ran

theorem append_inside {host : Host} {buf : LiveBuffer} {numBytes : ℕ} {chars : List AppendArgument}
    (plain : ∀ c ∈ chars, c.IsBytes) :
    AppendsInside host buf numBytes chars ↔ numBytes+(chars.map AppendArgument.size).sum ≤ buf.bytes.length :=
  ⟨inside_fits,fitting_inside plain⟩

def fullBuffer : LiveBuffer := ⟨0x5000,[1,2,3,4],by decide⟩
def growHost : Host :=
  ⟨fun _ _ => 0,fun _ => 0,fun _ _ => 0,0,fun _ => 0,fun _ => .string "",fun _ => some ⟨0x7000,by decide⟩,0,0,0⟩

theorem letter_plain : ∀ c ∈ [AppendArgument.number (some 65)], c.IsBytes := by
  intro c member
  rw [List.mem_singleton.mp member]
  exact ⟨65,rfl⟩

theorem append_inside_letter : AppendsInside growHost fullBuffer 3 [.number (some 65)] :=
  (append_inside letter_plain).mpr (by decide)

-- Append(buf, 4, 65) on the full buffer copies five bytes from where it begins.
theorem fifth_byte_read : (Process.Append growHost fullBuffer 4 [.number (some 65)]).map Appended.copied = some [⟨0x5000,5⟩] ∧
    0x5004 ∈ (Stretch.mk 0x5000 5).addresses ∧ 0x5004 ∉ fullBuffer.own.addresses ∧
    ¬ ∀ host (buf : LiveBuffer) (numBytes : ℕ) chars, numBytes ≤ buf.bytes.length → (∀ c ∈ chars, AppendArgument.IsBytes c) →
      AppendsInside host buf numBytes chars := by
  refine ⟨by decide +kernel,by decide,by decide,?_⟩
  intro claimed
  have fits := inside_fits (claimed growHost fullBuffer 4 [.number (some 65)] (by decide) letter_plain)
  exact absurd fits (by decide)

def LiveBuffer.behind (b : LiveBuffer) (host : Host) (buf : List UInt8) (i : ℕ) : UInt8 :=
  host.memory (b.data+BitVec.ofNat 64 (buf.length+i))

theorem bytesAt_behind {b : LiveBuffer} (resident : Resident host b.data b.bytes) (n : ℕ) :
    host.bytesAt b.data n = (b.bytes++(List.range (n-b.bytes.length)).map (b.behind host b.bytes)).take n := by
  apply List.ext_getElem
  · simp [Host.bytesAt]
    omega
  · intro i below _
    have inside : i < n := by simpa [Host.bytesAt] using below
    simp only [Host.bytesAt,List.getElem_map,List.getElem_range,List.getElem_take]
    by_cases own : i < b.bytes.length
    · rw [List.getElem_append_left own,resident i own]
    · have place : b.bytes.length+(i-b.bytes.length) = i := by omega
      rw [List.getElem_append_right (by omega),List.getElem_map,List.getElem_range,LiveBuffer.behind,place]

theorem textArgument_toInt64 {a : Word} (present : a ≠ 0) (small : a.toNat ≤ 2^53) :
    (textArgument (.string (pointerText a))).toInt64 = some a := pointerText_toInt64 present small rfl

theorem numberArgument_toInt64 {n : ℤ} (exact : n.natAbs ≤ 2^53) : (numberArgument n).toInt64 = some (BitVec.ofInt 64 n) :=
  numeric_toInt64 (JS_NewFloat64_ofInt exact)

theorem CloneBuf_refines {b : LiveBuffer} {n : ℕ} (resident : Resident host b.data b.bytes) (near : b.data.toNat ≤ 2^53) (exact : n ≤ 2^53)
    (room : host.malloc n = some address) :
    ∃ c, Process.CloneBuf host b n = some c ∧ c.source = ⟨b.data,n⟩ ∧ some c.buffer.bytes = CloneBuf (b.behind host) b.bytes n := by
  have text : topointerValue [b.argument] = .string (pointerText b.data) := rfl
  have first : argAt [textArgument (.string (pointerText b.data)),numberArgument n] 0 = textArgument (.string (pointerText b.data)) := rfl
  have second : argAt [textArgument (.string (pointerText b.data)),numberArgument n] 1 = numberArgument n := rfl
  obtain ⟨signed,count⟩ := natural_word (show n < 2^63 by omega)
  have natural : ¬ (n : ℤ) < 0 := by omega
  refine ⟨⟨⟨b.data,n⟩,⟨address.word,host.bytesAt b.data n,address.present⟩⟩,?_,rfl,?_⟩
  · simp only [Process.CloneBuf,text,toArrayBuffer,first,second,textArgument_toInt64 b.present near,
      numberArgument_toInt64 (show ((n : ℤ)).natAbs ≤ 2^53 by simpa using exact),signed,count,natural,if_false,room]
    rfl
  · rw [CloneBuf,if_neg natural,bytesAt_behind resident]
    rfl

theorem Append_refines {b : LiveBuffer} {numBytes : ℕ} {chars : List AppendArgument} (resident : Resident host b.data b.bytes)
    (near : b.data.toNat ≤ 2^53) (exact : numBytes+(chars.map AppendArgument.size).sum ≤ 2^53)
    (room : ∀ n, (host.malloc n).isSome = true) :
    (Process.Append host b numBytes chars).map (fun a => (a.buf.bytes,a.numBytes)) = Append (b.behind host) b.bytes numBytes chars := by
  obtain ⟨address,found⟩ := Option.isSome_iff_exists.mp (room (numBytes+(chars.map AppendArgument.size).sum))
  obtain ⟨c,cloned,_,same⟩ := CloneBuf_refines resident near exact found
  rw [Int.natCast_add] at cloned same
  simp only [Process.Append,Process.roomFor,Append,roomFor]
  by_cases grows : AvailableBytes b.bytes numBytes < ((chars.map AppendArgument.size).sum : ℕ)
  · simp only [if_pos grows,cloned,← same,Option.map_some,Option.bind_eq_bind,Option.bind_some]
    split <;> rfl
  · simp only [if_neg grows,Option.bind_eq_bind,Option.bind_some]
    split <;> rfl

-- What a growing Append returns is right all the same; only what it has read is not all its own.
theorem Append_content {b : LiveBuffer} {numBytes : ℕ} {chars : List AppendArgument} (resident : Resident host b.data b.bytes)
    (near : b.data.toNat ≤ 2^53) (exact : numBytes+(chars.map AppendArgument.size).sum ≤ 2^53)
    (room : ∀ n, (host.malloc n).isSome = true) (filled : numBytes ≤ b.bytes.length) :
    ∃ a, Process.Append host b numBytes chars = some a ∧
      a.numBytes = ((numBytes+(chars.flatMap AppendArgument.bytes).length : ℕ) : ℤ) ∧
      a.buf.bytes.take (numBytes+(chars.flatMap AppendArgument.bytes).length) = b.bytes.take numBytes++chars.flatMap AppendArgument.bytes := by
  have refines := Append_refines resident near exact room
  obtain ⟨next,ran,_,_,content⟩ := Append_gives (b.behind host) filled chars
  rw [ran] at refines
  obtain ⟨a,made,same⟩ := Option.map_eq_some_iff.mp refines
  obtain ⟨bytes,count⟩ := Prod.mk.inj same
  exact ⟨a,made,count,bytes ▸ content⟩

end QjsFfi
