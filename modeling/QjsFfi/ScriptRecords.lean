import QjsFfi.Records
import QjsFfi.DescriptorSets

namespace QjsFfi
open Records Buffers

def NCC : ℕ := 8
def NCCS : ℕ := 19

inductive TimevalField where | tv_sec | tv_usec
  deriving DecidableEq

inductive WinsizeField where | ws_row | ws_col | ws_xpixel | ws_ypixel
  deriving DecidableEq

inductive TermioField where | c_iflag | c_oflag | c_cflag | c_lflag | c_line | c_cc (i : Fin NCC)
  deriving DecidableEq

inductive TermiosField where | c_iflag | c_oflag | c_cflag | c_lflag | c_line | c_cc (i : Fin NCCS)
  deriving DecidableEq

def TimevalField.field : TimevalField → Field | .tv_sec => ⟨0,8⟩ | .tv_usec => ⟨8,8⟩

def WinsizeField.field : WinsizeField → Field | .ws_row => ⟨0,2⟩ | .ws_col => ⟨2,2⟩ | .ws_xpixel => ⟨4,2⟩ | .ws_ypixel => ⟨6,2⟩

def TermioField.field : TermioField → Field
  | .c_iflag => ⟨0,2⟩ | .c_oflag => ⟨2,2⟩ | .c_cflag => ⟨4,2⟩ | .c_lflag => ⟨6,2⟩ | .c_line => ⟨8,1⟩ | .c_cc i => ⟨9+i,1⟩

def TermiosField.field : TermiosField → Field
  | .c_iflag => ⟨0,4⟩ | .c_oflag => ⟨4,4⟩ | .c_cflag => ⟨8,4⟩ | .c_lflag => ⟨12,4⟩ | .c_line => ⟨16,1⟩ | .c_cc i => ⟨17+i,1⟩

-- ptrSize*2 with eight bytes to a pointer.
def timevalLayout : Layout TimevalField where
  size := 8*2
  field := TimevalField.field
  inside := by
    intro k
    cases k <;> simp [TimevalField.field]
  apart := by
    intro j k different
    cases j <;> cases k <;> simp [TimevalField.field] at different ⊢

def winsizeLayout : Layout WinsizeField where
  size := 4*2
  field := WinsizeField.field
  inside := by
    intro k
    cases k <;> simp [WinsizeField.field]
  apart := by
    intro j k different
    cases j <;> cases k <;> simp [WinsizeField.field] at different ⊢

def termioLayout : Layout TermioField where
  size := 18
  field := TermioField.field
  inside := by
    intro k
    cases k with
    | c_cc i =>
      have small : i.val < 8 := i.isLt
      simp only [TermioField.field]
      omega
    | _ => simp [TermioField.field]
  apart := by
    intro j k different
    cases j <;> cases k <;> simp [TermioField.field] at different ⊢ <;> omega

def termiosLayout : Layout TermiosField where
  size := 60
  field := TermiosField.field
  inside := by
    intro k
    cases k with
    | c_cc i =>
      have small : i.val < 19 := i.isLt
      simp only [TermiosField.field]
      omega
    | _ => simp [TermiosField.field]
  apart := by
    intro j k different
    cases j <;> cases k <;> simp [TermiosField.field] at different ⊢ <;> omega

abbrev timeval := Image timevalLayout
abbrev winsize := Image winsizeLayout
abbrev termio := Image termioLayout
abbrev termios := Image termiosLayout

-- v >>> 0, and n | 0.
def unsigned (v : JSNumber) : ℕ := (ToUint32 v).toNat
def signed (v : JSNumber) : JSNumber := some (ToInt32 v).toInt

theorem unsigned_bits (n : BitVec 32) : unsigned (some n.toInt) = n.toNat := by
  simp only [unsigned,ToUint32,Option.getD_some,BitVec.ofInt_toInt]

-- A number, or a string by its code units, of which the first one counts.
inductive CharValue where
  | number (n : JSNumber)
  | string (codes : List ℕ)

def CharValue.code : CharValue → JSNumber
  | .number n => n
  | .string codes => codes.head?.map (fun c => (c : ℤ))

section Timeval

-- BigInt(n) in an element of a BigUint64Array.
def bigUnsigned (n : ℤ) : ℕ := (BitVec.ofInt 64 n).toNat

def timeval.tv_sec (s : timeval) : ℕ := s.read .tv_sec
def timeval.set_tv_sec (s : timeval) (n : ℤ) : timeval := s.store (.tv_sec,bigUnsigned n)
def timeval.tv_usec (s : timeval) : ℕ := s.read .tv_usec
def timeval.set_tv_usec (s : timeval) (n : ℤ) : timeval := s.store (.tv_usec,bigUnsigned n)

-- An argument left out is none; BigInt(undefined) is a TypeError.
def timeval.new (sec usec : Option ℤ) : Option timeval :=
  if sec.isSome ∨ usec.isSome then do
    let s : timeval := timeval.set_tv_sec (Image.zeros timevalLayout) (← sec)
    pure (timeval.set_tv_usec s (← usec))
  else some (Image.zeros timevalLayout)

inductive TimevalSetting where | tv_sec (n : ℤ) | tv_usec (n : ℤ)

def timeval.set (s : timeval) : TimevalSetting → timeval
  | .tv_sec n => timeval.set_tv_sec s n
  | .tv_usec n => timeval.set_tv_usec s n

end Timeval

section Winsize

def winsize.ws_row (s : winsize) : ℕ := s.read .ws_row
def winsize.set_ws_row (s : winsize) (v : JSNumber) : winsize := s.store (.ws_row,unsigned v)
def winsize.ws_col (s : winsize) : ℕ := s.read .ws_col
def winsize.set_ws_col (s : winsize) (v : JSNumber) : winsize := s.store (.ws_col,unsigned v)
def winsize.ws_xpixel (s : winsize) : ℕ := s.read .ws_xpixel
def winsize.set_ws_xpixel (s : winsize) (v : JSNumber) : winsize := s.store (.ws_xpixel,unsigned v)
def winsize.ws_ypixel (s : winsize) : ℕ := s.read .ws_ypixel
def winsize.set_ws_ypixel (s : winsize) (v : JSNumber) : winsize := s.store (.ws_ypixel,unsigned v)

def winsize.new (row col x y : JSNumber) : winsize :=
  let s : winsize := Image.zeros winsizeLayout
  let s := winsize.set_ws_row s (signed row)
  let s := winsize.set_ws_col s (signed col)
  let s := winsize.set_ws_xpixel s (signed x)
  winsize.set_ws_ypixel s (signed y)

inductive WinsizeSetting where
  | ws_row (v : JSNumber) | ws_col (v : JSNumber) | ws_xpixel (v : JSNumber) | ws_ypixel (v : JSNumber)

def winsize.set (s : winsize) : WinsizeSetting → winsize
  | .ws_row v => winsize.set_ws_row s v
  | .ws_col v => winsize.set_ws_col s v
  | .ws_xpixel v => winsize.set_ws_xpixel s v
  | .ws_ypixel v => winsize.set_ws_ypixel s v

end Winsize

inductive Elements where
  | view (start n : ℕ)
  | copy (elements : List UInt8)

def Elements.read (b : Image L) : Elements → List UInt8
  | .view start n => slice b.bytes start n
  | .copy elements => elements

-- a[i] = v; past the end it is ignored, and a copy is nowhere in the record.
def Elements.assign {L : Layout κ} (b : Image L) (i : ℕ) (v : JSNumber) : Elements → Image L
  | .view start n =>
    if inside : i < n ∧ start+n ≤ L.size then
      ⟨patch b.bytes (start+i) [ToUint8 v],by
        have whole := b.whole
        rw [patch_length (by rw [List.length_singleton]; omega),whole]⟩
    else b
  | .copy _ => b

section Termio

def termio.c_iflag (s : termio) : ℕ := s.read .c_iflag
def termio.set_c_iflag (s : termio) (v : JSNumber) : termio := s.store (.c_iflag,unsigned v)
def termio.c_oflag (s : termio) : ℕ := s.read .c_oflag
def termio.set_c_oflag (s : termio) (v : JSNumber) : termio := s.store (.c_oflag,unsigned v)
def termio.c_cflag (s : termio) : ℕ := s.read .c_cflag
def termio.set_c_cflag (s : termio) (v : JSNumber) : termio := s.store (.c_cflag,unsigned v)
def termio.c_lflag (s : termio) : ℕ := s.read .c_lflag
def termio.set_c_lflag (s : termio) (v : JSNumber) : termio := s.store (.c_lflag,unsigned v)
def termio.c_line (s : termio) : ℕ := s.read .c_line
def termio.set_c_line (s : termio) (v : CharValue) : termio := s.store (.c_line,(ToUint8 v.code).toNat)

-- new Uint8Array(this, 9).slice(0,NCC)
def termio.c_cc (s : termio) : Elements := .copy ((slice s.bytes 9 (18-9)).take NCC)

def termio.set_c_cc (s : termio) (v : List CharValue) : termio :=
  (v.zip (List.finRange NCC)).foldl (fun s e => s.store (.c_cc e.2,(ToUint8 e.1.code).toNat)) s

inductive TermioSetting where
  | c_iflag (v : JSNumber) | c_oflag (v : JSNumber) | c_cflag (v : JSNumber) | c_lflag (v : JSNumber) | c_line (v : CharValue)
  | c_cc (v : List CharValue)
  | element (i : ℕ) (v : JSNumber)

def termio.set (s : termio) : TermioSetting → termio
  | .c_iflag v => termio.set_c_iflag s v
  | .c_oflag v => termio.set_c_oflag s v
  | .c_cflag v => termio.set_c_cflag s v
  | .c_lflag v => termio.set_c_lflag s v
  | .c_line v => termio.set_c_line s v
  | .c_cc v => termio.set_c_cc s v
  | .element i v => (termio.c_cc s).assign s i v

end Termio

section Termios

def termios.c_iflag (s : termios) : ℕ := s.read .c_iflag
def termios.set_c_iflag (s : termios) (v : JSNumber) : termios := s.store (.c_iflag,unsigned v)
def termios.c_oflag (s : termios) : ℕ := s.read .c_oflag
def termios.set_c_oflag (s : termios) (v : JSNumber) : termios := s.store (.c_oflag,unsigned v)
def termios.c_cflag (s : termios) : ℕ := s.read .c_cflag
def termios.set_c_cflag (s : termios) (v : JSNumber) : termios := s.store (.c_cflag,unsigned v)
def termios.c_lflag (s : termios) : ℕ := s.read .c_lflag
def termios.set_c_lflag (s : termios) (v : JSNumber) : termios := s.store (.c_lflag,unsigned v)
def termios.c_line (s : termios) : ℕ := s.read .c_line
def termios.set_c_line (s : termios) (v : JSNumber) : termios := s.store (.c_line,unsigned v)

-- new Uint8Array(this, 17, NCCS)
def termios.c_cc (_ : termios) : Elements := .view 17 NCCS

def termios.set_c_cc (s : termios) (v : List CharValue) : termios :=
  (v.zip (List.finRange NCCS)).foldl (fun s e => s.store (.c_cc e.2,(ToUint8 e.1.code).toNat)) s

inductive TermiosSetting where
  | c_iflag (v : JSNumber) | c_oflag (v : JSNumber) | c_cflag (v : JSNumber) | c_lflag (v : JSNumber) | c_line (v : JSNumber)
  | c_cc (v : List CharValue)
  | element (i : ℕ) (v : JSNumber)

def termios.set (s : termios) : TermiosSetting → termios
  | .c_iflag v => termios.set_c_iflag s v
  | .c_oflag v => termios.set_c_oflag s v
  | .c_cflag v => termios.set_c_cflag s v
  | .c_lflag v => termios.set_c_lflag s v
  | .c_line v => termios.set_c_line s v
  | .c_cc v => termios.set_c_cc s v
  | .element i v => (termios.c_cc s).assign s i v

end Termios

def TimevalSetting.stored : TimevalSetting → List (TimevalField × ℕ)
  | .tv_sec n => [(.tv_sec,bigUnsigned n)]
  | .tv_usec n => [(.tv_usec,bigUnsigned n)]

def WinsizeSetting.stored : WinsizeSetting → List (WinsizeField × ℕ)
  | .ws_row v => [(.ws_row,unsigned v)]
  | .ws_col v => [(.ws_col,unsigned v)]
  | .ws_xpixel v => [(.ws_xpixel,unsigned v)]
  | .ws_ypixel v => [(.ws_ypixel,unsigned v)]

def charStores (field : Fin n → κ) (v : List CharValue) : List (κ × ℕ) :=
  (v.zip (List.finRange n)).map (fun e => (field e.2,(ToUint8 e.1.code).toNat))

def TermioSetting.stored : TermioSetting → List (TermioField × ℕ)
  | .c_iflag v => [(.c_iflag,unsigned v)]
  | .c_oflag v => [(.c_oflag,unsigned v)]
  | .c_cflag v => [(.c_cflag,unsigned v)]
  | .c_lflag v => [(.c_lflag,unsigned v)]
  | .c_line v => [(.c_line,(ToUint8 v.code).toNat)]
  | .c_cc v => charStores .c_cc v
  | .element _ _ => []

def TermiosSetting.stored : TermiosSetting → List (TermiosField × ℕ)
  | .c_iflag v => [(.c_iflag,unsigned v)]
  | .c_oflag v => [(.c_oflag,unsigned v)]
  | .c_cflag v => [(.c_cflag,unsigned v)]
  | .c_lflag v => [(.c_lflag,unsigned v)]
  | .c_line v => [(.c_line,unsigned v)]
  | .c_cc v => charStores .c_cc v
  | .element i v => if inside : i < NCCS then [(.c_cc ⟨i,inside⟩,(ToUint8 v).toNat)] else []

end QjsFfi
