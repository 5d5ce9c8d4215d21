import QjsFfi.Histories
import QjsFfi.Layout

namespace QjsFfi
open Activation Histories

-- The names ffi.h gives to its types on a platform with 64-bit long.
def ffi_type_schar : ffi_type := .sint8
def ffi_type_uchar : ffi_type := .uint8
def ffi_type_sshort : ffi_type := .sint16
def ffi_type_ushort : ffi_type := .uint16
def ffi_type_sint : ffi_type := .sint32
def ffi_type_uint : ffi_type := .uint32
def ffi_type_slong : ffi_type := .sint64
def ffi_type_ulong : ffi_type := .uint64

def find_ffi_type (ffi_type_head : List ffi_type_s) (name : Option String) : Option ffi_type :=
  match name with
  | none => none
  | some name => (find ffi_type_s.name ffi_type_head name).map ffi_type_s.type

def define_ffi_type (ffi_type_head : List ffi_type_s) (name : String) (t : ffi_type) : List ffi_type_s :=
  if (find_ffi_type ffi_type_head (some name)).isSome then ffi_type_head
  else ⟨name,t⟩ :: ffi_type_head

def standardTypes : List ffi_type_s :=
  [⟨"void",.void⟩,⟨"sint8",.sint8⟩,⟨"sint16",.sint16⟩,⟨"sint32",.sint32⟩,⟨"sint64",.sint64⟩,
   ⟨"uint8",.uint8⟩,⟨"uint16",.uint16⟩,⟨"uint32",.uint32⟩,⟨"uint64",.uint64⟩,
   ⟨"float",.float⟩,⟨"double",.double⟩,
   ⟨"schar",ffi_type_schar⟩,⟨"uchar",ffi_type_uchar⟩,⟨"sshort",ffi_type_sshort⟩,⟨"ushort",ffi_type_ushort⟩,
   ⟨"sint",ffi_type_sint⟩,⟨"uint",ffi_type_uint⟩,⟨"slong",ffi_type_slong⟩,⟨"ulong",ffi_type_ulong⟩,
   ⟨"longdouble",.longdouble⟩,⟨"pointer",.pointer⟩,
   ⟨"int",ffi_type_sint⟩,⟨"long",ffi_type_slong⟩,⟨"short",ffi_type_sshort⟩,⟨"char",ffi_type_schar⟩,
   ⟨"size_t",ffi_type_uint⟩,⟨"unsigned char",ffi_type_uchar⟩,⟨"unsigned int",ffi_type_uint⟩,
   ⟨"unsigned long",ffi_type_ulong⟩,⟨"void *",.pointer⟩,⟨"char *",.pointer⟩,
   ⟨"string",.pointer⟩,⟨"buffer",.pointer⟩]

def define_types (ffi_type_head : List ffi_type_s) : List ffi_type_s :=
  standardTypes.foldl (fun head t => define_ffi_type head t.name t.type) ffi_type_head

-- define_ffi_type on the heap: a node and a copy of the name for each type that is new.
def install_ffi_type (name : String) (t : ffi_type) : C Unit := do
  let head ← Exec.read Ctx.ffi_type_head
  if (find_ffi_type head (some name)).isSome then pure ()
  else do
    let _ ← malloc
    let _ ← malloc
    Exec.update (fun s => {s with ffi_type_head := ⟨name,t⟩ :: s.ffi_type_head})

def install_types : List ffi_type_s → C Unit
  | [] => pure ()
  | t :: rest => do
    install_ffi_type t.name t.type
    install_types rest

-- `compiled` says which of the FFI_ macros the preprocessor saw.
def find_abi (compiled : ffi_abi → Bool) (name : String) : ffi_abi :=
  if name = "default" then .FFI_DEFAULT_ABI
  else if compiled .FFI_SYSV ∧ name = "sysv" then .FFI_SYSV
  else if compiled .FFI_UNIX64 ∧ name = "unix64" then .FFI_UNIX64
  else if compiled .FFI_STDCALL ∧ name = "stdcall" then .FFI_STDCALL
  else if compiled .FFI_THISCALL ∧ name = "thiscall" then .FFI_THISCALL
  else if compiled .FFI_FASTCALL ∧ name = "fastcall" then .FFI_FASTCALL
  else if compiled .FFI_MS_CDECL ∧ name = "ms_cdecl" then .FFI_MS_CDECL
  else if compiled .FFI_WIN64 ∧ name = "win64" then .FFI_WIN64
  else .FFI_DEFAULT_ABI

theorem define_types_replay (head : List ffi_type_s) :
    define_types head = replay ffi_type_s.name head standardTypes := by
  have one : (fun head t => define_ffi_type head t.name t.type) = add ffi_type_s.name := by
    funext head t
    unfold define_ffi_type add
    simp only [find_ffi_type,Option.isSome_map]
  rw [define_types,one,replay]

theorem define_types_nodup (distinct : (head.map ffi_type_s.name).Nodup) :
    ((define_types head).map ffi_type_s.name).Nodup := by
  rw [define_types_replay]
  exact replay_nodup distinct _

theorem define_types_twice (head : List ffi_type_s) :
    define_types (define_types head) = define_types head := by
  conv_lhs => rw [define_types_replay]
  apply replay_known
  intro t member
  rw [define_types_replay,find_replay,Option.isSome_or]
  have self : (find ffi_type_s.name standardTypes t.name).isSome :=
    List.find?_isSome.mpr ⟨t,member,by simp⟩
  rw [self,Bool.or_true]

theorem install_ffi_type_gives (name : String) (t : ffi_type) (s : Ctx) :
    ∃ n, Gives (install_ffi_type name t) s () {s.bump n false with ffi_type_head := define_ffi_type s.ffi_type_head name t}
      ((List.range' s.fresh n).map .malloc) ∧ 2*(define_ffi_type s.ffi_type_head name t).length = 2*s.ffi_type_head.length+n := by
  have looked : Gives (Exec.read Ctx.ffi_type_head) s s.ffi_type_head s ([] : List Event) := Gives.read
  unfold define_ffi_type
  by_cases known : (find_ffi_type s.ffi_type_head (some name)).isSome
  · refine ⟨0,looked.silent ?_,by simp [known]⟩
    simp only [known,if_true,Ctx.bump_zero]
    exact Gives.pure
  · refine ⟨2,looked.silent ?_,by simp [known]; omega⟩
    rw [if_neg known,if_neg known]
    have both : (s.bump 1 false).bump 1 false = s.bump 2 false := by simp
    rw [← both]
    exact (malloc_gives s).bind ((malloc_gives _).bind Gives.update)

theorem install_types_gives (ts : List ffi_type_s) (s : Ctx) :
    ∃ n, Gives (install_types ts) s ()
      {s.bump n false with ffi_type_head := ts.foldl (fun head t => define_ffi_type head t.name t.type) s.ffi_type_head}
      ((List.range' s.fresh n).map .malloc) ∧
      2*(ts.foldl (fun head t => define_ffi_type head t.name t.type) s.ffi_type_head).length = 2*s.ffi_type_head.length+n := by
  induction ts generalizing s with
  | nil => exact ⟨0,Gives.pure.congr (by simp) rfl,rfl⟩
  | cons t rest ih =>
    obtain ⟨n,first,grown⟩ := install_ffi_type_gives t.name t.type s
    obtain ⟨k,later,more⟩ := ih {s.bump n false with ffi_type_head := define_ffi_type s.ffi_type_head t.name t.type}
    refine ⟨n+k,(first.bind later).congr ?_ ?_,?_⟩
    · simp [Ctx.bump,Nat.add_assoc]
    · rw [← List.map_append]
      exact congrArg _ (List.range'_append_1 ..)
    · rw [List.foldl_cons,more,grown,Nat.add_assoc]

example : find_ffi_type (define_types []) (some "unsigned long") = some .uint64 := by decide +kernel

end QjsFfi
