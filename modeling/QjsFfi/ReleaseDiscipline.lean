import QjsFfi.StringLifetime
import QjsFfi.PointerTransport

namespace QjsFfi
open BinaryFloat Activation Histories

inductive Acquirer where
  | dlopen | dlsym | define
  deriving DecidableEq

def Acquirer.run (host : Host) (ffi : Libffi) (given : List JSValueConst) : Acquirer → C JSValue
  | .dlopen => js_dlopen host given
  | .dlsym => js_dlsym host given
  | .define => js_define ffi given

-- When the operation returns every C string has been given back once, and every
-- block has been freed once or belongs to the one entry it put on the list.
structure Settled (s t : Ctx) (log : List Event) : Prop where
  texts : strings.Balanced log
  distinct : (blocks.taken log).Nodup
  entry : ∃ new : List function_s, new.length ≤ 1 ∧ t.function_list = new++s.function_list ∧
    (blocks.returned log++new.flatMap function_s.blocks).Perm (blocks.taken log)

-- dlopen's return between its two conversions: the name is held, the flags fail.
def Interrupted (given : List JSValueConst) (op : Acquirer) : Prop :=
  op = .dlopen ∧ ¬ JS_IsNull (argAt given 0) ∧ (argAt given 0).cstring.isSome ∧ (argAt given 1).toInt64 = none

theorem settled_trace (trace : ExportTrace s n log []) (list : t.function_list = s.function_list) : Settled s t log := by
  obtain ⟨calm,nothing⟩ := trace.blocks
  refine ⟨⟨trace.distinct,?_⟩,?_,[],by simp,list,?_⟩
  · simpa using trace.settled
  · rw [calm]
    exact List.nodup_nil
  · rw [calm,nothing]
    exact List.Perm.refl _

theorem dlopen_settled_iff (host : Host) (given : List JSValueConst) (s : Ctx) :
    ∃ r t log, Gives (js_dlopen host given) s r t log ∧ (Settled s t log ↔ ¬ Interrupted given .dlopen) := by
  cases name : dlopenName given with
  | none =>
    have whole : ¬ Interrupted given .dlopen := by
      rintro ⟨_,present,converts,_⟩
      rw [dlopenName,if_neg present,Option.map_eq_none_iff] at name
      simp [name] at converts
    have ran : Gives (js_dlopen host given) s .exception (s.bump 0 true) [] := by
      apply (declared_argument Nat.two_pos given s).silent
      exact (js_dlopen_name_none name s).silent Gives.pure
    exact ⟨_,_,_,ran,fun _ => whole,fun _ => settled_trace (export_quiet s) rfl⟩
  | some spelled =>
    obtain ⟨text,rfl,id,first⟩ := js_dlopen_name_some name s
    cases flags : (argAt given 1).toInt64 with
    | some f =>
      have whole : ¬ Interrupted given .dlopen := by
        rintro ⟨_,_,_,failed⟩
        rw [flags] at failed
        cases failed
      refine ⟨_,_,_,js_dlopen_found host first flags,fun _ => whole,fun _ => ?_⟩
      cases text with
      | none => exact settled_trace (export_quiet s) rfl
      | some c => exact settled_trace (export_used (id c rfl)) rfl
    | none =>
      refine ⟨_,_,_,js_dlopen_lost host first flags,?_⟩
      cases text with
      | none =>
        -- No name is held for null, so there is nothing to lose.
        have whole : ¬ Interrupted given .dlopen := by
          rintro ⟨_,present,_,_⟩
          rw [dlopenName,if_neg present] at name
          obtain ⟨_,_,impossible⟩ := Option.map_eq_some_iff.mp name
          cases impossible
        exact ⟨fun _ => whole,fun _ => settled_trace (export_quiet s) rfl⟩
      | some c =>
        have interrupted : Interrupted given .dlopen := by
          unfold dlopenName at name
          split at name
          · cases name
          · rename_i present
            obtain ⟨_,converts,_⟩ := Option.map_eq_some_iff.mp name
            exact ⟨rfl,present,by rw [converts]; rfl,flags⟩
        have lost : ¬ Settled s (s.bump (some c).toList.length true) (acquired (some c)) := by
          intro settled
          have count := settled.texts.2.length_eq
          simp [acquired,strings,Custody.taken,Custody.returned] at count
        exact ⟨fun settled => absurd settled lost,fun whole => absurd interrupted whole⟩

theorem dlsym_settles (host : Host) (given : List JSValueConst) (s : Ctx) :
    ∃ r t log, Gives (js_dlsym host given) s r t log ∧ Settled s t log := by
  obtain ⟨n,log,ran,trace⟩ := js_dlsym_gives host given s
  exact ⟨_,_,_,ran,settled_trace trace rfl⟩

theorem settled_definition (trace : DefineTrace s n base made log) : Settled s (defined s n raised base made) log := by
  cases made with
  | none =>
    obtain ⟨distinct,freed⟩ := trace.dropped rfl
    refine ⟨trace.strings,distinct,[],by simp,rfl,?_⟩
    simpa using freed
  | some p =>
    obtain ⟨taken,returned⟩ := trace.kept p rfl
    refine ⟨trace.strings,?_,[nodeOf base p],by simp,rfl,?_⟩
    · rw [taken]
      exact List.nodup_range'
    · rw [taken,returned,List.flatMap_singleton,nodeOf_blocks]
      exact List.Perm.refl _

theorem define_settles (ffi : Libffi) (given : List JSValueConst) (s : Ctx) :
    ∃ r t log, Gives (js_define ffi given) s r t log ∧ Settled s t log := by
  obtain ⟨n,self,log,ran,trace⟩ := js_define_gives ffi given s
  exact ⟨_,_,_,ran,settled_definition trace⟩

theorem release_discipline (op : Acquirer) (host : Host) (ffi : Libffi) (given : List JSValueConst) (s : Ctx) :
    (∃ r t log, Gives (op.run host ffi given) s r t log) ∧
      ∀ r t log, Gives (op.run host ffi given) s r t log → (Settled s t log ↔ ¬ Interrupted given op) := by
  have outcome : ∃ r t log, Gives (op.run host ffi given) s r t log ∧ (Settled s t log ↔ ¬ Interrupted given op) := by
    cases op with
    | dlopen => exact dlopen_settled_iff host given s
    | dlsym =>
      obtain ⟨r,t,log,ran,settled⟩ := dlsym_settles host given s
      have whole : ¬ Interrupted given .dlsym := by simp [Interrupted]
      exact ⟨r,t,log,ran,fun _ => whole,fun _ => settled⟩
    | define =>
      obtain ⟨r,t,log,ran,settled⟩ := define_settles ffi given s
      have whole : ¬ Interrupted given .define := by simp [Interrupted]
      exact ⟨r,t,log,ran,fun _ => whole,fun _ => settled⟩
  obtain ⟨r,t,log,ran,holds⟩ := outcome
  refine ⟨⟨r,t,log,ran⟩,?_⟩
  intro r' t' log' other
  obtain ⟨rfl,rfl,rfl⟩ := ran.unique other
  exact holds

def namedSymbol : List JSValueConst := [stringArgument "libm.so.6" nameCopy,JSValue.symbol.argument]

theorem name_lost : ¬ ∀ (op : Acquirer) (host : Host) (ffi : Libffi) (given : List JSValueConst) (s : Ctx),
    ∃ r t log, Gives (op.run host ffi given) s r t log ∧ Settled s t log := by
  intro claimed
  obtain ⟨r,t,log,ran,settled⟩ := claimed .dlopen absHost plainLibffi namedSymbol .start
  obtain ⟨text,spelled,_,first⟩ := js_dlopen_name_some (show dlopenName namedSymbol = some (some "libm.so.6") by decide) .start
  obtain ⟨c,rfl,_⟩ := Option.map_eq_some_iff.mp spelled
  have lost := js_dlopen_lost absHost first (show (argAt namedSymbol 1).toInt64 = none by decide)
  obtain ⟨_,_,rfl⟩ := ran.unique lost
  have count := settled.texts.2.length_eq
  simp [acquired,strings,Custody.taken,Custody.returned] at count

end QjsFfi
