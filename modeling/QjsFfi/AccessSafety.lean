import QjsFfi.ModuleMachine

namespace QjsFfi
open BinaryFloat Activation Histories

theorem CallOutcome.warns (outcome : CallOutcome s given out t log) (warned : .warn text ∈ log) :
    text = "call_function: no such function" := by
  cases outcome with
  | unnamed => cases warned
  | unconverted => simp [opened,closed,acquisitions,releases] at warned
  | unknown => simpa [opened,closed,acquisitions,releases] using warned
  | dispatched => simp [opened,acquisitions,scratchLog] at warned

def unconvertedArgs : ArgVars :=
  ⟨⟨List.replicate MAX_PARAMETERS (some ⟨.ll 0,TYPE_INTEGRAL⟩)⟩,.alloc MAX_PARAMETERS,0⟩

theorem converted_args {given : List JSValueConst} (ran : Gives (js_call_args 1 (given.drop 1) unconvertedArgs) s (true,x) t log) :
    ∃ carried, x.args = ⟨argCells carried⟩ ∧ carried.length ≤ MAX_PARAMETERS := by
  have gives := js_call_args_gives (given.drop 1) [] [] s (Nat.zero_le _) (Nat.le_refl _)
  obtain ⟨same,_,_⟩ := ran.unique gives
  refine ⟨_,congrArg ArgVars.args (congrArg Prod.snd same),?_⟩
  exact Nat.le_trans (scan_carried_le _ _) (callArguments_le given)

-- However many of the parameters are pointers, pl stays behind the loop index.
theorem packed_behind (registered : Registered s) (member : f ∈ s.function_list) (bound : carried.length ≤ MAX_PARAMETERS)
    (k : Nat) (turns : k ≤ f.nargs) (t : Ctx) :
    ∃ y z, Gives (loop init_argument f.nargs 0 (CallVars.alloc f.nargs)) t (true,y) t [] ∧
      Gives (loop (place_argument f.types ⟨argCells carried⟩) k 0 y) t (true,z) t [] ∧ z.pl ≤ k := by
  obtain ⟨addr,p,rfl,few⟩ := registered f member
  obtain ⟨y,initialised,ready⟩ := init_loop p.params.length t
  obtain ⟨z,looped,placing⟩ := place_loop p.params (argOf carried) ⟨argCells carried⟩
    (fun i inside => argCells_argOf bound (by omega)) (placing_start ready (argOf carried)) t k turns
  rw [nodeOf_types]
  exact ⟨y,z,initialised,looped,placing.packed⟩

theorem accesses_in_bounds (reached : Reached history m) :
    (∀ ffi given, ∃ r s log, Gives (js_define ffi given) m.ctx r s log) ∧
    (∀ given, ∃ out s log, Gives (js_call_prepare given) m.ctx out s log ∧
      .warn "call_function: error, unknown typed parameter" ∉ log ∧
      .warn "call_function: nargs >= 1 but no args" ∉ log) ∧
    (∀ frame rest native, m.stack = frame :: rest → ∃ r log, Gives (js_call_finish frame native) m.ctx r m.ctx log) ∧
    ∀ f ∈ m.ctx.function_list, ∀ given s x t log,
      Gives (js_call_args 1 (List.drop 1 given) unconvertedArgs) s (true,x) t log → ∀ k, k ≤ f.nargs →
      ∃ y z, Gives (loop init_argument f.nargs 0 (CallVars.alloc f.nargs)) t (true,y) t [] ∧
        Gives (loop (place_argument f.types x.args) k 0 y) t (true,z) t [] ∧ z.pl ≤ k := by
  have sound := sound_reached reached
  refine ⟨?_,?_,?_,?_⟩
  · intro ffi given
    obtain ⟨n,addr,log,ran,_⟩ := js_define_gives ffi given m.ctx
    exact ⟨_,_,log,ran⟩
  · intro given
    obtain ⟨out,s,log,ran,outcome⟩ := js_call_prepare_gives given m.ctx sound.registered
    refine ⟨out,s,log,ran,?_,?_⟩
    · intro warned
      exact absurd (outcome.warns warned) (by decide)
    · intro warned
      exact absurd (outcome.warns warned) (by decide)
  · intro frame rest native innermost
    obtain ⟨held,addr,p,waiting⟩ := sound.frames frame (innermost ▸ List.mem_cons_self)
    exact ⟨_,_,finish_gives sound.addresses waiting native⟩
  · intro f member given s x t log ran k turns
    obtain ⟨carried,args,bound⟩ := converted_args ran
    rw [args]
    exact packed_behind sound.registered member bound k turns t

theorem accesses_in_bounds_abs : ∃ out s log, Gives (js_call_prepare absCall) absMachine.ctx out s log ∧
    .warn "call_function: error, unknown typed parameter" ∉ log ∧
    .warn "call_function: nargs >= 1 but no args" ∉ log :=
  (accesses_in_bounds abs_reached).2.1 absCall

end QjsFfi
