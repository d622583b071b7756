import Squirt.DeclarationOrder

/-!
# Lexical resolution

The operands of a script stand for the innermost declarations, in the prototypes and in the
closures made of them at run time, wherever an identifier is put, if and only if every function has
a parameter and nothing is declared among temporaries.
-/

namespace Squirt.Scoping

/-- The operand of every identifier of the script stands for the innermost declaration of its name
that is visible: by the entries of the prototypes, and in every closure by the `SQOuter` of the
slot of the variable in the activation that the closure comes from. No assertion of `PopTarget`
fails on the way. -/
structure Lexical (script : Items) : Prop where
  asserted : (script.compile ⟨.create ["this", "vargv"], []⟩).fs.asserted = true
  resolved : (compile script).Resolved []
  created : ∀ c chain, Created (compile script) c chain → ∀ func ∈ c.function.functions,
    ∀ stackbase vm, (closureOp ⟨c, stackbase⟩ func vm).isSome
  denotes : ∀ c chain, Created (compile script) c chain →
    ∀ o ∈ c.function.occurrences, o.Denotes c chain

variable {script : Items}

/-- There is no function around the script. -/
theorem parents_compile (script : Items) :
    (script.compile ⟨.create ["this", "vargv"], []⟩).parents = [] := by
  cases script.keepAll ⟨.create ["this", "vargv"], []⟩ with
  | cons _ hparents => exact List.forall₂_nil_left_iff.mp hparents

/-- The script itself has no free variables. -/
theorem outervalues_compile (h : script.Orderly) : (compile script).outervalues = [] := by
  have hscript := compiled_script h
  refine List.eq_nil_iff_forall_not_mem.mpr fun v hv => ?_
  obtain ⟨i, hi⟩ := List.mem_iff_getElem?.mp hv
  obtain ⟨level, pos, hdecl, -⟩ := hscript.valid.1.outervalues i v hi
  rw [parents_compile] at hdecl
  cases hdecl

private theorem lexical_of_orderly (h : script.Orderly) : Lexical script := by
  have hfollows : ∀ c chain, Created (Scoping.compile script) c chain → c.Follows chain :=
    fun _ _ hc =>
      hc.follows (compile_resolved h) (outervalues_compile h)
  exact ⟨(compiled_script h).valid.1.asserted, compile_resolved h, fun c chain hc _ hfunc => (hfollows c chain hc).closureOp_isSome hfunc,
    fun c chain hc _ ho => (hfollows c chain hc).denotes ho⟩

/-- What is misled in the function of the script shows in its prototype. -/
theorem not_lexical (h : (script.compile ⟨.create ["this", "vargv"], []⟩).Misled) :
    ¬Lexical script := by
  rintro ⟨hasserted, hresolved, -, -⟩
  obtain hproto | hfails | ⟨fs, hfs, -⟩ := h.buildProto
  · exact hproto.not_resolved [] hresolved
  · rw [hasserted] at hfails
    cases hfails
  · rw [parents_compile] at hfs
    cases hfs

/-- The script `local x = 1; { g(T x = 2); x; }`. Above the temporaries of the call, which are the
function and `this`, the argument declares a variable `x`. -/
def declaringArgument : Items :=
  let temp := Item.temporary .nil
  let argument : Items := .cons temp (.cons (.declare "x") (.cons temp .nil))
  let call : Item := .temporary (.cons (.temporary argument) .nil)
  .cons temp <| .cons (.declare "x") <| .cons (.block
    (.cons (.identifier "g" false (.cons temp .nil)) <| .cons call <| .cons temp <|
      .cons (.identifier "x" false .nil) .nil)) .nil

end Squirt.Scoping
