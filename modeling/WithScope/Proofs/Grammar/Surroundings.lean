import WithScope.Grammar.Program
import WithScope.Proofs.Tree.Fitting

/-!
# What a surrounding knows of the frames

A parser does not see the frames around what it reads. It has its surrounding instead, a few flags
and a list of labels, which the productions change where they go into a loop, a function or another
construct that makes a frame. `env.Describes fs` says that the surrounding `env` knows just what the
frames `fs` decide. It holds for a whole text, which has no frames (`Options.describes_surrounding`),
and each change of a surrounding keeps it, given the frame that the change stands for:

* `Surrounding.Describes.inside` — a frame that owns nothing adds to what is known;
* `Surrounding.Describes.owned` — a frame that owns what is inside hides what was known, except that
  an arrow function leaves `new.target` as it is.
-/

namespace WithScope

namespace Frame

variable {f : Frame} {fs : List Frame}

theorem own_cons (hf : f.isOwner = false) : own (f :: fs) = f :: own fs :=
  List.takeWhile_cons_of_pos (by rw [hf]; rfl)

theorem own_cons_owner (hf : f.isOwner = true) : own (f :: fs) = [] :=
  List.takeWhile_cons_of_neg (by rw [hf]; exact Bool.false_ne_true)

theorem owner?_cons (hf : f.isOwner = false) : owner? (f :: fs) = owner? fs :=
  List.find?_cons_of_neg (by rw [hf]; exact Bool.false_ne_true)

theorem owner?_cons_owner (hf : f.isOwner = true) : owner? (f :: fs) = some f :=
  List.find?_cons_of_pos hf

/-- A frame that owns nothing has no say in `new.target`. -/
theorem hasNewTarget_of_isOwner_eq_false (hf : f.isOwner = false) : f.hasNewTarget = false := by
  cases f <;> first | rfl | cases hf

end Frame

/-- A surrounding knows just what the frames decide. -/
structure Surrounding.Describes (env : Surrounding) (fs : List Frame) : Prop where
  inLoop : env.context.inLoop ↔ .loop ∈ Frame.own fs
  inSwitch : env.context.inSwitch ↔ .switch ∈ Frame.own fs
  labels : ∀ name, name ∈ env.labels ↔ .label name ∈ Frame.own fs
  inFunction : env.context.inFunction ↔ (Frame.owner? fs).any Frame.isFunction
  yieldAllowed : env.context.yieldAllowed ↔ (Frame.owner? fs).any Frame.isGenerator
  awaitAllowed : env.context.awaitAllowed ↔ Node.AllowsAwait env.options fs
  newTarget : env.context.newTarget ↔ fs.any Frame.hasNewTarget

/-- Around a whole text there is no frame. -/
theorem Options.describes_surrounding (options : Options) : options.surrounding.Describes [] where
  inLoop := iff_of_false Bool.false_ne_true List.not_mem_nil
  inSwitch := iff_of_false Bool.false_ne_true List.not_mem_nil
  labels _ := iff_of_false List.not_mem_nil List.not_mem_nil
  inFunction := Iff.rfl
  yieldAllowed := Iff.rfl
  awaitAllowed := decide_eq_true_iff
  newTarget := Iff.rfl

namespace Surrounding.Describes

variable {env : Surrounding} {fs : List Frame}

/-! ## Frames that own nothing -/

/-- A frame that owns nothing adds itself to what is known. -/
theorem inside {f : Frame} {context : Context} {labels : List String} (h : env.Describes fs)
    (hf : f.isOwner = false) (hloop : context.inLoop ↔ .loop = f ∨ env.context.inLoop)
    (hswitch : context.inSwitch ↔ .switch = f ∨ env.context.inSwitch)
    (hlabels : ∀ name, name ∈ labels ↔ .label name = f ∨ name ∈ env.labels)
    (hfunction : context.inFunction = env.context.inFunction)
    (hyield : context.yieldAllowed = env.context.yieldAllowed)
    (hawait : context.awaitAllowed = env.context.awaitAllowed)
    (htarget : context.newTarget = env.context.newTarget) :
    Describes { env with context := context, labels := labels } (f :: fs) where
  inLoop := by rw [hloop, h.inLoop, Frame.own_cons hf, List.mem_cons]
  inSwitch := by rw [hswitch, h.inSwitch, Frame.own_cons hf, List.mem_cons]
  labels name := by rw [hlabels, h.labels, Frame.own_cons hf, List.mem_cons]
  inFunction := by rw [hfunction, h.inFunction, Frame.owner?_cons hf]
  yieldAllowed := by rw [hyield, h.yieldAllowed, Frame.owner?_cons hf]
  awaitAllowed := by rw [hawait, h.awaitAllowed, Node.AllowsAwait, Node.AllowsAwait,
    Frame.owner?_cons hf]
  newTarget := by
    rw [htarget, h.newTarget, List.any_cons, Frame.hasNewTarget_of_isOwner_eq_false hf,
      Bool.false_or]

/-- A block or another construct that holds statements. -/
theorem inner (h : env.Describes fs) : env.Describes (.inner :: fs) :=
  h.inside rfl (by simp) (by simp) (by simp) rfl rfl rfl rfl

/-- The body of a loop. -/
theorem loop (h : env.Describes fs) :
    Describes { env with context := { env.context with inLoop := true } } (.loop :: fs) :=
  h.inside rfl (by simp) (by simp) (by simp) rfl rfl rfl rfl

/-- The clauses of a `switch`. -/
theorem switch (h : env.Describes fs) :
    Describes { env with context := { env.context with inSwitch := true } } (.switch :: fs) :=
  h.inside rfl (by simp) (by simp) (by simp) rfl rfl rfl rfl

/-- A statement with a label. -/
theorem label (h : env.Describes fs) (name : String) :
    Describes { env with labels := name :: env.labels } (.label name :: fs) :=
  h.inside rfl (by simp) (by simp) (by simp) rfl rfl rfl rfl

/-- Whether `in` is an operator does not depend on the frames. -/
theorem setNoIn (h : env.Describes fs) (noIn : Bool) :
    Describes { env with context := { env.context with noIn := noIn } } fs :=
  ⟨h.inLoop, h.inSwitch, h.labels, h.inFunction, h.yieldAllowed, h.awaitAllowed, h.newTarget⟩

/-! ## Owners -/

/-- A frame that owns what is inside hides the loops, labels and functions outside of it. -/
theorem owned {f : Frame} {context : Context} (hf : f.isOwner = true)
    (hloop : context.inLoop = false) (hswitch : context.inSwitch = false)
    (hfunction : context.inFunction = f.isFunction) (hyield : context.yieldAllowed = f.isGenerator)
    (hawait : context.awaitAllowed = f.isAsync)
    (htarget : context.newTarget = (f.hasNewTarget || fs.any Frame.hasNewTarget)) :
    Describes { env with context := context, labels := [] } (f :: fs) where
  inLoop := by simp [hloop, Frame.own_cons_owner hf]
  inSwitch := by simp [hswitch, Frame.own_cons_owner hf]
  labels name := by simp [Frame.own_cons_owner hf]
  inFunction := by rw [hfunction, Frame.owner?_cons_owner hf, Option.any_some]
  yieldAllowed := by rw [hyield, Frame.owner?_cons_owner hf, Option.any_some]
  awaitAllowed := by rw [hawait, Node.AllowsAwait, Frame.owner?_cons_owner hf]
  newTarget := by rw [htarget, List.any_cons]

/-- The parameters and the body of a function. -/
theorem function (env : Surrounding) (fs : List Frame) (isAsync isGenerator : Bool) :
    Describes { env with context := Grammar.functionContext isAsync isGenerator, labels := [] }
      (.function isAsync isGenerator :: fs) :=
  owned rfl rfl rfl rfl rfl rfl rfl

/-- The body of an arrow function, where `new.target` has the meaning that it has outside. -/
theorem arrow (h : env.Describes fs) (isAsync : Bool) :
    Describes { env with context := Grammar.arrowContext isAsync env.context, labels := [] }
      (.arrow isAsync :: fs) :=
  owned rfl rfl rfl rfl rfl rfl (Bool.eq_iff_iff.2 h.newTarget)

/-- The value of a class field, or a static block. -/
theorem initializer (env : Surrounding) (fs : List Frame) :
    Describes { env with context := Grammar.initializerContext, labels := [] }
      (.initializer :: fs) :=
  owned rfl rfl rfl rfl rfl rfl rfl

end Surrounding.Describes

end WithScope
