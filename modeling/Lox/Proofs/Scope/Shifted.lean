import Lox.Resolution
import Lox.Proofs.Tree.Shifted

/-!
# Resolving a tree on later lines

Where a tree stands does not matter to resolving: the walk over a tree on later lines opens the same
scopes and enters the same distances, and it breaks the same rules, each so many lines later
(`Resolution.ofExpr_shifted`). This holds of rejected trees as of accepted ones.
-/

namespace Lox

/-- The broken rule so many lines later. -/
def ScopeError.later (lines : Nat) (e : ScopeError) : ScopeError :=
  { e with token := e.token.later lines }

namespace Walk

variable {lines : Nat}

/-- The walk as it is where all rules so far were broken so many lines later. -/
def later (lines : Nat) (w : Walk) : Walk :=
  { w with errors := w.errors.map (ScopeError.later lines) }

/-- The second steps do on later lines what the first ones do. -/
def Moves (lines : Nat) (steps steps' : Walk → Walk) : Prop :=
  ∀ w, steps' (w.later lines) = (steps w).later lines

namespace Moves

variable {steps steps' next next' : Walk → Walk}

/-- The error is at the later token. -/
theorem report (cause : ScopeCause) (token : Token) :
    Moves lines (Walk.report cause token) (Walk.report cause (token.later lines)) := by
  intro w
  unfold Walk.report later
  rw [List.map_append]
  rfl

/-- Whether it is reported does not depend on lines. -/
theorem reportIf (broken : Bool) (cause : ScopeCause) (token : Token) :
    Moves lines (Walk.reportIf broken cause token)
      (Walk.reportIf broken cause (token.later lines)) := by
  cases broken with
  | true => exact report cause token
  | false => exact fun _ => rfl

/-- Scopes hold names, not tokens. -/
theorem enter (name : String) (defined : Bool) :
    Moves lines (Walk.enter name defined) (Walk.enter name defined) := by
  intro w
  unfold Walk.enter
  rw [show (w.later lines).scopes = w.scopes from rfl]
  cases w.scopes <;> rfl

/-- A name that is declared twice is reported at its later token. -/
theorem declare (name : Token) :
    Moves lines (Walk.declare name) (Walk.declare (name.later lines)) :=
  enter name.lexeme false

/-- A definition goes by the name. -/
theorem define (name : Token) :
    Moves lines (Walk.define name) (Walk.define (name.later lines)) :=
  enter name.lexeme true

/-- Parameters are declared and defined by their names. -/
theorem defineAll (names : List Token) :
    Moves lines (Walk.defineAll names) (Walk.defineAll (names.map (Token.later lines))) := by
  induction names with
  | nil => exact fun _ => rfl
  | cons name names ih =>
    intro w
    show Walk.defineAll _ (((w.later lines).declare _).define _) = _
    rw [declare, define]
    exact ih _

/-- The distance of a reference goes by its name. -/
theorem bind (site : Site) (name : Token) :
    Moves lines (Walk.bind site name) (Walk.bind site (name.later lines)) := by
  intro w
  unfold Walk.bind
  rw [show (w.later lines).distance? (name.later lines).lexeme = w.distance? name.lexeme from rfl]
  cases w.distance? name.lexeme <;> rfl

/-- The rule for `super` is broken on the later line or not at all. -/
theorem checkInherited (keyword : Token) :
    Moves lines (Walk.checkInherited keyword) (Walk.checkInherited (keyword.later lines)) := by
  intro w
  unfold Walk.checkInherited
  rw [show (w.later lines).context = w.context from rfl]
  cases w.context.cls with
  | none => exact report _ _ w
  | base => exact report _ _ w
  | derived => rfl

/-- The rule for `this` is broken on the later line or not at all. -/
theorem checkReceiver (keyword : Token) :
    Moves lines (Walk.checkReceiver keyword) (Walk.checkReceiver (keyword.later lines)) := by
  intro w
  unfold Walk.checkReceiver
  rw [show (w.later lines).context = w.context from rfl]
  split
  next => exact report _ _ w
  next => exact reportIf _ _ _ w

/-- The rule for `return` is broken on the later line or not at all. -/
theorem checkReturn (keyword : Token) (hasValue : Bool) :
    Moves lines (Walk.checkReturn keyword hasValue)
      (Walk.checkReturn (keyword.later lines) hasValue) := by
  intro w
  unfold Walk.checkReturn
  rw [show (w.later lines).context = w.context from rfl, reportIf, reportIf]

/-- What moves inside a scope moves with it. -/
theorem inScope (h : Moves lines steps steps') :
    Moves lines (Walk.inScope steps) (Walk.inScope steps') := by
  intro w
  unfold Walk.inScope
  dsimp only
  rw [show ({ w.later lines with scopes := ∅ :: (w.later lines).scopes } : Walk) =
    later lines { w with scopes := ∅ :: w.scopes } from rfl, h]
  rfl

/-- What moves inside a context moves with it. -/
theorem within (context : Context) (h : Moves lines steps steps') :
    Moves lines (Walk.within context steps) (Walk.within context steps') := by
  intro w
  unfold Walk.within
  rw [show ({ w.later lines with context } : Walk) = later lines { w with context } from rfl, h]
  rfl

/-- Another context that is made from the one there is. -/
theorem withinOf (context : Context → Context) (h : Moves lines steps steps') :
    Moves lines (fun w => w.within (context w.context) steps)
      fun w => w.within (context w.context) steps' :=
  fun w => within (context w.context) h w

/-- What moves inside a scope that begins with one name moves with it. -/
theorem inScopeOf (name : String) (h : Moves lines steps steps') :
    Moves lines (Walk.inScopeOf name steps) (Walk.inScopeOf name steps') :=
  inScope fun w => by rw [enter, h]

/-- The members of a class move in turn. -/
theorem inClass (derived : Bool) (h : Moves lines steps steps') (h' : Moves lines next next') :
    Moves lines (Walk.inClass derived steps next) (Walk.inClass derived steps' next') := by
  have hnext := h'.withinOf fun context => { context with inClassMethod := true }
  have hmembers : Moves lines
      (fun w => (steps w).within { (steps w).context with inClassMethod := true } next)
      (fun w => (steps' w).within { (steps' w).context with inClassMethod := true } next') := by
    intro w
    dsimp only
    rw [h]
    exact hnext (steps w)
  cases derived with
  | true => exact inScopeOf "super" hmembers
  | false => exact hmembers

end Moves

end Walk

/-! ## Trees -/

/-- An expression is there on later lines as well. -/
theorem Expr.isSome_shiftedOption (s : Shift) (e : Option Expr) :
    (Expr.shiftedOption s e).isSome = e.isSome := by
  cases e <;> rfl

/-- Whether a method is an initializer does not depend on lines. -/
theorem FunctionDecl.methodContext_shifted (s : Shift) (d : FunctionDecl) :
    (d.shifted s).methodContext = d.methodContext := by
  obtain ⟨name, _, _, _⟩ := d
  cases name <;> rfl

section Trees

open Walk

variable (lines : Nat)

mutual

/-- A walk over an expression on later lines does the same, and reports later. -/
theorem Expr.walk_later : ∀ e : Expr, Moves lines e.walk (e.shifted ⟨lines, id⟩).walk
  | .literal _ => fun _ => rfl
  | .variable site name => fun w => by
    show Walk.bind _ _ (Walk.reportIf (w.isPending name) _ _ (w.later lines)) = _
    rw [Moves.reportIf, Moves.bind]
    rfl
  | .assign site name value => fun w => by
    show Walk.bind _ _ (Expr.walk _ (w.later lines)) = _
    rw [value.walk_later, Moves.bind]
    rfl
  | .receiver site keyword => fun w => by
    show Walk.bind _ _ (Walk.checkReceiver _ (w.later lines)) = _
    rw [Moves.checkReceiver, Moves.bind]
    rfl
  | .inherited site keyword _ => fun w => by
    show Walk.bind _ _ (Walk.checkInherited _ (w.later lines)) = _
    rw [Moves.checkInherited, Moves.bind]
    rfl
  | .group inner => inner.walk_later
  | .unary _ operand => operand.walk_later
  | .binary left _ right => fun w => by
    show Expr.walk _ (Expr.walk _ (w.later lines)) = _
    rw [left.walk_later, right.walk_later]
    rfl
  | .logical left _ right => fun w => by
    show Expr.walk _ (Expr.walk _ (w.later lines)) = _
    rw [left.walk_later, right.walk_later]
    rfl
  | .conditional condition whenTrue whenFalse => fun w => by
    show Expr.walk _ (Expr.walk _ (Expr.walk _ (w.later lines))) = _
    rw [condition.walk_later, whenTrue.walk_later, whenFalse.walk_later]
    rfl
  | .call callee _ arguments => fun w => by
    show Expr.walkAll _ (Expr.walk _ (w.later lines)) = _
    rw [callee.walk_later, Expr.walkAll_later arguments]
    rfl
  | .get object _ => object.walk_later
  | .set object _ value => fun w => by
    show Expr.walk _ (Expr.walk _ (w.later lines)) = _
    rw [object.walk_later, value.walk_later]
    rfl
  | .function declaration => declaration.walk_later .function

theorem Expr.walkAll_later : ∀ es : List Expr,
    Moves lines (Expr.walkAll es) (Expr.walkAll (Expr.shiftedAll ⟨lines, id⟩ es))
  | [] => fun _ => rfl
  | e :: es => fun w => by
    show Expr.walkAll _ (Expr.walk _ (w.later lines)) = _
    rw [e.walk_later, Expr.walkAll_later es]
    rfl

theorem Expr.walkOption_later : ∀ e : Option Expr,
    Moves lines (Expr.walkOption e) (Expr.walkOption (Expr.shiftedOption ⟨lines, id⟩ e))
  | none => fun _ => rfl
  | some e => e.walk_later

/-- A walk over a statement on later lines does the same, and reports later. -/
theorem Stmt.walk_later : ∀ s : Stmt, Moves lines s.walk (s.shifted ⟨lines, id⟩).walk
  | .block body => .inScope (Stmt.walkAll_later body)
  | .breakLoop keyword => fun w => Moves.reportIf _ _ keyword w
  | .continueLoop keyword => fun w => Moves.reportIf _ _ keyword w
  | .classDecl declaration => declaration.walk_later
  | .empty => fun _ => rfl
  | .expression value => value.walk_later
  | .functionDecl ⟨name, keyword, parameters, body⟩ => fun w => by
    have hfunction := FunctionDecl.walk_later ⟨name, keyword, parameters, body⟩ .function
    cases name with
    | none => exact hfunction w
    | some name =>
      show FunctionDecl.walk _ _ (Walk.define _ (Walk.declare _ (w.later lines))) = _
      rw [Moves.declare, Moves.define, hfunction]
      rfl
  | .conditional condition whenTrue whenFalse => fun w => by
    show Stmt.walkOption _ (Stmt.walk _ (Expr.walk _ (w.later lines))) = _
    rw [condition.walk_later, whenTrue.walk_later, Stmt.walkOption_later whenFalse]
    rfl
  | .input _ target => target.walk_later
  | .print _ value => value.walk_later
  | .returnValue keyword value => fun w => by
    show Expr.walkOption _ (Walk.checkReturn _ (Expr.shiftedOption _ value).isSome _) = _
    rw [Expr.isSome_shiftedOption, Moves.checkReturn, Expr.walkOption_later value]
    rfl
  | .constant name value => fun w => by
    show Walk.define _ (Expr.walk _ (Walk.declare _ (w.later lines))) = _
    rw [Moves.declare, value.walk_later, Moves.define]
    rfl
  | .var name value => fun w => by
    show Walk.define _ (Expr.walkOption _ (Walk.declare _ (w.later lines))) = _
    rw [Moves.declare, Expr.walkOption_later value, Moves.define]
    rfl
  | .loop condition body increment => fun w => by
    have hbody := body.walk_later.withinOf fun context =>
      { context with loopDepth := context.loopDepth + 1 }
    show Expr.walkOption _ ((fun w : Walk => w.within _ (Stmt.walk _)) (Expr.walk _ _)) = _
    rw [condition.walk_later, hbody, Expr.walkOption_later increment]
    rfl

/-- A walk over statements on later lines does the same, and reports later. -/
theorem Stmt.walkAll_later : ∀ ss : List Stmt,
    Moves lines (Stmt.walkAll ss) (Stmt.walkAll (Stmt.shiftedAll ⟨lines, id⟩ ss))
  | [] => fun _ => rfl
  | s :: ss => fun w => by
    show Stmt.walkAll _ (Stmt.walk _ (w.later lines)) = _
    rw [s.walk_later, Stmt.walkAll_later ss]
    rfl

theorem Stmt.walkOption_later : ∀ s : Option Stmt,
    Moves lines (Stmt.walkOption s) (Stmt.walkOption (Stmt.shiftedOption ⟨lines, id⟩ s))
  | none => fun _ => rfl
  | some s => s.walk_later

/-- A walk over a function on later lines does the same, and reports later. -/
theorem FunctionDecl.walk_later : ∀ (d : FunctionDecl) (role : FunctionContext),
    Moves lines (d.walk role) ((d.shifted ⟨lines, id⟩).walk role)
  | ⟨_, _, parameters, body⟩, role => fun w => by
    refine Moves.within _ (Moves.inScope fun w => ?_) w
    rw [Moves.defineAll, Stmt.walkAll_later body]

theorem FunctionDecl.walkMethods_later : ∀ ds : List FunctionDecl,
    Moves lines (FunctionDecl.walkMethods ds)
      (FunctionDecl.walkMethods (FunctionDecl.shiftedAll ⟨lines, id⟩ ds))
  | [] => fun _ => rfl
  | d :: ds => fun w => by
    have hmethod := Moves.inScopeOf "this" (d.walk_later d.methodContext)
    show FunctionDecl.walkMethods _
      (Walk.inScopeOf _ (FunctionDecl.walk _ (FunctionDecl.shifted _ d).methodContext) _) = _
    rw [FunctionDecl.methodContext_shifted, hmethod, FunctionDecl.walkMethods_later ds]
    rfl

theorem FunctionDecl.walkMembers_later : ∀ (ds : List FunctionDecl) (role : FunctionContext),
    Moves lines (FunctionDecl.walkMembers ds role)
      (FunctionDecl.walkMembers (FunctionDecl.shiftedAll ⟨lines, id⟩ ds) role)
  | [], _ => fun _ => rfl
  | d :: ds, role => fun w => by
    have hmember := Moves.inScopeOf "this" (d.walk_later role)
    show FunctionDecl.walkMembers _ _ (Walk.inScopeOf _ (FunctionDecl.walk _ _) _) = _
    rw [hmember, FunctionDecl.walkMembers_later ds role]
    rfl

/-- A walk over a class on later lines does the same, and reports later. -/
theorem ClassDecl.walk_later : ∀ d : ClassDecl, Moves lines d.walk (d.shifted ⟨lines, id⟩).walk
  | ⟨name, superclass, methods, classMethods, getters, setters⟩ => fun w => by
    have hinstance : Moves lines
        (fun w => FunctionDecl.walkMembers setters .method
          (FunctionDecl.walkMembers getters .method (FunctionDecl.walkMethods methods w)))
        (fun w => FunctionDecl.walkMembers (FunctionDecl.shiftedAll ⟨lines, id⟩ setters) .method
          (FunctionDecl.walkMembers (FunctionDecl.shiftedAll ⟨lines, id⟩ getters) .method
            (FunctionDecl.walkMethods (FunctionDecl.shiftedAll ⟨lines, id⟩ methods) w))) := by
      intro w
      dsimp only
      rw [FunctionDecl.walkMethods_later methods, FunctionDecl.walkMembers_later getters,
        FunctionDecl.walkMembers_later setters]
    have hclass := hinstance.inClass superclass.isSome
      (FunctionDecl.walkMembers_later classMethods .classMethod)
    show Walk.within _ (fun w => Walk.inClass (Expr.shiftedOption _ superclass).isSome _ _ _)
      (Walk.define _ (Walk.declare _ (w.later lines))) = _
    rw [Expr.isSome_shiftedOption, Moves.declare, Moves.define]
    refine Moves.within _ (fun w => ?_) ((w.declare name).define name)
    rw [Expr.walkOption_later superclass, hclass]

end

end Trees

/-- An expression on later lines gets the same distances and breaks the same rules. -/
theorem Resolution.ofExpr_shifted (lines : Nat) (e : Expr) :
    Resolution.ofExpr (e.shifted ⟨lines, id⟩) =
      ⟨(Resolution.ofExpr e).table, (Resolution.ofExpr e).errors.map (ScopeError.later lines)⟩ := by
  have hwalk : (e.shifted ⟨lines, id⟩).walk .start = (e.walk .start).later lines :=
    e.walk_later lines .start
  unfold Resolution.ofExpr
  rw [hwalk]
  rfl

end Lox
