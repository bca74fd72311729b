import Mathlib.Logic.Equiv.Basic
import Lox.Proofs.Tree.Sited
import Lox.Proofs.Twin.Scopes

/-!
# Other writings up to sites

Sites say nothing about a program: a program in another writing stays one when its sites are put
elsewhere (`Alike.resited`). So whatever agrees up to sites with another writing of a program is one
as well (`Alike.of_unsited`).
-/

namespace Lox

/-- Sites without repetition are put in the places of as many others by a function that keeps sites
apart. -/
theorem exists_moved {sites sites' : List Site} (h : sites.Nodup) (h' : sites'.Nodup)
    (hlength : sites'.length = sites.length) :
    ∃ f : Site → Site, Function.Injective f ∧ sites' = sites.map f := by
  induction sites generalizing sites' with
  | nil => exact ⟨id, Function.injective_id, List.length_eq_zero_iff.mp hlength⟩
  | cons i sites ih =>
    cases sites' with
    | nil => cases hlength
    | cons i' sites' =>
      obtain ⟨hi, hsites⟩ := List.nodup_cons.mp h
      obtain ⟨hi', hsites'⟩ := List.nodup_cons.mp h'
      obtain ⟨f, hf, rfl⟩ := ih hsites hsites' (Nat.succ.inj hlength)
      -- `i'` takes the place of what `i` is sent to, which is no place of the others
      refine ⟨Equiv.swap (f i) i' ∘ f, (Equiv.swap (f i) i').injective.comp hf, ?_⟩
      rw [List.map_cons, Function.comp_apply, Equiv.swap_apply_left]
      refine congrArg (i' :: ·) (List.map_congr_left fun j hj => ?_)
      have hne : f j ≠ f i := fun heq => hi (hf heq ▸ hj)
      have hne' : f j ≠ i' := fun heq => hi' (heq ▸ List.mem_map_of_mem hj)
      exact (Equiv.swap_apply_of_ne_of_ne hne hne').symm

/-- The variation where the sites of the other writing are put elsewhere. -/
def Variation.resited (v : Variation) (f : Site → Site) (hf : Function.Injective f) :
    Variation where
  change := v.change
  lines := v.lines
  table := v.table
  known i i' := ∃ j, v.known i j ∧ f j = i'
  paired := by
    rintro i _ j _ ⟨i', hi, rfl⟩ ⟨j', hj, rfl⟩
    rw [v.paired i i' j j' hi hj, hf.eq_iff]
  spared := v.spared

/-- A piece with its sites put elsewhere. -/
def Piece.moved (f : Site → Site) : Piece → Piece
  | .expression e => .expression (e.shifted ⟨0, f⟩)
  | .optional e => .optional (Expr.shiftedOption ⟨0, f⟩ e)
  | .expressions es => .expressions (Expr.shiftedAll ⟨0, f⟩ es)
  | .statement s => .statement (s.shifted ⟨0, f⟩)
  | .otherwise s => .otherwise (Stmt.shiftedOption ⟨0, f⟩ s)
  | .statements ss => .statements (Stmt.shiftedAll ⟨0, f⟩ ss)
  | .function d => .function (d.shifted ⟨0, f⟩)
  | .functions ds => .functions (FunctionDecl.shiftedAll ⟨0, f⟩ ds)

variable {v : Variation}

section Resited

variable {f : Site → Site} (hf : Function.Injective f)

theorem Variation.Names.resited {marked : Bool} {t t' : Token} (h : v.Names marked t t') :
    (v.resited f hf).Names marked t t' :=
  ⟨h.fresh, h.keeps⟩

theorem Variation.Stays.resited {marked : Bool} {name : String} (h : v.Stays marked name) :
    (v.resited f hf).Stays marked name :=
  ⟨h.fresh, h.same⟩

/-- The other writing of a piece with its sites put elsewhere. -/
theorem Alike.resited {marks : List Bool} {p p' : Piece} (h : Alike v marks p p') :
    Alike (v.resited f hf) marks p (p'.moved f) := by
  induction h with
  | literal value => exact .literal value
  | name hknown hname => exact .name ⟨_, hknown, rfl⟩ (hname.resited hf)
  | assign hknown hname _ ih => exact .assign ⟨_, hknown, rfl⟩ (hname.resited hf) ih
  | receiver hknown hname => exact .receiver ⟨_, hknown, rfl⟩ (hname.resited hf)
  | inherited hknown hname hmethod => exact .inherited ⟨_, hknown, rfl⟩ (hname.resited hf) hmethod
  | group _ ih => exact .group ih
  | unary hoperator _ ih => exact .unary hoperator ih
  | binary _ hoperator _ ihleft ihright => exact .binary ihleft hoperator ihright
  | logical _ hoperator _ ihleft ihright => exact .logical ihleft hoperator ihright
  | choice _ _ _ ihcondition ihtrue ihfalse => exact .choice ihcondition ihtrue ihfalse
  | call _ hparen _ ihcallee iharguments => exact .call ihcallee hparen iharguments
  | get _ hname ih => exact .get ih hname
  | set _ hname _ ihobject ihvalue => exact .set ihobject hname ihvalue
  | functionLiteral _ ih => exact .functionLiteral ih
  | absent => exact .absent
  | present _ ih => exact .present ih
  | noExpressions => exact .noExpressions
  | nextExpression _ _ ihe ihes => exact .nextExpression ihe ihes
  | @parts _ _ name' _ _ _ parameters' _ _ mark hname hkeyword hparameters _ ih =>
    have hnames : name'.map (Token.later 0) = name' := by rw [Token.later_zero, Option.map_id_apply]
    have hall := Token.map_later_zero parameters'
    refine .parts mark ?_ hkeyword ?_ ih
    · exact hnames.symm ▸ hname
    · exact hall.symm ▸ hparameters.imp fun _ _ h => h.resited hf
  | noFunctions => exact .noFunctions
  | nextFunction _ _ ihd ihds => exact .nextFunction ihd ihds
  | classDecl hstays hname _ _ _ _ _ ihs ihm ihc ihg iht =>
    exact .classDecl (hstays.resited hf) hname ihs ihm ihc ihg iht
  | block mark _ ih => exact .block mark ih
  | breakLoop hkeyword => exact .breakLoop hkeyword
  | continueLoop hkeyword => exact .continueLoop hkeyword
  | empty => exact .empty
  | expressionStatement _ ih => exact .expressionStatement ih
  | functionDecl hstays _ ih => exact .functionDecl (hstays.resited hf) ih
  | conditional _ _ _ ihcondition ihtrue ihfalse => exact .conditional ihcondition ihtrue ihfalse
  | input hkeyword _ ih => exact .input hkeyword ih
  | print hkeyword _ ih => exact .print hkeyword ih
  | returnValue hkeyword _ ih => exact .returnValue hkeyword ih
  | constant hname _ ih => exact .constant (hname.resited hf) ih
  | var hname _ ih => exact .var (hname.resited hf) ih
  | loop _ _ _ ihcondition ihbody ihincrement => exact .loop ihcondition ihbody ihincrement
  | noOtherwise => exact .noOtherwise
  | someOtherwise _ ih => exact .someOtherwise ih
  | noStatements => exact .noStatements
  | nextStatement _ _ ihs ihss => exact .nextStatement ihs ihss

end Resited

/-- Statements that agree up to sites with another writing are another writing as well, if no two of
their references have the same site. -/
theorem Alike.of_unsited {marks : List Bool} {ss ss' tt : List Stmt}
    (h : Alike v marks (.statements ss) (.statements ss'))
    (hsites : (sitesOf (Stmt.referencesAll ss')).Nodup)
    (hsites' : (sitesOf (Stmt.referencesAll tt)).Nodup)
    (hunsited : Stmt.unsitedAll tt = Stmt.unsitedAll ss') :
    ∃ f hf, Alike (v.resited f hf) marks (.statements ss) (.statements tt) := by
  obtain ⟨hlength, hmoved⟩ := Stmt.resited hunsited
  obtain ⟨f, hf, hmap⟩ := exists_moved hsites hsites' (by simpa [sitesOf] using hlength)
  obtain rfl := hmoved f hmap
  exact ⟨f, hf, h.resited hf⟩

end Lox
