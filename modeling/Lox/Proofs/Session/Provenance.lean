import Lox.Proofs.Session.History
import Lox.Proofs.Token.Lines
import Lox.Grammar.Cursor

/-!
# Where errors come from

Every error that a session reports names a place in a text that it was given: lexical errors, syntax
errors and errors of resolving one in the text at hand, runtime errors one in this or an earlier
text. So the token that stands for a missing end and the names that setters are kept under are never
named, and the line that is reported is one of the text (`Chronicle.errors_sourced`).
-/

namespace Lox

/-- The token that an error names; lexical errors name none. -/
def Diagnostic.token? : Diagnostic → Option Token
  | .lexical _ => none
  | .syntactic e => some e.token
  | .scope e => some e.token
  | .runtime e => some e.token

/-- The line that an error tells. -/
def Diagnostic.line : Diagnostic → Nat
  | .lexical e => e.line
  | .syntactic e => e.token.line
  | .scope e => e.token.line
  | .runtime e => e.token.line

/-- The error names a place in `origin`. Only a runtime error, met when `source` is run, may come
from another text; only a line typed in has an end put behind its statements. -/
def Diagnostic.CameFrom (typed : Bool) (source origin : String) : Diagnostic → Prop
  | .lexical e => origin = source ∧ e ∈ scanErrors origin
  | .syntactic e =>
    origin = source ∧
      (e.token ∈ scanTokens origin ∨ typed = true ∧ e.token.EndsStatements (scanTokens origin))
  | .scope e => origin = source ∧ e.token ∈ scanTokens origin
  | .runtime e => e.token ∈ scanTokens origin

namespace Diagnostic

variable {typed : Bool} {source origin : String} {d : Diagnostic}

theorem From.cameFrom {sources : List String} (h : d.From (Chronicle.Scanned sources) typed source)
    (hsource : source ∈ sources) : ∃ origin ∈ sources, d.CameFrom typed source origin := by
  cases d with
  | lexical e => exact ⟨source, hsource, rfl, h⟩
  | syntactic e => exact ⟨source, hsource, rfl, h⟩
  | scope e => exact ⟨source, hsource, rfl, h⟩
  | runtime e => exact h

/-- What an error names is a token of its text, or an end on the line of such a token. -/
theorem CameFrom.token (h : d.CameFrom typed source origin) {t : Token} (ht : d.token? = some t) :
    t ∈ scanTokens origin ∨ t.EndsStatements (scanTokens origin) := by
  cases d with
  | lexical e => cases ht
  | syntactic e =>
    cases ht
    exact h.2.imp_right And.right
  | scope e =>
    cases ht
    exact .inl h.2
  | runtime e =>
    cases ht
    exact .inl h

end Diagnostic

namespace Token

variable {source : String} {t : Token}

theorem EndsStatements.line (h : t.EndsStatements (scanTokens source)) :
    1 ≤ t.line ∧ t.line ≤ 1 + Scan.newlines source.toList := by
  obtain ⟨front, last, rest, htokens, _, rfl⟩ := h
  exact scanTokens_line (t := last) (htokens ▸ List.mem_append_right _ List.mem_cons_self)

/-- The name that a setter is kept under is no name of a text. -/
theorem Spelled.not_setter (h : t.Spelled) {name : Token} (hname : name.isIdentifier = true) :
    t ≠ name.renamed (setterName name.lexeme) := by
  rintro rfl
  exact (h.plain (t := name.renamed (setterName name.lexeme)) hname).ne_setter name.lexeme rfl

theorem EndsStatements.spelled {tokens : List Token} (h : t.EndsStatements tokens) :
    t.Spelled := by
  obtain ⟨_, _, _, _, _, rfl⟩ := h
  exact .of_kind (fun _ hk => nomatch hk) fun hk => nomatch hk

end Token

namespace Diagnostic.CameFrom

variable {typed : Bool} {source origin : String} {d : Diagnostic}

/-- The line that is told is a line of the text that the error comes from. -/
theorem line (h : d.CameFrom typed source origin) :
    1 ≤ d.line ∧ d.line ≤ 1 + Scan.newlines origin.toList := by
  have hnamed : ∀ t, d.token? = some t →
      1 ≤ t.line ∧ t.line ≤ 1 + Scan.newlines origin.toList := fun t ht =>
    (h.token ht).elim scanTokens_line Token.EndsStatements.line
  cases d with
  | lexical e => exact scanErrors_line h.2
  | syntactic e => exact hnamed e.token rfl
  | scope e => exact hnamed e.token rfl
  | runtime e => exact hnamed e.token rfl

/-- No error names a token that no text has. -/
theorem genuine (h : d.CameFrom typed source origin) {t : Token} (ht : d.token? = some t) :
    t ≠ .missingEnd ∧
      ∀ name : Token, name.isIdentifier = true → t ≠ name.renamed (setterName name.lexeme) := by
  have hline : 1 ≤ t.line := ((h.token ht).elim scanTokens_line Token.EndsStatements.line).1
  refine ⟨?_, fun name hname => ?_⟩
  · rintro rfl
    exact absurd hline (by decide)
  · exact ((h.token ht).elim scanTokens_spelled Token.EndsStatements.spelled).not_setter hname

end Diagnostic.CameFrom

namespace Chronicle

/-- Errors come from the texts of the session. Whatever was done before and whatever is done next,
each error that this meets names a place in one of the texts so far; for all but runtime errors this
is the text at hand. No error names the token for a missing end or a setter by the name it is kept
under, and the line that is told is one of the text it comes from. -/
theorem errors_sourced (input : Input) (output : Output) (host : Host) (deeds : Deeds) (fuel : Nat)
    (deed : Deed) :
    let c := performAll deeds (start input output host)
    ∀ errors, (c.perform fuel deed).1 = some errors → ∀ d ∈ errors,
      ∃ source, deed.text? c.session = some source ∧
        ∃ origin ∈ texts deeds (start input output host) ++ [source],
          d.CameFrom deed.isTyped source origin ∧
            (∀ t, d.token? = some t → t ≠ .missingEnd ∧ ∀ name : Token, name.isIdentifier = true →
              t ≠ name.renamed (setterName name.lexeme)) ∧
            1 ≤ d.line ∧ d.line ≤ 1 + Scan.newlines origin.toList := by
  intro c errors herrors d hd
  -- runtime errors may name a token of any text so far, the one at hand included
  let sources := texts deeds (start input output host) ++ (deed.text? c.session).toList
  have hc : c.Orderly (Scanned sources) :=
    (performAll_later deeds (start_orderly _ input output host) fun source hs _ ht =>
      ⟨source, List.mem_append_left _ hs, ht⟩).orderly
  have hkeeps := perform_keeps fuel deed hc fun source hs _ ht =>
    ⟨source, List.mem_append_right _ (Option.mem_toList.mpr hs), ht⟩
  obtain ⟨source, hsource, hfrom⟩ := hkeeps.errors errors herrors d hd
  have hsources : sources = texts deeds (start input output host) ++ [source] := by
    show _ ++ (deed.text? c.session).toList = _
    rw [Option.mem_def.mp hsource]
    rfl
  rw [hsources] at hfrom
  obtain ⟨origin, horigin, hcame⟩ :=
    hfrom.cameFrom (List.mem_append_right _ (List.mem_singleton_self source))
  exact ⟨source, hsource, origin, horigin, hcame, fun t ht => hcame.genuine ht, hcame.line⟩

/-- The call of a function may fail on a line that the text of the call does not have. -/
theorem errors_sourced_earlier_text :
    let deeds := [(20, Deed.take (.run "fun f() \x7b\n\n  -nil;\n\x7d"))]
    let c := performAll deeds (start ⟨[]⟩ {} ⟨fun _ => 0, fun _ => 0, 0, 0⟩)
    ∃ e, (c.perform 20 (.take (.line "f();"))).1 = some [.runtime e] ∧ e.token.line = 3 ∧
      ∃ origin ∈ texts deeds (start ⟨[]⟩ {} ⟨fun _ => 0, fun _ => 0, 0, 0⟩) ++ ["f();"],
        (Diagnostic.runtime e).CameFrom true "f();" origin ∧
          3 ≤ 1 + Scan.newlines origin.toList := by
  intro deeds c
  have herrors : (c.perform 20 (.take (.line "f();"))).1 =
      some [.runtime ⟨⟨.mark .minus, "-", 3⟩, .operandNotNumber⟩] := by
    decide +kernel
  obtain ⟨source, hsource, origin, horigin, hcame, _, _, hlast⟩ :=
    errors_sourced ⟨[]⟩ {} ⟨fun _ => 0, fun _ => 0, 0, 0⟩ deeds 20 (.take (.line "f();")) _
      herrors _ List.mem_cons_self
  cases hsource
  exact ⟨_, herrors, rfl, origin, horigin, hcame, hlast⟩

end Chronicle

end Lox
