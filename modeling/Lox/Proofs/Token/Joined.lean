import Lox.Proofs.Tree.Shifted
import Lox.Token.Scan.Lemmas

/-!
# Scanning texts one after the other

A text that scans without errors, and a line end behind it, are cut off from what follows: no token
goes past the line end, and a comment to the end of the line ends there. So the tokens of two
texts on consecutive lines are those of the first and, so many lines later, those of the second
(`scan_joined`).
-/

namespace Lox

namespace Scan

/-! ## Pieces before a line end -/

/-- The piece is no error. -/
def Piece.Good (p : Piece) : Prop :=
  ∀ cause, p.content ≠ .error cause

/-- A run of characters without line ends is over before one, whatever follows it. -/
theorem takeWhile_newline (test : Char → Bool) (h : test '\n' = false) (cs more : List Char) :
    (cs ++ '\n' :: more).takeWhile test = cs.takeWhile test ∧
      (cs ++ '\n' :: more).dropWhile test = cs.dropWhile test ++ '\n' :: more := by
  induction cs with
  | nil => simp [h]
  | cons c cs ih =>
    cases hc : test c with
    | true => simp [hc, ih]
    | false => simp [hc]

/-- A closed comment stays closed. -/
theorem closeComment?_before {cs taken rest : List Char} (h : closeComment? cs = some (taken, rest))
    (more : List Char) : closeComment? (cs ++ more) = some (taken, rest ++ more) := by
  fun_induction closeComment? cs generalizing taken rest with
  | case1 => simp at h
  | case2 => simp at h
  | case3 c d cs hcd =>
    obtain ⟨rfl, rfl⟩ := hcd
    simp only [Option.some.injEq, Prod.mk.injEq] at h
    obtain ⟨rfl, rfl⟩ := h
    simp [closeComment?]
  | case4 c d cs hcd ih =>
    simp only [Option.map_eq_some_iff, Prod.mk.injEq, Prod.exists] at h
    obtain ⟨taken', rest', h', rfl, rfl⟩ := h
    have hrest := ih h'
    rw [List.cons_append] at hrest
    simp [closeComment?, hcd, hrest]

variable {c : Char} {cs : List Char} (more : List Char)

/-- A word ends before a line end. -/
theorem word_before : word c (cs ++ '\n' :: more) =
    ((word c cs).1, (word c cs).2 ++ '\n' :: more) := by
  obtain ⟨htake, hdrop⟩ := takeWhile_newline isWordRest (by decide) cs more
  unfold word
  rw [htake, hdrop]

/-- A number ends before a line end. -/
theorem number_before : number c (cs ++ '\n' :: more) =
    ((number c cs).1, (number c cs).2 ++ '\n' :: more) := by
  obtain ⟨htake, hdrop⟩ := takeWhile_newline Char.isDigit (by decide) cs more
  unfold number
  rw [htake, hdrop]
  generalize cs.takeWhile Char.isDigit = before
  generalize cs.dropWhile Char.isDigit = rest
  have hdigit : ('\n').isDigit = false := by decide
  -- only a point with a digit behind it goes on with a number, and a line end is neither
  rcases rest with _ | ⟨x, _ | ⟨d, rest⟩⟩
  · rfl
  · by_cases hx : x = '.'
    · subst hx
      simp [hdigit]
    · simp [hx]
  · by_cases hx : x = '.'
    · subst hx
      have hnewline := takeWhile_newline Char.isDigit hdigit rest more
      cases hd : d.isDigit with
      | true => simp [hd, hnewline]
      | false => simp [hd]
    · simp [hx]

/-- A string that is closed before the line end. -/
theorem string_before (hgood : (string cs).1.Good) : string (cs ++ '\n' :: more) =
    ((string cs).1, (string cs).2 ++ '\n' :: more) := by
  unfold string at hgood ⊢
  dsimp only at hgood ⊢
  cases hdrop : cs.dropWhile (· != '"') with
  | nil =>
    -- without a closing quote the piece would be an error
    rw [hdrop] at hgood
    exact absurd rfl (hgood _)
  | cons quote rest =>
    have htake : (cs.takeWhile (· != '"')).length ≠ cs.length := by
      have hlength := congrArg List.length
        (List.takeWhile_append_dropWhile (p := (· != '"')) (l := cs))
      rw [hdrop, List.length_append, List.length_cons] at hlength
      omega
    rw [List.dropWhile_append, List.takeWhile_append, if_neg htake, hdrop]
    rfl

/-- What begins a block comment. -/
theorem slash_star (cs : List Char) : slash ('*' :: cs) =
    match closeComment? cs with
    | some (taken, rest) => (⟨.blank, '/' :: '*' :: taken⟩, rest)
    | none => (⟨.error .unterminatedComment, '/' :: '*' :: cs⟩, []) :=
  rfl

/-- A comment that is closed, or a slash, is the same before a line end. -/
theorem slash_before (hgood : (slash cs).1.Good) : slash (cs ++ '\n' :: more) =
    ((slash cs).1, (slash cs).2 ++ '\n' :: more) := by
  rcases cs with _ | ⟨d, cs⟩
  · rfl
  · by_cases hslash : d = '/'
    · subst hslash
      obtain ⟨htake, hdrop⟩ := takeWhile_newline (· != '\n') (by decide) cs more
      show (Piece.mk .blank ('/' :: '/' :: (cs ++ '\n' :: more).takeWhile (· != '\n')),
        (cs ++ '\n' :: more).dropWhile (· != '\n')) = _
      rw [htake, hdrop]
      rfl
    · by_cases hstar : d = '*'
      · subst hstar
        rw [List.cons_append, slash_star, slash_star]
        rw [slash_star] at hgood
        cases hclose : closeComment? cs with
        | none =>
          rw [hclose] at hgood
          exact absurd rfl (hgood _)
        | some result =>
          obtain ⟨taken, rest⟩ := result
          rw [closeComment?_before hclose]
      · simp [slash, hslash, hstar]

/-- A mark of one or two characters holds no line end. -/
theorem either_before (alone withEqual : Mark) : either c alone withEqual (cs ++ '\n' :: more) =
    ((either c alone withEqual cs).1, (either c alone withEqual cs).2 ++ '\n' :: more) := by
  rcases cs with _ | ⟨d, cs⟩
  · rfl
  · by_cases hequal : d = '='
    · subst hequal
      rfl
    · simp [either, hequal]

/-- A line end behind the text, and whatever follows it, does not change the piece at the front. -/
theorem front_before (hgood : (front c cs).1.Good) : front c (cs ++ '\n' :: more) =
    ((front c cs).1, (front c cs).2 ++ '\n' :: more) := by
  have hcut := front_cut c
  generalize front c = cut at hcut hgood ⊢
  cases hcut with
  | space | single | unexpected => rfl
  | slash => exact slash_before more hgood
  | string => exact string_before more hgood
  | number => exact number_before more
  | word => exact word_before more
  | either => exact either_before more _ _

/-! ## All pieces -/

/-- Fuel for each character is enough, and more of it changes nothing. -/
theorem piecesUpTo_fuel {fuel fuel' : Nat} {text : List Char} (h : text.length ≤ fuel)
    (h' : text.length ≤ fuel') : piecesUpTo fuel text = piecesUpTo fuel' text := by
  induction fuel generalizing fuel' text with
  | zero =>
    obtain rfl := List.length_eq_zero_iff.mp (Nat.le_zero.mp h)
    cases fuel' <;> rfl
  | succ fuel ih =>
    cases text with
    | nil => cases fuel' <;> rfl
    | cons c cs =>
      have hlt := front_rest_length_lt c cs
      cases fuel' with
      | zero => cases h'
      | succ fuel' =>
        rw [List.length_cons] at h h' hlt
        have hrest : piecesUpTo fuel (front c cs).2 = piecesUpTo fuel' (front c cs).2 :=
          ih (by omega) (by omega)
        exact congrArg _ hrest

/-- The piece at the front and the pieces of what follows it. -/
theorem pieces_cons (c : Char) (cs : List Char) :
    pieces (c :: cs) = (front c cs).1 :: pieces (front c cs).2 := by
  have hlt := front_rest_length_lt c cs
  rw [List.length_cons] at hlt
  have hrest : piecesUpTo cs.length (front c cs).2 = pieces (front c cs).2 :=
    piecesUpTo_fuel (by omega) (Nat.le_refl _)
  exact congrArg _ hrest

/-- A text that scans without errors and a line end are cut off from what follows. -/
theorem pieces_before {text : List Char} (hgood : ∀ p ∈ pieces text, p.Good) (more : List Char) :
    pieces (text ++ '\n' :: more) = pieces text ++ ⟨.blank, ['\n']⟩ :: pieces more := by
  -- by the length of the text: the pieces behind the first one are those of what it leaves
  induction hlength : text.length using Nat.strongRecOn generalizing text with
  | _ n ih =>
    cases text with
    | nil => exact pieces_cons '\n' more
    | cons c cs =>
      rw [pieces_cons] at hgood
      have hrest := ih _ (hlength ▸ front_rest_length_lt c cs)
        (fun p hp => hgood p (List.mem_cons_of_mem _ hp)) rfl
      rw [List.cons_append, pieces_cons, front_before more (hgood _ List.mem_cons_self), hrest,
        pieces_cons, List.cons_append]

/-! ## Items -/

/-- The item of a piece that begins on a line, if it has one. -/
def Piece.item? (line : Nat) (p : Piece) : Option Item :=
  match p.content with
  | .blank => none
  | .token kind => some (.token ⟨kind, String.ofList p.text, line + newlines p.text⟩)
  | .error .unterminatedString => some (.error ⟨line + newlines p.text, .unterminatedString⟩)
  | .error cause => some (.error ⟨line, cause⟩)

/-- A piece has its item before those of the pieces behind it. -/
theorem itemsFrom_cons (line : Nat) (p : Piece) (ps : List Piece) :
    itemsFrom line (p :: ps) =
      (p.item? line).toList ++ itemsFrom (line + newlines p.text) ps := by
  obtain ⟨content, text⟩ := p
  cases content with
  | error cause => cases cause <;> rfl
  | _ => rfl

/-- An item so many lines later. -/
def Item.later (lines : Nat) : Item → Item
  | .token t => .token (t.later lines)
  | .error e => .error { e with line := e.line + lines }

/-- The item of a piece moves with the line that it begins on. -/
theorem Piece.item?_later (line lines : Nat) (p : Piece) :
    p.item? (line + lines) = (p.item? line).map (Item.later lines) := by
  have hline : line + lines + newlines p.text = line + newlines p.text + lines := by omega
  unfold Piece.item?
  rw [hline]
  split <;> rfl

/-- The items of pieces move with the line that these begin on. -/
theorem itemsFrom_later (line lines : Nat) (ps : List Piece) :
    itemsFrom (line + lines) ps = (itemsFrom line ps).map (Item.later lines) := by
  induction ps generalizing line with
  | nil => rfl
  | cons p ps ih =>
    have hline : line + lines + newlines p.text = line + newlines p.text + lines := by omega
    rw [itemsFrom_cons, itemsFrom_cons, hline, ih, Piece.item?_later, List.map_append,
      Option.toList_map]

/-- The tokens among items that move. -/
theorem tokens_later (lines : Nat) (items : List Item) :
    (items.map (Item.later lines)).filterMap Item.token? =
      (items.filterMap Item.token?).map (Token.later lines) := by
  induction items with
  | nil => rfl
  | cons item items ih =>
    cases item with
    | token t => exact congrArg _ ih
    | error e => exact ih

/-- Where there is no error among items, there is none on later lines. -/
theorem errors_later (lines : Nat) {items : List Item} (h : items.filterMap Item.error? = []) :
    (items.map (Item.later lines)).filterMap Item.error? = [] := by
  induction items with
  | nil => rfl
  | cons item items ih =>
    cases item with
    | token t => exact ih h
    | error e => cases h

/-- The items of pieces without the end of the text. -/
def itemsOf (line : Nat) : List Piece → List Item
  | [] => []
  | p :: ps => (p.item? line).toList ++ itemsOf (line + newlines p.text) ps

/-- The items of pieces one after the other. -/
theorem itemsFrom_append (line : Nat) (ps qs : List Piece) :
    itemsFrom line (ps ++ qs) =
      itemsOf line ps ++ itemsFrom (line + newlines (ps.flatMap Piece.text)) qs := by
  induction ps generalizing line with
  | nil => rfl
  | cons p ps ih =>
    have hcount : newlines ((p :: ps).flatMap Piece.text) =
        newlines p.text + newlines (ps.flatMap Piece.text) := by
      rw [List.flatMap_cons]
      exact List.count_append
    rw [List.cons_append, itemsFrom_cons, ih, hcount, ← Nat.add_assoc, itemsOf, List.append_assoc]

/-- The last item is the end of the text. -/
theorem itemsFrom_end (line : Nat) (ps : List Piece) :
    itemsFrom line ps = itemsOf line ps ++
      [.token (.endOf (line + newlines (ps.flatMap Piece.text)))] := by
  have happend := itemsFrom_append line ps []
  rwa [List.append_nil] at happend

/-- If there is no error among the items, no piece is one. -/
theorem good_of_itemsOf {line : Nat} {ps : List Piece}
    (h : (itemsOf line ps).filterMap Item.error? = []) : ∀ p ∈ ps, p.Good := by
  induction ps generalizing line with
  | nil => exact fun p hp => nomatch hp
  | cons p ps ih =>
    rw [itemsOf, List.filterMap_append, List.append_eq_nil_iff] at h
    refine List.forall_mem_cons.mpr ⟨fun cause hcause => ?_, ih h.2⟩
    have hitem := h.1
    unfold Piece.item? at hitem
    rw [hcause] at hitem
    cases cause <;> simp [Item.error?] at hitem

/-- No item before the end is an end. -/
theorem itemsOf_open {line : Nat} {ps : List Piece} (hps : ∀ p ∈ ps, p.content ≠ .token .eof)
    {t : Token} (ht : .token t ∈ itemsOf line ps) : t.isEnd = false := by
  induction ps generalizing line with
  | nil => cases ht
  | cons p ps ih =>
    rw [itemsOf, List.mem_append] at ht
    rcases ht with ht | ht
    · have hcontent := hps p List.mem_cons_self
      rw [Option.mem_toList] at ht
      unfold Piece.item? at ht
      split at ht
      next => cases ht
      next kind hkind =>
        obtain rfl := Item.token.inj (Option.some.inj ht)
        refine Bool.eq_false_iff.mpr fun hend => hcontent ?_
        rw [hkind]
        exact congrArg _ (Token.isEnd_iff.mp hend)
      next => cases ht
      next => cases ht
    · exact ih (fun q hq => hps q (List.mem_cons_of_mem _ hq)) ht

/-! ## No piece is the end -/

/-- What begins with a slash is no end. -/
theorem slash_content (cs : List Char) : (slash cs).1.content ≠ .token .eof := by
  unfold slash
  split
  next => simp
  next => split <;> simp
  next => simp

/-- A string is no end. -/
theorem string_content (cs : List Char) : (string cs).1.content ≠ .token .eof := by
  unfold string
  dsimp only
  split <;> simp

/-- A number is no end. -/
theorem number_content (c : Char) (cs : List Char) : (number c cs).1.content ≠ .token .eof := by
  unfold number
  dsimp only
  split
  next => split <;> simp
  next => simp

/-- A word is no end. -/
theorem word_content (c : Char) (cs : List Char) : (word c cs).1.content ≠ .token .eof := by
  unfold word wordKind
  dsimp only
  split <;> simp

/-- A mark is no end. -/
theorem either_content (c : Char) (alone withEqual : Mark) (cs : List Char) :
    (either c alone withEqual cs).1.content ≠ .token .eof := by
  unfold either
  split <;> simp

/-- The piece at the front of a text is no end. -/
theorem front_content (c : Char) (cs : List Char) : (front c cs).1.content ≠ .token .eof := by
  have hcut := front_cut c
  generalize front c = cut at hcut ⊢
  cases hcut with
  | space | single | unexpected => simp
  | slash => exact slash_content cs
  | string => exact string_content cs
  | number => exact number_content c cs
  | word => exact word_content c cs
  | either => exact either_content c _ _ cs

/-- No piece of a text is its end. -/
theorem pieces_content (text : List Char) : ∀ p ∈ pieces text, p.content ≠ .token .eof := by
  induction hlength : text.length using Nat.strongRecOn generalizing text with
  | _ n ih =>
    cases text with
    | nil => exact fun p hp => nomatch hp
    | cons c cs =>
      rw [pieces_cons]
      exact List.forall_mem_cons.mpr
        ⟨front_content c cs, ih _ (hlength ▸ front_rest_length_lt c cs) _ rfl⟩

end Scan

/-! ## Two texts -/

open Scan

/-- The tokens of two texts on consecutive lines. -/
theorem scan_joined {first : String} (hfirst : scanErrors first = []) (second : String) :
    ∃ ts, scanTokens first = ts ++ [.endOf (1 + newlines first.toList)] ∧
      (∀ t ∈ ts, t.isEnd = false) ∧
      scanTokens (first ++ "\n" ++ second) =
        ts ++ (scanTokens second).map (Token.later (newlines first.toList + 1)) ∧
      (scanErrors second = [] → scanErrors (first ++ "\n" ++ second) = []) := by
  have htext := pieces_text first.toList
  have hscan := itemsFrom_end 1 (pieces first.toList)
  rw [htext] at hscan
  have hclean : (itemsOf 1 (pieces first.toList)).filterMap Item.error? = [] := by
    unfold scanErrors scan at hfirst
    rw [hscan, List.filterMap_append, List.append_eq_nil_iff] at hfirst
    exact hfirst.1
  have hlist : (first ++ "\n" ++ second).toList = first.toList ++ '\n' :: second.toList := by
    simp
  -- the first text's end is replaced by the line end, which gives no item, and by the second text
  have hboth : scan (first ++ "\n" ++ second) = itemsOf 1 (pieces first.toList) ++
      (scan second).map (Item.later (newlines first.toList + 1)) := by
    unfold scan
    rw [hlist, pieces_before (good_of_itemsOf hclean), itemsFrom_append, htext, itemsFrom_cons,
      ← itemsFrom_later]
    have hline : 1 + newlines first.toList + newlines ['\n'] =
        1 + (newlines first.toList + 1) := by
      show 1 + newlines first.toList + 1 = _
      omega
    exact congrArg (itemsOf 1 (pieces first.toList) ++ itemsFrom · (pieces second.toList)) hline
  refine ⟨(itemsOf 1 (pieces first.toList)).filterMap Item.token?, ?_, fun t ht => ?_, ?_,
    fun hsecond => ?_⟩
  · unfold scanTokens scan
    rw [hscan, List.filterMap_append]
    rfl
  · obtain ⟨item, hitem, heq⟩ := List.mem_filterMap.mp ht
    cases item with
    | token t' =>
      cases heq
      exact itemsOf_open (pieces_content _) hitem
    | error e => cases heq
  · unfold scanTokens
    rw [hboth, List.filterMap_append, tokens_later]
  · unfold scanErrors
    rw [hboth, List.filterMap_append, hclean, errors_later _ hsecond]
    rfl

section Ends

variable {source : String} (h : scanErrors source = [])

include h

/-- The end of a text is the last of its tokens and no other one. -/
theorem scanTokens_end : ∃ ts, scanTokens source = ts ++ [.endOf (1 + newlines source.toList)] ∧
    ∀ t ∈ ts, t.isEnd = false := by
  obtain ⟨ts, htokens, hopen, -⟩ := scan_joined h ""
  exact ⟨ts, htokens, hopen⟩

/-- Every text that is scanned has an end. -/
theorem exists_end : ∃ t ∈ scanTokens source, t.isEnd = true := by
  obtain ⟨ts, htokens, -⟩ := scanTokens_end h
  rw [htokens]
  exact ⟨_, List.mem_append_right _ (List.mem_singleton_self _), rfl⟩

end Ends

end Lox
