import FactoryIndex.Pattern.Call
import FactoryIndex.Pattern.TraitHeader
import FactoryIndex.Proofs.Pattern.Header
import FactoryIndex.Proofs.Pattern.Search

/-!
# Call sites as an expression

A call site is given by the expression

`\b(?:method|…)\s*(?:\(\s*)?((:name)(?:\s*,\s*:name)*)\s*(?:,\s*[^)\n]*)?(?:\)|\n|$)`,

a method, a list of symbols with or without an opening parenthesis, further arguments, and something that ends the call.
`callSearch` is the backtracking search for it, and reading it is what `call?` does without backtracking. A method, a
name and all runs of blanks but the last are read in full or not at all. What the search may have to give back is the
last of the further symbols, which then begins the further arguments, and the blanks behind the last newline.
-/

namespace FactoryIndex.Pattern

open Text Search

variable {text rest : List Char}

/-! ### The expression -/

def furtherSearch : Search (List Char) := do
  let blanks ← most isBlank
  let comma ← one (· == ',')
  let inner ← most isBlank
  let colon ← one (· == ':')
  let name ← atLeastOne isNameChar
  return blanks ++ (comma ++ (inner ++ (colon ++ name)))

def argumentSearch : Search (List Char) := do
  let comma ← one (· == ',')
  let blanks ← most isBlank
  let others ← most fun c => c != ')' && c != '\n'
  return comma ++ (blanks ++ others)

def closeSearch : Search (List Char) := (one (· == ')')).orElse ((one (· == '\n')).orElse atEnd)

/-- Blanks, further arguments if there are any, and the end of a call. -/
def endSearch : Search (List Char) := do
  let blanks ← most isBlank
  let others ← argumentSearch.maybe
  let close ← closeSearch
  return blanks ++ (others ++ close)

/-- The further symbols of a call, and its end. -/
def tailSearch : Search (List Char × List Char) := do
  let listed ← furtherSearch.often
  let ending ← endSearch
  return (listed, ending)

/-- The text of a call site: everything before its first colon, the name behind that, the further symbols, and all that
is behind them. -/
structure CallText where
  opening : List Char
  first : List Char
  listed : List Char
  ending : List Char
  deriving Repr, DecidableEq

def parenthesisSearch : Search (List Char) := do
  let opened ← one (· == '(')
  let inner ← most isBlank
  return opened ++ inner

/-- The call site behind all that is before its first colon. -/
def behindOpening (opening : List Char) : Search CallText := do
  let _ ← one (· == ':')
  let first ← atLeastOne isNameChar
  let tail ← tailSearch
  return ⟨opening, first, tail.1, tail.2⟩

/-- The call site behind its method. -/
def behindMethod (method : List Char) : Search CallText := do
  let blanks ← most isBlank
  let parenthesis ← parenthesisSearch.maybe
  behindOpening (method ++ (blanks ++ parenthesis))

def callSearch (methods : List (List Char)) : Search CallText := anyOf methods >>= behindMethod

/-! ### The end of a call -/

theorem argumentSearch_of_ne {c : Char} (hc : c ≠ ',') (rest : List Char) : argumentSearch (c :: rest) = [] := by
  rw [argumentSearch, one_bind, if_neg (by simpa using hc)]

theorem first?_closeSearch (c : Char) (rest : List Char) :
    closeSearch.first? (c :: rest) = if c = ')' ∨ c = '\n' then some ([c], rest) else none := by
  by_cases hparenthesis : c = ')'
  · subst hparenthesis
    rfl
  · by_cases hnewline : c = '\n'
    · subst hnewline
      rfl
    · simp [first?, closeSearch, orElse, one, atEnd, hparenthesis, hnewline]

/-- Where the blanks of an ending have been read: further arguments, and the end of the call. -/
def behindBlanks (blanks : List Char) : Search (List Char) := do
  let others ← argumentSearch.maybe
  let close ← closeSearch
  return blanks ++ (others ++ close)

theorem behindBlanks_apply (blanks text : List Char) :
    behindBlanks blanks text = (behindBlanks [] text).map fun read => (blanks ++ read.1, read.2) := by
  unfold behindBlanks
  simp only [bind_apply, List.map_flatMap]
  rfl

theorem first?_behindBlanks_of_ne {c : Char} (hc : c ≠ ',') (rest : List Char) :
    (behindBlanks []).first? (c :: rest) = if c = ')' ∨ c = '\n' then some ([c], rest) else none := by
  have hread : behindBlanks [] (c :: rest) = closeSearch (c :: rest) := by
    rw [behindBlanks, maybe_bind, bind_apply, argumentSearch_of_ne hc, bind_pure_apply]
    simp
  rw [← first?_closeSearch, first?, first?, hread]

theorem any_head?_dropWhile (p : Char → Bool) (text : List Char) :
    Option.any p (text.dropWhile p).head? = false := by
  have hnot := List.head?_dropWhile_not p text
  cases hdrop : (text.dropWhile p).head? with
  | none => rfl
  | some c => rwa [hdrop] at hnot

theorem first?_argumentSearch (rest : List Char) :
    let inner := rest.takeWhile isBlank
    let others := (rest.dropWhile isBlank).takeWhile fun c => c != ')' && c != '\n'
    argumentSearch.first? (',' :: rest) =
      some (',' :: (inner ++ others), (rest.dropWhile isBlank).dropWhile fun c => c != ')' && c != '\n') := by
  intro inner others
  have hinner := first?_most isBlank rest
  have hothers := first?_most (fun c => c != ')' && c != '\n') (rest.dropWhile isBlank)
  rw [argumentSearch, first?, one_bind, if_pos (by rfl)]
  exact first?_bind_of_some hinner (first?_bind_of_some hothers rfl)

theorem first?_behindBlanks_comma (rest : List Char) :
    let arguments := (rest.dropWhile isBlank).takeWhile fun c => c != ')' && c != '\n'
    let length := 1 + (rest.takeWhile isBlank).length + arguments.length
    let stop := if length < (',' :: rest).length then length + 1 else length
    (behindBlanks []).first? (',' :: rest) = some ((',' :: rest).take stop, (',' :: rest).drop stop) := by
  intro arguments length stop
  let left := (rest.dropWhile isBlank).dropWhile fun c => c != ')' && c != '\n'
  let piece := ',' :: (rest.takeWhile isBlank ++ arguments)
  have hsplit : ',' :: rest = piece ++ left := by
    show ',' :: rest = ',' :: (rest.takeWhile isBlank ++ arguments ++ left)
    rw [List.append_assoc, List.takeWhile_append_dropWhile, List.takeWhile_append_dropWhile]
  have hlength : piece.length = length := by
    simp only [piece, length, List.length_cons, List.length_append]
    omega
  have hargument : argumentSearch.maybe.first? (',' :: rest) = some (piece, left) := by
    rw [maybe, first?_orElse, first?_argumentSearch]
    rfl
  rw [behindBlanks]
  refine first?_bind_of_some hargument ?_
  show (closeSearch >>= fun close => pure (piece ++ close)).first? left = _
  rw [first?_bind_pure, hsplit]
  -- The arguments stop at a parenthesis, at a newline, or at the end of the text.
  cases hleft : left with
  | nil =>
      have hstop : stop = piece.length := by
        simp only [stop, hsplit, hleft, hlength, List.append_nil, Nat.lt_irrefl, if_false]
      simp [hstop, closeSearch, first?, orElse, one, atEnd]
  | cons c behind =>
      have hc : c = ')' ∨ c = '\n' := by
        have hnot := any_head?_dropWhile (fun c => c != ')' && c != '\n') (rest.dropWhile isBlank)
        rw [show (rest.dropWhile isBlank).dropWhile _ = c :: behind from hleft] at hnot
        simpa [Decidable.or_iff_not_imp_left] using hnot
      have hstop : stop = (piece ++ [c]).length := by
        simp only [stop, hsplit, hleft, hlength, List.length_append, List.length_cons, List.length_nil]
        rw [if_pos (by omega)]
      rw [first?_closeSearch, if_pos hc, List.append_cons, hstop, List.take_left, List.drop_left]
      rfl

theorem endSearch_eq_bind : endSearch = most isBlank >>= behindBlanks := rfl

theorem endSearch_of_not_isBlank {text : List Char} (htext : Option.any isBlank text.head? = false) :
    endSearch text = behindBlanks [] text := by
  rw [endSearch_eq_bind, bind_apply, most_of_not htext]
  exact List.append_nil _

/-- A blank before an ending: the search may go on behind it, or else end with it. -/
theorem first?_endSearch_cons {c : Char} (hc : isBlank c = true) (rest : List Char) :
    endSearch.first? (c :: rest) =
      ((endSearch.first? rest).map fun read => (c :: read.1, read.2)).or
        (if c = '\n' then some (['\n'], rest) else none) := by
  have hcomma : c ≠ ',' := by
    rintro rfl
    exact absurd hc (by decide)
  have hparenthesis : c ≠ ')' := by
    rintro rfl
    exact absurd hc (by decide)
  have hread : endSearch (c :: rest) =
      (endSearch rest).map (fun read => (c :: read.1, read.2)) ++ behindBlanks [] (c :: rest) := by
    simp only [endSearch_eq_bind, bind_apply, most, if_pos hc, List.flatMap_append, List.flatMap_map,
      List.flatMap_singleton, List.map_flatMap]
    congr 2
    funext read
    rw [behindBlanks_apply, behindBlanks_apply read.1, List.map_map]
    rfl
  have hhere := first?_behindBlanks_of_ne hcomma rest
  rw [first?] at hhere ⊢
  rw [hread, List.head?_append, List.head?_map, hhere]
  by_cases hnewline : c = '\n'
  · rw [if_pos (Or.inr hnewline), if_pos hnewline, hnewline]
    rfl
  · rw [if_neg (by simp [hparenthesis, hnewline]), if_neg hnewline]
    rfl

theorem callEnd?_cons {c : Char} (hc : isBlank c = true) (rest : List Char) :
    callEnd? (c :: rest) = ((callEnd? rest).map (· + 1)).or (if c = '\n' then some 1 else none) := by
  unfold callEnd?
  simp only [List.takeWhile_cons_of_pos hc, List.dropWhile_cons_of_pos hc, List.length_cons]
  split
  · rfl
  · simp only [Option.map_some, Option.some_or]
  · simp only [Option.map_some, Option.some_or, Option.some.injEq]
    split <;> split <;> omega
  · -- The last newline is one of the later blanks, or the first blank.
    have hle := (List.takeWhile_sublist (fun d => d != '\n') (l := (rest.takeWhile isBlank).reverse)).length_le
    rw [List.length_reverse] at hle
    rw [List.reverse_cons, List.takeWhile_append, List.length_reverse]
    by_cases hnone : ((rest.takeWhile isBlank).reverse.takeWhile (· != '\n')).length = (rest.takeWhile isBlank).length
    · by_cases hnewline : c = '\n'
      · simp [hnone, hnewline]
      · simp [hnone, hnewline]
    · rw [if_neg hnone, if_pos (by omega), if_pos (by omega), Option.map_some, Option.some_or, Option.some.injEq]
      omega

/-- The way to end a call that is tried first is the one that `callEnd?` takes. -/
theorem first?_endSearch (text : List Char) :
    endSearch.first? text = (callEnd? text).map fun length => (text.take length, text.drop length) := by
  induction text with
  | nil => rfl
  | cons c rest ih =>
      cases hblank : isBlank c with
      | true =>
          rw [first?_endSearch_cons hblank, callEnd?_cons hblank, ih]
          cases callEnd? rest with
          | some length => rfl
          | none =>
              by_cases hnewline : c = '\n'
              · subst hnewline
                rfl
              · simp [hnewline]
      | false =>
          have htake : (c :: rest).takeWhile isBlank = [] := List.takeWhile_cons_of_neg (by simp [hblank])
          have hdrop : (c :: rest).dropWhile isBlank = c :: rest := List.dropWhile_cons_of_neg (by simp [hblank])
          have hend : endSearch.first? (c :: rest) = (behindBlanks []).first? (c :: rest) :=
            congrArg List.head? (@endSearch_of_not_isBlank (c :: rest) hblank)
          rw [hend]
          by_cases hcomma : c = ','
          · subst hcomma
            rw [first?_behindBlanks_comma, callEnd?, hdrop, htake]
            simp
          · rw [first?_behindBlanks_of_ne hcomma, callEnd?, hdrop, htake]
            have hnewline : c ≠ '\n' := by
              rintro rfl
              exact absurd hblank (by decide)
            by_cases hparenthesis : c = ')'
            · subst hparenthesis
              rfl
            · simp [hparenthesis, hnewline, hcomma]

theorem not_isBlank_of_isNameChar {c : Char} (hc : isNameChar c = true) : isBlank c = false := by
  cases hblank : isBlank c with
  | false => rfl
  | true =>
      rw [not_isNameChar_of_isBlank hblank] at hc
      cases hc

theorem endSearch_of_isNameChar {c : Char} (hc : isNameChar c = true) (rest : List Char) :
    endSearch (c :: rest) = [] := by
  have hother : ∀ d, isNameChar d = false → c ≠ d := by
    rintro d hd rfl
    rw [hc] at hd
    cases hd
  rw [@endSearch_of_not_isBlank (c :: rest) (not_isBlank_of_isNameChar hc), ← List.head?_eq_none_iff]
  refine (first?_behindBlanks_of_ne (hother ',' (by decide)) rest).trans (if_neg ?_)
  rintro (h | h)
  · exact hother ')' (by decide) h
  · exact hother '\n' (by decide) h

/-! ### The symbols of a call -/

theorem one_bind_self {β : Type} (c : Char) (next : List Char → Search β) (rest : List Char) :
    (one (· == c) >>= next) (c :: rest) = next [c] rest := by
  rw [one_bind, if_pos (by simp)]

theorem one_bind_of_ne {β : Type} {c : Char} (next : List Char → Search β)
    (hne : ∀ rest, text ≠ c :: rest) : (one (· == c) >>= next) text = [] := by
  cases text with
  | nil => rfl
  | cons d rest =>
      rw [one_bind, if_neg]
      intro heq
      exact hne rest (by rw [beq_iff_eq.1 heq])

/-- A symbol is read in full if nothing that follows starts inside a name. -/
theorem colon_bind {β : Type} {next : List Char → List Char → Search β}
    (hstuck : ∀ name c rest, isNameChar c = true → next [':'] name (c :: rest) = []) (text : List Char) :
    (one (· == ':') >>= fun colon => atLeastOne isNameChar >>= next colon) text =
      match symbol? text with
      | some (symbol, rest) => next [':'] symbol.name rest
      | none => [] := by
  fun_cases symbol? text with
  | case1 rest name hempty => rw [one_bind_self, atLeastOne_bind hstuck, if_pos hempty]
  | case2 rest name hempty => rw [one_bind_self, atLeastOne_bind hstuck, if_neg hempty]
  | case3 text hne => exact one_bind_of_ne _ fun rest heq => hne rest heq

theorem blanks_bind {β : Type} {d : Char} (hd : isBlank d = false) (next : List Char → List Char → Search β)
    (text : List Char) :
    (most isBlank >>= fun blanks => one (· == d) >>= next blanks) text =
      (one (· == d) >>= next (text.takeWhile isBlank)) (text.dropWhile isBlank) := by
  refine most_bind (fun blanks c rest hc => one_bind_of_ne _ fun tail heq => ?_) text
  obtain ⟨rfl, -⟩ := List.cons.inj heq
  rw [hc] at hd
  cases hd

theorem split_further {inner named : List Char} (hcomma : text.dropWhile isBlank = ',' :: inner)
    (hcolon : inner.dropWhile isBlank = ':' :: named) :
    text = text.takeWhile isBlank ++ (',' :: (inner.takeWhile isBlank ++
      (':' :: (named.takeWhile isNameChar ++ named.dropWhile isNameChar)))) := by
  rw [List.takeWhile_append_dropWhile, ← hcolon, List.takeWhile_append_dropWhile, ← hcomma,
    List.takeWhile_append_dropWhile]

/-- A further symbol is read in full if nothing that follows starts inside a name. -/
theorem furtherSearch_bind {β : Type} {next : List Char → Search β}
    (hstuck : ∀ piece c rest, isNameChar c = true → next piece (c :: rest) = []) (text : List Char) :
    (furtherSearch >>= next) text =
      match furtherSymbol? text with
      | some (symbol, ⟨rest, _⟩) => next (text.take symbol.stop) rest
      | none => [] := by
  simp only [furtherSearch, bind_assoc, pure_bind]
  rw [blanks_bind (by decide)]
  fun_cases furtherSymbol? text with
  | case1 inner hcomma named hcolon name hempty =>
      rw [hcomma, one_bind_self, blanks_bind (by decide), hcolon, one_bind_self, atLeastOne_bind fun _ => hstuck _,
        if_pos hempty]
  | case2 inner hcomma named hcolon name hempty =>
      rw [hcomma, one_bind_self, blanks_bind (by decide), hcolon, one_bind_self, atLeastOne_bind fun _ => hstuck _,
        if_neg hempty]
      let piece := text.takeWhile isBlank ++ ([','] ++ (inner.takeWhile isBlank ++ ([':'] ++ name)))
      have hsplit : text = piece ++ named.dropWhile isNameChar :=
        (split_further hcomma hcolon).trans (by simp [piece, name])
      have hpiece : text.take (Symbol.mk
          ((text.takeWhile isBlank).length + 1 + (inner.takeWhile isBlank).length + 1) name).stop = piece := by
        refine (congrArg (List.take _) hsplit).trans (List.take_left' ?_)
        simp only [piece, Symbol.stop, List.length_append, List.length_singleton]
        omega
      simp only [hpiece]
      rfl
  | case3 inner hcomma hcolon =>
      rw [hcomma, one_bind_self, blanks_bind (by decide)]
      exact one_bind_of_ne _ hcolon
  | case4 hcomma => exact one_bind_of_ne _ hcomma

theorem furtherSymbol?_eq_some {symbol : Symbol} {hlt : rest.length < text.length}
    (h : furtherSymbol? text = some (symbol, ⟨rest, hlt⟩)) :
    ∃ front, text.take symbol.stop = front ++ ':' :: symbol.name ∧ text.drop symbol.stop = rest ∧
      symbol.start = front.length + 1 ∧ symbol.Named ∧ front ≠ [] ∧ ∀ c ∈ front, c = ',' ∨ isBlank c = true := by
  revert h
  fun_cases furtherSymbol? text with
  | case1 inner hcomma named hcolon name hempty => nofun
  | case2 inner hcomma named hcolon name hempty =>
      intro h
      simp only [Option.some.injEq, Prod.mk.injEq, Subtype.mk.injEq] at h
      obtain ⟨rfl, rfl⟩ := h
      let front := text.takeWhile isBlank ++ ',' :: inner.takeWhile isBlank
      have htext : text = (front ++ ':' :: name) ++ named.dropWhile isNameChar :=
        (split_further hcomma hcolon).trans (by simp [front, name])
      have hstart : (text.takeWhile isBlank).length + 1 + (inner.takeWhile isBlank).length + 1 = front.length + 1 := by
        simp only [front, List.length_append, List.length_cons]
        omega
      have hstop : (front ++ ':' :: name).length = front.length + 1 + name.length := by
        rw [List.length_append, List.length_cons]
        omega
      refine ⟨front, ?_, ?_, hstart, ⟨by simpa using hempty, List.all_eq_true.1 List.all_takeWhile⟩, by simp [front],
        ?_⟩
      · rw [Symbol.stop, hstart]
        exact (congrArg (List.take _) htext).trans (List.take_left' hstop)
      · rw [Symbol.stop, hstart]
        exact (congrArg (List.drop _) htext).trans (List.drop_left' hstop)
      · intro c hc
        rcases List.mem_append.1 hc with hc | hc
        · exact Or.inr (List.all_eq_true.1 List.all_takeWhile c hc)
        · rcases List.mem_cons.1 hc with rfl | hc
          · exact Or.inl rfl
          · exact Or.inr (List.all_eq_true.1 List.all_takeWhile c hc)
  | case3 inner hcomma hcolon => nofun
  | case4 hcomma => nofun

theorem length_take_of_furtherSymbol? {symbol : Symbol} {hlt : rest.length < text.length}
    (h : furtherSymbol? text = some (symbol, ⟨rest, hlt⟩)) : (text.take symbol.stop).length = symbol.stop := by
  obtain ⟨front, htake, -, hstart, -⟩ := furtherSymbol?_eq_some h
  rw [htake, List.length_append, List.length_cons, Symbol.stop, hstart]
  omega

/-- Neither a further symbol nor the end of a call starts inside a name. -/
theorem tailSearch_of_isNameChar {c : Char} (hc : isNameChar c = true) (rest : List Char) :
    tailSearch (c :: rest) = [] := by
  have hfurther : furtherSearch (c :: rest) = [] := by
    have hcomma : ∀ tail, c :: rest ≠ ',' :: tail := by
      rintro tail ⟨⟩
      exact absurd hc (by decide)
    rw [furtherSearch, blanks_bind (by decide), List.dropWhile_cons_of_neg (by simp [not_isBlank_of_isNameChar hc])]
    exact one_bind_of_ne _ hcomma
  rw [tailSearch, often_bind, hfurther, bind_apply, endSearch_of_isNameChar hc]
  rfl

theorem tailSearch_eq (text : List Char) :
    tailSearch text =
      (match furtherSymbol? text with
        | some (symbol, ⟨rest, _⟩) =>
          (tailSearch rest).map fun read => ((text.take symbol.stop ++ read.1.1, read.1.2), read.2)
        | none => []) ++
      (endSearch text).map fun read => (([], read.1), read.2) := by
  let behind (piece : List Char) : Search (List Char × List Char) := fun left =>
    if left.length < text.length then
      (tailSearch left).map fun read => ((piece ++ read.1.1, read.1.2), read.2)
    else []
  have hstuck : ∀ piece c rest, isNameChar c = true → behind piece (c :: rest) = [] := by
    intro piece c rest hc
    simp only [behind, tailSearch_of_isNameChar hc, List.map_nil, ite_self]
  have hbehind : tailSearch text =
      (furtherSearch >>= behind) text ++ (endSearch text).map fun read => (([], read.1), read.2) := by
    rw [tailSearch, often_bind, bind_pure_apply, bind_apply]
    congr 2
    funext read
    simp only [behind, tailSearch, bind_apply, List.map_flatMap]
    rfl
  rw [hbehind, furtherSearch_bind hstuck]
  split
  · next symbol left hlt _ => simp only [behind, if_pos hlt]
  · rfl

theorem first?_tailSearch (text : List Char) :
    tailSearch.first? text =
      ((furtherSymbol? text).bind fun further => (tailSearch.first? further.2.val).map fun read =>
        ((text.take further.1.stop ++ read.1.1, read.1.2), read.2)).or
      ((endSearch.first? text).map fun read => (([], read.1), read.2)) := by
  rw [first?, tailSearch_eq, List.head?_append, List.head?_map]
  cases furtherSymbol? text with
  | none => rfl
  | some further => exact congrArg (Option.or · _) List.head?_map

/-- The further symbols and the end of a call are a piece of the text, and the end does not start inside a name. -/
theorem split_of_tailSearch {text listed ending left : List Char}
    (h : tailSearch.first? text = some ((listed, ending), left)) :
    text = listed ++ (ending ++ left) ∧ Option.any isNameChar (ending ++ left).head? = false := by
  rw [first?_tailSearch, Option.or_eq_some_iff] at h
  rcases h with h | ⟨-, h⟩
  · obtain ⟨⟨symbol, rest, hlt⟩, hfurther, hread⟩ := Option.bind_eq_some_iff.1 h
    obtain ⟨⟨⟨others, last⟩, behind⟩, hrest, heq⟩ := Option.map_eq_some_iff.1 hread
    obtain ⟨-, -, hdrop, -⟩ := furtherSymbol?_eq_some hfurther
    simp only [Prod.mk.injEq] at heq
    obtain ⟨⟨rfl, rfl⟩, rfl⟩ := heq
    obtain ⟨hsplit, hends⟩ : rest = _ ∧ _ := split_of_tailSearch hrest
    refine ⟨?_, hends⟩
    rw [List.append_assoc, ← hsplit, ← hdrop, List.take_append_drop]
  · obtain ⟨⟨last, behind⟩, hend, heq⟩ := Option.map_eq_some_iff.1 h
    simp only [Prod.mk.injEq] at heq
    obtain ⟨⟨rfl, rfl⟩, rfl⟩ := heq
    have htext : text = last ++ behind := by
      rw [first?_endSearch] at hend
      obtain ⟨length, -, heq⟩ := Option.map_eq_some_iff.1 hend
      obtain ⟨rfl, rfl⟩ := Prod.mk.inj heq
      exact (List.take_append_drop length text).symm
    refine ⟨htext, ?_⟩
    rw [← htext]
    cases htext : text with
    | nil => rfl
    | cons c rest =>
        cases hc : isNameChar c with
        | false => exact hc
        | true => rw [htext, first?, endSearch_of_isNameChar hc] at hend; cases hend
termination_by text.length

/-! ### Symbols in a list of symbols -/

theorem symbolHere?_of_ne {c : Char} (hc : c ≠ ':') (before : Option Char) (rest : List Char) :
    symbolHere? before (c :: rest) = none := by
  have hsymbol : symbol? (c :: rest) = none := by
    unfold symbol?
    split
    · next heq => exact absurd (List.cons.inj heq).1 hc
    · rfl
  rw [symbolHere?, hsymbol]
  rfl

theorem occurrencesFrom_symbolHere? (skip offset : Nat) (before : Option Char) (text : List Char) :
    occurrencesFrom symbolHere? skip offset before text = occurrencesFrom symbolHere? skip offset none text := by
  cases text with
  | nil => rfl
  | cons c rest => cases skip <;> rfl

theorem any_head?_of_symbol? {symbol : Symbol} (h : symbol? text = some (symbol, rest)) :
    Option.any isNameChar rest.head? = false := by
  revert h
  fun_cases symbol? text with
  | case1 named name hempty => nofun
  | case2 named name hempty =>
      intro h
      obtain ⟨-, rfl⟩ := Prod.mk.inj (Option.some.inj h)
      exact any_head?_dropWhile isNameChar named
  | case3 text hne => nofun

theorem symbol?_of_name {name : List Char} (hne : name ≠ []) (hname : ∀ c ∈ name, isNameChar c = true)
    (hrest : Option.any isNameChar rest.head? = false) : symbol? (':' :: (name ++ rest)) = some (⟨1, name⟩, rest) := by
  simp only [symbol?, takeWhile_word hname hrest, dropWhile_word hname hrest, List.isEmpty_iff, if_neg hne]

theorem symbols_append {front name : List Char} (hfront : ∀ c ∈ front, c ≠ ':') (hne : name ≠ [])
    (hname : ∀ c ∈ name, isNameChar c = true) (hrest : Option.any isNameChar rest.head? = false) :
    symbols (front ++ ':' :: (name ++ rest)) =
      ⟨front.length, 1 + name.length, ⟨1, name⟩⟩ ::
        (symbols rest).map (Found.shift (front.length + 1 + name.length)) := by
  have hmisses : ∀ {before : Option Char}, Misses symbolHere? before front (':' :: (name ++ rest)) := by
    intro before
    induction front generalizing before with
    | nil => exact Yields.nil symbolHere? before _
    | cons c front ih =>
        have hchar : Misses symbolHere? before [c] (front ++ ':' :: (name ++ rest)) :=
          Yields.char (symbolHere?_of_ne (hfront c List.mem_cons_self) before _)
        exact hchar.misses_append (ih fun d hd => hfront d (List.mem_cons_of_mem c hd))
  have hsymbol : symbolHere? (lastOr none front) (':' :: (name ++ rest)) = some ⟨1 + name.length, ⟨1, name⟩⟩ := by
    rw [symbolHere?, symbol?_of_name hne hname hrest]
    rfl
  have hhit : Yields symbolHere? (lastOr none front) (':' :: name) rest
      fun offset => [⟨offset, 1 + name.length, ⟨1, name⟩⟩] :=
    Yields.hit hsymbol (by simp only [List.length_cons]; omega) (List.cons_ne_nil _ _)
  have hfound := (hmisses.after_miss hhit) 0
  have hlength : 0 + (front ++ ':' :: name).length = front.length + 1 + name.length + 0 := by
    rw [List.length_append, List.length_cons]
    omega
  rw [List.append_assoc, List.cons_append, hlength, occurrencesFrom_shift,
    occurrencesFrom_symbolHere? 0 0 (lastOr none _)] at hfound
  simp only [Nat.zero_add, List.singleton_append] at hfound
  exact hfound

def symbolsIn (offset : Nat) (listed : List Char) : List Symbol :=
  (symbols listed).map fun found => ⟨offset + found.start + 1, found.parts.name⟩

theorem symbolsIn_further {listed : List Char} {symbol : Symbol} {hlt : rest.length < text.length}
    (hfurther : furtherSymbol? text = some (symbol, ⟨rest, hlt⟩))
    (hlisted : Option.any isNameChar listed.head? = false) (offset : Nat) :
    symbolsIn offset (text.take symbol.stop ++ listed) =
      symbol.shift offset :: symbolsIn (offset + symbol.stop) listed := by
  obtain ⟨front, htake, -, hstart, ⟨hne, hname⟩, -, hfront⟩ := furtherSymbol?_eq_some hfurther
  have hcolon : ∀ c ∈ front, c ≠ ':' := by
    rintro c hc rfl
    exact absurd (hfront ':' hc) (by decide)
  rw [htake, List.append_assoc, List.cons_append, symbolsIn, symbols_append hcolon hne hname hlisted, List.map_cons,
    List.map_map, symbolsIn, Symbol.shift, hstart]
  congr 2
  funext found
  simp only [Function.comp_apply, Found.shift, Symbol.stop, hstart]
  congr 1
  omega

theorem callEnd?_le_length {length : Nat} (h : callEnd? text = some length) : length ≤ text.length := by
  have hlength := length_takeWhile_add isBlank text
  unfold callEnd? at h
  simp only at h
  split at h
  · cases h
    omega
  · next hdrop =>
    cases h
    rw [hdrop, List.length_cons] at hlength
    omega
  · next rest hdrop =>
    cases h
    have hrest := length_takeWhile_add isBlank rest
    have hothers := length_takeWhile_add (fun c => c != ')' && c != '\n') (rest.dropWhile isBlank)
    rw [hdrop, List.length_cons] at hlength
    split <;> omega
  · split at h
    · cases h
      omega
    · cases h

theorem head?_of_tailSearch {read : (List Char × List Char) × List Char} (h : tailSearch.first? text = some read) :
    Option.any isNameChar text.head? = false := by
  cases text with
  | nil => rfl
  | cons c rest =>
      cases hc : isNameChar c with
      | false => exact hc
      | true =>
          rw [first?, tailSearch_of_isNameChar hc] at h
          cases h

/-- What `callRest?` reads is what the backtracking search reads first. -/
theorem callRest?_eq (offset : Nat) (text : List Char) :
    callRest? offset text = (tailSearch.first? text).map fun read =>
      (symbolsIn offset read.1.1, offset + read.1.1.length + read.1.2.length) := by
  have hhere : ∀ offset text, (callEnd? text).map (fun length => ([], offset + length)) =
      ((endSearch.first? text).map fun read => (([], read.1), read.2)).map fun read =>
        (symbolsIn offset read.1.1, offset + read.1.1.length + read.1.2.length) := by
    intro offset text
    rw [first?_endSearch]
    cases hend : callEnd? text with
    | none => rfl
    | some length =>
        simp only [Option.map_some, List.length_take_of_le (callEnd?_le_length hend), List.length_nil, Nat.add_zero]
        rfl
  fun_induction callRest? offset text with
  | case1 offset text symbol rest hlt hfurther others length hrest ih =>
      rw [ih] at hrest
      obtain ⟨⟨⟨listed, ending⟩, left⟩, hread, heq⟩ := Option.map_eq_some_iff.1 hrest
      obtain ⟨rfl, rfl⟩ := Prod.mk.inj heq
      have hlisted : Option.any isNameChar listed.head? = false := by
        have hhead := head?_of_tailSearch hread
        cases listed with
        | nil => rfl
        | cons c others => rwa [(split_of_tailSearch hread).1] at hhead
      rw [first?_tailSearch, hfurther, Option.bind_some, hread, Option.map_some, Option.some_or, Option.map_some,
        symbolsIn_further hfurther hlisted, List.length_append, length_take_of_furtherSymbol? hfurther]
      simp only [Nat.add_assoc]
  | case2 offset text here symbol rest hlt hfurther hrest ih =>
      rw [ih, Option.map_eq_none_iff] at hrest
      rw [first?_tailSearch, hfurther, Option.bind_some, hrest, Option.map_none, Option.none_or]
      exact hhere offset text
  | case3 offset text here hfurther =>
      rw [first?_tailSearch, hfurther, Option.bind_none, Option.none_or]
      exact hhere offset text

/-! ### Call sites -/

theorem behindOpening_eq (opening text : List Char) :
    behindOpening opening text =
      match symbol? text with
      | some (symbol, rest) =>
        (tailSearch rest).map fun read => (⟨opening, symbol.name, read.1.1, read.1.2⟩, read.2)
      | none => [] := by
  have hstuck : ∀ (first : List Char) (c : Char) (rest : List Char), isNameChar c = true →
      (tailSearch >>= fun tail => pure (CallText.mk opening first tail.1 tail.2)) (c :: rest) = [] := by
    intro first c rest hc
    rw [bind_apply, tailSearch_of_isNameChar hc]
    rfl
  rw [behindOpening, colon_bind hstuck]
  split
  · exact bind_pure_apply _ _ _
  · rfl

theorem behindOpening_of_ne {opening : List Char} (hcolon : ∀ rest, text ≠ ':' :: rest) :
    behindOpening opening text = [] := one_bind_of_ne _ hcolon

theorem parenthesisSearch_bind {β : Type} {next : List Char → Search β}
    (hstuck : ∀ piece c rest, isBlank c = true → next piece (c :: rest) = []) (inner : List Char) :
    (parenthesisSearch >>= next) ('(' :: inner) =
      next ('(' :: inner.takeWhile isBlank) (inner.dropWhile isBlank) := by
  rw [parenthesisSearch, bind_assoc, one_bind_self, bind_assoc]
  simp only [pure_bind]
  exact most_bind (fun piece => hstuck _) inner

theorem parenthesisSearch_bind_of_ne {β : Type} {next : List Char → Search β}
    (hne : ∀ inner, text ≠ '(' :: inner) : (parenthesisSearch >>= next) text = [] := by
  rw [parenthesisSearch, bind_assoc]
  exact one_bind_of_ne _ hne

/-- An opening parenthesis with the blanks behind it, if a text starts with one, and what follows. -/
def opened : List Char → List Char × List Char
  | '(' :: inner => ('(' :: inner.takeWhile isBlank, inner.dropWhile isBlank)
  | rest => ([], rest)

/-- What may stand between a method and its first symbol: blanks, and an opening parenthesis with blanks behind it. -/
def isGap (gap : List Char) : Bool :=
  match gap.dropWhile isBlank with
  | [] => true
  | c :: inner => c == '(' && inner.all isBlank

theorem isGap_opened (text : List Char) :
    isGap (text.takeWhile isBlank ++ (opened (text.dropWhile isBlank)).1) = true := by
  have hblanks : ∀ c ∈ text.takeWhile isBlank, isBlank c = true := List.all_eq_true.1 List.all_takeWhile
  generalize text.dropWhile isBlank = left
  fun_cases opened left with
  | case1 inner =>
      have hdrop := @dropWhile_word ('(' :: inner.takeWhile isBlank) isBlank _ hblanks (by rfl)
      simp only [isGap, hdrop, beq_self_eq_true, List.all_takeWhile, Bool.and_self]
  | case2 left hparenthesis =>
      have hdrop := @dropWhile_word [] isBlank _ hblanks rfl
      simp only [isGap, hdrop]

theorem opened_append (text : List Char) : (opened text).1 ++ (opened text).2 = text := by
  fun_cases opened text with
  | case1 inner => exact congrArg _ List.takeWhile_append_dropWhile
  | case2 rest hne => rfl

/-- An opening parenthesis and the blanks on both sides of it are read in full. -/
theorem behindMethod_eq (method text : List Char) :
    behindMethod method text =
      behindOpening (method ++ (text.takeWhile isBlank ++ (opened (text.dropWhile isBlank)).1))
        (opened (text.dropWhile isBlank)).2 := by
  have hcons : ∀ {c d : Char} {rest tail : List Char}, isBlank c = true → isBlank d = false →
      c :: rest ≠ d :: tail := by
    rintro c d rest tail hc hd ⟨⟩
    rw [hc] at hd
    cases hd
  have hopening : ∀ opening c rest, isBlank c = true → behindOpening opening (c :: rest) = [] :=
    fun _ _ _ hc => behindOpening_of_ne fun _ => hcons hc (by decide)
  rw [behindMethod, most_bind]
  · rw [maybe_bind]
    generalize text.dropWhile isBlank = left
    fun_cases opened left with
    | case1 inner =>
        have hcolon : behindOpening (method ++ (text.takeWhile isBlank ++ [])) ('(' :: inner) = [] :=
          behindOpening_of_ne (by simp)
        rw [parenthesisSearch_bind fun _ => hopening _, hcolon, List.append_nil]
    | case2 rest hparenthesis => rw [parenthesisSearch_bind_of_ne hparenthesis, List.nil_append]
  · intro blanks c rest hc
    rw [maybe_bind, parenthesisSearch_bind_of_ne fun _ => hcons hc (by decide), hopening _ c rest hc, List.append_nil]

def CallText.chars (call : CallText) : List Char :=
  call.opening ++ ':' :: (call.first ++ (call.listed ++ call.ending))

/-- The symbols of a call site, the further ones looked up in their part of the text. -/
def CallText.site (call : CallText) : CallSite :=
  ⟨⟨call.opening.length + 1, call.first⟩, symbolsIn (call.opening.length + 1 + call.first.length) call.listed⟩

theorem callOf?_of_after? {method : List Char} (h : after? method text = some rest) :
    callOf? method text =
      (symbol? (opened (rest.dropWhile isBlank)).2).bind fun read =>
        let first := read.1.shift (method ++ (rest.takeWhile isBlank ++ (opened (rest.dropWhile isBlank)).1)).length
        (callRest? first.stop read.2).map fun found => ⟨found.2, ⟨first, found.1⟩⟩ := by
  rw [callOf?, h]
  simp only [List.length_append, ← Nat.add_assoc]
  generalize rest.dropWhile isBlank = left
  fun_cases opened left with
  | case1 inner =>
      simp only [List.length_cons, Nat.add_comm _ 1]
      cases symbol? (inner.dropWhile isBlank) with
      | none => rfl
      | some read => rfl
  | case2 left hparenthesis =>
      simp only [List.length_nil]
      cases symbol? left with
      | none => rfl
      | some read => rfl

theorem callOf?_eq (method text : List Char) :
    callOf? method text =
      ((after? method text).bind (behindMethod method).first?).map fun read =>
        ⟨read.1.chars.length, read.1.site⟩ := by
  cases hafter : after? method text with
  | none =>
      rw [callOf?, hafter]
      rfl
  | some rest =>
      rw [callOf?_of_after? hafter, Option.bind_some, first?, behindMethod_eq, behindOpening_eq]
      cases hsymbol : symbol? (opened (rest.dropWhile isBlank)).2 with
      | none => rfl
      | some found =>
          obtain ⟨symbol, behind⟩ := found
          obtain ⟨-, hstart, -⟩ := symbol?_eq_some hsymbol
          simp only [Option.bind_some, callRest?_eq, Symbol.stop, Symbol.shift, hstart, List.head?_map, Option.map_map]
          refine congrFun (congrArg Option.map (funext fun read => ?_)) _
          simp only [Function.comp_apply, CallText.site, CallText.chars, List.length_append, List.length_cons,
            Hit.mk.injEq, and_true]
          omega

/-- A call site of one of the methods at a word boundary, as the backtracking search finds it. -/
def backtrackingCall? (methods : List (List Char)) : Recogniser CallText := fun before text =>
  if Option.any isWordChar before != Option.any isWordChar text.head? then
    ((callSearch methods).first? text).map fun read => ⟨read.1.chars.length, read.1⟩
  else none

namespace CallPattern

variable {methods : List Value} {pattern : CallPattern} {method : List Char}

theorem ofMethods_eq_ok_iff : ofMethods methods = .ok pattern ↔
    methods ≠ [] ∧ (∀ value ∈ methods, isMethodName value = true) ∧
      pattern.methods = ((methods.filterMap Value.text?).eraseDups.mergeSort methodBefore).map String.toList := by
  unfold ofMethods
  simp only
  split
  · next hempty => simp [List.isEmpty_iff.1 hempty]
  · next hempty =>
    split
    · next hinvalid =>
      constructor
      · nofun
      · rintro ⟨-, hvalid, -⟩
        obtain ⟨value, hmem, hnot⟩ : ∃ value ∈ methods, isMethodName value = false := by simpa using hinvalid
        rw [hvalid value hmem] at hnot
        cases hnot
    · next hinvalid =>
      have hvalid : ∀ value ∈ methods, isMethodName value = true := by simpa using hinvalid
      have hne : methods ≠ [] := by simpa using hempty
      rw [Except.ok.injEq, CallPattern.mk.injEq]
      exact ⟨fun heq => ⟨hne, hvalid, heq.symm⟩, fun h => h.2.2.symm⟩

theorem mem_methods_iff (hpattern : ofMethods methods = .ok pattern) :
    method ∈ pattern.methods ↔ .text (String.ofList method) ∈ methods := by
  obtain ⟨-, -, hmethods⟩ := ofMethods_eq_ok_iff.1 hpattern
  simp only [hmethods, List.mem_map, List.mem_mergeSort, List.mem_eraseDups, List.mem_filterMap]
  constructor
  · rintro ⟨name, ⟨value, hvalue, htext⟩, rfl⟩
    cases value with
    | raw content =>
        cases content with
        | plain written =>
            obtain rfl := Option.some.inj htext
            rwa [String.ofList_toList]
        | broken written half rest => cases htext
    | _ => cases htext
  · intro hmem
    exact ⟨String.ofList method, ⟨_, hmem, rfl⟩, String.toList_ofList⟩

theorem isValidName_of_mem (hpattern : ofMethods methods = .ok pattern) (hmem : method ∈ pattern.methods) :
    isValidName method = true := by
  have hname := (ofMethods_eq_ok_iff.1 hpattern).2.1 _ ((mem_methods_iff hpattern).1 hmem)
  rwa [isMethodName, String.toList_ofList] at hname

end CallPattern

/-- A valid name is a word, and maybe a newline behind it. -/
theorem exists_word_of_isValidName {text : List Char} (h : isValidName text = true) :
    ∃ word, word ≠ [] ∧ (∀ c ∈ word, isNameChar c = true) ∧ (text = word ∨ text = word ++ ['\n']) := by
  have hsplit := List.takeWhile_append_dropWhile (p := isNameChar) (l := text)
  rw [isValidName, Bool.and_eq_true, Bool.or_eq_true, beq_iff_eq, beq_iff_eq] at h
  obtain ⟨hne, hend⟩ := h
  refine ⟨text.takeWhile isNameChar, by simpa using hne, List.all_eq_true.1 List.all_takeWhile, ?_⟩
  rcases hend with hend | hend
  · rw [hend, List.append_nil] at hsplit
    exact .inl hsplit.symm
  · rw [hend] at hsplit
    exact .inr hsplit.symm

theorem head?_of_isValidName {method : List Char} (h : isValidName method = true) :
    Option.any isWordChar method.head? = true := by
  obtain ⟨word, hne, hword, hmethod⟩ := exists_word_of_isValidName h
  cases word with
  | nil => exact absurd rfl hne
  | cons c rest =>
      have hc := isWordChar_of_isNameChar (hword c List.mem_cons_self)
      rcases hmethod with rfl | rfl
      · exact hc
      · exact hc

/-- Under valid methods, `call?` finds what the backtracking search finds. -/
theorem CallPattern.call?_eq {pattern : CallPattern} (hvalid : ∀ method ∈ pattern.methods, isValidName method = true)
    (before : Option Char) (text : List Char) :
    pattern.call? before text =
      (backtrackingCall? pattern.methods before text).map fun hit => ⟨hit.length, hit.parts.site⟩ := by
  have hsearch : pattern.methods.findSome? (fun method => callOf? method text) =
      ((callSearch pattern.methods).first? text).map fun read => ⟨read.1.chars.length, read.1.site⟩ := by
    rw [callSearch, first?_anyOf_bind, List.map_findSome?]
    congr 1
    funext method
    exact callOf?_eq method text
  rw [call?, backtrackingCall?, hsearch]
  cases hread : (callSearch pattern.methods).first? text with
  | none => simp
  | some read =>
      -- A call starts with the first character of a method, and that is one of a word.
      have hword : Option.any isWordChar text.head? = true := by
        rw [callSearch, first?_anyOf_bind] at hread
        obtain ⟨method, hmem, hfound⟩ := List.exists_of_findSome?_eq_some hread
        obtain ⟨rest, hafter, -⟩ := Option.bind_eq_some_iff.1 hfound
        have hhead := head?_of_isValidName (hvalid method hmem)
        rw [after?_eq_some_iff.1 hafter]
        cases method with
        | nil => cases hhead
        | cons c method => exact hhead
      rw [hword, opensWord]
      cases Option.any isWordChar before <;> rfl

section Sound

variable {methods : List (List Char)} {before : Option Char} {hit : Hit CallText}

/-- How the backtracking search comes to a call site. -/
theorem backtrackingCall?_cases (h : backtrackingCall? methods before text = some hit) :
    (Option.any isWordChar before != Option.any isWordChar text.head?) = true ∧
      ∃ method ∈ methods, ∃ gap rest left, isGap gap = true ∧ hit.parts.opening = method ++ gap ∧
        text = method ++ (gap ++ ':' :: (hit.parts.first ++ rest)) ∧
        hit.parts.first ≠ [] ∧ (∀ c ∈ hit.parts.first, isNameChar c = true) ∧
        tailSearch.first? rest = some ((hit.parts.listed, hit.parts.ending), left) ∧
        hit.length = hit.parts.chars.length := by
  unfold backtrackingCall? at h
  split at h
  · next hboundary =>
    refine ⟨hboundary, ?_⟩
    obtain ⟨⟨call, left⟩, hread, rfl⟩ := Option.map_eq_some_iff.1 h
    rw [callSearch, first?_anyOf_bind] at hread
    obtain ⟨method, hmem, hfound⟩ := List.exists_of_findSome?_eq_some hread
    obtain ⟨rest, hafter, hbehind⟩ := Option.bind_eq_some_iff.1 hfound
    rw [first?, behindMethod_eq, behindOpening_eq] at hbehind
    split at hbehind
    · next symbol behind hsymbol =>
      rw [List.head?_map] at hbehind
      obtain ⟨⟨⟨listed, ending⟩, last⟩, htail, heq⟩ := Option.map_eq_some_iff.1 hbehind
      obtain ⟨rfl, rfl⟩ := Prod.mk.inj heq
      obtain ⟨hsymbols, -, hne, hname⟩ := symbol?_eq_some hsymbol
      refine ⟨method, hmem, _, behind, last, isGap_opened rest, rfl, ?_, hne, hname, htail, rfl⟩
      rw [after?_eq_some_iff.1 hafter, List.append_assoc, ← hsymbols, opened_append, List.takeWhile_append_dropWhile]
    · cases hbehind
  · cases h

theorem backtrackingCall?_eq_some (h : backtrackingCall? methods before text = some hit) :
    ∃ left, text = hit.parts.chars ++ left ∧ hit.length = hit.parts.chars.length ∧
      hit.parts.first ≠ [] ∧ (∀ c ∈ hit.parts.first, isNameChar c = true) ∧
      Option.any isNameChar (hit.parts.listed ++ (hit.parts.ending ++ left)).head? = false ∧
      Option.any isNameChar (hit.parts.ending ++ left).head? = false := by
  obtain ⟨-, method, -, gap, rest, left, -, hopening, rfl, hne, hname, htail, hlength⟩ := backtrackingCall?_cases h
  obtain ⟨rfl, hends⟩ := split_of_tailSearch htail
  refine ⟨left, ?_, hlength, hne, hname, head?_of_tailSearch htail, hends⟩
  simp only [CallText.chars, hopening, List.append_assoc, List.cons_append]

end Sound

end FactoryIndex.Pattern
