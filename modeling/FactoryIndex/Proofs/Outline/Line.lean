import FactoryIndex.Outline.Nesting
import FactoryIndex.Proofs.Pattern.Keyword

/-!
# Lines of definitions

A `Line` is one line of a text in which definitions are laid out: nothing, the first line of a factory, of a
trait, of another block or of a conditional, an attribute, or the `end` of a block, after any spaces and tabs.
What the scans find in a line depends on nothing but the line, as long as it starts at the start of a line and
ends at the end of one.
-/

namespace FactoryIndex.Outline

open Pattern Text

structure Indent where
  chars : List Char
  isIndent_of_mem : ∀ c ∈ chars, isIndent c = true

structure Name where
  chars : List Char
  ne_nil : chars ≠ []
  isNameChar_of_mem : ∀ c ∈ chars, isNameChar c = true

/-- The words that mean something to the scans. -/
def reservedWords : List (List Char) := factoryWord :: traitWord :: (tokenWords ++ blockKeywords)

structure Identifier extends Name where
  not_reserved : chars ∉ reservedWords

structure Digits where
  chars : List Char
  isDigit_of_mem : ∀ c ∈ chars, c.isDigit = true

inductive Code where
  | blank
  | factory (name : Name)
  | trait (name : Name)
  | block (word : Identifier)
  | conditional (word : Identifier)
  | attr (word : Identifier) (digits : Digits)
  | close

def Code.chars : Code → List Char
  | blank => []
  | factory name => factoryWord ++ ([' ', ':'] ++ (name.chars ++ ([' '] ++ ['d', 'o'])))
  | trait name => traitWord ++ ([' ', ':'] ++ (name.chars ++ ([' '] ++ ['d', 'o'])))
  | block word => word.chars ++ ([' '] ++ ['d', 'o'])
  | conditional word => ['i', 'f'] ++ ([' '] ++ word.chars)
  | attr word digits => word.chars ++ ([' '] ++ (['{'] ++ ([' '] ++ (digits.chars ++ ([' '] ++ ['}'])))))
  | close => ['e', 'n', 'd']

/-- A line: what stands on it, and the spaces and tabs before that. -/
structure Line where
  indent : Indent
  code : Code

def Line.chars (line : Line) : List Char := line.indent.chars ++ line.code.chars

def endsLine (text : List Char) : Bool := Option.all (· == '\n') text.head?

variable {before : Option Char} {tail : List Char}

theorem closesWord_of_endsLine (htail : endsLine tail = true) : closesWord tail = true := by
  cases tail with
  | nil => rfl
  | cons c rest =>
      obtain rfl : c = '\n' := by simpa [endsLine] using htail
      rfl

theorem head?_ne_of_endsLine (htail : endsLine tail = true) : tail.head? ≠ some ':' := by
  cases tail with
  | nil => simp
  | cons c rest =>
      obtain rfl : c = '\n' := by simpa [endsLine] using htail
      simp

theorem Digits.isNameChar_of_mem (digits : Digits) : ∀ c ∈ digits.chars, isNameChar c = true := by
  intro c hc
  simp [isNameChar, Char.isAlphanum, digits.isDigit_of_mem c hc]

theorem Digits.ne_of_letter (digits : Digits) {c : Char} {word : List Char} (hc : c.isDigit = false) :
    digits.chars ≠ c :: word := by
  intro heq
  have hdigit := digits.isDigit_of_mem c (heq ▸ List.mem_cons_self)
  rw [hc] at hdigit
  cases hdigit

/-! ### Headers on a line -/

section Header

variable {α : Type} {keyword piece : List Char} {recognise : Recogniser α}

/-- A recogniser of the headers that start with one of the two keywords. -/
structure Heads (keyword : List Char) (recognise : Recogniser α) : Prop where
  needs : NeedsKeyword keyword recognise
  isNameChar_of_mem : ∀ c ∈ keyword, isNameChar c = true
  mem : keyword ∈ [factoryWord, traitWord]

theorem heads_factoryHeader? : Heads factoryWord factoryHeader? :=
  ⟨needsKeyword_factoryHeader?, List.all_eq_true.1 rfl, by decide⟩

theorem heads_traitHeader? : Heads traitWord traitHeader? :=
  ⟨needsKeyword_traitHeader?, List.all_eq_true.1 rfl, by decide⟩

namespace Heads

theorem ne_nil (h : Heads keyword recognise) : keyword ≠ [] := by
  rintro rfl
  exact absurd h.mem (by decide)

theorem marks (h : Heads keyword recognise) (hpiece : piece.all (fun c => !isNameChar c) = true) :
    Misses recognise before piece tail := by
  induction piece generalizing before with
  | nil => exact Yields.nil recognise before tail
  | cons c rest ih =>
      rw [List.all_cons, Bool.and_eq_true] at hpiece
      have hchar : Misses recognise before [c] (rest ++ tail) := by
        refine Yields.char (h.needs before _ ?_)
        exact keywordSymbol?_of_not_isNameChar h.isNameChar_of_mem h.ne_nil (by simpa using hpiece.1) _
      exact hchar.misses_append (ih hpiece.2)

theorem indent (h : Heads keyword recognise) (indent : Indent) : Misses recognise before indent.chars tail := by
  refine h.marks (List.all_eq_true.2 fun c hc => ?_)
  cases hname : isNameChar c with
  | false => rfl
  | true =>
      have hindent := indent.isIndent_of_mem c hc
      rw [not_isIndent_of_isNameChar hname] at hindent
      cases hindent

theorem word (h : Heads keyword recognise) {word : List Char} (hword : ∀ c ∈ word, isNameChar c = true)
    (htail : closesWord tail = true) (hne : word ≠ keyword) : Misses recognise before word tail :=
  Yields.word h.needs.staysOutside hword
    (h.needs before _ (keywordSymbol?_of_ne h.isNameChar_of_mem hword htail hne))

/-- A name, even if it is the keyword, since `do` follows. -/
theorem name (h : Heads keyword recognise) (name : Name) :
    Misses recognise before name.chars ([' '] ++ ['d', 'o'] ++ tail) :=
  Yields.word h.needs.staysOutside name.isNameChar_of_mem
    (h.needs before _ (keywordSymbol?_of_word_after h.isNameChar_of_mem name.isNameChar_of_mem (by decide) _))

theorem do_word (h : Heads keyword recognise) (htail : closesWord tail = true) :
    Misses recognise before ([' '] ++ ['d', 'o']) tail := by
  have hspace : Misses recognise before [' '] (['d', 'o'] ++ tail) := h.marks rfl
  refine hspace.misses_append (h.word (List.all_eq_true.1 rfl) htail ?_)
  rintro rfl
  exact absurd h.mem (by decide)

theorem identifier (h : Heads keyword recognise) (word : Identifier) (htail : closesWord tail = true) :
    Misses recognise before word.chars tail := by
  refine h.word word.isNameChar_of_mem htail fun heq => word.not_reserved ?_
  have hmem := h.mem
  rw [← heq] at hmem
  exact List.mem_append_left (tokenWords ++ blockKeywords) hmem

/-- Nothing is found in a line that does not start with the keyword. -/
theorem code (h : Heads keyword recognise) {code : Code}
    (hfactory : ∀ name, code = .factory name → factoryWord ≠ keyword)
    (htrait : ∀ name, code = .trait name → traitWord ≠ keyword) (htail : endsLine tail = true) :
    Misses recognise before code.chars tail := by
  have hcloses := closesWord_of_endsLine htail
  cases code with
  | blank => exact Yields.nil recognise before tail
  | factory name =>
      refine (h.word (List.all_eq_true.1 rfl) rfl (hfactory name rfl)).misses_append ?_
      refine Yields.misses_append (h.marks rfl) ?_
      exact Yields.misses_append (h.name name) (h.do_word hcloses)
  | trait name =>
      refine (h.word (List.all_eq_true.1 rfl) rfl (htrait name rfl)).misses_append ?_
      refine Yields.misses_append (h.marks rfl) ?_
      exact Yields.misses_append (h.name name) (h.do_word hcloses)
  | block word => exact (h.identifier word rfl).misses_append (h.do_word hcloses)
  | conditional word =>
      have hif : ['i', 'f'] ≠ keyword := by
        rintro rfl
        exact absurd h.mem (by decide)
      refine (h.word (List.all_eq_true.1 rfl) rfl hif).misses_append ?_
      exact Yields.misses_append (h.marks rfl) (h.identifier word hcloses)
  | attr word digits =>
      have hdigits : digits.chars ≠ keyword := by
        have hmem := h.mem
        simp only [List.mem_cons, List.not_mem_nil, or_false] at hmem
        rcases hmem with rfl | rfl
        · exact digits.ne_of_letter rfl
        · exact digits.ne_of_letter rfl
      refine (h.identifier word rfl).misses_append ?_
      refine Yields.misses_append (h.marks rfl) (Yields.misses_append (h.marks rfl) ?_)
      refine Yields.misses_append (h.marks rfl) ?_
      refine Yields.misses_append (h.word digits.isNameChar_of_mem rfl hdigits) ?_
      exact Yields.misses_append (h.marks rfl) (h.marks rfl)
  | close =>
      refine h.word (List.all_eq_true.1 rfl) hcloses ?_
      rintro rfl
      exact absurd h.mem (by decide)

theorem line (h : Heads keyword recognise) {line : Line}
    (hfactory : ∀ name, line.code = .factory name → factoryWord ≠ keyword)
    (htrait : ∀ name, line.code = .trait name → traitWord ≠ keyword) (htail : endsLine tail = true) :
    Misses recognise before line.chars tail :=
  Yields.misses_append (h.indent line.indent) (h.code hfactory htrait htail)

end Heads

/-- The places on a line at which its code can start. -/
def opensCode (before : Option Char) : Bool := Option.all (fun c => c == '\n' || isIndent c) before

theorem opensCode_lastOr (indent : Indent) (hbefore : opensLine before = true) :
    opensCode (lastOr before indent.chars) = true := by
  have hopens : opensCode before = true := by
    cases before with
    | none => rfl
    | some c =>
        obtain rfl : c = '\n' := by simpa [opensLine] using hbefore
        rfl
  have hindent := indent.isIndent_of_mem
  generalize indent.chars = chars at hindent
  clear hbefore
  induction chars generalizing before with
  | nil => exact hopens
  | cons c rest ih =>
      rw [lastOr_cons]
      refine ih ?_ fun d hd => hindent d (List.mem_cons_of_mem c hd)
      simp [opensCode, hindent c List.mem_cons_self]

theorem opensCode_cases (hbefore : opensCode before = true) :
    before = none ∨ before = some '\n' ∨ before = some ' ' ∨ before = some '\t' := by
  cases before with
  | none => exact Or.inl rfl
  | some c => simpa [opensCode, isIndent] using hbefore

theorem opensWord_of_opensCode (hbefore : opensCode before = true) : opensWord before = true := by
  rcases opensCode_cases hbefore with rfl | rfl | rfl | rfl <;> decide

theorem opensToken_of_opensCode (hbefore : opensCode before = true) : opensToken before = true := by
  rcases opensCode_cases hbefore with rfl | rfl | rfl | rfl <;> decide

def Line.factoryHeaders (line : Line) (offset : Nat) : List (Found FactoryHeader) :=
  match line.code with
  | .factory name =>
    [⟨offset + line.indent.chars.length, factoryWord.length + 2 + name.chars.length,
      ⟨⟨factoryWord.length + 2, name.chars⟩, none⟩⟩]
  | _ => []

def Line.traitHeaders (line : Line) (offset : Nat) : List (Found Symbol) :=
  match line.code with
  | .trait name =>
    [⟨offset + line.indent.chars.length, traitWord.length + 2 + name.chars.length + 3,
      ⟨traitWord.length + 2, name.chars⟩⟩]
  | _ => []

theorem parentIn?_do (offset : Nat) (htail : endsLine tail = true) :
    parentIn? offset false before ([' '] ++ ['d', 'o'] ++ tail) = none := by
  have hspace : ∀ text, parentClause? before (' ' :: text) = none := fun text => by
    simp [parentClause?, after?, parentWord]
  have hd : ∀ text, parentClause? (some ' ') ('d' :: text) = none := fun text => by
    simp [parentClause?, after?, parentWord]
  have ho : ∀ text, parentClause? (some 'd') ('o' :: text) = none := fun text => by
    simp [parentClause?, after?, parentWord]
  cases tail with
  | nil => simp [parentIn?, hspace, hd, ho]
  | cons c rest =>
      obtain rfl : c = '\n' := by simpa [endsLine] using htail
      have hline : parentClause? (some 'o') ('\n' :: rest) = none := by simp [parentClause?, after?, parentWord]
      simp [parentIn?, hspace, hd, ho, hline, isIndent]

theorem factoryHeader?_line (hbefore : opensCode before = true) (name : Name) (htail : endsLine tail = true) :
    factoryHeader? before (factoryWord ++ ([' ', ':'] ++ name.chars) ++ ([' '] ++ ['d', 'o'] ++ tail)) =
      some ⟨factoryWord.length + 2 + name.chars.length, ⟨⟨factoryWord.length + 2, name.chars⟩, none⟩⟩ := by
  have hheader : keywordSymbol? factoryWord before
      (factoryWord ++ ([' ', ':'] ++ name.chars) ++ ([' '] ++ ['d', 'o'] ++ tail)) =
        some (⟨factoryWord.length + 2, name.chars⟩, [' '] ++ ['d', 'o'] ++ tail) :=
    keywordSymbol?_header (opensWord_of_opensCode hbefore) name.isNameChar_of_mem name.ne_nil rfl
  rw [factoryHeader?, hheader]
  simp only [parentIn?_do _ htail]
  rfl

theorem traitHeader?_line (hbefore : opensCode before = true) (name : Name) (htail : endsLine tail = true) :
    traitHeader? before (traitWord ++ ([' ', ':'] ++ (name.chars ++ ([' '] ++ ['d', 'o']))) ++ tail) =
      some ⟨traitWord.length + 2 + name.chars.length + 3, ⟨traitWord.length + 2, name.chars⟩⟩ := by
  have hheader : keywordSymbol? traitWord before
      (traitWord ++ ([' ', ':'] ++ (name.chars ++ ([' '] ++ ['d', 'o']))) ++ tail) =
        some (⟨traitWord.length + 2, name.chars⟩, [' '] ++ ['d', 'o'] ++ tail) := by
    have hassoc : traitWord ++ ([' ', ':'] ++ (name.chars ++ ([' '] ++ ['d', 'o']))) ++ tail =
        traitWord ++ ' ' :: ':' :: (name.chars ++ ([' '] ++ ['d', 'o'] ++ tail)) := by simp
    rw [hassoc]
    exact keywordSymbol?_header (opensWord_of_opensCode hbefore) name.isNameChar_of_mem name.ne_nil rfl
  have htake : ([' '] ++ ['d', 'o'] ++ tail).takeWhile isBlank = [' '] := by
    rw [List.append_assoc]
    exact takeWhile_word (List.all_eq_true.1 rfl) rfl
  have hdrop : ([' '] ++ ['d', 'o'] ++ tail).dropWhile isBlank = ['d', 'o'] ++ tail := by
    rw [List.append_assoc]
    exact dropWhile_word (List.all_eq_true.1 rfl) rfl
  have hdo : doWord? (some ' ') (['d', 'o'] ++ tail) = some tail := by
    have hafter : after? ['d', 'o'] (['d', 'o'] ++ tail) = some tail := after?_eq_some_iff.2 rfl
    have hopens : opensWord (some ' ') = true := by decide
    simp only [doWord?, hopens, hafter, closesWord_of_endsLine htail, if_true]
  rw [traitHeader?, hheader]
  simp only [htake, hdrop, List.getLast?_singleton, hdo]
  rfl

theorem Line.yields_factoryHeader? (line : Line) (hbefore : opensLine before = true) (htail : endsLine tail = true) :
    Yields factoryHeader? before line.chars tail line.factoryHeaders := by
  by_cases hfactory : ∃ name, line.code = .factory name
  · obtain ⟨name, hcode⟩ := hfactory
    have hchars : line.chars =
        line.indent.chars ++ (factoryWord ++ ([' ', ':'] ++ name.chars) ++ ([' '] ++ ['d', 'o'])) := by
      simp [Line.chars, hcode, Code.chars]
    have hopens := opensCode_lastOr line.indent hbefore
    have hhit := Yields.hit (factoryHeader?_line hopens name htail) (by simp; omega) (by simp [factoryWord])
    have hrest := hhit.append (heads_factoryHeader?.do_word (closesWord_of_endsLine htail))
    have hline := (heads_factoryHeader?.indent line.indent).after_miss hrest
    rw [hchars]
    intro offset
    rw [hline offset, Line.factoryHeaders, hcode]
    rfl
  · have hnone : line.factoryHeaders = fun _ => [] := by
      funext offset
      unfold Line.factoryHeaders
      split
      · next name hcode => exact absurd ⟨name, hcode⟩ hfactory
      · rfl
    rw [hnone]
    exact heads_factoryHeader?.line (fun name hcode => absurd ⟨name, hcode⟩ hfactory)
      (fun _ _ => by decide) htail

theorem Line.yields_traitHeader? (line : Line) (hbefore : opensLine before = true) (htail : endsLine tail = true) :
    Yields traitHeader? before line.chars tail line.traitHeaders := by
  by_cases htrait : ∃ name, line.code = .trait name
  · obtain ⟨name, hcode⟩ := htrait
    have hchars : line.chars =
        line.indent.chars ++ (traitWord ++ ([' ', ':'] ++ (name.chars ++ ([' '] ++ ['d', 'o'])))) := by
      simp [Line.chars, hcode, Code.chars]
    have hopens := opensCode_lastOr line.indent hbefore
    have hhit := Yields.hit (traitHeader?_line hopens name htail) (by simp; omega) (by simp [traitWord])
    have hline := (heads_traitHeader?.indent line.indent).after_miss hhit
    rw [hchars]
    intro offset
    rw [hline offset, Line.traitHeaders, hcode]
  · have hnone : line.traitHeaders = fun _ => [] := by
      funext offset
      unfold Line.traitHeaders
      split
      · next name hcode => exact absurd ⟨name, hcode⟩ htrait
      · rfl
    rw [hnone]
    exact heads_traitHeader?.line (fun _ _ => by decide)
      (fun name hcode => absurd ⟨name, hcode⟩ htrait) htail

end Header

/-! ### Tokens on a line -/

section Token

variable {piece : List Char}

theorem not_isNameChar_of_isIndent {c : Char} (hc : isIndent c = true) : isNameChar c = false := by
  rcases isIndent_iff.1 hc with rfl | rfl <;> decide

/-- Spaces and tabs before code that does not start with a block keyword. -/
theorem misses_indent {indent rest : List Char} (hindent : ∀ c ∈ indent, isIndent c = true)
    (hrest : ∀ spaces : List Char, (∀ c ∈ spaces, isIndent c = true) → blockKeyword? (spaces ++ rest) = none) :
    Misses blockToken? before indent rest := by
  induction indent generalizing before with
  | nil => exact Yields.nil blockToken? before rest
  | cons c spaces ih =>
      have hc := hindent c List.mem_cons_self
      have hspaces := fun d hd => hindent d (List.mem_cons_of_mem c hd)
      have hequals : (c :: (spaces ++ rest)).head? ≠ some '=' := by
        rcases isIndent_iff.1 hc with rfl | rfl <;> simp
      have hkeyword : blockKeyword? (c :: (spaces ++ rest)) = none := hrest (c :: spaces) hindent
      have hnone : blockToken? before (c :: (spaces ++ rest)) = none := by
        rw [blockToken?_of_keywordToken? (keywordToken?_of_blockKeyword? hkeyword hequals)]
        refine bareToken?_of_not_isNameChar (not_isNameChar_of_isIndent hc) ?_ ?_ _
        · rintro rfl
          exact absurd hc (by decide)
        · rintro rfl
          exact absurd hc (by decide)
      exact Yields.misses_append (Yields.char hnone) (ih hspaces)

theorem misses_mark {c : Char} (hbefore : opensLine before = false) (hc : isNameChar c = false)
    (hmark : c ∉ ['{', '}', '=']) : Misses blockToken? before [c] tail := by
  simp only [List.mem_cons, List.not_mem_nil, or_false, not_or] at hmark
  refine Yields.char ?_
  rw [blockToken?_of_keywordToken? (keywordToken?_of_not_opensLine hbefore hmark.2.2 tail)]
  exact bareToken?_of_not_isNameChar hc hmark.1 hmark.2.1 tail

theorem ne_equals_of_isNameChar {c : Char} (hc : isNameChar c = true) : c ≠ '=' := by
  rintro rfl
  exact absurd hc (by decide)

theorem misses_word (hbefore : opensLine before = false) (hpiece : ∀ c ∈ piece, isNameChar c = true)
    (htail : closesWord tail = true) (htoken : piece ∉ tokenWords) : Misses blockToken? before piece tail := by
  cases piece with
  | nil => exact Yields.nil blockToken? before tail
  | cons c rest =>
      refine Yields.word staysOutside_blockToken? hpiece ?_
      have hequals := ne_equals_of_isNameChar (hpiece c List.mem_cons_self)
      rw [List.cons_append, blockToken?_of_keywordToken? (keywordToken?_of_not_opensLine hbefore hequals _)]
      exact bareToken?_of_word hpiece (List.cons_ne_nil c rest) htail htoken

/-- A name behind its colon, whatever it is. -/
theorem misses_name (name : Name) : Misses blockToken? (some ':') name.chars tail := by
  have hname := name.isNameChar_of_mem
  cases hchars : name.chars with
  | nil => exact absurd hchars name.ne_nil
  | cons c rest =>
      rw [hchars] at hname
      have hc := hname c List.mem_cons_self
      refine Yields.word staysOutside_blockToken? hname ?_
      rw [List.cons_append,
        blockToken?_of_keywordToken? (keywordToken?_of_not_opensLine rfl (ne_equals_of_isNameChar hc) _)]
      exact bareToken?_of_symbol rfl hc _

theorem yields_do (htail : endsLine tail = true) :
    Yields blockToken? (some ' ') ['d', 'o'] tail fun offset => [⟨offset, 2, ⟨.openDo, 0, 2⟩⟩] := by
  have hkeyword : keywordToken? (some ' ') (['d', 'o'] ++ tail) = none :=
    keywordToken?_of_not_opensLine rfl (by decide) ('o' :: tail)
  have htoken : blockToken? (some ' ') (['d', 'o'] ++ tail) = some ⟨2, ⟨.openDo, 0, 2⟩⟩ := by
    rw [blockToken?_of_keywordToken? hkeyword]
    exact bareToken?_do (by decide) (closesWord_of_endsLine htail) (head?_ne_of_endsLine htail)
  exact Yields.hit htoken rfl (by decide)

theorem yields_brace (c : Char) {hit : Hit BlockTokenParts} (hlength : hit.length = 1)
    (hc : bareToken? (some ' ') (c :: tail) = some hit) (hequals : c ≠ '=') :
    Yields blockToken? (some ' ') [c] tail fun offset => [⟨offset, hit.length, hit.parts⟩] := by
  have htoken : blockToken? (some ' ') ([c] ++ tail) = some hit := by
    rw [List.singleton_append, blockToken?_of_keywordToken? (keywordToken?_of_not_opensLine rfl hequals _), hc]
  exact Yields.hit htoken hlength (by simp)

theorem misses_first (hpiece : ∀ c ∈ piece, isNameChar c = true) (hne : piece ≠ [])
    (htail : closesWord tail = true) (htoken : piece ∉ tokenWords) (hkeyword : piece ∉ blockKeywords) :
    Misses blockToken? before piece tail := by
  refine Yields.word staysOutside_blockToken? hpiece ?_
  have hnone : blockKeyword? (piece ++ tail) = none :=
    blockKeyword?_of_word [] (fun _ hmem => absurd hmem List.not_mem_nil) hpiece hne htail hkeyword
  have hequals : (piece ++ tail).head? ≠ some '=' := by
    cases piece with
    | nil => exact absurd rfl hne
    | cons c rest => simpa using ne_equals_of_isNameChar (hpiece c List.mem_cons_self)
  rw [blockToken?_of_keywordToken? (keywordToken?_of_blockKeyword? hnone hequals)]
  exact bareToken?_of_word hpiece hne htail htoken

theorem misses_start (indent : Indent) (hpiece : ∀ c ∈ piece, isNameChar c = true) (hne : piece ≠ [])
    (htail : closesWord tail = true) (htoken : piece ∉ tokenWords) (hkeyword : piece ∉ blockKeywords) :
    Misses blockToken? before (indent.chars ++ piece) tail :=
  Yields.misses_append
    (misses_indent indent.isIndent_of_mem fun spaces hspaces =>
      blockKeyword?_of_word spaces hspaces hpiece hne htail hkeyword)
    (misses_first hpiece hne htail htoken hkeyword)

theorem opensLine_lastOr_of_word (hpiece : ∀ c ∈ piece, isNameChar c = true) (hne : piece ≠ []) :
    opensLine (lastOr before piece) = false := by
  induction piece generalizing before with
  | nil => exact absurd rfl hne
  | cons c rest ih =>
      rw [lastOr_cons]
      cases rest with
      | nil =>
          have hc := hpiece c List.mem_cons_self
          have hnewline : c ≠ '\n' := by
            rintro rfl
            exact absurd hc (by decide)
          simp [opensLine, hnewline]
      | cons d others => exact ih (fun e he => hpiece e (List.mem_cons_of_mem c he)) (List.cons_ne_nil d others)

def Line.tokens (line : Line) (offset : Nat) : List (Found BlockTokenParts) :=
  let start := offset + line.indent.chars.length
  match line.code with
  | .blank => []
  | .factory name => [⟨start + (factoryWord.length + 2 + name.chars.length + 1), 2, ⟨.openDo, 0, 2⟩⟩]
  | .trait name => [⟨start + (traitWord.length + 2 + name.chars.length + 1), 2, ⟨.openDo, 0, 2⟩⟩]
  | .block word => [⟨start + (word.chars.length + 1), 2, ⟨.openDo, 0, 2⟩⟩]
  | .conditional _ => [⟨offset, line.indent.chars.length + 2, ⟨.keyword, line.indent.chars.length, 2⟩⟩]
  | .attr word digits => [
      ⟨start + (word.chars.length + 1), 1, ⟨.openBrace, 0, 1⟩⟩,
      ⟨start + (word.chars.length + digits.chars.length + 4), 1, ⟨.closeBrace, 0, 1⟩⟩]
  | .close => [⟨start, 3, ⟨.closeEnd, 0, 3⟩⟩]

theorem Identifier.not_mem_tokenWords (word : Identifier) : word.chars ∉ tokenWords :=
  fun hmem => word.not_reserved (List.mem_cons_of_mem _ (List.mem_cons_of_mem _ (List.mem_append_left _ hmem)))

theorem Identifier.not_mem_blockKeywords (word : Identifier) : word.chars ∉ blockKeywords :=
  fun hmem => word.not_reserved (List.mem_cons_of_mem _ (List.mem_cons_of_mem _ (List.mem_append_right _ hmem)))

theorem Digits.not_mem_tokenWords (digits : Digits) : digits.chars ∉ tokenWords := by
  intro hmem
  simp only [tokenWords, List.mem_cons, List.not_mem_nil, or_false] at hmem
  rcases hmem with heq | heq
  · exact digits.ne_of_letter rfl heq
  · exact digits.ne_of_letter rfl heq

theorem yields_definition (indent : Indent) (name : Name) {keyword : List Char}
    (hkeyword : ∀ c ∈ keyword, isNameChar c = true) (hne : keyword ≠ []) (htoken : keyword ∉ tokenWords)
    (hblock : keyword ∉ blockKeywords) (htail : endsLine tail = true) :
    Yields blockToken? before
      (indent.chars ++ keyword ++ ([' '] ++ ([':'] ++ (name.chars ++ ([' '] ++ ['d', 'o']))))) tail
      fun offset => [⟨offset + indent.chars.length + (keyword.length + 2 + name.chars.length + 1), 2,
        ⟨.openDo, 0, 2⟩⟩] := by
  have hstart : Misses blockToken? before (indent.chars ++ keyword)
      ([' '] ++ ([':'] ++ (name.chars ++ ([' '] ++ ['d', 'o']))) ++ tail) :=
    misses_start indent hkeyword hne rfl htoken hblock
  have hline : opensLine (lastOr before (indent.chars ++ keyword)) = false := by
    rw [lastOr_append]
    exact opensLine_lastOr_of_word hkeyword hne
  have hname : opensLine (lastOr (some ':') name.chars) = false :=
    opensLine_lastOr_of_word name.isNameChar_of_mem name.ne_nil
  have hspace : Misses blockToken? (lastOr before (indent.chars ++ keyword)) [' ']
      ([':'] ++ (name.chars ++ ([' '] ++ ['d', 'o'])) ++ tail) := misses_mark hline (by decide) (by decide)
  have hcolon : Misses blockToken? (some ' ') [':'] (name.chars ++ ([' '] ++ ['d', 'o']) ++ tail) :=
    misses_mark rfl (by decide) (by decide)
  have hgap : Misses blockToken? (lastOr (some ':') name.chars) [' '] (['d', 'o'] ++ tail) :=
    misses_mark hname (by decide) (by decide)
  have hsymbol := hcolon.after_miss ((misses_name name).after_miss (hgap.after_miss (yields_do htail)))
  refine Yields.congr (hstart.after_miss (hspace.after_miss hsymbol)) fun offset => ?_
  simp only [List.length_append, List.length_cons, List.length_nil]
  congr 2
  omega

theorem yields_block (indent : Indent) (word : Identifier) (htail : endsLine tail = true) :
    Yields blockToken? before (indent.chars ++ word.chars ++ ([' '] ++ ['d', 'o'])) tail
      fun offset => [⟨offset + indent.chars.length + (word.chars.length + 1), 2, ⟨.openDo, 0, 2⟩⟩] := by
  have hstart : Misses blockToken? before (indent.chars ++ word.chars) ([' '] ++ ['d', 'o'] ++ tail) :=
    misses_start indent word.isNameChar_of_mem word.ne_nil rfl word.not_mem_tokenWords word.not_mem_blockKeywords
  have hline : opensLine (lastOr before (indent.chars ++ word.chars)) = false := by
    rw [lastOr_append]
    exact opensLine_lastOr_of_word word.isNameChar_of_mem word.ne_nil
  have hspace : Misses blockToken? (lastOr before (indent.chars ++ word.chars)) [' '] (['d', 'o'] ++ tail) :=
    misses_mark hline (by decide) (by decide)
  refine Yields.congr (hstart.after_miss (hspace.after_miss (yields_do htail))) fun offset => ?_
  simp only [List.length_append, List.length_cons, List.length_nil]
  congr 2
  omega

/-- A keyword and the spaces and tabs before it, which it takes in. -/
theorem yields_keyword {keyword : List Char} (hkeyword : keyword ∈ blockKeywords) (indent : Indent)
    (hbefore : opensLine before = true) :
    Yields blockToken? before (indent.chars ++ keyword) ([' '] ++ tail)
      fun offset => [⟨offset, indent.chars.length + keyword.length,
        ⟨.keyword, indent.chars.length, keyword.length⟩⟩] := by
  have htoken : blockToken? before (indent.chars ++ keyword ++ ([' '] ++ tail)) =
      some ⟨indent.chars.length + keyword.length, ⟨.keyword, indent.chars.length, keyword.length⟩⟩ := by
    rw [List.append_assoc, List.singleton_append, blockToken?,
      keywordToken?_of_mem hkeyword hbefore indent.isIndent_of_mem]
  refine Yields.hit htoken List.length_append.symm fun hnil => ?_
  obtain ⟨-, rfl⟩ := List.append_eq_nil_iff.1 hnil
  exact absurd hkeyword (by decide)

theorem yields_conditional (indent : Indent) (word : Identifier) (hbefore : opensLine before = true)
    (htail : endsLine tail = true) :
    Yields blockToken? before (indent.chars ++ ['i', 'f'] ++ ([' '] ++ word.chars)) tail
      fun offset => [⟨offset, indent.chars.length + 2, ⟨.keyword, indent.chars.length, 2⟩⟩] := by
  have hif : Yields blockToken? before (indent.chars ++ ['i', 'f']) ([' '] ++ word.chars ++ tail) _ :=
    yields_keyword (by decide) indent hbefore
  have hline : opensLine (lastOr before (indent.chars ++ ['i', 'f'])) = false := by
    rw [lastOr_append]
    exact opensLine_lastOr_of_word (List.all_eq_true.1 rfl) (by decide)
  have hspace : Misses blockToken? (lastOr before (indent.chars ++ ['i', 'f'])) [' '] (word.chars ++ tail) :=
    misses_mark hline (by decide) (by decide)
  have hword : Misses blockToken? (some ' ') word.chars tail :=
    misses_word rfl word.isNameChar_of_mem (closesWord_of_endsLine htail) word.not_mem_tokenWords
  refine Yields.congr (hif.append (hspace.misses_append hword)) fun offset => ?_
  rw [List.append_nil]
  rfl

theorem yields_attr (indent : Indent) (word : Identifier) (digits : Digits) :
    Yields blockToken? before
      (indent.chars ++ word.chars ++ ([' '] ++ (['{'] ++ ([' '] ++ (digits.chars ++ ([' '] ++ ['}'])))))) tail
      fun offset => [
        ⟨offset + indent.chars.length + (word.chars.length + 1), 1, ⟨.openBrace, 0, 1⟩⟩,
        ⟨offset + indent.chars.length + (word.chars.length + digits.chars.length + 4), 1,
          ⟨.closeBrace, 0, 1⟩⟩] := by
  have hstart : Misses blockToken? before (indent.chars ++ word.chars)
      ([' '] ++ (['{'] ++ ([' '] ++ (digits.chars ++ ([' '] ++ ['}'])))) ++ tail) :=
    misses_start indent word.isNameChar_of_mem word.ne_nil rfl word.not_mem_tokenWords word.not_mem_blockKeywords
  have hline : opensLine (lastOr before (indent.chars ++ word.chars)) = false := by
    rw [lastOr_append]
    exact opensLine_lastOr_of_word word.isNameChar_of_mem word.ne_nil
  have hspace : Misses blockToken? (lastOr before (indent.chars ++ word.chars)) [' ']
      (['{'] ++ ([' '] ++ (digits.chars ++ ([' '] ++ ['}']))) ++ tail) :=
    misses_mark hline (by decide) (by decide)
  have hopen : Yields blockToken? (some ' ') ['{'] ([' '] ++ (digits.chars ++ ([' '] ++ ['}'])) ++ tail)
      fun offset => [⟨offset, 1, ⟨.openBrace, 0, 1⟩⟩] := yields_brace '{' rfl rfl (by decide)
  have hgap : Misses blockToken? (some '{') [' '] (digits.chars ++ ([' '] ++ ['}']) ++ tail) :=
    misses_mark rfl (by decide) (by decide)
  have hdigits : Misses blockToken? (some ' ') digits.chars ([' '] ++ ['}'] ++ tail) :=
    misses_word rfl digits.isNameChar_of_mem rfl digits.not_mem_tokenWords
  have hdigitsLine : opensLine (lastOr (some ' ') digits.chars) = false := by
    cases hchars : digits.chars with
    | nil => rfl
    | cons c rest =>
        rw [← hchars]
        exact opensLine_lastOr_of_word digits.isNameChar_of_mem (by simp [hchars])
  have hgap' : Misses blockToken? (lastOr (some ' ') digits.chars) [' '] (['}'] ++ tail) :=
    misses_mark hdigitsLine (by decide) (by decide)
  have hclose : Yields blockToken? (some ' ') ['}'] tail fun offset => [⟨offset, 1, ⟨.closeBrace, 0, 1⟩⟩] :=
    yields_brace '}' rfl rfl (by decide)
  have hbraces := hopen.append (hgap.after_miss (hdigits.after_miss (hgap'.after_miss hclose)))
  refine Yields.congr (hstart.after_miss (hspace.after_miss hbraces)) fun offset => ?_
  simp only [List.length_append, List.length_cons, List.length_nil, List.singleton_append, List.cons.injEq,
    Found.mk.injEq, and_true]
  omega

theorem yields_close (indent : Indent) (hbefore : opensLine before = true) (htail : endsLine tail = true) :
    Yields blockToken? before (indent.chars ++ ['e', 'n', 'd']) tail
      fun offset => [⟨offset + indent.chars.length, 3, ⟨.closeEnd, 0, 3⟩⟩] := by
  have hcloses := closesWord_of_endsLine htail
  have hword : ∀ c ∈ ['e', 'n', 'd'], isNameChar c = true := List.all_eq_true.1 rfl
  have hindent : Misses blockToken? before indent.chars (['e', 'n', 'd'] ++ tail) :=
    misses_indent indent.isIndent_of_mem fun spaces hspaces =>
      blockKeyword?_of_word spaces hspaces hword (by decide) hcloses (by decide)
  have hnone : blockKeyword? (['e', 'n', 'd'] ++ tail) = none :=
    blockKeyword?_of_word [] (fun _ hmem => absurd hmem List.not_mem_nil) hword (by decide) hcloses (by decide)
  have hkeyword : keywordToken? (lastOr before indent.chars) (['e', 'n', 'd'] ++ tail) = none :=
    keywordToken?_of_blockKeyword? hnone (by simp)
  have htoken : blockToken? (lastOr before indent.chars) (['e', 'n', 'd'] ++ tail) =
      some ⟨3, ⟨.closeEnd, 0, 3⟩⟩ := by
    rw [blockToken?_of_keywordToken? hkeyword]
    exact bareToken?_end (opensToken_of_opensCode (opensCode_lastOr indent hbefore)) hcloses
      (head?_ne_of_endsLine htail)
  exact hindent.after_miss (Yields.hit htoken rfl (by decide))

theorem Line.yields_blockToken? (line : Line) (hbefore : opensLine before = true) (htail : endsLine tail = true) :
    Yields blockToken? before line.chars tail line.tokens := by
  obtain ⟨indent, code⟩ := line
  cases code with
  | blank =>
      have hchars : Line.chars ⟨indent, .blank⟩ = indent.chars := by simp [Line.chars, Code.chars]
      rw [hchars]
      exact misses_indent indent.isIndent_of_mem fun spaces hspaces => blockKeyword?_of_blank hspaces htail
  | factory name =>
      rw [Line.chars, Code.chars, ← List.append_assoc]
      exact yields_definition indent name (List.all_eq_true.1 rfl) (by decide) (by decide) (by decide) htail
  | trait name =>
      rw [Line.chars, Code.chars, ← List.append_assoc]
      exact yields_definition indent name (List.all_eq_true.1 rfl) (by decide) (by decide) (by decide) htail
  | block word =>
      rw [Line.chars, Code.chars, ← List.append_assoc]
      exact yields_block indent word htail
  | conditional word =>
      rw [Line.chars, Code.chars, ← List.append_assoc]
      exact yields_conditional indent word hbefore htail
  | attr word digits =>
      rw [Line.chars, Code.chars, ← List.append_assoc]
      exact yields_attr indent word digits
  | close => exact yields_close indent hbefore htail

end Token

end FactoryIndex.Outline
