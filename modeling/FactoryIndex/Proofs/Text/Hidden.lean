import FactoryIndex.Proofs.Text.Masking

/-!
# What comments and strings hide

The scan of a line of code is in one of three states: in code, inside quotes, or in a comment. `codeStateAt` tells in
which of them it looks at the character at an offset of a text. A stretch of a line that stands in a comment or inside
quotes is blanked out whatever it says, and leaves the scan in the state it came in. Nothing that stands before the
comment or the string is read in another way either, with one exception: a quote behind `<<` may be the opening quote
of a here-document's name, and whether it is depends on what stands behind it.
-/

namespace FactoryIndex.Text

open Pattern

/-! ### The state of the scan at a place -/

/-- How the scan of a line goes on behind a character: the number of characters it passes over, which belong to an
opener or are escaped, and its state. -/
def advance (pass : Nat) (state : CodeState) (c : Char) (rest : List Char) : Nat × CodeState :=
  match pass, state with
  | pass + 1, state => (pass, state)
  | 0, .comment => (0, .comment)
  | 0, .quoted quote =>
    if c = '\\' ∧ rest ≠ [] then (1, .quoted quote)
    else if c = quote then (0, .code)
    else (0, .quoted quote)
  | 0, .code =>
    if c = '#' then (0, .comment)
    else if c = '\x27' ∨ c = '\x22' then (0, .quoted c)
    else
      match heredoc? none (c :: rest) with
      | some hit => (hit.length - 1, .code)
      | none => (0, .code)

/-- The state in which the scan of a line looks at the character at a place, if it does not pass over it. -/
def stateAt : (pass : Nat) → CodeState → (line : List Char) → (place : Nat) → Option CodeState
  | 0, state, _, 0 => some state
  | _ + 1, _, _, 0 => none
  | _, _, [], _ + 1 => none
  | pass, state, c :: rest, place + 1 =>
    let (pass, state) := advance pass state c rest
    stateAt pass state rest place

/-- The state in which the scan looks at an offset of lines that follow each other, the first one in the given mode. -/
def stateAmong : LineMode → List (List Char) → (offset : Nat) → Option CodeState
  | _, [], _ => none
  | mode, line :: rest, offset =>
    if offset ≤ line.length then
      if mode = .code ∧ startsWith blockCommentStart line = false then stateAt 0 .code line offset else none
    else stateAmong (maskLine mode line).2 rest (offset - (line.length + 1))

/-- The state in which the scan looks at an offset of a text. There is none in block comments and here-documents. -/
def codeStateAt (text : List Char) (offset : Nat) : Option CodeState := stateAmong .code (lines text) offset

/-! ### Openers before a mark -/

def isMark (c : Char) : Bool := c == '#' || c == '\x27' || c == '\x22'

theorem isMark_iff {c : Char} : isMark c = true ↔ c = '#' ∨ c = '\x27' ∨ c = '\x22' := by
  simp [isMark, or_assoc]

section Opener

variable {mark : Char} {u v : List Char}

theorem identifier?_append {first further : Char → Bool} (hfirst : first mark = false) (hfurther : further mark = false)
    (piece tail : List Char) :
    identifier? first further (piece ++ mark :: tail) =
      (identifier? first further piece).map fun found => (found.1, found.2 ++ mark :: tail) := by
  cases piece with
  | nil => simp [identifier?, hfirst]
  | cons c rest =>
      have hsplit : (rest ++ mark :: tail).takeWhile further = rest.takeWhile further ∧
          (rest ++ mark :: tail).dropWhile further = rest.dropWhile further ++ mark :: tail := by
        induction rest with
        | nil => simp [hfurther]
        | cons d rest ih =>
            cases hd : further d with
            | true => simp [hd, ih]
            | false => simp [hd]
      simp only [List.cons_append, identifier?, hsplit.1, hsplit.2]
      split
      · rfl
      · rfl

/-- The name of an opener ends at a mark, so that nothing behind the mark counts, unless the mark is the quote that the
name stands in. -/
theorem heredocName?_congr {squiggly : Bool} {start : Nat} {first further : Char → Bool} (hfirst : first mark = false)
    (hfurther : further mark = false) (piece : List Char) (hpiece : piece ≠ [] ∨ isHeredocQuote mark = false) :
    heredocName? squiggly start first further (piece ++ mark :: u) =
      heredocName? squiggly start first further (piece ++ mark :: v) := by
  cases piece with
  | nil =>
      have hquote : isHeredocQuote mark = false := by simpa using hpiece
      simp [heredocName?, hquote, identifier?, hfirst]
  | cons c rest =>
      have hall := identifier?_append hfirst hfurther (c :: rest)
      simp only [List.cons_append] at hall
      simp only [List.cons_append, heredocName?, hall, identifier?_append hfirst hfurther rest, Option.map_map]
      split
      · cases identifier? first further rest with
        | none => rfl
        | some found =>
            obtain ⟨name, behind⟩ := found
            cases behind with
            | nil => rfl
            | cons close behind => rfl
      · rfl

theorem lt_length_of_heredocName?_quote {squiggly : Bool} {start : Nat} {first further : Char → Bool}
    (hquote : isHeredocQuote mark = true) {hit : Hit Heredoc}
    (h : heredocName? squiggly start first further (mark :: u) = some hit) : start < hit.length := by
  simp only [heredocName?, hquote, if_true] at h
  split at h
  · split at h
    · obtain rfl := Option.some.inj h
      show start < start + _ + 2
      omega
    · cases h
  · cases h

theorem heredoc?_eq_none {c d : Char} (hopens : ¬(c = '<' ∧ d = '<')) (tail : List Char) :
    heredoc? none (c :: d :: tail) = none := by
  unfold heredoc?
  split
  · next heq =>
    simp only [List.cons.injEq] at heq
    exact absurd ⟨heq.1, heq.2.1⟩ hopens
  · rfl

/-- An opener that starts before a mark is read without a look at what stands behind the mark, unless the mark is the
quote that opens its name. -/
theorem heredoc?_congr (hmark : isMark mark = true) {piece : List Char} (hpiece : piece ≠ []) :
    heredoc? none (piece ++ mark :: u) = heredoc? none (piece ++ mark :: v) ∨
      isHeredocQuote mark = true ∧
        ∀ tail hit, heredoc? none (piece ++ mark :: tail) = some hit → piece.length < hit.length := by
  have hnever : mark ≠ '<' ∧ mark ≠ '~' ∧ mark ≠ '-' ∧ (mark.isAlpha || mark == '_') = false ∧
      (mark.isUpper || mark == '_') = false ∧ isWordChar mark = false ∧
      (mark.isUpper || mark.isDigit || mark == '_') = false := by
    rcases isMark_iff.1 hmark with rfl | rfl | rfl <;> decide
  obtain ⟨hless, htilde, hdash, halpha, hupper, hword, hcapital⟩ := hnever
  match piece, hpiece with
  | [c], _ =>
      left
      simp only [List.cons_append, List.nil_append, heredoc?_eq_none fun h => hless h.2]
  | c :: d :: rest, _ =>
      by_cases hopens : c = '<' ∧ d = '<'
      · obtain ⟨rfl, rfl⟩ := hopens
        cases rest with
        | nil =>
            simp only [List.cons_append, List.nil_append, heredoc?, htilde, hdash, or_self, if_false]
            cases hquote : isHeredocQuote mark with
            | false => exact Or.inl (heredocName?_congr hupper hcapital [] (Or.inr hquote))
            | true => exact Or.inr ⟨rfl, fun tail hit hhit => lt_length_of_heredocName?_quote hquote hhit⟩
        | cons e rest =>
            simp only [List.cons_append, heredoc?]
            by_cases hsquiggly : e = '~' ∨ e = '-'
            · simp only [hsquiggly, if_true]
              by_cases hrest : rest ≠ [] ∨ isHeredocQuote mark = false
              · exact Or.inl (heredocName?_congr halpha hword rest hrest)
              · rw [not_or, not_not, Bool.not_eq_false] at hrest
                obtain ⟨rfl, hquote⟩ := hrest
                exact Or.inr ⟨hquote, fun tail hit hhit => lt_length_of_heredocName?_quote hquote hhit⟩
            · simp only [hsquiggly, if_false]
              exact Or.inl (heredocName?_congr hupper hcapital (e :: rest) (Or.inl (List.cons_ne_nil e rest)))
      · left
        simp only [List.cons_append, heredoc?_eq_none hopens]

end Opener

/-! ### The scan as a run of steps -/

/-- The masked rest of a line, of which the scan passes over some characters first: those of an opener stay as they are,
and an escaped one is blanked out. -/
def maskFrom (pass : Nat) : CodeState → List Char → List Char × List (List Char)
  | .quoted quote, line =>
    (blankLine (line.take pass) ++ (maskCode 0 (.quoted quote) (line.drop pass)).1,
      (maskCode 0 (.quoted quote) (line.drop pass)).2)
  | state, line => maskCode pass state line

theorem maskFrom_zero (state : CodeState) (line : List Char) : maskFrom 0 state line = maskCode 0 state line := by
  cases state <;> rfl

section Line

variable {pass : Nat} {state : CodeState} {front line : List Char} {mark quote c : Char} {u v : List Char}

theorem maskCode_quoted (hc : ¬(c = '\\' ∧ line ≠ [])) : maskCode 0 (.quoted quote) (c :: line) =
    if c = quote then (c :: (maskCode 0 .code line).1, (maskCode 0 .code line).2)
    else (' ' :: (maskCode 0 (.quoted quote) line).1, (maskCode 0 (.quoted quote) line).2) := by
  rw [maskCode]
  rintro d rest rfl rfl
  exact hc ⟨rfl, List.cons_ne_nil d rest⟩

/-- One step: two rests of a line that start with the same character are masked alike if the scan goes on alike behind
that character. -/
theorem maskFrom_cons_congr (hempty : u = [] ↔ v = [])
    (hopener : pass = 0 → state = .code → heredoc? none (c :: u) = heredoc? none (c :: v))
    (htail : maskFrom (advance pass state c u).1 (advance pass state c u).2 u =
      maskFrom (advance pass state c u).1 (advance pass state c u).2 v) :
    maskFrom pass state (c :: u) = maskFrom pass state (c :: v) := by
  cases pass with
  | succ pass =>
      cases state with
      | quoted quote => simpa [advance, maskFrom, blankLine] using htail
      | code =>
          have hrest : maskCode pass .code u = maskCode pass .code v := htail
          simp only [maskFrom, maskCode, hrest]
      | comment =>
          have hrest : maskCode pass .comment u = maskCode pass .comment v := htail
          simp only [maskFrom, maskCode, hrest]
  | zero =>
      simp only [maskFrom_zero]
      cases state with
      | comment =>
          have hrest : maskCode 0 .comment u = maskCode 0 .comment v := htail
          simp only [maskCode, hrest]
      | quoted quote =>
          by_cases hescape : c = '\\' ∧ u ≠ []
          · obtain ⟨rfl, hu⟩ := hescape
            obtain ⟨d, u, rfl⟩ := List.exists_cons_of_ne_nil hu
            obtain ⟨e, v, rfl⟩ := List.exists_cons_of_ne_nil fun hv => hu (hempty.2 hv)
            have hrest : maskFrom 1 (.quoted quote) (d :: u) = maskFrom 1 (.quoted quote) (e :: v) := by
              simpa [advance] using htail
            simp only [maskFrom, blankLine, List.take_succ_cons, List.take_zero, List.map_cons, List.map_nil,
              List.drop_succ_cons, List.drop_zero, Prod.mk.injEq, List.append_cancel_left_eq] at hrest
            simp only [maskCode, hrest.1, hrest.2]
          · have hescape' : ¬(c = '\\' ∧ v ≠ []) := by rwa [ne_eq, ← hempty]
            rw [maskCode_quoted hescape, maskCode_quoted hescape']
            simp only [advance, if_neg hescape] at htail
            split
            · next hc =>
              rw [if_pos hc, maskFrom_zero, maskFrom_zero] at htail
              rw [htail]
            · next hc =>
              rw [if_neg hc, maskFrom_zero, maskFrom_zero] at htail
              rw [htail]
      | code =>
          simp only [maskCode, advance] at htail ⊢
          rw [← hopener rfl rfl]
          split
          · next hhash =>
            rw [if_pos hhash, maskFrom_zero, maskFrom_zero] at htail
            rw [htail]
          · next hhash =>
            rw [if_neg hhash] at htail
            split
            · next hquote =>
              rw [if_pos hquote, maskFrom_zero, maskFrom_zero] at htail
              rw [htail]
            · next hquote =>
              rw [if_neg hquote] at htail
              cases hhit : heredoc? none (c :: u) with
              | none =>
                  simp only [hhit, maskFrom_zero] at htail ⊢
                  rw [htail]
              | some hit =>
                  simp only [hhit] at htail ⊢
                  rw [show maskCode (hit.length - 1) .code u = maskCode (hit.length - 1) .code v from htail]

/-! ### Lines that differ behind a mark -/

/-- The scan passes over a place that belongs to an opener. -/
theorem stateAt_of_length_lt (hlength : front.length < pass) :
    stateAt pass state (front ++ line) front.length = none := by
  induction front generalizing pass with
  | nil =>
      cases pass with
      | zero => cases hlength
      | succ pass => rfl
  | cons c rest ih =>
      cases pass with
      | zero => cases hlength
      | succ pass => exact ih (Nat.lt_of_succ_lt_succ hlength)

/-- Behind a place that the scan arrives at, it goes on in the state it has there. -/
theorem stateAt_append {arrived : CodeState} (harrives : stateAt pass state (front ++ line) front.length = some arrived)
    (place : Nat) : stateAt pass state (front ++ line) (front.length + place) = stateAt 0 arrived line place := by
  induction front generalizing pass state with
  | nil =>
      cases pass with
      | succ pass => cases harrives
      | zero =>
          obtain rfl : state = arrived := Option.some.inj harrives
          rw [List.length_nil, Nat.zero_add, List.nil_append]
  | cons c front ih =>
      rw [List.cons_append, List.length_cons, stateAt] at harrives
      rw [List.cons_append, List.length_cons, Nat.add_right_comm, stateAt]
      exact ih harrives

/-- Where the scan arrives at a place, no opener reaches beyond it. -/
theorem length_le_of_stateAt {hit : Hit Heredoc} (hhit : heredoc? none (c :: (front ++ line)) = some hit)
    (harrives : stateAt 0 .code (c :: (front ++ line)) (front.length + 1) = some state) :
    hit.length ≤ (c :: front).length := by
  have hc : c = '<' := by
    unfold heredoc? at hhit
    split at hhit
    · next heq => exact (List.cons.inj heq).1
    · cases hhit
  have hadvance : advance 0 .code c (front ++ line) = (hit.length - 1, .code) := by
    rw [advance, hhit, hc]
    rfl
  rw [stateAt, hadvance] at harrives
  apply Nat.le_of_not_lt
  intro hlt
  rw [List.length_cons] at hlt
  simp only [stateAt_of_length_lt (show front.length < hit.length - 1 by omega)] at harrives
  cases harrives

theorem heredoc?_eq_of_stateAt (hmark : isMark mark = true)
    (hu : stateAt 0 .code (c :: (front ++ mark :: u)) (front.length + 1) = some .code)
    (hv : mark ≠ '#' → stateAt 0 .code (c :: (front ++ mark :: v)) (front.length + 1) = some .code) :
    heredoc? none (c :: (front ++ mark :: u)) = heredoc? none (c :: (front ++ mark :: v)) := by
  rcases heredoc?_congr hmark (List.cons_ne_nil c front) with hsame | ⟨hquote, hlong⟩
  · exact hsame
  · have hnone : ∀ tail, stateAt 0 .code (c :: (front ++ mark :: tail)) (front.length + 1) = some .code →
        heredoc? none (c :: (front ++ mark :: tail)) = none := by
      intro tail harrives
      cases hhit : heredoc? none (c :: (front ++ mark :: tail)) with
      | none => rfl
      | some hit => exact absurd (length_le_of_stateAt hhit harrives) (Nat.not_le_of_lt (hlong tail hit hhit))
    have hhash : mark ≠ '#' := by
      rintro rfl
      cases hquote
    rw [hnone u hu, hnone v (hv hhash)]

/-- Two lines that differ behind a mark are masked alike, if the scan meets the mark in code on both of them and masks
them alike from there. A `#` it meets in code on both lines if it does so on one. -/
theorem maskFrom_congr (hmark : isMark mark = true)
    (hu : stateAt pass state (front ++ mark :: u) front.length = some .code)
    (hv : mark ≠ '#' → stateAt pass state (front ++ mark :: v) front.length = some .code)
    (hback : maskCode 0 .code (mark :: u) = maskCode 0 .code (mark :: v)) :
    maskFrom pass state (front ++ mark :: u) = maskFrom pass state (front ++ mark :: v) := by
  induction front generalizing pass state with
  | nil =>
      cases pass with
      | succ pass => cases hu
      | zero =>
          obtain rfl : state = .code := Option.some.inj hu
          exact hback
  | cons c front ih =>
      have hopener : pass = 0 → state = .code →
          heredoc? none (c :: (front ++ mark :: u)) = heredoc? none (c :: (front ++ mark :: v)) := by
        rintro rfl rfl
        exact heredoc?_eq_of_stateAt hmark hu hv
      have hadvance : advance pass state c (front ++ mark :: u) = advance pass state c (front ++ mark :: v) := by
        cases pass with
        | succ pass => rfl
        | zero =>
            cases state with
            | comment => rfl
            | quoted quote => simp [advance]
            | code => simp only [advance, hopener rfl rfl]
      rw [List.cons_append, List.length_cons, stateAt] at hu hv
      rw [← hadvance] at hv
      rw [List.cons_append, List.cons_append]
      exact maskFrom_cons_congr (by simp) hopener (ih hu hv)

theorem blankLine_eq_of_length (hlength : v.length = u.length) : blankLine v = blankLine u := by
  simp only [blankLine, List.map_const', hlength]

theorem maskCode_comment (line : List Char) : maskCode 0 .comment line = (blankLine line, []) := by
  induction line with
  | nil => rfl
  | cons c rest ih =>
      rw [maskCode, ih]
      rfl

/-- A stretch inside quotes that neither escapes anything nor closes them is blanked out. -/
theorem maskCode_stretch {stretch : List Char} (hquote : quote ∉ stretch) (hescape : '\\' ∉ stretch)
    (tail : List Char) :
    maskCode 0 (.quoted quote) (stretch ++ tail) =
      (blankLine stretch ++ (maskCode 0 (.quoted quote) tail).1, (maskCode 0 (.quoted quote) tail).2) := by
  induction stretch with
  | nil => rfl
  | cons c rest ih =>
      rw [List.mem_cons, not_or] at hquote hescape
      rw [List.cons_append, maskCode_quoted fun h => hescape.1 h.1.symm, if_neg (Ne.symm hquote.1),
        ih hquote.2 hescape.2]
      rfl

/-- Inside quotes it does not matter what such a stretch says. -/
theorem maskFrom_inside {inner old new tail : List Char} (hpass : pass ≤ 1) (hlength : new.length = old.length)
    (hold : quote ∉ old ∧ '\\' ∉ old) (hnew : quote ∉ new ∧ '\\' ∉ new)
    (hstays : ∀ place ≤ inner.length, stateAt pass (.quoted quote) (inner ++ (old ++ tail)) place ≠ some .code) :
    maskFrom pass (.quoted quote) (inner ++ (old ++ tail)) =
      maskFrom pass (.quoted quote) (inner ++ (new ++ tail)) := by
  induction inner generalizing pass with
  | nil =>
      rw [List.nil_append, List.nil_append]
      cases pass with
      | zero =>
          rw [maskFrom_zero, maskFrom_zero, maskCode_stretch hold.1 hold.2, maskCode_stretch hnew.1 hnew.2,
            blankLine_eq_of_length hlength]
      | succ pass =>
          -- The first character of the stretch is escaped, and blanked out like the others.
          obtain rfl : pass = 0 := by omega
          cases old with
          | nil =>
              obtain rfl : new = [] := List.eq_nil_of_length_eq_zero hlength
              rfl
          | cons c old =>
              obtain ⟨d, new, rfl⟩ := List.exists_cons_of_length_eq_add_one hlength
              simp only [List.mem_cons, not_or] at hold hnew
              have hrest : blankLine new = blankLine old := blankLine_eq_of_length (Nat.succ.inj hlength)
              simp only [maskFrom, List.cons_append, List.take_succ_cons, List.take_zero, List.drop_succ_cons,
                List.drop_zero, maskCode_stretch hold.1.2 hold.2.2, maskCode_stretch hnew.1.2 hnew.2.2, hrest]
              rfl
  | cons c inner ih =>
      have hempty : inner ++ (old ++ tail) = [] ↔ inner ++ (new ++ tail) = [] := by
        simp only [← List.length_eq_zero_iff, List.length_append, hlength]
      rw [List.cons_append, List.cons_append]
      refine maskFrom_cons_congr hempty (fun _ hcode => by cases hcode) ?_
      -- The scan is still inside the quotes, since it is not in code at the next place.
      obtain ⟨next, hnext, hadvance⟩ : ∃ next ≤ 1,
          advance pass (.quoted quote) c (inner ++ (old ++ tail)) = (next, .quoted quote) := by
        have hone := hstays 1 (Nat.succ_le_succ (Nat.zero_le _))
        rw [List.cons_append, stateAt] at hone
        cases pass with
        | succ pass => exact ⟨pass, by omega, rfl⟩
        | zero =>
            simp only [advance] at hone ⊢
            split
            · exact ⟨1, Nat.le_refl 1, rfl⟩
            · next hescape =>
              rw [if_neg hescape] at hone
              split
              · next hc =>
                rw [if_pos hc] at hone
                exact absurd rfl hone
              · exact ⟨0, Nat.zero_le 1, rfl⟩
      rw [hadvance]
      refine ih hnext fun place hplace => ?_
      have hplace' := hstays (place + 1) (Nat.succ_le_succ hplace)
      rwa [List.cons_append, stateAt, hadvance] at hplace'

end Line

/-! ### Texts that differ on one line -/

theorem lines_append_of_not_mem {piece text line : List Char} {below : List (List Char)} (hpiece : '\n' ∉ piece)
    (htext : lines text = line :: below) : lines (piece ++ text) = (piece ++ line) :: below := by
  induction piece with
  | nil => exact htext
  | cons c rest ih =>
      rw [List.mem_cons, not_or] at hpiece
      have hrest := ih hpiece.2
      rw [lines] at hrest ⊢
      rw [List.cons_append, split, if_neg (Ne.symm hpiece.1), hrest]
      rfl

theorem exists_lines_append (left : List Char) :
    ∃ above front, left.length = lineStart above above.length + front.length ∧
      ∀ text line below, lines text = line :: below → lines (left ++ text) = above ++ (front ++ line) :: below := by
  induction left with
  | nil => exact ⟨[], [], rfl, fun _ _ _ htext => htext⟩
  | cons c rest ih =>
      obtain ⟨above, front, hlength, hlines⟩ := ih
      by_cases hc : c = '\n'
      · refine ⟨[] :: above, front, ?_, fun text line below htext => ?_⟩
        · rw [List.length_cons, hlength, List.length_cons, lineStart, List.length_nil]
          omega
        · have hrest := hlines text line below htext
          rw [lines] at hrest ⊢
          rw [List.cons_append, split, if_pos hc, hrest]
          rfl
      · cases above with
        | nil =>
            have hfront : rest.length = front.length := hlength.trans (Nat.zero_add _)
            refine ⟨[], c :: front, ?_, fun text line below htext => ?_⟩
            · rw [List.length_cons, List.length_cons, hfront]
              exact (Nat.zero_add _).symm
            · have hrest := hlines text line below htext
              rw [lines] at hrest ⊢
              rw [List.cons_append, split, if_neg hc, hrest]
              rfl
        | cons first others =>
            refine ⟨(c :: first) :: others, front, ?_, fun text line below htext => ?_⟩
            · simp only [List.length_cons, lineStart] at hlength ⊢
              omega
            · have hrest := hlines text line below htext
              rw [lines] at hrest ⊢
              rw [List.cons_append, split, if_neg hc, hrest]
              rfl

/-- Where a line of code stands among others, the scan of the text is the scan of that line. -/
theorem stateAmong_append (mode : LineMode) (above : List (List Char)) {line : List Char} (below : List (List Char))
    {place : Nat} (hplace : place ≤ line.length) :
    stateAmong mode (above ++ line :: below) (lineStart above above.length + place) =
      if modeAfter mode above = .code ∧ startsWith blockCommentStart line = false then stateAt 0 .code line place
      else none := by
  induction above generalizing mode with
  | nil =>
      have hstart : lineStart [] ([] : List (List Char)).length = 0 := rfl
      rw [hstart, Nat.zero_add, List.nil_append, stateAmong, if_pos hplace]
      rfl
  | cons first others ih =>
      rw [List.length_cons, lineStart, List.cons_append, stateAmong, if_neg (by omega)]
      have hrest := ih (maskLine mode first).2
      rw [show first.length + 1 + lineStart others others.length + place - (first.length + 1) =
        lineStart others others.length + place by omega, hrest]
      rfl

theorem startsWith_congr {start : List Char} {c : Char} (hc : c ∉ start) (front u v : List Char) :
    startsWith start (front ++ c :: u) = startsWith start (front ++ c :: v) := by
  simp only [startsWith]
  induction start generalizing front with
  | nil => rfl
  | cons d start ih =>
      rw [List.mem_cons, not_or] at hc
      cases front with
      | nil => simp [List.isPrefixOf, beq_eq_false_iff_ne.2 (Ne.symm hc.1)]
      | cons e front => simp [List.isPrefixOf, ih hc.2]

/-- Two texts that differ on one line, behind a mark, have the same mask, if the scan meets the mark in code in both of
them and masks the lines alike from there. -/
theorem mask_congr {a b front u v : List Char} {above below : List (List Char)} {mark : Char}
    (hmark : isMark mark = true)
    (ha : lines a = above ++ (front ++ mark :: u) :: below) (hb : lines b = above ++ (front ++ mark :: v) :: below)
    (hmode : modeAfter .code above = .code) (hstart : startsWith blockCommentStart (front ++ mark :: u) = false)
    (hu : stateAt 0 .code (front ++ mark :: u) front.length = some .code)
    (hv : mark ≠ '#' → stateAt 0 .code (front ++ mark :: v) front.length = some .code)
    (hback : maskCode 0 .code (mark :: u) = maskCode 0 .code (mark :: v)) : mask a = mask b := by
  have hnever : mark ∉ blockCommentStart := by
    rcases isMark_iff.1 hmark with rfl | rfl | rfl <;> decide
  have hstart' : startsWith blockCommentStart (front ++ mark :: v) = false := by
    rw [← hstart, startsWith_congr hnever]
  have hline := maskFrom_congr hmark hu hv hback
  rw [maskFrom_zero, maskFrom_zero] at hline
  rw [mask, mask, ha, hb, maskLines_append, maskLines_append, hmode]
  simp only [maskLines, maskLine, hstart, hstart', Bool.false_eq_true, if_false, hline]

/-- A piece of one line, with the text before it and the text behind it: the lines of the whole text, and the state of
the scan on the line of the piece. -/
theorem exists_line (left after : List Char) :
    ∃ above front back below, ∀ piece, '\n' ∉ piece →
      lines (left ++ (piece ++ after)) = above ++ (front ++ (piece ++ back)) :: below ∧
        ∀ place ≤ piece.length, codeStateAt (left ++ (piece ++ after)) (left.length + place) =
          if modeAfter .code above = .code ∧ startsWith blockCommentStart (front ++ (piece ++ back)) = false
          then stateAt 0 .code (front ++ (piece ++ back)) (front.length + place) else none := by
  obtain ⟨above, front, hlength, hlines⟩ := exists_lines_append left
  obtain ⟨back, below, hafter⟩ := List.exists_cons_of_ne_nil (lines_ne_nil after)
  refine ⟨above, front, back, below, fun piece hpiece => ?_⟩
  have hline := hlines _ _ _ (lines_append_of_not_mem hpiece hafter)
  refine ⟨hline, fun place hplace => ?_⟩
  rw [codeStateAt, hline, hlength, Nat.add_assoc]
  refine stateAmong_append .code above below ?_
  simp only [List.length_append]
  omega

/-! ### Hidden stretches -/

/-- A string of a text: the scan meets its opening quote in code, and its closing quote, on the same line, inside the
string, without having been back in code before. -/
structure StringAt (text : List Char) (quote : Char) (opening closing : Nat) : Prop where
  isQuote : quote = '\x27' ∨ quote = '\x22'
  opens : text[opening]? = some quote ∧ codeStateAt text opening = some .code
  inside : ∀ i, opening < i → i < closing → text[i]? ≠ some '\n' ∧ codeStateAt text i ≠ some .code
  closes : text[closing]? = some quote ∧ codeStateAt text closing = some (.quoted quote)

instance (text : List Char) (quote : Char) (opening closing : Nat) : Decidable (StringAt text quote opening closing) :=
  decidable_of_iff ((quote = '\x27' ∨ quote = '\x22') ∧
      (text[opening]? = some quote ∧ codeStateAt text opening = some .code) ∧
      (∀ i < closing, opening < i → text[i]? ≠ some '\n' ∧ codeStateAt text i ≠ some .code) ∧
      text[closing]? = some quote ∧ codeStateAt text closing = some (.quoted quote))
    ⟨fun ⟨hquote, hopens, hinside, hcloses⟩ => ⟨hquote, hopens, fun i hi hi' => hinside i hi' hi, hcloses⟩,
      fun h => ⟨h.isQuote, h.opens, fun i hi hi' => h.inside i hi' hi, h.closes⟩⟩

/-- A stretch of a text that is hidden, given with what stands before it and behind it: either it is all that stands
behind a `#` on its line, or it stands inside a string and neither escapes anything nor closes the string. The mark
is the `#` or the opening quote, which the scan meets in code at the offset `opening`. -/
inductive Hidden (before stretch after : List Char) (opening : Nat) : (mark : Char) → Prop where
  | comment (hmark : before[opening]? = some '#')
      (hcode : codeStateAt (before ++ (stretch ++ after)) opening = some .code)
      (hstart : before.length = opening + 1) (hend : Option.all (· == '\n') after.head? = true) :
      Hidden before stretch after opening '#'
  | string {quote : Char} {closing : Nat} (hstring : StringAt (before ++ (stretch ++ after)) quote opening closing)
      (hstart : opening < before.length) (hstop : before.length + stretch.length ≤ closing)
      (hquote : quote ∉ stretch) (hescape : '\\' ∉ stretch) : Hidden before stretch after opening quote

section Stretch

variable {before old new after : List Char} {opening : Nat} {mark : Char}

theorem exists_split {text : List Char} {i : Nat} {c : Char} (hc : text[i]? = some c) :
    ∃ left inner, text = left ++ c :: inner ∧ left.length = i := by
  obtain ⟨hi, rfl⟩ := List.getElem?_eq_some_iff.1 hc
  refine ⟨text.take i, text.drop (i + 1), ?_, List.length_take_of_le (Nat.le_of_lt hi)⟩
  rw [← List.drop_eq_getElem_cons hi, List.take_append_drop]

/-- What stands in a string before a stretch of it. -/
theorem StringAt.exists_inner {quote : Char} {closing : Nat}
    (h : StringAt (before ++ (old ++ after)) quote opening closing) (hstart : opening < before.length)
    (hstop : before.length + old.length ≤ closing) :
    ∃ left inner, before = left ++ quote :: inner ∧ left.length = opening ∧ '\n' ∉ inner ∧
      ∀ place ≤ inner.length, codeStateAt (before ++ (old ++ after)) (opening + (place + 1)) ≠ some .code := by
  have hopening := h.opens.1
  rw [List.getElem?_append_left hstart] at hopening
  obtain ⟨left, inner, rfl, rfl⟩ := exists_split hopening
  simp only [List.length_append, List.length_cons] at hstop
  refine ⟨left, inner, rfl, rfl, fun hmem => ?_, fun place hplace => ?_⟩
  · obtain ⟨i, hi, hget⟩ := List.getElem_of_mem hmem
    refine (h.inside (left.length + (i + 1)) (by omega) (by omega)).1 ?_
    rw [List.append_assoc, List.getElem?_append_right (Nat.le_add_right _ _), Nat.add_sub_cancel_left,
      List.cons_append, List.getElem?_cons_succ, List.getElem?_append_left hi, List.getElem?_eq_getElem hi, hget]
  · rcases Nat.lt_or_eq_of_le (show left.length + (place + 1) ≤ closing by omega) with hlt | heq
    · exact (h.inside _ (by omega) hlt).2
    · rw [heq, h.closes.2]
      simp

/-- The two scans of a text, before and after a stretch behind a mark is replaced, as far as they are in code at the
mark. -/
theorem mask_eq_of_codeStateAt {left inner : List Char} (hmark : isMark mark = true) (hinner : '\n' ∉ inner)
    (hold : '\n' ∉ old) (hnew : '\n' ∉ new)
    (hcode : codeStateAt (left ++ (mark :: (inner ++ old) ++ after)) left.length = some .code)
    (hopens : mark ≠ '#' → codeStateAt (left ++ (mark :: (inner ++ new) ++ after)) left.length = some .code)
    (hback : ∀ back, (∀ place ≤ inner.length,
        codeStateAt (left ++ (mark :: (inner ++ old) ++ after)) (left.length + (place + 1)) =
          stateAt 0 .code (mark :: (inner ++ old) ++ back) (place + 1)) →
      maskCode 0 .code (mark :: (inner ++ old) ++ back) = maskCode 0 .code (mark :: (inner ++ new) ++ back)) :
    mask (left ++ (mark :: (inner ++ new) ++ after)) = mask (left ++ (mark :: (inner ++ old) ++ after)) := by
  have hpiece : ∀ stretch : List Char, '\n' ∉ stretch → '\n' ∉ mark :: (inner ++ stretch) := by
    intro stretch hstretch
    have hne : '\n' ≠ mark := by
      rcases isMark_iff.1 hmark with rfl | rfl | rfl <;> decide
    simp [hne, hinner, hstretch]
  obtain ⟨above, front, back, below, hline⟩ := exists_line left after
  obtain ⟨holdlines, holdstate⟩ := hline _ (hpiece old hold)
  obtain ⟨hnewlines, hnewstate⟩ := hline _ (hpiece new hnew)
  have hstate : ∀ {line : List Char} {place : Nat}, (if modeAfter .code above = .code ∧
      startsWith blockCommentStart line = false then stateAt 0 .code line place else none) = some .code →
      (modeAfter .code above = .code ∧ startsWith blockCommentStart line = false) ∧
        stateAt 0 .code line place = some .code := by
    intro line place hsome
    split at hsome
    · next hcode => exact ⟨hcode, hsome⟩
    · cases hsome
  obtain ⟨hmode, hu⟩ := hstate ((holdstate 0 (Nat.zero_le _)).symm.trans hcode)
  refine (mask_congr hmark holdlines hnewlines hmode.1 hmode.2 hu (fun hhash => ?_) (hback back ?_)).symm
  · exact (hstate ((hnewstate 0 (Nat.zero_le _)).symm.trans (hopens hhash))).2
  · intro place hplace
    rw [holdstate (place + 1) (by simp; omega), if_pos hmode]
    exact stateAt_append hu (place + 1)

/-- A hidden stretch may be replaced by another one without any effect on the mask, unless the scan takes the opening
quote for part of an opener then. -/
theorem mask_hidden (h : Hidden before old after opening mark) (hlength : new.length = old.length) (hold : '\n' ∉ old)
    (hnew : '\n' ∉ new) (hclean : mark ≠ '#' → mark ∉ new ∧ '\\' ∉ new)
    (hopens : mark ≠ '#' → codeStateAt (before ++ (new ++ after)) opening = some .code) :
    mask (before ++ (new ++ after)) = mask (before ++ (old ++ after)) := by
  have htext : ∀ left inner stretch : List Char,
      left ++ mark :: inner ++ (stretch ++ after) = left ++ (mark :: (inner ++ stretch) ++ after) :=
    fun left inner stretch => by simp
  cases h with
  | comment hmark hcode hstart hend =>
      obtain ⟨left, inner, rfl, rfl⟩ := exists_split hmark
      obtain rfl : inner = [] := by simpa using hstart
      rw [htext] at hcode hopens ⊢
      rw [htext]
      refine mask_eq_of_codeStateAt rfl List.not_mem_nil hold hnew hcode hopens fun back _ => ?_
      have hblank : blankLine (new ++ back) = blankLine (old ++ back) := blankLine_eq_of_length (by simp [hlength])
      simp only [List.nil_append, List.cons_append, maskCode, if_true, maskCode_comment, hblank]
  | string hstring hstart hstop hquote hescape =>
      have hhash : mark ≠ '#' := by
        rcases hstring.isQuote with rfl | rfl <;> decide
      obtain ⟨left, inner, rfl, rfl, hinner, hstays⟩ := hstring.exists_inner hstart hstop
      have hcode := hstring.opens.2
      rw [htext] at hcode hopens hstays ⊢
      rw [htext]
      refine mask_eq_of_codeStateAt (isMark_iff.2 (Or.inr hstring.isQuote)) hinner hold hnew hcode hopens
        fun back hstate => ?_
      have hinside : maskFrom 0 (.quoted mark) (inner ++ (old ++ back)) =
          maskFrom 0 (.quoted mark) (inner ++ (new ++ back)) := by
        refine maskFrom_inside (Nat.zero_le 1) hlength ⟨hquote, hescape⟩ (hclean hhash) fun place hplace hcode => ?_
        refine hstays place hplace ?_
        have hadvance : ∀ rest, advance 0 .code mark rest = (0, .quoted mark) := fun rest => by
          simp only [advance, if_neg hhash, if_pos hstring.isQuote]
        rw [hstate place hplace, List.cons_append, stateAt, hadvance, List.append_assoc]
        exact hcode
      rw [maskFrom_zero, maskFrom_zero] at hinside
      simp only [List.cons_append, List.append_assoc, maskCode, if_neg hhash, if_pos hstring.isQuote, hinside]

end Stretch

end FactoryIndex.Text
