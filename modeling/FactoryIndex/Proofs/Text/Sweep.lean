import FactoryIndex.Proofs.Text.Hidden

/-!
# Masking in one sweep

A text can also be masked without being cut into lines: one sweep from its first character to its last, which remembers
where it is and now and then takes several characters at once. Behind a newline it skips the bodies of the
here-documents that the line has opened, and at the start of a line it looks for the ends of block comments. At the end
of the text it stops wherever it is, also behind a backslash, in a line that may close a here-document, or between an
opener and its body.

The sweep writes the masked copy, and what it remembers at the end of the text tells whether masking starts anew on the
next line. A string or a comment that is still open there does not matter, since it ends with its line. A block comment
does, and so does a here-document whose body has not been closed.
-/

namespace FactoryIndex.Text

open Pattern

/-! ### The sweep -/

/-- What the sweep remembers: the state on a line of code, whether it is in a block comment, whether it is at the start
of a line, and the terminators that it has not met of the here-documents that have been opened. -/
structure Sweep where
  state : CodeState
  inBlock : Bool
  atLineStart : Bool
  awaited : List (List Char)
  deriving Repr, DecidableEq

/-- A step of the sweep: what is written, how many characters are taken beside the first one, and what is remembered
behind them. -/
structure SweepStep where
  written : List Char
  more : Nat
  next : Sweep
  deriving Repr, DecidableEq

def blankText (text : List Char) : List Char := text.map fun c => if c = '\n' then c else ' '

/-- The terminators that are still to come behind a line of a body. -/
def awaitedBehind (line : List Char) : (terminators : List (List Char)) → List (List Char)
  | [] => []
  | terminator :: others => if trim line = terminator then others else terminator :: others

/-- The bodies with which a text starts, of here-documents with the given terminators: the number of their characters,
the lines of the terminators included, and the terminators that do not come. -/
def bodies (terminators : List (List Char)) (text : List Char) : Nat × List (List Char) :=
  match terminators, text with
  | [], _ => (0, [])
  | terminator :: others, [] => (0, terminator :: others)
  | terminator :: others, c :: rest =>
    let line := (c :: rest).takeWhile (· != '\n')
    let (length, missing) := bodies (awaitedBehind line (terminator :: others)) ((c :: rest).drop (line.length + 1))
    (line.length + 1 + length, missing)
termination_by text.length
decreasing_by
  simp only [List.length_drop, List.length_cons]
  omega

namespace Sweep

def start : Sweep := ⟨.code, false, true, []⟩

def codeStep (s : Sweep) (c : Char) (rest : List Char) : SweepStep :=
  match s.state with
  | .comment => ⟨[' '], 0, s⟩
  | .quoted quote =>
    if c = '\\' ∧ Option.any (· != '\n') rest.head? = true then ⟨[' ', ' '], 1, s⟩
    else if c = quote then ⟨[c], 0, { s with state := .code }⟩
    else ⟨[' '], 0, s⟩
  | .code =>
    if c = '#' then ⟨[' '], 0, { s with state := .comment }⟩
    else if c = '\x27' ∨ c = '\x22' then ⟨[c], 0, { s with state := .quoted c }⟩
    else
      match heredoc? none (c :: rest) with
      | some hit =>
        ⟨(c :: rest).take hit.length, hit.length - 1, { s with awaited := s.awaited ++ [hit.parts.terminator.name] }⟩
      | none => ⟨[c], 0, s⟩

def step (s : Sweep) (c : Char) (rest : List Char) : SweepStep :=
  let inside := { s with atLineStart := false }
  if c = '\n' then
    let (length, missing) := bodies s.awaited rest
    ⟨c :: blankText (rest.take length), length, ⟨.code, s.inBlock, true, missing⟩⟩
  else if s.atLineStart && startsWith blockCommentStart (c :: rest) then ⟨[' '], 0, { inside with inBlock := true }⟩
  else if s.atLineStart && s.inBlock && startsWith blockCommentEnd (c :: rest) then
    let others := rest.takeWhile (· != '\n')
    ⟨blankLine (c :: others), others.length, { inside with inBlock := false }⟩
  else if s.inBlock then ⟨[' '], 0, inside⟩
  else inside.codeStep c rest

def run (s : Sweep) (text : List Char) : List Char × Sweep :=
  match text with
  | [] => ([], s)
  | c :: rest =>
    let step := s.step c rest
    let (written, last) := step.next.run (rest.drop step.more)
    (step.written ++ written, last)
termination_by text.length
decreasing_by
  simp only [List.length_drop, List.length_cons]
  omega

/-- What the line behind the place is part of, if the line ends there. -/
def mode (s : Sweep) : LineMode := if s.inBlock then .blockComment else .ofOpeners s.awaited

end Sweep

def sweep (text : List Char) : List Char × Sweep := Sweep.start.run text

/-! ### Openers at the end of a line -/

section Opener

variable {first further : Char → Bool} {text : List Char}

theorem identifier?_eq_some {name behind : List Char} (h : identifier? first further text = some (name, behind)) :
    name ≠ [] ∧ text = name ++ behind := by
  cases text with
  | nil => cases h
  | cons c rest =>
      rw [identifier?] at h
      split at h
      · obtain ⟨rfl, rfl⟩ := Prod.mk.inj (Option.some.inj h)
        exact ⟨List.cons_ne_nil _ _, by simp⟩
      · cases h

theorem heredocName?_eq_some {squiggly : Bool} {start : Nat} {hit : Hit Heredoc}
    (h : heredocName? squiggly start first further text = some hit) :
    hit.parts.terminator.name ≠ [] ∧ start < hit.length ∧ hit.length ≤ start + text.length := by
  cases text with
  | nil => cases h
  | cons q rest =>
      simp only [heredocName?] at h
      split at h
      · split at h
        · next name close behind hidentifier =>
          obtain ⟨hname, rfl⟩ := identifier?_eq_some hidentifier
          split at h
          · obtain rfl := Option.some.inj h
            simp only [List.length_cons, List.length_append]
            exact ⟨hname, by omega, by omega⟩
          · cases h
        · cases h
      · obtain ⟨⟨name, behind⟩, hidentifier, rfl⟩ := Option.map_eq_some_iff.1 h
        obtain ⟨hname, heq⟩ := identifier?_eq_some hidentifier
        have hpos := List.length_pos_of_ne_nil hname
        simp only [heq, List.length_append]
        exact ⟨hname, by omega, by omega⟩

theorem heredoc?_eq_some {hit : Hit Heredoc} (h : heredoc? none text = some hit) :
    hit.parts.terminator.name ≠ [] ∧ 0 < hit.length ∧ hit.length ≤ text.length := by
  unfold heredoc? at h
  split at h
  · next mark rest =>
    split at h
    · obtain ⟨hname, hlt, hle⟩ := heredocName?_eq_some h
      exact ⟨hname, Nat.zero_lt_of_lt hlt, by simp only [List.length_cons]; omega⟩
    · obtain ⟨hname, hlt, hle⟩ := heredocName?_eq_some h
      exact ⟨hname, Nat.zero_lt_of_lt hlt, by simp only [List.length_cons] at hle ⊢; omega⟩
  · cases h

theorem heredocName?_newline {squiggly : Bool} {start : Nat} (hfirst : first '\n' = false)
    (hfurther : further '\n' = false) (piece below : List Char) :
    heredocName? squiggly start first further (piece ++ '\n' :: below) =
      heredocName? squiggly start first further piece := by
  have hquote : isHeredocQuote '\n' = false := rfl
  cases piece with
  | nil => simp [heredocName?, hquote, identifier?, hfirst]
  | cons q rest =>
      have hall := identifier?_append hfirst hfurther (q :: rest) below
      simp only [List.cons_append, heredocName?] at hall ⊢
      split
      · next hq =>
        rw [identifier?_append hfirst hfurther]
        cases identifier? first further rest with
        | none => rfl
        | some found =>
            obtain ⟨name, behind⟩ := found
            cases behind with
            | nil =>
                have hne : '\n' ≠ q := by
                  rintro rfl
                  cases hquote.symm.trans hq
                simp [hne]
            | cons close behind => rfl
      · rw [hall, Option.map_map]
        rfl

theorem heredoc?_newline (line below : List Char) : heredoc? none (line ++ '\n' :: below) = heredoc? none line := by
  match line with
  | [] => rfl
  | [c] =>
      rw [List.cons_append, List.nil_append, heredoc?_eq_none fun h => absurd h.2 (by decide)]
      unfold heredoc?
      split
      · next heq => cases heq
      · rfl
  | [c, d] =>
      by_cases hopens : c = '<' ∧ d = '<'
      · obtain ⟨rfl, rfl⟩ := hopens
        simp only [List.cons_append, List.nil_append, heredoc?]
        rw [if_neg (by decide)]
        exact heredocName?_newline rfl rfl [] below
      · rw [List.cons_append, List.cons_append, heredoc?_eq_none hopens, heredoc?_eq_none hopens]
  | c :: d :: mark :: rest =>
      by_cases hopens : c = '<' ∧ d = '<'
      · obtain ⟨rfl, rfl⟩ := hopens
        simp only [List.cons_append, heredoc?]
        split
        · exact heredocName?_newline (by decide) (by decide) rest below
        · exact heredocName?_newline (by decide) (by decide) (mark :: rest) below
      · rw [List.cons_append, List.cons_append, heredoc?_eq_none hopens, heredoc?_eq_none hopens]

/-- No opener runs beyond the end of its line. -/
theorem heredoc?_line (line : List Char) {tail : List Char} (htail : Option.all (· == '\n') tail.head? = true) :
    heredoc? none (line ++ tail) = heredoc? none line := by
  cases tail with
  | nil => rw [List.append_nil]
  | cons c below =>
      obtain rfl : c = '\n' := beq_iff_eq.1 htail
      exact heredoc?_newline line below

end Opener

theorem ne_nil_of_mem_maskCode {keep : Nat} {state : CodeState} {line : List Char} :
    ∀ name ∈ (maskCode keep state line).2, name ≠ [] := by
  fun_induction maskCode keep state line with
  | case1 => exact fun name hname => absurd hname List.not_mem_nil
  | case9 c rest _ _ hit hhit masked openers hrest ih =>
      rw [hrest] at ih
      exact List.forall_mem_cons.2 ⟨(heredoc?_eq_some hhit).1, ih⟩
  | case2 _ _ _ _ _ _ hrest ih | case3 _ _ _ _ hrest ih | case4 _ _ _ _ _ hrest ih | case5 _ _ _ _ _ hrest ih
  | case6 _ _ _ _ _ _ _ hrest ih | case7 _ _ _ hrest ih | case8 _ _ _ _ _ _ hrest ih
  | case10 _ _ _ _ _ _ _ hrest ih =>
      rw [hrest] at ih
      exact ih

theorem maskCode_keep (keep : Nat) (state : CodeState) (line : List Char) :
    maskCode keep state line =
      (line.take keep ++ (maskCode 0 state (line.drop keep)).1, (maskCode 0 state (line.drop keep)).2) := by
  induction keep generalizing line with
  | zero => rfl
  | succ keep ih =>
      cases line with
      | nil => cases state <;> rfl
      | cons c rest =>
          rw [maskCode, ih rest]
          rfl

/-! ### The sweep over a line -/

theorem startsWith_line {start : List Char} (hstart : '\n' ∉ start) (line : List Char) {tail : List Char}
    (htail : Option.all (· == '\n') tail.head? = true) : startsWith start (line ++ tail) = startsWith start line := by
  simp only [startsWith]
  induction start generalizing line with
  | nil => rfl
  | cons c start ih =>
      rw [List.mem_cons, not_or] at hstart
      cases line with
      | cons d line => simp [List.isPrefixOf, ih hstart.2]
      | nil =>
          cases tail with
          | nil => rfl
          | cons d below =>
              obtain rfl : d = '\n' := beq_iff_eq.1 htail
              simp [List.isPrefixOf, Ne.symm hstart.1]

/-- Only a further character of its line can be escaped. -/
theorem escapes_line {line tail : List Char} (hline : '\n' ∉ line)
    (htail : Option.all (· == '\n') tail.head? = true) :
    Option.any (· != '\n') (line ++ tail).head? = true ↔ line ≠ [] := by
  cases line with
  | cons c rest =>
      have hc : c ≠ '\n' := fun heq => hline (heq ▸ List.mem_cons_self)
      simp [hc]
  | nil =>
      cases tail with
      | nil => simp
      | cons c below =>
          obtain rfl : c = '\n' := beq_iff_eq.1 htail
          simp

namespace Sweep

variable {s t u : Sweep} {piece left right written written' line tail : List Char} {c : Char} {state : CodeState}
  {awaited : List (List Char)}

theorem run_nil (s : Sweep) : s.run [] = ([], s) := by rw [run]

theorem run_cons (s : Sweep) (c : Char) (rest : List Char) : s.run (c :: rest) =
    ((s.step c rest).written ++ ((s.step c rest).next.run (rest.drop (s.step c rest).more)).1,
      ((s.step c rest).next.run (rest.drop (s.step c rest).more)).2) := by rw [run]

/-- The sweep takes a piece of a text, writes something for it, and comes to the text behind it. -/
def Leads (s : Sweep) (piece written tail : List Char) (t : Sweep) : Prop :=
  s.run (piece ++ tail) = (written ++ (t.run tail).1, (t.run tail).2)

theorem leads_nil (s : Sweep) (tail : List Char) : Leads s [] [] tail s := rfl

theorem Leads.append (hleft : Leads s left written (right ++ tail) t) (hright : Leads t right written' tail u) :
    Leads s (left ++ right) (written ++ written') tail u := by
  simp only [Leads] at hleft hright ⊢
  rw [List.append_assoc, hleft, hright, List.append_assoc]

theorem leads_of_step {more : List Char} (h : s.step c (more ++ tail) = ⟨written, more.length, t⟩) :
    Leads s (c :: more) written tail t := by
  rw [Leads, List.cons_append, run_cons, h, List.drop_left]

theorem leads_block (hline : '\n' ∉ line) (tail : List Char) :
    Leads ⟨state, true, false, awaited⟩ line (blankLine line) tail ⟨state, true, false, awaited⟩ := by
  induction line with
  | nil => exact leads_nil _ tail
  | cons c rest ih =>
      rw [List.mem_cons, not_or] at hline
      have hstep : step ⟨state, true, false, awaited⟩ c (rest ++ tail) =
          ⟨[' '], 0, ⟨state, true, false, awaited⟩⟩ := by
        simp [step, Ne.symm hline.1]
      have hfirst : Leads ⟨state, true, false, awaited⟩ [c] [' '] (rest ++ tail) ⟨state, true, false, awaited⟩ :=
        leads_of_step hstep
      exact hfirst.append (ih hline.2)

/-- A step within a line of code masks the characters that it takes, and adds the openers among them. -/
theorem codeStep_spec {rest : List Char} (hline : '\n' ∉ rest)
    (htail : Option.all (· == '\n') tail.head? = true) (c : Char) (state : CodeState) (awaited : List (List Char)) :
    ∃ front back written openers next, rest = front ++ back ∧
      maskCode 0 state (c :: rest) = (written ++ (maskCode 0 next back).1, openers ++ (maskCode 0 next back).2) ∧
      codeStep ⟨state, false, false, awaited⟩ c (rest ++ tail) =
        ⟨written, front.length, ⟨next, false, false, awaited ++ openers⟩⟩ := by
  cases state with
  | comment =>
      refine ⟨[], rest, [' '], [], .comment, rfl, rfl, ?_⟩
      rw [codeStep, List.append_nil]
      rfl
  | quoted quote =>
      simp only [codeStep, escapes_line hline htail]
      by_cases hescape : c = '\\' ∧ rest ≠ []
      · obtain ⟨rfl, hrest⟩ := hescape
        obtain ⟨d, back, rfl⟩ := List.exists_cons_of_ne_nil hrest
        exact ⟨[d], back, [' ', ' '], [], .quoted quote, rfl, rfl, by simp⟩
      · rw [maskCode_quoted hescape, if_neg hescape]
        split
        · exact ⟨[], rest, [c], [], .code, rfl, rfl, by simp⟩
        · exact ⟨[], rest, [' '], [], .quoted quote, rfl, rfl, by simp⟩
  | code =>
      have hheredoc := heredoc?_line (c :: rest) htail
      rw [List.cons_append] at hheredoc
      simp only [maskCode, codeStep, hheredoc]
      split
      · exact ⟨[], rest, [' '], [], .comment, rfl, rfl, by simp⟩
      · split
        · exact ⟨[], rest, [c], [], .quoted c, rfl, rfl, by simp⟩
        · cases hhit : heredoc? none (c :: rest) with
          | none => exact ⟨[], rest, [c], [], .code, rfl, rfl, by simp⟩
          | some hit =>
              obtain ⟨-, hpos, hle⟩ := heredoc?_eq_some hhit
              obtain ⟨more, hlength⟩ : ∃ more, hit.length = more + 1 := ⟨hit.length - 1, by omega⟩
              rw [hlength, List.length_cons] at hle
              have hmore : more ≤ rest.length := Nat.le_of_succ_le_succ hle
              refine ⟨rest.take more, rest.drop more, c :: rest.take more, [hit.parts.terminator.name], .code,
                (List.take_append_drop more rest).symm, ?_, ?_⟩
              · simp only [hlength, Nat.add_sub_cancel, maskCode_keep more .code rest, List.cons_append]
                rfl
              · simp only [hlength, Nat.add_sub_cancel, List.take_succ_cons, List.take_append_of_le_length hmore,
                  List.length_take_of_le hmore]

theorem leads_code (hline : '\n' ∉ line) (htail : Option.all (· == '\n') tail.head? = true) (state : CodeState)
    (awaited : List (List Char)) :
    ∃ t, Leads ⟨state, false, false, awaited⟩ line (maskCode 0 state line).1 tail t ∧ t.inBlock = false ∧
      t.awaited = awaited ++ (maskCode 0 state line).2 := by
  induction hlength : line.length using Nat.strongRecOn generalizing line state awaited with
  | ind n ih =>
      cases line with
      | nil =>
          have hnil : maskCode 0 state [] = ([], []) := by cases state <;> rfl
          rw [hnil]
          exact ⟨_, leads_nil _ tail, rfl, (List.append_nil awaited).symm⟩
      | cons c rest =>
          rw [List.mem_cons, not_or] at hline
          obtain ⟨front, back, written, openers, next, rfl, hmask, hstep⟩ :=
            codeStep_spec hline.2 htail c state awaited
          have hback : '\n' ∉ back := fun hmem => hline.2 (List.mem_append_right front hmem)
          have hshorter : back.length < n := by
            rw [List.length_cons, List.length_append] at hlength
            omega
          obtain ⟨t, hleads, hblock, hawaited⟩ := ih _ hshorter hback next (awaited ++ openers) rfl
          have hfirst : Leads ⟨state, false, false, awaited⟩ (c :: front) written (back ++ tail)
              ⟨next, false, false, awaited ++ openers⟩ := by
            apply leads_of_step
            rw [List.append_assoc] at hstep
            rw [← hstep]
            simp [step, Ne.symm hline.1]
          refine ⟨t, ?_, hblock, ?_⟩
          · rw [hmask]
            exact hfirst.append hleads
          · rw [hawaited, hmask, List.append_assoc]

/-- A line of which the first character is blanked out in a block comment is blanked out. -/
theorem leads_blank {rest : List Char} (hrest : '\n' ∉ rest)
    (hstep : s.step c (rest ++ tail) = ⟨[' '], 0, ⟨state, true, false, awaited⟩⟩) :
    Leads s (c :: rest) (blankLine (c :: rest)) tail ⟨state, true, false, awaited⟩ := by
  have hfirst : Leads s [c] [' '] (rest ++ tail) ⟨state, true, false, awaited⟩ := leads_of_step hstep
  exact hfirst.append (leads_block hrest tail)

/-- In a block comment no here-document is awaited, and none without a name ever. -/
structure Proper (s : Sweep) : Prop where
  block : s.inBlock = true → s.awaited = []
  named : ∀ name ∈ s.awaited, name ≠ []

theorem proper_of_awaited (h : s.awaited = []) : s.Proper := ⟨fun _ => h, by simp [h]⟩

section FirstCharacter

variable {rest : List Char}

/-- A line that opens a block comment is part of it, also if there is one already. -/
theorem leads_openingLine (hline : '\n' ∉ c :: rest) (htail : Option.all (· == '\n') tail.head? = true)
    (hopens : startsWith blockCommentStart (c :: rest) = true) (inBlock : Bool) :
    Leads ⟨.code, inBlock, true, []⟩ (c :: rest) (blankLine (c :: rest)) tail ⟨.code, true, false, []⟩ := by
  have hstart := startsWith_line (show '\n' ∉ blockCommentStart by decide) (c :: rest) htail
  rw [List.mem_cons, not_or] at hline
  rw [List.cons_append, hopens] at hstart
  apply leads_blank hline.2
  simp [step, Ne.symm hline.1, hstart]

/-- A line of a block comment that does not open one is blanked out, too, and closes the comment or not. -/
theorem leads_commentLine (hline : '\n' ∉ c :: rest) (htail : Option.all (· == '\n') tail.head? = true)
    (hopens : startsWith blockCommentStart (c :: rest) = false) :
    Leads ⟨.code, true, true, []⟩ (c :: rest) (blankLine (c :: rest)) tail
      ⟨.code, !startsWith blockCommentEnd (c :: rest), false, []⟩ := by
  have hstart := startsWith_line (show '\n' ∉ blockCommentStart by decide) (c :: rest) htail
  have hend := startsWith_line (show '\n' ∉ blockCommentEnd by decide) (c :: rest) htail
  rw [List.mem_cons, not_or] at hline
  rw [List.cons_append] at hstart hend
  cases hcloses : startsWith blockCommentEnd (c :: rest) with
  | true =>
      apply leads_of_step
      simp [step, Ne.symm hline.1, hstart, hopens, hend, hcloses, takeWhile_line hline.2 htail]
  | false =>
      apply leads_blank hline.2
      simp [step, Ne.symm hline.1, hstart, hopens, hend, hcloses]

/-- A line of code that does not open a block comment is masked as code. -/
theorem leads_codeLine (hline : '\n' ∉ c :: rest) (htail : Option.all (· == '\n') tail.head? = true)
    (hopens : startsWith blockCommentStart (c :: rest) = false) :
    ∃ t, Leads ⟨.code, false, true, []⟩ (c :: rest) (maskCode 0 .code (c :: rest)).1 tail t ∧
      t.mode = .ofOpeners (maskCode 0 .code (c :: rest)).2 ∧ t.Proper := by
  have hstart := startsWith_line (show '\n' ∉ blockCommentStart by decide) (c :: rest) htail
  have hsame : step ⟨.code, false, true, []⟩ c (rest ++ tail) = step ⟨.code, false, false, []⟩ c (rest ++ tail) := by
    rw [List.cons_append, hopens] at hstart
    simp [step, hstart]
  obtain ⟨t, hleads, hblock, hawaited⟩ := leads_code hline htail .code []
  rw [List.nil_append] at hawaited
  refine ⟨t, ?_, ?_, fun htrue => ?_, fun name hname => ?_⟩
  · rw [Leads, List.cons_append, run_cons, hsame, ← run_cons]
    exact hleads
  · rw [mode, hblock, hawaited]
    rfl
  · rw [hblock] at htrue
    cases htrue
  · exact ne_nil_of_mem_maskCode name (hawaited ▸ hname)

end FirstCharacter

/-- Over a line the sweep writes what masking makes of it, and comes to its end in the same mode. -/
theorem leads_line (hline : '\n' ∉ line) (htail : Option.all (· == '\n') tail.head? = true) (inBlock : Bool) :
    ∃ t, Leads ⟨.code, inBlock, true, []⟩ line (maskLine (mode ⟨.code, inBlock, true, []⟩) line).1 tail t ∧
      t.mode = (maskLine (mode ⟨.code, inBlock, true, []⟩) line).2 ∧ t.Proper := by
  cases line with
  | nil => cases inBlock <;> exact ⟨_, leads_nil _ tail, rfl, proper_of_awaited rfl⟩
  | cons c rest =>
      cases hopens : startsWith blockCommentStart (c :: rest) with
      | true =>
          have hmask : maskLine (mode ⟨.code, inBlock, true, []⟩) (c :: rest) =
              (blankLine (c :: rest), .blockComment) := by
            cases inBlock <;> simp [mode, maskLine, LineMode.ofOpeners, hopens]
          rw [hmask]
          exact ⟨_, leads_openingLine hline htail hopens inBlock, rfl, proper_of_awaited rfl⟩
      | false =>
          cases inBlock with
          | false =>
              have hmask : maskLine (mode ⟨.code, false, true, []⟩) (c :: rest) =
                  ((maskCode 0 .code (c :: rest)).1, .ofOpeners (maskCode 0 .code (c :: rest)).2) := by
                simp [mode, maskLine, LineMode.ofOpeners, hopens]
              rw [hmask]
              exact leads_codeLine hline htail hopens
          | true =>
              refine ⟨_, leads_commentLine hline htail hopens, ?_, proper_of_awaited rfl⟩
              cases hcloses : startsWith blockCommentEnd (c :: rest) <;>
                simp [mode, maskLine, LineMode.ofOpeners, hopens, hcloses]

end Sweep

/-! ### The sweep over bodies -/

section Bodies

variable {line : List Char} {terminators : List (List Char)}

theorem maskFromMode_line (mode : LineMode) (hline : '\n' ∉ line) : maskFromMode mode line = maskLine mode line := by
  have hlines := lines_append_of_not_mem hline (show lines [] = [[]] from rfl)
  rw [List.append_nil] at hlines
  rw [maskFromMode, hlines]
  rfl

theorem maskLine_ofOpeners (hne : terminators ≠ []) (line : List Char) :
    maskLine (.ofOpeners terminators) line = (blankLine line, .ofOpeners (awaitedBehind line terminators)) := by
  cases terminators with
  | nil => exact absurd rfl hne
  | cons terminator others =>
      simp only [LineMode.ofOpeners, maskLine, awaitedBehind]
      split <;> rfl

theorem mem_of_mem_awaitedBehind {name : List Char} (hname : name ∈ awaitedBehind line terminators) :
    name ∈ terminators := by
  cases terminators with
  | nil => exact hname
  | cons terminator others =>
      rw [awaitedBehind] at hname
      split at hname
      · exact List.mem_cons_of_mem terminator hname
      · exact hname

/-- No here-document ends with a line that has nothing on it. -/
theorem maskFromMode_nil (hnamed : ∀ name ∈ terminators, name ≠ []) :
    maskFromMode (.ofOpeners terminators) [] = ([], .ofOpeners terminators) := by
  rw [maskFromMode_line _ List.not_mem_nil]
  cases terminators with
  | nil => rfl
  | cons terminator others =>
      have hne : trim [] ≠ terminator := fun heq => hnamed terminator List.mem_cons_self heq.symm
      rw [maskLine_ofOpeners (List.cons_ne_nil terminator others), awaitedBehind, if_neg hne]
      rfl

theorem blankText_line (hline : '\n' ∉ line) : blankText line = blankLine line := by
  refine List.map_congr_left fun c hc => if_neg ?_
  rintro rfl
  exact hline hc

theorem blankText_append (hline : '\n' ∉ line) (below : List Char) :
    blankText (line ++ '\n' :: below) = blankLine line ++ '\n' :: blankText below := by
  rw [← blankText_line hline]
  exact List.map_append

theorem bodies_nil (terminators : List (List Char)) : bodies terminators [] = (0, terminators) := by
  cases terminators <;> rw [bodies]

theorem bodies_line (hne : terminators ≠ []) (hline : '\n' ∉ line) {tail : List Char} (htext : line ++ tail ≠ [])
    (htail : Option.all (· == '\n') tail.head? = true) : bodies terminators (line ++ tail) =
      (line.length + 1 + (bodies (awaitedBehind line terminators) tail.tail).1,
        (bodies (awaitedBehind line terminators) tail.tail).2) := by
  obtain ⟨terminator, others, rfl⟩ := List.exists_cons_of_ne_nil hne
  obtain ⟨c, rest, heq⟩ := List.exists_cons_of_ne_nil htext
  have htake := takeWhile_line hline htail
  have hdrop : (line ++ tail).drop (line.length + 1) = tail.tail := by
    rw [← List.drop_drop, List.drop_left, List.drop_one]
  rw [heq] at htake hdrop ⊢
  rw [bodies, htake, hdrop]

/-- Bodies are blanked out. Behind them masking goes on in the mode of code, unless a terminator does not come, and then
there is nothing behind them. -/
theorem bodies_spec (hnamed : ∀ name ∈ terminators, name ≠ []) (text : List Char) :
    ∃ length missing, bodies terminators text = (length, missing) ∧
      maskFromMode (.ofOpeners terminators) text =
        (blankText (text.take length) ++ (maskFromMode (.ofOpeners missing) (text.drop length)).1,
          (maskFromMode (.ofOpeners missing) (text.drop length)).2) ∧
      (missing = [] ∨ text.drop length = []) ∧ ∀ name ∈ missing, name ≠ [] := by
  induction hlength : text.length using Nat.strongRecOn generalizing text terminators with
  | ind n ih =>
      by_cases hne : terminators = []
      · subst hne
        exact ⟨0, [], by rw [bodies], rfl, Or.inl rfl, hnamed⟩
      · have hawaited : ∀ line, ∀ name ∈ awaitedBehind line terminators, name ≠ [] :=
          fun line name hname => hnamed name (mem_of_mem_awaitedBehind hname)
        by_cases hmem : '\n' ∈ text
        · obtain ⟨line, below, rfl, hline⟩ := List.eq_append_cons_of_mem hmem
          have hshorter : below.length < n := by
            rw [List.length_append, List.length_cons] at hlength
            omega
          obtain ⟨length, missing, hbodies, hmask, hend, hmissing⟩ := ih _ hshorter (hawaited line) below rfl
          have htake : (line ++ '\n' :: below).take (line.length + 1 + length) = line ++ '\n' :: below.take length := by
            rw [Nat.add_assoc, List.take_length_add_append, Nat.add_comm 1, List.take_succ_cons]
          have hdrop : (line ++ '\n' :: below).drop (line.length + 1 + length) = below.drop length := by
            rw [Nat.add_assoc, List.drop_length_add_append, Nat.add_comm 1, List.drop_succ_cons]
          refine ⟨line.length + 1 + length, missing, ?_, ?_, ?_, hmissing⟩
          · rw [bodies_line hne hline (by simp) rfl, List.tail_cons, hbodies]
          · rw [maskFromMode_append, maskFromMode_line _ hline, maskLine_ofOpeners hne, htake, hdrop,
              blankText_append hline, List.append_assoc, List.cons_append]
            simp only [hmask]
          · rwa [hdrop]
        · cases text with
          | nil => exact ⟨0, terminators, bodies_nil terminators, rfl, Or.inr rfl, hnamed⟩
          | cons c rest =>
              have htext : c :: rest ++ [] ≠ [] := by simp
              have hbodies := bodies_line hne hmem htext rfl
              rw [List.append_nil, List.tail_nil, bodies_nil] at hbodies
              have hdrop : (c :: rest).drop ((c :: rest).length + 1 + 0) = [] := List.drop_eq_nil_of_le (by omega)
              refine ⟨_, _, hbodies, ?_, Or.inr hdrop, hawaited (c :: rest)⟩
              rw [hdrop, List.take_of_length_le (by omega), maskFromMode_nil (hawaited _), maskFromMode_line _ hmem,
                maskLine_ofOpeners hne, blankText_line hmem, List.append_nil]

end Bodies

/-! ### The sweep over a text -/

namespace Sweep

/-- Behind a newline the sweep goes on where the bodies end, in the mode in which masking goes on there. -/
theorem newline_spec {t : Sweep} (hproper : t.Proper) (below : List Char) :
    ∃ length missing, t.step '\n' below =
        ⟨'\n' :: blankText (below.take length), length, ⟨.code, t.inBlock, true, missing⟩⟩ ∧
      maskFromMode t.mode below =
        (blankText (below.take length) ++
            (maskFromMode (mode ⟨.code, t.inBlock, true, missing⟩) (below.drop length)).1,
          (maskFromMode (mode ⟨.code, t.inBlock, true, missing⟩) (below.drop length)).2) ∧
      (missing = [] ∨ below.drop length = []) ∧ Proper ⟨.code, t.inBlock, true, missing⟩ := by
  cases hblock : t.inBlock with
  | true =>
      have hawaited := hproper.block hblock
      refine ⟨0, [], ?_, ?_, Or.inl rfl, proper_of_awaited rfl⟩
      · simp [step, hblock, hawaited, bodies]
      · simp only [mode, hblock]
        rfl
  | false =>
      obtain ⟨length, missing, hbodies, hmask, hend, hmissing⟩ := bodies_spec hproper.named below
      refine ⟨length, missing, ?_, ?_, hend, ⟨fun htrue => absurd htrue Bool.false_ne_true, hmissing⟩⟩
      · simp [step, hblock, hbodies]
      · simpa [mode, hblock] using hmask

/-- From the start of a line to the end of the text the sweep writes the masked copy, and it ends in the mode of the
lines behind the text. If here-documents are awaited, then no text is left. -/
theorem run_spec {text : List Char} {inBlock : Bool} {awaited : List (List Char)}
    (hproper : Proper ⟨.code, inBlock, true, awaited⟩) (hnothing : awaited = [] ∨ text = []) :
    (run ⟨.code, inBlock, true, awaited⟩ text).1 = (maskFromMode (mode ⟨.code, inBlock, true, awaited⟩) text).1 ∧
      (run ⟨.code, inBlock, true, awaited⟩ text).2.mode =
        (maskFromMode (mode ⟨.code, inBlock, true, awaited⟩) text).2 := by
  induction hlength : text.length using Nat.strongRecOn generalizing text inBlock awaited with
  | ind n ih =>
      rcases hnothing with rfl | rfl
      · by_cases hmem : '\n' ∈ text
        · obtain ⟨line, below, rfl, hline⟩ := List.eq_append_cons_of_mem hmem
          have htail : Option.all (· == '\n') ('\n' :: below).head? = true := rfl
          obtain ⟨t, hleads, hmode, ht⟩ := leads_line hline htail inBlock
          obtain ⟨length, missing, hstep, hmask, hend, hnext⟩ := newline_spec ht below
          have hshorter : (below.drop length).length < n := by
            rw [List.length_append, List.length_cons] at hlength
            rw [List.length_drop]
            omega
          obtain ⟨hwritten, hlast⟩ := ih _ hshorter hnext hend rfl
          rw [Leads, run_cons, hstep] at hleads
          rw [hleads, maskFromMode_append, maskFromMode_line _ hline, ← hmode, hmask]
          refine ⟨?_, hlast⟩
          simp only [hwritten, List.cons_append]
        · have htail : Option.all (· == '\n') ([] : List Char).head? = true := rfl
          obtain ⟨t, hleads, hmode, -⟩ := leads_line hmem htail inBlock
          rw [Leads, List.append_nil, run_nil, List.append_nil] at hleads
          rw [hleads, maskFromMode_line _ hmem]
          exact ⟨rfl, hmode⟩
      · rw [run_nil]
        cases inBlock with
        | true => exact ⟨rfl, rfl⟩
        | false =>
            have hmode : mode ⟨.code, false, true, awaited⟩ = .ofOpeners awaited := rfl
            rw [hmode, maskFromMode_nil hproper.named]
            exact ⟨rfl, rfl⟩

end Sweep

theorem sweep_fst (text : List Char) : (sweep text).1 = mask text :=
  (Sweep.run_spec (Sweep.proper_of_awaited rfl) (Or.inl rfl)).1

theorem mode_sweep (text : List Char) : (sweep text).2.mode = (maskFromMode .code text).2 :=
  (Sweep.run_spec (Sweep.proper_of_awaited rfl) (Or.inl rfl)).2

/-! ### Where masking starts anew -/

theorem Sweep.mode_eq_code_iff {s : Sweep} : s.mode = .code ↔ s.inBlock = false ∧ s.awaited = [] := by
  rw [mode]
  cases hblock : s.inBlock with
  | true => simp
  | false => cases hawaited : s.awaited <;> simp [LineMode.ofOpeners]

/-- Only in the mode of code is a letter left as it is. -/
theorem eq_code_of_keeps {mode : LineMode} (h : (maskFromMode mode ['x']).1 = ['x']) : mode = .code := by
  rw [maskFromMode_line mode (by decide)] at h
  cases mode with
  | code => rfl
  | blockComment => cases h
  | heredoc terminator others => cases h

/-- **Masking starts anew behind clean newlines, and only there.** The masked copy of a text is what the sweep over it
writes. Whatever stands below a text is masked as if nothing stood above it exactly if the sweep over the text ends
neither in a block comment nor with a here-document of which the terminator line has not come. It may end in a comment or
inside quotes. -/
theorem masking_restarts (a : List Char) :
    (sweep a).1 = mask a ∧
      ((∀ b, mask (a ++ '\n' :: b) = mask a ++ '\n' :: mask b) ↔
        (sweep a).2.inBlock = false ∧ (sweep a).2.awaited = []) := by
  refine ⟨sweep_fst a, ?_⟩
  rw [← Sweep.mode_eq_code_iff, mode_sweep]
  constructor
  · intro hrestarts
    apply eq_code_of_keeps
    have hletter := hrestarts ['x']
    have happend : mask (a ++ '\n' :: ['x']) = mask a ++ '\n' :: (maskFromMode (maskFromMode .code a).2 ['x']).1 :=
      congrArg Prod.fst (maskFromMode_append .code a ['x'])
    rw [happend, List.append_cancel_left_eq, List.cons.injEq] at hletter
    rw [hletter.2]
    exact mask_of_plain (List.forall_mem_singleton.2 rfl)
  · intro hmode b
    exact mask_append hmode b

end FactoryIndex.Text
