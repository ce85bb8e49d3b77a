import FactoryIndex.Proofs.Outline.Flat
import FactoryIndex.Proofs.Pattern.Body

/-!
# Bodies of flat files

The body of a factory of a flat file runs up to the first line of the next factory, or up to the `end` that closes the
file. So it holds the lines of its own factory and no others but for a closing `end`, and its traits are those that the
walk gives to the factory. The two ways of parsing therefore agree on flat files.
-/

namespace FactoryIndex.Outline

open Pattern Text

/-! ### Traits in a body -/

def cutAt (body : Found FactoryBody) : List Finding :=
  (traitHeaders body.parts.text).map fun found =>
    .trait (body.start + body.parts.start + found.start) (String.ofList found.parts.name) found.parts.stop
      (String.ofList body.parts.name.name)

theorem cutTraits_eq (index : LineIndex) (file : RawText) (masked : List Char) :
    cutTraits index file masked = scannedTraits index file ((factoryBodies masked).flatMap cutAt) := by
  simp only [cutTraits, scannedTraits, cutAt, List.filterMap_flatMap, List.filterMap_map]
  congr 1
  funext body
  rw [← List.filterMap_eq_map]
  rfl

theorem cutAt_shift (n : Nat) (body : Found FactoryBody) : cutAt (body.shift n) = (cutAt body).map (.shift n) := by
  simp only [cutAt, List.map_map, Found.shift]
  refine List.map_congr_left fun found _ => ?_
  simp only [Function.comp_apply, Finding.shift, Nat.add_assoc]

/-- The lines inside a factory, its own `end` included. -/
def Code.isInner : Code → Bool
  | attr .. => true
  | trait _ => true
  | close => true
  | _ => false

theorem Item.isInner_of_mem (item : Item) : ∀ line ∈ item.lines, line.code.isInner = true := by
  intro line hmem
  cases item with
  | attr a =>
      rw [List.mem_singleton.1 hmem]
      rfl
  | trait indent name attrs closing =>
      simp only [Item.lines, List.mem_cons, List.mem_append, List.mem_map, List.not_mem_nil, or_false] at hmem
      rcases hmem with rfl | ⟨a, -, rfl⟩ | rfl
      · rfl
      · rfl
      · rfl

theorem FlatFactory.isInner_of_mem (factory : FlatFactory) : ∀ line ∈ factory.body, line.code.isInner = true := by
  intro line hmem
  obtain ⟨item, -, hline⟩ := List.mem_flatMap.1 hmem
  exact item.isInner_of_mem line hline

theorem traitHeaders_below (lines : List Line) :
    traitHeaders (below lines) = (places 1 lines).flatMap fun place => place.1.traitHeaders place.2 := by
  cases lines with
  | nil => rfl
  | cons line rest =>
      have hlayOut := occurrencesFrom_layOut (fun line before tail => line.yields_traitHeader?)
        restarts_traitHeader?.newline (line :: rest) 1 (show opensLine (some '\n') = true from rfl)
      rw [flatMap_zipIdx Line.traitHeaders] at hlayOut
      rw [below_cons, traitHeaders, occurrences, occurrencesFrom, restarts_traitHeader?.newline]
      exact hlayOut

theorem Line.map_traitHeaders {line : Line} (hinner : line.code.isInner = true) (n offset : Nat) (factory : String) :
    (line.traitHeaders offset).map (fun found =>
        Finding.trait (n + found.start) (String.ofList found.parts.name) found.parts.stop factory) =
      line.findings (n + offset) (some factory) := by
  obtain ⟨indent, code⟩ := line
  cases code with
  | trait name =>
      have hstart : n + offset + indent.chars.length = n + (offset + indent.chars.length) := Nat.add_assoc ..
      simp only [Line.findings, hstart]
      rfl
  | attr word digits => rfl
  | close => rfl
  | blank | factory | block | conditional => cases hinner

theorem cutAt_below {lines : List Line} (hinner : ∀ line ∈ lines, line.code.isInner = true)
    (start length inset : Nat) (name : Symbol) :
    cutAt ⟨start, length, ⟨name, inset, below lines⟩⟩ =
      findingsOf (some (String.ofList name.name)) (start + inset + 1) lines := by
  rw [cutAt, traitHeaders_below, findingsOf, places_shift, List.map_flatMap, List.flatMap_map]
  refine List.flatMap_congr fun place hplace => ?_
  exact Line.map_traitHeaders (hinner place.1 (mem_of_mem_places hplace)) _ place.2 _

/-! ### Where the bodies of a flat file end -/

section Length

variable {tail : List Char}

theorem Line.endsBody_of_isInner {line : Line} (hinner : line.code.isInner = true) (htail : endsLine tail = true)
    (hmore : ∃ c ∈ tail, isBlank c = false) : endsBody ('\n' :: (line.chars ++ tail)) = false := by
  obtain ⟨indent, code⟩ := line
  obtain ⟨c, hc, hblank⟩ := hmore
  have hcloses := closesWord_of_endsLine htail
  have hdrop : ∀ front : List Char, endWord.length ≤ front.length →
      ∃ c ∈ (front ++ tail).drop endWord.length, isBlank c = false := by
    intro front hle
    rw [List.drop_append_of_le_length hle]
    exact ⟨c, List.mem_append_right _ hc, hblank⟩
  cases code with
  | attr word digits =>
      have hchars : Line.chars ⟨indent, .attr word digits⟩ ++ tail = indent.chars ++ (word.chars ++
          ([' '] ++ (['{'] ++ ([' '] ++ (digits.chars ++ ([' '] ++ ['}']))) ++ tail))) := by
        simp [Line.chars, Code.chars]
      rw [hchars]
      refine endsBody_of_ne indent.isIndent_of_mem word.isNameChar_of_mem word.ne_nil rfl ?_ ?_
      · intro heq
        exact word.not_reserved (heq ▸ List.mem_cons_self)
      · rw [← List.append_assoc, ← List.append_assoc]
        refine hdrop _ ?_
        simp [endWord]
        omega
  | trait name =>
      have hchars : Line.chars ⟨indent, .trait name⟩ ++ tail = indent.chars ++ (traitWord ++
          ([' ', ':'] ++ (name.chars ++ ([' '] ++ ['d', 'o'])) ++ tail)) := by
        simp [Line.chars, Code.chars]
      rw [hchars]
      refine endsBody_of_ne indent.isIndent_of_mem (List.all_eq_true.1 rfl) (by decide) rfl (by decide) ?_
      rw [← List.append_assoc]
      exact hdrop _ (by simp [endWord, traitWord])
  | close =>
      have hchars : Line.chars ⟨indent, .close⟩ ++ tail = indent.chars ++ (endWord ++ tail) := List.append_assoc ..
      rw [hchars]
      exact endsBody_of_ne indent.isIndent_of_mem (List.all_eq_true.1 rfl) (by decide) hcloses (by decide)
        (hdrop endWord (Nat.le_refl _))
  | blank | factory | block | conditional => cases hinner

theorem bodyLength?_below {lines : List Line} (hinner : ∀ line ∈ lines, line.code.isInner = true) {next : List Char}
    (hstop : endsBody ('\n' :: next) = true) (hmore : ∃ c ∈ next, isBlank c = false) :
    bodyLength? (below lines ++ '\n' :: next) = some (below lines).length := by
  induction lines with
  | nil => exact bodyLength?_of_endsBody hstop
  | cons line rest ih =>
      have hrest := ih fun other hother => hinner other (List.mem_cons_of_mem line hother)
      have htail : endsLine (below rest ++ '\n' :: next) = true := by
        cases rest with
        | nil => rfl
        | cons second others => rfl
      have hends : endsBody ('\n' :: (line.chars ++ (below rest ++ '\n' :: next))) = false := by
        refine Line.endsBody_of_isInner (hinner line List.mem_cons_self) htail ?_
        obtain ⟨c, hc, hblank⟩ := hmore
        exact ⟨c, List.mem_append_right _ (List.mem_cons_of_mem _ hc), hblank⟩
      have hnewline : '\n' ∉ line.chars := newline_not_mem_chars [line] line.chars List.mem_cons_self
      have hbelow : below (line :: rest) = '\n' :: line.chars ++ below rest := rfl
      rw [hbelow, List.append_assoc, List.cons_append, bodyLength?_line hnewline hends, hrest, Option.map_some,
        List.length_append, Nat.add_comm]

end Length

/-! ### The bodies of a flat file -/

theorem heads_factoryBody? : Heads factoryWord factoryBody? :=
  ⟨needsKeyword_factoryBody?, List.all_eq_true.1 rfl, by decide⟩

section Bodies

variable {before : Option Char}

/-- What the bodies in a text say about their traits, seen from the given offset. -/
def cutFrom (offset : Nat) (before : Option Char) (text : List Char) : List Finding :=
  (occurrencesFrom factoryBody? 0 offset before text).flatMap cutAt

theorem cutFrom_newline (offset : Nat) (text : List Char) :
    cutFrom offset before ('\n' :: text) = cutFrom (offset + 1) (some '\n') text := by
  rw [cutFrom, occurrencesFrom, restarts_factoryBody?.newline]
  rfl

theorem cutFrom_blank {text : List Char} (htext : ∀ c ∈ text, isBlank c = true) (offset : Nat) :
    cutFrom offset before text = [] := by
  rw [cutFrom, occurrencesFrom_blank (needsKeyword_factoryBody?.quiet (List.all_eq_true.1 rfl) (by decide)) htext]
  rfl

theorem cutFrom_end (closing : Indent) {trailing : List Char} (htrailing : ∀ c ∈ trailing, isBlank c = true)
    (offset : Nat) : cutFrom offset before (closing.chars ++ (endWord ++ trailing)) = [] := by
  have hword : Misses factoryBody? (lastOr before closing.chars) endWord trailing :=
    heads_factoryBody?.word (List.all_eq_true.1 rfl) (quiet_of_blank htrailing).closesWord (by decide)
  have hmisses : Misses factoryBody? before (closing.chars ++ endWord) trailing :=
    (heads_factoryBody?.indent closing).misses_append hword
  rw [cutFrom, ← List.append_assoc, hmisses offset]
  exact cutFrom_blank htrailing _

/-- The first factory of a text, whose body goes on over the given lines. -/
theorem FlatFactory.cutFrom_cons (factory : FlatFactory) {lines : List Line}
    (hinner : ∀ line ∈ lines, line.code.isInner = true) {next : List Char} (hstop : endsBody ('\n' :: next) = true)
    (hmore : ∃ c ∈ next, isBlank c = false) (hbefore : opensLine before = true) (offset : Nat) :
    cutFrom offset before (factory.header.chars ++ (below lines ++ '\n' :: next)) =
      findingsOf (some factory.name.text) (offset + factory.header.chars.length + 1) lines ++
        cutFrom (offset + factory.header.chars.length + (below lines).length + 1) (some '\n') next := by
  have hopens := opensWord_of_opensCode (opensCode_lastOr factory.indent hbefore)
  have hcloses : closesWord (below lines ++ '\n' :: next) = true := by
    cases lines with
    | nil => rfl
    | cons line rest => rfl
  have hbody := factoryBody?_header hopens factory.name.isNameChar_of_mem factory.name.ne_nil hcloses
    (bodyLength?_below hinner hstop hmore)
  have hchars : factoryWord ++ ' ' :: ':' :: (factory.name.chars ++ ([' '] ++ ['d', 'o'] ++
      (below lines ++ '\n' :: next))) = factory.header.code.chars ++ below lines ++ '\n' :: next := by
    simp [FlatFactory.header, Code.chars]
  have hlength : factory.header.code.chars.length = factoryWord.length + 2 + factory.name.chars.length + 3 := by
    simp [FlatFactory.header, Code.chars]
    omega
  have hheader : factory.header.chars.length = factory.indent.chars.length + factory.header.code.chars.length :=
    List.length_append
  rw [hchars] at hbody
  have hne : factory.header.code.chars ++ below lines ≠ [] := by simp [FlatFactory.header, Code.chars, factoryWord]
  have hhit := Yields.hit hbody (by rw [List.length_append, hlength]) hne
  have hfound := (heads_factoryBody?.indent factory.indent).after_miss hhit offset
  have htext : factory.header.chars ++ (below lines ++ '\n' :: next) =
      factory.indent.chars ++ (factory.header.code.chars ++ below lines) ++ '\n' :: next := by
    simp [Line.chars, FlatFactory.header]
  rw [cutFrom, htext, hfound, List.flatMap_append, List.flatMap_cons, List.flatMap_nil, List.append_nil,
    cutAt_below hinner]
  congr 1
  · have hstart : offset + factory.indent.chars.length + (factoryWord.length + 2 + factory.name.chars.length + 3) + 1 =
        offset + factory.header.chars.length + 1 := by omega
    rw [hstart]
    rfl
  · show cutFrom _ _ ('\n' :: next) = _
    rw [cutFrom_newline, List.length_append, List.length_append, hheader]
    congr 1
    omega

theorem endsBody_header (factory : FlatFactory) (text : List Char) :
    endsBody ('\n' :: (factory.header.chars ++ text)) = true := by
  have hchars : factory.header.chars ++ text = factory.indent.chars ++ (factoryWord ++
      ([' ', ':'] ++ (factory.name.chars ++ ([' '] ++ ['d', 'o'])) ++ text)) := by
    simp [FlatFactory.header, Line.chars, Code.chars]
  rw [hchars]
  exact endsBody_factory factory.indent.isIndent_of_mem rfl

theorem FlatFactory.findingsOf_close (factory : FlatFactory) (offset : Nat) :
    findingsOf (some factory.name.text) (offset + factory.header.chars.length + 1)
      (factory.body ++ [⟨factory.closing, .close⟩]) = factory.findings offset := by
  rw [findingsOf_append]
  exact List.append_nil _

section Ends

variable {ends : List Line} (hends : ends = [] ∨ ∃ closing, ends = [⟨closing, .close⟩]) {trailing : List Char}
  (htrailing : ∀ c ∈ trailing, isBlank c = true)

include hends htrailing

theorem endsBody_layOut {factories : List FlatFactory} (hne : factories.flatMap FlatFactory.lines ++ ends ≠ []) :
    endsBody ('\n' :: (layOut (factories.flatMap FlatFactory.lines ++ ends) ++ trailing)) = true ∧
      ∃ c ∈ layOut (factories.flatMap FlatFactory.lines ++ ends) ++ trailing, isBlank c = false := by
  cases factories with
  | nil =>
      rcases hends with rfl | ⟨closing, rfl⟩
      · exact absurd rfl hne
      · have htext : layOut ([].flatMap FlatFactory.lines ++ [⟨closing, .close⟩]) ++ trailing =
            closing.chars ++ (endWord ++ trailing) := List.append_assoc ..
        rw [htext]
        refine ⟨endsBody_end closing.isIndent_of_mem htrailing, 'e', ?_, by decide⟩
        exact List.mem_append_right _ List.mem_cons_self
  | cons factory rest =>
      rw [List.flatMap_cons, FlatFactory.lines, List.cons_append, List.cons_append, layOut_cons, List.append_assoc]
      refine ⟨endsBody_header factory _, 'f', ?_, by decide⟩
      exact List.mem_append_left _ (List.mem_append_right _ List.mem_cons_self)

/-- The bodies of a flat file hold the traits that the walk gives to their factories. -/
theorem cutFrom_layOut (factories : List FlatFactory) (offset : Nat) (hbefore : opensLine before = true) :
    cutFrom offset before (layOut (factories.flatMap FlatFactory.lines ++ ends) ++ trailing) =
      traitsFound offset factories := by
  induction factories generalizing offset before with
  | nil =>
      rcases hends with rfl | ⟨closing, rfl⟩
      · exact cutFrom_blank htrailing offset
      · show cutFrom offset before (closing.chars ++ endWord ++ trailing) = []
        rw [List.append_assoc]
        exact cutFrom_end closing htrailing offset
  | cons factory rest ih =>
      rw [List.flatMap_cons, List.append_assoc, FlatFactory.lines, List.cons_append, layOut_cons, traitsFound]
      by_cases hlater : rest.flatMap FlatFactory.lines ++ ends = []
      · -- The last factory of a file without a block around it: its own `end` is no part of its body.
        obtain rfl : rest = [] := by
          cases rest with
          | nil => rfl
          | cons second others => exact absurd (List.append_eq_nil_iff.1 hlater).1 (List.cons_ne_nil _ _)
        have htext : factory.header.chars ++ below (factory.body ++ [⟨factory.closing, .close⟩] ++
            ([].flatMap FlatFactory.lines ++ ends)) ++ trailing =
            factory.header.chars ++ (below factory.body ++
              '\n' :: (factory.closing.chars ++ (endWord ++ trailing))) := by
          rw [hlater, List.append_nil, below_append]
          simp [below, Line.chars, Code.chars, endWord]
        rw [htext, factory.cutFrom_cons factory.isInner_of_mem
          (endsBody_end factory.closing.isIndent_of_mem htrailing)
          ⟨'e', List.mem_append_right _ List.mem_cons_self, by decide⟩ hbefore, cutFrom_end factory.closing htrailing]
        rfl
      · have hinner : ∀ line ∈ factory.body ++ [⟨factory.closing, .close⟩], line.code.isInner = true := by
          refine List.forall_mem_append.2 ⟨factory.isInner_of_mem, fun line hline => ?_⟩
          rw [List.mem_singleton.1 hline]
          rfl
        have htext : factory.header.chars ++ below (factory.body ++ [⟨factory.closing, .close⟩] ++
            (rest.flatMap FlatFactory.lines ++ ends)) ++ trailing =
            factory.header.chars ++ (below (factory.body ++ [⟨factory.closing, .close⟩]) ++
              '\n' :: (layOut (rest.flatMap FlatFactory.lines ++ ends) ++ trailing)) := by
          obtain ⟨line, others, hlines⟩ := List.exists_cons_of_ne_nil hlater
          rw [hlines, below_append _ (line :: others), below_cons, List.append_assoc, List.append_assoc]
          rfl
        obtain ⟨hstop, hmore⟩ := endsBody_layOut hends htrailing hlater
        rw [htext, factory.cutFrom_cons hinner hstop hmore hbefore, ih _ rfl, factory.findingsOf_close]
        congr 2
        rw [FlatFactory.lines, below_cons, layOut_cons, List.length_cons, List.length_append]
        omega

end Ends

end Bodies

/-! ### The two ways of parsing -/

theorem FlatFile.isPlain_of_mem (flat : FlatFile) : ∀ c ∈ flat.text, isPlain c = true := by
  have hblank : ∀ c, isBlank c = true → isPlain c = true := by
    intro c hc
    refine isPlain_iff.2 ⟨?_, ?_, ?_, ?_, ?_⟩ <;> rintro rfl <;> exact absurd hc (by decide)
  have hinner : ∀ c ∈ flat.inner, isPlain c = true :=
    List.forall_mem_append.2 ⟨isPlain_of_mem_layOut flat.lines, fun c hc => hblank c (flat.isBlank_of_mem c hc)⟩
  unfold FlatFile.text
  cases flat.wrapper with
  | none => exact hinner
  | some wrapper =>
      have hindent : ∀ c ∈ wrapper.indent.chars, isPlain c = true := fun c hc =>
        isPlain_of_isLaidOut (by simp [isLaidOut, wrapper.indent.isIndent_of_mem c hc])
      refine List.forall_mem_append.2 ⟨?_, List.forall_mem_cons.2 ⟨by decide, hinner⟩⟩
      exact List.forall_mem_append.2 ⟨hindent, List.all_eq_true.1 rfl⟩

/-- Bodies and walk find the same traits, each with the same factory. -/
theorem FlatFile.cut_eq_findings (flat : FlatFile) :
    (factoryBodies flat.text).flatMap cutAt = Nesting.findings {} (blockEvents flat.text) := by
  have hinner : (factoryBodies flat.inner).flatMap cutAt = traitsFound 0 flat.factories := by
    refine cutFrom_layOut ?_ flat.isBlank_of_mem flat.factories 0 rfl
    cases flat.wrapper with
    | none => exact Or.inl rfl
    | some wrapper => exact Or.inr ⟨wrapper.closing, rfl⟩
  rw [findings_text]
  unfold FlatFile.text
  cases flat.wrapper with
  | none => exact hinner
  | some wrapper =>
      have hunder : factoryBodies (wrapper.line ++ '\n' :: flat.inner) =
          [] ++ (factoryBodies flat.inner).map (Found.shift (wrapper.line.length + 1)) :=
        restarts_factoryBody?.occurrences_under (heads_factoryBody?.wrapper wrapper rfl)
      simp only [hunder, List.nil_append, List.flatMap_map, cutAt_shift]
      rw [← hinner, List.map_flatMap]

theorem enclosing?_cut (bodies : List (Found FactoryBody)) (offset : Nat) :
    enclosing? (bodies.flatMap cutAt) offset = none := by
  apply List.findSome?_eq_none_iff.2
  intro finding hmem
  obtain ⟨body, -, hbody⟩ := List.mem_flatMap.1 hmem
  obtain ⟨found, -, rfl⟩ := List.mem_map.1 hbody
  rfl

/-- **The two ways of parsing agree on flat files.** Whatever factories are listed, with whatever attributes and traits,
in a block around all of them or not, cutting each factory at the next header gives the same factories with the same
parents and traits, and the same traits, as the walk over blocks, all of them in the same places. -/
theorem parse_regex_eq_scanner (flat : FlatFile) (file : RawText) :
    parse .regex flat.text file = parse .scanner flat.text file := by
  have hmask : mask flat.text = flat.text := mask_of_plain flat.isPlain_of_mem
  have hheader : ∀ index, headerFactory index file [] =
      headerFactory index file (Nesting.findings {} (blockEvents flat.text)) := by
    intro index
    funext found
    rw [← flat.cut_eq_findings]
    simp only [headerFactory, enclosing?_cut]
    rfl
  simp only [parse, hmask, cutTraits_eq, flat.cut_eq_findings, hheader]

-- The text of a flat file.
example :
    let user : Name := ⟨['u'], by decide, List.all_eq_true.1 rfl⟩
    let active : Name := ⟨['v'], by decide, List.all_eq_true.1 rfl⟩
    let age : Identifier := ⟨⟨['a'], by decide, List.all_eq_true.1 rfl⟩, by decide⟩
    let left : Indent := ⟨[], List.all_eq_true.1 rfl⟩
    let right : Indent := ⟨[' '], List.all_eq_true.1 rfl⟩
    let seven : Attr := ⟨right, age, ⟨['7'], List.all_eq_true.1 rfl⟩⟩
    let flat : FlatFile := ⟨some ⟨left, left⟩, [⟨right, user, [.attr seven, .trait right active [seven] right], right⟩],
      ['\n'], List.all_eq_true.1 rfl⟩
    String.ofList flat.text =
      "FactoryBot.define do\n factory :u do\n a \x7b 7 \x7d\n trait :v do\n a \x7b 7 \x7d\n end\n end\nend\n" := by
  decide

end FactoryIndex.Outline
