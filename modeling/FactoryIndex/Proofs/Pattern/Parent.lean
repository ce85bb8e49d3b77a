import FactoryIndex.Proofs.Pattern.Header

/-!
# The parent of a header

Behind its name a header is searched for a parent, up to the end of its line, or further if lines end in commas. What
is found is the first parent clause in that stretch of text, whatever else stands before it: the search does not know
where a header ends. `FirstParent` says so without the search. Without its parent, a header is no more than the keyword
and a name.
-/

namespace FactoryIndex.Pattern

open Text

variable {before : Option Char} {text : List Char} {symbol : Symbol}

/-! ### Stretches that a header may run over -/

/-- A text that ends in a comma, with nothing but spaces and tabs behind it. -/
def endsInComma (text : List Char) : Bool := (text.reverse.dropWhile isIndent).head? == some ','

/-- A stretch behind a name that is searched for a parent: whatever line ends in it ends in a comma. -/
def InReach (gap : List Char) : Prop := ∀ line rest, gap = line ++ '\n' :: rest → endsInComma line = true

theorem endsInComma_concat (text : List Char) (c : Char) :
    endsInComma (text ++ [c]) = (c == ',' || (endsInComma text && isIndent c)) := by
  unfold endsInComma
  rw [List.reverse_concat, List.dropWhile_cons]
  by_cases hindent : isIndent c = true
  · have hne : c ≠ ',' := by
      rintro rfl
      exact absurd hindent (by decide)
    rw [if_pos hindent, hindent, Bool.and_true, beq_false_of_ne hne, Bool.false_or]
  · rw [if_neg hindent, Bool.eq_false_iff.2 hindent, Bool.and_false, Bool.or_false]
    rfl

theorem inReach_nil : InReach [] := by
  intro line rest heq
  simp at heq

theorem InReach.concat {gap : List Char} (h : InReach gap) {c : Char} (hc : c = '\n' → endsInComma gap = true) :
    InReach (gap ++ [c]) := by
  intro line rest heq
  rcases List.eq_nil_or_concat rest with rfl | ⟨rest, d, rfl⟩
  · obtain ⟨rfl, hlast⟩ := List.append_inj' heq rfl
    exact hc (List.cons.inj hlast).1
  · rw [List.concat_eq_append, ← List.cons_append, ← List.append_assoc] at heq
    exact h line rest (List.append_inj' heq rfl).1

/-! ### The first parent -/

def FirstParent (before : Option Char) (text : List Char) (parent : Symbol) : Prop :=
  ∃ gap clause symbol, text = gap ++ clause ∧ InReach gap ∧ parentClause? (lastOr before gap) clause = some symbol ∧
    parent = symbol.shift gap.length ∧
    ∀ earlier later, text = earlier ++ later → earlier.length < gap.length →
      parentClause? (lastOr before earlier) later = none

theorem FirstParent.exists_name {parent : Symbol} (h : FirstParent before text parent) :
    ∃ front rest, text = front ++ (parent.name ++ rest) ∧ front.length = parent.start ∧ parent.Named := by
  obtain ⟨gap, clause, symbol, rfl, -, hclause, rfl, -⟩ := h
  obtain ⟨front, rest, rfl, hstart, hnamed⟩ := parentClause?_eq_some hclause
  refine ⟨gap ++ front, rest, (List.append_assoc ..).symm, ?_, hnamed⟩
  rw [List.length_append, hstart, Symbol.shift]

theorem Symbol.shift_zero (symbol : Symbol) : symbol.shift 0 = symbol := by
  rw [shift, Nat.zero_add]

theorem Symbol.shift_shift (symbol : Symbol) (m n : Nat) : (symbol.shift n).shift m = symbol.shift (m + n) := by
  rw [shift, shift, shift, Nat.add_assoc]

/-- The search behind some text that has been searched already. -/
theorem parentIn?_sound {prior : List Char} {offset : Nat} {parent : Symbol} (hprior : InReach prior)
    (h : parentIn? offset (endsInComma prior) before text = some parent) :
    ∃ gap clause symbol, text = gap ++ clause ∧ InReach (prior ++ gap) ∧
      parentClause? (lastOr before gap) clause = some symbol ∧ parent = symbol.shift (offset + gap.length) ∧
      ∀ earlier later, text = earlier ++ later → earlier.length < gap.length →
        parentClause? (lastOr before earlier) later = none := by
  induction text generalizing prior offset before with
  | nil => cases h
  | cons c rest ih =>
      rw [parentIn?] at h
      split at h
      · next symbol hclause =>
        obtain rfl := Option.some.inj h
        refine ⟨[], c :: rest, symbol, rfl, by rwa [List.append_nil], hclause, rfl, fun _ _ _ hlt => ?_⟩
        exact absurd hlt (Nat.not_lt_zero _)
      · next hnone =>
        -- No line ends here, or it ends in a comma, and then the search goes on behind one more character.
        obtain ⟨hline, hrest⟩ : (c = '\n' → endsInComma prior = true) ∧
            parentIn? (offset + 1) (endsInComma (prior ++ [c])) (some c) rest = some parent := by
          rw [endsInComma_concat]
          split at h
          · next hc =>
            subst hc
            split at h
            · next hcomma => exact ⟨fun _ => hcomma, by rwa [hcomma]⟩
            · cases h
          · next hc => exact ⟨fun heq => absurd heq hc, h⟩
        obtain ⟨gap, clause, symbol, rfl, hreach, hclause, rfl, hfirst⟩ := ih (hprior.concat hline) hrest
        refine ⟨c :: gap, clause, symbol, rfl, ?_, by rwa [lastOr_cons], ?_, fun earlier later heq hlt => ?_⟩
        · rwa [List.append_assoc, List.singleton_append] at hreach
        · rw [List.length_cons, Nat.add_assoc, Nat.add_comm 1]
        · cases earlier with
          | nil =>
              obtain rfl : c :: (gap ++ clause) = later := heq
              exact hnone
          | cons d earlier =>
              obtain ⟨rfl, hrest⟩ := List.cons.inj heq
              rw [lastOr_cons]
              exact hfirst earlier later hrest (Nat.lt_of_succ_lt_succ hlt)

theorem parentIn?_complete {prior gap clause : List Char} {offset : Nat} (hreach : InReach (prior ++ gap))
    (hclause : parentClause? (lastOr before gap) clause = some symbol)
    (hfirst : ∀ earlier later, gap ++ clause = earlier ++ later → earlier.length < gap.length →
      parentClause? (lastOr before earlier) later = none) :
    parentIn? offset (endsInComma prior) before (gap ++ clause) = some (symbol.shift (offset + gap.length)) := by
  induction gap generalizing prior offset before with
  | nil =>
      cases clause with
      | nil =>
          obtain ⟨front, rest, htext, -, hne, -⟩ := parentClause?_eq_some hclause
          simp only [List.nil_eq, List.append_eq_nil_iff] at htext
          exact absurd htext.2.1 hne
      | cons c rest =>
          rw [lastOr_nil] at hclause
          rw [List.nil_append, parentIn?, hclause]
          rfl
  | cons c gap ih =>
      have hnone : parentClause? before (c :: (gap ++ clause)) = none := hfirst [] _ rfl (Nat.succ_pos _)
      have hline : c = '\n' → endsInComma prior = true := by
        rintro rfl
        exact hreach prior gap rfl
      have hrest : parentIn? (offset + 1) (endsInComma (prior ++ [c])) (some c) (gap ++ clause) =
          some (symbol.shift (offset + (c :: gap).length)) := by
        rw [List.length_cons, Nat.add_comm gap.length, ← Nat.add_assoc]
        refine ih ?_ (by rwa [lastOr_cons] at hclause) fun earlier later heq hlt => ?_
        · rwa [List.append_assoc, List.singleton_append]
        · have hnone := hfirst (c :: earlier) later (by rw [List.cons_append, heq, List.cons_append])
            (Nat.succ_lt_succ hlt)
          rwa [lastOr_cons] at hnone
      rw [endsInComma_concat] at hrest
      rw [List.cons_append, parentIn?, hnone]
      by_cases hc : c = '\n'
      · rw [hline hc] at hrest ⊢
        subst hc
        exact hrest
      · simp only [if_neg hc]
        exact hrest

theorem parentIn?_eq_some_iff {offset : Nat} {parent : Symbol} :
    parentIn? offset false before text = some parent ↔
      ∃ first, FirstParent before text first ∧ parent = first.shift offset := by
  constructor
  · intro h
    obtain ⟨gap, clause, symbol, htext, hreach, hclause, rfl, hfirst⟩ := parentIn?_sound inReach_nil h
    exact ⟨symbol.shift gap.length, ⟨gap, clause, symbol, htext, hreach, hclause, rfl, hfirst⟩,
      (Symbol.shift_shift ..).symm⟩
  · rintro ⟨first, ⟨gap, clause, symbol, rfl, hreach, hclause, rfl, hfirst⟩, rfl⟩
    rw [Symbol.shift_shift]
    exact parentIn?_complete (show InReach ([] ++ gap) from hreach) hclause hfirst

/-! ### Headers without their parents -/

def plainHeader? : Recogniser Symbol := fun before text =>
  match keywordSymbol? factoryWord before text with
  | some (name, rest) => if closesWord rest then some ⟨name.stop, name⟩ else none
  | none => none

/-- The places of a text that read like the start of a factory header, from left to right, none overlapping another. -/
def plainHeaders (text : List Char) : List (Found Symbol) := occurrences plainHeader? text

def Found.plain (found : Found FactoryHeader) : Found Symbol := ⟨found.start, found.parts.name.stop, found.parts.name⟩

/-- A header is recognised by its keyword and its name alone. -/
theorem plainHeader?_eq (before : Option Char) (text : List Char) :
    plainHeader? before text = (factoryHeader? before text).map fun hit => ⟨hit.parts.name.stop, hit.parts.name⟩ := by
  rw [plainHeader?, factoryHeader?]
  cases keywordSymbol? factoryWord before text with
  | none => rfl
  | some found =>
      cases hcloses : closesWord found.2 with
      | false => simp only [hcloses, Bool.false_eq_true, if_false, Option.map_none]
      | true => simp only [hcloses, if_true, Option.map_some]

theorem factoryHeader?_eq_some {hit : Hit FactoryHeader} (h : factoryHeader? before text = some hit) :
    ∃ rest, keywordSymbol? factoryWord before text = some (hit.parts.name, rest) ∧
      hit.parts.parent = parentIn? hit.parts.name.stop false hit.parts.name.name.getLast? rest ∧
      hit.length = (hit.parts.parent.getD hit.parts.name).stop := by
  unfold factoryHeader? at h
  split at h
  · next name rest hname =>
    split at h
    · obtain rfl := Option.some.inj h
      exact ⟨rest, hname, rfl, rfl⟩
    · cases h
  · cases h

section Occurrences

variable {offset : Nat} {found : Found FactoryHeader} {header : Found Symbol}

theorem Occurs.plain (h : Occurs factoryHeader? offset before text found) :
    Occurs plainHeader? offset before text found.plain := by
  obtain ⟨left, right, htext, hne, hstart, hsome⟩ := h
  refine ⟨left, right, htext, hne, hstart, ?_⟩
  rw [plainHeader?_eq, hsome]
  rfl

theorem Occurs.exists_header (h : Occurs plainHeader? offset before text header) :
    ∃ found, Occurs factoryHeader? offset before text found ∧ found.plain = header := by
  obtain ⟨left, right, htext, hne, hstart, hsome⟩ := h
  rw [plainHeader?_eq] at hsome
  obtain ⟨hit, hhit, heq⟩ := Option.map_eq_some_iff.1 hsome
  obtain ⟨hlength, hparts⟩ := Hit.mk.inj heq
  refine ⟨⟨header.start, hit.length, hit.parts⟩, ⟨left, right, htext, hne, hstart, hhit⟩, ?_⟩
  rw [Found.plain, hlength, hparts]

/-- The parent of a header is the first one in reach of its name, and with it the header ends. -/
theorem Occurs.parent_eq_some_iff (h : Occurs factoryHeader? 0 none text found) {parent : Symbol} :
    found.parts.parent = some parent ↔
      ∃ first, FirstParent (text.take found.plain.stop).getLast? (text.drop found.plain.stop) first ∧
        parent = first.shift found.plain.length := by
  obtain ⟨left, right, rfl, -, hstart, hsome⟩ := h
  obtain ⟨rest, hname, hparent, -⟩ := factoryHeader?_eq_some hsome
  obtain ⟨-, blanks, -, -, rfl, hsymbol, hne, -⟩ := keywordSymbol?_eq_some hname
  simp only at hparent hsymbol hne
  have hsplit : left ++ (factoryWord ++ (blanks ++ ':' :: (found.parts.name.name ++ rest))) =
      left ++ (factoryWord ++ (blanks ++ ':' :: found.parts.name.name)) ++ rest := by
    simp only [List.append_assoc, List.cons_append]
  have hlength : (left ++ (factoryWord ++ (blanks ++ ':' :: found.parts.name.name))).length = found.plain.stop := by
    simp only [List.length_append, List.length_cons, Found.plain, Found.stop, Symbol.stop, hstart, hsymbol]
    omega
  have hlast : (left ++ (factoryWord ++ (blanks ++ ':' :: found.parts.name.name))).getLast? =
      found.parts.name.name.getLast? := by
    simp [List.getLast?_append, List.getLast?_cons, List.getLast?_eq_some_getLast hne]
  rw [hsplit, List.take_left' hlength, List.drop_left' hlength, hlast, hparent]
  exact parentIn?_eq_some_iff

theorem Occurs.stop_eq (h : Occurs factoryHeader? 0 none text found) :
    found.stop = found.start + (found.parts.parent.getD found.parts.name).stop := by
  obtain ⟨left, right, -, -, -, hsome⟩ := h
  obtain ⟨rest, -, -, hlength⟩ := factoryHeader?_eq_some hsome
  rw [Found.stop, show found.length = _ from hlength]

theorem Occurs.not_inside_name {front name rest : List Char} (hname : ∀ c ∈ name, isNameChar c = true)
    (h : Occurs plainHeader? 0 none (front ++ (name ++ rest)) header) :
    ¬(front.length < header.start ∧ header.start < front.length + name.length) := by
  rintro ⟨hleft, hright⟩
  obtain ⟨left, right, htext, -, hstart, hsome⟩ := h
  have hlength : left.length = header.start := by omega
  -- The text up to the header ends with a piece of the name.
  have hpiece : left = front ++ name.take (header.start - front.length) := by
    have htake : left = (front ++ (name ++ rest)).take header.start := by rw [htext, List.take_left' hlength]
    rw [htake, List.take_append, List.take_of_length_le (Nat.le_of_lt hleft), List.take_append_of_le_length (by omega)]
  have hne : name.take (header.start - front.length) ≠ [] := by
    intro hnil
    rw [hnil, List.append_nil] at hpiece
    rw [hpiece] at hlength
    omega
  have hword : opensWord (lastOr none left) = false := by
    rw [hpiece, lastOr_append, lastOr, List.getLast?_eq_some_getLast hne]
    have hmem := List.mem_of_mem_take (List.getLast_mem hne)
    simp [opensWord, isWordChar_of_isNameChar (hname _ hmem)]
  unfold plainHeader? at hsome
  split at hsome
  · next hkeyword =>
    rw [(keywordSymbol?_eq_some hkeyword).1] at hword
    cases hword
  · cases hsome

theorem FirstParent.not_inside {place : Nat} {first : Symbol}
    (h : FirstParent (text.take place).getLast? (text.drop place) first) (hplace : place ≤ text.length)
    (hheader : Occurs plainHeader? 0 none text header) :
    ¬(place + first.start < header.start ∧ header.start < place + first.stop) := by
  obtain ⟨front, rest, hdrop, hfront, -, hname⟩ := h.exists_name
  have hsplit : text = (text.take place ++ front) ++ (first.name ++ rest) := by
    rw [List.append_assoc, ← hdrop, List.take_append_drop]
  have hlength : (text.take place ++ front).length = place + first.start := by
    rw [List.length_append, List.length_take_of_le hplace, hfront]
  rw [hsplit] at hheader
  have hnot := hheader.not_inside_name hname
  rwa [hlength, Nat.add_assoc] at hnot

end Occurrences

end FactoryIndex.Pattern
