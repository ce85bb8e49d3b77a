import FactoryIndex.Proofs.Pattern.Keyword

/-!
# Occurrences

Every occurrence that a scan finds is one that its pattern recognises at that place, and the scan misses only those
that start inside another one. Where the pattern looks at nothing behind a piece of text, a scan of a longer text finds
in the piece what it finds in the piece alone. With a newline behind the piece it then starts anew, since the patterns
here take the start of a line for the start of a text.
-/

namespace FactoryIndex.Pattern

open Text

/-! ### What a scan finds -/

/-- The same occurrence seen from `n` characters further left. -/
def Found.shift {α : Type} (n : Nat) (found : Found α) : Found α := { found with start := n + found.start }

section Scan

variable {α : Type} {recognise : Recogniser α} {before : Option Char} {text tail : List Char} {skip offset : Nat}
  {found : Found α}

/-- An occurrence is recognised at its place in a text whose first character has the given offset. -/
def Occurs (recognise : Recogniser α) (offset : Nat) (before : Option Char) (text : List Char) (found : Found α) :
    Prop :=
  ∃ left right, text = left ++ right ∧ right ≠ [] ∧ found.start = offset + left.length ∧
    recognise (lastOr before left) right = some ⟨found.length, found.parts⟩

theorem Occurs.cons {c : Char} (h : Occurs recognise (offset + 1) (some c) text found) :
    Occurs recognise offset before (c :: text) found := by
  obtain ⟨left, right, rfl, hne, hstart, hsome⟩ := h
  refine ⟨c :: left, right, rfl, hne, ?_, by rwa [lastOr_cons]⟩
  rw [List.length_cons]
  omega

theorem occurs_of_mem_occurrencesFrom (hmem : found ∈ occurrencesFrom recognise skip offset before text) :
    Occurs recognise offset before text found := by
  induction text generalizing skip offset before with
  | nil => exact absurd hmem List.not_mem_nil
  | cons c rest ih =>
      cases skip with
      | succ skip => exact (ih hmem).cons
      | zero =>
          rw [occurrencesFrom] at hmem
          split at hmem
          · next hit hhit =>
            rcases List.mem_cons.1 hmem with rfl | hmem
            · exact ⟨[], c :: rest, rfl, List.cons_ne_nil c rest, rfl, hhit⟩
            · exact (ih hmem).cons
          · exact (ih hmem).cons

theorem occurs_of_mem_occurrences (hmem : found ∈ occurrences recognise text) : Occurs recognise 0 none text found :=
  occurs_of_mem_occurrencesFrom hmem

theorem Occurs.start_lt (h : Occurs recognise offset before text found) : found.start < offset + text.length := by
  obtain ⟨left, right, rfl, hne, hstart, -⟩ := h
  have hpos := List.length_pos_iff.2 hne
  rw [List.length_append]
  omega

theorem Occurs.le_start (h : Occurs recognise offset before text found) : offset ≤ found.start := by
  obtain ⟨left, right, -, -, hstart, -⟩ := h
  omega

theorem occurs_iff : Occurs recognise 0 none text found ↔ found.start < text.length ∧
    recognise (text.take found.start).getLast? (text.drop found.start) = some ⟨found.length, found.parts⟩ := by
  have hlast : ∀ left : List Char, lastOr none left = left.getLast? := fun left => Option.or_none
  constructor
  · intro h
    have hlt := h.start_lt
    obtain ⟨left, right, rfl, -, hstart, hsome⟩ := h
    rw [Nat.zero_add] at hstart hlt
    rw [hlast] at hsome
    rw [List.take_left' hstart.symm, List.drop_left' hstart.symm]
    exact ⟨hlt, hsome⟩
  · rintro ⟨hlt, hsome⟩
    refine ⟨text.take found.start, text.drop found.start, (List.take_append_drop _ _).symm, ?_, ?_, by rwa [hlast]⟩
    · rw [ne_eq, List.drop_eq_nil_iff]
      omega
    · rw [List.length_take_of_le (Nat.le_of_lt hlt), Nat.zero_add]

theorem Occurs.eq_of_start_eq {other : Found α} (h : Occurs recognise offset before text found)
    (h' : Occurs recognise offset before text other) (hstart : found.start = other.start) : found = other := by
  obtain ⟨left, right, rfl, -, hleft, hsome⟩ := h
  obtain ⟨left', right', htext, -, hleft', hsome'⟩ := h'
  obtain ⟨rfl, rfl⟩ := List.append_inj htext (by omega)
  obtain ⟨start, length, parts⟩ := found
  obtain ⟨start', length', parts'⟩ := other
  obtain ⟨rfl, rfl⟩ := Hit.mk.inj (Option.some.inj (hsome.symm.trans hsome'))
  rw [show start = start' from hstart]

theorem add_le_start_of_mem_occurrencesFrom (hmem : found ∈ occurrencesFrom recognise skip offset before text) :
    offset + skip ≤ found.start := by
  induction text generalizing skip offset before with
  | nil => exact absurd hmem List.not_mem_nil
  | cons c rest ih =>
      cases skip with
      | succ skip =>
          have hle := ih hmem
          omega
      | zero => exact (occurs_of_mem_occurrencesFrom hmem).le_start

/-- Occurrences come in the order of the text, and none starts before the one in front of it has ended. -/
theorem pairwise_occurrencesFrom (recognise : Recogniser α) (skip offset : Nat) (before : Option Char)
    (text : List Char) :
    (occurrencesFrom recognise skip offset before text).Pairwise fun a b => a.start < b.start ∧ a.stop ≤ b.start := by
  induction text generalizing skip offset before with
  | nil => exact List.Pairwise.nil
  | cons c rest ih =>
      cases skip with
      | succ skip => exact ih skip (offset + 1) (some c)
      | zero =>
          rw [occurrencesFrom]
          split
          · next hit _ =>
            refine List.Pairwise.cons (fun found hmem => ?_) (ih _ (offset + 1) (some c))
            have hle := add_le_start_of_mem_occurrencesFrom hmem
            show offset < found.start ∧ offset + hit.length ≤ found.start
            omega
          · exact ih 0 (offset + 1) (some c)

theorem pairwise_occurrences (recognise : Recogniser α) (text : List Char) :
    (occurrences recognise text).Pairwise fun a b => a.start < b.start ∧ a.stop ≤ b.start :=
  pairwise_occurrencesFrom recognise 0 0 none text

theorem stop_le_start_of_mem {other : Found α} (hmem : found ∈ occurrences recognise text)
    (hother : other ∈ occurrences recognise text) (hlt : found.start < other.start) : found.stop ≤ other.start := by
  obtain ⟨front, back, heq⟩ := List.append_of_mem hmem
  have hpairwise := pairwise_occurrences recognise text
  rw [heq] at hother hpairwise
  obtain ⟨-, hback, hfront⟩ := List.pairwise_append.1 hpairwise
  rcases List.mem_append.1 hother with hother | hother
  · have hbefore := (hfront other hother found List.mem_cons_self).1
    omega
  · rcases List.mem_cons.1 hother with rfl | hother
    · omega
    · exact ((List.pairwise_cons.1 hback).1 other hother).2

theorem Occurs.mem_occurrencesFrom_or_covered (h : Occurs recognise offset before text found)
    (hskip : offset + skip ≤ found.start) :
    found ∈ occurrencesFrom recognise skip offset before text ∨
      ∃ other ∈ occurrencesFrom recognise skip offset before text,
        other.start < found.start ∧ found.start < other.stop := by
  induction text generalizing skip offset before with
  | nil =>
      have hlt := h.start_lt
      rw [List.length_nil] at hlt
      omega
  | cons c rest ih =>
      -- Past the first place the occurrence is one of the rest.
      have hrest : offset < found.start → Occurs recognise (offset + 1) (some c) rest found := by
        intro hlt
        obtain ⟨left, right, htext, hne, hstart, hsome⟩ := h
        cases left with
        | nil =>
            rw [List.length_nil] at hstart
            omega
        | cons d left =>
            obtain ⟨rfl, rfl⟩ := List.cons.inj htext
            rw [List.length_cons] at hstart
            exact ⟨left, right, rfl, hne, by omega, by rwa [lastOr_cons] at hsome⟩
      cases skip with
      | succ skip => exact ih (hrest (by omega)) (by omega)
      | zero =>
          rw [occurrencesFrom]
          by_cases hlt : offset < found.start
          · split
            · next hit _ =>
              by_cases hinside : found.start < offset + hit.length
              · exact Or.inr ⟨_, List.mem_cons_self, hlt, hinside⟩
              · have hbehind : offset + 1 + (hit.length - 1) ≤ found.start := by omega
                rcases ih (hrest hlt) hbehind with hmem | ⟨other, hmem, hcovered⟩
                · exact Or.inl (List.mem_cons_of_mem _ hmem)
                · exact Or.inr ⟨other, List.mem_cons_of_mem _ hmem, hcovered⟩
            · exact ih (hrest hlt) (by omega)
          · have hstart : found.start = offset := by omega
            obtain ⟨left, right, htext, hne, hleft, hsome⟩ := h
            obtain rfl : left = [] := List.length_eq_zero_iff.1 (by omega)
            rw [lastOr_nil, ← show c :: rest = right from htext] at hsome
            rw [hsome, ← hstart]
            exact Or.inl List.mem_cons_self

/-- A scan misses an occurrence only if it starts inside one that the scan has found. -/
theorem Occurs.mem_or_covered (h : Occurs recognise 0 none text found) :
    found ∈ occurrences recognise text ∨
      ∃ other ∈ occurrences recognise text, other.start < found.start ∧ found.start < other.stop :=
  h.mem_occurrencesFrom_or_covered (Nat.zero_le _)

theorem occurrencesFrom_shift (recognise : Recogniser α) (skip n offset : Nat) (before : Option Char)
    (text : List Char) :
    occurrencesFrom recognise skip (n + offset) before text =
      (occurrencesFrom recognise skip offset before text).map (Found.shift n) := by
  induction text generalizing skip offset before with
  | nil => rfl
  | cons c rest ih =>
      cases skip with
      | succ skip => exact ih skip (offset + 1) (some c)
      | zero =>
          rw [occurrencesFrom, occurrencesFrom]
          split
          · exact congrArg _ (ih _ (offset + 1) (some c))
          · exact ih 0 (offset + 1) (some c)

/-! ### Scanning across a seam -/

/-- No occurrence is longer than the text from its place on. -/
def Fits (recognise : Recogniser α) : Prop :=
  ∀ before text hit, recognise before text = some hit → hit.length ≤ text.length

/-- What a pattern says about the places of a text does not depend on what stands behind the text. -/
def Local (recognise : Recogniser α) (before : Option Char) (text tail : List Char) : Prop :=
  ∀ left right, text = left ++ right → right ≠ [] →
    recognise (lastOr before left) (right ++ tail) = recognise (lastOr before left) right

theorem Local.of_cons {c : Char} (h : Local recognise before (c :: text) tail) :
    Local recognise (some c) text tail := by
  intro left right htext hne
  have hplace := h (c :: left) right (htext ▸ rfl) hne
  rwa [lastOr_cons] at hplace

theorem occurrencesFrom_append (hfits : Fits recognise) (hlocal : Local recognise before text tail)
    (hskip : skip ≤ text.length) (offset : Nat) :
    occurrencesFrom recognise skip offset before (text ++ tail) =
      occurrencesFrom recognise skip offset before text ++
        occurrencesFrom recognise 0 (offset + text.length) (lastOr before text) tail := by
  induction text generalizing skip offset before with
  | nil =>
      obtain rfl : skip = 0 := Nat.le_zero.1 hskip
      rfl
  | cons c rest ih =>
      have hrest : ∀ {skip : Nat}, skip ≤ rest.length →
          occurrencesFrom recognise skip (offset + 1) (some c) (rest ++ tail) =
            occurrencesFrom recognise skip (offset + 1) (some c) rest ++
              occurrencesFrom recognise 0 (offset + (c :: rest).length) (lastOr before (c :: rest)) tail := by
        intro skip hle
        rw [ih hlocal.of_cons hle, lastOr_cons, List.length_cons, Nat.add_assoc, Nat.add_comm 1]
      cases skip with
      | succ skip => exact hrest (Nat.le_of_succ_le_succ hskip)
      | zero =>
          have hplace : recognise before (c :: (rest ++ tail)) = recognise before (c :: rest) :=
            hlocal [] (c :: rest) rfl (List.cons_ne_nil c rest)
          rw [List.cons_append, occurrencesFrom, occurrencesFrom, hplace]
          cases hhit : recognise before (c :: rest) with
          | none => exact hrest (Nat.zero_le _)
          | some hit =>
              have hlength := hfits before (c :: rest) hit hhit
              rw [List.length_cons] at hlength
              exact congrArg _ (hrest (show hit.length - 1 ≤ rest.length by omega))

theorem yields_of_local (hfits : Fits recognise) (hlocal : Local recognise before text tail) :
    Yields recognise before text tail fun offset => occurrencesFrom recognise 0 offset before text :=
  occurrencesFrom_append hfits hlocal (Nat.zero_le _)

/-- A pattern that can be scanned line by line: nothing starts at a newline, and the start of a line is to it like the
start of a text. -/
structure Restarts (recognise : Recogniser α) : Prop where
  newline : ∀ before tail, recognise before ('\n' :: tail) = none
  lineStart : ∀ text, recognise (some '\n') text = recognise none text

theorem Restarts.occurrencesFrom_lineStart (h : Restarts recognise) (offset : Nat) (text : List Char) :
    occurrencesFrom recognise 0 offset (some '\n') text = occurrencesFrom recognise 0 offset none text := by
  cases text with
  | nil => rfl
  | cons c rest => rw [occurrencesFrom, occurrencesFrom, h.lineStart]

/-- What is found in two texts, one under the other. -/
theorem Restarts.occurrences_under (h : Restarts recognise) {founds : Nat → List (Found α)}
    (hyields : Yields recognise none text ('\n' :: tail) founds) :
    occurrences recognise (text ++ '\n' :: tail) =
      founds 0 ++ (occurrences recognise tail).map (Found.shift (text.length + 1)) := by
  rw [occurrences, hyields 0, occurrencesFrom, h.newline]
  simp only [h.occurrencesFrom_lineStart]
  rw [Nat.zero_add, ← Nat.add_zero (text.length + 1), occurrencesFrom_shift]
  rfl

end Scan

end FactoryIndex.Pattern
