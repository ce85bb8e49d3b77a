import FactoryIndex.Pattern.BlockToken
import FactoryIndex.Pattern.FactoryHeader
import FactoryIndex.Pattern.TraitHeader

/-!
# Scanning a text piece by piece

What a scan finds in a text can be found piece by piece. `Yields` says what a scan finds in one piece, given the
character before it and the text behind it, and such pieces can be put together. A piece is mostly a word or a
single character: inside a word nothing starts, so for a word it is enough to look at its first character.
-/

namespace FactoryIndex.Pattern

open Text

/-! ### Pieces of a text -/

/-- The last character of a piece of text, or the one before it if the piece is empty. -/
def lastOr (before : Option Char) (piece : List Char) : Option Char := piece.getLast?.or before

@[simp]
theorem lastOr_nil (before : Option Char) : lastOr before [] = before := rfl

@[simp]
theorem lastOr_cons (before : Option Char) (c : Char) (piece : List Char) :
    lastOr before (c :: piece) = lastOr (some c) piece := by
  cases piece with
  | nil => rfl
  | cons d rest => simp [lastOr, List.getLast?_cons]

theorem lastOr_append (before : Option Char) (left right : List Char) :
    lastOr before (left ++ right) = lastOr (lastOr before left) right := by
  induction left generalizing before with
  | nil => rfl
  | cons c rest ih => rw [List.cons_append, lastOr_cons, lastOr_cons, ih]

variable {α : Type} {recognise : Recogniser α} {before : Option Char} {piece left right tail : List Char}
  {founds founds' : Nat → List (Found α)}

/-- A scan that arrives at a piece of text finds the given occurrences in it, and goes on right behind it. -/
def Yields (recognise : Recogniser α) (before : Option Char) (piece tail : List Char)
    (founds : Nat → List (Found α)) : Prop :=
  ∀ offset, occurrencesFrom recognise 0 offset before (piece ++ tail) =
    founds offset ++ occurrencesFrom recognise 0 (offset + piece.length) (lastOr before piece) tail

abbrev Misses (recognise : Recogniser α) (before : Option Char) (piece tail : List Char) : Prop :=
  Yields recognise before piece tail fun _ => []

theorem Yields.congr (h : Yields recognise before piece tail founds)
    (heq : ∀ offset, founds offset = founds' offset) : Yields recognise before piece tail founds' :=
  funext heq ▸ h

theorem Yields.nil (recognise : Recogniser α) (before : Option Char) (tail : List Char) :
    Misses recognise before [] tail := fun _ => rfl

theorem Yields.append (hleft : Yields recognise before left (right ++ tail) founds)
    (hright : Yields recognise (lastOr before left) right tail founds') :
    Yields recognise before (left ++ right) tail fun offset =>
      founds offset ++ founds' (offset + left.length) := by
  intro offset
  rw [List.append_assoc, hleft offset, hright (offset + left.length), List.append_assoc, lastOr_append,
    List.length_append, Nat.add_assoc]

theorem Yields.after_miss (hleft : Misses recognise before left (right ++ tail))
    (hright : Yields recognise (lastOr before left) right tail founds) :
    Yields recognise before (left ++ right) tail fun offset => founds (offset + left.length) :=
  hleft.append hright

theorem Yields.misses_append (hleft : Misses recognise before left (right ++ tail))
    (hright : Misses recognise (lastOr before left) right tail) : Misses recognise before (left ++ right) tail :=
  hleft.append hright

theorem Yields.char {c : Char} (hnone : recognise before (c :: tail) = none) : Misses recognise before [c] tail := by
  intro offset
  rw [List.singleton_append, occurrencesFrom, hnone]
  rfl

theorem occurrencesFrom_length (recognise : Recogniser α) (offset : Nat) (before : Option Char)
    (piece tail : List Char) :
    occurrencesFrom recognise piece.length offset before (piece ++ tail) =
      occurrencesFrom recognise 0 (offset + piece.length) (lastOr before piece) tail := by
  induction piece generalizing offset before with
  | nil => rfl
  | cons c rest ih =>
      rw [List.length_cons, List.cons_append, occurrencesFrom, ih, lastOr_cons]
      congr 1
      omega

theorem Yields.hit {hit : Hit α} (hsome : recognise before (piece ++ tail) = some hit)
    (hlength : hit.length = piece.length) (hne : piece ≠ []) :
    Yields recognise before piece tail fun offset => [⟨offset, hit.length, hit.parts⟩] := by
  intro offset
  cases piece with
  | nil => exact absurd rfl hne
  | cons c rest =>
      rw [List.cons_append] at hsome ⊢
      rw [occurrencesFrom, hsome]
      have hrest : hit.length - 1 = rest.length := by
        rw [hlength, List.length_cons]
        omega
      simp only [hrest, occurrencesFrom_length, List.singleton_append, lastOr_cons, List.length_cons]
      congr 2
      omega

/-! ### Words -/

def StaysOutside (recognise : Recogniser α) : Prop :=
  ∀ before c text, Option.any isWordChar before = true → isNameChar c = true → recognise before (c :: text) = none

theorem Yields.inside (hstays : StaysOutside recognise) (hpiece : ∀ c ∈ piece, isNameChar c = true)
    (hbefore : Option.any isWordChar before = true) : Misses recognise before piece tail := by
  induction piece generalizing before with
  | nil => exact Yields.nil recognise before tail
  | cons c rest ih =>
      have hc := hpiece c List.mem_cons_self
      have hchar : Misses recognise before [c] (rest ++ tail) := Yields.char (hstays before c _ hbefore hc)
      refine hchar.misses_append (ih (fun d hd => hpiece d (List.mem_cons_of_mem c hd)) ?_)
      exact isWordChar_of_isNameChar hc

/-- Nothing is found in a word if nothing starts with its first character. -/
theorem Yields.word (hstays : StaysOutside recognise) (hpiece : ∀ c ∈ piece, isNameChar c = true)
    (hnone : recognise before (piece ++ tail) = none) : Misses recognise before piece tail := by
  cases piece with
  | nil => exact Yields.nil recognise before tail
  | cons c rest =>
      have hchar : Misses recognise before [c] (rest ++ tail) := Yields.char hnone
      refine hchar.misses_append (Yields.inside hstays (fun d hd => hpiece d (List.mem_cons_of_mem c hd)) ?_)
      exact isWordChar_of_isNameChar (hpiece c List.mem_cons_self)

theorem after?_eq_some_iff {start text rest : List Char} : after? start text = some rest ↔ text = start ++ rest := by
  induction start generalizing text with
  | nil => simp [after?]
  | cons c start ih =>
      cases text with
      | nil => simp [after?]
      | cons d text =>
          rw [after?]
          by_cases hcd : c = d
          · rw [if_pos hcd, ih, List.cons_append, List.cons.injEq]
            simp [hcd]
          · rw [if_neg hcd, List.cons_append, List.cons.injEq]
            simp [Ne.symm hcd]

section Words

variable {p : Char → Bool} {word word' tail' : List Char}

theorem takeWhile_word (hword : ∀ c ∈ word, p c = true) (htail : Option.any p tail.head? = false) :
    (word ++ tail).takeWhile p = word := by
  rw [List.takeWhile_append_of_pos hword]
  cases tail with
  | nil => simp
  | cons c rest =>
      have hc : p c = false := htail
      simp [hc]

theorem dropWhile_word (hword : ∀ c ∈ word, p c = true) (htail : Option.any p tail.head? = false) :
    (word ++ tail).dropWhile p = tail := by
  rw [List.dropWhile_append_of_pos hword]
  cases tail with
  | nil => simp
  | cons c rest =>
      have hc : p c = false := htail
      simp [hc]

theorem word_unique (hword : ∀ c ∈ word, p c = true) (htail : Option.any p tail.head? = false)
    (hword' : ∀ c ∈ word', p c = true) (htail' : Option.any p tail'.head? = false)
    (heq : word ++ tail = word' ++ tail') : word = word' ∧ tail = tail' := by
  have htake := congrArg (List.takeWhile p) heq
  have hdrop := congrArg (List.dropWhile p) heq
  rw [takeWhile_word hword htail, takeWhile_word hword' htail'] at htake
  rw [dropWhile_word hword htail, dropWhile_word hword' htail'] at hdrop
  exact ⟨htake, hdrop⟩

end Words

end FactoryIndex.Pattern
