import FactoryIndex.Text.Character

/-!
# Cutting texts

Texts are scanned as lists of characters, so that an offset counts characters. This module cuts such a
text at a separator and trims its ends. Cutting loses nothing: joining the pieces with the separator
gives the text back.
-/

namespace FactoryIndex.Text

variable {α : Type} [DecidableEq α]

/-- The pieces between the separators; always at least one, and none holds the separator. -/
def split (separator : α) : List α → List (List α)
  | [] => [[]]
  | c :: rest =>
    if c = separator then [] :: split separator rest
    else match split separator rest with
      | [] => [[c]]
      | piece :: pieces => (c :: piece) :: pieces

/-- The pieces with the separator between them. -/
def join (separator : α) : List (List α) → List α
  | [] => []
  | [piece] => piece
  | piece :: pieces => piece ++ separator :: join separator pieces

theorem split_ne_nil (separator : α) (text : List α) : split separator text ≠ [] := by
  cases text with
  | nil => simp [split]
  | cons c rest =>
    unfold split
    split
    · simp
    · split <;> simp

theorem join_split (separator : α) (text : List α) : join separator (split separator text) = text := by
  induction text with
  | nil => rfl
  | cons c rest ih =>
    have hne := split_ne_nil separator rest
    unfold split
    split
    · next h =>
      cases hs : split separator rest with
      | nil => exact absurd hs hne
      | cons piece pieces => rw [hs] at ih; simp [join, ih, h]
    · cases hs : split separator rest with
      | nil => exact absurd hs hne
      | cons piece pieces =>
        rw [hs] at ih
        cases pieces with
        | nil => simpa [join] using ih
        | cons second others => simpa [join] using ih

/-- The lines of a text, without their newlines. -/
def lines (text : List Char) : List (List Char) := split '\n' text

def unlines (pieces : List (List Char)) : List Char := join '\n' pieces

theorem unlines_lines (text : List Char) : unlines (lines text) = text := join_split '\n' text

def trimRight (text : List Char) : List Char := (text.reverse.dropWhile isBlank).reverse

def trim (text : List Char) : List Char := trimRight (text.dropWhile isBlank)

/-- Whether the first list opens the second. -/
def startsWith (start : List Char) (text : List Char) : Bool := start.isPrefixOf text

/-- What follows `start` in a text that opens with it. -/
def after? {α : Type} [DecidableEq α] : (start : List α) → List α → Option (List α)
  | [], text => some text
  | _ :: _, [] => none
  | c :: start, d :: text => if c = d then after? start text else none

/-- Whether `part` stands somewhere in the text. -/
def hasInfix {α : Type} [DecidableEq α] (part : List α) : List α → Bool
  | [] => part.isEmpty
  | c :: rest => part.isPrefixOf (c :: rest) || hasInfix part rest

def forwardSlashes (path : String) : String :=
  String.ofList (path.toList.map fun c => if c = '\\' then '/' else c)

end FactoryIndex.Text
