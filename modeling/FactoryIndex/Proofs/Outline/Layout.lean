import FactoryIndex.Proofs.Outline.Line
import FactoryIndex.Proofs.StableSort
import FactoryIndex.Proofs.Text.LineIndex
import FactoryIndex.Proofs.Text.Mask
import Mathlib.Data.List.Perm.Basic

/-!
# Texts that are laid out line by line

The text of lines, one under the other, is scanned line by line: what is found in it is what is found in each
line, at the offset at which the line starts. So the events of the text are the events of its lines in their order.
-/

namespace FactoryIndex.Outline

open Pattern Text

def layOut (lines : List Line) : List Char := unlines (lines.map Line.chars)

def startOf (lines : List Line) (i : Nat) : Nat := lineStart (lines.map Line.chars) i

theorem startOf_cons_succ (line : Line) (lines : List Line) (i : Nat) :
    startOf (line :: lines) (i + 1) = line.chars.length + 1 + startOf lines i := rfl

/-! ### What is found in a text -/

/-- What is found in lines of any kind, one under the other. -/
theorem occurrencesFrom_unlines {σ α : Type} {recognise : Recogniser α} {chars : σ → List Char}
    {found : σ → Nat → List (Found α)}
    (hline : ∀ line before tail, opensLine before = true → endsLine tail = true →
      Yields recognise before (chars line) tail (found line))
    (hnewline : ∀ before tail, recognise before ('\n' :: tail) = none) (lines : List σ) (offset : Nat)
    {before : Option Char} (hbefore : opensLine before = true) :
    occurrencesFrom recognise 0 offset before (unlines (lines.map chars)) =
      lines.zipIdx.flatMap fun item => found item.1 (offset + lineStart (lines.map chars) item.2) := by
  induction lines generalizing offset before with
  | nil => rfl
  | cons line rest ih =>
      cases rest with
      | nil =>
          have hyields := hline line before [] hbefore rfl offset
          rw [List.append_nil] at hyields
          have hlast : unlines ([line].map chars) = chars line := rfl
          rw [hlast, hyields]
          simp [occurrencesFrom, lineStart]
      | cons second others =>
          let below := unlines ((second :: others).map chars)
          have hyields := hline line before ('\n' :: below) hbefore rfl offset
          have hjoin : unlines ((line :: second :: others).map chars) = chars line ++ '\n' :: below := rfl
          have hrest := ih (offset + (chars line).length + 1) (show opensLine (some '\n') = true from rfl)
          have hzip : (line :: second :: others).zipIdx =
              (line, 0) :: (second :: others).zipIdx.map (Prod.map id (· + 1)) := List.zipIdx_cons'
          have hstart : ∀ i, lineStart ((line :: second :: others).map chars) (i + 1) =
              (chars line).length + 1 + lineStart ((second :: others).map chars) i := fun _ => rfl
          rw [hjoin, hyields, occurrencesFrom, hnewline, hzip, List.flatMap_cons, List.flatMap_map]
          simp only [below, hrest, Prod.map_fst, Prod.map_snd, id_eq, hstart]
          congr 2
          funext item
          congr 1
          omega

theorem occurrences_unlines {σ α : Type} {recognise : Recogniser α} {chars : σ → List Char}
    {found : σ → Nat → List (Found α)}
    (hline : ∀ line before tail, opensLine before = true → endsLine tail = true →
      Yields recognise before (chars line) tail (found line))
    (hnewline : ∀ before tail, recognise before ('\n' :: tail) = none) (lines : List σ) :
    occurrences recognise (unlines (lines.map chars)) =
      lines.zipIdx.flatMap fun item => found item.1 (lineStart (lines.map chars) item.2) := by
  have hfound := occurrencesFrom_unlines hline hnewline lines 0 (show opensLine none = true from rfl)
  simp only [Nat.zero_add] at hfound
  exact hfound

theorem occurrencesFrom_layOut {α : Type} {recognise : Recogniser α} {found : Line → Nat → List (Found α)}
    (hline : ∀ line before tail, opensLine before = true → endsLine tail = true →
      Yields recognise before line.chars tail (found line))
    (hnewline : ∀ before tail, recognise before ('\n' :: tail) = none) (lines : List Line) (offset : Nat)
    {before : Option Char} (hbefore : opensLine before = true) :
    occurrencesFrom recognise 0 offset before (layOut lines) =
      lines.zipIdx.flatMap fun item => found item.1 (offset + startOf lines item.2) :=
  occurrencesFrom_unlines hline hnewline lines offset hbefore

/-- Lines of some kind, what the scans find in a line that starts at the given offset, and the events of such a line in
their order. -/
structure LineScan (σ : Type) where
  chars : σ → List Char
  factoryHeaders : σ → Nat → List (Found FactoryHeader)
  traitHeaders : σ → Nat → List (Found Symbol)
  tokens : σ → Nat → List (Found BlockTokenParts)
  events : σ → Nat → List BlockEvent
  yields_factoryHeader? : ∀ line before tail, opensLine before = true → endsLine tail = true →
    Yields factoryHeader? before (chars line) tail (factoryHeaders line)
  yields_traitHeader? : ∀ line before tail, opensLine before = true → endsLine tail = true →
    Yields traitHeader? before (chars line) tail (traitHeaders line)
  yields_blockToken? : ∀ line before tail, opensLine before = true → endsLine tail = true →
    Yields blockToken? before (chars line) tail (tokens line)
  events_eq : ∀ line offset,
    (factoryHeaders line offset).map (fun found =>
        BlockEvent.factory found.start (String.ofList found.parts.name.name)) ++
      (traitHeaders line offset).map (fun found =>
        BlockEvent.trait found.start (String.ofList found.parts.name) found.parts.stop) ++
      (tokens line offset).map (fun found => BlockEvent.token found.start found.parts.token) =
    events line offset
  pairwise_events : ∀ line offset, (events line offset).Pairwise fun a b => a.offset < b.offset
  offset_of_mem_events : ∀ line offset, ∀ event ∈ events line offset,
    offset ≤ event.offset ∧ event.offset ≤ offset + (chars line).length

namespace LineScan

variable {σ : Type} (scan : LineScan σ) (lines : List σ)

theorem factoryHeaders_unlines :
    Pattern.factoryHeaders (unlines (lines.map scan.chars)) =
      lines.zipIdx.flatMap fun item => scan.factoryHeaders item.1 (lineStart (lines.map scan.chars) item.2) :=
  occurrences_unlines scan.yields_factoryHeader?
    (fun before tail => needsKeyword_factoryHeader? before _
      (keywordSymbol?_of_not_isNameChar (List.all_eq_true.1 rfl) (by decide) (by decide) tail)) lines

theorem traitHeaders_unlines :
    Pattern.traitHeaders (unlines (lines.map scan.chars)) =
      lines.zipIdx.flatMap fun item => scan.traitHeaders item.1 (lineStart (lines.map scan.chars) item.2) :=
  occurrences_unlines scan.yields_traitHeader?
    (fun before tail => needsKeyword_traitHeader? before _
      (keywordSymbol?_of_not_isNameChar (List.all_eq_true.1 rfl) (by decide) (by decide) tail)) lines

theorem blockTokens_unlines :
    blockTokens (unlines (lines.map scan.chars)) =
      lines.zipIdx.flatMap fun item => scan.tokens item.1 (lineStart (lines.map scan.chars) item.2) := by
  refine occurrences_unlines scan.yields_blockToken? (fun before tail => ?_) lines
  have hkeyword : blockKeyword? ('\n' :: tail) = none :=
    blockKeyword?_of_blank (fun _ hmem => absurd hmem List.not_mem_nil) rfl
  rw [blockToken?_of_keywordToken? (keywordToken?_of_blockKeyword? hkeyword (by simp))]
  exact bareToken?_of_not_isNameChar (by decide) (by decide) (by decide) tail

theorem pairwise_events_unlines :
    (lines.zipIdx.flatMap fun item => scan.events item.1 (lineStart (lines.map scan.chars) item.2)).Pairwise
      fun a b => a.offset < b.offset := by
  rw [List.pairwise_flatMap]
  refine ⟨fun item _ => scan.pairwise_events item.1 _, ?_⟩
  rw [List.pairwise_iff_getElem]
  intro i j hi hj hij a ha b hb
  rw [List.length_zipIdx] at hi hj
  simp only [List.getElem_zipIdx, Nat.zero_add] at ha hb
  have hbefore := (scan.offset_of_mem_events lines[i] _ a ha).2
  have hafter := (scan.offset_of_mem_events lines[j] _ b hb).1
  have hlength : (lines.map scan.chars).length = lines.length := List.length_map _
  have hlt := lineStart_add_lt hij (hlength ▸ Nat.le_of_lt hj) (hlength ▸ hi)
  rw [List.getElem_map] at hlt
  omega

/-- The events of a text are those of its lines. -/
theorem blockEvents_unlines :
    blockEvents (unlines (lines.map scan.chars)) =
      lines.zipIdx.flatMap fun item => scan.events item.1 (lineStart (lines.map scan.chars) item.2) := by
  let start := lineStart (lines.map scan.chars)
  have hperm : ((lines.zipIdx.flatMap fun item => scan.factoryHeaders item.1 (start item.2)).map (fun found =>
        BlockEvent.factory found.start (String.ofList found.parts.name.name)) ++
      (lines.zipIdx.flatMap fun item => scan.traitHeaders item.1 (start item.2)).map (fun found =>
        BlockEvent.trait found.start (String.ofList found.parts.name) found.parts.stop) ++
      (lines.zipIdx.flatMap fun item => scan.tokens item.1 (start item.2)).map
        (fun found => BlockEvent.token found.start found.parts.token)).Perm
      (lines.zipIdx.flatMap fun item => scan.events item.1 (start item.2)) := by
    simp only [List.map_flatMap, ← scan.events_eq]
    exact ((List.flatMap_append_perm _ _ _).append_right _).trans (List.flatMap_append_perm _ _ _)
  rw [blockEvents, factoryHeaders_unlines, traitHeaders_unlines, blockTokens_unlines]
  exact mergeSort_key_eq_of_perm BlockEvent.offset hperm (scan.pairwise_events_unlines lines)

end LineScan

/-! ### Lines of definitions -/

def Name.text (name : Name) : String := String.ofList name.chars

def Line.events (line : Line) (offset : Nat) : List BlockEvent :=
  let start := offset + line.indent.chars.length
  match line.code with
  | .blank => []
  | .factory name => [
      .factory start name.text,
      .token (start + (factoryWord.length + 2 + name.chars.length + 1)) .openDo]
  | .trait name => [
      .trait start name.text (traitWord.length + 2 + name.chars.length),
      .token (start + (traitWord.length + 2 + name.chars.length + 1)) .openDo]
  | .block word => [.token (start + (word.chars.length + 1)) .openDo]
  | .conditional _ => [.token offset .keyword]
  | .attr word digits => [
      .token (start + (word.chars.length + 1)) .openBrace,
      .token (start + (word.chars.length + digits.chars.length + 4)) .closeBrace]
  | .close => [.token start .closeEnd]

theorem Line.events_eq (line : Line) (offset : Nat) :
    (line.factoryHeaders offset).map (fun found =>
        BlockEvent.factory found.start (String.ofList found.parts.name.name)) ++
      (line.traitHeaders offset).map (fun found =>
        BlockEvent.trait found.start (String.ofList found.parts.name) found.parts.stop) ++
      (line.tokens offset).map (fun found => BlockEvent.token found.start found.parts.token) =
    line.events offset := by
  obtain ⟨indent, code⟩ := line
  cases code <;> rfl

theorem Line.pairwise_events (line : Line) (offset : Nat) :
    (line.events offset).Pairwise fun a b => a.offset < b.offset := by
  obtain ⟨indent, code⟩ := line
  cases code with
  | blank => exact List.Pairwise.nil
  | factory name => simp [Line.events, BlockEvent.offset]
  | trait name => simp [Line.events, BlockEvent.offset]
  | block word => simp [Line.events]
  | conditional word => simp [Line.events]
  | attr word digits =>
      simp [Line.events, BlockEvent.offset]
      omega
  | close => simp [Line.events]

theorem Line.offset_of_mem_events (line : Line) (offset : Nat) : ∀ event ∈ line.events offset,
    offset ≤ event.offset ∧ event.offset ≤ offset + line.chars.length := by
  obtain ⟨indent, code⟩ := line
  cases code with
  | blank => simp [Line.events]
  | factory name =>
      simp [Line.events, BlockEvent.offset, Line.chars, Code.chars]
      omega
  | trait name =>
      simp [Line.events, BlockEvent.offset, Line.chars, Code.chars]
      omega
  | block word =>
      simp [Line.events, BlockEvent.offset, Line.chars, Code.chars]
      omega
  | conditional word => simp [Line.events, BlockEvent.offset]
  | attr word digits =>
      simp [Line.events, BlockEvent.offset, Line.chars, Code.chars]
      omega
  | close => simp [Line.events, BlockEvent.offset, Line.chars, Code.chars]

def lineScan : LineScan Line where
  chars := Line.chars
  factoryHeaders := Line.factoryHeaders
  traitHeaders := Line.traitHeaders
  tokens := Line.tokens
  events := Line.events
  yields_factoryHeader? line _ _ := line.yields_factoryHeader?
  yields_traitHeader? line _ _ := line.yields_traitHeader?
  yields_blockToken? line _ _ := line.yields_blockToken?
  events_eq := Line.events_eq
  pairwise_events := Line.pairwise_events
  offset_of_mem_events := Line.offset_of_mem_events

theorem blockEvents_layOut (lines : List Line) :
    blockEvents (layOut lines) = lines.zipIdx.flatMap fun item => item.1.events (startOf lines item.2) :=
  lineScan.blockEvents_unlines lines

end FactoryIndex.Outline
