import FactoryIndex.Outline.Parse
import FactoryIndex.Proofs.Text.Hidden

/-!
# Definitions do not depend on what is hidden

Definitions are looked for in the masked copy of a text, and the lines and columns of the text are those of the copy. So
texts with the same mask have the same definitions, and no comment and no string can add, change or remove one. The
only string that counts is one that becomes the quoted name of a here-document: `<<"A B"` opens nothing, but `<<"ABB"`
does, and what follows it is a document and no code.
-/

namespace FactoryIndex.Outline

open Pattern Text

section Congr

variable {a b : List Char}

theorem parse_eq_of_mask_eq (h : mask a = mask b) (mode : BlockMode) (file : RawText) :
    parse mode a file = parse mode b file := by
  have hindex : LineIndex.ofText a = LineIndex.ofText b := by rw [← ofText_mask a, h, ofText_mask]
  simp only [parse, h, hindex]

theorem factoryNames_eq_of_mask_eq (h : mask a = mask b) : factoryNames a = factoryNames b := by
  rw [factoryNames, factoryNames, h]

theorem definesFactory_eq_of_mask_eq (h : mask a = mask b) : definesFactory a = definesFactory b := by
  rw [definesFactory, definesFactory, h]

end Congr

/-- **What is hidden is never read.** Let a stretch of a line stand in a comment or inside a string, and replace it by
another one of the same length, which in a string has to be free of backslashes and of the string's quote. If the scan
still opens the string with the same quote, the two texts have the same mask, and all that is read from them is the
same. -/
theorem hidden_text_unread {before old new after : List Char} {opening : Nat} {mark : Char}
    (h : Hidden before old after opening mark) (hlength : new.length = old.length) (hold : '\n' ∉ old)
    (hnew : '\n' ∉ new) (hclean : mark ≠ '#' → mark ∉ new ∧ '\\' ∉ new)
    (hopens : mark ≠ '#' → codeStateAt (before ++ (new ++ after)) opening = some .code) :
    mask (before ++ (new ++ after)) = mask (before ++ (old ++ after)) ∧
      (∀ mode file, parse mode (before ++ (new ++ after)) file = parse mode (before ++ (old ++ after)) file) ∧
      definesFactory (before ++ (new ++ after)) = definesFactory (before ++ (old ++ after)) ∧
      factoryNames (before ++ (new ++ after)) = factoryNames (before ++ (old ++ after)) := by
  have hmask := mask_hidden h hlength hold hnew hclean hopens
  exact ⟨hmask, parse_eq_of_mask_eq hmask, definesFactory_eq_of_mask_eq hmask, factoryNames_eq_of_mask_eq hmask⟩

/-- A definition in a string is replaced by what would open a here-document and a comment outside of the string. -/
theorem hidden_text_unread_definition :
    let before := "say \x22\\\x22".toList
    let old := "factory :x do".toList
    let new := "<<~EOS #'=end".toList
    let after := "\x22\nfactory :user do\nend".toList
    Hidden before old after 4 '\x22' ∧ codeStateAt (before ++ (new ++ after)) 4 = some .code ∧
      mask (before ++ (new ++ after)) = mask (before ++ (old ++ after)) ∧
      factoryNames (before ++ (new ++ after)) = ["user"] := by
  intro before old new after
  have hstring : StringAt (before ++ (old ++ after)) '\x22' 4 20 := by decide +kernel
  have hhidden : Hidden before old after 4 '\x22' :=
    .string hstring (by decide) (by decide) (by decide) (by decide)
  have hlength : new.length = old.length := by decide
  have hopens : codeStateAt (before ++ (new ++ after)) 4 = some .code := by decide +kernel
  obtain ⟨hmask, -, -, hnames⟩ :=
    hidden_text_unread hhidden hlength (by decide) (by decide) (fun _ => by decide) fun _ => hopens
  exact ⟨hhidden, hopens, hmask, hnames.trans (by decide +kernel)⟩

/-- A string in the place of a here-document's name is read: as long as it is no name it is a string, but a name in its
place opens a document, which swallows the definitions below it. -/
theorem quoted_name_read :
    ¬∀ (before old new after : List Char) (opening : Nat) (mark : Char), Hidden before old after opening mark →
      new.length = old.length → '\n' ∉ old → '\n' ∉ new → (mark ≠ '#' → mark ∉ new ∧ '\\' ∉ new) →
      mask (before ++ (new ++ after)) = mask (before ++ (old ++ after)) ∧
        factoryNames (before ++ (new ++ after)) = factoryNames (before ++ (old ++ after)) := by
  intro hall
  let before := "<<\x22".toList
  let old := "A B".toList
  let after := "\x22\nfactory :user do\nend".toList
  have hstring : StringAt (before ++ (old ++ after)) '\x22' 2 6 := by decide +kernel
  have hhidden : Hidden before old after 2 '\x22' :=
    .string hstring (by decide) (by decide) (by decide) (by decide)
  have hnames := (hall before old "ABB".toList after 2 '\x22' hhidden (by decide) (by decide) (by decide)
    fun _ => by decide).2
  revert hnames
  decide +kernel

end FactoryIndex.Outline
