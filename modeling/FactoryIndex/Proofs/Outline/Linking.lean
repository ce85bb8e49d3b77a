import FactoryIndex.Proofs.Outline.Belonging
import FactoryIndex.Proofs.Pattern.Header

/-!
# The traits that a text gives to its factories

A text may give a factory several traits of one name. To link puts them into the factory one after the other, so that
the factory is left with the last one of each name; if the text defines the factory twice, only the last
definition is linked. In a store traits are known by their keys, and these tell traits of different
factories or names apart: the name of a factory goes up to the first colon of a key.
-/

namespace FactoryIndex

open Pattern Text

/-- The traits of a name that an outline gives to a factory, in document order. -/
def Outline.traitsOf (outline : Outline) (factory name : String) : List Trait :=
  outline.traits.filter fun t => t.factory = factory ∧ t.name = name

/-- An outline has one factory of a name. -/
def Outline.DefinesOnce (outline : Outline) (name : String) : Prop :=
  (outline.factories.map Factory.name).count name = 1

theorem Outline.mem_traitsOf {outline : Outline} {factory name : String} {t : Trait} :
    t ∈ outline.traitsOf factory name ↔ t ∈ outline.traits ∧ t.factory = factory ∧ t.name = name := by
  rw [traitsOf, List.mem_filter, decide_eq_true_iff]

/-! ### The last trait of each name -/

theorem Factory.get?_foldl_addTrait (traits : List Trait) (factory : Factory) (name : String) :
    (traits.foldl addTrait factory).traits.get? name =
      (traits.filter fun t => t.name = name).getLast?.or (factory.traits.get? name) := by
  induction traits generalizing factory with
  | nil => rfl
  | cons t rest ih =>
      rw [List.foldl_cons, ih, addTrait, OrderedMap.get?_insert, List.filter_cons]
      by_cases hname : t.name = name
      · rw [if_pos hname.symm, if_pos (decide_eq_true hname), List.getLast?_cons, Option.some_or]
        cases (rest.filter fun t => t.name = name).getLast? with
        | none => rfl
        | some last => rfl
      · rw [if_neg (Ne.symm hname), if_neg (by simpa using hname)]

namespace Outline

/-- Of the factories of one name all but the last are left without traits, and the last one gets the last trait of each
name that is given to it. -/
theorem traits_of_linkTraits_eq {traits : List Trait} {factories before behind : List Factory} {factory : Factory}
    (hbare : ∀ other ∈ factories, other.traits = .empty)
    (heq : linkTraits traits factories = before ++ factory :: behind) :
    (factory.name ∈ behind.map Factory.name → factory.traits = .empty) ∧
      (factory.name ∉ behind.map Factory.name → ∀ name, factory.traits.get? name =
        (traits.filter fun t => t.factory = factory.name ∧ t.name = name).getLast?) := by
  induction factories generalizing before with
  | nil => exact absurd heq (by simp [linkTraits])
  | cons header rest ih =>
      cases before with
      | cons first before =>
          exact ih (fun other hother => hbare other (List.mem_cons_of_mem header hother)) (List.cons.inj heq).2
      | nil =>
          obtain ⟨hfactory, rfl⟩ := List.cons.inj heq
          have hname : factory.name = header.name := by
            rw [← hfactory]
            apply OrderedMap.view_foldl Factory.name
            exact fun _ _ => rfl
          have hlater : rest.any (fun later => later.name == header.name) = true ↔
              factory.name ∈ (linkTraits traits rest).map Factory.name := by
            rw [map_linkTraits (fun _ _ => rfl), hname, List.any_eq_true, List.mem_map]
            simp only [beq_iff_eq]
          refine ⟨fun hmem => ?_, fun hnot name => ?_⟩
          · rw [← hfactory, if_pos (hlater.2 hmem)]
            exact hbare header List.mem_cons_self
          · rw [if_neg (mt hlater.1 hnot)] at hfactory
            rw [hname, ← hfactory, Factory.get?_foldl_addTrait, hbare header List.mem_cons_self,
              OrderedMap.get?_empty, Option.or_none, List.filter_filter]
            congr 1
            refine List.filter_congr fun t _ => ?_
            rw [Bool.and_comm, Bool.decide_and]
            rfl

theorem get?_of_mem_linkTraits {traits : List Trait} {factories : List Factory} {factory : Factory}
    (hbare : ∀ other ∈ factories, other.traits = .empty) (hmem : factory ∈ linkTraits traits factories)
    (honce : (factories.map Factory.name).count factory.name = 1) (name : String) :
    factory.traits.get? name =
      (traits.filter fun t => t.factory = factory.name ∧ t.name = name).getLast? := by
  obtain ⟨before, behind, heq⟩ := List.append_of_mem hmem
  refine (traits_of_linkTraits_eq hbare heq).2 (fun hlater => ?_) name
  rw [← map_linkTraits (fun _ _ => rfl) traits, heq, List.map_append, List.map_cons, List.count_append,
    List.count_cons_self] at honce
  have hpos := List.count_pos_iff.2 hlater
  omega

theorem traits_eq_empty_of_header {index : LineIndex} {file : RawText} {findings : List Finding}
    {headers : List (Found FactoryHeader)} :
    ∀ factory ∈ headers.map (headerFactory index file findings), factory.traits = .empty := by
  intro factory hmem
  obtain ⟨found, -, rfl⟩ := List.mem_map.1 hmem
  rfl

theorem get?_of_mem_parse {mode : BlockMode} {text : List Char} {file : RawText} {factory : Factory}
    (hmem : factory ∈ (parse mode text file).factories)
    (honce : (parse mode text file).DefinesOnce factory.name) (name : String) :
    factory.traits.get? name = ((parse mode text file).traitsOf factory.name name).getLast? := by
  refine get?_of_mem_linkTraits traits_eq_empty_of_header hmem ?_ name
  rw [← map_linkTraits (fun _ _ => rfl)]
  exact honce

end Outline

/-! ### Keys -/

theorem traitKey_inj {a b m n : String} (ha : ∀ c ∈ a.toList, isNameChar c = true)
    (hb : ∀ c ∈ b.toList, isNameChar c = true) : traitKey a m = traitKey b n ↔ a = b ∧ m = n := by
  constructor
  · intro heq
    have hchars : a.toList ++ ':' :: m.toList = b.toList ++ ':' :: n.toList := by
      simpa [traitKey] using congrArg String.toList heq
    obtain ⟨hfactory, hname⟩ := word_unique ha (by rfl) hb (by rfl) hchars
    exact ⟨String.toList_inj.1 hfactory, String.toList_inj.1 (List.cons.inj hname).2⟩
  · rintro ⟨rfl, rfl⟩
    rfl

theorem Pattern.named_of_factoryHeader? {before : Option Char} {text : List Char} {hit : Hit FactoryHeader}
    (h : factoryHeader? before text = some hit) : hit.parts.name.Named := by
  unfold factoryHeader? at h
  split at h
  · next hname =>
    split at h
    · cases h
      obtain ⟨-, -, -, -, -, -, hnamed⟩ := keywordSymbol?_eq_some hname
      exact hnamed
    · cases h
  · cases h

theorem Pattern.named_of_factoryBody? {before : Option Char} {text : List Char} {hit : Hit FactoryBody}
    (h : factoryBody? before text = some hit) : hit.parts.name.Named := by
  unfold factoryBody? at h
  split at h
  · next hname =>
    split at h
    · split at h
      · obtain ⟨length, -, rfl⟩ := Option.map_eq_some_iff.1 h
        obtain ⟨-, -, -, -, -, -, hnamed⟩ := keywordSymbol?_eq_some hname
        exact hnamed
      · cases h
    · cases h
  · cases h

namespace Outline

theorem isNameChar_of_mem_factoryNames {text : List Char} {name : String} (hmem : name ∈ factoryNames text) :
    ∀ c ∈ name.toList, isNameChar c = true := by
  obtain ⟨found, hfound, rfl⟩ := List.mem_map.1 hmem
  obtain ⟨left, right, -, -, -, hsome⟩ := occurs_of_mem_occurrences hfound
  rw [String.toList_ofList]
  exact (named_of_factoryHeader? hsome).2

theorem isNameChar_of_mem_traits {mode : BlockMode} {text : List Char} {file : RawText} {t : Trait}
    (hmem : t ∈ (parse mode text file).traits) : ∀ c ∈ t.factory.toList, isNameChar c = true := by
  cases mode with
  | scanner => exact isNameChar_of_mem_factoryNames (factory_mem_factoryNames hmem)
  | regex =>
      obtain ⟨body, hbody, htrait⟩ := List.mem_flatMap.1 hmem
      obtain ⟨found, -, rfl⟩ := List.mem_map.1 htrait
      obtain ⟨left, right, -, -, -, hsome⟩ := occurs_of_mem_occurrences hbody
      show ∀ c ∈ (String.ofList body.parts.name.name).toList, isNameChar c = true
      rw [String.toList_ofList]
      exact (named_of_factoryBody? hsome).2

/-- The first trait of a key is the first one of its name that the text gives to the factory. -/
theorem find?_key_parse {mode : BlockMode} {text : List Char} {file : RawText} {factory : String}
    (hfactory : ∀ c ∈ factory.toList, isNameChar c = true) (name : String) :
    (parse mode text file).traits.find? (fun t => t.key = traitKey factory name) =
      ((parse mode text file).traitsOf factory name).head? := by
  rw [traitsOf, ← List.head?_filter]
  congr 1
  refine List.filter_congr fun t ht => ?_
  exact decide_eq_decide.2 (traitKey_inj (isNameChar_of_mem_traits ht) hfactory)

end Outline

end FactoryIndex
