import FactoryIndex.Proofs.Pattern.Seam
import FactoryIndex.Proofs.Resolver.Coverage
import FactoryIndex.Proofs.Settings.Ranges

/-!
# Which lists of methods are accepted

A list of methods is accepted if there is a method in it and all of its values are names: texts of ASCII letters, digits
and underscores. The end of a name is looked for where a text ends, and that is also in front of a newline which is the
last character. So a name with one newline behind it is accepted, too, and then it takes that newline to call the
method.

Every call begins with one of the names all the same. It begins at the beginning of a word, and since what follows the
name is no letter, the name is the whole word.
-/

namespace FactoryIndex

open Pattern Text

def Value.NamesMethod (value : Value) : Prop := ∃ name, value = .text name ∧ Settings.IsMethod name

def Value.NamesMethodLine (value : Value) : Prop := ∃ name, value = .text (name ++ "\n") ∧ Settings.IsMethod name

namespace Pattern

/-! ### Names -/

theorem isValidName_newline {method : String} (h : Settings.IsMethod method) :
    isValidName (method.toList ++ ['\n']) = true := by
  have hne : method.toList ≠ [] := by simpa using h.1
  rw [isValidName, takeWhile_word h.2 (by rfl), dropWhile_word h.2 (by rfl)]
  simp [hne]

theorem isMethod_ofList {word : List Char} (hne : word ≠ []) (hword : ∀ c ∈ word, isNameChar c = true) :
    Settings.IsMethod (String.ofList word) := by
  constructor
  · simpa using hne
  · rwa [String.toList_ofList]

/-- A value is taken for the name of a method also with a newline behind it. -/
theorem isMethodName_iff {value : Value} :
    isMethodName value = true ↔ value.NamesMethod ∨ value.NamesMethodLine := by
  constructor
  · intro hvalid
    obtain ⟨name, rfl⟩ := Settings.exists_eq_text_of_isMethodName hvalid
    obtain ⟨word, hne, hword, heq | heq⟩ := exists_word_of_isValidName hvalid
    · exact .inl ⟨name, rfl, by simpa [← heq] using isMethod_ofList hne hword⟩
    · refine .inr ⟨String.ofList word, ?_, isMethod_ofList hne hword⟩
      rw [← String.toList_inj.1 (show name.toList = (String.ofList word ++ "\n").toList by simpa using heq)]
  · rintro (⟨name, rfl, hname⟩ | ⟨name, rfl, hname⟩)
    · exact hname.isValidName
    · rw [isMethodName, String.toList_append]
      exact isValidName_newline hname

namespace CallPattern

variable {methods : List Value}

theorem exists_ofMethods_eq_ok_iff : (∃ pattern, ofMethods methods = .ok pattern) ↔
    methods ≠ [] ∧ ∀ value ∈ methods, isMethodName value = true := by
  constructor
  · rintro ⟨pattern, hpattern⟩
    obtain ⟨hne, hvalid, -⟩ := ofMethods_eq_ok_iff.1 hpattern
    exact ⟨hne, hvalid⟩
  · rintro ⟨hne, hvalid⟩
    exact ⟨⟨_⟩, ofMethods_eq_ok_iff.2 ⟨hne, hvalid, rfl⟩⟩

theorem exists_ofMethods_eq_error_iff : (∃ failure, ofMethods methods = .error failure) ↔
    methods = [] ∨ ∃ value ∈ methods, isMethodName value = false := by
  have hok := @exists_ofMethods_eq_ok_iff methods
  cases hresult : ofMethods methods with
  | ok pattern =>
      obtain ⟨hne, hvalid⟩ := hok.1 ⟨pattern, hresult⟩
      simp only [reduceCtorEq, exists_false, hne, false_or, false_iff, not_exists, not_and, Bool.not_eq_false]
      exact hvalid
  | error failure =>
      have hnot : ¬(methods ≠ [] ∧ ∀ value ∈ methods, isMethodName value = true) := by
        rw [← hok, hresult]
        simp
      simpa [Classical.or_iff_not_imp_left] using hnot

theorem kind_of_ofMethods_eq_error {failure : Failure} (hfailure : ofMethods methods = .error failure) :
    failure.kind = .pattern := by
  simp only [ofMethods] at hfailure
  split at hfailure
  · cases hfailure
    rfl
  · split at hfailure
    · cases hfailure
      rfl
    · cases hfailure

end CallPattern

/-! ### Calls -/

/-- At a place in a text a whole word starts that is one of the methods, if need be with a newline behind it. -/
structure MethodAt (methods : List Value) (text : List Char) (start : Nat) (word : List Char) : Prop where
  word_ne_nil : word ≠ []
  isNameChar_of_mem : ∀ c ∈ word, isNameChar c = true
  mem_methods : .text (String.ofList word) ∈ methods ∨ .text (String.ofList (word ++ ['\n'])) ∈ methods
  whole : ∃ left right, text = left ++ (word ++ right) ∧ start = left.length ∧ opensWord left.getLast? = true ∧
    closesWord right = true

/-- What stands between a method and the colon of the first symbol does not go on with the method. -/
theorem closesWord_gap {gap rest : List Char} (hgap : isGap gap = true) : closesWord (gap ++ ':' :: rest) = true := by
  cases gap with
  | nil => rfl
  | cons c gap =>
      rcases isBlank_or_eq_of_mem_gap hgap c List.mem_cons_self with hblank | rfl
      · simp [closesWord, not_isWordChar_of_isBlank hblank]
      · rfl

/-- A call begins with one of the methods as a whole word. -/
theorem methodAt_of_mem_calls {methods : List Value} {pattern : CallPattern}
    (hpattern : CallPattern.ofMethods methods = .ok pattern) {text : List Char} {found : Found CallSite}
    (hfound : found ∈ pattern.calls text) : ∃ word, MethodAt methods text found.start word := by
  have hvalid : ∀ method ∈ pattern.methods, isValidName method = true :=
    fun _ => CallPattern.isValidName_of_mem hpattern
  rw [CallPattern.calls_eq hvalid] at hfound
  obtain ⟨call, hcall, rfl⟩ := List.mem_map.1 hfound
  obtain ⟨left, right, htext, -, hstart, hsome⟩ := occurs_of_mem_occurrences hcall
  have hleft := CallStart.opensWord_of_backtrackingCall? hvalid hsome
  rw [lastOr, Option.or_none] at hleft
  rw [Nat.zero_add] at hstart
  obtain ⟨-, method, hmethod, gap, rest, -, hgap, -, hright, -⟩ := backtrackingCall?_cases hsome
  have hmem := (CallPattern.mem_methods_iff hpattern).1 hmethod
  have hcloses := @closesWord_gap gap (call.parts.first ++ rest) hgap
  obtain ⟨word, hne, hword, rfl | rfl⟩ := exists_word_of_isValidName (hvalid method hmethod)
  · refine ⟨method, hne, hword, .inl hmem, left, gap ++ ':' :: (call.parts.first ++ rest), ?_, hstart, hleft, hcloses⟩
    rw [htext, hright]
  · -- The newline ends the word before the gap does.
    refine ⟨word, hne, hword, .inr hmem, left, '\n' :: (gap ++ ':' :: (call.parts.first ++ rest)), ?_, hstart, hleft,
      by rfl⟩
    rw [htext, hright, List.append_assoc, List.singleton_append]

end Pattern

/-- **A list of methods is refused just if it is empty or a value in it is no name, where one newline behind a name is
let pass.** A refusal is a failure of the pattern; the resolver then reports it for every text, finds nothing and leaves
the store as it is. For a list that is accepted it never reports anything, and every call that is found in a text begins
there with one of the names, which is a whole word of ASCII letters, digits and underscores. -/
theorem methods_refused_iff (methods : List Value) :
    ((∃ failure, CallPattern.ofMethods methods = .error failure) ↔
        methods = [] ∨ ∃ value ∈ methods, ¬value.NamesMethod ∧ ¬value.NamesMethodLine) ∧
      (∀ failure, CallPattern.ofMethods methods = .error failure → failure.kind = .pattern ∧
        ∀ store clock text,
          resolve store clock methods text = ⟨[], store, some (Resolver.patternFailure methods failure)⟩) ∧
      ∀ pattern, CallPattern.ofMethods methods = .ok pattern →
        (∀ store clock text, (resolve store clock methods text).event = none) ∧
          ∀ text, ∀ found ∈ pattern.calls text, ∃ word, MethodAt methods text found.start word := by
  refine ⟨?_, fun failure hfailure => ⟨?_, fun store clock text => ?_⟩, fun pattern hpattern =>
    ⟨fun store clock text => ?_, fun text found hfound => methodAt_of_mem_calls hpattern hfound⟩⟩
  · simp only [CallPattern.exists_ofMethods_eq_error_iff, ← not_or, ← isMethodName_iff, Bool.not_eq_true]
  · exact CallPattern.kind_of_ofMethods_eq_error hfailure
  · rw [resolve, hfailure]
  · rw [resolve, hpattern]

/-- A name with a newline behind it is accepted, and it calls the method together with that newline. -/
theorem newline_accepted :
    let method := Value.text "create\n"
    CallPattern.ofMethods [method] = .ok ⟨["create\n".toList]⟩ ∧ ¬method.NamesMethod ∧
      ((CallPattern.mk ["create\n".toList]).calls "create\n:user".toList).map Found.start = [0] := by
  intro method
  refine ⟨CallPattern.ofMethods_eq_ok_iff.2 ⟨by simp, by decide, by decide +kernel⟩, ?_, by decide +kernel⟩
  rintro ⟨name, heq, -, hname⟩
  obtain rfl : "create\n" = name := by simpa [method] using heq
  exact absurd (hname '\n' (by decide)) (by decide)

end FactoryIndex
