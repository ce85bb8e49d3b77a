import FactoryIndex.Proofs.Resolver.Exactness

/-!
# Which calls are found

Where a method is followed by the name of a live factory, one expects a reference. There are two reasons why there may
be none. The call must be able to end behind the name or to go on there with a comma, so a call in braces that has no
parentheses of its own is none. And call sites do not overlap: what stands in the further arguments of a call belongs
to that call. There is no third reason.

That a place is found or not does not depend on which of the methods is tried first. All that can stand before the
first colon of a call is a word and some characters that neither are part of names nor colons, so it is determined by
the place where it starts, and by the place where it ends as well.
-/

namespace FactoryIndex

open Pattern Text Search

namespace Pattern

section Parts

variable {text rest : List Char}

/-! ### The end of a call -/

/-- Whether a call can end behind a name, or go on there with further arguments. -/
def endsCall (rest : List Char) : Bool :=
  (rest.takeWhile isBlank).contains '\n' ||
    match rest.dropWhile isBlank with
    | [] => true
    | c :: _ => c == ')' || c == ','

theorem isSome_callEnd? (text : List Char) : (callEnd? text).isSome = endsCall text := by
  induction text with
  | nil => rfl
  | cons c rest ih =>
      cases hblank : isBlank c with
      | true =>
          rw [callEnd?_cons hblank, Option.isSome_or, Option.isSome_map, ih, endsCall, endsCall,
            List.takeWhile_cons_of_pos hblank, List.dropWhile_cons_of_pos hblank, List.contains_cons]
          by_cases hnewline : c = '\n'
          · simp [hnewline]
          · have hbeq : ('\n' == c) = false := beq_false_of_ne (Ne.symm hnewline)
            simp [hnewline, hbeq]
      | false =>
          rw [callEnd?, endsCall, List.takeWhile_cons_of_neg (by simp [hblank]),
            List.dropWhile_cons_of_neg (by simp [hblank])]
          by_cases hparenthesis : c = ')'
          · simp [hparenthesis]
          · by_cases hcomma : c = ','
            · simp [hcomma]
            · simp [hparenthesis, hcomma]

theorem endsCall_of_furtherSymbol? (h : (furtherSymbol? text).isSome = true) : endsCall text = true := by
  revert h
  fun_cases furtherSymbol? text with
  | case1 inner hcomma named hcolon name hempty =>
      intro hsome
      cases hsome
  | case2 inner hcomma named hcolon name hempty => simp [endsCall, hcomma]
  | case3 inner hcomma hcolon =>
      intro hsome
      cases hsome
  | case4 hcomma =>
      intro hsome
      cases hsome

theorem isSome_tailSearch (text : List Char) : (tailSearch.first? text).isSome = endsCall text := by
  rw [first?_tailSearch, Option.isSome_or, Option.isSome_map, first?_endSearch, Option.isSome_map, isSome_callEnd?]
  cases hfurther : furtherSymbol? text with
  | none => rfl
  | some further =>
      rw [endsCall_of_furtherSymbol? (by rw [hfurther]; rfl), Bool.or_true]

/-! ### The beginning of a call -/

theorem isGap_cases {gap : List Char} (h : isGap gap = true) :
    ∃ blanks inner, (∀ c ∈ blanks, isBlank c = true) ∧ (∀ c ∈ inner, isBlank c = true) ∧
      (gap = blanks ∨ gap = blanks ++ '(' :: inner) := by
  have hblanks : ∀ c ∈ gap.takeWhile isBlank, isBlank c = true := List.all_eq_true.1 List.all_takeWhile
  have hgap := (List.takeWhile_append_dropWhile (p := isBlank) (l := gap)).symm
  unfold isGap at h
  split at h
  · next hdrop =>
    rw [hdrop, List.append_nil] at hgap
    exact ⟨_, [], hblanks, by simp, Or.inl hgap⟩
  · next c inner hdrop =>
    rw [Bool.and_eq_true, beq_iff_eq, List.all_eq_true] at h
    obtain ⟨rfl, hinner⟩ := h
    rw [hdrop] at hgap
    exact ⟨_, inner, hblanks, hinner, Or.inr hgap⟩

theorem isBlank_or_eq_of_mem_gap {gap : List Char} (h : isGap gap = true) : ∀ c ∈ gap, isBlank c = true ∨ c = '(' := by
  obtain ⟨blanks, inner, hblanks, hinner, rfl | rfl⟩ := isGap_cases h
  · exact fun c hc => .inl (hblanks c hc)
  · rw [List.forall_mem_append, List.forall_mem_cons]
    exact ⟨fun c hc => .inl (hblanks c hc), .inr rfl, fun c hc => .inl (hinner c hc)⟩

theorem behindMethod_gap {gap : List Char} (hgap : isGap gap = true) (method : List Char) :
    behindMethod method (gap ++ ':' :: rest) = behindOpening (method ++ gap) (':' :: rest) := by
  obtain ⟨blanks, inner, hblanks, hinner, rfl | rfl⟩ := isGap_cases hgap
  · rw [behindMethod_eq, takeWhile_word hblanks (by rfl), dropWhile_word hblanks (by rfl)]
    exact congrArg (behindOpening · _) (by simp [opened])
  · rw [behindMethod_eq, List.append_assoc, List.cons_append, takeWhile_word hblanks (by rfl),
      dropWhile_word hblanks (by rfl), opened, takeWhile_word hinner (by rfl), dropWhile_word hinner (by rfl)]

/-- A word, and behind it neither characters of names nor colons. -/
def Opens (opening : List Char) : Prop :=
  ∃ word gap, opening = word ++ gap ∧ word ≠ [] ∧ (∀ c ∈ word, isNameChar c = true) ∧
    ∀ c ∈ gap, isNameChar c = false ∧ c ≠ ':'

theorem opens_of_isValidName {method gap : List Char} (hmethod : isValidName method = true) (hgap : isGap gap = true) :
    Opens (method ++ gap) := by
  have hbehind : ∀ c ∈ gap, isNameChar c = false ∧ c ≠ ':' := by
    intro c hc
    rcases isBlank_or_eq_of_mem_gap hgap c hc with hblank | rfl
    · refine ⟨not_isNameChar_of_isBlank hblank, ?_⟩
      rintro rfl
      exact absurd hblank (by decide)
    · decide
  obtain ⟨word, hne, hword, rfl | rfl⟩ := exists_word_of_isValidName hmethod
  · exact ⟨method, gap, rfl, hne, hword, hbehind⟩
  · refine ⟨word, '\n' :: gap, ?_, hne, hword, List.forall_mem_cons.2 ⟨by decide, hbehind⟩⟩
    rw [List.append_assoc, List.singleton_append]

namespace Opens

variable {opening opening' left left' : List Char}

theorem ne_colon (h : Opens opening) : ∀ c ∈ opening, (c != ':') = true := by
  obtain ⟨word, gap, rfl, -, hword, hgap⟩ := h
  rw [List.forall_mem_append]
  refine ⟨fun c hc => ?_, fun c hc => bne_iff_ne.2 (hgap c hc).2⟩
  rw [bne_iff_ne]
  rintro rfl
  exact absurd (hword ':' hc) (by decide)

theorem eq_of_append_colon (h : Opens opening) (h' : Opens opening')
    (heq : opening ++ ':' :: text = opening' ++ ':' :: rest) : opening = opening' ∧ text = rest := by
  obtain ⟨rfl, htail⟩ := word_unique h.ne_colon rfl h'.ne_colon rfl heq
  exact ⟨rfl, (List.cons.inj htail).2⟩

/-- No opening goes on with a word that starts anew. -/
theorem not_append (h : Opens opening) (h' : Opens opening') (hopens : opensWord left.getLast? = true)
    (heq : opening = left ++ opening') : left = [] := by
  obtain ⟨word, gap, rfl, -, hword, hgap⟩ := h
  obtain ⟨word', gap', rfl, hne, hword', -⟩ := h'
  rcases List.append_eq_append_iff.1 heq with ⟨piece, hleft, hpiece⟩ | ⟨piece, hleft, hpiece⟩
  · -- The new word would be among what is behind the first one.
    obtain ⟨c, hc⟩ := List.exists_mem_of_ne_nil _ hne
    have hmem : c ∈ gap := by simp [hpiece, hc]
    have hnot := (hgap c hmem).1
    rw [hword' c hc] at hnot
    cases hnot
  · -- The new word would start inside the first one.
    cases hlast : left.getLast? with
    | none => exact List.getLast?_eq_none_iff.1 hlast
    | some c =>
        have hmem : c ∈ word := by
          rw [hleft]
          exact List.mem_append_left piece (List.mem_of_getLast? hlast)
        rw [hlast, opensWord, Option.any_some, isWordChar_of_isNameChar (hword c hmem)] at hopens
        cases hopens

/-- From its end, an opening runs back to where its word begins. -/
theorem eq_of_append (h : Opens opening) (h' : Opens opening') (hleft : opensWord left.getLast? = true)
    (hleft' : opensWord left'.getLast? = true) (heq : left ++ opening = left' ++ opening') : left = left' := by
  have hlonger : ∀ {front piece : List Char}, piece ≠ [] → opensWord (front ++ piece).getLast? = true →
      opensWord piece.getLast? = true := by
    intro front piece hne hopens
    rwa [List.getLast?_append_of_ne_nil _ hne] at hopens
  rcases List.append_eq_append_iff.1 heq with ⟨piece, rfl, hpiece⟩ | ⟨piece, rfl, hpiece⟩
  · by_cases hne : piece = []
    · rw [hne, List.append_nil]
    · exact absurd (h.not_append h' (hlonger hne hleft') hpiece) hne
  · by_cases hne : piece = []
    · rw [hne, List.append_nil]
    · exact absurd (h'.not_append h (hlonger hne hleft) hpiece) hne

end Opens

end Parts

/-! ### Calls at a place -/

/-- The beginning of a call in a text: one of the methods at the beginning of a word, and behind it a whole symbol. -/
structure CallStart (methods : List (List Char)) where
  front : List Char
  method : List Char
  gap : List Char
  name : List Char
  rest : List Char
  method_mem : method ∈ methods
  opensWord_front : opensWord front.getLast? = true
  isGap_gap : isGap gap = true
  name_ne_nil : name ≠ []
  isNameChar_of_mem : ∀ c ∈ name, isNameChar c = true
  ends_name : Option.any isNameChar rest.head? = false

namespace CallStart

variable {methods : List (List Char)} {before : Option Char} {hit : Hit CallText} {call : Found CallText}

def back (start : CallStart methods) : List Char :=
  start.method ++ (start.gap ++ ':' :: (start.name ++ start.rest))

def text (start : CallStart methods) : List Char := start.front ++ start.back

def colon (start : CallStart methods) : Nat := start.front.length + (start.method ++ start.gap).length

theorem any_head?_of_isValidName {method : List Char} (hmethod : isValidName method = true) (tail : List Char) :
    Option.any isWordChar (method ++ tail).head? = true := by
  have hhead := head?_of_isValidName hmethod
  cases method with
  | nil => cases hhead
  | cons c method => exact hhead

theorem opensWord_of_backtrackingCall? {text : List Char} (hvalid : ∀ method ∈ methods, isValidName method = true)
    (h : backtrackingCall? methods before text = some hit) : opensWord before = true := by
  obtain ⟨hboundary, method, hmem, gap, rest, -, -, -, rfl, -⟩ := backtrackingCall?_cases h
  rw [any_head?_of_isValidName (hvalid method hmem)] at hboundary
  simpa [opensWord] using hboundary

variable (start : CallStart methods)

/-- Whatever method it is read with, a call has the symbol behind the first colon for its first one, and it can end
behind that or go on there. -/
theorem parts_of_backtrackingCall? (hvalid : ∀ method ∈ methods, isValidName method = true)
    (h : backtrackingCall? methods before start.back = some hit) :
    hit.parts.opening = start.method ++ start.gap ∧ hit.parts.first = start.name ∧ endsCall start.rest = true := by
  obtain ⟨-, method, hmethod, gap, rest, left, hgap, hopening, htext, hne, hname, htail, -⟩ :=
    backtrackingCall?_cases h
  rw [back, ← List.append_assoc, ← List.append_assoc] at htext
  obtain ⟨hsame, hbehind⟩ := (opens_of_isValidName (hvalid _ start.method_mem) start.isGap_gap).eq_of_append_colon
    (opens_of_isValidName (hvalid method hmethod) hgap) htext
  obtain ⟨hfirst, rfl⟩ :=
    word_unique start.isNameChar_of_mem start.ends_name hname (head?_of_tailSearch htail) hbehind
  refine ⟨hopening.trans hsame.symm, hfirst.symm, ?_⟩
  rw [← isSome_tailSearch, htail]
  rfl

theorem exists_backtrackingCall? (hvalid : ∀ method ∈ methods, isValidName method = true)
    (hbefore : opensWord before = true) (hends : endsCall start.rest = true) :
    ∃ hit, backtrackingCall? methods before start.back = some hit := by
  have hsymbol := symbol?_of_name start.name_ne_nil start.isNameChar_of_mem start.ends_name
  have hsearch : ((callSearch methods).first? start.back).isSome = true := by
    rw [callSearch, first?_anyOf_bind, List.findSome?_isSome_iff]
    refine ⟨start.method, start.method_mem, ?_⟩
    rw [back, after?_eq_some_iff.2 rfl, Option.bind_some, first?, behindMethod_gap start.isGap_gap, behindOpening_eq,
      hsymbol, List.head?_map, Option.isSome_map]
    exact (isSome_tailSearch start.rest).trans hends
  have hboundary : (Option.any isWordChar before != Option.any isWordChar start.back.head?) = true := by
    rw [back, any_head?_of_isValidName (hvalid _ start.method_mem)]
    simpa [opensWord] using hbefore
  obtain ⟨read, hread⟩ := Option.isSome_iff_exists.1 hsearch
  rw [backtrackingCall?, if_pos hboundary, hread]
  exact ⟨_, rfl⟩

/-- A call whose first colon is at the given place starts with the method before it. -/
theorem start_of_call (hvalid : ∀ method ∈ methods, isValidName method = true)
    (hcall : call ∈ occurrences (backtrackingCall? methods) start.text)
    (hcolon : call.start + call.parts.opening.length = start.colon) :
    call.start = start.front.length ∧ endsCall start.rest = true := by
  obtain ⟨left, right, htext, -, hstart, hsome⟩ := occurs_of_mem_occurrences hcall
  have hleft := opensWord_of_backtrackingCall? hvalid hsome
  rw [lastOr, Option.or_none] at hleft
  obtain ⟨-, method, hmethod, gap, rest, -, hgap, hopening, rfl, -⟩ := backtrackingCall?_cases hsome
  -- Both openings end at the colon, and so they start at the same place.
  have hsame : start.front ++ (start.method ++ start.gap) = left ++ (method ++ gap) := by
    have hlength : (start.front ++ (start.method ++ start.gap)).length = (left ++ (method ++ gap)).length := by
      rw [List.length_append, @List.length_append _ left, ← hopening, ← colon, ← hcolon, hstart, Nat.zero_add]
    simp only [text, back, ← List.append_assoc] at htext hlength ⊢
    exact (List.append_inj htext hlength).1
  have hfront := (opens_of_isValidName (hvalid _ start.method_mem) start.isGap_gap).eq_of_append
    (opens_of_isValidName (hvalid method hmethod) hgap) start.opensWord_front hleft hsame
  rw [text, ← hfront] at htext
  rw [← List.append_cancel_left htext] at hsome
  exact ⟨by rw [hstart, hfront, Nat.zero_add], (start.parts_of_backtrackingCall? hvalid hsome).2.2⟩

/-- There is a call whose first colon is at the given place if it can end there and no other call covers it. -/
theorem exists_call (hvalid : ∀ method ∈ methods, isValidName method = true) (hends : endsCall start.rest = true)
    (huncovered : ∀ call ∈ occurrences (backtrackingCall? methods) start.text,
      call.start < start.front.length → call.stop ≤ start.front.length) :
    ∃ call ∈ occurrences (backtrackingCall? methods) start.text,
      call.start + call.parts.opening.length = start.colon ∧ call.parts.first = start.name := by
  obtain ⟨hit, hhit⟩ := start.exists_backtrackingCall? hvalid start.opensWord_front hends
  obtain ⟨hopening, hfirst, -⟩ := start.parts_of_backtrackingCall? hvalid hhit
  let call : Found CallText := ⟨start.front.length, hit.length, hit.parts⟩
  have hoccurs : Occurs (backtrackingCall? methods) 0 none start.text call := by
    refine ⟨start.front, start.back, rfl, by simp [back], (Nat.zero_add _).symm, ?_⟩
    rw [lastOr, Option.or_none]
    exact hhit
  refine ⟨call, ?_, ?_, hfirst⟩
  · rcases hoccurs.mem_or_covered with hcall | ⟨other, hother, hlt, hcovered⟩
    · exact hcall
    · exact absurd (huncovered other hother hlt) (Nat.not_le_of_lt hcovered)
  · rw [colon, ← hopening]

end CallStart

end Pattern

namespace Resolver

variable {store : Store} {clock : Clock} {index : LineIndex} {call : Found CallText} {reference : Reference}

theorem exists_factory_reference {factory : Factory}
    (hlive : store.factory? clock (String.ofList call.parts.first) = some factory) :
    ∃ reference ∈ siteReferences store clock index call, reference.kind = .factory ∧
      reference.start = call.start + call.parts.opening.length ∧
      reference.stop = reference.start + 1 + call.parts.first.length := by
  let colon := call.start + call.parts.opening.length
  let reference : Reference :=
    ⟨.factory, colon, colon + 1 + call.parts.first.length, index.position colon, factory.location, none⟩
  refine ⟨reference, List.mem_append_left _ (Option.mem_toList.2 ?_), rfl, rfl, rfl⟩
  rw [hlive]
  rfl

theorem start_of_factory_reference (hmem : reference ∈ siteReferences store clock index call)
    (hkind : reference.kind = .factory) : reference.start = call.start + call.parts.opening.length := by
  rcases List.mem_append.1 hmem with hmem | hmem
  · obtain ⟨factory, -, rfl⟩ := Option.map_eq_some_iff.1 (Option.mem_toList.1 hmem)
    rfl
  · obtain ⟨found, -, hfound⟩ := List.mem_filterMap.1 hmem
    obtain ⟨trait, -, rfl⟩ := Option.map_eq_some_iff.1 hfound
    cases hkind

end Resolver

/-- **A call is found unless it cannot end or another call covers it.** Let a text have one of the methods at the
beginning of a word, then blanks, maybe an opening parenthesis and blanks, and a symbol that names a live factory. The
text has a reference for that symbol if and only if the call can end behind the symbol, or go on there with a comma,
and no call site that starts further left reaches beyond the place where the method starts. -/
theorem call_found_iff {methods : List Value} {pattern : CallPattern}
    (hpattern : CallPattern.ofMethods methods = .ok pattern) (start : CallStart pattern.methods) {store : Store}
    {clock : Clock} {factory : Factory} (hlive : store.factory? clock (String.ofList start.name) = some factory) :
    (∃ reference ∈ (resolve store clock methods start.text).references, reference.kind = .factory ∧
        reference.start = start.colon ∧ reference.stop = start.colon + 1 + start.name.length) ↔
      endsCall start.rest = true ∧
        ∀ call ∈ pattern.calls start.text, call.start < start.front.length → call.stop ≤ start.front.length := by
  have hvalid : ∀ method ∈ pattern.methods, isValidName method = true :=
    fun _ => CallPattern.isValidName_of_mem hpattern
  have hreferences : (resolve store clock methods start.text).references =
      (occurrences (backtrackingCall? pattern.methods) start.text).flatMap
        (Resolver.siteReferences store clock (.ofText start.text)) := by
    rw [resolve, hpattern]
    exact Resolver.references_eq hvalid store clock start.text
  rw [hreferences, CallPattern.calls_eq hvalid, List.forall_mem_map]
  constructor
  · rintro ⟨reference, href, hkind, hstart, -⟩
    obtain ⟨call, hcall, hsite⟩ := List.mem_flatMap.1 href
    have hcolon := (Resolver.start_of_factory_reference hsite hkind).symm.trans hstart
    obtain ⟨hplace, hends⟩ := start.start_of_call hvalid hcall hcolon
    refine ⟨hends, fun other hother hlt => ?_⟩
    rw [← hplace] at hlt ⊢
    exact stop_le_start_of_mem hother hcall hlt
  · rintro ⟨hends, huncovered⟩
    obtain ⟨call, hcall, hcolon, hfirst⟩ := start.exists_call hvalid hends huncovered
    rw [← hfirst] at hlive
    obtain ⟨reference, href, hkind, hstart, hstop⟩ :=
      @Resolver.exists_factory_reference store clock (.ofText start.text) call factory hlive
    rw [hcolon] at hstart
    rw [hstart, hfirst] at hstop
    exact ⟨reference, List.mem_flatMap.2 ⟨call, hcall, href⟩, hkind, hstart, hstop⟩

/-- Two live factories, and a text with three calls. The second one is an argument of the first and has no reference;
the third one stands on a line of its own and has one. -/
theorem call_found_iff_below :
    let factory (name : String) : Factory := { name := name, location := { file := "a.rb", line := 0 } }
    let store := ((Store.empty 60000).upsertFactory ⟨0, 0⟩ (factory "u")).upsertFactory ⟨0, 0⟩ (factory "p")
    let text := "create(:u, create(:p))\ncreate :p".toList
    let references := (resolve store ⟨0, 0⟩ [.text "create"] text).references
    references.map (·.start) = [7, 30] ∧
      ∃ reference ∈ references, reference.kind = .factory ∧ reference.start = 30 ∧ reference.stop = 32 := by
  intro factory store text references
  have hpattern : CallPattern.ofMethods [.text "create"] = .ok ⟨["create".toList]⟩ :=
    CallPattern.ofMethods_eq_ok_iff.2 ⟨by simp, by decide, by decide +kernel⟩
  let start : CallStart ["create".toList] :=
    { front := "create(:u, create(:p))\n".toList, method := "create".toList, gap := [' '], name := ['p'], rest := []
      method_mem := by simp, opensWord_front := by decide +kernel, isGap_gap := by decide, name_ne_nil := by simp
      isNameChar_of_mem := List.all_eq_true.1 rfl, ends_name := by rfl }
  have hsome : (store.factory? ⟨0, 0⟩ (String.ofList start.name)).isSome = true := by decide +kernel
  obtain ⟨found, hlive⟩ := Option.isSome_iff_exists.1 hsome
  refine ⟨by decide +kernel, (call_found_iff hpattern start hlive).2 ⟨by decide, ?_⟩⟩
  decide +kernel

/-- A call in braces without parentheses of its own has no reference, nor has one among the arguments of another
call, although both name a live factory. -/
theorem calls_missed :
    let store := (Store.empty 60000).upsertFactory ⟨0, 0⟩ { name := "u", location := { file := "a.rb", line := 0 } }
    let braced : CallStart ["create".toList] :=
      { front := "let(:u) \x7b ".toList, method := "create".toList, gap := [' '], name := ['u'], rest := " \x7d".toList
        method_mem := by simp, opensWord_front := by decide +kernel, isGap_gap := by decide, name_ne_nil := by simp
        isNameChar_of_mem := List.all_eq_true.1 rfl, ends_name := by rfl }
    let nested : CallStart ["create".toList] :=
      { front := "create(:p, ".toList, method := "create".toList, gap := ['('], name := ['u'], rest := "))".toList
        method_mem := by simp, opensWord_front := by decide +kernel, isGap_gap := by decide, name_ne_nil := by simp
        isNameChar_of_mem := List.all_eq_true.1 rfl, ends_name := by rfl }
    (store.factory? ⟨0, 0⟩ "u").isSome = true ∧
      braced.text = "let(:u) \x7b create :u \x7d".toList ∧ nested.text = "create(:p, create(:u))".toList ∧
      (resolve store ⟨0, 0⟩ [.text "create"] braced.text).references = [] ∧
      (resolve store ⟨0, 0⟩ [.text "create"] nested.text).references = [] := by
  decide +kernel

end FactoryIndex
