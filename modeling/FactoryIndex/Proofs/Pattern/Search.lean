import FactoryIndex.Proofs.Pattern.Scan

/-!
# Backtracking searches

A `Search` reads a piece of text in all the ways that an expression allows, in the order in which a backtracking search
tries them: the longest repetition first, an optional part before its absence. Its first success is the match. What
comes later in an expression decides which of the ways survive, so an expression may end up with less than it could
have read.

Mostly this does not happen. A run of characters is cut short in vain if nothing that is to follow can start with a
character of the run, and then only the longest run counts.
-/

namespace FactoryIndex.Pattern

open Text

/-- What can be read at the start of a text, with the rest of the text, in the order of preference. -/
def Search (α : Type) : Type := List Char → List (α × List Char)

namespace Search

variable {α β γ : Type}

instance : Monad Search where
  pure value := fun text => [(value, text)]
  bind search next := fun text => (search text).flatMap fun read => next read.1 read.2

def first? (search : Search α) (text : List Char) : Option (α × List Char) := (search text).head?

def one (p : Char → Bool) : Search (List Char)
  | [] => []
  | c :: rest => if p c then [([c], rest)] else []

/-- A run of characters of a class, the longest one first. -/
def most (p : Char → Bool) : Search (List Char)
  | [] => [([], [])]
  | c :: rest =>
    if p c then (most p rest).map (fun read => (c :: read.1, read.2)) ++ [([], c :: rest)] else [([], c :: rest)]

def atLeastOne (p : Char → Bool) : Search (List Char) := do
  let start ← one p
  let others ← most p
  return start ++ others

/-- One of the given words, in their order. -/
def anyOf (words : List (List Char)) : Search (List Char) := fun text =>
  words.flatMap fun word => ((after? word text).map fun rest => (word, rest)).toList

def orElse (left right : Search α) : Search α := fun text => left text ++ right text

def maybe (search : Search (List Char)) : Search (List Char) := search.orElse (pure [])

/-- What a search reads again and again, as often as possible first. A round that reads nothing is not made. -/
def often (search : Search (List Char)) : Search (List Char) := fun text =>
  ((search text).flatMap fun read =>
    if _h : read.2.length < text.length then
      (often search read.2).map fun others => (read.1 ++ others.1, others.2)
    else []) ++ [([], text)]
termination_by text => text.length

/-- The end of a text, or the place before a newline that ends it. -/
def atEnd : Search (List Char) := fun text => if text = [] ∨ text = ['\n'] then [([], text)] else []

/-! ### What is left to do after a search -/

theorem bind_apply (search : Search α) (next : α → Search β) (text : List Char) :
    (search >>= next) text = (search text).flatMap fun read => next read.1 read.2 := rfl

theorem bind_assoc (search : Search α) (next : α → Search β) (last : β → Search γ) :
    search >>= next >>= last = search >>= fun value => next value >>= last := by
  funext text
  simp only [bind_apply, List.flatMap_assoc]

theorem pure_bind (value : α) (next : α → Search β) : pure value >>= next = next value := by
  funext text
  exact List.append_nil _

theorem bind_pure_apply (search : Search α) (f : α → β) (text : List Char) :
    (search >>= fun value => pure (f value)) text = (search text).map fun read => (f read.1, read.2) :=
  List.map_eq_flatMap.symm

theorem first?_bind (search : Search α) (next : α → Search β) (text : List Char) :
    (search >>= next).first? text = (search text).findSome? fun read => (next read.1).first? read.2 := by
  rw [first?, bind_apply, List.head?_flatMap]
  rfl

theorem first?_bind_of_some {search : Search α} {next : α → Search β} {text rest : List Char} {value : α}
    {last : β × List Char} (hsearch : search.first? text = some (value, rest))
    (hnext : (next value).first? rest = some last) : (search >>= next).first? text = some last := by
  rw [first?_bind]
  cases hreads : search text with
  | nil => simp [first?, hreads] at hsearch
  | cons read others =>
      obtain rfl : read = (value, rest) := by simpa [first?, hreads] using hsearch
      rw [List.findSome?_cons, hnext]

theorem first?_bind_pure (search : Search α) (f : α → β) (text : List Char) :
    (search >>= fun value => pure (f value)).first? text =
      (search.first? text).map fun read => (f read.1, read.2) := by
  rw [first?, bind_pure_apply, List.head?_map]
  rfl

theorem first?_orElse (left right : Search α) (text : List Char) :
    (left.orElse right).first? text = (left.first? text).or (right.first? text) := List.head?_append

theorem first?_most (p : Char → Bool) (text : List Char) :
    (most p).first? text = some (text.takeWhile p, text.dropWhile p) := by
  induction text with
  | nil => rfl
  | cons c rest ih =>
      rw [first?] at ih ⊢
      cases hc : p c with
      | false => simp [most, hc]
      | true => simp [most, hc, ih]

theorem first?_anyOf_bind (words : List (List Char)) (next : List Char → Search β) (text : List Char) :
    (anyOf words >>= next).first? text =
      words.findSome? fun word => (after? word text).bind fun rest => (next word).first? rest := by
  rw [first?, bind_apply, anyOf, List.flatMap_assoc, List.head?_flatMap]
  congr 1
  funext word
  cases after? word text with
  | none => rfl
  | some rest => simp [first?]

theorem one_bind (p : Char → Bool) (next : List Char → Search β) (c : Char) (rest : List Char) :
    (one p >>= next) (c :: rest) = if p c then next [c] rest else [] := by
  rw [bind_apply, one]
  split
  · exact List.append_nil _
  · rfl

theorem orElse_bind (left right : Search α) (next : α → Search β) (text : List Char) :
    (left.orElse right >>= next) text = (left >>= next) text ++ (right >>= next) text := by
  rw [bind_apply, orElse, List.flatMap_append]
  rfl

theorem maybe_bind (search : Search (List Char)) (next : List Char → Search β) (text : List Char) :
    (search.maybe >>= next) text = (search >>= next) text ++ next [] text := by
  rw [maybe, orElse_bind, pure_bind]

theorem often_bind (search : Search (List Char)) (next : List Char → Search β) (text : List Char) :
    (search.often >>= next) text =
      ((search text).flatMap fun read =>
        if read.2.length < text.length then (search.often >>= fun others => next (read.1 ++ others)) read.2 else []) ++
      next [] text := by
  rw [bind_apply, often, List.flatMap_append, List.flatMap_assoc, List.flatMap_singleton]
  congr 2
  funext read
  by_cases hshorter : read.2.length < text.length
  · rw [dif_pos hshorter, if_pos hshorter, List.flatMap_map]
    rfl
  · rw [dif_neg hshorter, if_neg hshorter]
    rfl

theorem most_of_not {p : Char → Bool} {text : List Char} (htext : Option.any p text.head? = false) :
    most p text = [([], text)] := by
  cases text with
  | nil => rfl
  | cons c rest =>
      have hc : p c = false := htext
      rw [most, hc, if_neg Bool.false_ne_true]

/-- Only the longest run counts if nothing that follows starts with a character of the run. -/
theorem most_bind {p : Char → Bool} {next : List Char → Search β}
    (hstuck : ∀ piece c rest, p c = true → next piece (c :: rest) = []) (text : List Char) :
    (most p >>= next) text = next (text.takeWhile p) (text.dropWhile p) := by
  induction text generalizing next with
  | nil => exact List.append_nil _
  | cons c rest ih =>
      cases hc : p c with
      | false =>
          rw [bind_apply, most_of_not (show Option.any p (some c) = false from hc)]
          simp [hc]
      | true =>
          have hlonger : (most p >>= fun piece => next (c :: piece)) rest =
              next (c :: rest.takeWhile p) (rest.dropWhile p) := ih fun piece => hstuck (c :: piece)
          rw [bind_apply, most, if_pos hc, List.flatMap_append, List.flatMap_map, List.flatMap_singleton,
            hstuck [] c rest hc, List.append_nil, List.takeWhile_cons_of_pos hc, List.dropWhile_cons_of_pos hc]
          exact hlonger

theorem atLeastOne_bind {p : Char → Bool} {next : List Char → Search β}
    (hstuck : ∀ piece c rest, p c = true → next piece (c :: rest) = []) (text : List Char) :
    (atLeastOne p >>= next) text =
      if (text.takeWhile p).isEmpty then [] else next (text.takeWhile p) (text.dropWhile p) := by
  rw [atLeastOne, bind_assoc]
  cases text with
  | nil => rfl
  | cons c rest =>
      rw [one_bind]
      cases hc : p c with
      | false => simp [hc]
      | true =>
          have hlonger : (most p >>= fun piece => next (c :: piece)) rest =
              next (c :: rest.takeWhile p) (rest.dropWhile p) := most_bind (fun piece => hstuck (c :: piece)) rest
          simp only [bind_assoc, pure_bind, if_true, List.takeWhile_cons_of_pos hc, List.dropWhile_cons_of_pos hc,
            List.isEmpty_cons, Bool.false_eq_true, if_false]
          exact hlonger

end Search

end FactoryIndex.Pattern
