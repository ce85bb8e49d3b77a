import FactoryIndex.Value.Reader
import FactoryIndex.Proofs.Pattern.Scan

/-!
# How far the reader of values goes

Every step of the reader takes something off the front of the text, and what it finds wrong lies inside the
text. As two nested steps take at least one character, the fuel that `read` hands out always suffices: no text is
refused because the reader would not go on.
-/

namespace FactoryIndex.Value

variable {α β : Type} {whole whole' below below' : Nat} {text rest : List Char}

/-- What a step leaves of a text: fewer than `below` characters behind a result, at most `whole` where something
is wrong. -/
def Advances (whole below : Nat) : Reading α → Prop
  | .ok (_, rest) => rest.length < below
  | .error (.malformed _ left) => left ≤ whole
  | .error _ => True

namespace Advances

variable {reading : Reading α}

theorem map {f : α × List Char → β × List Char} (h : Advances whole below reading)
    (hf : ∀ result, (f result).2 = result.2) : Advances whole below (reading.map f) := by
  match reading, h with
  | .ok result, h => exact Nat.lt_of_le_of_lt (Nat.le_of_eq (congrArg List.length (hf result))) h
  | .error (.malformed ..), h => exact h
  | .error (.tooManyDigits _), _ | .error (.tooDeep _), _ => trivial

theorem mono (h : Advances whole below reading) (hwhole : whole ≤ whole') (hbelow : below ≤ below') :
    Advances whole' below' reading := by
  match reading, h with
  | .ok _, h => exact Nat.lt_of_lt_of_le h hbelow
  | .error (.malformed ..), h => exact Nat.le_trans h hwhole
  | .error (.tooManyDigits _), _ | .error (.tooDeep _), _ => trivial

theorem lt {result : α} (h : Advances whole below reading) (hok : reading = .ok (result, rest)) :
    rest.length < below := by
  rw [hok] at h
  exact h

theorem error {fault : ReadFault} (h : Advances whole below reading) (herror : reading = .error fault) :
    Advances whole below (.error fault : Reading β) := by
  rw [herror] at h
  cases fault <;> exact h

end Advances

theorem length_dropWhile_le (p : Char → Bool) (text : List Char) : (text.dropWhile p).length ≤ text.length :=
  (List.dropWhile_suffix p).length_le

theorem length_skipSpacing_le (text : List Char) : (skipSpacing text).length ≤ text.length :=
  length_dropWhile_le isSpacing text

theorem length_of_skipSpacing {c : Char} (h : skipSpacing text = c :: rest) : rest.length < text.length := by
  have hspacing := length_skipSpacing_le text
  rw [h, List.length_cons] at hspacing
  exact hspacing

theorem advances_readString (h : text.length ≤ whole) : Advances whole text.length (readString whole text) := by
  fun_induction readString whole text with
  | case1 | case2 => exact Nat.le_refl whole
  | case3 | case5 | case7 | case9 =>
      simp only [List.length_cons] at h
      simp only [Advances]
      omega
  | case4 _ _ _ _ _ _ _ _ ih | case6 _ _ _ _ _ _ ih | case10 _ _ _ _ _ _ _ _ ih =>
      simp only [List.length_cons] at h ih ⊢
      exact ((ih (by omega)).mono (Nat.le_refl whole) (by omega)).map fun _ => rfl
  | case8 => exact Nat.lt_succ_self _

/-! ### Numbers and words -/

theorem length_readFraction {digits : List Char} (h : readFraction text = some (digits, rest)) :
    rest.length ≤ text.length := by
  unfold readFraction at h
  grind [length_dropWhile_le]

theorem length_readExponent {power : Int} (h : readExponent text = some (power, rest)) :
    rest.length ≤ text.length := by
  unfold readExponent at h
  grind [length_dropWhile_le]

theorem length_wholeDigits (text : List Char) : (wholeDigits text).length ≤ text.length := by
  unfold wholeDigits
  split
  · simp
  · exact (List.takeWhile_prefix _).length_le

theorem advances_readNumber {negative : Bool} (h : text.length + (if negative then 1 else 0) ≤ whole) :
    Advances whole text.length (readNumber negative text) := by
  have hwhole := length_wholeDigits text
  have hrest : (text.drop (wholeDigits text).length).length = text.length - (wholeDigits text).length :=
    List.length_drop
  unfold readNumber
  dsimp only
  split
  · exact h
  · next hdigits =>
    have hpos : 0 < (wholeDigits text).length := List.length_pos_iff.mpr (by simpa using hdigits)
    split
    · split
      · simp only [Advances]
        omega
      · trivial
    · next hfraction _ =>
      have hbehind := length_readFraction hfraction
      simp only [Advances]
      omega
    · next hfraction hexponent =>
      rw [hfraction] at hexponent
      have hbehind := length_readExponent hexponent
      simp only [Advances, Option.elim] at hbehind ⊢
      omega
    · next hfraction hexponent =>
      rw [hfraction] at hexponent
      have hpoint := length_readFraction hfraction
      have hbehind := length_readExponent hexponent
      simp only [Advances, Option.elim] at hbehind ⊢
      omega

theorem length_readWord? {value : Value} (h : readWord? text = some (value, rest)) : rest.length < text.length := by
  obtain ⟨⟨word, _⟩, hword, hread⟩ := List.exists_of_findSome?_eq_some h
  obtain ⟨behind, hbehind, hvalue⟩ := Option.map_eq_some_iff.mp hread
  have htext : text = word ++ behind := Pattern.after?_eq_some_iff.mp hbehind
  have hwords : ∀ entry ∈ wordValues, 0 < entry.1.length := by decide
  have hpos : 0 < word.length := hwords _ hword
  cases hvalue
  rw [htext, List.length_append]
  omega

/-! ### Values -/

mutual

theorem advances_readValue (fuel room : Nat) (text : List Char) :
    Advances text.length text.length (readValue fuel room text) := by
  match fuel, text with
  | 0, _ | _ + 1, [] => exact Nat.le_refl _
  | fuel + 1, c :: rest =>
      have hspacing := length_skipSpacing_le rest
      unfold readValue
      dsimp only
      rw [List.length_cons]
      split
      · exact ((advances_readString (Nat.le_succ _)).mono (Nat.le_refl _) (Nat.le_succ _)).map fun _ => rfl
      split
      · split
        · trivial
        · next hempty => exact Nat.lt_succ_of_lt (length_of_skipSpacing hempty)
        · exact ((advances_readItems ..).mono (by omega) (by omega)).map fun _ => rfl
      split
      · split
        · trivial
        · next hempty => exact Nat.lt_succ_of_lt (length_of_skipSpacing hempty)
        · exact (advances_readFields ..).mono (by omega) (by omega)
      split
      · next hword => exact length_readWord? hword
      split
      · exact (advances_readNumber (Nat.le_refl _)).mono (Nat.le_refl _) (Nat.le_succ _)
      · exact advances_readNumber (Nat.le_refl _)

theorem advances_readItems (fuel room : Nat) (text : List Char) :
    Advances text.length text.length (readItems fuel room text) := by
  match fuel with
  | 0 => exact Nat.le_refl _
  | fuel + 1 =>
      have hvalue := advances_readValue fuel room text
      unfold readItems
      split
      · next hfault => exact hvalue.error hfault
      · next item behind hitem =>
        have hbehind := hvalue.lt hitem
        split
        · next rest hcomma =>
          have hrest := length_of_skipSpacing hcomma
          have hspacing := length_skipSpacing_le rest
          exact ((advances_readItems ..).mono (by omega) (by omega)).map fun _ => rfl
        · next hclosed => exact Nat.lt_trans (length_of_skipSpacing hclosed) hbehind
        · exact Nat.le_of_lt (Nat.lt_of_le_of_lt (length_skipSpacing_le behind) hbehind)

theorem advances_readFields (fuel room : Nat) (fields : Fields) (text : List Char) :
    Advances text.length text.length (readFields fuel room fields text) := by
  match fuel with
  | 0 => exact Nat.le_refl _
  | fuel + 1 =>
      unfold readFields
      split
      · next rest =>
        have hstring := advances_readString (Nat.le_succ rest.length)
        rw [List.length_cons]
        split
        · next hfault => exact (hstring.error hfault).mono (Nat.le_refl _) (Nat.le_succ _)
        · next afterName hname =>
          have hafter := hstring.lt hname
          split
          · next behind hcolon =>
            have hbehind := length_of_skipSpacing hcolon
            have hspacing := length_skipSpacing_le behind
            have hvalue := advances_readValue fuel room (skipSpacing behind)
            split
            · next hfault => exact (hvalue.error hfault).mono (by omega) (by omega)
            · next more hread =>
              have hmore := hvalue.lt hread
              split
              · next tail hcomma =>
                have htail := length_of_skipSpacing hcomma
                have hspacing := length_skipSpacing_le tail
                exact (advances_readFields ..).mono (by omega) (by omega)
              · next hclosed =>
                have hlast := length_of_skipSpacing hclosed
                simp only [Advances]
                omega
              · have hspacing := length_skipSpacing_le more
                simp only [Advances]
                omega
          · have hspacing := length_skipSpacing_le afterName
            simp only [Advances]
            omega
      · exact Nat.le_refl _

end

/-- What is wrong with a text lies inside it. -/
theorem left_le_length {flaw : Flaw} {left : Nat} (h : read text = .error (.malformed flaw left)) :
    left ≤ text.length := by
  have hspacing := length_skipSpacing_le text
  have hvalue := advances_readValue (2 * text.length + 1) nestingLimit (skipSpacing text)
  unfold read at h
  split at h
  · cases h
    exact Nat.le_refl _
  split at h
  · next hfault =>
    cases h
    rw [hfault] at hvalue
    exact Nat.le_trans hvalue hspacing
  · next rest hread =>
    have hrest := hvalue.lt hread
    have hbehind := length_skipSpacing_le rest
    dsimp only at h
    split at h
    · cases h
    · cases h
      omega

/-! ### Fuel

The items of a list and the fields of an object start where a value could start, and hand on one less than they
were given. So they need one more than a value there. -/

mutual

theorem readValue_succ (fuel room : Nat) (text : List Char) (h : 2 * text.length < fuel) :
    readValue (fuel + 1) room text = readValue fuel room text := by
  match fuel, text with
  | _ + 1, [] => rfl
  | fuel + 1, c :: rest =>
      have hspacing := length_skipSpacing_le rest
      rw [List.length_cons] at h
      unfold readValue
      dsimp only
      split
      · rfl
      split
      · split
        · rfl
        · rfl
        · rw [readItems_succ fuel _ (skipSpacing rest) (by omega)]
      split
      · split
        · rfl
        · rfl
        · exact readFields_succ fuel _ [] (skipSpacing rest) (by omega)
      rfl

theorem readItems_succ (fuel room : Nat) (text : List Char) (h : 2 * text.length + 1 < fuel) :
    readItems (fuel + 1) room text = readItems fuel room text := by
  match fuel with
  | fuel + 1 =>
      unfold readItems
      rw [readValue_succ fuel room text (by omega)]
      split
      · rfl
      · next item behind hitem =>
        have hbehind := (advances_readValue fuel room text).lt hitem
        split
        · next rest hcomma =>
          have hrest := length_of_skipSpacing hcomma
          have hspacing := length_skipSpacing_le rest
          rw [readItems_succ fuel room (skipSpacing rest) (by omega)]
        · rfl
        · rfl

theorem readFields_succ (fuel room : Nat) (fields : Fields) (text : List Char) (h : 2 * text.length + 1 < fuel) :
    readFields (fuel + 1) room fields text = readFields fuel room fields text := by
  match fuel with
  | fuel + 1 =>
      unfold readFields
      split
      · next rest =>
        rw [List.length_cons] at h
        split
        · rfl
        · next afterName hname =>
          have hafter := (advances_readString (Nat.le_succ rest.length)).lt hname
          split
          · next behind hcolon =>
            have hbehind := length_of_skipSpacing hcolon
            have hspacing := length_skipSpacing_le behind
            rw [readValue_succ fuel room (skipSpacing behind) (by omega)]
            split
            · rfl
            · next hread =>
              have hmore := (advances_readValue fuel room (skipSpacing behind)).lt hread
              split
              · next tail hcomma =>
                have htail := length_of_skipSpacing hcomma
                have hspacing := length_skipSpacing_le tail
                exact readFields_succ fuel room _ (skipSpacing tail) (by omega)
              · rfl
              · rfl
          · rfl
      · rfl

end

/-- **The reader never runs out of fuel.** Whatever is more than twice as much as there are characters gives the same
value, or refuses the text for the same reason. -/
theorem readValue_of_fuel {fuel room : Nat} (h : 2 * text.length < fuel) :
    readValue fuel room text = readValue (2 * text.length + 1) room text := by
  obtain ⟨extra, rfl⟩ := Nat.exists_eq_add_of_le h
  induction extra with
  | zero => rfl
  | succ extra ih =>
      have hless := readValue_succ (2 * text.length + 1 + extra) room text (by omega)
      exact hless.trans (ih (by omega))

end FactoryIndex.Value
