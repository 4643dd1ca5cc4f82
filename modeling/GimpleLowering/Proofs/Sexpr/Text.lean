import GimpleLowering.Sexpr.Reader

/-!
# S-expressions and their texts

The text of an s-expression is read back as the same s-expression. The reader looks at one
character to see what comes next, so what matters is how the text of an element begins, and that
a symbol without bars ends where a special character follows.

## Main definitions

* `Sexpr.EndsSymbol` — a text that a symbol cannot run into

## Main results

* `Sexpr.value_chars` — an s-expression is read off the front of a text
* `Sexpr.ofText?_text` — the text of an s-expression is read as that s-expression
-/

namespace GimpleLowering.Sexpr

/-! ### Symbols -/

/-- A symbol before the text ends there. -/
def EndsSymbol (rest : List Char) : Prop := ∀ c ∈ rest.head?, isSpecial c = true

theorem endsSymbol_nil : EndsSymbol [] := by simp [EndsSymbol]

theorem endsSymbol_cons {c : Char} (h : isSpecial c = true) (rest : List Char) :
    EndsSymbol (c :: rest) := by simpa [EndsSymbol] using h

theorem isSpecial_of_isBlank {c : Char} (h : Text.isBlank c = true) : isSpecial c = true := by
  simp [isSpecial, h]

/-- What was quoted is read back up to the bar that ends it. -/
theorem quoted_escape (name rest acc : List Char) :
    Reader.quoted (name.flatMap escape ++ '|' :: rest) acc =
      some (String.ofList (acc.reverse ++ name), rest) := by
  induction name generalizing acc with
  | nil => simp [Reader.quoted]
  | cons c name ih =>
    rw [List.flatMap_cons, List.append_assoc]
    by_cases hc : isSpecial c = true
    · rw [escape, if_pos hc, List.cons_append, List.cons_append, List.nil_append, Reader.quoted, ih]
      simp
    · -- A bar or a backslash would be special.
      have hbar : c ≠ '|' := by
        rintro rfl
        exact hc (by decide)
      have hslash : c ≠ '\\' := by
        rintro rfl
        exact hc (by decide)
      rw [escape, if_neg hc, List.cons_append, List.nil_append,
        Reader.quoted.eq_3 _ _ _ hbar (fun _ _ h _ => hslash h), if_neg hc, ih]
      simp

/-- A symbol without special characters is read up to the next one. -/
theorem bare_append {name rest : List Char} (h : needsBars name = false) (hr : EndsSymbol rest) :
    Reader.bare (name ++ rest) = some (String.ofList name, rest) := by
  simp only [needsBars, Bool.or_eq_false_iff, List.isEmpty_eq_false_iff, List.any_eq_false,
    Bool.not_eq_true] at h
  have htake : (name ++ rest).takeWhile (fun c => ¬ isSpecial c) = name := by
    rw [List.takeWhile_append_of_pos (by simpa using h.2)]
    cases rest with
    | nil => simp
    | cons c rest => simp [hr c (by simp)]
  simp only [Reader.bare, htake]
  simp [h.1]

/-! ### First characters -/

/-- The character begins an element of a list: it is no blank and does not close the list. -/
def BeginsElement (c : Char) : Prop := c ≠ ')' ∧ Text.isBlank c = false

theorem symbolChars_eq_cons (name : List Char) : ∃ c cs, symbolChars name = c :: cs ∧
    BeginsElement c ∧ c ≠ '(' ∧ (c = '|' → needsBars name = true) := by
  unfold symbolChars
  split
  · rename_i h
    exact ⟨'|', _, rfl, ⟨by decide, by decide⟩, by decide, fun _ => h⟩
  · rename_i h
    cases name with
    | nil => simp [needsBars] at h
    | cons c cs =>
      have hc : isSpecial c = false := by
        simp only [needsBars, Bool.not_eq_true, Bool.or_eq_false_iff, List.any_cons] at h
        exact h.2.1
      have hne : ∀ d, isSpecial d = true → c ≠ d := by
        rintro d hd rfl
        simp [hd] at hc
      refine ⟨c, cs, rfl, ⟨hne _ (by decide), ?_⟩, hne _ (by decide),
        fun heq => absurd heq (hne _ (by decide))⟩
      cases hb : Text.isBlank c with
      | false => rfl
      | true => exact absurd rfl (hne c (isSpecial_of_isBlank hb))

theorem chars_eq_cons (s : Sexpr) : ∃ c cs, s.chars = c :: cs ∧ BeginsElement c := by
  cases s with
  | symbol name =>
    obtain ⟨c, cs, h, hc, -⟩ := symbolChars_eq_cons name.toList
    exact ⟨c, cs, by rw [chars, h], hc⟩
  | list items => exact ⟨'(', _, by rw [chars]; rfl, by decide, by decide⟩

theorem length_chars_pos (s : Sexpr) : 0 < s.chars.length := by
  obtain ⟨c, cs, h, -⟩ := s.chars_eq_cons
  simp [h]

theorem itemChars_eq_cons (s : Sexpr) (ss : List Sexpr) :
    ∃ c cs, itemChars (s :: ss) = c :: cs ∧ BeginsElement c := by
  obtain ⟨c, cs, h, hc⟩ := s.chars_eq_cons
  cases ss with
  | nil => exact ⟨c, cs, by rw [itemChars, h], hc⟩
  | cons t ss => exact ⟨c, cs ++ ' ' :: itemChars (t :: ss), by simp [itemChars, h], hc⟩

theorem skip_cons {c : Char} (hc : BeginsElement c) (cs : List Char) :
    Reader.skip (c :: cs) = c :: cs := by
  simp [Reader.skip, hc.2]

/-! ### Reading back -/

theorem value_symbol (name : String) (fuel : Nat) {rest : List Char} (hr : EndsSymbol rest) :
    Reader.value (fuel + 1) ((symbol name).chars ++ rest) = some (symbol name, rest) := by
  rw [chars]
  obtain ⟨c, cs, h, hc, hopen, hbar⟩ := symbolChars_eq_cons name.toList
  by_cases hb : needsBars name.toList = true
  · rw [symbolChars, if_pos hb, List.append_assoc, List.cons_append, List.singleton_append,
      Reader.value, quoted_escape]
    simp
  · have hname : symbolChars name.toList = name.toList := by rw [symbolChars, if_neg hb]
    have hne : c ≠ '|' := fun heq => hb (hbar heq)
    have hread := bare_append (by simpa using hb) hr
    rw [hname] at h
    rw [hname]
    rw [h, List.cons_append] at hread ⊢
    rw [Reader.value.eq_5 _ _ (fun _ heq => hopen (List.cons.inj heq).1)
      (fun _ heq => hopen (List.cons.inj heq).1) (fun _ heq => hne (List.cons.inj heq).1), hread,
      ← h]
    simp

mutual

/-- An s-expression is read off the front of a text, with a step for each of its characters. -/
theorem value_chars : (s : Sexpr) → (fuel : Nat) → s.chars.length ≤ fuel → {rest : List Char} →
    EndsSymbol rest → Reader.value fuel (s.chars ++ rest) = some (s, rest)
  | s, 0, hfuel, _, _ => absurd hfuel (Nat.not_le_of_lt s.length_chars_pos)
  | .symbol name, fuel + 1, _, _, hr => value_symbol name fuel hr
  | .list [], _ + 1, _, _, _ => rfl
  | .list (s :: ss), fuel + 1, hfuel, rest, _ => by
    obtain ⟨c, cs, h, hc⟩ := itemChars_eq_cons s ss
    have hlen : (itemChars (s :: ss)).length + 1 ≤ fuel := by
      simp only [chars, List.length_cons, List.length_append, List.length_nil] at hfuel
      omega
    have hitems := items_itemChars (s :: ss) (List.cons_ne_nil s ss) fuel hlen rest
    rw [chars, List.append_assoc, List.cons_append, List.singleton_append]
    rw [h, List.cons_append] at hitems ⊢
    rw [Reader.value.eq_3 _ _ (fun _ heq => hc.1 (List.cons.inj heq).1), hitems]
    rfl
termination_by structural s => s

/-- The elements of a list are read up to its closing parenthesis. -/
theorem items_itemChars : (ss : List Sexpr) → ss ≠ [] → (fuel : Nat) →
    (itemChars ss).length + 1 ≤ fuel → (rest : List Char) →
    Reader.items fuel (itemChars ss ++ ')' :: rest) = some (ss, rest)
  | [], hne, _, _, _ => absurd rfl hne
  | _, _, 0, hfuel, _ => absurd hfuel (Nat.not_succ_le_zero _)
  | [s], _, fuel + 1, hfuel, rest => by
    simp only [itemChars, Nat.add_le_add_iff_right] at hfuel
    have hread := value_chars s fuel hfuel (endsSymbol_cons (c := ')') (by decide) rest)
    rw [itemChars, Reader.items, hread]
    rfl
  | s :: t :: ss, _, fuel + 1, hfuel, rest => by
    obtain ⟨c, cs, h, hc⟩ := itemChars_eq_cons t ss
    have hpos := s.length_chars_pos
    simp only [itemChars, List.length_append, List.length_cons] at hfuel
    have hread := value_chars s fuel (by omega)
      (endsSymbol_cons (c := ' ') (by decide) (itemChars (t :: ss) ++ ')' :: rest))
    have hitems := items_itemChars (t :: ss) (List.cons_ne_nil t ss) fuel (by omega) rest
    have hskip : Reader.skip (itemChars (t :: ss) ++ ')' :: rest) =
        itemChars (t :: ss) ++ ')' :: rest := by
      rw [h, List.cons_append, skip_cons hc]
    rw [itemChars.eq_3 _ _ (List.cons_ne_nil t ss), List.append_assoc, List.cons_append,
      Reader.items, hread]
    change (if Text.isBlank ' ' = true then (Reader.items fuel (Reader.skip (_ ++ _))).map _
      else none) = _
    rw [if_pos (by decide), hskip, hitems]
    rfl
termination_by structural ss => ss

end

/-- The text of an s-expression is read as that s-expression. -/
theorem ofText?_text (s : Sexpr) : ofText? s.text = some s := by
  obtain ⟨c, cs, h, hc⟩ := s.chars_eq_cons
  have hskip : Reader.skip s.chars = s.chars := by rw [h, skip_cons hc]
  have hread := value_chars s (2 * s.chars.length + 2) (by omega) endsSymbol_nil
  rw [List.append_nil] at hread
  simp only [ofText?, text, String.toList_ofList, hskip, hread]
  rfl

end GimpleLowering.Sexpr
