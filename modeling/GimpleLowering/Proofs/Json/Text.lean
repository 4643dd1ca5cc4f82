import GimpleLowering.Proofs.Json.Grammar
import Mathlib.Data.List.DropRight

/-!
# Reading texts of documents

Whatever text a document is written as, it is read as the document. The reader looks at one
character to see what comes next, and goes on with a number as long as it can, so what matters is
how the text of a part begins, and that a number ends where something follows that cannot be part of
one. Blanks are skipped wherever they can stand.

## Main definitions

* `Json.EndsNumber` — a text that a number cannot run into

## Main results

* `Json.Reader.number_append`, `string_append` — numbers and strings at the front of a text
* `Json.Reader.value_isText` — a document at the front of a text
* `Json.Document.ofText_of_isText` — a text of a document is read as this document
-/

namespace GimpleLowering.Json

open Reader

/-! ### Numbers -/

/-- A text that digits cannot run into. -/
def EndsDigits (s : List Char) : Prop := ∀ c ∈ s.head?, isDigit c = false

/-- A text that a number cannot run into. -/
def EndsNumber (s : List Char) : Prop :=
  ∀ c ∈ s.head?, isDigit c = false ∧ c ≠ '.' ∧ ¬ IsExponentLetter c

theorem EndsNumber.endsDigits {s : List Char} (h : EndsNumber s) : EndsDigits s :=
  fun c hc => (h c hc).1

theorem Reader.takeWhile_digits {ds rest : List Char} (h : AreDigits ds) (hr : EndsDigits rest) :
    (ds ++ rest).takeWhile isDigit = ds := by
  rw [List.takeWhile_append_of_pos h.2]
  cases rest with
  | nil => simp
  | cons c rest => simp [hr c rfl]

theorem Reader.integerPart_append {ds rest : List Char} (h : IsWholePart ds)
    (hr : EndsDigits rest) : integerPart (ds ++ rest) = some (ds, rest) := by
  unfold integerPart
  simp only [takeWhile_digits h.1 hr]
  split
  · exact absurd rfl h.1.1
  · exact absurd (h.2 rfl) (by simp)
  · simp

theorem Reader.fractionPart_append {fraction : Option (List Char)} {fs rest : List Char}
    (h : IsFraction fraction fs) (hr : EndsDigits rest) (hpoint : rest.head? ≠ some '.') :
    fractionPart (fs ++ rest) = some (fraction, rest) := by
  cases h with
  | absent =>
    rw [List.nil_append]
    unfold fractionPart
    split
    · exact absurd rfl hpoint
    · rfl
  | point h =>
    rw [List.cons_append]
    unfold fractionPart
    simp [takeWhile_digits h hr, h.1]

theorem Reader.exponentPart_append {exponent : Option Int} {es rest : List Char}
    (h : IsExponent exponent es) (hr : EndsNumber rest) :
    exponentPart (es ++ rest) = some (exponent, rest) := by
  cases h with
  | absent =>
    cases rest with
    | nil => rfl
    | cons c rest => exact if_neg (hr c rfl).2.2
  | @unsigned c ds hc h =>
    -- Digits begin with neither sign.
    obtain ⟨d, ds, rfl⟩ := List.exists_cons_of_ne_nil h.1
    have hd := h.2 d (by simp)
    have hne : ∀ sign, isDigit sign = false → d ≠ sign := by
      rintro _ hsign rfl
      simp [hsign] at hd
    have htake := takeWhile_digits h hr.endsDigits
    simp only [exponentPart, List.cons_append, if_pos (show c = 'e' ∨ c = 'E' from hc)]
    rw [List.cons_append] at htake
    split
    · rename_i heq
      exact absurd (List.cons.inj heq).1 (hne _ rfl)
    · rename_i heq
      exact absurd (List.cons.inj heq).1 (hne _ rfl)
    · simp [htake]
  | plus hc h | minus hc h =>
    have htake := takeWhile_digits h hr.endsDigits
    simp only [exponentPart, List.cons_append, if_pos (show _ = 'e' ∨ _ = 'E' from hc), htake]
    simp [h.1]

theorem IsExponent.endsDigits {exponent : Option Int} {es rest : List Char}
    (h : IsExponent exponent es) (hr : EndsNumber rest) : EndsDigits (es ++ rest) := by
  cases h with
  | absent => exact hr.endsDigits
  | unsigned hc | plus hc | minus hc => rcases hc with rfl | rfl <;> simp [EndsDigits, isDigit]

theorem IsExponent.head?_ne {exponent : Option Int} {es rest : List Char}
    (h : IsExponent exponent es) (hr : EndsNumber rest) : (es ++ rest).head? ≠ some '.' := by
  cases h with
  | absent => exact fun hpoint => (hr '.' hpoint).2.1 rfl
  | unsigned hc | plus hc | minus hc => rcases hc with rfl | rfl <;> simp

theorem IsFraction.endsDigits {fraction : Option (List Char)} {fs rest : List Char}
    (h : IsFraction fraction fs) (hr : EndsDigits rest) : EndsDigits (fs ++ rest) := by
  cases h with
  | absent => exact hr
  | point => simp [EndsDigits, isDigit]
/-- A number is read off the front of a text. -/
theorem Reader.number_append {n : Numeral} {s rest : List Char} (h : n.IsText s)
    (hr : EndsNumber rest) : number (s ++ rest) = some (n, rest) := by
  obtain @⟨negative, whole, fs, es, fraction, exponent, hwhole, hfraction, hexponent⟩ := h
  have hend := hexponent.endsDigits hr
  have hparts : integerPart (whole ++ (fs ++ es) ++ rest) = some (whole, fs ++ (es ++ rest)) := by
    rw [List.append_assoc, List.append_assoc]
    exact integerPart_append hwhole (hfraction.endsDigits hend)
  have hfs := fractionPart_append hfraction hend (hexponent.head?_ne hr)
  have hes := exponentPart_append hexponent hr
  unfold number
  cases negative with
  | true =>
    simp only [if_true, List.cons_append, List.nil_append, hparts, hfs, hes, bind, Option.bind]
    cases fraction <;> cases exponent <;> rfl
  | false =>
    obtain ⟨c, cs, rfl, hc⟩ := hwhole.exists_cons
    simp only [if_false, Bool.false_eq_true, List.nil_append]
    split
    · rename_i heq
      obtain rfl := (List.cons.inj heq).1
      cases hc
    · simp only [hparts, hfs, hes, bind, Option.bind]
      cases fraction <;> cases exponent <;> rfl

/-! ### Strings -/

section

variable {s : List Char} {acc : List Piece}

theorem Reader.pieces_plain {c : Char} (hc : ' ' ≤ c) (hquote : c ≠ '"') (hslash : c ≠ '\\') :
    pieces (c :: s) acc = pieces s (.char c :: acc) := by
  have hplain : ¬ (c < ' ' ∨ c = '\\') := not_or.2 ⟨Char.not_lt.2 hc, hslash⟩
  rw [pieces.eq_4 _ _ _ hquote (fun _ _ _ _ _ h => absurd h hslash)
    (fun _ _ h => absurd h hslash), if_neg hplain]

theorem Reader.pieces_letter {l c : Char} (h : escaped l = some c) :
    pieces ('\\' :: l :: s) acc = pieces s (.char c :: acc) := by
  have hne : l ≠ 'u' := by
    rintro rfl
    cases h
  rw [pieces.eq_3 _ _ _ (fun _ _ _ _ _ h => absurd h hne), h]

theorem Reader.pieces_unit {w x y z : Char} {code : Nat} (h : hexUnit w x y z = some code) :
    pieces ('\\' :: 'u' :: w :: x :: y :: z :: s) acc = pieces s (.unit code :: acc) := by
  rw [pieces, h]

end

theorem Reader.characters_unit {code : Nat} (h : ¬ (0xd800 ≤ code ∧ code < 0xe000))
    (ps : List Piece) :
    characters (.unit code :: ps) = (characters ps).map (Char.ofNat code :: ·) := by
  cases ps with
  | nil => simp [characters, h]
  | cons p ps =>
    cases p with
    | char c => simp [characters, h]
    | unit low => rw [characters, if_neg (by omega), if_neg (by omega)]

/-- The pieces of a text between quotes make up its characters. -/
theorem Spells.exists_pieces {cs s : List Char} (h : Spells cs s) :
    ∃ ps, characters ps = some cs ∧
      ∀ acc rest, pieces (s ++ '"' :: rest) acc = some (acc.reverse ++ ps, rest) := by
  induction h with
  | nil => exact ⟨[], rfl, fun acc rest => by simp [pieces]⟩
  | @plain c cs s hc hquote hslash h ih =>
    obtain ⟨ps, hps, hread⟩ := ih
    refine ⟨.char c :: ps, by simp [characters, hps], fun acc rest => ?_⟩
    simp only [List.cons_append, pieces_plain hc hquote hslash, hread]
    simp
  | @letter l c cs s hl h ih =>
    obtain ⟨ps, hps, hread⟩ := ih
    refine ⟨.char c :: ps, by simp [characters, hps], fun acc rest => ?_⟩
    simp only [List.cons_append, pieces_letter hl, hread]
    simp
  | @unit w x y z c cs s hc h ih =>
    obtain ⟨ps, hps, hread⟩ := ih
    have hcode : ¬ (0xd800 ≤ c.toNat ∧ c.toNat < 0xe000) := by
      have hvalid : c.toNat < 0xd800 ∨ 0xdfff < c.toNat ∧ c.toNat < 0x110000 := c.valid
      omega
    refine ⟨.unit c.toNat :: ps, ?_, fun acc rest => ?_⟩
    · rw [characters_unit hcode, hps, Char.ofNat_toNat]
      rfl
    · simp only [List.cons_append, pieces_unit hc, hread]
      simp
  | @pair w x y z w' x' y' z' high low cs s hhigh hlow high_mem low_mem h ih =>
    obtain ⟨ps, hps, hread⟩ := ih
    refine ⟨.unit high :: .unit low :: ps, ?_, fun acc rest => ?_⟩
    · rw [characters, if_pos high_mem, if_pos low_mem, hps]
      rfl
    · simp only [List.cons_append, pieces_unit hhigh, pieces_unit hlow, hread]
      simp

/-- A string is read off the front of a text, after its opening quote. -/
theorem Reader.string_append {t : String} {s : List Char} (h : Spells t.toList s)
    (rest : List Char) : string (s ++ '"' :: rest) = some (some t, rest) := by
  obtain ⟨ps, hps, hread⟩ := h.exists_pieces
  simp [string, hread, hps]

/-- A string is read off the front of a text. -/
theorem IsString.exists_inner {t : Option String} {s : List Char} (h : IsString t s) :
    ∃ inner, s = '"' :: inner ++ ['"'] ∧
      ∀ rest, string (inner ++ '"' :: rest) = some (t, rest) := by
  cases t with
  | none => exact h.elim
  | some t =>
    obtain ⟨inner, hspells, rfl⟩ := h
    exact ⟨inner, rfl, fun rest => string_append hspells rest⟩

/-! ### Blanks -/

namespace Reader

theorem skip_append {b : List Char} (hb : IsPadding b) (s : List Char) : skip (b ++ s) = skip s :=
  List.dropWhile_append_of_pos hb

theorem skip_cons {c : Char} (hc : isBlank c = false) (s : List Char) : skip (c :: s) = c :: s := by
  simp [skip, hc]

theorem value_append {b : List Char} (hb : IsPadding b) (fuel : Nat) (s : List Char) :
    value (fuel + 1) (b ++ s) = value (fuel + 1) s := by
  rw [value, value, skip_append hb]

end Reader

theorem endsNumber_of_isPadding {b : List Char} (hb : IsPadding b) : EndsNumber b := by
  intro c hc
  have hblank : ((c = ' ' ∨ c = '\n') ∨ c = '\t') ∨ c = '\r' := by
    simpa [isBlank] using hb c (List.mem_of_mem_head? hc)
  rcases hblank with ((rfl | rfl) | rfl) | rfl <;> simp [isDigit, IsExponentLetter]

theorem endsNumber_append {b rest : List Char} (hb : IsPadding b) {c : Char}
    (hc : EndsNumber [c]) : EndsNumber (b ++ c :: rest) := by
  cases b with
  | nil => exact fun d hd => hc d hd
  | cons d b => exact fun e he => endsNumber_of_isPadding hb e he

theorem endsNumber_closing {c : Char} (h : c = ']' ∨ c = '\x7d' ∨ c = ',') : EndsNumber [c] := by
  rcases h with rfl | rfl | rfl <;> simp [EndsNumber, isDigit, IsExponentLetter]
/-! ### Values -/

theorem Reader.value_number {n : Numeral} {s rest : List Char} (h : n.IsText s)
    (hr : EndsNumber rest) (fuel : Nat) : value (fuel + 1) (s ++ rest) = (.number n, rest) := by
  have hread := number_append h hr
  obtain ⟨c, cs, rfl, hc⟩ := h.exists_cons
  rw [List.cons_append] at hread ⊢
  have hne : ∀ d, d ≠ '-' → isDigit d = false → c ≠ d := fun _ => ne_of_number hc
  have hword : ∀ {w : String} {d : Char} {ds : List Char}, w.toList = d :: ds → d ≠ '-' →
      isDigit d = false → word? w (c :: (cs ++ rest)) = none := by
    intro w d ds hw hminus hdigit
    have hd : d ≠ c := (hne d hminus hdigit).symm
    simp [word?, hw, hd]
  rw [value, skip_cons (beginsValue_of_number hc).1]
  split
  · rename_i heq
    exact absurd (List.cons.inj heq).1 (hne _ (by decide) (by decide))
  · rename_i heq
    exact absurd (List.cons.inj heq).1 (hne _ (by decide) (by decide))
  · rename_i heq
    exact absurd (List.cons.inj heq).1 (hne _ (by decide) (by decide))
  · rw [hword (w := "null") rfl (by decide) (by decide),
      hword (w := "true") rfl (by decide) (by decide),
      hword (w := "false") rfl (by decide) (by decide), hread]

/-! ### Arrays and objects -/

namespace Reader

theorem skip_skip (s : List Char) : skip (skip s) = skip s := List.dropWhile_idempotent _ _

theorem value_skip (fuel : Nat) (s : List Char) :
    value (fuel + 1) (skip s) = value (fuel + 1) s := by
  rw [value, value, skip_skip]

theorem items_skip (fuel : Nat) (s : List Char) :
    items (fuel + 2) (skip s) = items (fuel + 2) s := by
  rw [items, items, value_skip]

theorem members_skip (fuel : Nat) (s : List Char) :
    members (fuel + 1) (skip s) = members (fuel + 1) s := by
  rw [members, members, skip_skip]

section

variable {fuel : Nat} {s after rest : List Char} {d : Document}

theorem items_last (hvalue : value fuel s = (d, after)) (hclosed : d.isClosed = true)
    (hskip : skip after = ']' :: rest) : items (fuel + 1) s = ([d], true, rest) := by
  simp [items, hvalue, hclosed, hskip]

theorem items_next {t : List Char} {ds : List Document} (hvalue : value fuel s = (d, after))
    (hclosed : d.isClosed = true) (hskip : skip after = ',' :: t)
    (hrest : items fuel t = (ds, true, rest)) : items (fuel + 1) s = (d :: ds, true, rest) := by
  simp [items, hvalue, hclosed, hskip, hrest]

theorem members_last {inner t u : List Char} {key : Option String}
    (hname : skip s = '"' :: inner) (hkey : string inner = some (key, t))
    (hcolon : skip t = ':' :: u) (hvalue : value fuel u = (d, after)) (hclosed : d.isClosed = true)
    (hskip : skip after = '\x7d' :: rest) :
    members (fuel + 1) s = ([(key, d)], true, rest) := by
  simp [members, hname, hkey, hcolon, hvalue, hclosed, hskip]

theorem members_next {inner t u v : List Char} {key : Option String}
    {ms : List (Option String × Document)}
    (hname : skip s = '"' :: inner) (hkey : string inner = some (key, t))
    (hcolon : skip t = ':' :: u) (hvalue : value fuel u = (d, after)) (hclosed : d.isClosed = true)
    (hskip : skip after = ',' :: v) (hrest : members fuel v = (ms, true, rest)) :
    members (fuel + 1) s = ((key, d) :: ms, true, rest) := by
  simp [members, hname, hkey, hcolon, hvalue, hclosed, hskip, hrest]

end

/-- A value with blanks around it is read off the front of a text if it is without them. -/
theorem value_padded {d : Document}
    (hread : ∀ {fuel : Nat} {s rest : List Char}, d.IsText s → 2 * s.length ≤ fuel →
      EndsNumber rest → value fuel (s ++ rest) = (d, rest))
    {s : List Char} (h : Padded d.IsText s) {fuel : Nat} (hfuel : 2 * s.length ≤ fuel) {c : Char}
    (hc : EndsNumber [c]) (hblank : isBlank c = false) (rest : List Char) :
    ∃ after, value fuel (s ++ c :: rest) = (d, after) ∧ skip after = c :: rest := by
  obtain ⟨before, inner, after, hbefore, hinner, hafter, rfl⟩ := h
  obtain ⟨_, _, rfl, -⟩ := hinner.exists_cons
  simp only [List.length_append, List.length_cons] at hfuel
  cases fuel with
  | zero => omega
  | succ fuel =>
    refine ⟨after ++ c :: rest, ?_, by rw [skip_append hafter, skip_cons hblank]⟩
    rw [List.append_assoc, List.append_assoc, value_append hbefore]
    exact hread hinner (by simp only [List.length_cons]; omega) (endsNumber_append hafter hc)

/-- A key with blanks around it is read off the front of a text. -/
theorem string_padded {key : Option String} {s : List Char} (h : Padded (IsString key) s)
    {c : Char} (hblank : isBlank c = false) (rest : List Char) :
    ∃ inner after, skip (s ++ c :: rest) = '"' :: inner ∧ string inner = some (key, after) ∧
      skip after = c :: rest := by
  obtain ⟨before, _, after, hbefore, hinner, hafter, rfl⟩ := h
  obtain ⟨inner, rfl, hread⟩ := hinner.exists_inner
  refine ⟨inner ++ '"' :: (after ++ c :: rest), after ++ c :: rest, ?_, hread _, ?_⟩
  · simp only [List.append_assoc, List.cons_append, List.nil_append]
    rw [skip_append hbefore, skip_cons (by decide)]
  · rw [skip_append hafter, skip_cons hblank]

theorem exists_skip_items {d : Document} {ds : List Document} {s : List Char}
    (h : Document.AreItems (d :: ds) s) (rest : List Char) :
    ∃ c cs, skip (s ++ rest) = c :: cs ∧ c ≠ ']' := by
  obtain ⟨first, others, ⟨before, inner, after, hbefore, hinner, -, rfl⟩, rfl⟩ :
      ∃ first others, Padded d.IsText first ∧ s = first ++ others := by
    cases ds with
    | nil => exact ⟨s, [], h, (List.append_nil s).symm⟩
    | cons d' ds =>
      obtain ⟨first, others, hfirst, -, rfl⟩ := h
      exact ⟨first, _, hfirst, rfl⟩
  obtain ⟨c, cs, rfl, hc⟩ := hinner.exists_cons
  refine ⟨c, cs ++ (after ++ (others ++ rest)), ?_, hc.2⟩
  simp only [List.append_assoc, List.cons_append]
  rw [skip_append hbefore, skip_cons hc.1]

theorem exists_skip_members {m : Option String × Document} {ms : List (Option String × Document)}
    {s : List Char} (h : Document.AreMembers (m :: ms) s) (rest : List Char) :
    ∃ cs, skip (s ++ rest) = '"' :: cs := by
  obtain ⟨key, d⟩ := m
  obtain ⟨name, others, hname, rfl⟩ :
      ∃ name others, Padded (IsString key) name ∧ s = name ++ ':' :: others := by
    cases ms with
    | nil =>
      obtain ⟨name, value, hname, -, rfl⟩ := h
      exact ⟨name, _, hname, rfl⟩
    | cons m ms =>
      obtain ⟨name, value, others, hname, -, -, rfl⟩ := h
      exact ⟨name, _, hname, rfl⟩
  obtain ⟨inner, _, hskip, -, -⟩ := string_padded hname (c := ':') (by decide) (others ++ rest)
  exact ⟨inner, by rw [List.append_assoc, List.cons_append, hskip]⟩

mutual

/-- A document is read off the front of a text, with two steps for each of its characters. -/
theorem value_isText : (d : Document) → {fuel : Nat} → {s rest : List Char} → d.IsText s →
    2 * s.length ≤ fuel → EndsNumber rest → value fuel (s ++ rest) = (d, rest)
  | d, 0, s, _, h, hfuel, _ => by
    obtain ⟨_, _, rfl, -⟩ := h.exists_cons
    simp at hfuel
  | .null, fuel + 1, _, _, h, _, _ => by
    obtain rfl := h
    rfl
  | .bool b, fuel + 1, _, _, h, _, _ => by
    obtain rfl := h
    cases b <;> rfl
  | .number n, fuel + 1, _, _, h, _, hr => value_number h hr fuel
  | .string t, fuel + 1, _, rest, h, _, _ => by
    obtain ⟨inner, rfl, hread⟩ := IsString.exists_inner h
    simp only [List.append_assoc, List.cons_append, List.nil_append]
    rw [value, skip_cons (by decide)]
    simp only [hread]
  | .array [] _, fuel + 1, _, rest, h, _, _ => by
    obtain ⟨rfl, inner, hinner, rfl⟩ := h
    rw [List.cons_append, List.append_assoc, List.singleton_append, value, skip_cons (by decide)]
    simp only [skip_append hinner, skip_cons (show isBlank ']' = false by decide)]
  | .array (d :: ds) _, fuel + 1, _, rest, h, hfuel, _ => by
    obtain ⟨rfl, inner, hinner, rfl⟩ := h
    simp only [List.length_cons, List.length_append, List.length_nil] at hfuel
    obtain ⟨c, cs, hskip, hc⟩ := exists_skip_items hinner (']' :: rest)
    obtain ⟨k, rfl⟩ : ∃ k, fuel = k + 2 := ⟨fuel - 2, by omega⟩
    have hitems := @items_areItems (d :: ds) (k + 2) inner rest (by simp) hinner (by omega)
    rw [← items_skip, hskip] at hitems
    rw [List.cons_append, List.append_assoc, List.singleton_append, value, skip_cons (by decide)]
    simp only [hskip]
    split
    · exact absurd (List.cons.inj ‹_›).1 hc
    · rw [hitems]
  | .object [] _, fuel + 1, _, rest, h, _, _ => by
    obtain ⟨rfl, inner, hinner, rfl⟩ := h
    rw [List.cons_append, List.append_assoc, List.singleton_append, value, skip_cons (by decide)]
    simp only [skip_append hinner, skip_cons (show isBlank '\x7d' = false by decide)]
  | .object (m :: ms) _, fuel + 1, _, rest, h, hfuel, _ => by
    obtain ⟨rfl, inner, hinner, rfl⟩ := h
    simp only [List.length_cons, List.length_append, List.length_nil] at hfuel
    obtain ⟨cs, hskip⟩ := exists_skip_members hinner ('\x7d' :: rest)
    obtain ⟨k, rfl⟩ : ∃ k, fuel = k + 1 := ⟨fuel - 1, by omega⟩
    have hmembers := @members_areMembers (m :: ms) (k + 1) inner rest (by simp) hinner (by omega)
    rw [← members_skip, hskip] at hmembers
    rw [List.cons_append, List.append_assoc, List.singleton_append, value, skip_cons (by decide)]
    simp only [hskip]
    split
    · exact absurd (List.cons.inj ‹_›).1 (by decide)
    · rw [hmembers]
termination_by structural d => d

/-- Items are read up to the bracket that closes their array. -/
theorem items_areItems : (ds : List Document) → {fuel : Nat} → {s rest : List Char} → ds ≠ [] →
    Document.AreItems ds s → 2 * s.length + 1 ≤ fuel →
    items fuel (s ++ ']' :: rest) = (ds, true, rest)
  | [], _, _, _, hne, _, _ => absurd rfl hne
  | _, 0, _, _, _, _, hfuel => absurd hfuel (Nat.not_succ_le_zero _)
  | [d], fuel + 1, s, rest, _, h, hfuel => by
    obtain ⟨after, hvalue, hskip⟩ := value_padded (value_isText d) h (Nat.le_of_succ_le_succ hfuel)
      (endsNumber_closing (c := ']') (by simp)) (by decide) rest
    exact items_last hvalue (Document.isClosed_of_padded h) hskip
  | d :: d' :: ds, fuel + 1, _, rest, _, h, hfuel => by
    obtain ⟨first, others, hfirst, hothers, rfl⟩ := h
    simp only [List.length_append, List.length_cons] at hfuel
    obtain ⟨after, hvalue, hskip⟩ := value_padded (value_isText d) hfirst
      (show 2 * first.length ≤ fuel by omega) (endsNumber_closing (c := ',') (by simp)) (by decide)
      (others ++ ']' :: rest)
    have hrest := @items_areItems (d' :: ds) fuel others rest (by simp) hothers (by omega)
    rw [List.append_assoc, List.cons_append]
    exact items_next hvalue (Document.isClosed_of_padded hfirst) hskip hrest
termination_by structural ds => ds

/-- Members are read up to the bracket that closes their object. -/
theorem members_areMembers : (ms : List (Option String × Document)) → {fuel : Nat} →
    {s rest : List Char} → ms ≠ [] → Document.AreMembers ms s → 2 * s.length + 1 ≤ fuel →
    members fuel (s ++ '\x7d' :: rest) = (ms, true, rest)
  | [], _, _, _, hne, _, _ => absurd rfl hne
  | _, 0, _, _, _, _, hfuel => absurd hfuel (Nat.not_succ_le_zero _)
  | [(key, d)], fuel + 1, _, rest, _, h, hfuel => by
    obtain ⟨name, value, hname, hd, rfl⟩ := h
    simp only [List.length_append, List.length_cons] at hfuel
    rw [List.append_assoc, List.cons_append]
    obtain ⟨inner, colon, hquote, hkey, hcolon⟩ :=
      string_padded hname (c := ':') (by decide) (value ++ '\x7d' :: rest)
    obtain ⟨after, hvalue, hskip⟩ := value_padded (value_isText d) hd
      (show 2 * value.length ≤ fuel by omega) (endsNumber_closing (c := '\x7d') (by simp))
      (by decide) rest
    exact members_last hquote hkey hcolon hvalue (Document.isClosed_of_padded hd) hskip
  | (key, d) :: m :: ms, fuel + 1, _, rest, _, h, hfuel => by
    obtain ⟨name, value, others, hname, hd, hothers, rfl⟩ := h
    simp only [List.length_append, List.length_cons] at hfuel
    simp only [List.append_assoc, List.cons_append]
    obtain ⟨inner, colon, hquote, hkey, hcolon⟩ :=
      string_padded hname (c := ':') (by decide) (value ++ ',' :: (others ++ '\x7d' :: rest))
    obtain ⟨after, hvalue, hskip⟩ := value_padded (value_isText d) hd
      (show 2 * value.length ≤ fuel by omega) (endsNumber_closing (c := ',') (by simp)) (by decide)
      (others ++ '\x7d' :: rest)
    have hrest := @members_areMembers (m :: ms) fuel others rest (by simp) hothers (by omega)
    exact members_next hquote hkey hcolon hvalue (Document.isClosed_of_padded hd) hskip hrest
termination_by structural ms => ms

end

end Reader

/-- A text of a document, with blanks around it, is read as this document. -/
theorem Document.ofText_of_isText {d : Document} {text : String}
    (h : Padded d.IsText text.toList) : ofText text = (d, true) := by
  obtain ⟨before, inner, after, hbefore, hinner, hafter, htext⟩ := h
  have hlength : 2 * inner.length ≤ 2 * text.toList.length + 2 := by
    simp only [htext, List.length_append]
    omega
  have hread := value_isText d hinner hlength (endsNumber_of_isPadding hafter)
  have hskip : skip after = [] := List.dropWhile_eq_nil_iff.2 hafter
  simp only [ofText]
  rw [htext] at hread ⊢
  rw [value_append hbefore, hread, hskip]
  rfl

end GimpleLowering.Json
