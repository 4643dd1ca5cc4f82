import GimpleLowering.Json.Reader
import GimpleLowering.Text.Quoted
import Mathlib.Data.List.Basic

/-!
# The texts of documents

Which texts say the same as a document. Blanks may stand between any two parts. A character of a
string may be written as it is, by a letter or by its number, and a number with an exponent or
without one. So a document has many texts, unless it is broken or holds a string that is none.

## Main definitions

* `Json.Numeral.IsText`, `IsString` — the texts of numbers and strings
* `Json.Document.IsText` — the texts of a document
* `Json.Padded` — blanks around a text

## Main results

* `Json.Document.IsText.exists_cons` — how the text of a document begins
* `Json.Document.isClosed_of_isText` — only complete documents have texts
* `Json.exists_isString`, `Numeral.exists_isText_integer`, `Document.exists_areItems` — texts exist
-/

namespace GimpleLowering.Json

open Reader

/-! ### Grammar -/

/-- Decimal digits, of which there is one. -/
def AreDigits (ds : List Char) : Prop := ds ≠ [] ∧ ∀ c ∈ ds, isDigit c = true

/-- Decimal digits that begin with a zero only if they are a single zero. -/
def IsWholePart (ds : List Char) : Prop := AreDigits ds ∧ (ds.head? = some '0' → ds = ['0'])

/-- A point with the digits after it, or neither. -/
inductive IsFraction : Option (List Char) → List Char → Prop where
  | absent : IsFraction none []
  | point {ds : List Char} (h : AreDigits ds) : IsFraction (some ds) ('.' :: ds)

/-- The letter of an exponent. -/
def IsExponentLetter (c : Char) : Prop := c = 'e' ∨ c = 'E'

/-- An exponent, which may have a sign, or nothing. -/
inductive IsExponent : Option Int → List Char → Prop where
  | absent : IsExponent none []
  | unsigned {c : Char} {ds : List Char} (hc : IsExponentLetter c) (h : AreDigits ds) :
      IsExponent (some (digitsValue ds)) (c :: ds)
  | plus {c : Char} {ds : List Char} (hc : IsExponentLetter c) (h : AreDigits ds) :
      IsExponent (some (digitsValue ds)) (c :: '+' :: ds)
  | minus {c : Char} {ds : List Char} (hc : IsExponentLetter c) (h : AreDigits ds) :
      IsExponent (some (-digitsValue ds)) (c :: '-' :: ds)

namespace Numeral

/-- The numeral with the given sign and digits. It is an integer if it has neither a fraction nor
an exponent. -/
def ofParts (negative : Bool) (whole : List Char) : Option (List Char) → Option Int → Numeral
  | none, none => .integer negative (digitsValue whole)
  | fraction, exponent =>
    .decimal negative (digitsValue whole) ((fraction.getD []).map digitValue) (exponent.getD 0)

/-- The text is one of the number. -/
inductive IsText : Numeral → List Char → Prop where
  | mk {negative : Bool} {whole fs es : List Char} {fraction : Option (List Char)}
      {exponent : Option Int} (hwhole : IsWholePart whole) (hfraction : IsFraction fraction fs)
      (hexponent : IsExponent exponent es) :
      IsText (ofParts negative whole fraction exponent)
        ((if negative then ['-'] else []) ++ (whole ++ (fs ++ es)))

end Numeral

/-- The text, between quotes, stands for the characters: each of them as it is, by a letter, by its
number or by the numbers of a surrogate pair. -/
inductive Spells : List Char → List Char → Prop where
  | nil : Spells [] []
  | plain {c : Char} {cs s : List Char} (hc : ' ' ≤ c) (hquote : c ≠ '"') (hslash : c ≠ '\\')
      (h : Spells cs s) : Spells (c :: cs) (c :: s)
  | letter {l c : Char} {cs s : List Char} (hl : escaped l = some c) (h : Spells cs s) :
      Spells (c :: cs) ('\\' :: l :: s)
  | unit {w x y z c : Char} {cs s : List Char} (hc : hexUnit w x y z = some c.toNat)
      (h : Spells cs s) : Spells (c :: cs) ('\\' :: 'u' :: w :: x :: y :: z :: s)
  | pair {w x y z w' x' y' z' : Char} {high low : Nat} {cs s : List Char}
      (hhigh : hexUnit w x y z = some high) (hlow : hexUnit w' x' y' z' = some low)
      (high_mem : 0xd800 ≤ high ∧ high < 0xdc00) (low_mem : 0xdc00 ≤ low ∧ low < 0xe000)
      (h : Spells cs s) :
      Spells (Char.ofNat (0x10000 + (high - 0xd800) * 0x400 + (low - 0xdc00)) :: cs)
        ('\\' :: 'u' :: w :: x :: y :: z :: '\\' :: 'u' :: w' :: x' :: y' :: z' :: s)

/-- The text is one of the string, which stands for characters. -/
def IsString : Option String → List Char → Prop
  | some t, s => ∃ inner, Spells t.toList inner ∧ s = '"' :: (inner ++ ['"'])
  | none, _ => False

/-- Blanks and nothing else. -/
def IsPadding (s : List Char) : Prop := ∀ c ∈ s, isBlank c = true

/-- A text of the given kind with blanks around it. -/
def Padded (p : List Char → Prop) (s : List Char) : Prop :=
  ∃ before inner after, IsPadding before ∧ p inner ∧ IsPadding after ∧
    s = before ++ (inner ++ after)

namespace Document

mutual

/-- The text is one of the document. Open arrays and objects and what is broken have none. -/
def IsText : Document → List Char → Prop
  | .null, s => s = "null".toList
  | .bool b, s => s = (if b then "true" else "false").toList
  | .number n, s => n.IsText s
  | .string t, s => IsString t s
  | .array items closed, s =>
    closed = true ∧ ∃ inner, AreItems items inner ∧ s = '[' :: (inner ++ [']'])
  | .object members closed, s =>
    closed = true ∧ ∃ inner, AreMembers members inner ∧ s = '\x7b' :: (inner ++ ['\x7d'])
  | .broken, _ => False
termination_by structural d => d

/-- The text is one of the items, with commas between them. -/
def AreItems : List Document → List Char → Prop
  | [], s => IsPadding s
  | [d], s => Padded d.IsText s
  | d :: rest, s => ∃ first others, Padded d.IsText first ∧ AreItems rest others ∧
      s = first ++ ',' :: others
termination_by structural ds => ds

/-- The text is one of the members, with commas between them. -/
def AreMembers : List (Option String × Document) → List Char → Prop
  | [], s => IsPadding s
  | [(key, d)], s => ∃ name value, Padded (IsString key) name ∧ Padded d.IsText value ∧
      s = name ++ ':' :: value
  | (key, d) :: rest, s => ∃ name value others, Padded (IsString key) name ∧
      Padded d.IsText value ∧ AreMembers rest others ∧ s = name ++ ':' :: (value ++ ',' :: others)
termination_by structural ms => ms

end

end Document
/-! ### First characters -/

theorem IsWholePart.exists_cons {ds : List Char} (h : IsWholePart ds) :
    ∃ c cs, ds = c :: cs ∧ isDigit c = true := by
  obtain ⟨c, cs, rfl⟩ := List.exists_cons_of_ne_nil h.1.1
  exact ⟨c, cs, rfl, h.1.2 c (by simp)⟩

/-- The character begins a value, and not what closes an array. -/
def BeginsValue (c : Char) : Prop := isBlank c = false ∧ c ≠ ']'

theorem Numeral.IsText.exists_cons {n : Numeral} {s : List Char} (h : n.IsText s) :
    ∃ c cs, s = c :: cs ∧ (c = '-' ∨ isDigit c = true) := by
  obtain @⟨negative, whole, fs, es, _, _, hwhole, -, -⟩ := h
  cases negative with
  | true => exact ⟨'-', _, rfl, .inl rfl⟩
  | false =>
    obtain ⟨c, cs, rfl, hc⟩ := hwhole.exists_cons
    exact ⟨c, _, rfl, .inr hc⟩

/-- A number begins with none of the characters that begin other values or are blank. -/
theorem ne_of_number {c d : Char} (h : c = '-' ∨ isDigit c = true) (hd : d ≠ '-')
    (hdigit : isDigit d = false) : c ≠ d := by
  rintro rfl
  simp [hd, hdigit] at h

theorem beginsValue_of_number {c : Char} (h : c = '-' ∨ isDigit c = true) : BeginsValue c := by
  have hne : ∀ d, d ≠ '-' → isDigit d = false → c ≠ d := fun _ => ne_of_number h
  refine ⟨?_, hne _ (by decide) (by decide)⟩
  simp [isBlank, hne ' ' (by decide) (by decide), hne '\n' (by decide) (by decide),
    hne '\t' (by decide) (by decide), hne '\r' (by decide) (by decide)]

namespace Document

theorem IsText.exists_cons {d : Document} {s : List Char} (h : d.IsText s) :
    ∃ c cs, s = c :: cs ∧ BeginsValue c := by
  cases d with
  | null =>
    obtain rfl := h
    exact ⟨'n', _, rfl, by decide, by decide⟩
  | bool b =>
    obtain rfl := h
    cases b
    · exact ⟨'f', _, rfl, by decide, by decide⟩
    · exact ⟨'t', _, rfl, by decide, by decide⟩
  | number n =>
    obtain ⟨c, cs, rfl, hc⟩ := Numeral.IsText.exists_cons h
    exact ⟨c, cs, rfl, beginsValue_of_number hc⟩
  | string t =>
    cases t with
    | none => exact h.elim
    | some t =>
      obtain ⟨inner, -, rfl⟩ := h
      exact ⟨'"', _, rfl, by decide, by decide⟩
  | array items closed =>
    obtain ⟨-, inner, -, rfl⟩ := h
    exact ⟨'[', _, rfl, by decide, by decide⟩
  | object members closed =>
    obtain ⟨-, inner, -, rfl⟩ := h
    exact ⟨'\x7b', _, rfl, by decide, by decide⟩
  | broken => exact h.elim

end Document
/-! ### Complete documents -/

namespace Document

mutual

/-- A document with a text is closed. -/
theorem isClosed_of_isText : (d : Document) → {s : List Char} → d.IsText s → d.isClosed = true
  | .null, _, _ | .bool _, _, _ | .number _, _, _ | .string _, _, _ => rfl
  | .array items closed, _, h => by
    obtain ⟨rfl, _, hitems, -⟩ := h
    simpa [isClosed] using areClosed_of_areItems items hitems
  | .object members closed, _, h => by
    obtain ⟨rfl, _, hmembers, -⟩ := h
    simpa [isClosed] using membersClosed_of_areMembers members hmembers
termination_by structural d => d

theorem areClosed_of_areItems : (ds : List Document) → {s : List Char} → AreItems ds s →
    areClosed ds = true
  | [], _, _ => rfl
  | [d], _, ⟨_, _, _, _, hd, _⟩ => by
    simpa [areClosed] using isClosed_of_isText d hd
  | d :: d' :: rest, _, ⟨_, _, ⟨_, _, _, _, hd, _⟩, hrest, _⟩ => by
    rw [areClosed, isClosed_of_isText d hd, areClosed_of_areItems (d' :: rest) hrest]
    rfl
termination_by structural ds => ds

theorem membersClosed_of_areMembers : (ms : List (Option String × Document)) → {s : List Char} →
    AreMembers ms s → membersClosed ms = true
  | [], _, _ => rfl
  | [(_, d)], _, ⟨_, _, _, ⟨_, _, _, _, hd, _⟩, _⟩ => by
    simpa [membersClosed] using isClosed_of_isText d hd
  | (_, d) :: m :: rest, _, ⟨_, _, _, _, ⟨_, _, _, _, hd, _⟩, hrest, _⟩ => by
    rw [membersClosed, isClosed_of_isText d hd, membersClosed_of_areMembers (m :: rest) hrest]
    rfl
termination_by structural ms => ms

end

theorem isClosed_of_padded {d : Document} {s : List Char} (h : Padded d.IsText s) :
    d.isClosed = true := by
  obtain ⟨_, _, _, _, h, -⟩ := h
  exact d.isClosed_of_isText h

end Document
/-! ### Texts that exist -/

/-- Every list of characters can be written between quotes. -/
theorem exists_spells (cs : List Char) : ∃ s, Spells cs s := by
  induction cs with
  | nil => exact ⟨[], .nil⟩
  | cons c cs ih =>
    obtain ⟨s, hs⟩ := ih
    by_cases hquote : c = '"'
    · exact ⟨_, hs.letter (l := '"') (by rw [hquote]; rfl)⟩
    by_cases hslash : c = '\\'
    · exact ⟨_, hs.letter (l := '\\') (by rw [hslash]; rfl)⟩
    by_cases hc : ' ' ≤ c
    · exact ⟨_, hs.plain hc hquote hslash⟩
    · -- Control characters are written by their numbers.
      have hcode : ∀ n < 32, hexUnit '0' '0' (Text.hexDigit (n / 16)) (Text.hexDigit (n % 16)) =
          some n := by decide
      have hlt : c.toNat < 32 := by
        have hlt : c < ' ' := Char.not_le.1 hc
        exact hlt
      exact ⟨_, hs.unit (hcode _ hlt)⟩

theorem exists_isString (t : String) : ∃ s, IsString (some t) s := by
  obtain ⟨s, hs⟩ := exists_spells t.toList
  exact ⟨_, s, hs, rfl⟩

theorem digitsValue_toDigits (n : Nat) : digitsValue (Nat.toDigits 10 n) = n :=
  Nat.ofDigitChars_ten_toDigits

theorem areDigits_toDigits (n : Nat) : AreDigits (Nat.toDigits 10 n) := by
  refine ⟨Nat.toDigits_ne_nil, fun c hc => ?_⟩
  have h := Nat.isDigit_of_mem_toDigits (by decide) (by decide) hc
  simp only [Char.isDigit, ge_iff_le, Bool.and_eq_true, decide_eq_true_eq] at h
  simp only [isDigit, Bool.and_eq_true, decide_eq_true_eq]
  exact ⟨h.1, h.2⟩

theorem isWholePart_toDigits (n : Nat) : IsWholePart (Nat.toDigits 10 n) := by
  refine ⟨areDigits_toDigits n, ?_⟩
  induction n using Nat.strongRecOn with
  | ind n ih =>
    by_cases hn : n < 10
    · rw [Nat.toDigits_of_lt_base hn]
      exact fun h => congrArg ([·]) (Option.some.inj h)
    · -- The first digit is the one of a tenth, which is not zero.
      rw [Nat.toDigits_of_base_le (by decide) (by omega),
        List.head?_append_of_ne_nil _ Nat.toDigits_ne_nil]
      intro h
      have hzero := digitsValue_toDigits (n / 10)
      rw [ih (n / 10) (by omega) h] at hzero
      have hvalue : digitsValue ['0'] = 0 := rfl
      omega

theorem Numeral.exists_isText_integer (negative : Bool) (n : Nat) :
    ∃ s, (Numeral.integer negative n).IsText s := by
  have h := @IsText.mk negative _ _ _ _ _ (isWholePart_toDigits n) .absent .absent
  rw [ofParts, digitsValue_toDigits] at h
  exact ⟨_, h⟩

theorem isPadding_nil : IsPadding [] := by simp [IsPadding]

theorem padded_self {p : List Char → Prop} {s : List Char} (h : p s) : Padded p s :=
  ⟨[], s, [], isPadding_nil, h, isPadding_nil, by simp⟩

namespace Document

theorem exists_areItems {ds : List Document} (h : ∀ d ∈ ds, ∃ s, d.IsText s) :
    ∃ s, AreItems ds s := by
  induction ds with
  | nil => exact ⟨[], isPadding_nil⟩
  | cons d ds ih =>
    obtain ⟨⟨first, hfirst⟩, hrest⟩ := List.forall_mem_cons.1 h
    obtain ⟨others, hothers⟩ := ih hrest
    cases ds with
    | nil => exact ⟨first, padded_self hfirst⟩
    | cons d' ds => exact ⟨_, first, others, padded_self hfirst, hothers, rfl⟩

theorem exists_areMembers {ms : List (Option String × Document)}
    (h : ∀ m ∈ ms, m.1.isSome ∧ ∃ s, m.2.IsText s) : ∃ s, AreMembers ms s := by
  induction ms with
  | nil => exact ⟨[], isPadding_nil⟩
  | cons m ms ih =>
    obtain ⟨⟨hkey, value, hvalue⟩, hrest⟩ := List.forall_mem_cons.1 h
    obtain ⟨key, d⟩ := m
    obtain ⟨key, rfl⟩ := Option.isSome_iff_exists.1 hkey
    obtain ⟨name, hname⟩ := exists_isString key
    obtain ⟨others, hothers⟩ := ih hrest
    cases ms with
    | nil => exact ⟨_, name, value, padded_self hname, padded_self hvalue, rfl⟩
    | cons m ms =>
      exact ⟨_, name, value, others, padded_self hname, padded_self hvalue, hothers, rfl⟩

end Document

end GimpleLowering.Json
