import GraphShapes.Json.Token
import Mathlib.Data.List.Chain

/-!
# Tokens that are written and read again

A text of tokens is cut into the same tokens again (`Json.tokens?_text`), if each of them stands for
a value and no number is followed by what could be read as a part of it (`Token.Meets`).
-/

namespace GraphShapes

open Text (Decimal.span Decimal.value)

/-! ## Digits -/

namespace Text.Decimal

/-- A number above zero is written without a zero in front. -/
theorem head?_toDigits {n : Nat} (h : 0 < n) : (Nat.toDigits 10 n).head? ≠ some '0' := by
  induction n using Nat.strongRecOn with
  | ind n ih =>
    rw [Nat.toDigits_eq_if (by decide)]
    split
    · rename_i hn
      have hdigit : ∀ m < 10, 0 < m → m.digitChar ≠ '0' := by decide
      simpa using hdigit n hn h
    · have hne : Nat.toDigits 10 (n / 10) ≠ [] := Nat.toDigits_ne_nil
      rw [List.head?_append_of_ne_nil _ hne]
      exact ih (n / 10) (by omega) (by omega)

theorem value_toDigits (n : Nat) : value (Nat.toDigits 10 n) = n := Nat.ofDigitChars_ten_toDigits

/-- The digits of a number are all of the digits in front of something else. -/
theorem span_toDigits (n : Nat) {cs : List Char} (h : ∀ c ∈ cs.head?, ¬ c.isDigit) :
    span (Nat.toDigits 10 n ++ cs) = (Nat.toDigits 10 n, cs) := by
  have hdigits : ∀ c ∈ Nat.toDigits 10 n, c.isDigit :=
    fun c hc => Nat.isDigit_of_mem_toDigits (by decide) (by decide) hc
  unfold span
  rw [List.takeWhile_append_of_pos hdigits, List.dropWhile_append_of_pos hdigits]
  cases cs with
  | nil => simp
  | cons c cs =>
    have hc : ¬ c.isDigit := h c rfl
    rw [List.takeWhile_cons_of_neg hc, List.dropWhile_cons_of_neg hc, List.append_nil]

end Text.Decimal

theorem length_le_flatMap {α β : Type} {f : α → List β} (hf : ∀ a, f a ≠ []) :
    ∀ l : List α, l.length ≤ (l.flatMap f).length
  | [] => Nat.le_refl _
  | a :: l => by
    have ih := length_le_flatMap hf l
    have ha : 0 < (f a).length := List.length_pos_iff.2 (hf a)
    rw [List.flatMap_cons, List.length_append, List.length_cons]
    omega

namespace Json

/-! ## Strings -/

/-- The two digits of a control character are read as its number. -/
theorem number?_byte {n : Nat} (h : n < 0x20) :
    Text.Hex.number? ('0' :: '0' :: Text.Hex.byte n) = some n := by
  have hall : ∀ m < 0x20, Text.Hex.number? ('0' :: '0' :: Text.Hex.byte m) = some m := by decide
  exact hall n h

/-- A character is written by a letter behind a backslash, by its number, or as it is. -/
theorem escapeChar_cases (c : Char) :
    (∃ e, e ≠ 'u' ∧ escaped? e = some c ∧ escapeChar c = ['\\', e]) ∨
      (c.toNat < 0x20 ∧ escapeChar c = '\\' :: 'u' :: '0' :: '0' :: Text.Hex.byte c.toNat) ∨
      (c ≠ '"' ∧ c ≠ '\\' ∧ ¬ c.toNat < 0x20 ∧ escapeChar c = [c]) := by
  by_cases hquote : c = '"'
  · subst hquote
    exact .inl ⟨'"', by decide⟩
  by_cases hslash : c = '\\'
  · subst hslash
    exact .inl ⟨'\\', by decide⟩
  by_cases hline : c = '\n'
  · subst hline
    exact .inl ⟨'n', by decide⟩
  by_cases hreturn : c = '\r'
  · subst hreturn
    exact .inl ⟨'r', by decide⟩
  by_cases htab : c = '\t'
  · subst htab
    exact .inl ⟨'t', by decide⟩
  by_cases hback : c = '\x08'
  · subst hback
    exact .inl ⟨'b', by decide⟩
  by_cases hfeed : c = '\x0c'
  · subst hfeed
    exact .inl ⟨'f', by decide⟩
  unfold escapeChar
  rw [if_neg hquote, if_neg hslash, if_neg hline, if_neg hreturn, if_neg htab, if_neg hback,
    if_neg hfeed]
  by_cases hcontrol : c.toNat < 0x20
  · rw [if_pos hcontrol]
    exact .inr (.inl ⟨hcontrol, rfl⟩)
  · rw [if_neg hcontrol]
    exact .inr (.inr ⟨hquote, hslash, hcontrol, rfl⟩)

theorem escapeChar_ne_nil (c : Char) : escapeChar c ≠ [] := by
  rcases escapeChar_cases c with ⟨e, -, -, h⟩ | ⟨-, h⟩ | ⟨-, -, -, h⟩
  · rw [h]
    exact List.cons_ne_nil _ _
  · rw [h]
    exact List.cons_ne_nil _ _
  · rw [h]
    exact List.cons_ne_nil _ _

/-- A character of a string is read as it was written. -/
theorem stringToken?_escapeChar (c : Char) (fuel : Nat) (read rest : List Char) :
    stringToken? (fuel + 1) read true (escapeChar c ++ rest) =
      stringToken? fuel (c :: read) true rest := by
  rcases escapeChar_cases c with ⟨e, hu, he, h⟩ | ⟨hcontrol, h⟩ | ⟨hquote, hslash, hcontrol, h⟩
  · rw [h]
    simp [stringToken?, hu, he]
  · have hnumber := number?_byte hcontrol
    have hhigh : isHighSurrogate c.toNat = false := by
      simp [isHighSurrogate]
      omega
    have hlow : isLowSurrogate c.toNat = false := by
      simp [isLowSurrogate]
      omega
    rw [h]
    unfold Text.Hex.byte at hnumber ⊢
    simp [stringToken?, hnumber, hhigh, hlow]
  · rw [h]
    simp [stringToken?, hslash, hcontrol]

/-- A string is read as it was written, up to its closing quote. -/
theorem stringToken?_text : ∀ (cs : List Char) (fuel : Nat) (read rest : List Char),
    cs.length < fuel → stringToken? fuel read true (cs.flatMap escapeChar ++ '"' :: rest) =
      some (.str (String.ofList (read.reverse ++ cs)), rest)
  | [], fuel + 1, read, rest, _ => by simp [stringToken?]
  | c :: cs, fuel + 1, read, rest, hfuel => by
    rw [List.flatMap_cons, List.append_assoc, stringToken?_escapeChar,
      stringToken?_text cs fuel (c :: read) rest (by simpa using hfuel)]
    simp

/-! ## Tokens -/

namespace Token

/-- The token stands for a value, or for a part of one. -/
def IsWhole : Token → Prop
  | fraction => False
  | torn => False
  | _ => True

/-- A number is followed by something that is no part of a number. -/
def Meets : Token → Token → Prop
  | int _, t => t = comma ∨ t = closeArr ∨ t = closeObj
  | _, _ => True

/-- The text cannot go on a number. -/
def Stops (cs : List Char) : Prop := ∀ c ∈ cs.head?, ¬ c.isDigit ∧ c ≠ '.' ∧ c ≠ 'e' ∧ c ≠ 'E'

theorem stops_of_meets {i : Int} {t : Token} (h : (int i).Meets t) (cs : List Char) :
    Stops (t.text ++ cs) := by
  intro c hc
  rcases h with rfl | rfl | rfl
  · obtain rfl := Option.some.inj hc
    decide
  · obtain rfl := Option.some.inj hc
    decide
  · obtain rfl := Option.some.inj hc
    decide

end Token

/-- Behind a number that has ended there is neither a fraction nor an exponent. -/
theorem fractionPart?_of_stops {cs : List Char} (h : Token.Stops cs) :
    fractionPart? cs = some (false, cs) := by
  cases cs with
  | nil => rfl
  | cons c cs =>
    obtain ⟨-, hpoint, -, -⟩ := h c rfl
    simp [fractionPart?, hpoint]

theorem exponentPart?_of_stops {cs : List Char} (h : Token.Stops cs) :
    exponentPart? cs = some (false, cs) := by
  cases cs with
  | nil => rfl
  | cons c cs =>
    obtain ⟨-, -, hlower, hupper⟩ := h c rfl
    simp [exponentPart?, hlower, hupper]

theorem numberToken?_toDigits (n : Nat) {cs : List Char} (h : Token.Stops cs) {negative : Bool}
    (hn : negative = true → 0 < n) :
    numberToken? negative (Nat.toDigits 10 n ++ cs) =
      some (.int (if negative then -(n : Int) else n), cs) := by
  have hspan := Text.Decimal.span_toDigits n fun c hc => (h c hc).1
  have hzero : ¬ ((Nat.toDigits 10 n).head? = some '0' ∧ 1 < (Nat.toDigits 10 n).length) := by
    rintro ⟨hhead, hlength⟩
    rcases Nat.eq_zero_or_pos n with rfl | hpos
    · simp at hlength
    · exact Text.Decimal.head?_toDigits hpos hhead
  have hnegative : ¬ (negative = true ∧ n = 0) := by
    rintro ⟨hnegative, rfl⟩
    exact absurd (hn hnegative) (Nat.lt_irrefl 0)
  unfold numberToken?
  rw [hspan]
  simp only [fractionPart?_of_stops h, Text.Decimal.value_toDigits]
  rw [if_neg (by simpa using hzero)]
  show (exponentPart? cs).bind _ = _
  rw [exponentPart?_of_stops h]
  show (if (false || false || (negative && n = 0)) = true then _ else _) = _
  rw [if_neg (by simpa using hnegative)]

/-! ## Texts -/

/-- An integer is written with its digits, behind a sign if it is below zero. -/
theorem text_int_cases (i : Int) :
    (∃ n : Nat, i = n ∧ (Token.int i).text = Nat.toDigits 10 n) ∨
      (∃ n : Nat, 0 < n ∧ i = -n ∧ (Token.int i).text = '-' :: Nat.toDigits 10 n) := by
  have htext : (Token.int i).text = i.repr.toList := rfl
  rw [htext, Int.repr_eq_if]
  by_cases hi : 0 ≤ i
  · rw [if_pos hi, Nat.toList_repr]
    exact .inl ⟨i.toNat, by omega, rfl⟩
  · rw [if_neg hi, String.toList_append, Nat.toList_repr]
    exact .inr ⟨(-i).toNat, by omega, by omega, rfl⟩

/-- A number begins with a digit. -/
theorem exists_toDigits (n : Nat) : ∃ c cs, Nat.toDigits 10 n = c :: cs ∧ c.isDigit := by
  cases h : Nat.toDigits 10 n with
  | nil => exact absurd h Nat.toDigits_ne_nil
  | cons c cs =>
    have hc : c ∈ Nat.toDigits 10 n := by
      rw [h]
      exact List.mem_cons_self
    exact ⟨c, cs, rfl, Nat.isDigit_of_mem_toDigits (by decide) (by decide) hc⟩

/-- A token does not begin with white space. -/
theorem exists_text (t : Token) : ∃ c cs, t.text = c :: cs ∧ isSpace c = false := by
  cases t with
  | bool b => cases b <;> exact ⟨_, _, rfl, rfl⟩
  | int i =>
    rcases text_int_cases i with ⟨n, -, htext⟩ | ⟨n, -, -, htext⟩
    · obtain ⟨c, ds, hds, hc⟩ := exists_toDigits n
      refine ⟨c, ds, htext.trans hds, ?_⟩
      have hne : ∀ d, d.isDigit = false → c ≠ d := by
        rintro d hd rfl
        rw [hd] at hc
        cases hc
      simp [isSpace, hne]
    · exact ⟨_, _, htext, rfl⟩
  | _ => exact ⟨_, _, rfl, rfl⟩

theorem text_ne_nil (t : Token) : t.text ≠ [] := by
  obtain ⟨c, cs, htext, -⟩ := exists_text t
  rw [htext]
  exact List.cons_ne_nil c cs

/-- A text that begins with a digit is read as a number. -/
theorem firstToken?_digit {c : Char} (hc : c.isDigit) (cs : List Char) :
    firstToken? (c :: cs) = numberToken? false (c :: cs) := by
  rw [firstToken?]
  · exact List.cons_ne_nil c cs
  all_goals
    intro rest h
    obtain ⟨rfl, -⟩ := List.cons_eq_cons.1 h
    cases hc

/-- A token is read as it was written, if nothing behind it could be a part of it. -/
theorem firstToken?_text {t : Token} (hwhole : t.IsWhole) {cs : List Char}
    (hstops : ∀ i, t = .int i → Token.Stops cs) : firstToken? (t.text ++ cs) = some (t, cs) := by
  cases t with
  | openArr => rfl
  | closeArr => rfl
  | openObj => rfl
  | closeObj => rfl
  | comma => rfl
  | colon => rfl
  | null => rfl
  | bool b => cases b <;> rfl
  | fraction => exact hwhole.elim
  | torn => exact hwhole.elim
  | str s =>
    -- an escape is no shorter than its character, so the fuel lasts until the closing quote
    have hlength : s.toList.length ≤ (s.toList.flatMap escapeChar).length :=
      length_le_flatMap escapeChar_ne_nil s.toList
    show stringToken? _ [] true ((s.toList.flatMap escapeChar ++ ['"']) ++ cs) = _
    rw [List.append_assoc]
    show stringToken? _ [] true (s.toList.flatMap escapeChar ++ '"' :: cs) = _
    rw [stringToken?_text]
    · rw [List.reverse_nil, List.nil_append, String.ofList_toList]
    · simp only [List.append_eq, List.length_append]
      omega
  | int i =>
    have hend : Token.Stops cs := hstops i rfl
    -- the sign is read before the digits
    rcases text_int_cases i with ⟨n, rfl, htext⟩ | ⟨n, hpos, rfl, htext⟩
    · obtain ⟨c, ds, hds, hc⟩ := exists_toDigits n
      have hread : numberToken? false (Nat.toDigits 10 n ++ cs) = some (.int n, cs) :=
        numberToken?_toDigits n hend nofun
      rw [htext]
      rw [hds] at hread ⊢
      rw [List.cons_append, firstToken?_digit hc]
      exact hread
    · have hread : numberToken? true (Nat.toDigits 10 n ++ cs) = some (.int (-n), cs) :=
        numberToken?_toDigits n hend fun _ => hpos
      rw [htext]
      exact hread

/-- A text of tokens is cut into these tokens. -/
theorem tokensFrom?_text : ∀ (ts : List Token) (fuel : Nat) (read : List Token),
    ts.IsChain Token.Meets → (∀ t ∈ ts, t.IsWhole) → ts.length < fuel →
      tokensFrom? fuel read (ts.flatMap Token.text) = some (read.reverse ++ ts)
  | [], fuel + 1, read, _, _, _ => by simp [tokensFrom?]
  | t :: ts, fuel + 1, read, hchain, hwhole, hfuel => by
    have ht : t.IsWhole := hwhole t List.mem_cons_self
    have hts : ∀ t ∈ ts, t.IsWhole := fun t' ht' => hwhole t' (List.mem_cons_of_mem t ht')
    have hstops : ∀ i, t = .int i → Token.Stops (ts.flatMap Token.text) := by
      rintro i rfl
      cases ts with
      | nil => exact nofun
      | cons t' ts => exact Token.stops_of_meets (List.isChain_cons_cons.1 hchain).1 _
    have hfirst := firstToken?_text ht hstops
    have ih := tokensFrom?_text ts fuel (t :: read) hchain.tail hts (by simpa using hfuel)
    obtain ⟨c, cs, htext, hspace⟩ := exists_text t
    have hspace : ¬ isSpace c = true := by rw [hspace]; exact Bool.false_ne_true
    rw [List.flatMap_cons, htext, List.cons_append]
    rw [htext, List.cons_append] at hfirst
    rw [tokensFrom?, List.dropWhile_cons_of_neg hspace]
    simp only [hfirst, ih]
    simp

/-- Tokens that are written one after the other are read again. -/
theorem tokens?_text {ts : List Token} (hchain : ts.IsChain Token.Meets)
    (hwhole : ∀ t ∈ ts, t.IsWhole) : tokens? (ts.flatMap Token.text) = some ts := by
  have hlength : ts.length ≤ (ts.flatMap Token.text).length := length_le_flatMap text_ne_nil ts
  unfold tokens?
  rw [tokensFrom?_text ts _ [] hchain hwhole (Nat.lt_succ_of_le hlength)]
  rfl

end Json

end GraphShapes
