import NearCache.Document.Json.Parser
import NearCache.Document.Json.Printer

/-!
# Strings and whole numbers in JSON

What the printer writes of a string or of a whole number of 64 bits, the parser reads back, whatever
stands behind it: `string_quote`, `number_integerText`. A number only ends where something else than
a number goes on (`Ends`).
-/

namespace NearCache.Document.Json

/-- Characters as pieces. -/
abbrev pieces (s : List Char) : List Piece := s.map some

/-! ## Strings -/

theorem hexDigit?_digitChar : ∀ n < 16, hexDigit? (Nat.digitChar n) = some n := by decide

/-- A character that is escaped by a letter. -/
theorem shortEscape?_eq_some {c e : Char} (h : shortEscape? c = some e) :
    e ≠ 'u' ∧ unescape? e = some c := by
  unfold shortEscape? at h
  split at h <;> cases h <;> decide

/-- Characters that stand for themselves are neither quotes nor backslashes. -/
theorem shortEscape?_eq_none {c : Char} (h : shortEscape? c = none) : c ≠ '"' ∧ c ≠ '\\' := by
  constructor
  · rintro rfl
    cases h
  · rintro rfl
    cases h

variable {rest rest' : List Piece} {got : List Char} {c : Char}

theorem escaped?_letter {e : Char} (hu : e ≠ 'u') (he : unescape? e = some c) :
    escaped? (some e :: rest) = some (some c, rest) := by
  unfold escaped?
  split
  · next heq =>
    simp only [List.cons.injEq, Option.some.injEq] at heq
    exact absurd heq.1 hu
  · next heq =>
    simp only [List.cons.injEq, Option.some.injEq] at heq
    obtain ⟨rfl, rfl⟩ := heq
    rw [he]
    rfl
  · next heq => simp at heq
  · next heq => simp at heq

/-- The escape of a control character. -/
theorem escaped?_control (hc : c.toNat < 0x20) :
    escaped? (some 'u' :: some '0' :: some '0' :: some (Nat.digitChar (c.toNat / 16)) ::
      some (Nat.digitChar (c.toNat % 16)) :: rest) = some (some c, rest) := by
  have hunit : unit? '0' '0' (Nat.digitChar (c.toNat / 16)) (Nat.digitChar (c.toNat % 16)) =
      some c.toNat := by
    have hvalue : c.toNat / 16 * 16 + c.toNat % 16 = c.toNat := by omega
    simp [unit?, hexDigit?_digitChar (c.toNat / 16) (by omega),
      hexDigit?_digitChar (c.toNat % 16) (by omega), show hexDigit? '0' = some 0 from rfl, hvalue]
  have hhigh : isHighHalf c.toNat = false := by
    simp only [isHighHalf, Bool.and_eq_false_iff, decide_eq_false_iff_not]
    omega
  have hlow : isLowHalf c.toNat = false := by
    simp only [isLowHalf, Bool.and_eq_false_iff, decide_eq_false_iff_not]
    omega
  simp [escaped?, hunit, hhigh, hlow, Char.ofNat_toNat]

theorem string_escaped (h : escaped? rest = some (some c, rest')) :
    string (some got) (some '\\' :: rest) = string (some (c :: got)) rest' := by
  rw [string]
  split
  · next heq =>
    rw [h] at heq
    cases heq
    rfl
  · next heq =>
    rw [h] at heq
    cases heq

theorem string_char (hquote : c ≠ '"') (hslash : c ≠ '\\') (hc : 0x20 ≤ c.toNat) :
    string (some got) (some c :: rest) = string (some (c :: got)) rest := by
  rw [string]
  · rw [if_neg (Nat.not_lt.mpr hc)]
    rfl
  · exact hquote
  · exact hslash

/-- What is written of a character is read as this character. -/
theorem string_escapeChar (c : Char) :
    string (some got) (pieces (escapeChar c) ++ rest) = string (some (c :: got)) rest := by
  unfold escapeChar
  cases hs : shortEscape? c with
  | some e =>
      obtain ⟨hu, he⟩ := shortEscape?_eq_some hs
      exact string_escaped (escaped?_letter hu he)
  | none =>
      obtain ⟨hquote, hslash⟩ := shortEscape?_eq_none hs
      dsimp only
      by_cases hc : c.toNat < 0x20
      · rw [if_pos hc]
        exact string_escaped (escaped?_control hc)
      · rw [if_neg hc]
        exact string_char hquote hslash (Nat.le_of_not_lt hc)

theorem string_escape (s : List Char) : ∀ got : List Char,
    string (some got) (pieces (escape s) ++ some '"' :: rest) =
      (.text (String.ofList (got.reverse ++ s)), some rest) := by
  induction s with
  | nil =>
      intro got
      show string (some got) (some '"' :: rest) = _
      rw [string, List.append_nil]
  | cons c s ih =>
      intro got
      rw [escape, List.flatMap_cons, pieces, List.map_append, List.append_assoc,
        string_escapeChar]
      show string (some (c :: got)) (pieces (escape s) ++ some '"' :: rest) = _
      rw [ih, List.reverse_cons, List.append_assoc]
      rfl

/-- What is written of a string is read as this string. -/
theorem string_quote (s : String) (rest : List Piece) :
    ∃ tail, pieces (quote s) ++ rest = some '"' :: tail ∧
      string (some []) tail = (.text s, some rest) := by
  refine ⟨pieces (escape s.toList) ++ some '"' :: rest, ?_, ?_⟩
  · simp [quote, pieces]
  · rw [string_escape, List.reverse_nil, List.nil_append, String.ofList_toList]

/-! ## Whole numbers -/

/-- What stands behind a value does not go on with a number. -/
def Ends (rest : List Piece) : Prop :=
  ∀ p tail, rest = p :: tail → isDigit p = false ∧ p ≠ some '.' ∧ p ≠ some 'e' ∧ p ≠ some 'E'

theorem takeDigits_append {digits : List Char} (hd : ∀ c ∈ digits, c.isDigit = true)
    (he : Ends rest) : takeDigits (pieces digits ++ rest) = (digits, rest) := by
  unfold takeDigits
  have hdigits : ∀ p ∈ pieces digits, isDigit p = true := by
    intro p hp
    obtain ⟨c, hc, rfl⟩ := List.mem_map.mp hp
    exact hd c hc
  rw [List.takeWhile_append_of_pos hdigits, List.dropWhile_append_of_pos hdigits]
  have hstop : rest.takeWhile isDigit = [] ∧ rest.dropWhile isDigit = rest := by
    cases rest with
    | nil => exact ⟨rfl, rfl⟩
    | cons p tail => simp [(he p tail rfl).1]
  rw [hstop.1, hstop.2, List.append_nil]
  simp [List.filterMap_map]

/-- More digits do not make a number smaller. -/
theorem le_ofDigitChars (digits : List Char) :
    ∀ n : Nat, n ≤ Nat.ofDigitChars 10 digits n := by
  induction digits with
  | nil => intro n; exact Nat.le_refl n
  | cons c digits ih =>
      intro n
      rw [Nat.ofDigitChars_cons]
      exact Nat.le_trans (by omega) (ih _)

/-- Digits are taken in one after the other as long as they fit. -/
theorem whole_eq (digits : List Char) :
    ∀ l : Leading, Nat.ofDigitChars 10 digits l.digits ≤ largestWhole →
      l.whole digits = { l with digits := Nat.ofDigitChars 10 digits l.digits } := by
  induction digits with
  | nil => intro l _; rfl
  | cons c digits ih =>
      intro l h
      have hnext : Nat.ofDigitChars 10 (c :: digits) l.digits =
          Nat.ofDigitChars 10 digits (l.push c).digits := by
        rw [Nat.ofDigitChars_cons, Leading.push, Nat.mul_comm]
        rfl
      rw [hnext] at h ⊢
      have hfits : l.fits c = true :=
        decide_eq_true (Nat.le_trans (le_ofDigitChars digits (l.push c).digits) h)
      rw [Leading.whole, if_pos hfits, ih (l.push c) h]
      rfl

/-- Decimal digits begin with a zero only if there is nothing else. -/
theorem head_toDigits (n : Nat) {tail : List Char} (h : Nat.toDigits 10 n = '0' :: tail) :
    tail = [] := by
  induction n using Nat.strongRecOn generalizing tail with
  | _ n ih =>
      rw [Nat.toDigits_eq_if (by decide)] at h
      split at h
      · exact (List.cons.inj h).2.symm
      · -- the digits in front are those of a smaller number, which is not zero
        exfalso
        cases hd : Nat.toDigits 10 (n / 10) with
        | nil => exact Nat.toDigits_ne_nil hd
        | cons c digits =>
            rw [hd, List.cons_append] at h
            obtain ⟨rfl, -⟩ := List.cons.inj h
            have hnil := ih (n / 10) (by omega) hd
            have hvalue := Nat.ofDigitChars_toDigits (b := 10) (n := n / 10) (by decide) (by decide)
            rw [hd, hnil] at hvalue
            have hzero : n / 10 = 0 := hvalue.symm
            omega

/-- The digits of a number of 64 bits are read as this number. -/
theorem unsigned_toDigits (negative : Bool) {n : Nat} (hn : n ≤ largestWhole) (he : Ends rest) :
    unsigned negative (pieces (Nat.toDigits 10 n) ++ rest) =
      (integral negative ⟨n, 0⟩, some rest) := by
  have hdigits : ∀ c ∈ Nat.toDigits 10 n, c.isDigit = true := fun c hc =>
    Nat.isDigit_of_mem_toDigits (by decide) (by decide) hc
  have hvalue := Nat.ofDigitChars_toDigits (b := 10) (n := n) (by decide) (by decide)
  have hwhole : ({ digits := 0, power := 0 } : Leading).whole (Nat.toDigits 10 n) = ⟨n, 0⟩ := by
    rw [whole_eq _ _ (hvalue.symm ▸ hn), hvalue]
  unfold unsigned
  rw [takeDigits_append hdigits he]
  split
  · next heq => exact absurd (congrArg Prod.fst heq) Nat.toDigits_ne_nil
  · next heq =>
    have hzero := head_toDigits n (congrArg Prod.fst heq)
    cases hzero
  · next heq =>
    cases heq
    rw [hwhole]
    cases rest with
    | nil => rfl
    | cons p tail =>
        obtain ⟨-, hdot, hlow, hhigh⟩ := he p tail rfl
        split
        · next hp => exact absurd (List.cons.inj hp).1 hdot
        · next hp => exact absurd (List.cons.inj hp).1 hlow
        · next hp => exact absurd (List.cons.inj hp).1 hhigh
        · rfl

/-- What is written of a whole number of 64 bits is read as this number. -/
theorem number_integerText {n : Int} (hlow : -(twoTo 63 : Int) ≤ n) (hhigh : n < twoTo 63)
    (he : Ends rest) : number (pieces (integerText n) ++ rest) = (.integer n, some rest) := by
  unfold integerText
  by_cases hn : n < 0
  · rw [if_pos hn]
    show unsigned true (pieces (Nat.toDigits 10 n.natAbs) ++ rest) = _
    have hsmall : n.natAbs ≤ twoTo 63 := by omega
    rw [unsigned_toDigits true (Nat.le_trans hsmall (by decide)) he, integral, if_neg (by simp),
      if_pos rfl, if_neg]
    · show (Tree.integer (-(n.natAbs : Int)), _) = _
      rw [show -(n.natAbs : Int) = n by omega]
    · dsimp only
      omega
  · rw [if_neg hn]
    have hplain : number (pieces (Nat.toDigits 10 n.natAbs) ++ rest) =
        unsigned false (pieces (Nat.toDigits 10 n.natAbs) ++ rest) := by
      unfold number
      split
      · next heq =>
        -- digits do not begin with a minus
        cases hd : Nat.toDigits 10 n.natAbs with
        | nil => exact absurd hd Nat.toDigits_ne_nil
        | cons c digits =>
            rw [hd] at heq
            obtain ⟨hc, -⟩ := List.cons.inj heq
            have hdigit : c.isDigit = true := by
              refine Nat.isDigit_of_mem_toDigits (b := 10) (n := n.natAbs) (by decide) (by decide) ?_
              rw [hd]
              exact List.mem_cons_self
            rw [Option.some.inj hc] at hdigit
            cases hdigit
      · rfl
    have hsmall : n.natAbs ≤ twoTo 63 := by omega
    rw [hplain, unsigned_toDigits false (Nat.le_trans hsmall (by decide)) he, integral,
      if_neg (by simp), if_neg (by simp)]
    show (Tree.integer (n.natAbs : Int), _) = _
    rw [show (n.natAbs : Int) = n by omega]

end NearCache.Document.Json
