import NearCache.Proofs.Json.Scalars

/-!
# Compact JSON is read back

`Tree.Plain` are the trees that a JSON text can say: no fractions, whole numbers of 64 bits, and
records whose fields are named by texts. `read_json`: the compact text of a plain tree is read as
this tree, if no more than 127 containers stand within each other (`Tree.nesting`).

A value is followed by the end of the text, or by a comma or a closing bracket (`Stops`), and all of
them end a number.
-/

namespace NearCache.Document

namespace Tree

/-- The fields of a record that are named by texts. -/
abbrev named (fields : List (String × Tree)) : List (Tree × Tree) :=
  fields.map fun f => (.text f.1, f.2)

/-- A tree that is made of nothing, truth values, whole numbers of 64 bits, texts, lists and records
from texts. -/
inductive Plain : Tree → Prop where
  | null : Plain .null
  | bool (b : Bool) : Plain (.bool b)
  | integer {n : Int} (low : -(twoTo 63 : Int) ≤ n) (high : n < twoTo 63) : Plain (.integer n)
  | text (s : String) : Plain (.text s)
  | list {items : List Tree} (plain : ∀ t ∈ items, Plain t) : Plain (.list items)
  | record {fields : List (String × Tree)} (plain : ∀ f ∈ fields, Plain f.2) :
      Plain (.record (named fields))

mutual

/-- How many containers stand within each other. -/
def nesting : Tree → Nat
  | list items => nestingAll items + 1
  | record fields => nestingFields fields + 1
  | tagged _ t => t.nesting
  | _ => 0

/-- The deepest of some trees. -/
def nestingAll : List Tree → Nat
  | [] => 0
  | t :: ts => max t.nesting (nestingAll ts)

/-- The deepest of the trees in some fields. -/
def nestingFields : List (Tree × Tree) → Nat
  | [] => 0
  | (_, v) :: rest => max v.nesting (nestingFields rest)

end

end Tree

namespace Json

open Document.Tree (named)

variable {rest : List Piece}

/-- What may stand behind a value. -/
def Stops (rest : List Piece) : Prop :=
  ∀ p tail, rest = p :: tail → p = some ',' ∨ p = some ']' ∨ p = some '\x7d'

theorem Stops.ends (h : Stops rest) : Ends rest := by
  intro p tail heq
  rcases h p tail heq with rfl | rfl | rfl <;> decide

theorem stops_nil : Stops [] := by
  intro p tail heq
  cases heq

theorem stops_cons {c : Char} (h : c = ',' ∨ c = ']' ∨ c = '\x7d') : Stops (some c :: rest) := by
  intro p tail heq
  cases heq
  rcases h with rfl | rfl | rfl <;> simp

theorem skipSpace_cons {c : Char} (h : isSpace c = false) :
    skipSpace (some c :: rest) = some c :: rest := by
  simp [skipSpace, h]

/-- The characters with which a number begins are no blanks. -/
theorem isSpace_eq_false {c : Char} (hc : c = '-' ∨ c.isDigit = true) : isSpace c = false := by
  cases hs : isSpace c with
  | false => rfl
  | true =>
      simp only [isSpace, Bool.or_eq_true, decide_eq_true_eq] at hs
      rcases hs with ((rfl | rfl) | rfl) | rfl <;> rcases hc with hc | hc <;> cases hc

theorem head_integerText (n : Int) :
    ∃ c cs, integerText n = c :: cs ∧ (c = '-' ∨ c.isDigit = true) := by
  unfold integerText
  split
  · exact ⟨'-', _, rfl, Or.inl rfl⟩
  · cases hd : Nat.toDigits 10 n.natAbs with
    | nil => exact absurd hd Nat.toDigits_ne_nil
    | cons c cs =>
        refine ⟨c, cs, rfl, Or.inr ?_⟩
        refine Nat.isDigit_of_mem_toDigits (b := 10) (n := n.natAbs) (by decide) (by decide) ?_
        rw [hd]
        exact List.mem_cons_self

/-- The first character of a value is neither a blank nor a closing bracket. -/
theorem head_jsonChars {t : Tree} (h : t.Plain) :
    ∃ c cs, t.jsonChars = c :: cs ∧ isSpace c = false ∧ c ≠ ']' := by
  cases h with
  | null => exact ⟨'n', _, rfl, by decide, by decide⟩
  | bool b =>
      cases b with
      | true => exact ⟨'t', _, rfl, by decide, by decide⟩
      | false => exact ⟨'f', _, rfl, by decide, by decide⟩
  | @integer n =>
      obtain ⟨c, cs, hcs, hc⟩ := head_integerText n
      refine ⟨c, cs, by rw [Tree.jsonChars, hcs], isSpace_eq_false hc, ?_⟩
      rintro rfl
      rcases hc with hc | hc <;> cases hc
  | text s => exact ⟨'"', _, by rw [Tree.jsonChars, quote], by decide, by decide⟩
  | list => exact ⟨'[', _, by rw [Tree.jsonChars], by decide, by decide⟩
  | record => exact ⟨'\x7b', _, by rw [Tree.jsonChars], by decide, by decide⟩

/-- A tree is read from its text, with enough fuel, and not too deep. -/
def Reads (t : Tree) : Prop :=
  ∀ {fuel depth : Nat} {rest : List Piece}, 2 * t.jsonChars.length ≤ fuel →
    depth + t.nesting ≤ deepest + 1 → Stops rest →
    value fuel depth (pieces t.jsonChars ++ rest) = (t, some rest)

theorem value_number {fuel depth : Nat} {c : Char} (hc : c = '-' ∨ c.isDigit = true) :
    value (fuel + 1) depth (some c :: rest) = number (some c :: rest) := by
  have hne : ∀ d : Char, d ≠ '-' → d.isDigit = false → c ≠ d := by
    rintro d hminus hdigit rfl
    rcases hc with hc | hc
    · exact hminus hc
    · rw [hdigit] at hc
      cases hc
  rw [value, skipSpace_cons (isSpace_eq_false hc)]
  split <;> first
    | rfl
    | (next heq =>
        cases heq
        exact absurd rfl (hne _ (by decide) (by decide)))

/-! ## Containers -/

variable {depth fuel : Nat}

/-- What was read within the bound is kept. -/
theorem bounded_eq (h : depth ≤ deepest) (read : Tree × Remaining) : bounded depth read = read :=
  if_pos h

theorem jsonItems_cons {t : Tree} {ts : List Tree} (h : ts ≠ []) :
    pieces (Tree.jsonItems (t :: ts)) = pieces t.jsonChars ++ some ',' :: pieces (Tree.jsonItems ts) ∧
      (Tree.jsonItems (t :: ts)).length =
        t.jsonChars.length + (Tree.jsonItems ts).length + 1 := by
  rw [Tree.jsonItems]
  · simp [pieces]
    omega
  · exact h

theorem items_jsonItems (ts : List Tree) (hreads : ∀ t ∈ ts, Reads t) :
    ∀ fuel, ts ≠ [] → 2 * (Tree.jsonItems ts).length + 1 ≤ fuel →
      depth + Tree.nestingAll ts ≤ deepest + 1 →
      items fuel depth (pieces (Tree.jsonItems ts) ++ some ']' :: rest) = (ts, some rest) := by
  induction ts with
  | nil => intro fuel hne; exact absurd rfl hne
  | cons t ts ih =>
      intro fuel _ hfuel hdepth
      obtain ⟨fuel, rfl⟩ : ∃ n, fuel = n + 1 := ⟨fuel - 1, by omega⟩
      rw [Tree.nestingAll] at hdepth
      have ht : Reads t := hreads t List.mem_cons_self
      -- the last item stands in front of the bracket, any other in front of a comma
      cases ts with
      | nil =>
          rw [Tree.jsonItems] at hfuel ⊢
          rw [items, ht (by omega) (by omega) (stops_cons (by simp))]
          rfl
      | cons t' ts =>
          obtain ⟨htext, hlength⟩ := jsonItems_cons (t := t) (List.cons_ne_nil t' ts)
          have hrest := ih (fun t ht => hreads t (List.mem_cons_of_mem _ ht)) fuel
            (List.cons_ne_nil t' ts) (by omega) (by omega)
          rw [htext, List.append_assoc, List.cons_append, items,
            ht (by omega) (by omega) (stops_cons (by simp))]
          simp only [skipSpace_cons (show isSpace ',' = false by decide), hrest]

theorem jsonFields_single (f : String × Tree) :
    Tree.jsonFields (named [f]) = quote f.1 ++ ':' :: f.2.jsonChars := by
  show Tree.jsonFields [(.text f.1, f.2)] = _
  rw [Tree.jsonFields, Tree.jsonChars]

theorem jsonFields_cons {f : String × Tree} {fs : List (String × Tree)} (h : fs ≠ []) :
    Tree.jsonFields (named (f :: fs)) =
      quote f.1 ++ ':' :: (f.2.jsonChars ++ ',' :: Tree.jsonFields (named fs)) := by
  show Tree.jsonFields ((.text f.1, f.2) :: named fs) = _
  rw [Tree.jsonFields, Tree.jsonChars]
  simpa using h

/-- The name of a field is read up to its value. -/
theorem name_field (f : String × Tree) (rest : List Piece) :
    ∃ tail, pieces (quote f.1 ++ ':' :: f.2.jsonChars) ++ rest = some '"' :: tail ∧
      string (some []) tail = (.text f.1, some (some ':' :: (pieces f.2.jsonChars ++ rest))) := by
  have htext : pieces (quote f.1 ++ ':' :: f.2.jsonChars) ++ rest =
      pieces (quote f.1) ++ some ':' :: (pieces f.2.jsonChars ++ rest) := by
    simp [pieces]
  rw [htext]
  exact string_quote f.1 _

/-- A field in front of the closing bracket is the last one. -/
theorem fields_last {f : String × Tree} (ht : Reads f.2) (hfuel : 2 * f.2.jsonChars.length ≤ fuel)
    (hdepth : depth + f.2.nesting ≤ deepest + 1) :
    fields (fuel + 1) depth
        (pieces (quote f.1 ++ ':' :: f.2.jsonChars) ++ some '\x7d' :: rest) =
      ([(.text f.1, f.2)], some rest) := by
  obtain ⟨tail, hname, hstring⟩ := name_field f (some '\x7d' :: rest)
  rw [hname, fields]
  simp only [skipSpace_cons (show isSpace '"' = false by decide), hstring,
    skipSpace_cons (show isSpace ':' = false by decide),
    ht hfuel hdepth (stops_cons (Or.inr (Or.inr rfl))),
    skipSpace_cons (show isSpace '\x7d' = false by decide)]

/-- Behind a field and a comma stand the others. -/
theorem fields_next {f : String × Tree} (ht : Reads f.2) (hfuel : 2 * f.2.jsonChars.length ≤ fuel)
    (hdepth : depth + f.2.nesting ≤ deepest + 1) {l : List (Tree × Tree)} {remaining : Remaining}
    (hrest : fields fuel depth rest = (l, remaining)) :
    fields (fuel + 1) depth (pieces (quote f.1 ++ ':' :: f.2.jsonChars) ++ some ',' :: rest) =
      ((.text f.1, f.2) :: l, remaining) := by
  obtain ⟨tail, hname, hstring⟩ := name_field f (some ',' :: rest)
  rw [hname, fields]
  simp only [skipSpace_cons (show isSpace '"' = false by decide), hstring,
    skipSpace_cons (show isSpace ':' = false by decide),
    ht hfuel hdepth (stops_cons (Or.inl rfl)),
    skipSpace_cons (show isSpace ',' = false by decide), hrest]

theorem fields_jsonFields (fs : List (String × Tree)) (hreads : ∀ f ∈ fs, Reads f.2) :
    ∀ fuel, fs ≠ [] → 2 * (Tree.jsonFields (named fs)).length + 1 ≤ fuel →
      depth + Tree.nestingFields (named fs) ≤ deepest + 1 →
      fields fuel depth (pieces (Tree.jsonFields (named fs)) ++ some '\x7d' :: rest) =
        (named fs, some rest) := by
  induction fs with
  | nil => intro fuel hne; exact absurd rfl hne
  | cons f fs ih =>
      intro fuel _ hfuel hdepth
      obtain ⟨fuel, rfl⟩ : ∃ n, fuel = n + 1 := ⟨fuel - 1, by omega⟩
      have hdepth' : depth + max f.2.nesting (Tree.nestingFields (named fs)) ≤ deepest + 1 := hdepth
      have hf : Reads f.2 := hreads f List.mem_cons_self
      cases fs with
      | nil =>
          rw [jsonFields_single] at hfuel ⊢
          simp only [List.length_append, List.length_cons] at hfuel
          exact fields_last hf (by omega) (by omega)
      | cons f' fs =>
          have htext := jsonFields_cons (f := f) (List.cons_ne_nil f' fs)
          rw [htext] at hfuel
          simp only [List.length_append, List.length_cons] at hfuel
          have hrest := ih (fun f hf => hreads f (List.mem_cons_of_mem _ hf)) fuel
            (List.cons_ne_nil f' fs) (by omega) (by omega)
          have hsplit : pieces (Tree.jsonFields (named (f :: f' :: fs))) ++ some '\x7d' :: rest =
              pieces (quote f.1 ++ ':' :: f.2.jsonChars) ++
                some ',' :: (pieces (Tree.jsonFields (named (f' :: fs))) ++ some '\x7d' :: rest) := by
            rw [htext]
            simp [pieces]
          rw [hsplit]
          exact fields_next hf (by omega) (by omega) hrest

/-! ## Values -/

/-- A list is read once its items are, of which the first does not begin with a bracket that
closes. -/
theorem value_list {ts : List Tree} (hplain : ∀ t ∈ ts, t.Plain) (hdepth : depth ≤ deepest)
    (hread : ts ≠ [] → items fuel (depth + 1) (pieces (Tree.jsonItems ts) ++ some ']' :: rest) =
      (ts, some rest)) :
    value (fuel + 1) depth (pieces (Tree.list ts).jsonChars ++ rest) = (.list ts, some rest) := by
  have htext : pieces (Tree.list ts).jsonChars ++ rest =
      some '[' :: (pieces (Tree.jsonItems ts) ++ some ']' :: rest) := by
    rw [Tree.jsonChars]
    simp [pieces]
  rw [htext, value]
  simp only [skipSpace_cons (show isSpace '[' = false by decide)]
  cases ts with
  | nil =>
      simp only [Tree.jsonItems, pieces, List.map_nil, List.nil_append,
        skipSpace_cons (show isSpace ']' = false by decide)]
      exact bounded_eq hdepth _
  | cons t ts =>
      -- the first item must not be taken for the bracket
      have hitems := hread (List.cons_ne_nil t ts)
      obtain ⟨c, cs, hcs, hspace, hclose⟩ := head_jsonChars (hplain t List.mem_cons_self)
      obtain ⟨tail, htail⟩ : ∃ tail, pieces (Tree.jsonItems (t :: ts)) ++ some ']' :: rest =
          some c :: tail := by
        cases ts with
        | nil => exact ⟨_, by rw [Tree.jsonItems, hcs]; rfl⟩
        | cons t' ts =>
            obtain ⟨hcons, -⟩ := jsonItems_cons (t := t) (List.cons_ne_nil t' ts)
            exact ⟨_, by rw [hcons, hcs]; rfl⟩
      rw [htail] at hitems ⊢
      rw [skipSpace_cons hspace]
      split
      · next heq => exact absurd (Option.some.inj (List.cons.inj heq).1) hclose
      · rw [hitems]
        exact bounded_eq hdepth _

/-- A record is read once its fields are, which begin with a quote. -/
theorem value_record {fs : List (String × Tree)} (hdepth : depth ≤ deepest)
    (hread : fs ≠ [] →
      fields fuel (depth + 1) (pieces (Tree.jsonFields (named fs)) ++ some '\x7d' :: rest) =
        (named fs, some rest)) :
    value (fuel + 1) depth (pieces (Tree.record (named fs)).jsonChars ++ rest) =
      (.record (named fs), some rest) := by
  have htext : pieces (Tree.record (named fs)).jsonChars ++ rest =
      some '\x7b' :: (pieces (Tree.jsonFields (named fs)) ++ some '\x7d' :: rest) := by
    rw [Tree.jsonChars]
    simp [pieces]
  rw [htext, value]
  simp only [skipSpace_cons (show isSpace '\x7b' = false by decide)]
  cases fs with
  | nil =>
      simp only [named, List.map_nil, Tree.jsonFields, pieces, List.nil_append,
        skipSpace_cons (show isSpace '\x7d' = false by decide)]
      exact bounded_eq hdepth _
  | cons f fs =>
      have hfields := hread (List.cons_ne_nil f fs)
      obtain ⟨tail, htail⟩ : ∃ tail, pieces (Tree.jsonFields (named (f :: fs))) ++
          some '\x7d' :: rest = some '"' :: tail := by
        cases fs with
        | nil => exact ⟨_, by rw [jsonFields_single, quote]; rfl⟩
        | cons f' fs => exact ⟨_, by rw [jsonFields_cons (List.cons_ne_nil f' fs), quote]; rfl⟩
      rw [htail] at hfields ⊢
      rw [skipSpace_cons (show isSpace '"' = false by decide)]
      split
      · next heq => cases heq
      · rw [hfields]
        exact bounded_eq hdepth _

theorem reads_of_plain {t : Tree} (h : t.Plain) : Reads t := by
  induction h with
  | null =>
      intro fuel depth rest hfuel _ _
      obtain ⟨fuel, rfl⟩ : ∃ n, fuel = n + 1 := ⟨fuel - 1, by simp [Tree.jsonChars] at hfuel; omega⟩
      rfl
  | bool b =>
      intro fuel depth rest hfuel _ _
      obtain ⟨fuel, rfl⟩ : ∃ n, fuel = n + 1 := ⟨fuel - 1, by
        cases b <;> simp [Tree.jsonChars] at hfuel <;> omega⟩
      cases b <;> rfl
  | @integer n hlow hhigh =>
      intro fuel depth rest hfuel _ hs
      -- only a number depends on what stands behind it
      obtain ⟨c, cs, hcs, hc⟩ := head_integerText n
      rw [Tree.jsonChars, hcs] at hfuel ⊢
      obtain ⟨fuel, rfl⟩ : ∃ n, fuel = n + 1 := ⟨fuel - 1, by simp at hfuel; omega⟩
      have hnumber := number_integerText hlow hhigh hs.ends
      rw [hcs] at hnumber
      exact (value_number hc).trans hnumber
  | text s =>
      intro fuel depth rest hfuel _ _
      rw [Tree.jsonChars] at hfuel ⊢
      obtain ⟨fuel, rfl⟩ : ∃ n, fuel = n + 1 := ⟨fuel - 1, by simp [quote] at hfuel; omega⟩
      obtain ⟨tail, hquote, hstring⟩ := string_quote s rest
      rw [hquote, value]
      simp only [skipSpace_cons (show isSpace '"' = false by decide), hstring]
  | @list ts plain ih =>
      intro fuel depth rest hfuel hdepth _
      have hlength : (Tree.list ts).jsonChars.length = (Tree.jsonItems ts).length + 2 := by
        rw [Tree.jsonChars]
        simp
      have hnesting : (Tree.list ts).nesting = Tree.nestingAll ts + 1 := by rw [Tree.nesting]
      obtain ⟨fuel, rfl⟩ : ∃ n, fuel = n + 1 := ⟨fuel - 1, by omega⟩
      refine value_list plain (by omega) fun hne => ?_
      exact items_jsonItems ts ih _ hne (by omega) (by omega)
  | @record fs plain ih =>
      intro fuel depth rest hfuel hdepth _
      have hlength : (Tree.record (named fs)).jsonChars.length =
          (Tree.jsonFields (named fs)).length + 2 := by
        rw [Tree.jsonChars]
        simp
      have hdepth' : depth + (Tree.nestingFields (named fs) + 1) ≤ deepest + 1 := hdepth
      obtain ⟨fuel, rfl⟩ : ∃ n, fuel = n + 1 := ⟨fuel - 1, by omega⟩
      refine value_record (by omega) fun hne => ?_
      exact fields_jsonFields fs ih _ hne (by omega) (by omega)

/-- **The compact text of a plain tree is read as this tree**, to its end. -/
theorem read_jsonChars {t : Tree} (h : t.Plain) (hn : t.nesting ≤ deepest + 1) :
    read (pieces t.jsonChars) = (t, true) := by
  have hvalue : value (2 * ((pieces t.jsonChars).length + 1)) 0 (pieces t.jsonChars ++ []) =
      (t, some []) :=
    reads_of_plain h (by simp only [pieces, List.length_map]; omega) (by omega) stops_nil
  rw [List.append_nil] at hvalue
  rw [read, hvalue]
  rfl

end Json

end NearCache.Document
