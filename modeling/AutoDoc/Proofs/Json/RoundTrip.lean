import AutoDoc.Json.Parser
import AutoDoc.Json.Printer
import Mathlib.Data.List.Basic

/-!
# Reading what was written

A value without floating-point numbers and unreadable parts says in its compact layout just what it
is: reading the layout gives the value again (`parse?_compact`), as long as it is not nested too
deeply for the reader. The layout is a single line (`newline_not_mem_compact`).
-/

namespace AutoDoc.Json

/-! ### Plain values -/

mutual

/-- No part of the value is a floating-point number or unreadable, and its integers fit a 64-bit
word. -/
def isPlain : Json → Bool
  | .null | .bool _ | .str _ => true
  | .int n => decide (-Int.ofNat Word.limit63 ≤ n) && decide (n < Int.ofNat Word.limit64)
  | .float _ _ | .unreadable => false
  | .arr items => itemsPlain items
  | .obj members => membersPlain members

def itemsPlain : List Json → Bool
  | [] => true
  | v :: rest => isPlain v && itemsPlain rest

def membersPlain : List (String × Json) → Bool
  | [] => true
  | (_, v) :: rest => isPlain v && membersPlain rest

end

theorem isPlain_nat {n : Nat} (small : n < Word.limit64) : (nat n).isPlain = true := by
  simp only [nat, isPlain, Bool.and_eq_true, decide_eq_true_eq, Int.ofNat_eq_natCast]
  omega

/-! ### Numbers -/

/-- What can stand behind a value in the compact layout. -/
def Stops (rest : List Char) : Prop :=
  ∀ c, rest.head? = some c → c = ',' ∨ c = ']' ∨ c = '\x7d'

theorem Stops.nil : Stops [] := fun c absent => by cases absent

theorem Stops.cons {c : Char} (rest : List Char) (stop : c = ',' ∨ c = ']' ∨ c = '\x7d') :
    Stops (c :: rest) := fun d same => by
  cases same
  exact stop

theorem isDigit_of_mem {n : Nat} {c : Char} (member : c ∈ Nat.toDigits 10 n) : c.isDigit = true :=
  Nat.isDigit_of_mem_toDigits (by decide) (by decide) member

theorem digitsValue_toDigits (n : Nat) : digitsValue (Nat.toDigits 10 n) = n := by
  have same := Nat.ofDigitChars_toDigits (b := 10) (n := n) (by decide) (by decide)
  rwa [Nat.ofDigitChars_eq_foldl] at same

theorem digitChar_ne_zero : ∀ n < 10, n ≠ 0 → Nat.digitChar n ≠ '0' := by decide

/-- Only zero is written with a zero in front. -/
theorem toDigits_head {n : Nat} (zero : (Nat.toDigits 10 n).head? = some '0') : n = 0 := by
  induction n using Nat.strongRecOn with
  | _ n ih =>
    rw [Nat.toDigits_eq_if (by decide)] at zero
    split at zero
    next small =>
      by_contra other
      exact digitChar_ne_zero n small other (Option.some.inj zero)
    next large =>
      rw [List.head?_append_of_ne_nil _ Nat.toDigits_ne_nil] at zero
      have tenth := ih (n / 10) (by omega) zero
      omega

/-- Behind a number something stands that is no digit, so the number ends where its digits do. -/
theorem digits_split {n : Nat} {rest : List Char} (stops : Stops rest) :
    (Nat.toDigits 10 n ++ rest).takeWhile Char.isDigit = Nat.toDigits 10 n ∧
      (Nat.toDigits 10 n ++ rest).dropWhile Char.isDigit = rest := by
  have digits : ∀ c ∈ Nat.toDigits 10 n, c.isDigit = true := fun c => isDigit_of_mem
  have ends : rest.takeWhile Char.isDigit = [] ∧ rest.dropWhile Char.isDigit = rest := by
    cases rest with
    | nil => exact ⟨rfl, rfl⟩
    | cons c more =>
      have other : c.isDigit = false := by
        rcases stops c rfl with rfl | rfl | rfl <;> decide
      simp [other]
  rw [List.takeWhile_append_of_pos digits, List.dropWhile_append_of_pos digits, ends.1, ends.2,
    List.append_nil]
  exact ⟨rfl, rfl⟩

/-- Digits with a sign are read as a whole number. -/
theorem number?_digits (negative : Bool) (n : Nat) {rest : List Char} (stops : Stops rest) :
    number? ((if negative then ['-'] else []) ++ Nat.toDigits 10 n ++ rest) =
      some (wholeNumber negative (Nat.toDigits 10 n), rest) := by
  obtain ⟨digits, behind⟩ := digits_split (n := n) stops
  have written : (Nat.toDigits 10 n).isEmpty = false := by simp
  have proper : ((Nat.toDigits 10 n).head? == some '0' && (Nat.toDigits 10 n).length != 1) =
      false := by
    cases zero : (Nat.toDigits 10 n).head? == some '0' with
    | false => rfl
    | true =>
      obtain rfl := toDigits_head (beq_iff_eq.mp zero)
      decide
  have point : fraction? rest = some ([], rest) := by
    cases rest with
    | nil => rfl
    | cons c more => rcases stops c rfl with rfl | rfl | rfl <;> rfl
  have noExponent : exponent? rest = some (none, rest) := by
    cases rest with
    | nil => rfl
    | cons c more => rcases stops c rfl with rfl | rfl | rfl <;> rfl
  have unsigned : ∀ more, Nat.toDigits 10 n ++ rest ≠ '-' :: more := by
    intro more same
    obtain ⟨c, ds, split⟩ := List.exists_cons_of_ne_nil (Nat.toDigits_ne_nil (n := n) (b := 10))
    have digit : c.isDigit = true := isDigit_of_mem (n := n) (by simp [split])
    rw [split, List.cons_append] at same
    rw [(List.cons.inj same).1] at digit
    revert digit
    decide
  unfold number?
  cases negative with
  | true =>
    simp only [if_true, List.cons_append, List.nil_append, digits, behind, written, proper, point,
      Bool.or_self, Bool.false_eq_true, if_false, bind, Option.bind, noExponent]
    rfl
  | false =>
    simp only [Bool.false_eq_true, if_false, List.nil_append, digits, behind, written, proper,
      point, Bool.or_self, bind, Option.bind, noExponent]
    rfl

theorem toString_ofNat (n : Nat) : (toString (Int.ofNat n)).toList = Nat.toDigits 10 n :=
  String.toList_ofList

theorem toString_negSucc (n : Nat) :
    (toString (Int.negSucc n)).toList = '-' :: Nat.toDigits 10 (n + 1) := by
  change ("-" ++ String.ofList (Nat.toDigits 10 (n + 1))).toList = _
  rw [String.toList_append]
  exact congrArg (_ ++ ·) String.toList_ofList

/-- An integer that fits a 64-bit word is read back. -/
theorem number?_int {n : Int} (plain : (Json.int n).isPlain = true) {rest : List Char}
    (stops : Stops rest) : number? ((toString n).toList ++ rest) = some (.int n, rest) := by
  simp only [isPlain, Bool.and_eq_true, decide_eq_true_eq] at plain
  obtain ⟨low, high⟩ := plain
  cases n with
  | ofNat n =>
    have fits : n < Word.limit64 := by exact Int.ofNat_lt.mp high
    rw [toString_ofNat]
    refine (number?_digits false n stops).trans ?_
    unfold wholeNumber
    rw [digitsValue_toDigits]
    simp [fits]
  | negSucc n =>
    have fits : n + 1 ≤ Word.limit63 := by
      rw [Int.negSucc_eq] at low
      have := Int.neg_le_neg_iff.mp low
      exact Int.ofNat_le.mp this
    rw [toString_negSucc]
    refine (number?_digits true (n + 1) stops).trans ?_
    unfold wholeNumber
    rw [digitsValue_toDigits]
    simp [fits, Int.negSucc_eq]

/-! ### Strings -/

theorem hex4?_control : ∀ n < 32,
    hex4? '0' '0' (hexDigit (n / 16)) (hexDigit (n % 16)) = some n := by
  decide

/-- An escape of two characters is read as one piece that stands for the character it escapes. -/
theorem pieces_shortEscape (e d : Char) (known : shortEscape? e = some d) (other : e ≠ 'u') : ∃ p,
    (∀ rest, pieces (['\\', e] ++ rest) = (pieces rest).map fun r => (p :: r.1, r.2)) ∧
      ∀ ps, joinPieces (p :: ps) = (joinPieces ps).map (d :: ·) := by
  refine ⟨.char d, fun rest => ?_, fun ps => rfl⟩
  rw [List.cons_append, List.cons_append, List.nil_append, pieces]
  · rw [known]
    cases pieces rest <;> rfl
  · intro a b c d more same
    exact absurd same other

/-- An escaped character is read as one piece that stands for it. -/
theorem pieces_escapeChar (c : Char) : ∃ p,
    (∀ rest, pieces (escapeChar c ++ rest) = (pieces rest).map fun r => (p :: r.1, r.2)) ∧
      ∀ ps, joinPieces (p :: ps) = (joinPieces ps).map (c :: ·) := by
  unfold escapeChar
  split
  next is => exact beq_iff_eq.mp is ▸ pieces_shortEscape '"' '"' rfl (by decide)
  split
  next is => exact beq_iff_eq.mp is ▸ pieces_shortEscape '\\' '\\' rfl (by decide)
  split
  next is => exact beq_iff_eq.mp is ▸ pieces_shortEscape 'n' '\n' rfl (by decide)
  split
  next is => exact beq_iff_eq.mp is ▸ pieces_shortEscape 'r' '\r' rfl (by decide)
  split
  next is => exact beq_iff_eq.mp is ▸ pieces_shortEscape 't' '\t' rfl (by decide)
  split
  next is => exact beq_iff_eq.mp is ▸ pieces_shortEscape 'b' '\x08' rfl (by decide)
  split
  next is => exact beq_iff_eq.mp is ▸ pieces_shortEscape 'f' '\x0c' rfl (by decide)
  split
  next control =>
    refine ⟨.unit c.toNat, fun rest => ?_, fun ps => ?_⟩
    · simp only [List.cons_append, List.nil_append, pieces, hex4?_control c.toNat control]
      cases pieces rest <;> rfl
    · rw [joinPieces.eq_def (.unit c.toNat :: ps)]
      dsimp only
      rw [if_pos (by simp; omega), Char.ofNat_toNat]
  next quote backslash _ _ _ _ _ control =>
    refine ⟨.char c, fun rest => ?_, fun ps => rfl⟩
    have plain : c ≠ '"' ∧ c ≠ '\\' := ⟨by simpa using quote, by simpa using backslash⟩
    rw [List.cons_append, List.nil_append, pieces.eq_def]
    split
    next same => cases same
    next same => exact absurd (List.cons.inj same).1 plain.1
    next same => exact absurd (List.cons.inj same).1 plain.2
    next same => exact absurd (List.cons.inj same).1 plain.2
    next same =>
      cases same
      rw [if_neg (by simp [plain.2]; omega)]
      cases pieces rest <;> rfl

/-- A string literal is read back. -/
theorem pieces_quote (cs rest : List Char) : ∃ ps,
    pieces (cs.flatMap escapeChar ++ '"' :: rest) = some (ps, rest) ∧
      joinPieces ps = some cs := by
  induction cs with
  | nil => exact ⟨[], rfl, rfl⟩
  | cons c cs ih =>
    obtain ⟨ps, read, joined⟩ := ih
    obtain ⟨p, first, stands⟩ := pieces_escapeChar c
    refine ⟨p :: ps, ?_, ?_⟩
    · rw [List.flatMap_cons, List.append_assoc, first, read]
      rfl
    · rw [stands, joined]
      rfl

/-! ### Values -/

theorem compact_str (s : String) :
    (str s).compact.toList = '"' :: (s.toList.flatMap escapeChar ++ ['"']) := by
  simp [compact, scalar, quote]

theorem compact_arr (items : List Json) : (arr items).compact.toList =
    '[' :: ((String.intercalate "," (compactItems items)).toList ++ [']']) := by
  simp [compact]

theorem compact_obj (members : List (String × Json)) : (obj members).compact.toList =
    '\x7b' :: ((String.intercalate "," (compactMembers members)).toList ++ ['\x7d']) := by
  simp [compact]

theorem skipSpace_cons {c : Char} {cs : List Char} (dark : isSpace c = false) :
    skipSpace (c :: cs) = c :: cs := by
  simp [skipSpace, dark]

/-- An integer starts with a digit or a minus sign. -/
theorem toString_head (n : Int) : ∃ c cs, (toString n).toList = c :: cs ∧
    (c.isDigit = true ∨ c = '-') := by
  cases n with
  | ofNat n =>
    obtain ⟨c, cs, split⟩ := List.exists_cons_of_ne_nil (Nat.toDigits_ne_nil (n := n) (b := 10))
    exact ⟨c, cs, (toString_ofNat n).trans split,
      Or.inl (isDigit_of_mem (n := n) (by simp [split]))⟩
  | negSucc n => exact ⟨'-', _, toString_negSucc n, Or.inr rfl⟩

theorem isSpace_of_number {c : Char} (head : c.isDigit = true ∨ c = '-') : isSpace c = false := by
  cases space : isSpace c with
  | false => rfl
  | true =>
    simp only [isSpace, Bool.or_eq_true, beq_iff_eq] at space
    rcases space with ((rfl | rfl) | rfl) | rfl <;> exact absurd head (by decide)

/-- A digit or a sign starts nothing but a number. -/
theorem value?_number {c : Char} {cs : List Char} (head : c.isDigit = true ∨ c = '-')
    (steps room : Nat) : value? (steps + 1) room (c :: cs) = number? (c :: cs) := by
  unfold value?
  rw [skipSpace_cons (isSpace_of_number head)]
  split
  case h_7 => rfl
  all_goals
    next same =>
      obtain ⟨rfl, _⟩ := List.cons.inj same
      exact absurd head (by decide)

/-- A value in the compact layout starts with neither white space nor a closing bracket. -/
theorem compact_head {v : Json} (plain : v.isPlain = true) :
    ∃ c cs, v.compact.toList = c :: cs ∧ isSpace c = false ∧ c ≠ ']' := by
  cases v with
  | null => exact ⟨'n', ['u', 'l', 'l'], by simp [compact, scalar], by decide, by decide⟩
  | bool b =>
    cases b
    · exact ⟨'f', ['a', 'l', 's', 'e'], by simp [compact, scalar], by decide, by decide⟩
    · exact ⟨'t', ['r', 'u', 'e'], by simp [compact, scalar], by decide, by decide⟩
  | int n =>
    obtain ⟨c, cs, text, head⟩ := toString_head n
    refine ⟨c, cs, by simpa [compact, scalar] using text, isSpace_of_number head, ?_⟩
    rintro rfl
    exact absurd head (by decide)
  | float negative magnitude => cases plain
  | str s => exact ⟨'"', _, compact_str s, by decide, by decide⟩
  | unreadable => cases plain
  | arr items => exact ⟨'[', _, compact_arr items, by decide, by decide⟩
  | obj members => exact ⟨'\x7b', _, compact_obj members, by decide, by decide⟩

theorem intercalate_cons {text : String} {texts : List String} (more : texts ≠ []) :
    (String.intercalate "," (text :: texts)).toList =
      text.toList ++ ',' :: (String.intercalate "," texts).toList := by
  obtain ⟨next, rest, rfl⟩ := List.exists_cons_of_ne_nil more
  rw [String.intercalate_cons_cons, String.toList_append, String.toList_append, List.append_assoc]
  rfl

theorem container_of_room {room : Nat} (some : 0 < room) (v : Json) :
    container room (.some v) = v := by
  rw [container, if_neg (by omega)]
  rfl

/-- The items of an array start as the first of them does. -/
theorem items_head {v : Json} (plain : v.isPlain = true) (vs : List Json) :
    ∃ c cs, (String.intercalate "," (compactItems (v :: vs))).toList = c :: cs ∧
      isSpace c = false ∧ c ≠ ']' := by
  obtain ⟨c, cs, text, dark, other⟩ := compact_head plain
  cases vs with
  | nil => exact ⟨c, cs, by simpa [compactItems] using text, dark, other⟩
  | cons w ws =>
    refine ⟨c, cs ++ ',' :: (String.intercalate "," (compactItems (w :: ws))).toList, ?_, dark,
      other⟩
    rw [compactItems, intercalate_cons (by simp [compactItems]), text]
    rfl

theorem member_toList (k : String) (v : Json) :
    (quote k ++ ":" ++ compact v).toList =
      '"' :: (k.toList.flatMap escapeChar ++ '"' :: ':' :: v.compact.toList) := by
  simp [quote]

theorem members_head (k : String) (v : Json) (ms : List (String × Json)) :
    ∃ cs, (String.intercalate "," (compactMembers ((k, v) :: ms))).toList = '"' :: cs := by
  refine List.head?_eq_some_iff.mp ?_
  cases ms with
  | nil =>
    rw [compactMembers, compactMembers, String.intercalate_singleton, member_toList]
    rfl
  | cons m more =>
    rw [compactMembers, intercalate_cons (by simp [compactMembers]), member_toList]
    rfl

/-- The value is read from its compact layout, whatever stands behind it, once there are steps and
room for it. -/
def Reads (v : Json) : Prop :=
  ∀ {steps room : Nat} {rest : List Char}, v.depth ≤ room →
    2 * v.compact.toList.length ≤ steps + 1 → Stops rest →
    value? (steps + 1) room (v.compact.toList ++ rest) = some (v, rest)

/-- The items of an array are read up to its end. -/
def ItemsRead (items : List Json) : Prop :=
  ∀ {steps room : Nat} {rest : List Char}, itemsDepth items ≤ room →
    2 * ((String.intercalate "," (compactItems items)).toList.length + 1) ≤ steps →
    items? steps room ((String.intercalate "," (compactItems items)).toList ++ ']' :: rest) =
      some (items, rest)

/-- The members of an object are read up to its end. -/
def MembersRead (members : List (String × Json)) : Prop :=
  ∀ {steps room : Nat} {rest : List Char}, membersDepth members ≤ room →
    2 * ((String.intercalate "," (compactMembers members)).toList.length + 1) ≤ steps →
    members? steps room
        ((String.intercalate "," (compactMembers members)).toList ++ '\x7d' :: rest) =
      some (some members, rest)

theorem reads_null : Reads .null := fun {steps room rest} _ _ _ => by
  have layout : Json.null.compact.toList = ['n', 'u', 'l', 'l'] := by simp [compact, scalar]
  rw [layout]
  rfl

theorem reads_bool (b : Bool) : Reads (.bool b) := fun {steps room rest} _ _ _ => by
  have layout : (Json.bool b).compact.toList =
      if b then ['t', 'r', 'u', 'e'] else ['f', 'a', 'l', 's', 'e'] := by
    cases b <;> simp [compact, scalar]
  rw [layout]
  cases b <;> rfl

theorem reads_int {n : Int} (plain : (Json.int n).isPlain = true) : Reads (.int n) := by
  intro steps room rest _ _ stops
  obtain ⟨c, cs, text, head⟩ := toString_head n
  have layout : (Json.int n).compact.toList = (toString n).toList := by simp [compact, scalar]
  rw [layout, text, List.cons_append, value?_number head, ← List.cons_append, ← text]
  exact number?_int plain stops

theorem reads_str (s : String) : Reads (.str s) := by
  intro steps room rest _ _ _
  obtain ⟨ps, read, joined⟩ := pieces_quote s.toList rest
  rw [compact_str, List.cons_append, List.append_assoc, List.singleton_append, value?,
    skipSpace_cons (by decide)]
  simp only [read, joined, bind, Option.bind, pure, String.ofList_toList]

theorem reads_arr_nil : Reads (.arr []) := fun {steps room rest} deep _ _ => by
  rw [depth, itemsDepth] at deep
  rw [compact_arr, compactItems]
  exact congrArg (fun v => some (v, rest)) (container_of_room deep (.arr []))

theorem reads_arr_cons {v : Json} {vs : List Json} (here : v.isPlain = true)
    (inner : ItemsRead (v :: vs)) : Reads (.arr (v :: vs)) := by
  intro steps room rest deep long _
  rw [depth] at deep
  rw [compact_arr] at long ⊢
  simp only [List.length_cons, List.length_append, List.length_nil] at long
  have inside : items? steps (room - 1)
      ((String.intercalate "," (compactItems (v :: vs))).toList ++ ']' :: rest) =
      some (v :: vs, rest) := inner (by omega) (by omega)
  obtain ⟨c, cs, text, dark, other⟩ := items_head here vs
  rw [List.cons_append, List.append_assoc, List.singleton_append, value?,
    skipSpace_cons (by decide)]
  rw [text, List.cons_append] at inside ⊢
  simp only [skipSpace_cons dark]
  split
  next same => exact absurd (List.cons.inj same).1 other
  next =>
    simp only [inside, bind, Option.bind, pure, container_of_room (show 0 < room by omega)]

theorem reads_obj_nil : Reads (.obj []) := fun {steps room rest} deep _ _ => by
  rw [depth, membersDepth] at deep
  rw [compact_obj, compactMembers]
  exact congrArg (fun v => some (v, rest)) (container_of_room deep (.obj []))

/-- An object is read if its members are read up to its end. -/
theorem reads_obj_cons {k : String} {v : Json} {ms : List (String × Json)}
    (inner : MembersRead ((k, v) :: ms)) : Reads (.obj ((k, v) :: ms)) := by
  intro steps room rest deep long _
  rw [depth] at deep
  rw [compact_obj] at long ⊢
  simp only [List.length_cons, List.length_append, List.length_nil] at long
  have inside : members? steps (room - 1)
      ((String.intercalate "," (compactMembers ((k, v) :: ms))).toList ++ '\x7d' :: rest) =
      some (some ((k, v) :: ms), rest) := inner (by omega) (by omega)
  obtain ⟨cs, text⟩ := members_head k v ms
  rw [List.cons_append, List.append_assoc, List.singleton_append, value?,
    skipSpace_cons (by decide)]
  rw [text, List.cons_append] at inside ⊢
  simp only [skipSpace_cons (show isSpace '"' = false by decide)]
  split
  next same => cases (List.cons.inj same).1
  next =>
    simp only [inside, bind, Option.bind, pure, Option.map,
      container_of_room (show 0 < room by omega)]

theorem itemsRead_last {v : Json} (here : Reads v) : ItemsRead [v] := by
  intro steps room rest deep long
  rw [itemsDepth] at deep
  rw [compactItems, compactItems, String.intercalate_singleton] at long ⊢
  obtain ⟨steps, rfl⟩ : ∃ n, steps = n + 2 := ⟨steps - 2, by omega⟩
  have read : value? (steps + 1) room (v.compact.toList ++ ']' :: rest) = some (v, ']' :: rest) :=
    here (by omega) (by omega) (Stops.cons _ (by simp))
  rw [items?, read]
  rfl

theorem itemsRead_cons {v w : Json} {vs : List Json} (here : Reads v)
    (later : ItemsRead (w :: vs)) : ItemsRead (v :: w :: vs) := by
  intro steps room rest deep long
  rw [itemsDepth] at deep
  rw [compactItems, intercalate_cons (by simp [compactItems])] at long ⊢
  simp only [List.length_cons, List.length_append] at long
  obtain ⟨steps, rfl⟩ : ∃ n, steps = n + 2 := ⟨steps - 2, by omega⟩
  rw [List.append_assoc, List.cons_append, items?]
  have others := @later (steps + 1) room rest (by omega) (by omega)
  generalize (String.intercalate "," (compactItems (w :: vs))).toList ++ ']' :: rest = behind
    at others ⊢
  have read : value? (steps + 1) room (v.compact.toList ++ ',' :: behind) =
      some (v, ',' :: behind) := here (by omega) (by omega) (Stops.cons _ (by simp))
  rw [read]
  simp only [bind, Option.bind, skipSpace_cons (show isSpace ',' = false by decide), others, pure]

/-- A key is read up to its colon, and the value behind it comes next. -/
theorem members?_key (k : String) (steps room : Nat) (rest : List Char) : ∃ key,
    joinPieces key = some k.toList ∧
    members? (steps + 1) room ('"' :: (k.toList.flatMap escapeChar ++ '"' :: ':' :: rest)) =
      (do
        let (v, rest) ← value? steps room rest
        match skipSpace rest with
        | ',' :: rest => do
          let (members, rest) ← members? steps room rest
          return (withMember (joinPieces key) v members, rest)
        | '\x7d' :: rest => return (withMember (joinPieces key) v (some []), rest)
        | _ => none) := by
  obtain ⟨key, read, joined⟩ := pieces_quote k.toList (':' :: rest)
  refine ⟨key, joined, ?_⟩
  rw [members?, skipSpace_cons (by decide)]
  simp only [read]
  rfl

theorem membersRead_last {k : String} {v : Json} (here : Reads v) : MembersRead [(k, v)] := by
  intro steps room rest deep long
  rw [membersDepth] at deep
  rw [compactMembers, compactMembers, String.intercalate_singleton, member_toList] at long ⊢
  simp only [List.length_cons, List.length_append] at long
  obtain ⟨steps, rfl⟩ : ∃ n, steps = n + 2 := ⟨steps - 2, by omega⟩
  simp only [List.cons_append, List.append_assoc]
  obtain ⟨key, joined, read⟩ :=
    members?_key k (steps + 1) room (v.compact.toList ++ '\x7d' :: rest)
  have value : value? (steps + 1) room (v.compact.toList ++ '\x7d' :: rest) =
      some (v, '\x7d' :: rest) := here (by omega) (by omega) (Stops.cons _ (by simp))
  rw [read, value]
  simp only [bind, Option.bind, skipSpace_cons (show isSpace '\x7d' = false by decide), pure,
    withMember, joined, String.ofList_toList]

theorem membersRead_cons {k : String} {v : Json} {m : String × Json} {ms : List (String × Json)}
    (here : Reads v) (later : MembersRead (m :: ms)) : MembersRead ((k, v) :: m :: ms) := by
  intro steps room rest deep long
  rw [membersDepth] at deep
  rw [compactMembers, intercalate_cons (by simp [compactMembers]), member_toList] at long ⊢
  simp only [List.length_cons, List.length_append] at long
  obtain ⟨steps, rfl⟩ : ∃ n, steps = n + 2 := ⟨steps - 2, by omega⟩
  have others := @later (steps + 1) room rest (by omega) (by omega)
  simp only [List.cons_append, List.append_assoc]
  generalize (String.intercalate "," (compactMembers (m :: ms))).toList ++ '\x7d' :: rest = behind
    at others ⊢
  obtain ⟨key, joined, read⟩ :=
    members?_key k (steps + 1) room (v.compact.toList ++ ',' :: behind)
  have value : value? (steps + 1) room (v.compact.toList ++ ',' :: behind) =
      some (v, ',' :: behind) := here (by omega) (by omega) (Stops.cons _ (by simp))
  rw [read, value]
  simp only [bind, Option.bind, skipSpace_cons (show isSpace ',' = false by decide), others, pure,
    withMember, joined, String.ofList_toList]

mutual

/-- A plain value is read from its compact layout. -/
theorem reads_of_plain : (v : Json) → v.isPlain = true → Reads v
  | .null, _ => reads_null
  | .bool b, _ => reads_bool b
  | .int _, plain => reads_int plain
  | .float _ _, plain => nomatch plain
  | .unreadable, plain => nomatch plain
  | .str s, _ => reads_str s
  | .arr [], _ => reads_arr_nil
  | .arr (v :: vs), plain =>
    reads_arr_cons (Bool.and_eq_true_iff.mp plain).1 (itemsRead_of_plain (v :: vs) (by simp) plain)
  | .obj [], _ => reads_obj_nil
  | .obj ((k, v) :: ms), plain =>
    reads_obj_cons (membersRead_of_plain ((k, v) :: ms) (by simp) plain)

/-- So are plain items. -/
theorem itemsRead_of_plain : (items : List Json) → items ≠ [] → itemsPlain items = true →
    ItemsRead items
  | [], given, _ => absurd rfl given
  | [v], _, plain => itemsRead_last (reads_of_plain v (Bool.and_eq_true_iff.mp plain).1)
  | v :: w :: vs, _, plain =>
    itemsRead_cons (reads_of_plain v (Bool.and_eq_true_iff.mp plain).1)
      (itemsRead_of_plain (w :: vs) (by simp) (Bool.and_eq_true_iff.mp plain).2)

/-- So are members with plain values. -/
theorem membersRead_of_plain : (members : List (String × Json)) → members ≠ [] →
    membersPlain members = true → MembersRead members
  | [], given, _ => absurd rfl given
  | [(_, v)], _, plain => membersRead_last (reads_of_plain v (Bool.and_eq_true_iff.mp plain).1)
  | (_, v) :: m :: ms, _, plain =>
    membersRead_cons (reads_of_plain v (Bool.and_eq_true_iff.mp plain).1)
      (membersRead_of_plain (m :: ms) (by simp) (Bool.and_eq_true_iff.mp plain).2)

end

/-- A plain value that is not nested too deeply is read from its compact layout. -/
theorem parse?_compact {v : Json} (plain : v.isPlain = true) (deep : v.depth ≤ 127) :
    parse? v.compact = some v := by
  have read : value? (2 * v.compact.toList.length + 2) 127 (v.compact.toList ++ []) =
      some (v, []) := reads_of_plain v plain deep (by omega) Stops.nil
  rw [List.append_nil] at read
  simp only [parse?, read]
  rfl

/-! ### One line -/

theorem hexDigit_ne_newline : ∀ n < 16, '\n' ≠ hexDigit n := by decide

/-- Newlines are escaped. -/
theorem newline_not_mem_escapeChar (c : Char) : '\n' ∉ escapeChar c := by
  unfold escapeChar
  split
  next => decide
  split
  next => decide
  split
  next => decide
  split
  next => decide
  split
  next => decide
  split
  next => decide
  split
  next => decide
  split
  next control =>
    simp [hexDigit_ne_newline (c.toNat / 16) (by omega),
      hexDigit_ne_newline (c.toNat % 16) (by omega)]
  next other _ _ _ _ _ => simpa using Ne.symm (by simpa using other)

theorem newline_not_mem_quote (s : String) : '\n' ∉ (quote s).toList := by
  simp [quote, newline_not_mem_escapeChar]

theorem newline_not_mem_int (n : Int) : '\n' ∉ (toString n).toList := by
  intro inside
  have head : ∀ c ∈ (toString n).toList, c.isDigit = true ∨ c = '-' := by
    intro c member
    cases n with
    | ofNat n =>
      rw [toString_ofNat] at member
      exact Or.inl (isDigit_of_mem member)
    | negSucc n =>
      rw [toString_negSucc] at member
      exact (List.mem_cons.mp member).elim Or.inr fun member => Or.inl (isDigit_of_mem member)
  exact absurd (head '\n' inside) (by decide)

/-- Texts on one line each, with commas between them, are on one line. -/
theorem newline_not_mem_intercalate {texts : List String}
    (lines : ∀ text ∈ texts, '\n' ∉ text.toList) :
    '\n' ∉ (String.intercalate "," texts).toList := by
  induction texts with
  | nil => simp
  | cons text texts ih =>
    have here := lines text List.mem_cons_self
    have later := ih fun t member => lines t (List.mem_cons_of_mem _ member)
    by_cases last : texts = []
    · subst last
      rwa [String.intercalate_singleton]
    · rw [intercalate_cons last, List.mem_append, List.mem_cons]
      rintro (inside | comma | inside)
      · exact here inside
      · exact absurd comma (by decide)
      · exact later inside

mutual

/-- The compact layout of a plain value is a single line. -/
theorem newline_not_mem_compact : (v : Json) → v.isPlain = true → '\n' ∉ v.compact.toList
  | .null, _ => by simp [compact, scalar]
  | .bool b, _ => by cases b <;> simp [compact, scalar]
  | .int n, _ => by simpa [compact, scalar] using newline_not_mem_int n
  | .float _ _, plain => nomatch plain
  | .unreadable, plain => nomatch plain
  | .str s, _ => by simpa [compact, scalar] using newline_not_mem_quote s
  | .arr items, plain => by
    rw [compact_arr]
    simpa using newline_not_mem_intercalate (newline_not_mem_items items plain)
  | .obj members, plain => by
    rw [compact_obj]
    simpa using newline_not_mem_intercalate (newline_not_mem_members members plain)

/-- So are those of plain items. -/
theorem newline_not_mem_items : (items : List Json) → itemsPlain items = true →
    ∀ text ∈ compactItems items, '\n' ∉ text.toList
  | [], _ => nofun
  | v :: vs, plain => by
    obtain ⟨here, later⟩ := Bool.and_eq_true_iff.mp plain
    rw [compactItems, List.forall_mem_cons]
    exact ⟨newline_not_mem_compact v here, newline_not_mem_items vs later⟩

/-- So are those of members with plain values. -/
theorem newline_not_mem_members : (members : List (String × Json)) →
    membersPlain members = true → ∀ text ∈ compactMembers members, '\n' ∉ text.toList
  | [], _ => nofun
  | (k, v) :: ms, plain => by
    obtain ⟨here, later⟩ := Bool.and_eq_true_iff.mp plain
    rw [compactMembers, List.forall_mem_cons]
    refine ⟨?_, newline_not_mem_members ms later⟩
    simp [newline_not_mem_quote, newline_not_mem_compact v here]

end

end AutoDoc.Json
