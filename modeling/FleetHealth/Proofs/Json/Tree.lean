import FleetHealth.Json.Text
import FleetHealth.Proofs.Json.Number

/-!
The grammar of JSON documents.

A `Tree` is a value as any JSON document may have it. `Spelled t s` says that the text `s` is a
spelling of the value: with any blanks between its marks, any of the escapes that a character has,
and any of the signs that an exponent may do without. Nothing here refers to a reader.
-/

namespace FleetHealth.Json

/-- A value of a document. A text in which surrogates do not pair up has no characters, and a key may
be such a text. -/
inductive Tree
  | null
  | boolean (b : Bool)
  | number (l : Literal)
  | text (t : Option String)
  | list (elements : List Tree)
  | object (fields : List (Option String × Tree))

/-! ### Texts -/

/-- The characters that have an escape of one letter. -/
def short? : Char → Option Char
  | '"' => some '"'
  | '\\' => some '\\'
  | '/' => some '/'
  | 'b' => some '\x08'
  | 'f' => some '\x0c'
  | 'n' => some '\n'
  | 'r' => some '\r'
  | 't' => some '\t'
  | _ => none

/-- The code unit of four hexadecimal digits. -/
def unit? (a b c d : Char) : Option Nat :=
  match Reader.hexValue? a, Reader.hexValue? b, Reader.hexValue? c, Reader.hexValue? d with
  | some i, some j, some k, some l => some (((i * 16 + j) * 16 + k) * 16 + l)
  | _, _, _, _ => none

/-- The code unit is the first half of a surrogate pair. -/
def IsHigh (u : Nat) : Prop := 0xd800 ≤ u ∧ u ≤ 0xdbff

/-- The code unit is the second half of a surrogate pair. -/
def IsLow (u : Nat) : Prop := 0xdc00 ≤ u ∧ u ≤ 0xdfff

instance (u : Nat) : Decidable (IsHigh u) := inferInstanceAs (Decidable (_ ∧ _))

instance (u : Nat) : Decidable (IsLow u) := inferInstanceAs (Decidable (_ ∧ _))

/-- The character of a surrogate pair. -/
def paired (high low : Nat) : Char :=
  Char.ofNat (0x10000 + (high - 0xd800) * 0x400 + (low - 0xdc00))

/-- What stands between the quotes of a text, and the characters that it stands for: none if half of
a surrogate pair stands alone. -/
inductive Body : Option (List Char) → List Char → Prop
  | nil : Body (some []) []
  | plain {m : Option (List Char)} {s : List Char} {c : Char} (quote : c ≠ '"')
    (backslash : c ≠ '\\') (control : ¬ c < ' ') (more : Body m s) :
    Body (m.map (c :: ·)) (c :: s)
  | short {m : Option (List Char)} {s : List Char} {e c : Char} (known : short? e = some c)
    (more : Body m s) : Body (m.map (c :: ·)) ('\\' :: e :: s)
  | unit {m : Option (List Char)} {s : List Char} {a b c d : Char} {u : Nat}
    (digits : unit? a b c d = some u) (high : ¬ IsHigh u) (low : ¬ IsLow u) (more : Body m s) :
    Body (m.map (Char.ofNat u :: ·)) ('\\' :: 'u' :: a :: b :: c :: d :: s)
  | pair {m : Option (List Char)} {s : List Char} {a b c d a' b' c' d' : Char} {u v : Nat}
    (digits : unit? a b c d = some u) (high : IsHigh u) (digits' : unit? a' b' c' d' = some v)
    (low : IsLow v) (more : Body m s) :
    Body (m.map (paired u v :: ·))
      ('\\' :: 'u' :: a :: b :: c :: d :: '\\' :: 'u' :: a' :: b' :: c' :: d' :: s)
  | loneLow {m : Option (List Char)} {s : List Char} {a b c d : Char} {u : Nat}
    (digits : unit? a b c d = some u) (low : IsLow u) (more : Body m s) :
    Body none ('\\' :: 'u' :: a :: b :: c :: d :: s)
  | loneHigh {m : Option (List Char)} {s : List Char} {a b c d : Char} {u : Nat}
    (digits : unit? a b c d = some u) (high : IsHigh u)
    (alone : ∀ {s' a' b' c' d' v}, s = '\\' :: 'u' :: a' :: b' :: c' :: d' :: s' →
      unit? a' b' c' d' = some v → ¬ IsLow v)
    (more : Body m s) : Body none ('\\' :: 'u' :: a :: b :: c :: d :: s)

/-- The characters between the quotes are a spelling of the text. -/
def SpelledText (t : Option String) (s : List Char) : Prop :=
  ∃ m, Body m s ∧ m.map String.ofList = t

/-! ### Numbers -/

/-- Digits, at least one. -/
structure AreDigits (ds : List Char) : Prop where
  nonempty : ds ≠ []
  all : ∀ c ∈ ds, c.isDigit

instance (ds : List Char) : Decidable (AreDigits ds) :=
  decidable_of_iff (ds ≠ [] ∧ ds.all Char.isDigit = true)
    ⟨fun h => ⟨h.1, List.all_eq_true.1 h.2⟩, fun h => ⟨h.nonempty, List.all_eq_true.2 h.all⟩⟩

/-- The digits after the point, with the point if there are any. -/
inductive SpelledPlaces : List Char → List Char → Prop
  | none : SpelledPlaces [] []
  | point {ds : List Char} (digits : AreDigits ds) : SpelledPlaces ds ('.' :: ds)

/-- The signs of an exponent, and whether they make it negative. -/
inductive SpelledSign : Bool → List Char → Prop
  | without : SpelledSign false []
  | plus : SpelledSign false ['+']
  | minus : SpelledSign true ['-']

inductive SpelledExponent : Option Exponent → List Char → Prop
  | none : SpelledExponent none []
  | some {e : Char} {negative : Bool} {sign ds : List Char} (mark : e = 'e' ∨ e = 'E')
    (signed : SpelledSign negative sign) (digits : AreDigits ds) :
    SpelledExponent (some ⟨negative, ds⟩) (e :: (sign ++ ds))

/-- The sign of a number. -/
def signOf (negative : Bool) : List Char := if negative then ['-'] else []

/-- A number has a zero in front only if it stands alone. -/
inductive SpelledNumber : Literal → List Char → Prop
  | mk {negative : Bool} {whole places point : List Char} {exponent : Option Exponent}
    {power : List Char} (digits : AreDigits whole) (zero : '0' ∈ whole.head? → whole = ['0'])
    (fraction : SpelledPlaces places point) (scale : SpelledExponent exponent power) :
    SpelledNumber ⟨negative, whole, places, exponent⟩
      (signOf negative ++ (whole ++ (point ++ power)))

/-! ### Values -/

mutual

/-- The text is a spelling of the value. -/
inductive Spelled : Tree → List Char → Prop
  | null : Spelled .null ['n', 'u', 'l', 'l']
  | yes : Spelled (.boolean true) ['t', 'r', 'u', 'e']
  | no : Spelled (.boolean false) ['f', 'a', 'l', 's', 'e']
  | number {l : Literal} {s : List Char} (number : SpelledNumber l s) : Spelled (.number l) s
  | text {t : Option String} {s : List Char} (text : SpelledText t s) :
    Spelled (.text t) ('"' :: (s ++ ['"']))
  | list {ts : List Tree} {s w : List Char} (elements : SpelledElements true ts s)
    (blank : Blank w) : Spelled (.list ts) ('[' :: (s ++ (w ++ [']'])))
  | object {fs : List (Option String × Tree)} {s w : List Char} (fields : SpelledFields true fs s)
    (blank : Blank w) : Spelled (.object fs) ('{' :: (s ++ (w ++ ['}'])))

/-- The text is a spelling of these elements, each after a comma but the first of a list. -/
inductive SpelledElements : Bool → List Tree → List Char → Prop
  | nil {first : Bool} : SpelledElements first [] []
  | cons {first : Bool} {t : Tree} {ts : List Tree} {w s more : List Char} (lead : Lead first w)
    (element : Spelled t s) (others : SpelledElements false ts more) :
    SpelledElements first (t :: ts) (w ++ (s ++ more))

/-- The text is a spelling of these fields, each after a comma but the first of an object. -/
inductive SpelledFields : Bool → List (Option String × Tree) → List Char → Prop
  | nil {first : Bool} : SpelledFields first [] []
  | cons {first : Bool} {k : Option String} {t : Tree} {fs : List (Option String × Tree)}
    {w key before after s more : List Char} (lead : Lead first w) (name : SpelledText k key)
    (blank : Blank before) (blank' : Blank after) (value : Spelled t s)
    (others : SpelledFields false fs more) :
    SpelledFields first ((k, t) :: fs)
      (w ++ ('"' :: (key ++ '"' :: (before ++ ':' :: (after ++ (s ++ more))))))

end

/-- The text is a document of the value, with blanks around it. -/
def Tree.Document (t : Tree) (s : String) : Prop :=
  ∃ before text after, s.toList = before ++ (text ++ after) ∧ Blank before ∧ Spelled t text ∧
    Blank after

/-! ### Where a value begins and ends -/

/-- The characters that a value may begin with. -/
def Tree.Opens : Tree → Char → Prop
  | null, c => c = 'n'
  | boolean b, c => c = if b then 't' else 'f'
  | number _, c => c = '-' ∨ c.isDigit
  | text _, c => c = '"'
  | list _, c => c = '['
  | object _, c => c = '{'

theorem Tree.Opens.not_blank {t : Tree} {c : Char} (h : t.Opens c) : isBlank c = false := by
  cases t with
  | number l =>
    rcases h with rfl | digit
    · rfl
    · exact isBlank_of_isDigit digit
  | boolean b =>
    obtain rfl : c = if b then 't' else 'f' := h
    cases b <;> rfl
  | null | text | list | object =>
    cases h
    rfl

theorem Tree.Opens.ne_close {t : Tree} {c : Char} (h : t.Opens c) (b : Bracket) :
    c ≠ b.close := by
  cases t with
  | number l =>
    rcases h with rfl | digit
    · cases b <;> decide
    · rintro rfl
      cases b <;> cases digit
  | boolean v =>
    obtain rfl : c = if v then 't' else 'f' := h
    cases b <;> cases v <;> decide
  | null | text | list | object =>
    cases h
    cases b <;> decide

theorem Tree.Opens.ne_comma {t : Tree} {c : Char} (h : t.Opens c) : c ≠ ',' := by
  cases t with
  | number l =>
    rintro rfl
    rcases h with minus | digit
    · cases minus
    · cases digit
  | boolean v =>
    obtain rfl : c = if v then 't' else 'f' := h
    cases v <;> decide
  | null | text | list | object =>
    cases h
    decide

/-- A number begins with a sign or with a digit. -/
theorem Tree.Opens.ne_of_number {l : Literal} {c d : Char} (h : (number l).Opens c) (sign : d ≠ '-')
    (digit : d.isDigit = false) : c ≠ d := by
  rintro rfl
  rcases h with rfl | first
  · exact sign rfl
  · rw [digit] at first
    cases first

theorem SpelledNumber.opens {l : Literal} {s : List Char} (h : SpelledNumber l s) :
    ∃ c r, s = c :: r ∧ (c = '-' ∨ c.isDigit) := by
  cases h with
  | @mk negative whole places point exponent power digits zero fraction scale =>
    cases negative with
    | true => exact ⟨'-', _, rfl, .inl rfl⟩
    | false =>
      obtain ⟨c, cs, rfl⟩ := List.exists_cons_of_ne_nil digits.nonempty
      exact ⟨c, _, rfl, .inr (digits.all c List.mem_cons_self)⟩

theorem Spelled.opens {t : Tree} {s : List Char} (h : Spelled t s) :
    ∃ c r, s = c :: r ∧ t.Opens c := by
  cases h with
  | number number => exact number.opens
  | null | yes | no | text | list | object => exact ⟨_, _, rfl, rfl⟩

/-- What follows an element does not go on with a number, nor does what follows a field. -/
theorem SpelledElements.settled {ts : List Tree} {s r : List Char} (h : SpelledElements false ts s)
    (settled : Settled r) : Settled (s ++ r) := by
  cases h with
  | nil => exact settled
  | cons lead element others =>
    rw [List.append_assoc]
    exact lead.settled _

theorem SpelledFields.settled {fs : List (Option String × Tree)} {s r : List Char}
    (h : SpelledFields false fs s) (settled : Settled r) : Settled (s ++ r) := by
  cases h with
  | nil => exact settled
  | cons lead name blank blank' value others =>
    rw [List.append_assoc]
    exact lead.settled _

end FleetHealth.Json
