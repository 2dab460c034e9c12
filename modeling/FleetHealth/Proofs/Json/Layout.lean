import FleetHealth.Json.Value
import FleetHealth.Proofs.Json.Number

/-!
The layouts of a value.

`Laid v s` says that the text `s` is the value `v`, with any blanks between its marks. Both layouts
that are written are of this kind (`laid_compact`, `laid_pretty`), so what is proved of all texts
with `Laid` holds of both.
-/

namespace FleetHealth.Json

open FleetHealth.Text

mutual

/-- The text is the value, with blanks between its marks. -/
inductive Laid : Value → List Char → Prop
  | null : Laid .null ['n', 'u', 'l', 'l']
  | natural (n : Nat) : Laid (.natural n) (Decimal.digits n)
  | text (t : String) : Laid (.text t) (Value.writeText t)
  | list {vs : List Value} {s w : List Char} (elements : LaidElements true vs s) (blank : Blank w) :
    Laid (.list vs) ('[' :: (s ++ (w ++ [']'])))
  | object {fs : List (String × Value)} {s w : List Char} (fields : LaidFields true fs s)
    (blank : Blank w) : Laid (.object fs) ('{' :: (s ++ (w ++ ['}'])))

/-- The text is these elements, each after a comma but the first of a list. -/
inductive LaidElements : Bool → List Value → List Char → Prop
  | nil {first : Bool} : LaidElements first [] []
  | cons {first : Bool} {v : Value} {vs : List Value} {w s t : List Char} (lead : Lead first w)
    (element : Laid v s) (more : LaidElements false vs t) :
    LaidElements first (v :: vs) (w ++ (s ++ t))

/-- The text is these fields, each after a comma but the first of an object. -/
inductive LaidFields : Bool → List (String × Value) → List Char → Prop
  | nil {first : Bool} : LaidFields first [] []
  | cons {first : Bool} {k : String} {v : Value} {fs : List (String × Value)}
    {w before after s t : List Char} (lead : Lead first w) (blank : Blank before)
    (blank' : Blank after) (value : Laid v s) (more : LaidFields false fs t) :
    LaidFields first ((k, v) :: fs)
      (w ++ (Value.writeText k ++ (before ++ ':' :: (after ++ (s ++ t)))))

end

/-! ### The written layouts -/

namespace Value

theorem lead_comma : Lead false [','] := Lead.next Blank.nil Blank.nil

mutual

theorem laid_compact (v : Value) : Laid v v.compact := by
  cases v with
  | null => exact .null
  | natural n => exact .natural n
  | text s => exact .text s
  | list vs =>
    cases vs with
    | nil => exact .list (w := []) .nil .nil
    | cons v vs =>
      have elements := LaidElements.cons (w := []) (.first .nil) (laid_compact v)
        (laid_compactElements vs)
      simpa [compact] using Laid.list (w := []) elements .nil
  | object fs =>
    cases fs with
    | nil => exact .object (w := []) .nil .nil
    | cons f fs =>
      obtain ⟨k, v⟩ := f
      have fields := LaidFields.cons (w := []) (k := k) (.first .nil)
        .nil .nil (laid_compact v) (laid_compactFields fs)
      simpa [compact] using Laid.object (w := []) fields .nil

theorem laid_compactElements (vs : List Value) :
    LaidElements false vs (compactElements vs) := by
  cases vs with
  | nil => exact .nil
  | cons v vs =>
    exact .cons lead_comma (laid_compact v) (laid_compactElements vs)

theorem laid_compactFields (fs : List (String × Value)) :
    LaidFields false fs (compactFields fs) := by
  cases fs with
  | nil => exact .nil
  | cons f fs =>
    obtain ⟨k, v⟩ := f
    have fields := LaidFields.cons (k := k) lead_comma
      .nil .nil (laid_compact v) (laid_compactFields fs)
    simpa [compactFields] using fields

end

theorem blank_newLine (depth : Nat) : Blank (newLine depth) := by
  intro c hc
  rcases List.mem_cons.1 hc with rfl | hc
  · rfl
  · obtain rfl := List.eq_of_mem_replicate hc
    rfl

theorem lead_newLine (depth : Nat) : Lead false (',' :: newLine depth) :=
  .next (w := []) .nil (blank_newLine depth)

theorem blank_space : Blank [' '] := by
  intro c hc
  obtain rfl := List.mem_singleton.1 hc
  rfl

mutual

theorem laid_pretty (depth : Nat) (v : Value) : Laid v (v.pretty depth) := by
  cases v with
  | null => exact .null
  | natural n => exact .natural n
  | text s => exact .text s
  | list vs =>
    cases vs with
    | nil => exact .list (w := []) .nil .nil
    | cons v vs =>
      have elements := LaidElements.cons (.first (blank_newLine (depth + 1)))
        (laid_pretty (depth + 1) v) (laid_prettyElements (depth + 1) vs)
      simpa [pretty] using Laid.list elements (blank_newLine depth)
  | object fs =>
    cases fs with
    | nil => exact .object (w := []) .nil .nil
    | cons f fs =>
      obtain ⟨k, v⟩ := f
      have fields := LaidFields.cons (k := k) (.first (blank_newLine (depth + 1)))
        .nil blank_space (laid_pretty (depth + 1) v) (laid_prettyFields (depth + 1) fs)
      simpa [pretty] using Laid.object fields (blank_newLine depth)

theorem laid_prettyElements (depth : Nat) (vs : List Value) :
    LaidElements false vs (prettyElements depth vs) := by
  cases vs with
  | nil => exact .nil
  | cons v vs =>
    have elements := LaidElements.cons (lead_newLine depth) (laid_pretty depth v)
      (laid_prettyElements depth vs)
    simpa [prettyElements] using elements

theorem laid_prettyFields (depth : Nat) (fs : List (String × Value)) :
    LaidFields false fs (prettyFields depth fs) := by
  cases fs with
  | nil => exact .nil
  | cons f fs =>
    obtain ⟨k, v⟩ := f
    have fields := LaidFields.cons (k := k) (lead_newLine depth)
      .nil blank_space (laid_pretty depth v) (laid_prettyFields depth fs)
    simpa [prettyFields] using fields

end

/-- Whatever the layout, what is written lays out the value. -/
theorem laid_write (layout : Layout) (v : Value) : Laid v (v.write layout).toList := by
  cases layout with
  | compact => simpa [write] using laid_compact v
  | pretty => simpa [write] using laid_pretty 0 v

end Value

/-! ### Where a value begins and ends -/

/-- What the first character of a value tells: it is no blank, closes no bracket, and is an `n` only
if the value is null. -/
structure Value.Opens (v : Value) (c : Char) : Prop where
  blank : isBlank c = false
  close : ∀ b : Bracket, c ≠ b.close
  null : c = 'n' → v = .null

theorem Laid.opens {v : Value} {s : List Char} (h : Laid v s) :
    ∃ c t, s = c :: t ∧ v.Opens c := by
  cases h with
  | null => exact ⟨'n', _, rfl, rfl, fun b => by cases b <;> decide, fun _ => rfl⟩
  | natural n =>
    obtain ⟨c, cs, digits⟩ := List.exists_cons_of_ne_nil (Decimal.digits_ne_nil n)
    have digit : c.isDigit := Decimal.isDigit_of_mem_digits (digits ▸ List.mem_cons_self)
    refine ⟨c, cs, digits, isBlank_of_isDigit digit, ?_, ?_⟩
    · rintro (_ | _) rfl
      · cases digit
      · cases digit
    · rintro rfl
      cases digit
  | text t => exact ⟨'"', _, rfl, rfl, fun b => by cases b <;> decide, fun h => by cases h⟩
  | list => exact ⟨'[', _, rfl, rfl, fun b => by cases b <;> decide, fun h => by cases h⟩
  | object => exact ⟨'{', _, rfl, rfl, fun b => by cases b <;> decide, fun h => by cases h⟩

/-- What follows an element does not go on with a number, nor does what follows a field. -/
theorem LaidElements.settled {vs : List Value} {s r : List Char} (h : LaidElements false vs s)
    (settled : Settled r) : Settled (s ++ r) := by
  cases h with
  | nil => exact settled
  | cons lead element more =>
    rw [List.append_assoc]
    exact lead.settled _

theorem LaidFields.settled {fs : List (String × Value)} {s r : List Char}
    (h : LaidFields false fs s) (settled : Settled r) : Settled (s ++ r) := by
  cases h with
  | nil => exact settled
  | cons lead blank blank' value more =>
    rw [List.append_assoc]
    exact lead.settled _

end FleetHealth.Json
