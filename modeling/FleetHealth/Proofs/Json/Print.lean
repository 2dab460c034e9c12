import FleetHealth.Proofs.Json.Text
import FleetHealth.Proofs.Json.Tree

/-!
One spelling of each value.

`Tree.print` writes a value without blanks, and is a spelling of every value that has one
(`Spelled.print`).
-/

namespace FleetHealth.Json

/-- The characters between the quotes; a text without characters is half of a surrogate pair. -/
def printBody : Option String → List Char
  | none => ['\\', 'u', 'd', '8', '0', '0']
  | some t => t.toList.flatMap Value.escape

def Exponent.print (e : Exponent) : List Char :=
  'e' :: (signOf e.negative ++ e.digits)

def Literal.print (l : Literal) : List Char :=
  signOf l.negative ++ (l.whole ++
    ((if l.places = [] then [] else '.' :: l.places) ++ l.exponent.elim [] Exponent.print))

/-- The comma before an element that is not the first. -/
def lead (first : Bool) : List Char := if first then [] else [',']

mutual

/-- The spelling without blanks. -/
def Tree.print : Tree → List Char
  | .null => ['n', 'u', 'l', 'l']
  | .boolean b => if b then ['t', 'r', 'u', 'e'] else ['f', 'a', 'l', 's', 'e']
  | .number l => l.print
  | .text t => '"' :: (printBody t ++ ['"'])
  | .list ts => '[' :: (printElements true ts ++ [']'])
  | .object fs => '{' :: (printFields true fs ++ ['}'])

def printElements (first : Bool) : List Tree → List Char
  | [] => []
  | t :: ts => lead first ++ (t.print ++ printElements false ts)

def printFields (first : Bool) : List (Option String × Tree) → List Char
  | [] => []
  | (k, t) :: fs =>
    lead first ++ ('"' :: (printBody k ++ '"' :: ':' :: (t.print ++ printFields false fs)))

end

/-! ### Texts -/

theorem unit?_control {n : Nat} (h : n < 32) :
    unit? '0' '0' (Text.hexDigit (n / 16)) (Text.hexDigit (n % 16)) = some n := by
  have zero : Reader.hexValue? '0' = some 0 := rfl
  have high := Reader.hexValue?_hexDigit (n := n / 16) (by omega)
  have low := Reader.hexValue?_hexDigit (n := n % 16) (by omega)
  have sum : ((0 * 16 + 0) * 16 + n / 16) * 16 + n % 16 = n := by omega
  rw [unit?, zero, high, low]
  exact congrArg some sum

/-- The escape of a character is a spelling of it. -/
theorem Body.escape {cs s : List Char} (c : Char) (more : Body (some cs) s) :
    Body (some (c :: cs)) (Value.escape c ++ s) := by
  rw [Value.escape]
  iterate 7
    split
    · next h =>
      subst h
      exact .short rfl more
  split
  · next control =>
    have below : c.toNat < 32 := control
    have single := Body.unit (unit?_control below) (by simp only [IsHigh]; omega)
      (by simp only [IsLow]; omega) more
    rwa [Option.map_some, Char.ofNat_toNat] at single
  · next quote backslash _ _ _ _ _ control => exact .plain quote backslash control more

theorem body_flatMap_escape (cs : List Char) : Body (some cs) (cs.flatMap Value.escape) := by
  induction cs with
  | nil => exact .nil
  | cons c cs ih => exact ih.escape c

theorem spelledText_printBody (t : Option String) : SpelledText t (printBody t) := by
  cases t with
  | none =>
    refine ⟨none, .loneHigh (u := 0xd800) (by decide) ⟨by decide, by decide⟩ ?_ .nil, rfl⟩
    intro s' a b c d v same
    cases same
  | some t => exact ⟨_, body_flatMap_escape t.toList, congrArg some String.ofList_toList⟩

/-! ### Numbers -/

theorem SpelledNumber.print {l : Literal} {s : List Char} (h : SpelledNumber l s) :
    SpelledNumber l l.print := by
  cases h with
  | @mk negative whole places point exponent power digits zero fraction scale =>
    refine .mk digits zero ?_ ?_
    · cases fraction with
      | none => exact .none
      | point digits =>
        rw [if_neg digits.nonempty]
        exact .point digits
    · cases scale with
      | none => exact .none
      | @some e negative sign ds mark signed digits =>
        refine .some (.inl rfl) ?_ digits
        cases signed with
        | without | plus => exact .without
        | minus => exact .minus

/-! ### Values -/

theorem lead_lead (first : Bool) : Lead first (lead first) := by
  cases first with
  | true => exact .first .nil
  | false => exact .next .nil .nil

mutual

theorem Spelled.print {t : Tree} {s : List Char} (h : Spelled t s) : Spelled t t.print := by
  cases h with
  | null => exact .null
  | yes => exact .yes
  | no => exact .no
  | number number => exact .number number.print
  | text text => exact .text (spelledText_printBody _)
  | list elements blank => exact .list (w := []) elements.print .nil
  | object fields blank => exact .object (w := []) fields.print .nil

theorem SpelledElements.print {first : Bool} {ts : List Tree} {s : List Char}
    (h : SpelledElements first ts s) : SpelledElements first ts (printElements first ts) := by
  cases h with
  | nil => exact .nil
  | cons _ element others => exact .cons (lead_lead first) element.print others.print

theorem SpelledFields.print {first : Bool} {fs : List (Option String × Tree)} {s : List Char}
    (h : SpelledFields first fs s) : SpelledFields first fs (printFields first fs) := by
  cases h with
  | nil => exact .nil
  | cons _ name _ _ value others =>
    exact @SpelledFields.cons _ _ _ _ _ _ [] [] _ _ (lead_lead first) (spelledText_printBody _)
      .nil .nil value.print others.print

end

/-- What is printed is a document of the value. -/
theorem Spelled.document {t : Tree} {s : List Char} (h : Spelled t s) :
    t.Document (String.ofList t.print) :=
  ⟨[], t.print, [], by simp, .nil, h.print, .nil⟩

end FleetHealth.Json
