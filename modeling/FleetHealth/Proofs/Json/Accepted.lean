import FleetHealth.Json.Record
import FleetHealth.Proofs.Json.Consumed
import FleetHealth.Proofs.Json.Exact

/-!
Texts that are accepted are documents.

`Reader.OfJson x` says that whatever the reader takes is a spelling of some value. There is one
lemma for each kind of reader that a fleet file needs. A value that is left out is built by no one;
that it is one is seen from the brackets that the walk over it has yet to close (`walk_closes`). So a
text that a codec accepts is the document of a tree (`Codec.exists_document`).
-/

namespace FleetHealth.Json

open FleetHealth.Text

theorem Blank.append {w w' : List Char} (h : Blank w) (h' : Blank w') : Blank (w ++ w') :=
  List.forall_mem_append.2 ⟨h, h'⟩

theorem Lead.append {first : Bool} {w w' : List Char} (h : Lead first w) (h' : Blank w') :
    Lead first (w ++ w') := by
  cases h with
  | first blank => exact .first (blank.append h')
  | next before after =>
    rw [List.append_assoc, List.cons_append]
    exact .next before (after.append h')

/-! ### What stands in brackets -/

namespace Bracket

/-- One of the parts that stand between commas: a value, or a key and a value. -/
inductive Part : Bracket → List Char → Prop
  | element {t : Tree} {s : List Char} (value : Spelled t s) : Part .list s
  | field {k : Option String} {t : Tree} {key before after s : List Char}
    (name : SpelledText k key) (blank : Blank before) (blank' : Blank after)
    (value : Spelled t s) :
    Part .object ('"' :: (key ++ '"' :: (before ++ ':' :: (after ++ s))))

/-- Any number of parts, each after a comma but the first. -/
inductive Parts : Bracket → Bool → List Char → Prop
  | elements {first : Bool} {ts : List Tree} {s : List Char}
    (elements : SpelledElements first ts s) : Parts .list first s
  | fields {first : Bool} {kvs : List (Option String × Tree)} {s : List Char}
    (fields : SpelledFields first kvs s) : Parts .object first s

variable {b : Bracket} {first : Bool} {w s t r : List Char}

theorem Parts.nil : Parts b first [] := by
  cases b with
  | list => exact .elements .nil
  | object => exact .fields .nil

theorem Parts.cons (lead : Lead first w) (part : b.Part s) (others : b.Parts false t) :
    b.Parts first (w ++ (s ++ t)) := by
  cases part with
  | element value =>
    cases others with
    | elements others => exact .elements (.cons lead value others)
  | field name blank blank' value =>
    cases others with
    | fields others =>
      simp only [List.cons_append, List.append_assoc]
      exact .fields (.cons lead name blank blank' value others)

/-- After blanks and one part the text goes on with `r`. -/
def Before (b : Bracket) (s r : List Char) : Prop :=
  ∃ w p, s = w ++ (p ++ r) ∧ Blank w ∧ b.Part p

/-- After further parts and the closing bracket the text goes on with `r`. -/
def Ends (b : Bracket) (first : Bool) (s r : List Char) : Prop :=
  ∃ p w, s = p ++ (w ++ b.close :: r) ∧ b.Parts first p ∧ Blank w

theorem Ends.close (blank : Blank w) : b.Ends first (w ++ b.close :: r) r :=
  ⟨[], w, rfl, .nil, blank⟩

theorem Ends.part (lead : Lead first w) (part : b.Before s t) (more : b.Ends false t r) :
    b.Ends first (w ++ s) r := by
  obtain ⟨w', p, rfl, blank, part⟩ := part
  obtain ⟨q, w'', rfl, parts, blank'⟩ := more
  exact ⟨(w ++ w') ++ (p ++ q), w'', by simp, .cons (lead.append blank) part parts, blank'⟩

/-- Nothing is left before a closing bracket that stands right here. -/
theorem Ends.eq_of_close (h : Ends .list false (']' :: s) r) : s = r := by
  obtain ⟨p, w, same, parts, blank⟩ := h
  have here {w t : List Char} {c : Char} (blank : Blank w) (other : isBlank c = false)
      (same : ']' :: s = w ++ c :: t) : c = ']' ∧ t = s := by
    cases w with
    | nil =>
      cases same
      exact ⟨rfl, rfl⟩
    | cons d w =>
      cases same
      cases blank ']' List.mem_cons_self
  cases parts with
  | elements elements =>
    cases elements with
    | nil => exact (here blank rfl same).2.symm
    | cons lead element others =>
      cases lead with
      | next before after =>
        simp only [List.append_assoc, List.cons_append] at same
        cases (here before rfl same).1

theorem before_of_spelled {v : Tree} (h : Spelled v s) : Bracket.list.Before (s ++ r) r :=
  ⟨[], s, rfl, .nil, .element h⟩

theorem before_of_text {v : Option String} (h : SpelledText v s) :
    Bracket.list.Before ('"' :: (s ++ '"' :: r)) r := by
  have before := before_of_spelled (r := r) (.text h)
  rw [List.cons_append, List.append_assoc] at before
  exact before

theorem Before.blank (h : b.Before s r) (blank : Blank w) : b.Before (w ++ s) r := by
  obtain ⟨w', p, rfl, blank', part⟩ := h
  exact ⟨w ++ w', p, by simp, blank.append blank', part⟩

theorem Ends.list (h : Ends .list true s r) : Bracket.list.Before ('[' :: s) r := by
  obtain ⟨p, w, rfl, parts, blank⟩ := h
  cases parts with
  | elements elements =>
    have list := before_of_spelled (r := r) (.list elements blank)
    simp only [List.cons_append, List.append_assoc, List.nil_append] at list
    exact list

theorem Ends.object (h : Ends .object true s r) : Bracket.list.Before ('{' :: s) r := by
  obtain ⟨p, w, rfl, parts, blank⟩ := h
  cases parts with
  | fields fields =>
    have object := before_of_spelled (r := r) (.object fields blank)
    simp only [List.cons_append, List.append_assoc, List.nil_append] at object
    exact object

/-- A key, a colon and a value are a field. -/
theorem Before.field {k : Option String} {key before : List Char} (name : SpelledText k key)
    (blank : Blank before) (value : Bracket.list.Before s r) :
    Bracket.object.Before ('"' :: (key ++ '"' :: (before ++ ':' :: s))) r := by
  obtain ⟨after, p, rfl, blank', part⟩ := value
  cases part with
  | element value => exact ⟨[], _, by simp, .nil, .field name blank blank' value⟩

end Bracket

namespace Reader

variable {α : Type} {s r : List Char}

/-! ### Values that are left out -/

/-- Once the brackets are closed, the innermost first, the text goes on with `r`. -/
def Closes : List Bracket → List Char → List Char → Prop
  | [], s, r => s = r
  | b :: outer, s, r => ∃ t, b.Ends false s t ∧ Closes outer t r

/-- Once what a place asks for has been taken and the brackets are closed, the text goes on
with `r`. -/
def Reaches : Place → List Bracket → List Char → List Char → Prop
  | .after, brackets, s, r => Closes brackets s r
  | .value, brackets, s, r => ∃ t, Bracket.list.Before s t ∧ Closes brackets t r
  | .key, brackets, s, r => ∃ t, Bracket.object.Before s t ∧ Closes brackets t r
  | .opened b, brackets, s, r => ∃ t, b.Ends true s t ∧ Closes brackets t r

theorem keyLeftOut_eq_ok {u : Unit} (h : keyLeftOut.run s = .ok (u, r)) :
    ∃ k key before, s = key ++ '"' :: (before ++ ':' :: r) ∧ SpelledText k key ∧ Blank before := by
  obtain ⟨_, t, taken, rest⟩ := bind_eq_ok h
  obtain ⟨k, key, rfl, name⟩ := looseText_eq_ok taken
  obtain ⟨before, rfl, blank⟩ := colon_eq_ok rest
  exact ⟨k, key, before, rfl, name, blank⟩

theorem leafLeftOut_eq_ok {c : Char} {u : Unit}
    (h : (leafLeftOut c).run (c :: s) = .ok (u, r)) : Bracket.list.Before (c :: s) r := by
  rw [leafLeftOut] at h
  split at h
  · next quote =>
    subst quote
    rw [Reader.run_bind_ok Reader.run_skip_cons] at h
    obtain ⟨k, p, rfl, text⟩ := looseText_eq_ok h
    exact Bracket.before_of_text text
  · split at h
    · obtain ⟨l, t, taken, ended⟩ := bind_eq_ok h
      obtain ⟨p, same, number⟩ := literal_eq_ok taken
      cases ended
      rw [same]
      exact Bracket.before_of_spelled (.number number)
    · split at h
      · rw [word_eq_ok h]
        exact Bracket.before_of_spelled .null
      · split at h
        · rw [word_eq_ok h]
          exact Bracket.before_of_spelled .yes
        · split at h
          · rw [word_eq_ok h]
            exact Bracket.before_of_spelled .no
          · cases h

theorem reaches_element {b : Bracket} {brackets : List Bracket} :
    Reaches b.element brackets s r ↔ ∃ t, b.Before s t ∧ Closes brackets t r := by
  cases b <;> rfl

/-- The walk over a value leaves no bracket open. -/
theorem walk_closes {place : Place} {brackets : List Bracket}
    (h : walk place brackets s = .ok r) : Reaches place brackets s r := by
  fun_induction walk place brackets s with
  | case1 s =>
    cases h
    rfl
  | case2 | case5 | case6 | case9 | case10 | case12 | case13 | case16 => cases h
  | case3 s b outer t next _ ih => -- a comma, then another part
    obtain ⟨w, rfl, blank⟩ := eq_append_of_dropWhile next
    obtain ⟨t', part, t'', more, closes⟩ := reaches_element.1 (ih h)
    have ends := Bracket.Ends.part (.next blank .nil) part more
    rw [List.append_assoc, List.cons_append, List.nil_append] at ends
    exact ⟨t'', ends, closes⟩
  | case4 s b outer t next _ _ ih => -- the closing bracket after a part
    obtain ⟨w, rfl, blank⟩ := eq_append_of_dropWhile next
    exact ⟨t, .close blank, ih h⟩
  | case7 s b outer t next _ ih => -- a bracket that is closed at once
    obtain ⟨w, rfl, blank⟩ := eq_append_of_dropWhile next
    exact ⟨t, .close blank, ih h⟩
  | case8 s b outer c t next _ _ _ ih => -- the first part of a bracket
    obtain ⟨w, rfl, blank⟩ := eq_append_of_dropWhile next
    obtain ⟨t', part, t'', more, closes⟩ := reaches_element.1 (ih h)
    exact ⟨t'', .part (.first blank) part more, closes⟩
  | case11 s brackets t t' taken _ next _ ih => -- a key, then its value
    obtain ⟨w, rfl, blank⟩ := eq_append_of_dropWhile next
    obtain ⟨k, key, before, rfl, name, blank'⟩ := keyLeftOut_eq_ok taken
    obtain ⟨t'', value, closes⟩ := ih h
    exact ⟨t'', (Bracket.Before.field name blank' value).blank blank, closes⟩
  | case14 s brackets t next _ ih => -- a list
    obtain ⟨w, rfl, blank⟩ := eq_append_of_dropWhile next
    obtain ⟨t', ends, closes⟩ := ih h
    exact ⟨t', ends.list.blank blank, closes⟩
  | case15 s brackets t next _ _ ih => -- an object
    obtain ⟨w, rfl, blank⟩ := eq_append_of_dropWhile next
    obtain ⟨t', ends, closes⟩ := ih h
    exact ⟨t', ends.object.blank blank, closes⟩
  | case17 s brackets c t next _ _ _ t' taken _ ih => -- a value that is no bracket
    obtain ⟨w, rfl, blank⟩ := eq_append_of_dropWhile next
    exact ⟨t', (leafLeftOut_eq_ok taken).blank blank, ih h⟩

/-! ### Values of each kind -/

/-- Whatever the reader takes is a value, with blanks before it. -/
def OfJson (x : Reader α) : Prop :=
  ∀ ⦃s a r⦄, x.run s = .ok (a, r) → Bracket.list.Before s r

theorem ofJson_leftOut : leftOut.OfJson := by
  intro s u r h
  obtain ⟨t, walked, same⟩ := map_eq_ok h
  cases same
  obtain ⟨t', before, rfl⟩ := walk_closes walked
  exact before

theorem not_wrongKind {wanted : Wanted} {a : α} :
    (wrongKind wanted).run s ≠ .ok (a, r) := by
  intro h
  have refused := wrongKind_refuses (α := α) wanted s
  rw [h] at refused
  cases refused

theorem ofJson_textAs (wanted : Wanted) : (textAs wanted).OfJson := by
  intro s k r h
  obtain ⟨o, t, found, rest⟩ := bind_eq_ok h
  split at rest
  · next quote =>
    subst quote
    obtain ⟨w, t, rfl, rfl, blank⟩ := token_eq_some found
    rw [Reader.run_bind_ok Reader.run_skip_cons] at rest
    obtain ⟨v, p, rfl, text⟩ := text_eq_ok rest
    exact (Bracket.before_of_text text).blank blank
  · exact absurd rest not_wrongKind

theorem ofJson_null (wanted : Wanted) : (null wanted).OfJson := by
  intro s u r h
  obtain ⟨o, t, found, rest⟩ := bind_eq_ok h
  split at rest
  · obtain ⟨w, rfl, blank, -⟩ := token_eq_ok found
    rw [word_eq_ok rest]
    exact (Bracket.before_of_spelled .null).blank blank
  · exact absurd rest not_wrongKind

/-- What was found out elsewhere takes nothing. -/
theorem ofExcept_eq_ok {x : Except Fault α} {a : α} (h : (Reader.ofExcept x).run s = .ok (a, r)) :
    r = s := by
  cases x with
  | error fault => cases h
  | ok a =>
    cases h
    rfl

theorem ofJson_choice (choose : String → Except Fault α) : (choice choose).OfJson := by
  intro s a r h
  obtain ⟨o, t, found, rest⟩ := bind_eq_ok h
  split at rest
  · cases rest
  · obtain ⟨w, t, rfl, rfl, blank⟩ := token_eq_some found
    rw [Reader.run_bind_ok Reader.run_skip_cons] at rest
    obtain ⟨k, t', taken, chosen⟩ := bind_eq_ok rest
    obtain ⟨v, p, rfl, text⟩ := text_eq_ok taken
    obtain rfl := ofExcept_eq_ok chosen
    exact (Bracket.before_of_text text).blank blank
  · obtain ⟨w, t, rfl, rfl, blank⟩ := token_eq_some found
    rw [Reader.run_bind_ok Reader.run_skip_cons] at rest
    obtain ⟨_ | name, t₁, found₁, rest₁⟩ := bind_eq_ok rest
    · cases rest₁
    · obtain ⟨k, w₁, key, rfl, lead, spelled⟩ := key?_eq_some found₁
      obtain ⟨b, t₂, chosen, rest₂⟩ := bind_eq_ok rest₁
      obtain rfl := ofExcept_eq_ok chosen
      obtain ⟨_, t₃, taken₃, rest₃⟩ := bind_eq_ok rest₂
      obtain ⟨before, rfl, blank₃⟩ := colon_eq_ok taken₃
      obtain ⟨_, t₄, taken₄, rest₄⟩ := bind_eq_ok rest₃
      have field := Bracket.Before.field spelled blank₃ (ofJson_null .nothing taken₄)
      obtain ⟨o, t₅, found₅, rest₅⟩ := bind_eq_ok rest₄
      split at rest₅
      · cases rest₅
      · obtain ⟨w₅, t, rfl, rfl, blank₅⟩ := token_eq_some found₅
        rw [Reader.run_bind_ok Reader.run_skip_cons] at rest₅
        cases rest₅
        have ends := Bracket.Ends.part lead field (.close (b := .object) blank₅)
        exact ends.object.blank blank
      · cases rest₅
  · cases rest

/-! ### Lists -/

theorem elements_ends {x : Reader α} (ofJson : x.OfJson) {done as : List α}
    (h : elements x done s = .ok (as, r)) : ∃ t, r = ']' :: t ∧ Bracket.list.Ends false s t := by
  fun_induction elements x done s with
  | case1 => cases h
  | case2 done s t ended =>
    cases h
    obtain ⟨w, t', rfl, rfl, blank⟩ := more?_eq_false ended
    exact ⟨t', rfl, .close blank⟩
  | case3 => cases h
  | case4 done s t another a t' taken _ _ ih =>
    obtain ⟨w, rfl, lead⟩ := more?_eq_true another
    obtain ⟨t'', rfl, ends⟩ := ih h
    exact ⟨t'', rfl, .part lead (ofJson taken) ends⟩

theorem ofJson_list {x : Reader α} (ofJson : x.OfJson) : (list x).OfJson := by
  intro s as r h
  obtain ⟨o, t, found, rest⟩ := bind_eq_ok h
  split at rest
  · next bracket =>
    subst bracket
    obtain ⟨w, t, rfl, rfl, blank⟩ := token_eq_some found
    rw [Reader.run_bind_ok Reader.run_skip_cons] at rest
    obtain ⟨more, t₁, found₁, rest₁⟩ := bind_eq_ok rest
    cases more with
    | false =>
      obtain ⟨w₁, t₂, rfl, rfl, blank₁⟩ := more?_eq_false found₁
      obtain ⟨as, t₃, nothing, rest₂⟩ := bind_eq_ok rest₁
      cases nothing
      obtain ⟨_, t₄, ended, same⟩ := bind_eq_ok rest₂
      cases (run_listEnd .nil).symm.trans ended
      cases same
      exact (Bracket.Ends.close (b := .list) blank₁).list.blank blank
    | true =>
      obtain ⟨w₁, rfl, lead⟩ := more?_eq_true found₁
      obtain ⟨a, t₂, taken, rest₂⟩ := bind_eq_ok rest₁
      obtain ⟨as, t₃, others, rest₃⟩ := bind_eq_ok rest₂
      obtain ⟨t₄, rfl, ends⟩ := elements_ends ofJson others
      obtain ⟨_, t₅, ended, same⟩ := bind_eq_ok rest₃
      cases (run_listEnd .nil).symm.trans ended
      cases same
      exact (Bracket.Ends.part lead (ofJson taken) ends).list.blank blank
  · exact absurd rest not_wrongKind

end Reader

/-! ### Records -/

/-- The values of all fields are values of a document. -/
def Fields.OfJson {αs : List Type} : Fields αs → Prop
  | nil => True
  | cons f more => f.codec.read.OfJson ∧ more.OfJson

namespace Reader

variable {αs : List Type} {fs : Fields αs} {slots slots' : Slots αs} {s r : List Char}

/-- A colon and a value stand after a key, whether a field has the key or not. -/
theorem assign_eq_ok {k : String} (ofJson : fs.OfJson)
    (h : (fs.assign k slots).run s = .ok (slots', r)) :
    ∃ before t, s = before ++ ':' :: t ∧ Blank before ∧ Bracket.list.Before t r := by
  induction fs with
  | nil =>
    obtain ⟨_, t, taken, rest⟩ := bind_eq_ok h
    obtain ⟨before, rfl, blank⟩ := colon_eq_ok taken
    exact ⟨before, t, rfl, blank, ofJson_leftOut rest⟩
  | cons f more ih =>
    obtain ⟨found, slots⟩ := slots
    obtain ⟨here, others⟩ := ofJson
    by_cases same : k = f.key
    · subst same
      cases found with
      | some a =>
        rw [Fields.assign, if_pos rfl] at h
        cases h
      | none =>
        rw [Fields.assign_same] at h
        obtain ⟨_, t, taken, rest⟩ := bind_eq_ok h
        obtain ⟨before, rfl, blank⟩ := colon_eq_ok taken
        obtain ⟨a, t', value, ended⟩ := bind_eq_ok rest
        cases ended
        exact ⟨before, t, rfl, blank, here value⟩
    · rw [Fields.assign_other more same] at h
      obtain ⟨slots, t, taken, ended⟩ := bind_eq_ok h
      cases ended
      exact ih others taken

theorem keyed_ends {first : Bool} (ofJson : fs.OfJson)
    (h : keyed fs first slots s = .ok (slots', r)) :
    ∃ t, r = '}' :: t ∧ Bracket.object.Ends first s t := by
  fun_induction keyed fs first slots s with
  | case1 => cases h
  | case2 first slots s t ended =>
    cases h
    obtain ⟨w, t', rfl, rfl, blank⟩ := key?_eq_none ended
    exact ⟨t', rfl, .close (b := .object) blank⟩
  | case3 => cases h
  | case4 first slots s k t found slots₁ t' assigned _ _ ih =>
    obtain ⟨v, w, key, rfl, lead, name⟩ := key?_eq_some found
    obtain ⟨before, t₁, rfl, blank, value⟩ := assign_eq_ok ofJson assigned
    obtain ⟨t₂, rfl, ends⟩ := ih h
    exact ⟨t₂, rfl, .part lead (.field name blank value) ends⟩

/-- What the fields leave of a list is its end. -/
theorem positional_ends {name : String} {total index : Nat} {vs : Values αs} {t : List Char}
    {u : Unit} (ofJson : fs.OfJson) (h : (fs.positional name total index).run s = .ok (vs, t))
    (ended : listEnd.run t = .ok (u, r)) : Bracket.list.Ends (index == 0) s r := by
  induction fs generalizing index s with
  | nil =>
    cases h
    obtain ⟨w, rfl, blank⟩ := listEnd_eq_ok ended
    exact .close blank
  | cons f more ih =>
    obtain ⟨here, others⟩ := ofJson
    obtain ⟨another, t₁, found, rest⟩ := bind_eq_ok h
    cases another with
    | true =>
      obtain ⟨w, rfl, lead⟩ := more?_eq_true found
      obtain ⟨a, t₂, taken, rest'⟩ := bind_eq_ok rest
      obtain ⟨vs, t₃, taken', same⟩ := bind_eq_ok rest'
      cases same
      exact .part lead (here taken) (ih others taken')
    | false =>
      obtain ⟨w, t₂, rfl, rfl, blank⟩ := more?_eq_false found
      rw [if_neg Bool.false_ne_true] at rest
      split at rest
      · obtain ⟨vs, t₃, taken, same⟩ := bind_eq_ok rest
        cases same
        have here : Bracket.list.Ends false (']' :: t₂) r := ih others taken
        rw [here.eq_of_close]
        exact .close blank
      · cases rest

theorem ofJson_record (name : String) (ofJson : fs.OfJson) : (record name fs).OfJson := by
  intro s vs r h
  obtain ⟨o, t, found, rest⟩ := bind_eq_ok h
  split at rest
  · obtain ⟨w, t, rfl, rfl, blank⟩ := token_eq_some found
    rw [Reader.run_bind_ok Reader.run_skip_cons] at rest
    obtain ⟨vs, t₁, taken, rest₁⟩ := bind_eq_ok rest
    obtain ⟨_, t₂, ended, same⟩ := bind_eq_ok rest₁
    cases same
    have ends := positional_ends ofJson taken ended
    exact ends.list.blank blank
  · obtain ⟨w, t, rfl, rfl, blank⟩ := token_eq_some found
    rw [Reader.run_bind_ok Reader.run_skip_cons] at rest
    obtain ⟨slots, t₁, taken, rest₁⟩ := bind_eq_ok rest
    obtain ⟨t₂, rfl, ends⟩ := keyed_ends ofJson taken
    obtain ⟨vs, t₃, completed, rest₂⟩ := bind_eq_ok rest₁
    obtain rfl := ofExcept_eq_ok completed
    rw [Reader.run_bind_ok Reader.run_skip_cons] at rest₂
    cases rest₂
    exact ends.object.blank blank
  · exact absurd rest not_wrongKind

end Reader

/-! ### Documents -/

namespace Codec

variable {α : Type} {c : Codec α}

/-- A record of values of documents is one. -/
theorem ofJson_record {αs : List Type} {name : String} {fs : Fields αs} {split : α → Values αs}
    {build : Values αs → α} (ofJson : fs.OfJson) : (record name fs split build).read.OfJson := by
  intro s a r h
  obtain ⟨vs, t, taken, same⟩ := Reader.bind_eq_ok h
  cases same
  exact Reader.ofJson_record name ofJson taken

/-- A text that is accepted is the document of some value. -/
theorem exists_document (ofJson : c.read.OfJson) {s : String} {a : α} (h : c.decode s = .ok a) :
    ∃ t : Tree, t.Document s := by
  rw [decode, Reader.document] at h
  split at h
  · cases h
  · next a' r taken =>
    split at h
    · next blank =>
      obtain ⟨w, p, same, blank', part⟩ := ofJson taken
      cases part with
      | element value => exact ⟨_, w, p, r, same, blank', value, List.all_eq_true.1 blank⟩
    · cases h

end Codec

end FleetHealth.Json
