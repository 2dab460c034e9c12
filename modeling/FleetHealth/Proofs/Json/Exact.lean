import FleetHealth.Json.Codec
import FleetHealth.Proofs.Json.Print
import FleetHealth.Proofs.Json.Record
import FleetHealth.Proofs.Json.Tokens

/-!
Readers that go by the value alone.

`Reader.Means x f` says that the reader takes each value `t` for `f t`, or refuses it if that is none,
however the value is spelled. There is one lemma for each kind of reader. A codec that is exact
(`Codec.Exact`) takes a value for what it takes the document of that value for (`Codec.takes?`).
-/

namespace FleetHealth.Json

open FleetHealth.Text FleetHealth.Decimal

namespace Reader

variable {α β : Type} {x : Reader α} {f : Tree → Option α}

/-- The reader takes each value for what it means, however it is spelled. -/
def Means (x : Reader α) (f : Tree → Option α) : Prop :=
  ∀ ⦃t : Tree⦄ ⦃w s r : List Char⦄, Blank w → Spelled t s → Settled r →
    (x.run (w ++ (s ++ r))).toOption = (f t).map (·, r)

theorem toOption_bind (x : Reader α) (g : α → Reader β) (s : List Char) :
    ((x >>= g).run s).toOption =
      (x.run s).toOption.bind fun p => ((g p.1).run p.2).toOption := by
  rw [Reader.run_bind]
  cases x.run s <;> rfl

@[simp] theorem toOption_ok (a : α) : (Except.ok a : Except Fault α).toOption = some a := rfl

@[simp] theorem toOption_error (fault : Fault) :
    (Except.error fault : Except Fault α).toOption = none := rfl

theorem toOption_eq_some {x : Except Fault α} {a : α} : x.toOption = some a ↔ x = .ok a := by
  cases x <;> simp

theorem toOption_ofExcept (a : Except Fault α) (s : List Char) :
    ((Reader.ofExcept a).run s).toOption = a.toOption.map (·, s) := by
  cases a <;> rfl

/-! ### Single values -/

theorem run_token_spelled {t : Tree} {w s r : List Char} (blank : Blank w) (h : Spelled t s) :
    ∃ c, t.Opens c ∧ token.run (w ++ (s ++ r)) = .ok (some c, s ++ r) := by
  obtain ⟨c, s, rfl, opens⟩ := h.opens
  exact ⟨c, opens, run_token blank opens.not_blank⟩

/-- A value of the wrong kind is refused, whatever it is. -/
theorem wrongKind_refuses (wanted : Wanted) (s : List Char) :
    ((wrongKind wanted : Reader α).run s).toOption = none := by
  have refused {β : Type} (y : Reader β) (fault : β → Fault) (s : List Char) :
      ((do let b ← y; Reader.fail (fault b) : Reader α).run s).toOption = none := by
    rw [toOption_bind]
    exact Option.bind_fun_none _
  rw [wrongKind, toOption_bind]
  cases token.run s with
  | error e => rfl
  | ok p =>
    obtain ⟨_ | c, r⟩ := p
    · rfl
    · show (Reader.run (ite _ _ _) r).toOption = none
      split
      · exact refused (do Reader.skip; text) _ r
      · split
        · exact refused number _ r
        · split
          · exact refused (word _) _ r
          · split
            · exact refused (word _) _ r
            · split
              · exact refused (word _) _ r
              · split
                · rfl
                · split <;> rfl

end Reader

/-- A text has its characters. -/
def Tree.text? : Tree → Option String
  | .text t => t
  | _ => none

/-- A number is a natural one of 64 bits only as it is written. -/
def Tree.natural? : Tree → Option UInt64
  | .number l =>
    match l.value with
    | .ok (.natural n) => some n
    | _ => none
  | _ => none

/-- A time is the text of one. -/
def Tree.time? (t : Tree) : Option Time.Instant :=
  t.text?.bind fun s => (Time.readInstant s.toList).toOption

def Tree.null? : Tree → Option Unit
  | .null => some ()
  | _ => none

/-- A name is a text, or the only key of an object that holds a null. -/
def Tree.name? : Tree → Option String
  | .text t => t
  | .object [(k, t)] => t.null?.bind fun _ => k
  | _ => none

/-- A null is nothing. -/
def Tree.optional? {α : Type} (f : Tree → Option α) : Tree → Option (Option α)
  | .null => some none
  | t => (f t).map some

/-- A list has what its elements are. -/
def Tree.list? {α : Type} (f : Tree → Option α) : Tree → Option (List α)
  | .list ts => ts.mapM f
  | _ => none

theorem Tree.name?_object (k : Option String) (t : Tree) (fs : List (Option String × Tree)) :
    (Tree.object ((k, t) :: fs)).name? = (if fs = [] then t.null? else none).bind fun _ => k := by
  cases fs <;> rfl

namespace Reader

variable {α β : Type} {x : Reader α} {f : Tree → Option α}

theorem means_textAs (wanted : Wanted) : (textAs wanted).Means Tree.text? := by
  intro t w s r blank h settled
  obtain ⟨c, opens, token⟩ := run_token_spelled (r := r) blank h
  rw [textAs, Reader.run_bind_ok token]
  cases h with
  | text spelled =>
    cases opens
    rw [if_pos rfl, List.cons_append, Reader.run_bind_ok Reader.run_skip_cons, List.append_assoc]
    exact text_spelled spelled
  | number number =>
    have other : c ≠ '"' := opens.ne_of_number (by decide) rfl
    rw [if_neg (mt Option.some.inj other)]
    exact wrongKind_refuses wanted _
  | null | yes | no | list | object =>
    cases opens
    rw [if_neg (by decide)]
    exact wrongKind_refuses wanted _

theorem number_spelled {l : Literal} {s r : List Char} (h : SpelledNumber l s)
    (settled : Settled r) : (number.run (s ++ r)).toOption = l.value.toOption.map (·, r) := by
  rw [number, Reader.run_bind_ok (run_literal_spelled h _ settled)]
  exact toOption_ofExcept _ _

theorem means_natural : natural.Means Tree.natural? := by
  intro t w s r blank h settled
  obtain ⟨c, opens, token⟩ := run_token_spelled (r := r) blank h
  rw [natural, Reader.run_bind_ok token]
  simp only
  cases h with
  | @number l _ number =>
    have first : c = '-' ∨ c.isDigit := opens
    rw [if_pos first, toOption_bind, number_spelled number settled]
    simp only [Tree.natural?]
    cases l.value with
    | error e => rfl
    | ok n => cases n <;> rfl
  | null | yes | no | text | list | object =>
    cases opens
    rw [if_neg (by decide)]
    exact wrongKind_refuses .natural _

theorem means_null (wanted : Wanted) : (null wanted).Means Tree.null? := by
  intro t w s r blank h settled
  obtain ⟨c, opens, token⟩ := run_token_spelled (r := r) blank h
  rw [null, Reader.run_bind_ok token]
  cases h with
  | null =>
    cases opens
    rw [if_pos rfl, run_word]
    rfl
  | number number =>
    have other : c ≠ 'n' := opens.ne_of_number (by decide) rfl
    rw [if_neg (mt Option.some.inj other)]
    exact wrongKind_refuses wanted _
  | yes | no | text | list | object =>
    cases opens
    rw [if_neg (by decide)]
    exact wrongKind_refuses wanted _

theorem means_time : time.Means Tree.time? := by
  intro t w s r blank h settled
  rw [time, toOption_bind, means_textAs .time blank h settled, Tree.time?]
  cases t.text? with
  | none => rfl
  | some s =>
    simp only [Option.map_some, Option.bind_some]
    cases Time.readInstant s.toList <;> rfl

theorem means_optional (h : x.Means f) : (optional x).Means (Tree.optional? f) := by
  intro t w s r blank spelled settled
  obtain ⟨c, opens, token⟩ := run_token_spelled (r := r) blank spelled
  have read := h (w := []) .nil spelled settled
  rw [List.nil_append] at read
  have some_of (other : c ≠ 'n') (something : Tree.optional? f t = (f t).map some) :
      ((optional x).run (w ++ (s ++ r))).toOption = (Tree.optional? f t).map (·, r) := by
    rw [optional, Reader.run_bind_ok token, if_neg (mt Option.some.inj other), toOption_bind, read,
      something]
    cases f t <;> rfl
  cases spelled with
  | null =>
    cases opens
    rw [optional, Reader.run_bind_ok token, if_pos rfl, Reader.run_bind_ok (run_word _)]
    rfl
  | number number => exact some_of (opens.ne_of_number (by decide) rfl) rfl
  | yes | no | text | list | object =>
    cases opens
    exact some_of (by decide) rfl

/-! ### Names -/

theorem key?_spelled {first : Bool} {k : Option String} {w key r : List Char} (lead : Lead first w)
    (name : SpelledText k key) :
    ((key? first).run (w ++ '"' :: (key ++ '"' :: r))).toOption = k.map fun k => (some k, r) := by
  have another : (more? .object first).run (w ++ '"' :: (key ++ '"' :: r)) =
      .ok (true, '"' :: (key ++ '"' :: r)) := run_more?_lead lead rfl (by decide)
  rw [key?, Reader.run_bind_ok another, if_pos rfl, Reader.run_bind_ok Reader.run_peek,
    List.head?_cons, if_pos rfl, Reader.run_bind_ok Reader.run_skip_cons, toOption_bind,
    text_spelled name]
  cases k <;> rfl

/-- Between two fields stands a comma. -/
theorem run_token_comma {k : Option String} {t : Tree} {fs : List (Option String × Tree)}
    {s r : List Char} (h : SpelledFields false ((k, t) :: fs) s) :
    ∃ r', token.run (s ++ r) = .ok (some ',', r') := by
  cases h with
  | cons lead =>
    cases lead with
    | next before after =>
      simp only [List.append_assoc, List.cons_append]
      exact ⟨_, run_token before rfl⟩

/-- After its only key an object of a name has a null, and ends. -/
theorem onlyNull_spelled {t : Tree} {fs : List (Option String × Tree)}
    {before after s more w r : List Char} (a : α) (blank : Blank before) (blank' : Blank after)
    (value : Spelled t s) (others : SpelledFields false fs more) (blankEnd : Blank w) :
    ((do
        colon
        null .nothing
        match ← token with
        | none => Reader.fail .endInObject
        | some '}' => do
          Reader.skip
          pure a
        | some _ => Reader.fail .expectedValue : Reader α).run
      (before ++ ':' :: (after ++ (s ++ (more ++ (w ++ '}' :: r)))))).toOption =
      (if fs = [] then t.null? else none).map fun _ => (a, r) := by
  have settled : Settled (more ++ (w ++ '}' :: r)) :=
    others.settled (settled_of_blank blankEnd (Bracket.object.settled r))
  rw [Reader.run_bind_ok (run_colon blank), toOption_bind, means_null .nothing blank' value settled]
  cases fs with
  | nil =>
    cases others
    rw [if_pos rfl, List.nil_append]
    cases t.null? with
    | none => rfl
    | some _ =>
      simp only [Option.map_some, Option.bind_some]
      rw [Reader.run_bind_ok (run_token (c := '}') blankEnd rfl)]
      rfl
  | cons field fs =>
    obtain ⟨r', comma⟩ := run_token_comma (r := w ++ '}' :: r) others
    rw [if_neg (List.cons_ne_nil field fs)]
    cases t.null? with
    | none => rfl
    | some _ =>
      simp only [Option.map_some, Option.bind_some]
      rw [Reader.run_bind_ok comma]
      rfl

theorem means_choice (choose : String → Except Fault α) :
    (choice choose).Means fun t => t.name?.bind fun s => (choose s).toOption := by
  intro t w s r blank h settled
  obtain ⟨c, opens, token⟩ := run_token_spelled (r := r) blank h
  rw [choice, Reader.run_bind_ok token]
  cases h with
  | @text m s spelled =>
    cases opens
    simp only [List.cons_append, List.append_assoc, List.nil_append]
    rw [Reader.run_bind_ok Reader.run_skip_cons, toOption_bind, text_spelled spelled]
    cases m with
    | none => rfl
    | some m => exact toOption_ofExcept _ _
  | number number =>
    split
    · next ended => cases ended
    · next quote => cases opens.ne_of_number (by decide) rfl (Option.some.inj quote)
    · next bracket => cases opens.ne_of_number (by decide) rfl (Option.some.inj bracket)
    · rfl
  | null | yes | no | list =>
    cases opens
    rfl
  | @object fs s w' fields blank' =>
    cases opens
    simp only [List.cons_append, List.append_assoc, List.nil_append]
    rw [Reader.run_bind_ok Reader.run_skip_cons, toOption_bind]
    cases fields with
    | nil =>
      have ended : (key? true).run (w' ++ '}' :: r) = .ok (none, '}' :: r) :=
        run_key?_end true blank'
      rw [List.nil_append, ended]
      rfl
    | @cons _ k v fs lead key before after s more leads name blank₁ blank₂ value others =>
      simp only [List.append_assoc, List.cons_append]
      rw [key?_spelled leads name, Tree.name?_object]
      cases k with
      | none => simp
      | some k =>
        simp only [Option.map_some, Option.bind_some]
        rw [toOption_bind, toOption_ofExcept]
        cases chosen : (choose k).toOption with
        | none => cases (if fs = [] then v.null? else none) <;> simp [chosen]
        | some a =>
          simp only [Option.map_some, Option.bind_some]
          refine (onlyNull_spelled a blank₁ blank₂ value others blank').trans ?_
          cases (if fs = [] then v.null? else none) <;> simp [chosen]

/-! ### Lists -/

theorem run_more?_spelled {first : Bool} {t : Tree} {w s r : List Char} (lead : Lead first w)
    (h : Spelled t s) : (more? .list first).run (w ++ (s ++ r)) = .ok (true, s ++ r) := by
  obtain ⟨c, s, rfl, opens⟩ := h.opens
  exact run_more?_lead lead opens.not_blank (opens.ne_close .list)

theorem toOption_elements {done : List α} {s r : List Char}
    (h : (more? .list false).run s = .ok (true, r)) :
    (elements x done s).toOption =
      (x.run r).toOption.bind fun p => (elements x (p.1 :: done) p.2).toOption := by
  cases read : x.run r with
  | ok p => rw [elements_of_more h read]; rfl
  | error fault =>
    rw [elements]
    split
    · next h' => cases h.symm.trans h'
    · next h' => cases h.symm.trans h'
    · next h' =>
      cases h.symm.trans h'
      split
      · rfl
      · next e => cases read.symm.trans e

theorem elements_spelled (h : x.Means f) {ts : List Tree} {done : List α} {s w r : List Char}
    (spelled : SpelledElements false ts s) (blank : Blank w) :
    (elements x done (s ++ (w ++ ']' :: r))).toOption =
      (ts.mapM f).map fun as => (done.reverse ++ as, ']' :: r) := by
  induction ts generalizing done s with
  | nil =>
    cases spelled
    have ended : (more? .list false).run (w ++ ']' :: r) = .ok (false, ']' :: r) :=
      run_more?_close false blank
    rw [List.nil_append, elements_of_end ended]
    simp [Except.toOption]
  | cons t ts ih =>
    cases spelled with
    | @cons _ _ _ lead s more leads element others =>
      have settled : Settled (more ++ (w ++ ']' :: r)) :=
        others.settled (settled_of_blank blank (Bracket.list.settled r))
      have read := h (w := []) .nil element settled
      rw [List.nil_append] at read
      simp only [List.append_assoc]
      rw [toOption_elements (run_more?_spelled leads element), read, List.mapM_cons]
      cases f t with
      | none => rfl
      | some a =>
        simp only [Option.map_some, Option.bind_some]
        rw [ih others]
        cases ts.mapM f <;> simp

/-- A list is taken if each of its elements is. -/
theorem means_list (h : x.Means f) : (list x).Means (Tree.list? f) := by
  intro t w s r blank spelled settled
  obtain ⟨c, opens, token⟩ := run_token_spelled (r := r) blank spelled
  rw [list, Reader.run_bind_ok token]
  cases spelled with
  | number number =>
    have other : c ≠ '[' := opens.ne_of_number (by decide) rfl
    rw [if_neg (mt Option.some.inj other)]
    exact wrongKind_refuses .list _
  | null | yes | no | text | object =>
    cases opens
    rw [if_neg (by decide)]
    exact wrongKind_refuses .list _
  | @list ts s w' elements blank' =>
    cases opens
    rw [if_pos rfl]
    simp only [List.cons_append, List.append_assoc, List.nil_append]
    rw [Reader.run_bind_ok Reader.run_skip_cons]
    cases elements with
    | nil =>
      have ended : (more? .list true).run (w' ++ ']' :: r) = .ok (false, ']' :: r) :=
        run_more?_close true blank'
      rw [List.nil_append, Reader.run_bind_ok ended]
      exact congrArg Except.toOption (Reader.run_bind_ok (run_listEnd .nil) _)
    | @cons _ t ts lead s more leads element others =>
      have settled' : Settled (more ++ (w' ++ ']' :: r)) :=
        others.settled (settled_of_blank blank' (Bracket.list.settled r))
      have read := h (w := []) .nil element settled'
      rw [List.nil_append] at read
      simp only [List.append_assoc]
      rw [Reader.run_bind_ok (run_more?_spelled leads element)]
      simp only [if_true]
      rw [toOption_bind, read, Tree.list?, List.mapM_cons]
      cases f t with
      | none => rfl
      | some a =>
        have rest : ((moreElements x a).run (more ++ (w' ++ ']' :: r))).toOption =
            (ts.mapM f).map fun as => (a :: as, ']' :: r) := elements_spelled h others blank'
        simp only [Option.map_some, Option.bind_some]
        rw [toOption_bind, rest]
        cases ts.mapM f with
        | none => rfl
        | some as =>
          simp only [Option.map_some, Option.bind_some]
          exact congrArg Except.toOption (Reader.run_bind_ok (run_listEnd .nil) _)

end Reader

namespace Codec

variable {α : Type} {c : Codec α} {f : Tree → Option α} {t : Tree}

/-- What the codec takes a value for: what it reads from the spelling without blanks. -/
def takes? (c : Codec α) (t : Tree) : Option α :=
  (c.decode (String.ofList t.print)).toOption

/-- The codec takes a value for the same thing however it is spelled. -/
def Exact (c : Codec α) : Prop := c.read.Means c.takes?

theorem toOption_decode (h : c.read.Means f) {s : String} (document : t.Document s) :
    (c.decode s).toOption = f t := by
  obtain ⟨before, text, after, spelling, blank, spelled, blank'⟩ := document
  have settled : Settled after := by
    have settled := settled_of_blank blank' (s := []) .nil
    rwa [List.append_nil] at settled
  have read := h blank spelled settled
  rw [decode, Reader.document, spelling]
  cases run : c.read.run (before ++ (text ++ after)) with
  | error fault =>
    rw [run] at read
    cases taken : f t with
    | none => rfl
    | some a =>
      rw [taken] at read
      cases read
  | ok p =>
    rw [run] at read
    cases taken : f t with
    | none =>
      rw [taken] at read
      cases read
    | some a =>
      rw [taken] at read
      cases read
      simp only
      rw [if_pos (List.all_eq_true.2 blank')]
      rfl

theorem takes?_eq (h : c.read.Means f) {s : List Char} (spelled : Spelled t s) : c.takes? t = f t :=
  toOption_decode h spelled.document

/-- A natural number is decoded from a literal of its digits only. -/
theorem natural_decode {s : String} (document : t.Document s) (n : UInt64) :
    natural.decode s = .ok n ↔ ∃ whole, t = .number ⟨false, whole, [], none⟩ ∧
      ofDigits whole < UInt64.size ∧ n = .ofNat (ofDigits whole) := by
  rw [← Reader.toOption_eq_some, toOption_decode (c := natural) Reader.means_natural document]
  cases t with
  | number l =>
    simp only [Tree.natural?, Tree.number.injEq]
    rw [← Literal.value_eq_natural]
    split
    · next h => simp [h]
    · next h => simpa using h n
  | null | boolean | text | list | object => simp [Tree.natural?]

/-- A codec whose reader goes by the value alone is exact. -/
theorem exact_of_means (h : c.read.Means f) : c.Exact := by
  intro t w s r blank spelled settled
  rw [takes?_eq h spelled]
  exact h blank spelled settled

theorem exact_text : text.Exact := exact_of_means (Reader.means_textAs .text)

theorem exact_natural : natural.Exact := exact_of_means Reader.means_natural

theorem exact_time : time.Exact := exact_of_means Reader.means_time

theorem exact_choice (name : α → String) (choose : String → Except Fault α) :
    (choice name choose).Exact :=
  exact_of_means (Reader.means_choice choose)

theorem Exact.optional (h : c.Exact) : (optional c).Exact :=
  exact_of_means (Reader.means_optional h)

theorem Exact.list (h : c.Exact) : (list c).Exact := exact_of_means (Reader.means_list h)

end Codec

end FleetHealth.Json
