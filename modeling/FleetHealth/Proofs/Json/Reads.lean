import FleetHealth.Json.Codec
import FleetHealth.Proofs.Json.Layout
import FleetHealth.Proofs.Json.Text
import FleetHealth.Proofs.Time.RoundTrip
import Mathlib.Data.List.Forall2

/-!
Readers that take a value for what it means.

`Reader.Reads x v a` says that the reader takes `a` for the value `v`, however the value is laid out
and whatever follows it, as long as that does not go on with a number. There is one lemma for each
kind of reader.
-/

namespace FleetHealth.Json.Reader

open FleetHealth.Text

variable {α : Type} {x : Reader α} {v : Value} {a : α}

/-- The reader takes `a` for the value, however it is laid out. -/
def Reads (x : Reader α) (v : Value) (a : α) : Prop :=
  ∀ {w s r : List Char}, Blank w → Laid v s → Settled r → x.run (w ++ (s ++ r)) = .ok (a, r)

/-! ### Single values -/

theorem reads_textAs (wanted : Wanted) (t : String) : Reads (textAs wanted) (.text t) t := by
  intro w s r blank laid settled
  cases laid
  rw [Value.writeText, List.cons_append, List.cons_append, textAs,
    Reader.run_bind_ok (run_token blank rfl), if_pos rfl, Reader.run_bind_ok Reader.run_skip_cons,
    List.append_assoc]
  exact run_text t

theorem reads_natural (n : UInt64) : Reads natural (.natural n.toNat) n := by
  intro w s r blank laid settled
  cases laid
  obtain ⟨c, cs, digits⟩ := List.exists_cons_of_ne_nil (Decimal.digits_ne_nil n.toNat)
  have digit : c.isDigit := Decimal.isDigit_of_mem_digits (digits ▸ List.mem_cons_self)
  have token : token.run (w ++ (Decimal.digits n.toNat ++ r)) =
      .ok (some c, Decimal.digits n.toNat ++ r) := by
    rw [digits]
    exact run_token blank (isBlank_of_isDigit digit)
  rw [natural, Reader.run_bind_ok token]
  simp only [digit, or_true, if_true]
  rw [Reader.run_bind_ok (run_number n settled)]
  rfl

theorem reads_time (i : Time.Instant) : Reads time (.text (String.ofList i.write)) i := by
  intro w s r blank laid settled
  rw [time, Reader.run_bind_ok (reads_textAs .time _ blank laid settled), String.toList_ofList,
    Time.readInstant_write]
  rfl

theorem reads_choice {choose : String → Except Fault α} {t : String} (h : choose t = .ok a) :
    Reads (choice choose) (.text t) a := by
  intro w s r blank laid settled
  cases laid
  rw [Value.writeText, List.cons_append, List.cons_append, choice,
    Reader.run_bind_ok (run_token blank rfl)]
  simp only
  rw [Reader.run_bind_ok Reader.run_skip_cons, List.append_assoc, List.cons_append, List.nil_append,
    Reader.run_bind_ok (run_text t), h, Reader.run_ofExcept_ok]

theorem reads_none (x : Reader α) : Reads (optional x) .null none := by
  intro w s r blank laid settled
  cases laid
  rw [List.cons_append, optional, Reader.run_bind_ok (run_token blank rfl), if_pos rfl]
  exact Reader.run_bind_ok (run_word ['n', 'u', 'l', 'l']) _

theorem reads_some (something : v ≠ .null) (h : Reads x v a) : Reads (optional x) v (some a) := by
  intro w s r blank laid settled
  obtain ⟨c, t, rfl, opens⟩ := laid.opens
  have other : some c ≠ some 'n' := fun null => something (opens.null (Option.some.inj null))
  have read := h (w := []) .nil laid settled
  rw [List.cons_append, optional, Reader.run_bind_ok (run_token blank opens.blank), if_neg other]
  exact Reader.run_bind_ok read _

/-! ### Lists -/

theorem elements_of_end {done : List α} {s r : List Char}
    (h : (more? .list false).run s = .ok (false, r)) :
    elements x done s = .ok (done.reverse, r) := by
  rw [elements]
  split
  · next h' => cases h.symm.trans h'
  · next h' =>
    cases h.symm.trans h'
    rfl
  · next h' => cases h.symm.trans h'

theorem elements_of_more {done : List α} {s r r' : List Char}
    (h : (more? .list false).run s = .ok (true, r)) (h' : x.run r = .ok (a, r')) :
    elements x done s = elements x (a :: done) r' := by
  rw [elements]
  split
  · next h'' => cases h.symm.trans h''
  · next h'' => cases h.symm.trans h''
  · next h'' =>
    cases h.symm.trans h''
    split
    · next e => cases h'.symm.trans e
    · next e =>
      cases h'.symm.trans e
      rfl

/-- An element is found after its lead and read. -/
theorem run_element {first : Bool} {vs : List Value} {lead s t w r : List Char} (h : Reads x v a)
    (leads : Lead first lead) (element : Laid v s) (more : LaidElements false vs t)
    (blank : Blank w) :
    ∃ m, (more? .list first).run (lead ++ (s ++ t) ++ (w ++ ']' :: r)) = .ok (true, m) ∧
      x.run m = .ok (a, t ++ (w ++ ']' :: r)) := by
  obtain ⟨c, s, rfl, opens⟩ := element.opens
  have settled : Settled (t ++ (w ++ ']' :: r)) :=
    more.settled (settled_of_blank blank (Bracket.list.settled r))
  refine ⟨c :: s ++ (t ++ (w ++ ']' :: r)), ?_, h (w := []) .nil element settled⟩
  simpa using run_more?_lead leads opens.blank (opens.close .list)

/-- The elements after the first are read up to the closing bracket. -/
theorem run_elements {vs : List Value} {as done : List α} {s w r : List Char}
    (h : List.Forall₂ (Reads x) vs as) (laid : LaidElements false vs s) (blank : Blank w) :
    elements x done (s ++ (w ++ ']' :: r)) = .ok (done.reverse ++ as, ']' :: r) := by
  induction h generalizing done s with
  | nil =>
    cases laid
    rw [List.append_nil]
    exact elements_of_end (run_more?_close false blank)
  | cons reads rest ih =>
    cases laid with
    | cons lead element more =>
      obtain ⟨m, another, read⟩ := run_element reads lead element more blank
      rw [elements_of_more another read, ih more, List.reverse_cons, List.append_assoc]
      rfl

theorem reads_list {vs : List Value} {as : List α} (h : List.Forall₂ (Reads x) vs as) :
    Reads (list x) (.list vs) as := by
  intro w s r blank laid settled
  cases laid with
  | @list _ s w' laid blank' =>
    have text : w ++ ('[' :: (s ++ (w' ++ [']'])) ++ r) = w ++ '[' :: (s ++ (w' ++ ']' :: r)) := by
      simp
    rw [text, list, Reader.run_bind_ok (run_token blank rfl), if_pos rfl,
      Reader.run_bind_ok Reader.run_skip_cons]
    cases h with
    | nil =>
      cases laid
      have empty : (more? .list true).run (w' ++ ']' :: r) = .ok (false, ']' :: r) :=
        run_more?_close true blank'
      rw [List.nil_append, Reader.run_bind_ok empty]
      exact Reader.run_bind_ok (run_listEnd .nil) _
    | @cons v a vs as reads rest =>
      cases laid with
      | @cons _ _ _ _ _ t lead element more =>
        obtain ⟨m, another, read⟩ := run_element (r := r) reads lead element more blank'
        have others : (moreElements x a).run (t ++ (w' ++ ']' :: r)) = .ok (a :: as, ']' :: r) :=
          run_elements rest more blank'
        rw [Reader.run_bind_ok another]
        simp only [if_true]
        rw [Reader.run_bind_ok read, Reader.run_bind_ok others]
        exact Reader.run_bind_ok (run_listEnd .nil) _

end FleetHealth.Json.Reader
