import FleetHealth.Json.Reader

/-!
Texts in a JSON document.

`Reader.text` takes what stands between quotes and undoes its escapes, two `\u` escapes of a
surrogate pair making one character. A text that is to be left out is taken by `Reader.looseText`,
which finds the same end but does not ask whether surrogates pair up. The keys of an object are
texts too: `Reader.key?` takes the next one, if there is one.
-/

namespace FleetHealth.Json

open FleetHealth.Text

namespace Reader

/-- The value of a hexadecimal digit, in either case. -/
def hexValue? (c : Char) : Option Nat :=
  if '0' ≤ c ∧ c ≤ '9' then some (c.toNat - 48)
  else if 'a' ≤ c ∧ c ≤ 'f' then some (c.toNat - 87)
  else if 'A' ≤ c ∧ c ≤ 'F' then some (c.toNat - 55)
  else none

/-- Takes the four hexadecimal digits of a `\u` escape. The text has ended when fewer than four
bytes of it are left. -/
def codeUnit : Reader Nat := do
  let ds := (← Reader.rest).take 4
  match ds.mapM hexValue? with
  | some [a, b, c, d] =>
    Reader.drop 4
    pure (((a * 16 + b) * 16 + c) * 16 + d)
  | _ =>
    if (String.ofList ds).utf8ByteSize < 4 then Reader.fail .endInText
    else Reader.fail .invalidEscape

/-- Takes the second half of a surrogate pair, with its backslash and `u`. -/
def trailingUnit : Reader Nat := do
  match ← Reader.next with
  | none => Reader.fail .endInText
  | some '\\' =>
    match ← Reader.next with
    | none => Reader.fail .endInText
    | some 'u' =>
      let low ← codeUnit
      if 0xdc00 ≤ low ∧ low ≤ 0xdfff then pure low else Reader.fail .loneSurrogate
    | some _ => Reader.fail .unpairedSurrogate
  | some _ => Reader.fail .unpairedSurrogate

/-- Takes the character that the digits of a `\u` escape stand for. -/
def scalar : Reader Char := do
  let unit ← codeUnit
  if 0xdc00 ≤ unit ∧ unit ≤ 0xdfff then Reader.fail .loneSurrogate
  else if 0xd800 ≤ unit ∧ unit ≤ 0xdbff then
    let low ← trailingUnit
    pure (Char.ofNat (0x10000 + (unit - 0xd800) * 0x400 + (low - 0xdc00)))
  else pure (Char.ofNat unit)

/-- Takes the four digits of a `\u` escape whose character does not matter. -/
def looseScalar : Reader Char := do
  let _ ← codeUnit
  pure '\ufffd'

/-- Takes what follows a backslash; `unicode` takes what follows `\u`. -/
def escape (unicode : Reader Char) : Reader Char := do
  match ← Reader.next with
  | none => Reader.fail .endInText
  | some '"' => pure '"'
  | some '\\' => pure '\\'
  | some '/' => pure '/'
  | some 'b' => pure '\x08'
  | some 'f' => pure '\x0c'
  | some 'n' => pure '\n'
  | some 'r' => pure '\r'
  | some 't' => pure '\t'
  | some 'u' => unicode
  | some _ => Reader.fail .invalidEscape

/-- The characters up to the closing quote, and what follows it. -/
def textBody (unicode : Reader Char) (s : List Char) : Except Fault (List Char × List Char) :=
  match s with
  | [] => .error .endInText
  | c :: r =>
    if c = '"' then .ok ([], r)
    else if c = '\\' then
      match h : (escape unicode).run r with
      | .error e => .error e
      | .ok (d, r') =>
        have := (escape unicode).run_le h
        (textBody unicode r').map fun (cs, t) => (d :: cs, t)
    else if c < ' ' then .error .controlCharacter
    else (textBody unicode r).map fun (cs, t) => (c :: cs, t)
termination_by s.length

theorem textBody_length (unicode : Reader Char) {s cs t : List Char}
    (h : textBody unicode s = .ok (cs, t)) : t.length < s.length := by
  fun_induction textBody unicode s generalizing cs t with
  | case1 | case3 | case5 => cases h
  | case2 => cases h; simp
  | case4 r d r' _ hle _ ih =>
    cases hb : textBody unicode r' with
    | error e => rw [hb] at h; cases h
    | ok p =>
      rw [hb] at h
      cases h
      have := ih hb
      simp only [List.length_cons]
      omega
  | case6 c r _ _ _ ih =>
    cases hb : textBody unicode r with
    | error e => rw [hb] at h; cases h
    | ok p =>
      rw [hb] at h
      cases h
      have := ih hb
      simp only [List.length_cons]
      omega

/-- Takes the characters up to the closing quote, and the quote. -/
def untilQuote (unicode : Reader Char) : Reader (List Char) where
  run := textBody unicode
  run_le h := Nat.le_of_lt (textBody_length unicode h)

/-- Takes a text whose opening quote has been taken. -/
def text : Reader String := do
  pure (String.ofList (← untilQuote scalar))

/-- Leaves out a text whose opening quote has been taken. -/
def looseText : Reader Unit := do
  let _ ← untilQuote looseScalar

/-! ### Keys -/

/-- Takes the next key of an object, with the comma before it if it is not the first; there is none
at the end. -/
def key? (first : Bool) : Reader (Option String) := do
  if ← more? .object first then
    if (← Reader.peek) = some '"' then
      Reader.skip
      pure (some (← text))
    else Reader.fail .expectedKey
  else pure none

/-- A key is at least a quote. -/
theorem key?_length {first : Bool} {s r : List Char} {k : String}
    (h : (key? first).run s = .ok (some k, r)) : r.length < s.length := by
  rw [key?, Reader.run_bind] at h
  split at h
  · cases h
  · next m t ht =>
    have hle := (more? .object first).run_le ht
    split at h
    · rw [Reader.run_bind] at h
      simp only [Reader.peek] at h
      cases t with
      | nil => simp at h
      | cons c u =>
        split at h
        · rw [Reader.run_bind] at h
          simp only [Reader.skip, Reader.drop, List.drop_succ_cons, List.drop_zero] at h
          exact Nat.lt_of_lt_of_le (Nat.lt_succ_of_le (Reader.run_le _ h)) hle
        · cases h
    · cases h

end Reader

end FleetHealth.Json
