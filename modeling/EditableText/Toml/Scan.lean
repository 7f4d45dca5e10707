import EditableText.Text

/-!
Scanners: functions that read a value from the front of a text and leave the rest, or fail and
leave the text to the next alternative.
-/

namespace EditableText

def Scan (α : Type) : Type := Text → Option (α × Text)

namespace Scan

variable {α : Type}

instance : Monad Scan where
  pure a := fun t => some (a, t)
  bind x f := fun t =>
    match x t with
    | some (a, rest) => f a rest
    | none => none

protected theorem bind_pure (x : Scan α) : x >>= pure = x := by
  funext t
  change (match x t with | some (a, rest) => some (a, rest) | none => none) = x t
  cases x t <;> rfl

protected theorem bind_assoc {β γ : Type} (x : Scan α) (f : α → Scan β) (g : β → Scan γ) :
    x >>= f >>= g = x >>= fun a => f a >>= g := by
  funext t
  simp only [bind]
  cases x t <;> rfl

instance : LawfulMonad Scan := .mk' _ Scan.bind_pure (fun _ _ => rfl) Scan.bind_assoc

def fail : Scan α := fun _ => none

def orElse (x y : Scan α) : Scan α := fun t =>
  match x t with
  | some found => some found
  | none => y t

def ofOption : Option α → Scan α
  | some a => pure a
  | none => fail

def check (b : Bool) : Scan Unit := if b then pure () else fail

def optional (x : Scan α) : Scan (Option α) := fun t =>
  match x t with
  | some (a, rest) => some (some a, rest)
  | none => some (none, t)

def stop : Scan Unit := fun t => if t.isEmpty then some ((), []) else none

def ahead : Scan Text := fun t => some (t, t)

def next : Scan Char
  | [] => none
  | c :: rest => some (c, rest)

def word (w : Text) : Scan Unit := fun t =>
  if w.isPrefixOf t then some ((), t.drop w.length) else none

def char (c : Char) : Scan Unit := word [c]

def takeWhile (p : Char → Bool) : Scan Text := fun t => some (t.takeWhile p, t.dropWhile p)

def takeSome (p : Char → Bool) : Scan Text := do
  let found ← takeWhile p
  check !found.isEmpty
  return found

def manyFrom (x : Scan α) (t : Text) : List α × Text :=
  match x t with
  | some (a, rest) =>
    if rest.length < t.length then
      let (others, last) := manyFrom x rest
      (a :: others, last)
    else ([], t)
  | none => ([], t)
termination_by t.length

def many (x : Scan α) : Scan (List α) := fun t => some (manyFrom x t)

def separated (separator : Scan Unit) (x : Scan α) : Scan (List α) := do
  match ← optional x with
  | none => return []
  | some a =>
    let others ← many (do separator; x)
    return a :: others

def readAll? (x : Scan α) (t : Text) : Option α :=
  match x t with
  | some (a, []) => some a
  | _ => none

end Scan

end EditableText
