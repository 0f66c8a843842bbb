import StreamGrammar.Value.Basic

/-! # Values as text

`Value.shown` is the form in which values stand in names, messages and records of the log;
`Value.plain` is the same with text left unquoted. -/

namespace StreamGrammar.Value

/-- Items between an opening and a closing bracket. -/
def bracketed (opening closing : String) (items : List String) : String :=
  opening ++ ", ".intercalate items ++ closing

/-- A tuple of one item keeps a comma. -/
def tupled : List String → String
  | [item] => "(" ++ item ++ ",)"
  | items => bracketed "(" ")" items

mutual

def shown : Value → String
  | null => "None"
  | bool b => (Numeral.truth b).text
  | int n => toString n
  | chunk c => c.shown
  | list xs => bracketed "[" "]" (shownAll xs)
  | tuple xs => tupled (shownAll xs)
  | record fields xs =>
    let entry (field : String) (item : String) : String := Text.quoted field.toList ++ ": " ++ item
    bracketed "\x7b" "\x7d" (fields.zipWith entry (shownAll xs))
  | view v => v.shown

def shownAll : List Value → List String
  | [] => []
  | x :: xs => shown x :: shownAll xs

end

@[simp] theorem shownAll_eq_map (xs : List Value) : shownAll xs = xs.map shown := by
  induction xs with
  | nil => rfl
  | cons x xs ih => simp [shownAll, ih]

def plain : Value → String
  | chunk (.text cs) => String.ofList cs
  | x => x.shown

/-- A tuple of texts. -/
def tupleOfTexts (texts : List String) : String :=
  tupled (texts.map fun t => Text.quoted t.toList)

end StreamGrammar.Value
