import StreamGrammar.Value.Basic

/-! # Equality of values

Truth values equal the numbers one and zero, chunks and views are compared by kind and symbols, lists
never equal tuples, and the order of a record's fields does not matter. -/

namespace StreamGrammar.Value

mutual

/-- Two values are equal. -/
def same : Value → Value → Bool
  | null, null => true
  | bool a, y => match y.numeral? with
    | some n => (Numeral.truth a).same n
    | none => false
  | int a, y => match y.numeral? with
    | some n => (Numeral.int a).same n
    | none => false
  | chunk c, chunk d => c.same d
  | chunk c, view w => c.same w.fragment
  | view v, chunk d => v.fragment.same d
  | view v, view w => v.same w
  | list xs, list ys => sameAll xs ys
  | tuple xs, tuple ys => sameAll xs ys
  | record fields xs, record others ys =>
    fields.length == others.length && sameFields (others.zip ys) fields xs
  | _, _ => false

def sameAll : List Value → List Value → Bool
  | [], [] => true
  | x :: xs, y :: ys => same x y && sameAll xs ys
  | _, _ => false

/-- Each of the fields has an equal value in `others`. -/
def sameFields (others : List (String × Value)) : List String → List Value → Bool
  | field :: fields, x :: xs =>
    (match others.lookup field with
      | some y => same x y
      | none => false) && sameFields others fields xs
  | _, _ => true

end

/-! ### Equality as such -/

mutual

/-- Values are equal as such if they were built alike; `same` is coarser. -/
def decEq : (x y : Value) → Decidable (x = y)
  | null, null => isTrue rfl
  | bool a, bool b => decidable_of_iff (a = b) (by simp)
  | int a, int b => decidable_of_iff (a = b) (by simp)
  | chunk c, chunk d => decidable_of_iff (c = d) (by simp)
  | view v, view w => decidable_of_iff (v = w) (by simp)
  | list xs, list ys => @decidable_of_iff _ (xs = ys) (by simp) (decEqAll xs ys)
  | tuple xs, tuple ys => @decidable_of_iff _ (xs = ys) (by simp) (decEqAll xs ys)
  | record fs xs, record gs ys =>
    @decidable_of_iff _ (fs = gs ∧ xs = ys) (by simp) (@instDecidableAnd _ _ _ (decEqAll xs ys))
  | null, bool _ | null, int _ | null, chunk _ | null, list _
  | null, tuple _ | null, record _ _ | null, view _ => isFalse nofun
  | bool _, null | bool _, int _ | bool _, chunk _ | bool _, list _
  | bool _, tuple _ | bool _, record _ _ | bool _, view _ => isFalse nofun
  | int _, null | int _, bool _ | int _, chunk _ | int _, list _
  | int _, tuple _ | int _, record _ _ | int _, view _ => isFalse nofun
  | chunk _, null | chunk _, bool _ | chunk _, int _ | chunk _, list _
  | chunk _, tuple _ | chunk _, record _ _ | chunk _, view _ => isFalse nofun
  | list _, null | list _, bool _ | list _, int _ | list _, chunk _
  | list _, tuple _ | list _, record _ _ | list _, view _ => isFalse nofun
  | tuple _, null | tuple _, bool _ | tuple _, int _ | tuple _, chunk _
  | tuple _, list _ | tuple _, record _ _ | tuple _, view _ => isFalse nofun
  | record _ _, null | record _ _, bool _ | record _ _, int _ | record _ _, chunk _
  | record _ _, list _ | record _ _, tuple _ | record _ _, view _ => isFalse nofun
  | view _, null | view _, bool _ | view _, int _ | view _, chunk _
  | view _, list _ | view _, tuple _ | view _, record _ _ => isFalse nofun

def decEqAll : (xs ys : List Value) → Decidable (xs = ys)
  | [], [] => isTrue rfl
  | x :: xs, y :: ys =>
    @decidable_of_iff _ (x = y ∧ xs = ys) (by simp) (@instDecidableAnd _ _ (decEq x y) (decEqAll xs ys))
  | [], _ :: _ | _ :: _, [] => isFalse nofun

end

instance : DecidableEq Value := decEq

end StreamGrammar.Value
