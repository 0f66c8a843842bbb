import StreamGrammar.Proofs.LoopLaws
import StreamGrammar.Proofs.Request

/-! # Literals

A literal is compared with a view by two helpers, or symbol by symbol where case does not matter. Both come to a
question about prefixes of symbols that are told apart by a key: the symbol itself, or its lower case. The view begins
with the literal, or it ends while it still agrees with the literal, or the two differ at a symbol that both have
(`Compared`). Each of these is stable under a coarser key but for the last, and nothing but keys is looked at. -/

namespace StreamGrammar

variable {defs : Definitions} {κ : Type}

/-! ### Prefixes up to a key -/

/-- Two lists differ at an index that both have exactly if neither is a prefix of the other. -/
theorem any_zip_key_ne_iff [DecidableEq κ] (key : Symbol → κ) (ss ts : List Symbol) :
    ((ss.zip ts).any fun p => key p.1 ≠ key p.2) = true ↔
      ¬ ts.map key <+: ss.map key ∧ ¬ ss.map key <+: ts.map key := by
  induction ss generalizing ts with
  | nil => simp
  | cons s ss ih =>
    cases ts with
    | nil => simp
    | cons t ts =>
      by_cases h : key s = key t
      · simpa [h] using ih ts
      · simp [h, Ne.symm h]

theorem prefix_or_prefix_of_any_zip [DecidableEq κ] {key : Symbol → κ} {ss ts : List Symbol}
    (h : ¬ ((ss.zip ts).any fun p => key p.1 ≠ key p.2) = true) :
    ts.map key <+: ss.map key ∨ ss.map key <+: ts.map key := by
  rw [any_zip_key_ne_iff, not_and_or, not_not, not_not] at h
  exact h

/-- A prefix that is no shorter is all of the list. -/
theorem prefix_of_length_le {ks ls : List κ} (h : ks <+: ls) (hle : ls.length ≤ ks.length) : ls <+: ks :=
  h.eq_of_length_le hle ▸ List.prefix_refl _

namespace Symbol

theorem lower_ne_nil (s : Symbol) : s.lower ≠ [] := by
  cases s with
  | byte b => exact List.cons_ne_nil _ _
  | char c =>
    rw [lower, Text.lower]
    split
    · exact List.cons_ne_nil _ _
    · split <;> exact List.cons_ne_nil _ _

theorem kind_of_mem_lower {s t : Symbol} (h : t ∈ s.lower) : t.kind = s.kind := by
  cases s with
  | byte b =>
    cases List.mem_singleton.1 h
    rfl
  | char c =>
    obtain ⟨d, -, rfl⟩ := List.mem_map.1 h
    rfl

/-- The lower case of a character is never that of a byte. -/
theorem kind_eq_of_lower {s t : Symbol} (h : s.lower = t.lower) : s.kind = t.kind := by
  obtain ⟨u, hu⟩ := List.exists_mem_of_ne_nil _ s.lower_ne_nil
  exact (kind_of_mem_lower hu).symm.trans (kind_of_mem_lower (h ▸ hu))

end Symbol

theorem Chunk.kind_eq_of_lower {c d : Chunk} (hc : c.length ≠ 0)
    (h : d.symbols.map Symbol.lower = c.symbols.map Symbol.lower) : d.kind = c.kind := by
  rw [← length_symbols] at hc
  rcases hsc : c.symbols with _ | ⟨s, ss⟩
  · exact absurd (by rw [hsc]; rfl) hc
  rcases hsd : d.symbols with _ | ⟨t, ts⟩ <;> rw [hsc, hsd] at h
  · cases h
  · rw [← d.kind_of_mem_symbols (hsd ▸ List.mem_cons_self), ← c.kind_of_mem_symbols (hsc ▸ List.mem_cons_self)]
    exact Symbol.kind_eq_of_lower (List.cons.inj h).1

/-! ### What a literal comes to -/

/-- What a literal comes to on a view when symbols are told apart by `key`. -/
inductive Compared (name : String) (key : Symbol → κ) (literal : Chunk) (v : View) :
    Except Fault (Outcome Value) → Prop
  | begins : literal.kind = v.kind → literal.symbols.map key <+: v.symbols.map key →
    Compared name key literal v (.ok (.done (v.drop literal.length) (.view (v.take literal.length))))
  | short : literal.kind = v.kind → v.length < literal.length → v.symbols.map key <+: literal.symbols.map key →
    Compared name key literal v (.ok (.incomplete (.exact (.int (literal.length - v.length : Nat)))))
  | differs : literal.kind = v.kind → ¬ literal.symbols.map key <+: v.symbols.map key →
    ¬ v.symbols.map key <+: literal.symbols.map key →
      Compared name key literal v (.ok (.failed ⟨⟨.literalMismatch, v.start, none, none⟩, []⟩))
  | otherKind : literal.kind ≠ v.kind → Compared name key literal v (.error (.kindMismatch name literal.kind v.kind))

namespace Compared
variable {name name' : String} {key : Symbol → κ} {literal : Chunk} {v : View}

theorem length_le_of_begins (h : literal.symbols.map key <+: v.symbols.map key) : literal.length ≤ v.length := by
  simpa using h.length_le

theorem unique {r r' : Except Fault (Outcome Value)} (h : Compared name key literal v r)
    (h' : Compared name key literal v r') : r = r' := by
  rcases h with ⟨hkind, hbegins⟩ | ⟨hkind, hlt, hshort⟩ | ⟨hkind, hnot, hnot'⟩ | hne
  · cases h' with
    | begins => rfl
    | short _ hlt _ => exact absurd (length_le_of_begins hbegins) (Nat.not_le.2 hlt)
    | differs _ hnot _ => exact absurd hbegins hnot
    | otherKind hne => exact absurd hkind hne
  · cases h' with
    | begins _ hbegins => exact absurd (length_le_of_begins hbegins) (Nat.not_le.2 hlt)
    | short => rfl
    | differs _ _ hnot' => exact absurd hshort hnot'
    | otherKind hne => exact absurd hkind hne
  · cases h' with
    | begins _ hbegins => exact absurd hbegins hnot
    | short _ _ hshort => exact absurd hshort hnot'
    | differs => rfl
    | otherKind hne => exact absurd hkind hne
  · cases h' with
    | otherKind => rfl
    | begins hkind => exact absurd hkind hne
    | short hkind => exact absurd hkind hne
    | differs hkind => exact absurd hkind hne

/-- Nothing but the kind and the keys of a literal matters. -/
theorem congr {c d : Chunk} (hkind : d.kind = c.kind) (hkeys : d.symbols.map key = c.symbols.map key)
    {r : Except Fault (Outcome Value)} (h : Compared name key d v r) : Compared name key c v r := by
  have hlength : d.length = c.length := by simpa using congrArg List.length hkeys
  rcases h with ⟨hk, hbegins⟩ | ⟨hk, hlt, hshort⟩ | ⟨hk, hnot, hnot'⟩ | hk
  · rw [hlength]
    exact .begins (hkind ▸ hk) (hkeys ▸ hbegins)
  · rw [hlength]
    exact .short (hkind ▸ hk) (hlength ▸ hlt) (hkeys ▸ hshort)
  · exact .differs (hkind ▸ hk) (hkeys ▸ hnot) (hkeys ▸ hnot')
  · rw [hkind]
    exact .otherKind (hkind ▸ hk)

theorem fix {r : Except Fault (Outcome Value)} (h : Compared name key literal.fix v r) :
    Compared name key literal v r :=
  h.congr literal.kind_fix (by rw [literal.symbols_fix])

theorem exists_outcome {r : Except Fault (Outcome Value)} (h : Compared name key literal v r)
    (hk : literal.kind = v.kind) : ∃ o, r = .ok o := by
  rcases h with - | - | - | hne
  · exact ⟨_, rfl⟩
  · exact ⟨_, rfl⟩
  · exact ⟨_, rfl⟩
  · exact absurd hk hne

/-! ### Where each symbol is its own key -/

theorem exactly_begins (hk : literal.kind = v.kind) (h : literal.symbols <+: v.symbols) :
    Compared name id literal v (.ok (.done (v.drop literal.length) (.view (v.take literal.length)))) :=
  .begins hk (by rwa [List.map_id, List.map_id])

theorem exactly_short (hk : literal.kind = v.kind) (hlt : v.length < literal.length)
    (h : v.symbols <+: literal.symbols) :
    Compared name id literal v (.ok (.incomplete (.exact (.int (literal.length - v.length : Nat))))) :=
  .short hk hlt (by rwa [List.map_id, List.map_id])

theorem exactly_differs (hk : literal.kind = v.kind) (h : ¬ literal.symbols <+: v.symbols)
    (h' : ¬ v.symbols <+: literal.symbols) :
    Compared name id literal v (.ok (.failed ⟨⟨.literalMismatch, v.start, none, none⟩, []⟩)) :=
  .differs hk (by rwa [List.map_id, List.map_id]) (by rwa [List.map_id, List.map_id])

/-- Under a coarser key a match stays a match. -/
theorem coarsen_done {rest : View} {x : Value} (h : Compared name id literal v (.ok (.done rest x))) :
    Compared name' key literal v (.ok (.done rest x)) := by
  rcases h with ⟨hkind, hbegins⟩
  rw [List.map_id, List.map_id] at hbegins
  exact .begins hkind (hbegins.map key)

theorem coarsen_incomplete {k : Needed} (h : Compared name id literal v (.ok (.incomplete k))) :
    Compared name' key literal v (.ok (.incomplete k)) := by
  rcases h with - | ⟨hkind, hlt, hshort⟩
  rw [List.map_id, List.map_id] at hshort
  exact .short hkind hlt (hshort.map key)

theorem refine_failed {c : Chain} (h : Compared name key literal v (.ok (.failed c))) :
    Compared name' id literal v (.ok (.failed c)) := by
  rcases h with - | - | ⟨hkind, hnot, hnot'⟩
  exact .exactly_differs hkind (fun h => hnot (h.map key)) fun h => hnot' (h.map key)

end Compared

/-! ### The two primitives -/

namespace Primitive

theorem compared_tag (literal : Chunk) (v : View) : Compared "tag" id literal v ((tag literal).parse v) := by
  rw [parse]
  by_cases hk : literal.kind = v.kind
  · rw [parseTag_of_kind hk]
    split
    · next hbegins =>
      have hle : literal.length ≤ v.length := by simpa using hbegins.length_le
      rw [consume_of_le hle]
      exact .exactly_begins hk hbegins
    · split
      · next hshort =>
        rw [missing_of_pos (by omega)]
        exact .exactly_short hk hshort.1 hshort.2
      · next hnot hshort =>
        refine .exactly_differs hk hnot fun hends => ?_
        have hle : literal.length ≤ v.length := Nat.not_lt.1 fun hlt => hshort ⟨hlt, hends⟩
        exact hnot (prefix_of_length_le hends (by simpa using hle))
  · rw [parseTag, checkKind_of_ne hk]
    exact .otherKind hk

theorem compared_tagNoCase (literal : Chunk) (v : View) :
    Compared "tag_no_case" Symbol.lower literal v ((tagNoCase literal).parse v) := by
  rw [parse]
  by_cases hk : literal.kind = v.kind
  · rw [parseTagNoCase_of_kind hk]
    split
    · next hdiffers =>
      rw [any_zip_key_ne_iff] at hdiffers
      exact .differs hk hdiffers.1 hdiffers.2
    · next hagree =>
      have hnested := prefix_or_prefix_of_any_zip hagree
      split
      · next hlt =>
        rw [missing_of_pos (by omega)]
        refine .short hk hlt (hnested.resolve_left fun h => ?_)
        exact absurd (Compared.length_le_of_begins h) (Nat.not_le.2 hlt)
      · next hle =>
        rw [consume_of_le (Nat.not_lt.1 hle)]
        refine .begins hk (hnested.elim id fun h => prefix_of_length_le h ?_)
        simpa using Nat.not_lt.1 hle
  · rw [parseTagNoCase, checkKind_of_ne hk]
    exact .otherKind hk

end Primitive

theorem Value.nonemptyLiteral_chunk {c : Chunk} (hc : c.length ≠ 0) (word : String) :
    (Value.chunk c).nonemptyLiteral word = .ok c.fix := by
  rw [← c.length_fix] at hc
  show (if c.fix.length = 0 then _ else _) = _
  rw [if_neg hc]
  rfl

namespace Grammar
variable {c d : Chunk} {v : View} {r : Except Fault (Outcome Value)}

theorem tag_chunk (hc : c.length ≠ 0) : tag (.chunk c) = .ok (primitive (.tag c.fix)) := by
  rw [tag, Value.nonemptyLiteral_chunk hc]
  rfl

theorem tagNoCase_chunk (hc : c.length ≠ 0) : tagNoCase (.chunk c) = .ok (primitive (.tagNoCase c.fix)) := by
  rw [tagNoCase, Value.nonemptyLiteral_chunk hc]
  rfl

theorem yields_primitive_iff {R : Except Fault (Outcome Value) → Prop} (p : Primitive) (hp : R (p.parse v))
    (hunique : ∀ {r r'}, R r → R r' → r = r') : (primitive p).Yields defs v r ↔ R r := by
  constructor
  · intro hr
    rwa [hr.unique (yields_primitive defs p v)]
  · intro hr
    rw [hunique hr hp]
    exact yields_primitive defs p v

theorem yields_tag_iff (defs : Definitions) (c : Chunk) (v : View) (r : Except Fault (Outcome Value)) :
    (primitive (.tag c.fix)).Yields defs v r ↔ Compared "tag" id c v r :=
  yields_primitive_iff (.tag c.fix) (Primitive.compared_tag c.fix v).fix Compared.unique

theorem yields_tagNoCase_iff (defs : Definitions) (c : Chunk) (v : View) (r : Except Fault (Outcome Value)) :
    (primitive (.tagNoCase c.fix)).Yields defs v r ↔ Compared "tag_no_case" Symbol.lower c v r :=
  yields_primitive_iff (.tagNoCase c.fix) (Primitive.compared_tagNoCase c.fix v).fix Compared.unique

/-- How `g`, which looks for a literal exactly, and `h`, which looks for it in any case, are related. -/
structure LiteralLaw (defs : Definitions) (c : Chunk) (g h : Grammar) : Prop where
  exactly : ∀ v r, g.Yields defs v r ↔ Compared "tag" id c v r
  anyCase : ∀ v r, h.Yields defs v r ↔ Compared "tag_no_case" Symbol.lower c v r
  decided : ∀ v, c.kind = v.kind → (∃ o, g.Yields defs v (.ok o)) ∧ ∃ o, h.Yields defs v (.ok o)
  otherKind : ∀ v, c.kind ≠ v.kind → ∃ f f', g.Yields defs v (.error f) ∧ h.Yields defs v (.error f') ∧
    f.label = "TypeError" ∧ f'.label = "TypeError"
  done : ∀ v rest x, g.Yields defs v (.ok (.done rest x)) → h.Yields defs v (.ok (.done rest x))
  incomplete : ∀ v k, g.Yields defs v (.ok (.incomplete k)) → h.Yields defs v (.ok (.incomplete k))
  failed : ∀ v e, h.Yields defs v (.ok (.failed e)) → g.Yields defs v (.ok (.failed e))
  respelled : ∀ d : Chunk, d.symbols.map Symbol.lower = c.symbols.map Symbol.lower →
    ∃ k, tagNoCase (.chunk d) = .ok k ∧ ∀ v r, k.Yields defs v r ↔ h.Yields defs v r

theorem exists_outcome_of_compared {name : String} {key : Symbol → κ} {p : Primitive} (hk : c.kind = v.kind)
    (hp : ∀ r, (primitive p).Yields defs v r ↔ Compared name key c v r) :
    ∃ o, (primitive p).Yields defs v (.ok o) := by
  have hyields := yields_primitive defs p v
  obtain ⟨o, ho⟩ := ((hp _).1 hyields).exists_outcome hk
  exact ⟨o, ho ▸ hyields⟩

/-- A literal that is not empty is found exactly where the view begins with its symbols, and in any case where it does
so up to the case of each symbol. A view that ends too early leaves it undecided, with the number of symbols that are
missing; everything else is a failure, and input of the other kind a fault. -/
theorem literal_trichotomy (defs : Definitions) {c : Chunk} (hc : c.length ≠ 0) :
    ∃ g h, tag (.chunk c) = .ok g ∧ tagNoCase (.chunk c) = .ok h ∧ LiteralLaw defs c g h := by
  have htag := yields_tag_iff defs c
  have hnoCase := yields_tagNoCase_iff defs c
  refine ⟨_, _, tag_chunk hc, tagNoCase_chunk hc, ?_⟩
  exact {
    exactly := htag
    anyCase := hnoCase
    decided v hk := ⟨exists_outcome_of_compared hk (htag v), exists_outcome_of_compared hk (hnoCase v)⟩
    otherKind v hk := ⟨_, _, (htag v _).2 (.otherKind hk), (hnoCase v _).2 (.otherKind hk), rfl, rfl⟩
    done v rest x h := (hnoCase v _).2 ((htag v _).1 h).coarsen_done
    incomplete v k h := (hnoCase v _).2 ((htag v _).1 h).coarsen_incomplete
    failed v e h := (htag v _).2 ((hnoCase v _).1 h).refine_failed
    respelled d hlower := by
      have hlength : d.length = c.length := by simpa using congrArg List.length hlower
      have hkind := Chunk.kind_eq_of_lower hc hlower
      refine ⟨_, tagNoCase_chunk (hlength ▸ hc), fun v r => ?_⟩
      rw [yields_tagNoCase_iff, hnoCase]
      exact ⟨.congr hkind hlower, .congr hkind.symm hlower.symm⟩ }

/-- The name of a method, in mixed case and all in capitals. -/
def mixedName : Chunk := .bytes .growable [71, 101, 84]

def capitalName : Chunk := .bytes .fixed [71, 69, 84]

def requestWindow : View := ⟨⟨0, .bytes .window [10, 71, 101, 84, 32, 47]⟩, .ofNat 1, 5, by decide⟩

theorem literal_trichotomy_requestWindow :
    mixedName.length ≠ 0 ∧ capitalName.symbols.map Symbol.lower = mixedName.symbols.map Symbol.lower ∧
    ∃ g h k, tag (.chunk mixedName) = .ok g ∧ tagNoCase (.chunk mixedName) = .ok h ∧
      tagNoCase (.chunk capitalName) = .ok k ∧
      g.Yields noDefinitions requestWindow (.ok (.done (requestWindow.drop 3) (.view (requestWindow.take 3)))) ∧
      h.Yields noDefinitions requestWindow (.ok (.done (requestWindow.drop 3) (.view (requestWindow.take 3)))) ∧
      k.Yields noDefinitions requestWindow (.ok (.done (requestWindow.drop 3) (.view (requestWindow.take 3)))) ∧
      k.Yields noDefinitions (requestWindow.take 2) (.ok (.incomplete (.exact (.int 1)))) := by
  have hc : mixedName.length ≠ 0 := by decide
  have hlower : capitalName.symbols.map Symbol.lower = mixedName.symbols.map Symbol.lower := by decide
  obtain ⟨g, h, hg, hh, law⟩ := literal_trichotomy noDefinitions hc
  obtain ⟨k, hk, hsame⟩ := law.respelled capitalName hlower
  have hexact := (law.exactly requestWindow _).2 (.begins (by decide) (by decide))
  have hcut : Compared "tag" id mixedName (requestWindow.take 2) (.ok (.incomplete (.exact (.int 1)))) :=
    .short (by decide) (by decide) (by decide)
  refine ⟨hc, hlower, g, h, k, hg, hh, hk, hexact, law.done _ _ _ hexact, ?_, ?_⟩
  · exact (hsame _ _).2 (law.done _ _ _ hexact)
  · exact (hsame _ _).2 (law.incomplete _ _ ((law.exactly _ _).2 hcut))

end Grammar
end StreamGrammar
